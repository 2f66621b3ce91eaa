import Mathlib
import MpRpc.Client
import MpRpc.Server

/-!
# Decoding — what leaves the decoding of untrusted data

The constructor of `message` translates `msgpack::parse_error` only. Truncated data
make `msgpack::unpack` throw the sibling class `msgpack::insufficient_bytes`, which is
no `mprpc::exception`: it passes the `catch` clauses of the server, of the client and
of the transports, and ends in the worker thread.
-/

namespace MpRpc

open Msgpack

/-- The exception is an `mprpc::exception`, which the library catches. -/
def StdException.OfLibrary (ex : StdException) : Prop := ∃ info, ex = .exception info

/-! ## The constructor of `message` -/

theorem unpack_eq_insufficientBytes {d : Bytes} :
    unpack d = .error .insufficientBytes ↔ framer.Unfinished d := by
  unfold unpack Framer.Unfinished
  show _ ↔ Msgpack.parse d = .incomplete
  unfold Msgpack.parse
  obtain ⟨evs, ret⟩ := parseEvents d
  cases ret <;> simp

/-- **What the constructor throws**: an `mprpc::exception`, or `insufficient_bytes` for
the beginning of an object. -/
theorem Message.ofData_error {d : MessageData} {ex : StdException}
    (h : Message.ofData d = .error ex) :
    ex.OfLibrary ∨ ex = .insufficientBytes ∧ framer.Unfinished d := by
  unfold Message.ofData at h
  split at h
  · cases h
    exact .inl ⟨_, rfl⟩
  · rename_i hunpack
    cases h
    exact .inr ⟨rfl, unpack_eq_insufficientBytes.mp hunpack⟩
  · split at h
    · cases h
      exact .inl ⟨_, rfl⟩
    · cases h

theorem Message.ofData_of_unfinished {d : MessageData} (h : framer.Unfinished d) :
    Message.ofData d = .error .insufficientBytes := by
  simp only [Message.ofData, unpack_eq_insufficientBytes.mpr h]

theorem Message.ofData_error_of_finished {d : MessageData} (hd : ¬ framer.Unfinished d)
    {ex : StdException} (h : Message.ofData d = .error ex) : ex.OfLibrary := by
  rcases Message.ofData_error h with hlibrary | ⟨-, hunfinished⟩
  · exact hlibrary
  · exact absurd hunfinished hd

/-! ## Those who call it -/

theorem Server.exists_asyncProcessMessage {A : Type*} {d : MessageData}
    (hd : ¬ framer.Unfinished d) (s : Server A) (origin session : Nat) :
    ∃ t, s.asyncProcessMessage origin session d = .ok t := by
  unfold Server.asyncProcessMessage
  cases hmsg : Message.ofData d with
  | ok msg => exact ⟨_, rfl⟩
  | error ex =>
    obtain ⟨info, rfl⟩ := Message.ofData_error_of_finished hd hmsg
    exact ⟨_, rfl⟩

namespace Client

variable {H : Type*}

theorem setErrorAll_ofLibrary {error : ErrorInfo} {rs : List Nat} {s : Client H}
    {ex : StdException} (h : (setErrorAll error rs s).2 = some ex) : ex.OfLibrary := by
  induction rs generalizing s with
  | nil => cases h
  | cons r rs ih =>
    rw [setErrorAll] at h
    split at h
    · cases h
      exact ⟨_, rfl⟩
    · exact ih h

theorem receive_ofLibrary {d : MessageData} (hd : ¬ framer.Unfinished d) {s : Client H}
    {ex : StdException} (h : s.receive d = .error ex) : ex.OfLibrary := by
  unfold receive at h
  split at h
  · rename_i hmsg
    cases h
    exact Message.ofData_error_of_finished hd hmsg
  · split at h
    · cases h
      exact ⟨_, rfl⟩
    · split at h
      · cases h
      · split at h
        · cases h
          exact ⟨_, rfl⟩
        · cases h

/-- What leaves `on_read` after a successful read of data that are no beginning of an
object is caught by the transport. -/
theorem onRead_ofLibrary {d : MessageData} (hd : ¬ framer.Unfinished d) {s : Client H}
    {order : List Msgid} {ex : StdException} (h : (s.onRead {} d order).2 = some ex) :
    ex.OfLibrary := by
  rw [onRead, ErrorInfo.hasError_default, if_neg Bool.false_ne_true] at h
  cases hreceive : s.doRead.receive d with
  | ok t =>
    rw [hreceive] at h
    cases h
  | error ex' =>
    obtain ⟨info, rfl⟩ := receive_ofLibrary hd hreceive
    rw [hreceive] at h
    exact setErrorAll_ofLibrary h

/-- What the constructor of `message` throws is caught: the `catch` clause tells all
requests. -/
theorem onRead_of_ofData_error {d : MessageData} (hd : ¬ framer.Unfinished d) (s : Client H)
    (order : List Msgid) {ex : StdException} (h : Message.ofData d = .error ex) :
    s.onRead {} d order = s.doRead.broadcast {} order := by
  obtain ⟨info, rfl⟩ := Message.ofData_error_of_finished hd h
  simp only [onRead, ErrorInfo.hasError_default, Bool.false_eq_true, if_false, receive, h]

/-- Nothing is recorded as thrown or as caught. -/
structure SameRecord (s t : Client H) : Prop where
  thrown : t.thrown = s.thrown
  caught : t.caught = s.caught

theorem sameRecord_setErrorAll (error : ErrorInfo) (rs : List Nat) (s : Client H) :
    SameRecord s (setErrorAll error rs s).1 := by
  induction rs generalizing s with
  | nil => exact ⟨rfl, rfl⟩
  | cons r rs ih =>
    rw [setErrorAll]
    split
    · exact ⟨rfl, rfl⟩
    · rename_i future hfuture
      have hrest := ih (s.setFuture r future)
      exact ⟨hrest.thrown, hrest.caught⟩

theorem sameRecord_receive {s t : Client H} {d : MessageData} (h : s.receive d = .ok t) :
    SameRecord s t := by
  unfold receive at h
  split at h
  · cases h
  · split at h
    · cases h
    · split at h
      · cases h
        exact ⟨rfl, rfl⟩
      · split at h
        · cases h
        · cases h
          exact ⟨rfl, rfl⟩

theorem sameRecord_onRead (s : Client H) (d : MessageData) (order : List Msgid) :
    SameRecord s (s.onRead {} d order).1 := by
  rw [onRead, ErrorInfo.hasError_default, if_neg Bool.false_ne_true]
  split
  · rename_i t hreceive
    have hsame := sameRecord_receive hreceive
    exact ⟨hsame.thrown, hsame.caught⟩
  · have hsame := sameRecord_setErrorAll {} (order.filterMap s.doRead.requests.lookup) s.doRead
    exact ⟨hsame.thrown, hsame.caught⟩
  · exact ⟨rfl, rfl⟩

/-- **The transport catches what leaves `on_read`.** -/
theorem escapeToTransport_onRead {d : MessageData} (hd : ¬ framer.Unfinished d) (s : Client H)
    (order : List Msgid) :
    ∃ infos : List ErrorInfo,
      (escapeToTransport (s.onRead {} d order)).thrown = s.thrown ++ infos.map .exception ∧
      (escapeToTransport (s.onRead {} d order)).caught = s.caught ++ infos := by
  obtain ⟨hthrown, hcaught⟩ := sameRecord_onRead s d order
  have hlibrary : ∀ ex, (s.onRead {} d order).2 = some ex → ex.OfLibrary :=
    fun ex => onRead_ofLibrary hd
  generalize s.onRead {} d order = out at hthrown hcaught hlibrary
  obtain ⟨t, left⟩ := out
  cases left with
  | none =>
    refine ⟨[], hthrown.trans ?_, hcaught.trans ?_⟩
    · simp
    · simp
  | some ex =>
    obtain ⟨info, rfl⟩ := hlibrary ex rfl
    refine ⟨[info], ?_, congrArg (· ++ [info]) hcaught⟩
    exact congrArg (· ++ [StdException.exception info]) hthrown

end Client

/-! ## Every byte string -/

/-- Decoding `d` fails with the library's exception only, and nothing of it escapes from
the server or the client, whatever their states are. -/
structure DecodesSafely (A H : Type*) (d : MessageData) : Prop where
  message : ∀ ex, Message.ofData d = .error ex → ex.OfLibrary
  server : ∀ (s : Server A) (origin session : Nat),
    ∃ t, s.asyncProcessMessage origin session d = .ok t
  /-- `on_read` catches what the constructor of `message` throws -/
  caught : ∀ (s : Client H) (order : List Msgid) (ex : StdException),
    Message.ofData d = .error ex → s.onRead {} d order = s.doRead.broadcast {} order
  /-- what leaves `on_read` comes from the requests that are told, and is the library's -/
  client : ∀ (s : Client H) (order : List Msgid) (ex : StdException),
    (s.onRead {} d order).2 = some ex → ex.OfLibrary
  /-- the transport catches it, and nothing gets into the worker thread -/
  transport : ∀ (s : Client H) (order : List Msgid), ∃ infos : List ErrorInfo,
    (Client.escapeToTransport (s.onRead {} d order)).thrown = s.thrown ++ infos.map .exception ∧
    (Client.escapeToTransport (s.onRead {} d order)).caught = s.caught ++ infos

/-- **Decoding is safe exactly if the data are no beginning of a msgpack object** that has
not come to its end. -/
theorem decodesSafely_iff_not_unfinished (A H : Type*) (d : MessageData) :
    DecodesSafely A H d ↔ ¬ framer.Unfinished d := by
  constructor
  · intro h hunfinished
    obtain ⟨info, hinfo⟩ := h.message _ (Message.ofData_of_unfinished hunfinished)
    cases hinfo
  · intro hd
    exact ⟨fun ex => Message.ofData_error_of_finished hd, Server.exists_asyncProcessMessage hd,
      fun s order ex => Client.onRead_of_ofData_error hd s order,
      fun s order ex => Client.onRead_ofLibrary hd, Client.escapeToTransport_onRead hd⟩

/-- An empty datagram and the header of an array of four: neither the server nor the
client catches what they lead to. -/
theorem truncated_data_escape :
    Message.ofData [] = .error .insufficientBytes ∧
      Message.ofData [0x94] = .error .insufficientBytes ∧
      ({} : Server Unit).asyncProcessMessage 0 0 [0x94] = .error .insufficientBytes ∧
      (({} : Client Unit).onRead {} [0x94] []).2 = some .insufficientBytes ∧
      ¬ DecodesSafely Unit Unit [] ∧ ¬ DecodesSafely Unit Unit [0x94] := by
  have hempty : framer.Unfinished [] := rfl
  have hheader : framer.Unfinished [0x94] := rfl
  refine ⟨rfl, rfl, rfl, rfl, ?_, ?_⟩
  · intro h
    obtain ⟨info, hinfo⟩ := h.message _ (Message.ofData_of_unfinished hempty)
    cases hinfo
  · intro h
    obtain ⟨info, hinfo⟩ := h.message _ (Message.ofData_of_unfinished hheader)
    cases hinfo

end MpRpc

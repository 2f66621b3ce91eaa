import MpRpc.Relay
import MpRpc.Transport.StreamSocket
import MpRpc.Udp.Codec

/-!
# Link — messages from one UDP socket to another

`udp_common::async_write` at one end, the network, and `udp_common::async_read` at the
other. A datagram may be lost and may overtake others; it arrives once, if at all. That is
an assumption: nothing in the program recognises a datagram that the network has
duplicated. Datagrams that are longer than `datagram_buf_size` of the receiver would be
cut off and are not considered.
-/

namespace MpRpc.Udp

open Transport (ReadCall)

/-! ## Sending -/

/-- The writing half of a socket, and the datagrams on their way from it, each with the
message that it was made of. -/
structure Outbox (K : DatagramCodec) where
  compressor : K.Sender := K.sender
  /-- `do_write` closures that wait on the strand -/
  posted : List MessageData := []
  flying : List (MessageData × Bytes) := []

namespace Outbox

variable {K : DatagramCodec} {bufSize : Nat} {s t : Outbox K} {held : Multiset MessageData}

inductive Event (K : DatagramCodec) where
  /-- the strand runs `do_write`; `sent` says whether `async_send_to` succeeds -/
  | write (choice : K.SendChoice) (sent : Bool)
  | lose (i : Nat)
  /-- datagram `i` is received; `choice` is for the parser there -/
  | arrive (i : Nat) (choice : K.ReadChoice)

/-- `do_write`. An exception of the compressor leaves it. -/
def doWrite (s : Outbox K) (data : MessageData) (choice : K.SendChoice) (sent : Bool) : Outbox K :=
  match K.compressor.compress s.compressor data choice with
  | (some (.ok bytes), compressor) =>
      { s with compressor, flying := s.flying ++ if sent then [(data, bytes)] else [] }
  | (_, compressor) => { s with compressor }

/-- What is put in is written with `async_write`, and what arrives is given out. -/
def relay (K : DatagramCodec) (bufSize : Nat) :
    Relay (Outbox K) (Event K) MessageData ((MessageData × Bytes) × K.ReadChoice) where
  init := {}
  put s data := some { s with posted := s.posted ++ [data] }
  step s
    | .write choice sent =>
        match s.posted with
        | [] => none
        | data :: posted => some (({ s with posted }).doWrite data choice sent, none)
    | .lose i =>
        if i < s.flying.length then some ({ s with flying := s.flying.eraseIdx i }, none) else none
    | .arrive i choice =>
        match s.flying[i]? with
        | none => none
        | some datagram =>
            if datagram.2.length ≤ bufSize then
              some ({ s with flying := s.flying.eraseIdx i }, some (datagram, choice))
            else none

/-- Every datagram carries its message, and the messages are among `held`. -/
structure Holds (s : Outbox K) (held : Multiset MessageData) : Prop where
  carries : ∀ datagram ∈ s.flying, K.Carries datagram.1 datagram.2
  messages : (s.posted : Multiset MessageData) + (s.flying.map Prod.fst : Multiset _) ≤ held

theorem Holds.mono {held' : Multiset MessageData} (h : s.Holds held) (hle : held ≤ held') :
    s.Holds held' :=
  ⟨h.carries, h.messages.trans hle⟩

theorem Holds.put (h : s.Holds held) (data : MessageData) :
    Holds { s with posted := s.posted ++ [data] } (data ::ₘ held) := by
  refine ⟨h.carries, ?_⟩
  rw [← Multiset.coe_add, Multiset.coe_singleton, add_right_comm, Multiset.add_comm,
    Multiset.singleton_add]
  exact Multiset.cons_le_cons data h.messages

/-- **`do_write`** makes a datagram of the message, or drops it. -/
theorem Holds.doWrite {data : MessageData} {posted : List MessageData} (h : s.Holds held)
    (hposted : s.posted = data :: posted) (choice : K.SendChoice) (sent : Bool) :
    (({ s with posted } : Outbox K).doWrite data choice sent).Holds held := by
  have hmessages := h.messages
  rw [hposted, ← Multiset.cons_coe, Multiset.cons_add] at hmessages
  have hdropped : ∀ compressor, Holds { s with posted, compressor } held := fun _ =>
    ⟨h.carries, (Multiset.le_cons_self _ data).trans hmessages⟩
  have hcarries := @K.carries_compress s.compressor data choice
  unfold Outbox.doWrite
  simp only
  generalize K.compressor.compress s.compressor data choice = out at hcarries
  obtain ⟨result, compressor⟩ := out
  cases result with
  | none => exact hdropped compressor
  | some result =>
    cases result with
    | error info => exact hdropped compressor
    | ok bytes =>
      cases sent with
      | false =>
        simp only [Bool.false_eq_true, if_false, List.append_nil]
        exact hdropped compressor
      | true =>
        refine ⟨?_, ?_⟩
        · intro datagram hmem
          rcases List.mem_append.mp hmem with hmem | hmem
          · exact h.carries datagram hmem
          · cases List.mem_singleton.mp hmem
            exact hcarries rfl
        · simp only [if_true, List.map_append, List.map_cons, List.map_nil, ← Multiset.coe_add,
            Multiset.coe_singleton, ← add_assoc]
          rw [Multiset.add_comm, Multiset.singleton_add]
          exact hmessages

/-- **A datagram leaves the network.** -/
theorem Holds.take {i : Nat} {datagram : MessageData × Bytes} (h : s.Holds held)
    (hi : s.flying[i]? = some datagram) :
    ∃ rest, held = datagram.1 ::ₘ rest ∧ K.Carries datagram.1 datagram.2 ∧
      Holds { s with flying := s.flying.eraseIdx i } rest := by
  have hle := h.messages
  have hperm := (perm_cons_eraseIdx hi).map Prod.fst
  rw [← Multiset.coe_eq_coe.mpr hperm, List.map_cons, ← Multiset.cons_coe,
    Multiset.add_cons] at hle
  obtain ⟨more, rfl⟩ := Multiset.le_iff_exists_add.mp hle
  refine ⟨_, Multiset.cons_add _ _ more, h.carries datagram (List.mem_of_getElem? hi), ?_, ?_⟩
  · intro other hmem
    exact h.carries other (List.mem_of_mem_eraseIdx hmem)
  · exact Multiset.le_add_right _ _

/-- **A move of the network.** -/
theorem Holds.step {e : Event K} {out : Option ((MessageData × Bytes) × K.ReadChoice)}
    (h : s.Holds held) (hs : (relay K bufSize).step s e = some (t, out)) :
    out = none ∧ t.Holds held ∨
      ∃ datagram choice rest, out = some (datagram, choice) ∧ held = datagram.1 ::ₘ rest ∧
        K.Carries datagram.1 datagram.2 ∧ t.Holds rest := by
  cases e with
  | write choice sent =>
    simp only [relay] at hs
    split at hs
    · cases hs
    · rename_i data posted hposted
      cases hs
      exact .inl ⟨rfl, h.doWrite hposted choice sent⟩
  | lose i =>
    simp only [relay, Option.ite_none_right_eq_some, Option.some.injEq] at hs
    obtain ⟨hi, heq⟩ := hs
    cases heq
    obtain ⟨rest, rfl, -, hrest⟩ := h.take (List.getElem?_eq_getElem hi)
    exact .inl ⟨rfl, hrest.mono (Multiset.le_cons_self _ _)⟩
  | arrive i choice =>
    simp only [relay] at hs
    split at hs
    · cases hs
    · rename_i datagram hi
      simp only [Option.ite_none_right_eq_some, Option.some.injEq] at hs
      obtain ⟨-, heq⟩ := hs
      cases heq
      obtain ⟨rest, hheld, hcarries, hrest⟩ := h.take hi
      exact .inr ⟨datagram, choice, rest, rfl, hheld, hcarries, hrest⟩

/-- **The ledger of the network**: every datagram that arrives carries a message that was
written, each of them at most once. -/
def ledger (K : DatagramCodec) (bufSize : Nat) :
    (relay K bufSize).Ledger (fun _ => True) Relay.AnyMove
      (fun data arrival => arrival.1.1 = data ∧ K.Carries arrival.1.1 arrival.1.2)
      (fun _ => False) where
  Holds := Holds
  init := ⟨by simp [relay], by simp [relay]⟩
  put := by
    intro s t held data h _ hs
    cases hs
    exact h.put data
  silent := by
    intro s t held e h _ _ hs
    rcases h.step hs with ⟨-, ht⟩ | ⟨datagram, choice, rest, hout, -⟩
    · exact ht
    · cases hout
  gives := by
    intro s t held e arrival h _ _ hs
    rcases h.step hs with ⟨hout, -⟩ | ⟨datagram, choice, rest, hout, hheld, hcarries, hrest⟩
    · cases hout
    · cases hout
      exact .inl ⟨_, rest, hheld, ⟨rfl, hcarries⟩, hrest⟩

end Outbox

/-! ## Receiving -/

/-- One direction of the traffic, up to the handler of the receiving end. -/
structure UdpLink (K : DatagramCodec) (E : Type*) where
  outbox : Outbox K := {}
  reader : Reader K.Reader E := { parser := K.reader }

namespace UdpLink

variable {K : DatagramCodec} {E : Type*} {bufSize : Nat} {peer : E} {s t : UdpLink K E}
  {held : Multiset MessageData}

inductive Event (K : DatagramCodec) where
  /-- the strand of the sender runs `do_write` -/
  | write (choice : K.SendChoice) (sent : Bool)
  | lose (i : Nat)
  /-- the strand of the receiver runs `do_read` -/
  | asyncRead
  /-- the read that waits receives datagram `i` -/
  | receive (read i : Nat) (choice : K.ReadChoice)
  /-- the read that waits fails; a datagram comes from nobody -/
  | fail (read : Nat) (received : Received Empty) (choice : K.ReadChoice)

/-- The handler of `udp_connector::async_read`, as the client knows it. -/
def readCall (arguments : HandlerArguments E) : ReadCall :=
  if arguments.error.hasError then .error arguments.error else .message arguments.data

/-- The call that an event has added. -/
def given (r u : Reader K.Reader E) : Option ReadCall :=
  (u.calls.drop r.calls.length).head?.map fun entry => readCall entry.2

/-- A failure of a receive. -/
def failure : Received Empty → Received E
  | .operationAborted => .operationAborted
  | .eof => .eof
  | .failed message => .failed message
  | .datagram sender _ => sender.elim

/-- The `async_receive_from` of a read completes. -/
def complete (s : UdpLink K E) (outbox : Outbox K) (read : Nat) (received : Received E)
    (choice : K.ReadChoice) : Option (UdpLink K E × Option ReadCall) :=
  (s.reader.step K.parser (.completed read received none choice)).map fun reader =>
    (⟨outbox, reader⟩, given s.reader reader)

/-- The link, with datagrams of `peer`. The handler issues the next read. -/
def relay (K : DatagramCodec) (bufSize : Nat) (peer : E) :
    Relay (UdpLink K E) (Event K) MessageData ReadCall where
  init := {}
  put s data := ((Outbox.relay K bufSize).put s.outbox data).map fun outbox => { s with outbox }
  step s
    | .write choice sent =>
        ((Outbox.relay K bufSize).step s.outbox (.write choice sent)).map fun out =>
          ({ s with outbox := out.1 }, none)
    | .lose i =>
        ((Outbox.relay K bufSize).step s.outbox (.lose i)).map fun out =>
          ({ s with outbox := out.1 }, none)
    | .asyncRead =>
        if s.reader.waiting = [] then
          (s.reader.step K.parser .asyncRead).map fun reader => ({ s with reader }, none)
        else none
    | .receive read i choice =>
        match (Outbox.relay K bufSize).step s.outbox (.arrive i choice) with
        | some (outbox, some arrival) =>
            s.complete outbox read (.datagram peer arrival.1.2) arrival.2
        | _ => none
    | .fail read received choice => s.complete s.outbox read (failure received) choice

theorem given_call (r : Reader K.Reader E) (parser : K.Reader) (waiting : List Nat) (read : Nat)
    (arguments : HandlerArguments E) :
    given r (({ r with parser, waiting } : Reader K.Reader E).call read arguments) =
      some (readCall arguments) := by
  simp [given, Reader.call]

theorem given_silent (r : Reader K.Reader E) (parser : K.Reader) (waiting : List Nat) :
    given r ({ r with parser, waiting } : Reader K.Reader E) = none := by
  simp [given]

/-- The reading half goes on with the completion. -/
theorem complete_eq_some {outbox : Outbox K} {read : Nat} {received : Received E}
    {choice : K.ReadChoice} {call : Option ReadCall}
    (hs : s.complete outbox read received choice = some (t, call)) :
    t.outbox = outbox ∧ ∃ waiting, call = given s.reader
      (({ s.reader with waiting } : Reader K.Reader E).onRead K.parser read none choice
        received) := by
  simp only [complete, Reader.step, Option.map_eq_some_iff, Option.ite_none_right_eq_some,
    Option.some.injEq] at hs
  obtain ⟨reader, ⟨-, rfl⟩, heq⟩ := hs
  cases heq
  exact ⟨rfl, _, rfl⟩

/-- **A failed receive** leads to a call with an error, or to none. -/
theorem complete_failure {outbox : Outbox K} {read : Nat} {received : Received Empty}
    {choice : K.ReadChoice} {call : Option ReadCall}
    (hs : s.complete outbox read (failure received) choice = some (t, call)) :
    t.outbox = outbox ∧ ∀ c, call = some c → ∃ info, c = .error info ∧ info.hasError = true := by
  obtain ⟨houtbox, waiting, rfl⟩ := complete_eq_some hs
  refine ⟨houtbox, ?_⟩
  intro c hc
  cases received with
  | operationAborted =>
    rw [failure, Reader.onRead, given_silent] at hc
    cases hc
  | eof =>
    rw [failure, Reader.onRead, given_call] at hc
    cases hc
    exact ⟨_, rfl, rfl⟩
  | failed message =>
    rw [failure, Reader.onRead, given_call] at hc
    cases hc
    exact ⟨_, rfl, rfl⟩
  | datagram sender bytes => exact sender.elim

/-- **A datagram** leads to a call with the message in it, or to none. -/
theorem complete_datagram {outbox : Outbox K} {read : Nat} {bytes : Bytes} {data : MessageData}
    {choice : K.ReadChoice} {call : Option ReadCall} (hcarries : K.Carries data bytes)
    (hs : s.complete outbox read (.datagram peer bytes) choice = some (t, call)) :
    t.outbox = outbox ∧ ∀ c, call = some c → c = .message data := by
  obtain ⟨houtbox, waiting, rfl⟩ := complete_eq_some hs
  refine ⟨houtbox, ?_⟩
  intro c hc
  have hparse := K.parse_carries (p := s.reader.parser) choice hcarries
  simp only [Reader.onRead] at hc
  generalize K.parser.parse s.reader.parser bytes choice = out at hparse hc
  obtain ⟨result, parser⟩ := out
  rcases hparse with hnone | hok
  · cases hnone
    rw [given_silent] at hc
    cases hc
  · cases hok
    simp only [Reader.deliver, given_call] at hc
    cases hc
    rfl

/-- **A move of the link.** -/
theorem holds_step {e : Event K} {call : Option ReadCall} (h : s.outbox.Holds held)
    (hs : (relay K bufSize peer).step s e = some (t, call)) :
    t.outbox.Holds held ∧ (∀ c, call = some c → ∃ info, c = .error info ∧ info.hasError = true) ∨
      ∃ data rest, held = data ::ₘ rest ∧ t.outbox.Holds rest ∧
        ∀ c, call = some c → c = .message data := by
  have hsend : ∀ {e' : Outbox.Event K},
      ((Outbox.relay K bufSize).step s.outbox e').map (fun out =>
        (({ s with outbox := out.1 } : UdpLink K E), (none : Option ReadCall))) = some (t, call) →
      t.outbox.Holds held ∧
        ∀ c, call = some c → ∃ info, c = .error info ∧ info.hasError = true := by
    intro e' hs
    obtain ⟨⟨outbox, out⟩, hout, heq⟩ := Option.map_eq_some_iff.mp hs
    cases heq
    refine ⟨?_, by rintro c ⟨⟩⟩
    rcases h.step hout with ⟨-, ht⟩ | ⟨datagram, choice, rest, -, rfl, -, ht⟩
    · exact ht
    · exact ht.mono (Multiset.le_cons_self _ _)
  cases e with
  | write choice sent => exact .inl (hsend hs)
  | lose i => exact .inl (hsend hs)
  | asyncRead =>
    simp only [relay, Option.ite_none_right_eq_some] at hs
    obtain ⟨-, hs⟩ := hs
    obtain ⟨reader, -, heq⟩ := Option.map_eq_some_iff.mp hs
    cases heq
    exact .inl ⟨h, by rintro c ⟨⟩⟩
  | fail read received choice =>
    obtain ⟨houtbox, hcall⟩ := complete_failure hs
    exact .inl ⟨houtbox ▸ h, hcall⟩
  | receive read i choice =>
    simp only [relay] at hs
    split at hs
    · rename_i outbox arrival hout
      rcases h.step hout with ⟨hnone, -⟩ | ⟨datagram, choice', rest, hsome, hheld, hcarries, ht⟩
      · cases hnone
      · cases hsome
        obtain ⟨houtbox, hcall⟩ := complete_datagram hcarries hs
        exact .inr ⟨_, rest, hheld, houtbox ▸ ht, hcall⟩
    · cases hs

/-- **The ledger of the link**: every message that is handed over was written, and each of
them is handed over at most once; any other call is one with an error. -/
def ledger (K : DatagramCodec) (bufSize : Nat) (peer : E) :
    (relay K bufSize peer).Ledger (fun _ => True) Relay.AnyMove
      (fun data call => call = .message data)
      (fun call => ∃ info, call = .error info ∧ info.hasError = true) where
  Holds s held := s.outbox.Holds held
  init := (Outbox.ledger K bufSize).init
  put := by
    intro s t held data h _ hs
    cases hs
    exact h.put data
  silent := by
    intro s t held e h _ _ hs
    rcases holds_step h hs with ⟨ht, -⟩ | ⟨data, rest, rfl, ht, -⟩
    · exact ht
    · exact ht.mono (Multiset.le_cons_self _ _)
  gives := by
    intro s t held e call h _ _ hs
    rcases holds_step h hs with ⟨ht, hcall⟩ | ⟨data, rest, hheld, ht, hcall⟩
    · exact .inr ⟨hcall call rfl, ht⟩
    · exact .inl ⟨data, rest, hheld, hcall call rfl, ht⟩

end UdpLink

end MpRpc.Udp

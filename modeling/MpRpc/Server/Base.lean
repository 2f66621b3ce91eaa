import MpRpc.ErrorInfo
import MpRpc.Relay.Tally

/-!
# Base — what the servers share

`server` and `python_server_helper` are both a `server_base`: it accepts sessions, keeps a
read outstanding on each of them, and removes a session by a closure that it posts. They
differ in what becomes of a message that is read. Here are the members of `server_base`,
the ways in which an event changes them, and a server seen by the peer of one session.
-/

namespace MpRpc

/-- The members of `server_base` that concern sessions. -/
structure ServerBase where
  sessions : List Nat
  /-- the session of every outstanding `async_read` -/
  reads : List Nat
  /-- the sessions that a posted closure is going to remove -/
  removals : List Nat

namespace ServerBase

variable {b c : ServerBase} {k : Nat}

/-- The session of the read that completes. -/
def sessionRead (b : ServerBase) (read : Option (Nat × ErrorInfo)) : Option Nat :=
  read.bind fun r => b.reads[r.1]?

/-- A message of the peer of session `k` is read. -/
def FromPeer (b : ServerBase) (k : Nat) : Option (Nat × ErrorInfo) → Prop
  | none => False
  | some (i, error) => b.reads[i]? = some k ∧ error.hasError = false

instance (b : ServerBase) (k : Nat) : DecidablePred (b.FromPeer k)
  | none => .isFalse id
  | some (i, error) => inferInstanceAs (Decidable (b.reads[i]? = some k ∧ error.hasError = false))

/-- What an event does to `server_base`, with the session of the read that it completes. -/
inductive Move (b : ServerBase) : Option Nat → ServerBase → Prop
  /-- `on_accept`, and the first read -/
  | accept (session : Nat) :
      Move b none { b with sessions := b.sessions ++ [session], reads := b.reads ++ [session] }
  /-- `on_read`: the session is read on, or is going to be removed -/
  | read {i session : Nat} {again removed : List Nat} (hi : b.reads[i]? = some session)
      (hagain : ∀ x ∈ again, x = session) (hremoved : ∀ x ∈ removed, x = session) :
      Move b (some session)
        { b with reads := b.reads.eraseIdx i ++ again, removals := b.removals ++ removed }
  /-- the closure of `async_remove_session` -/
  | remove {session : Nat} {removals : List Nat} (hsession : session ∈ b.removals)
      (hremovals : ∀ x ∈ removals, x ∈ b.removals) :
      Move b none { b with sessions := b.sessions.erase session, removals }
  /-- anything else; other closures leave the pool -/
  | run {removals : List Nat} (hremovals : ∀ x ∈ removals, x ∈ b.removals) :
      Move b none { b with removals }

/-- While session `k` is read, it is not going to be removed. -/
structure Intact (k : Nat) (b : ServerBase) : Prop where
  session : k ∈ b.reads → k ∈ b.sessions
  kept : k ∉ b.removals

/-- **A move that completes no read of the session** leaves it intact. -/
theorem Intact.move {read : Option Nat} (h : b.Intact k) (hm : b.Move read c)
    (hk : read ≠ some k) : c.Intact k := by
  cases hm with
  | accept session =>
    refine ⟨?_, h.kept⟩
    intro hread
    rcases List.mem_append.mp hread with hread | hread
    · exact List.mem_append_left _ (h.session hread)
    · exact List.mem_append_right _ hread
  | read hi hagain hremoved =>
    refine ⟨?_, ?_⟩
    · intro hread
      rcases List.mem_append.mp hread with hread | hread
      · exact h.session (List.mem_of_mem_eraseIdx hread)
      · exact absurd (congrArg some (hagain k hread).symm) hk
    · rw [List.mem_append, not_or]
      exact ⟨h.kept, fun hremove => hk (congrArg some (hremoved k hremove).symm)⟩
  | remove hsession hremovals =>
    refine ⟨?_, fun hremove => h.kept (hremovals k hremove)⟩
    intro hread
    refine (List.mem_erase_of_ne ?_).mpr (h.session hread)
    rintro rfl
    exact h.kept hsession
  | run hremovals => exact ⟨h.session, fun hremove => h.kept (hremovals k hremove)⟩

/-- A message of an intact session leaves it intact. -/
theorem Intact.readOn {i : Nat} (h : b.Intact k) (hi : b.reads[i]? = some k) (again : List Nat) :
    Intact k { b with reads := b.reads.eraseIdx i ++ again } :=
  ⟨fun _ => h.session (List.mem_of_getElem? hi), h.kept⟩

/-- A server over `server_base`, with the events `ε`. -/
structure Host (σ ε β : Type*) where
  machine : Machine σ ε
  base : σ → ServerBase
  /-- the outstanding read `i` completes with a message -/
  readDone : Nat → MessageData → ε
  /-- the read that an event completes -/
  read : ε → Option (Nat × ErrorInfo)
  /-- what an event of the first state that leads to the second gives to the peer -/
  given : σ → ε → σ → Option β

namespace Host

variable {σ ε β : Type*} {S : Host σ ε β} {s t : σ}

/-- The server as the peer of session `k` sees it. The peer's messages complete the reads
of the session; the other sessions, the order in which the pool runs its closures and
everything that fails are moves of the relay. -/
def relay (S : Host σ ε β) (k : Nat) : Relay σ ε MessageData β where
  init := S.machine.init
  put s data :=
    match (S.base s).reads.findIdx? (· = k) with
    | none => none
    | some i => S.machine.step s (S.readDone i data)
  step s e :=
    if (S.base s).FromPeer k (S.read e) then none
    else (S.machine.step s e).map fun t => (t, S.given s e t)

/-- A message of the peer is read. -/
theorem relay_put {data : MessageData} (hs : (S.relay k).put s data = some t) :
    ∃ i, (S.base s).reads[i]? = some k ∧ S.machine.step s (S.readDone i data) = some t := by
  simp only [relay] at hs
  split at hs
  · cases hs
  · rename_i i hfind
    obtain ⟨hlt, hget, -⟩ := List.findIdx?_eq_some_iff_getElem.mp hfind
    refine ⟨i, ?_, hs⟩
    rw [List.getElem?_eq_getElem hlt]
    simpa using hget

/-- A move of the relay is an event of the server. -/
theorem relay_step {e : ε} {out : Option β} (hs : (S.relay k).step s e = some (t, out)) :
    ¬ (S.base s).FromPeer k (S.read e) ∧ S.machine.step s e = some t ∧ out = S.given s e t := by
  simp only [relay, Option.ite_none_left_eq_some] at hs
  obtain ⟨hpeer, hs⟩ := hs
  obtain ⟨u, hu, heq⟩ := Option.map_eq_some_iff.mp hs
  obtain ⟨rfl, rfl⟩ := Prod.mk.inj heq
  exact ⟨hpeer, hu, rfl⟩

end Host

end ServerBase

end MpRpc

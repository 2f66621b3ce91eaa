import MpRpc.Remote.Answered
import MpRpc.Remote.Sync

/-!
# SyncReturned — which synchronous calls return

Whether a call of `request` has something to return does not depend on its timeout, which
only ends the wait. On a connection on which nothing fails, with nothing under way and no
closure left in the executor of the client, every call of a method of the server whose
promise is installed has it set to what the function gave on the arguments of this call.
-/

namespace MpRpc.SyncRemote

open Msgpack

variable {U I σ τ : Type*}

/-- The executor of the client has run every closure that the future of a caller has
posted. -/
def Idle (s : SyncRemote U I σ τ) : Prop :=
  ∀ c ∈ s.callers, (s.remote.client.future c.request).posted.length ≠ 0 → c.request ∈ s.ran

instance (s : SyncRemote U I σ τ) : Decidable (Idle s) :=
  inferInstanceAs (Decidable (∀ c ∈ s.callers, _))

/-- With an idle executor, a caller whose request is completed has its promise set. -/
theorem Inv.promise_of_idle {s : SyncRemote U I σ τ} (h : Inv s) (hidle : Idle s) {i : Nat}
    {c : SyncCall} (hc : s.callers[i]? = some c) (hwaits : c.waits = true)
    {v : ErrorInfo × Message} (hcompletion : s.remote.client.completion c.request = some v) :
    c.promise.isSome := by
  obtain ⟨owner, howned, howners⟩ := h.owners
  have hkey : (s.callers.map key)[i]? = some (c.request, true) := by
    rw [List.getElem?_map, hc, ← hwaits]
    rfl
  obtain ⟨value, hholds⟩ := howned c.request
  rw [howners.caller i _ _ hkey, if_pos rfl] at hholds
  obtain rfl : value = some v := hholds.completion.symm.trans hcompletion
  have hmem := List.mem_of_getElem? hc
  refine h.ran c hmem (hidle c hmem ?_)
  rw [hholds.posted]
  exact Nat.one_ne_zero

variable {W : Type*}

/-- The caller of `negate(true)` gives up while its request is under way; the response
comes, and the executor sets the promise. -/
def negateLate : List (Event (Transport.StreamLink.Event (Remote.codecOf .none) ⊕ Server.Event Unit)
    (Transport.StreamLink.Event (Remote.codecOf .none)) Unit) :=
  [.other (.front (.inr .accept)), .request negateTrue, .other (.user (.register 0)),
    .getFuture 0, .timeOut 0] ++
    (Remote.carryThrough 1 (packRequest 0 negate.name (Args.pack negate.params (true, ()))) ++
      [Remote.readOn]).map (fun e => .other (.front (.inl e))) ++
    [.other (.front (.inr (.runTask 0 ())))] ++
    (Remote.carryThrough 1 (packResponse 0 (.boolean false)) ++ [Remote.readOn]).map
      (fun e => .other (.back e [0])) ++
    [.runPosted 0]

end MpRpc.SyncRemote

import Mathlib
import MpRpc.Server.Answers
import MpRpc.System

/-!
# Steps — the messages of the system and the steps of its server

What the messages of a proper call say when they are read again, and what one
step of the server does to the input of the client: it posts a closure for what it
reads, and the closure calls the function and writes the response.
-/

namespace MpRpc

open Msgpack

variable {H A W : Type*} {server : SimpleMethodServer A W}

namespace ProperCall

/-- The request message of the call. -/
def data (call : ProperCall server) (id : Msgid) : MessageData :=
  packRequest id call.method call.params

/-- The response to it, when the function is run with `w`. -/
def replyData (call : ProperCall server) (id : Msgid) (w : W) : MessageData :=
  MethodExecutor.respond id (some (call.invocation w))

def reply (call : ProperCall server) (id : Msgid) (w : W) : Message :=
  Message.response id (MethodExecutor.answer (some (call.invocation w))).1
    (MethodExecutor.answer (some (call.invocation w))).2

theorem ofData_data (call : ProperCall server) (id : Msgid) :
    Message.ofData (call.data id) = .ok (Message.request id call.method call.params) :=
  ofData_packRequest id call.methodSized call.paramsPackable

theorem ofData_replyData (call : ProperCall server) (id : Msgid) (w : W) :
    Message.ofData (call.replyData id w) = .ok (call.reply id w) :=
  MethodExecutor.ofData_respond id _

/-- The executor calls the function on the converted parameters. -/
theorem invoke_request (call : ProperCall server) (id : Msgid) (w : W) :
    call.executor.invoke w (Message.request id call.method call.params) =
      some (call.invocation w) := by
  simp [MethodExecutor.invoke, MethodExecutor.paramsAs, Message.request, call.converts, invocation]

end ProperCall

/-- The msgid of the request that a closure serves. -/
def Task.msgid : Task → Option Msgid
  | .process _ _ msg => some msg.msgid
  | .remove _ => none

/-- The msgid that a message carries. -/
def msgidOf (data : MessageData) : Option Msgid :=
  match Message.ofData data with
  | .ok msg => some msg.msgid
  | .error _ => none

@[simp] theorem msgidOf_data (call : ProperCall server) (id : Msgid) :
    msgidOf (call.data id) = some id := by
  rw [msgidOf, call.ofData_data]
  rfl

@[simp] theorem msgidOf_replyData (call : ProperCall server) (id : Msgid) (w : W) :
    msgidOf (call.replyData id w) = some id := by
  rw [msgidOf, call.ofData_replyData]
  rfl

namespace System

variable {s t : System H A}

/-! ## What the server does -/

/-- The one session has its peer, and its messages are all the server works on. -/
structure Wired (u : Server A) : Prop where
  peer : u.disconnected = []
  session : 0 ∈ u.sessions
  reads : ∀ session ∈ u.reads, session = 0
  tasks : ∀ task ∈ u.tasks, ∃ origin msg, task = .process origin 0 msg

/-- **A request reaches the server**: it is recorded and its closure is posted. -/
theorem serverRead_spec {u v : Server A} (hw : Wired u) {data : MessageData} {msg : Message}
    (hd : Message.ofData data = .ok msg) (he : u.step server (.readDone 0 {} data) = some v) :
    Wired v ∧ v.received = u.received ++ [(0, data)] ∧
      v.tasks = u.tasks ++ [.process u.received.length 0 msg] ∧
      v.invocations = u.invocations := by
  obtain ⟨session, hsession, ⟨-, he⟩ | ⟨hdead, -⟩⟩ := Server.step_readDone he
  · -- the read is of the one session
    obtain rfl := hw.reads session (List.mem_of_getElem? hsession)
    simp only [Server.onRead, ErrorInfo.hasError_default, Bool.false_eq_true, if_false,
      Server.asyncProcessMessage, hd] at he
    subst he
    refine ⟨⟨hw.peer, hw.session, ?_, ?_⟩, rfl, rfl, rfl⟩
    · intro session hmem
      rcases List.mem_append.mp hmem with hmem | hmem
      · exact hw.reads session (List.mem_of_mem_eraseIdx hmem)
      · exact List.mem_singleton.mp hmem
    · intro task hmem
      rcases List.mem_append.mp hmem with hmem | hmem
      · exact hw.tasks task hmem
      · exact ⟨_, _, List.mem_singleton.mp hmem⟩
  · obtain rfl := hw.reads session (List.mem_of_getElem? hsession)
    simp [Server.alive, hw.session] at hdead

/-- **A worker runs the closure of a request**: it calls the function once and
writes the one response. -/
theorem runTask_spec {u v : Server A} (hw : Wired u) {i origin : Nat} {w : W} {id : Msgid}
    (call : ProperCall server)
    (htask : u.tasks[i]? =
      some (.process origin 0 (Message.request id call.method call.params)))
    (he : u.step server (.runTask i w) = some v) :
    Wired v ∧ v.received = u.received ∧ v.tasks = u.tasks.eraseIdx i ∧
      (∀ j, v.invocationsOf j =
        u.invocationsOf j ++ if origin = j then [call.invocation w] else []) ∧
      sentByServer u v = [call.replyData id w] := by
  simp only [Server.step, htask, Option.some.injEq, Server.runTask] at he
  subst he
  have hpeer : 0 ∉ ({ u with tasks := u.tasks.eraseIdx i } : Server A).disconnected := by
    simp [hw.peer]
  have htype : (Message.request id call.method call.params).type = some .request := rfl
  obtain ⟨hcall, hresponse⟩ := Server.responsesOf_request origin w htype hpeer call.registered
  rw [call.invoke_request] at hcall hresponse
  obtain ⟨thrown, heq⟩ := Server.runProcess_eq server { u with tasks := u.tasks.eraseIdx i }
    origin 0 (Message.request id call.method call.params) w
  refine ⟨?_, ?_, ?_, ?_, ?_⟩
  · rw [heq]
    exact ⟨hw.peer, hw.session, hw.reads,
      fun task hmem => hw.tasks task (List.mem_of_mem_eraseIdx hmem)⟩
  · rw [heq]
  · rw [heq]
  · intro j
    rw [Server.invocationsOf_runProcess, hcall]
    rfl
  · rw [heq, hresponse]
    simp [sentByServer, ProperCall.replyData, Message.request]

end System

end MpRpc

import Mathlib
import MpRpc.ErrorInfo
import MpRpc.Machine

/-!
# WriteQueue — writing messages to a stream socket

The writing half of `stream_socket_helper`. An `async_write` posts a task to the
strand, the task puts the message into `writing_queue_`, and the messages of the
queue are compressed and written one after the other. The decision to start a
write is taken in two places: by the task that finds the queue empty, and by the
completion that finds another message behind its own.

An event carries what the strand and the socket choose: which posted task runs,
how many bytes of an outstanding `asio::async_write` go to the socket, and when
and how it completes. Writes that are outstanding together may put their bytes on
the socket in any mixture. A handler may call `async_write` itself; that only
posts a task, so it is an event of its own.
-/

namespace MpRpc.Transport

/-- A `streaming_compressor`: its state after `init()`, and `compress`. -/
structure StreamingCompressor (C : Type*) where
  init : C
  compress : C → MessageData → Bytes × C

/-- `null_streaming_compressor` -/
def nullStreamingCompressor : StreamingCompressor Unit where
  init := ()
  compress _ data := (data, ())

/-- What `compress` gives for messages one after the other. -/
def StreamingCompressor.compressAll {C : Type*} (Z : StreamingCompressor C) :
    C → List MessageData → Bytes × C
  | c, [] => ([], c)
  | c, data :: rest =>
      let out := Z.compress c data
      let outs := compressAll Z out.2 rest
      (out.1 ++ outs.1, outs.2)

/-- The writing half of `stream_socket_helper`. A message is kept with the number
of its `async_write` call, which stands for the handler of that call. -/
structure WriteQueue (C : Type*) where
  compressor : C
  /-- the number of `async_write` calls so far -/
  calls : Nat := 0
  /-- the tasks that wait on the strand -/
  posted : List (Nat × MessageData) := []
  /-- the messages whose tasks have run, in that order -/
  ran : List (Nat × MessageData) := []
  writingQueue : List (Nat × MessageData) := []
  /-- for each outstanding `asio::async_write` the bytes it has still to write -/
  outstanding : List Bytes := []
  /-- the bytes put on the socket -/
  wire : Bytes := []
  /-- the calls of handlers -/
  handled : List (Nat × ErrorInfo) := []

/-- The error codes that `on_write` tells apart. -/
inductive WriteResult where
  | success
  | operationAborted
  | failed (message : String)
deriving DecidableEq, Repr

namespace WriteQueue

variable {C : Type*}

/-- `do_write` -/
def doWrite (Z : StreamingCompressor C) (s : WriteQueue C) : WriteQueue C :=
  match s.writingQueue with
  | [] => s
  | (_, data) :: _ =>
      let out := Z.compress s.compressor data
      { s with compressor := out.2, outstanding := s.outstanding ++ [out.1] }

/-- `add_message_to_write` -/
def addMessageToWrite (Z : StreamingCompressor C) (s : WriteQueue C) (entry : Nat × MessageData) :
    WriteQueue C :=
  let startWriting := s.writingQueue.isEmpty
  let s :=
    { s with writingQueue := s.writingQueue ++ [entry], ran := s.ran ++ [entry] }
  if startWriting then s.doWrite Z else s

/-- `on_write`; `entry` is `writing_queue_.front()` and `rest` the queue behind it. -/
def onWrite (Z : StreamingCompressor C) (s : WriteQueue C) (entry : Nat × MessageData)
    (rest : List (Nat × MessageData)) : WriteResult → WriteQueue C
  | .operationAborted => s
  -- the message stays in the queue
  | .failed message =>
      { s with handled := s.handled ++ [(entry.1, .of .failedToWrite message)] }
  | .success =>
      let s := { s with
        handled := s.handled ++ [(entry.1, ({} : ErrorInfo))], writingQueue := rest }
      if s.writingQueue.isEmpty then s else s.doWrite Z

inductive Event where
  /-- `async_write` -/
  | asyncWrite (data : MessageData)
  /-- the strand runs the posted task `i` -/
  | runTask (i : Nat)
  /-- the outstanding write `i` puts `n` bytes on the socket -/
  | transfer (i n : Nat)
  /-- the outstanding write `i` completes -/
  | writeDone (i : Nat) (result : WriteResult)

def step (Z : StreamingCompressor C) (s : WriteQueue C) : Event → Option (WriteQueue C)
  | .asyncWrite data =>
      some { s with posted := s.posted ++ [(s.calls, data)], calls := s.calls + 1 }
  | .runTask i =>
      match s.posted[i]? with
      | none => none
      | some entry => some (({ s with posted := s.posted.eraseIdx i }).addMessageToWrite Z entry)
  | .transfer i n =>
      match s.outstanding[i]? with
      | none => none
      | some bytes =>
          some { s with
            wire := s.wire ++ bytes.take n
            outstanding := s.outstanding.set i (bytes.drop n) }
  | .writeDone i result =>
      match s.outstanding[i]?, s.writingQueue with
      | some bytes, entry :: rest =>
          -- `asio::async_write` succeeds when everything is written
          if result = .success ∧ bytes ≠ [] then none
          else
            some (({ s with outstanding := s.outstanding.eraseIdx i }).onWrite Z entry rest result)
      | _, _ => none

/-- The writing half, from its construction. -/
def machine (Z : StreamingCompressor C) : Machine (WriteQueue C) Event :=
  ⟨{ compressor := Z.init }, step Z⟩

/-- The event is no completion with an error. -/
def Event.Succeeds : Event → Prop
  | .writeDone _ result => result = .success
  | _ => True

instance : DecidablePred Event.Succeeds
  | .writeDone _ result => inferInstanceAs (Decidable (result = .success))
  | .asyncWrite _ => .isTrue trivial
  | .runTask _ => .isTrue trivial
  | .transfer _ _ => .isTrue trivial

end WriteQueue

end MpRpc.Transport

import Franky.Foundation.ByteStream
import Franky.Agent.Timer
import Franky.Agent.Report

/-!
# The request loop

The agent answers the requests of the plugin on one socket.  Every request is
read through a buffered stream of its own, and the stream is destroyed, with
whatever its buffer still holds, when the request has been read.
-/

namespace Franky
namespace Agent

open Foundation
open Foundation.ByteStream (Input)
open Foundation.Sorting (Qsort)
open Protocol

/-!
## Reading a request

A message is parsed by the protocol buffer library; `parse` stands for what it
makes of the bytes of a message.
-/

/-- The rounds of `ReadVarint32`, for the byte with this index on.  Bits past
the thirty-second are dropped, and the eleventh byte is not accepted. -/
def readVarintFrom : Nat -> Nat -> UInt32 -> Input UInt8 ->
    Option UInt32 × Input UInt8
  | 0, _, _, s => (none, s)
  | rounds + 1, index, value, s =>
      match s.next with
      | none => (none, s)
      | some (b, s) =>
          let value :=
            if index < 5 then
              value ||| ((b &&& 0x7f).toUInt32 <<< UInt32.ofNat (7 * index))
            else value
          if b &&& 0x80 = 0 then (some value, s)
          else readVarintFrom rounds (index + 1) value s

/-- `CodedInputStream::ReadVarint32`. -/
def readVarint32 (s : Input UInt8) : Option UInt32 × Input UInt8 :=
  readVarintFrom 10 0 0 s

/-- The results of `Profiler::readRequest`: the code `-2`, the code `-1`, or a
request. -/
inductive ReadResult where
  | endOfStream
  | unreadable
  | request (type : RequestType)
deriving DecidableEq, Repr

/-- `Profiler::readRequest`, with what the socket delivers after it. -/
def readRequest (parse : List UInt8 -> Option RequestType)
    (reads : List (List UInt8)) : ReadResult × List (List UInt8) :=
  match readVarint32 (Input.fresh reads) with
  | (none, s) => (ReadResult.endOfStream, s.pending)
  | (some size, s) =>
      match parse (s.take size.toNat).1 with
      | none => (ReadResult.unreadable, (s.take size.toNat).2.pending)
      | some type => (ReadResult.request type, (s.take size.toNat).2.pending)

/-!
## The loop
-/

/-- What a session meets: the reads of the socket, the samples taken while the
agent waits for each request, and which of its messages can be sent. -/
structure Session where
  pid : Int32
  names : JMethodId -> MethodName
  vm : VM
  reads : List (List UInt8)
  samples : Nat -> List (Option AsgctCallTrace)
  sendSucceeds : Nat -> Bool

/-- A request that was handled, and the number of bytes that came before it. -/
structure Handled where
  position : Nat
  request : RequestType
deriving DecidableEq, Repr

structure LoopState where
  process : Process
  vm : VM
  reads : List (List UInt8)
  handled : List Handled
  sent : List Response

/-- The message that `Profiler::handleRequestLoop` sends first. -/
def initResponse (pid : Int32) : Response :=
  { id := pid, type := ResponseType.init, profInfo := none }

section Loop

variable (qsort : Qsort maxCalltraces)
  (parse : List UInt8 -> Option RequestType) (env : Session)

/-- The samples taken while the agent waits for its next request. -/
def Session.waiting (st : LoopState) : LoopState :=
  { st with
    process := (env.samples st.handled.length).foldl Process.sample
      st.process }

/-- `Profiler::writeResult`, where the message may not be sent. -/
def Session.sendResult (st : LoopState) : LoopState × Bool :=
  let result := st.process.profiler.writeResult qsort env.names env.pid st.vm
  ({ st with
     process := { st.process with profiler := result.2.1 }
     vm := result.2.2
     sent := st.sent ++ [result.1] }, env.sendSucceeds st.sent.length)

/-- The `switch` of the loop, with the value that the function returns where it
does so. -/
def Session.serve (st : LoopState) : RequestType -> LoopState × Option Int32
  | RequestType.startProfiling =>
      ({ st with process := st.process.start defaultInterval }, none)
  | RequestType.stopProfiling =>
      let sent := env.sendResult qsort { st with process := st.process.stop }
      (sent.1, if sent.2 then none else some (-1))
  | RequestType.detach => (st, some 0)

/-- The note that a request has been read, in the place where the socket was. -/
def Session.note (st : LoopState) (reads : List (List UInt8))
    (type : RequestType) : LoopState :=
  { st with
    reads := reads
    handled := st.handled ++
      [{ position := env.reads.flatten.length - st.reads.flatten.length
         request := type }] }

/-- The loop of `Profiler::handleRequestLoop`, for so many rounds. -/
def Session.loop : Nat -> LoopState -> Option (Int32 × LoopState)
  | 0, _ => none
  | rounds + 1, st =>
      let st := env.waiting st
      match readRequest parse st.reads with
      | (ReadResult.endOfStream, reads) => some (0, { st with reads := reads })
      | (ReadResult.unreadable, reads) => some (-1, { st with reads := reads })
      | (ReadResult.request type, reads) =>
          match env.serve qsort (env.note st reads type) type with
          | (st, some code) => some (code, st)
          | (st, none) => Session.loop rounds st

def Session.begin (process : Process) : LoopState :=
  { process := process, vm := env.vm, reads := env.reads, handled := [],
    sent := [initResponse env.pid] }

/-- `Profiler::handleRequestLoop`: the value it returns, and the state then.
Each round takes a read of the socket at least. -/
def Session.handleRequestLoop (process : Process) :
    Option (Int32 × LoopState) :=
  if env.sendSucceeds 0 then
    env.loop qsort parse (env.reads.length + 1) (env.begin process)
  else some (-1, env.begin process)

end Loop

/-!
## The loop returns
-/

theorem readVarintFrom_pending_length (rounds index : Nat) (value : UInt32)
    (s : Input UInt8) :
    (readVarintFrom rounds index value s).2.pending.length ≤
      s.pending.length := by
  induction rounds generalizing index value s with
  | zero => exact le_refl _
  | succ rounds ih =>
      unfold readVarintFrom
      cases hnext : s.next with
      | none => exact le_refl _
      | some step =>
          rcases step with ⟨b, s'⟩
          have hle := ByteStream.next_pending_length hnext
          dsimp only
          split
          · exact hle
          · exact (ih _ _ s').trans hle

theorem readVarint32_pending_length {reads : List (List UInt8)} {size : UInt32}
    {s : Input UInt8} (h : readVarint32 (Input.fresh reads) = (some size, s)) :
    s.pending.length < reads.length := by
  unfold readVarint32 readVarintFrom at h
  cases hnext : (Input.fresh reads).next with
  | none =>
      rw [hnext] at h
      cases h
  | some step =>
      rcases step with ⟨b, s'⟩
      have hlt := ByteStream.fresh_next_pending_length hnext
      rw [hnext] at h
      dsimp only at h
      split at h
      · cases h
        exact hlt
      · have hle := readVarintFrom_pending_length 9 (0 + 1)
          (if 0 < 5 then 0 ||| ((b &&& 0x7f).toUInt32 <<< UInt32.ofNat (7 * 0))
            else 0) s'
        rw [h] at hle
        exact hle.trans_lt hlt

theorem readRequest_length {parse : List UInt8 -> Option RequestType}
    {reads reads' : List (List UInt8)} {type : RequestType}
    (h : readRequest parse reads = (ReadResult.request type, reads')) :
    reads'.length < reads.length := by
  unfold readRequest at h
  split at h
  · cases h
  · rename_i size s hsize
    have hlt := readVarint32_pending_length hsize
    split at h
    · cases h
    · cases h
      exact (ByteStream.take_pending_length _ s).trans_lt hlt

section Returns

variable {qsort : Qsort maxCalltraces}
  {parse : List UInt8 -> Option RequestType} {env : Session}

@[simp] theorem waiting_reads (st : LoopState) :
    (env.waiting st).reads = st.reads := rfl

theorem serve_reads (st : LoopState) (type : RequestType) :
    (env.serve qsort st type).1.reads = st.reads := by
  cases type <;> rfl

theorem serve_handled (st : LoopState) (type : RequestType) :
    (env.serve qsort st type).1.handled = st.handled := by
  cases type <;> rfl

/-- With more rounds than reads the loop returns. -/
theorem loop_returns {rounds : Nat} {st : LoopState}
    (h : st.reads.length < rounds) :
    exists result, env.loop qsort parse rounds st = some result := by
  induction rounds generalizing st with
  | zero => cases h
  | succ rounds ih =>
      unfold Session.loop
      dsimp only
      rw [waiting_reads]
      split
      · exact ⟨_, rfl⟩
      · exact ⟨_, rfl⟩
      · rename_i type reads hread
        have hshorter := readRequest_length hread
        split
        · exact ⟨_, rfl⟩
        · rename_i st' hserve
          apply ih
          have hreads : (env.serve qsort
              (env.note (env.waiting st) reads type) type).1.reads = reads :=
            serve_reads _ type
          rw [hserve] at hreads
          change st'.reads.length < rounds
          rw [hreads]
          exact Nat.lt_of_lt_of_le hshorter (Nat.le_of_lt_succ h)

theorem handleRequestLoop_returns (qsort : Qsort maxCalltraces)
    (parse : List UInt8 -> Option RequestType) (env : Session)
    (process : Process) :
    exists result, env.handleRequestLoop qsort parse process = some result := by
  unfold Session.handleRequestLoop
  split
  · exact loop_returns (Nat.lt_succ_self _)
  · exact ⟨_, rfl⟩

end Returns

end Agent
end Franky

import Franky.Foundation.ByteSink
import Franky.Agent.Requests

/-!
# Sending a response

A response goes through a coded stream on top of a buffered stream, both of
which are destroyed when `sendResponse` returns.  Its result is decided before
that, while the last block of the response is still in the buffer.
-/

namespace Franky
namespace Agent

open Foundation
open Foundation.ByteSink (Sink Writer Given passedOn)
open Foundation.Sorting (Qsort mergeQsort)
open Protocol

/-- A socket that is written to. -/
abbrev Socket := Sink UInt8

/-!
## The source

`serialize` stands for the bytes that the protocol buffer library makes of a
message, and `block` for the size of the buffer of `FileOutputStream`.
-/

/-- The bytes that are left to `CodedOutputStream::WriteVarint32` after the
given number of rounds. -/
def varintBytes : Nat -> UInt32 -> List UInt8
  | 0, value => [value.toUInt8]
  | rounds + 1, value =>
      if value < 0x80 then [value.toUInt8]
      else (value ||| 0x80).toUInt8 :: varintBytes rounds (value >>> 7)

/-- The bytes that `CodedOutputStream::WriteVarint32` writes. -/
def varint32 (value : UInt32) : List UInt8 := varintBytes 4 value

section Source

variable (block : Nat) (serialize : Response -> List UInt8)

/-- The size of the message, and the message. -/
def responseFrame (message : Response) : List UInt8 :=
  varint32 (UInt32.ofNat (serialize message).length) ++ serialize message

/-- `sendResponse`: its result, and the socket when its streams are gone. -/
def sendResponse (socket : Socket) (message : Response) : Int32 × Socket :=
  let size := (serialize message).length
  let output := (Writer.onto socket).write block (varint32 (UInt32.ofNat size))
  if size ≤ output.space block then
    let output := output.write block (serialize message)
    (0, output.close)
  else
    let output := output.write block (serialize message)
    (if output.failed then -1 else 0, output.close)

end Source

/-!
## When the result is right
-/

/-- The result is zero exactly when the socket has taken the whole frame. -/
def ReportsSend (block : Nat) (serialize : Response -> List UInt8)
    (socket : Socket) (message : Response) : Prop :=
  (sendResponse block serialize socket message).1 = 0 <->
    (sendResponse block serialize socket message).2.accepted =
      socket.accepted ++ responseFrame serialize message

/-- The socket fails in the last block of the frame, which begins after
`offset` bytes. -/
def LosesLastBlock (block : Nat) (serialize : Response -> List UInt8)
    (socket : Socket) (offset : Nat) (message : Response) : Prop :=
  socket.FailsWithin
    (offset + passedOn block (responseFrame serialize message).length)
    (offset + (responseFrame serialize message).length)

variable {block : Nat} {serialize : Response -> List UInt8} {socket : Socket}
  {message : Response}

theorem varintBytes_ne_nil (rounds : Nat) (value : UInt32) :
    varintBytes rounds value ≠ [] := by
  cases rounds with
  | zero => exact List.cons_ne_nil _ _
  | succ rounds =>
      unfold varintBytes
      split <;> exact List.cons_ne_nil _ _

theorem varint32_length_pos (value : UInt32) : 0 < (varint32 value).length :=
  List.length_pos_of_ne_nil (varintBytes_ne_nil 4 value)

theorem sendResponse_socket (hblock : 0 < block) :
    (sendResponse block serialize socket message).2 =
      (socket.write (responseFrame serialize message)).1 := by
  have hgiven := ((ByteSink.given_onto block socket).write hblock
    (varint32 (UInt32.ofNat (serialize message).length))).write hblock
    (serialize message)
  unfold sendResponse
  dsimp only
  split <;> exact hgiven.close

/-- The stream cannot have failed where the message fits in the buffer: the
size of an empty message is one byte. -/
theorem size_not_failed (hblock : 0 < block)
    (hfits : (serialize message).length ≤ ((Writer.onto socket).write block
      (varint32 (UInt32.ofNat (serialize message).length))).space block) :
    ((Writer.onto socket).write block
      (varint32 (UInt32.ofNat (serialize message).length))).failed = false := by
  rw [Bool.eq_false_iff]
  intro hfailed
  have hgiven := (ByteSink.given_onto block socket).write hblock
    (varint32 (UInt32.ofNat (serialize message).length))
  rw [Writer.space, if_pos hfailed, Nat.le_zero] at hfits
  apply hgiven.failed.mp hfailed
  rw [hfits]
  have hzero : passedOn block 1 = 0 := by
    rw [passedOn, Nat.sub_self, Nat.zero_div, Nat.zero_mul]
  change socket.Admits (passedOn block 1)
  rw [hzero]
  exact ByteSink.admits_zero socket

/-- The result is zero exactly when the socket has taken what is handed on
before the last block. -/
theorem sendResponse_eq_zero_iff (hblock : 0 < block) :
    (sendResponse block serialize socket message).1 = 0 <->
      socket.Admits
        (passedOn block (responseFrame serialize message).length) := by
  let size := varint32 (UInt32.ofNat (serialize message).length)
  have hsize : Given block socket size ((Writer.onto socket).write block size) :=
    (ByteSink.given_onto block socket).write hblock size
  have hframe : Given block socket (responseFrame serialize message)
      (((Writer.onto socket).write block size).write block
        (serialize message)) := hsize.write hblock _
  have hlength : (responseFrame serialize message).length =
      size.length + (serialize message).length := List.length_append
  unfold sendResponse
  dsimp only
  split
  · next hfits =>
      have hintact := size_not_failed hblock hfits
      apply iff_of_true rfl
      rw [hlength, hsize.passedOn_of_space hintact (varint32_length_pos _) hfits]
      exact hsize.admits hintact
  · rw [← not_iff_not, ← hframe.failed]
    split
    · next hfailed =>
        exact iff_of_true (show (-1 : Int32) ≠ 0 by decide) hfailed
    · next hfailed => exact iff_of_false (not_not_intro rfl) hfailed

theorem reportsSend_iff (hblock : 0 < block) :
    ReportsSend block serialize socket message <->
      ¬ LosesLastBlock block serialize socket 0 message := by
  have hle := ByteSink.passedOn_le block
    (responseFrame serialize message).length
  unfold ReportsSend LosesLastBlock
  rw [sendResponse_eq_zero_iff hblock, sendResponse_socket hblock,
    ByteSink.accepted_write_iff, Nat.zero_add, Nat.zero_add,
    ByteSink.failsWithin_iff, not_and, not_not]
  exact ⟨Iff.mp, fun h => ⟨h, fun hall => hall.of_le hle⟩⟩

/-!
## The request loop on a socket
-/

section Loop

variable (block : Nat) (serialize : Response -> List UInt8)
  (qsort : Qsort maxCalltraces) (parse : List UInt8 -> Option RequestType)
  (env : Session)

def Session.result (st : LoopState) : Response :=
  (st.process.stop.profiler.writeResult qsort env.names env.pid st.vm).1

/-- The session where sending the next message has the given result. -/
def Session.reporting (code : Int32) : Session :=
  { env with sendSucceeds := fun _ => decide (code = 0) }

/-- The `switch` of the loop, with what becomes of the socket. -/
def Session.serveOn (socket : Socket) (st : LoopState) :
    RequestType -> (LoopState × Option Int32) × Socket
  | RequestType.stopProfiling =>
      let sent := sendResponse block serialize socket (env.result qsort st)
      ((env.reporting sent.1).serve qsort st RequestType.stopProfiling, sent.2)
  | type => (env.serve qsort st type, socket)

/-- The states in which the loop reads its next request, with the socket. -/
inductive Session.ReadsOn (socket : Socket) (process : Process) :
    LoopState -> Socket -> Prop
  | begin : (sendResponse block serialize socket (initResponse env.pid)).1 = 0 ->
      ReadsOn socket process (env.begin process)
        (sendResponse block serialize socket (initResponse env.pid)).2
  | round {st st' : LoopState} {current next : Socket}
      {reads : List (List UInt8)} {type : RequestType} :
      ReadsOn socket process st current ->
      readRequest parse (env.waiting st).reads =
        (ReadResult.request type, reads) ->
      env.serveOn block serialize qsort current
        (env.note (env.waiting st) reads type) type = ((st', none), next) ->
      ReadsOn socket process st' next

end Loop

def responseFrames (serialize : Response -> List UInt8)
    (messages : List Response) : List UInt8 :=
  (messages.map (responseFrame serialize)).flatten

@[simp] theorem responseFrames_concat (messages : List Response) :
    responseFrames serialize (messages ++ [message]) =
      responseFrames serialize messages ++ responseFrame serialize message := by
  simp [responseFrames]

variable {qsort : Qsort maxCalltraces}
  {parse : List UInt8 -> Option RequestType} {env : Session}
  {process : Process} {st st' : LoopState} {current next : Socket}

theorem serveOn_cases {type : RequestType}
    (h : env.serveOn block serialize qsort current st type =
      ((st', none), next)) :
    (type = RequestType.startProfiling ∧ st'.sent = st.sent ∧
        next = current) ∨
      (type = RequestType.stopProfiling ∧
        st'.sent = st.sent ++ [env.result qsort st] ∧
        (sendResponse block serialize current (env.result qsort st)).1 = 0 ∧
        next = (sendResponse block serialize current
          (env.result qsort st)).2) := by
  cases type with
  | startProfiling =>
      cases h
      exact Or.inl ⟨rfl, rfl, rfl⟩
  | stopProfiling =>
      rcases Prod.mk.inj h with ⟨hserve, hnext⟩
      rcases Prod.mk.inj hserve with ⟨hst, hcode⟩
      have hzero : (sendResponse block serialize current
          (env.result qsort st)).1 = 0 := by
        by_contra hne
        have hreported : decide ((sendResponse block serialize current
            (env.result qsort st)).1 = 0) = false := decide_eq_false hne
        simp [Session.sendResult, Session.reporting, hreported] at hcode
      refine Or.inr ⟨rfl, ?_, hzero, hnext.symm⟩
      rw [← hst]
      rfl
  | detach =>
      cases h

/-!
## The loop passes through these states
-/

theorem serve_of_serveOn {type : RequestType} {succeeds : Nat -> Bool}
    (h : env.serveOn block serialize qsort current st type =
      ((st', none), next))
    (hsucceeds : st.sent.length < st'.sent.length ->
      succeeds st.sent.length = true) :
    ({ env with sendSucceeds := succeeds } : Session).serve qsort st type =
      (st', none) := by
  cases type with
  | startProfiling =>
      exact (Prod.mk.inj h).left
  | stopProfiling =>
      rcases serveOn_cases h with ⟨htype, _⟩ | ⟨_, hsent, _⟩
      · cases htype
      · have htrue : succeeds st.sent.length = true := by
          apply hsucceeds
          rw [hsent, List.length_append]
          exact Nat.lt_succ_self _
        have hst := (Prod.mk.inj (Prod.mk.inj h).left).left
        rw [← hst]
        simp [Session.serve, Session.sendResult, Session.reporting, htrue]
  | detach =>
      cases h

/-- The loop on a socket is the loop of a session in which just the messages
that are reported to be sent can be sent. -/
theorem exists_session (block : Nat) (serialize : Response -> List UInt8)
    (qsort : Qsort maxCalltraces) (parse : List UInt8 -> Option RequestType)
    (env : Session) (socket : Socket) (process : Process) :
    exists succeeds : Nat -> Bool, forall st current,
      env.ReadsOn block serialize qsort parse socket process st current ->
        exists rounds, st.reads.length < rounds ∧
          ({ env with sendSucceeds := succeeds } : Session).handleRequestLoop
              qsort parse process =
            ({ env with sendSucceeds := succeeds } : Session).loop qsort parse
              rounds st := by
  classical
  let succeeds : Nat -> Bool := fun n => decide (exists st current,
    env.ReadsOn block serialize qsort parse socket process st current ∧
      n < st.sent.length)
  have hsucceeds : forall st current n,
      env.ReadsOn block serialize qsort parse socket process st current ->
        n < st.sent.length -> succeeds n = true := by
    intro st current n h hn
    exact decide_eq_true ⟨st, current, h, hn⟩
  refine ⟨succeeds, ?_⟩
  intro st current h
  induction h with
  | begin hzero =>
      have hfirst := hsucceeds _ _ 0 (Session.ReadsOn.begin hzero)
        (Nat.lt_succ_self 0)
      refine ⟨env.reads.length + 1, Nat.lt_succ_self _, ?_⟩
      exact if_pos hfirst
  | @round st st' current next reads type hbefore hread hserve ih =>
      rcases ih with ⟨rounds, hrounds, hloop⟩
      have hafter := Session.ReadsOn.round hbefore hread hserve
      have hserved : ({ env with sendSucceeds := succeeds } : Session).served
          qsort st reads type = (st', none) :=
        serve_of_serveOn hserve (fun hlt => hsucceeds _ _ _ hafter hlt)
      have hreads := served_reads qsort
        { env with sendSucceeds := succeeds } st reads type
      rw [hserved] at hreads
      rw [waiting_reads] at hread
      have hshorter := readRequest_length hread
      cases rounds with
      | zero => cases hrounds
      | succ rounds =>
          refine ⟨rounds, ?_, ?_⟩
          · rw [hreads]
            exact Nat.lt_of_lt_of_le hshorter (Nat.le_of_lt_succ hrounds)
          · rw [hloop, loop_request hread, hserved]

theorem socket_after (hblock : 0 < block) (messages : List Response)
    (hcurrent : current =
      (socket.write (responseFrames serialize messages)).1) :
    (sendResponse block serialize current message).2 =
      (socket.write (responseFrames serialize (messages ++ [message]))).1 := by
  rw [sendResponse_socket hblock, hcurrent, responseFrames_concat,
    ByteSink.write_append]

theorem Session.ReadsOn.socket_eq (hblock : 0 < block)
    (h : env.ReadsOn block serialize qsort parse socket process st current) :
    current = (socket.write (responseFrames serialize st.sent)).1 := by
  induction h with
  | begin =>
      apply socket_after hblock []
      exact (ByteSink.write_nil socket).symm
  | round _ _ hserve ih =>
      rcases serveOn_cases hserve with
        ⟨_, hsent, hnext⟩ | ⟨_, hsent, _, hnext⟩
      · rw [hsent, hnext]
        exact ih
      · rw [hsent, hnext]
        exact socket_after hblock _ ih

theorem Session.ReadsOn.accepted_iff (hblock : 0 < block)
    (h : env.ReadsOn block serialize qsort parse socket process st current) :
    current.accepted = socket.accepted ++ responseFrames serialize st.sent <->
      socket.Admits (responseFrames serialize st.sent).length := by
  rw [h.socket_eq hblock, ByteSink.accepted_write_iff]

/-- A message that is reported to be sent, and that does not lose its last
block, has been taken with all that was sent before it. -/
theorem admits_concat (hblock : 0 < block) (messages : List Response)
    (hcurrent : current =
      (socket.write (responseFrames serialize messages)).1)
    (hbefore : socket.Admits (responseFrames serialize messages).length)
    (hzero : (sendResponse block serialize current message).1 = 0)
    (hlast : ¬ LosesLastBlock block serialize socket
      (responseFrames serialize messages).length message) :
    socket.Admits
      (responseFrames serialize (messages ++ [message])).length := by
  rw [sendResponse_eq_zero_iff hblock, hcurrent] at hzero
  have hadmits := ByteSink.admits_write_iff.mpr ⟨hbefore, hzero⟩
  unfold LosesLastBlock at hlast
  rw [ByteSink.failsWithin_iff, not_and, not_not] at hlast
  rw [responseFrames_concat, List.length_append]
  exact hlast hadmits

/-- No message that the loop has sent loses its last block. -/
def KeepsLastBlocks (block : Nat) (serialize : Response -> List UInt8)
    (socket : Socket) (messages : List Response) : Prop :=
  forall front message back, messages = front ++ message :: back ->
    ¬ LosesLastBlock block serialize socket
      (responseFrames serialize front).length message

theorem Session.ReadsOn.admits (hblock : 0 < block)
    (hkeeps : forall st current,
      env.ReadsOn block serialize qsort parse socket process st current ->
        KeepsLastBlocks block serialize socket st.sent)
    (h : env.ReadsOn block serialize qsort parse socket process st current) :
    socket.Admits (responseFrames serialize st.sent).length := by
  induction h with
  | begin hzero =>
      have hlast := hkeeps _ _ (Session.ReadsOn.begin hzero) [] _ [] rfl
      exact admits_concat hblock [] (ByteSink.write_nil socket).symm
        (ByteSink.admits_zero socket) hzero hlast
  | round hbefore hread hserve ih =>
      have hlast := hkeeps _ _ (Session.ReadsOn.round hbefore hread hserve)
      rcases serveOn_cases hserve with ⟨_, hsent, _⟩ | ⟨_, hsent, hzero, _⟩
      · rw [hsent]
        exact ih
      · rw [hsent] at hlast ⊢
        have hcurrent := hbefore.socket_eq hblock
        exact admits_concat hblock _ hcurrent ih hzero (hlast _ _ [] rfl)

/-- A result of zero says that a message has been sent, and the loop never goes
on after a lost one, exactly when the socket does not fail in the last block of a
message. -/
theorem sends_reported_iff (block : Nat) (hblock : 0 < block)
    (serialize : Response -> List UInt8) :
    (forall socket message,
      ReportsSend block serialize socket message <->
        ¬ LosesLastBlock block serialize socket 0 message) ∧
    (forall qsort parse env process socket,
      (forall st current,
        Session.ReadsOn block serialize qsort parse env socket process st
          current ->
        current.accepted =
          socket.accepted ++ responseFrames serialize st.sent) <->
      (forall st current,
        Session.ReadsOn block serialize qsort parse env socket process st
          current ->
        KeepsLastBlocks block serialize socket st.sent)) := by
  refine ⟨fun _ _ => reportsSend_iff hblock, ?_⟩
  intro qsort parse env process socket
  constructor
  · rintro haccepted st current h front message back hsent hlost
    have hadmits := (h.accepted_iff hblock).mp (haccepted st current h)
    apply (ByteSink.failsWithin_iff.mp hlost).right
    apply hadmits.of_le
    rw [hsent]
    simp [responseFrames]
  · intro hkeeps st current h
    exact (h.accepted_iff hblock).mpr (h.admits hblock hkeeps)

/-- The bytes of a message that has no result, for an id below 128. -/
def bareResponse (message : Response) : List UInt8 :=
  [0x08, message.id.toInt8.toUInt8, 0x10,
    match message.type with
    | ResponseType.init => 0
    | ResponseType.profInfo => 1]

/-- A socket that fails right after the frame, and a frame of more than one
block that fails before its last one. -/
theorem sends_reported_bare :
    ReportsSend 8192 bareResponse { accepted := [], room := some 5 }
        (initResponse 42) ∧
      ReportsSend 4 bareResponse { accepted := [], room := some 3 }
        (initResponse 42) := by
  constructor
  · apply ((sends_reported_iff 8192 (by decide) bareResponse).left _ _).mpr
    intro hexists
    rcases hexists with ⟨k, hk, _, hlt⟩
    cases hk
    exact absurd hlt (by decide)
  · apply ((sends_reported_iff 4 (by decide) bareResponse).left _ _).mpr
    intro hexists
    rcases hexists with ⟨k, hk, hle, _⟩
    cases hk
    exact absurd hle (by decide)

/-- A socket that takes nothing: the message is reported to be sent, and the
loop reads on. -/
theorem not_reportsSend_lost :
    ¬ ReportsSend 8192 bareResponse { accepted := [], room := some 0 }
        (initResponse 1) ∧
      exists st current,
        (plainSession []).ReadsOn 8192 bareResponse mergeQsort parseRequest
          { accepted := [], room := some 0 } Process.initial st current ∧
        st.sent = [initResponse 1] ∧ current.accepted = [] := by
  constructor
  · intro hreports
    have haccepted := hreports.mp (by decide)
    revert haccepted
    decide
  · exact ⟨_, _, Session.ReadsOn.begin (by decide), rfl, by decide⟩

end Agent
end Franky

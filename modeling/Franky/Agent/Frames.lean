import Franky.Foundation.SevenBits
import Franky.Agent.SendResponse

/-!
# What arrives at the other end

The plugin cuts the bytes of an agent into frames and parses their messages.
Wherever the connection breaks, it gets the first messages that the agent has
sent, and of these the first one introduces the agent.
-/

namespace Franky
namespace Agent

open Foundation
open Foundation.ByteStream (Input)
open Foundation.Sorting (Qsort mergeQsort)
open Protocol

/-!
## Sizes
-/

/-- The groups of seven bits that are left, read into what has been read. -/
theorem readVarintFrom_varintBytes {g i r : Nat}
    (hplace : i + g = 4) (hrounds : g < r)
    {v w : UInt32} (hw : w.toNat < 2 ^ (32 - 7 * i)) {s : Input UInt8}
    (hchunks : forall chunk, chunk ∈ s.pending -> chunk ≠ [])
    {rest : List UInt8} (hrest : s.rest = varintBytes g w ++ rest) :
    exists s', readVarintFrom r i v s =
        (some (v ||| w <<< UInt32.ofNat (7 * i)), s') ∧
      s'.rest = rest ∧
      forall chunk, chunk ∈ s'.pending -> chunk ≠ [] := by
  induction g generalizing i r v w s with
  | zero =>
      have hindex : i = 4 := by lia
      subst hindex
      have hlast : w < 0x80 := by
        change w.toNat < 128
        exact hw.trans (by decide)
      rcases ByteStream.next_of_rest hchunks hrest with
        ⟨s', hnext, hrest', hchunks'⟩
      rcases Nat.exists_eq_succ_of_ne_zero (Nat.ne_of_gt hrounds) with
        ⟨r, rfl⟩
      rcases SevenBits.last_byte hlast with ⟨hlow, hbit⟩
      refine ⟨s', ?_, hrest', hchunks'⟩
      simp only [readVarintFrom, hnext, hbit, hlow]
      rfl
  | succ g ih =>
      rcases Nat.exists_eq_succ_of_ne_zero (Nat.ne_of_gt
        (Nat.zero_lt_of_lt hrounds)) with ⟨r, rfl⟩
      have hfive : i < 5 := by lia
      by_cases hlast : w < 0x80
      · rw [varintBytes, if_pos hlast] at hrest
        rcases ByteStream.next_of_rest hchunks hrest with
          ⟨s', hnext, hrest', hchunks'⟩
        rcases SevenBits.last_byte hlast with ⟨hlow, hbit⟩
        refine ⟨s', ?_, hrest', hchunks'⟩
        simp only [readVarintFrom, hnext, hbit, hlow, hfive, if_true]
      · rw [varintBytes, if_neg hlast, List.cons_append] at hrest
        rcases ByteStream.next_of_rest hchunks hrest with
          ⟨s₁, hnext, hrest₁, hchunks₁⟩
        have hhigh : (w >>> 7).toNat < 2 ^ (32 - 7 * (i + 1)) := by
          have hsplit : 32 - 7 * i = 7 + (32 - 7 * (i + 1)) := by lia
          rw [hsplit, pow_add] at hw
          have hdiv : (w >>> 7).toNat = w.toNat / 2 ^ 7 := by
            rw [UInt32.toNat_shiftRight, Nat.shiftRight_eq_div_pow]
            rfl
          rw [hdiv]
          exact Nat.div_lt_of_lt_mul hw
        rcases ih (i := i + 1) (r := r)
          (v := v ||| ((w ||| 0x80).toUInt8 &&& 0x7f).toUInt32 <<<
            UInt32.ofNat (7 * i)) (by lia) (by lia) hhigh hchunks₁ hrest₁
          with ⟨s', hread, hrest', hchunks'⟩
        refine ⟨s', ?_, hrest', hchunks'⟩
        simp only [readVarintFrom, hnext, (SevenBits.more_byte w).right, hfive,
          if_true, if_false]
        rw [hread, UInt32.or_assoc]
        have hgroup := SevenBits.low_or_high w (n := 7 * i) (by lia)
        rw [Nat.mul_add, Nat.mul_one, hgroup]

theorem readVarint32_varint32 (size : UInt32) {s : Input UInt8}
    (hchunks : forall chunk, chunk ∈ s.pending -> chunk ≠ [])
    {rest : List UInt8} (hrest : s.rest = varint32 size ++ rest) :
    exists s', readVarint32 s = (some size, s') ∧ s'.rest = rest ∧
      forall chunk, chunk ∈ s'.pending -> chunk ≠ [] := by
  rcases readVarintFrom_varintBytes (i := 0) (g := 4) (r := 10) (v := 0)
    rfl (by decide) size.toNat_lt hchunks hrest with
    ⟨s', hread, hs'⟩
  refine ⟨s', ?_, hs'⟩
  rw [readVarint32, hread]
  simp

/-!
## Frames
-/

/-- A message behind its size. -/
def frame (payload : List UInt8) : List UInt8 :=
  varint32 (UInt32.ofNat payload.length) ++ payload

theorem responseFrames_eq_frames (serialize : Response -> List UInt8)
    (messages : List Response) :
    responseFrames serialize messages =
      ((messages.map serialize).map frame).flatten := by
  rw [List.map_map]
  rfl

/-- What is relied on of the plugin's decoder: a message is handed on when its
frame is complete, and not before. -/
structure FrameDecoder (deframe : List UInt8 -> List (List UInt8)) : Prop where
  whole : forall payload rest, payload.length < 2 ^ 31 ->
    deframe (frame payload ++ rest) = payload :: deframe rest
  unfinished : forall payload bytes, payload.length < 2 ^ 31 ->
    bytes <+: frame payload -> bytes ≠ frame payload -> deframe bytes = []

/-- The frames of the first `k` messages are complete, and no others. -/
def CompleteUpTo (payloads : List (List UInt8)) (bytes : List UInt8)
    (k : Nat) : Prop :=
  forall j, j ≤ payloads.length ->
    (j ≤ k <-> ((payloads.take j).map frame).flatten.length ≤ bytes.length)

theorem frame_ne_nil (payload : List UInt8) : frame payload ≠ [] := by
  intro hnil
  exact varintBytes_ne_nil 4 _ (List.append_eq_nil_iff.mp hnil).left

/-- From bytes that begin like the frames of some messages, the messages with
complete frames are decoded. -/
theorem FrameDecoder.decodes {deframe : List UInt8 -> List (List UInt8)}
    (h : FrameDecoder deframe) {payloads : List (List UInt8)}
    (hsizes : forall payload, payload ∈ payloads ->
      payload.length < 2 ^ 31) {bytes : List UInt8}
    (hbytes : bytes <+: (payloads.map frame).flatten) :
    exists k, k ≤ payloads.length ∧ deframe bytes = payloads.take k ∧
      CompleteUpTo payloads bytes k := by
  induction payloads generalizing bytes with
  | nil =>
      have hnil := List.prefix_nil.mp hbytes
      subst hnil
      refine ⟨0, le_refl 0, ?_, ?_⟩
      · exact h.unfinished [] [] (by decide) List.nil_prefix
          (frame_ne_nil []).symm
      · intro j hj
        rw [Nat.le_zero.mp hj]
        exact iff_of_true (le_refl 0) (le_refl 0)
  | cons payload payloads ih =>
      have hsize := hsizes payload List.mem_cons_self
      have hbegin : bytes <+: frame payload ++ (payloads.map frame).flatten :=
        hbytes
      by_cases hlong : frame payload <+: bytes
      · rcases hlong with ⟨rest, rfl⟩
        have hrest := (List.prefix_append_right_inj _).mp hbegin
        rcases ih (fun p hp => hsizes p (List.mem_cons_of_mem _ hp)) hrest with
          ⟨k, hk, hdecoded, hcomplete⟩
        refine ⟨k + 1, Nat.succ_le_succ hk, ?_, ?_⟩
        · rw [h.whole payload rest hsize, hdecoded]
          rfl
        · intro j hj
          cases j with
          | zero => simp
          | succ j =>
              have hiff := hcomplete j (Nat.le_of_succ_le_succ hj)
              rw [List.take_succ_cons, List.map_cons, List.flatten_cons,
                List.length_append, List.length_append]
              lia
      · have hshort : bytes <+: frame payload :=
          (List.prefix_or_prefix_of_prefix hbegin
            (List.prefix_append (frame payload) _)).resolve_right hlong
        have hne : bytes ≠ frame payload := by
          intro heq
          rw [heq] at hlong
          exact hlong (List.prefix_refl _)
        have hlt : bytes.length < (frame payload).length := by
          apply lt_of_le_of_ne hshort.length_le
          intro hlength
          exact hne (hshort.eq_of_length hlength)
        refine ⟨0, Nat.zero_le _, h.unfinished payload bytes hsize hshort hne,
          ?_⟩
        intro j hj
        cases j with
        | zero => exact iff_of_true (le_refl 0) (Nat.zero_le _)
        | succ j =>
            rw [List.take_succ_cons, List.map_cons, List.flatten_cons,
              List.length_append]
            lia

/-!
## What has been written
-/

section Sent

variable (block : Nat) (serialize : Response -> List UInt8)
  (qsort : Qsort maxCalltraces) (parse : List UInt8 -> Option RequestType)
  (env : Session)

/-- The messages that a session has given to its socket, whether they could be
sent or not, with the socket. -/
inductive Session.SentOn (socket : Socket) (process : Process) :
    List Response -> Socket -> Prop
  | begin : SentOn socket process [initResponse env.pid]
      (sendResponse block serialize socket (initResponse env.pid)).2
  | round {st : LoopState} {current : Socket} {reads : List (List UInt8)}
      {type : RequestType}
      (h : env.ReadsOn block serialize qsort parse socket process st current)
      (hread : readRequest parse (env.waiting st).reads =
        (ReadResult.request type, reads)) :
      SentOn socket process
        (env.serveOn block serialize qsort current
          (env.note (env.waiting st) reads type) type).1.1.sent
        (env.serveOn block serialize qsort current
          (env.note (env.waiting st) reads type) type).2

end Sent

/-- An agent introduces itself, and then sends results. -/
def Introduced (pid : Int32) (messages : List Response) : Prop :=
  exists results, messages = initResponse pid :: results ∧
    forall message, message ∈ results ->
      message.id = pid ∧ message.type = ResponseType.profInfo ∧
        exists info, message.profInfo = some info

variable {block : Nat} {serialize : Response -> List UInt8}
  {qsort : Qsort maxCalltraces} {parse : List UInt8 -> Option RequestType}
  {env : Session} {socket current : Socket} {process : Process}
  {st : LoopState} {messages : List Response}

theorem Introduced.concat {pid : Int32} (h : Introduced pid messages)
    {message : Response} (hid : message.id = pid)
    (htype : message.type = ResponseType.profInfo)
    (hinfo : exists info, message.profInfo = some info) :
    Introduced pid (messages ++ [message]) := by
  rcases h with ⟨results, rfl, hresults⟩
  refine ⟨results ++ [message], rfl, ?_⟩
  intro message' hmem
  rcases List.mem_append.mp hmem with hold | hnew
  · exact hresults message' hold
  · rw [List.mem_singleton.mp hnew]
    exact ⟨hid, htype, hinfo⟩

theorem Introduced.result (h : Introduced env.pid messages)
    (st : LoopState) :
    Introduced env.pid (messages ++ [env.result qsort st]) :=
  h.concat rfl rfl ⟨_, rfl⟩

theorem Session.ReadsOn.introduced
    (h : env.ReadsOn block serialize qsort parse socket process st current) :
    Introduced env.pid st.sent := by
  induction h with
  | begin _ => exact ⟨[], rfl, fun _ hmem => by cases hmem⟩
  | round _ _ hserve ih =>
      rcases serveOn_cases hserve with ⟨_, hsent, _⟩ | ⟨_, hsent, _⟩
      · rw [hsent]
        exact ih
      · rw [hsent]
        exact ih.result _

theorem Session.SentOn.written (hblock : 0 < block)
    (h : env.SentOn block serialize qsort parse socket process messages
      current) :
    current = (socket.write (responseFrames serialize messages)).1 ∧
      Introduced env.pid messages := by
  cases h with
  | begin =>
      refine ⟨?_, [], rfl, fun _ hmem => by cases hmem⟩
      apply socket_after hblock []
      exact (ByteSink.write_nil socket).symm
  | @round st current reads type hreads hread =>
      have hsocket := hreads.socket_eq hblock
      have hbefore := hreads.introduced
      cases type with
      | startProfiling => exact ⟨hsocket, hbefore⟩
      | stopProfiling =>
          exact ⟨socket_after hblock _ hsocket, hbefore.result _⟩
      | detach => exact ⟨hsocket, hbefore⟩

theorem introduced_take {pid : Int32} (h : Introduced pid messages) (k : Nat) :
    Introduced pid (messages.take (k + 1)) := by
  rcases h with ⟨results, rfl, hresults⟩
  exact ⟨results.take k, rfl,
    fun message hmem => hresults message (List.mem_of_mem_take hmem)⟩

theorem filterMap_parse {parseResponse : List UInt8 -> Option Response}
    (hparse : forall message, message ∈ messages ->
      parseResponse (serialize message) = some message) (k : Nat) :
    ((messages.map serialize).take k).filterMap parseResponse =
      messages.take k := by
  rw [← List.map_take, List.filterMap_map]
  have hsome : forall message, message ∈ messages.take k ->
      (parseResponse ∘ serialize) message = some message :=
    fun message hmem => hparse message (List.mem_of_mem_take hmem)
  rw [List.filterMap_congr hsome, List.filterMap_some]

/-!
## A decoder

A frame is handed on when its size can be read and as many bytes follow it.
-/

def deframeFrom : Nat -> List UInt8 -> List (List UInt8)
  | 0, _ => []
  | rounds + 1, bytes =>
      match readVarint32 (Input.ofBytes bytes) with
      | (none, _) => []
      | (some size, s) =>
          if size.toNat ≤ s.rest.length then
            s.rest.take size.toNat :: deframeFrom rounds (s.rest.drop size.toNat)
          else []

def deframe (bytes : List UInt8) : List (List UInt8) :=
  deframeFrom (bytes.length + 1) bytes

theorem readVarintFrom_rest_length {rounds index : Nat} {value size : UInt32}
    {s s' : Input UInt8}
    (h : readVarintFrom rounds index value s = (some size, s')) :
    s'.rest.length < s.rest.length := by
  induction rounds generalizing index value s with
  | zero => cases h
  | succ rounds ih =>
      unfold readVarintFrom at h
      cases hnext : s.next with
      | none =>
          rw [hnext] at h
          cases h
      | some step =>
          rcases step with ⟨b, s₁⟩
          have hrest := congrArg List.length (ByteStream.rest_of_next hnext)
          rw [List.length_cons] at hrest
          rw [hnext] at h
          dsimp only at h
          split at h
          · cases h
            lia
          · have hlt := ih h
            lia

/-- With as many rounds as bytes there are enough of them. -/
theorem deframeFrom_eq {rounds rounds' : Nat} {bytes : List UInt8}
    (h : bytes.length < rounds) (h' : bytes.length < rounds') :
    deframeFrom rounds bytes = deframeFrom rounds' bytes := by
  induction rounds generalizing rounds' bytes with
  | zero => cases h
  | succ rounds ih =>
      cases rounds' with
      | zero => cases h'
      | succ rounds' =>
          unfold deframeFrom
          cases hread : readVarint32 (Input.ofBytes bytes) with
          | mk size s =>
              cases size with
              | none => rfl
              | some size =>
                  have hlt := readVarintFrom_rest_length hread
                  rw [Input.rest_ofBytes] at hlt
                  have hdrop := (List.drop_sublist size.toNat s.rest).length_le
                  have hsame : deframeFrom rounds (s.rest.drop size.toNat) =
                      deframeFrom rounds' (s.rest.drop size.toNat) :=
                    ih (by lia) (by lia)
                  dsimp only
                  rw [hsame]

theorem readVarintFrom_nil (rounds index : Nat) (value : UInt32) :
    (readVarintFrom rounds index value (Input.ofBytes [])).1 = none := by
  cases rounds <;> rfl

/-- Of a size that is not complete, every byte says that more of them follow. -/
theorem readVarintFrom_unfinished {groups index rounds : Nat} {value w : UInt32}
    {bytes : List UInt8} (hbytes : bytes <+: varintBytes groups w)
    (hne : bytes ≠ varintBytes groups w) :
    (readVarintFrom rounds index value (Input.ofBytes bytes)).1 = none := by
  induction groups generalizing index rounds value w bytes with
  | zero =>
      rcases List.prefix_cons_iff.mp hbytes with rfl | ⟨tail, rfl, htail⟩
      · exact readVarintFrom_nil _ _ _
      · rw [List.prefix_nil.mp htail] at hne
        exact absurd rfl hne
  | succ groups ih =>
      unfold varintBytes at hbytes hne
      split at hbytes
      · next hsmall =>
          rw [if_pos hsmall] at hne
          rcases List.prefix_cons_iff.mp hbytes with rfl | ⟨tail, rfl, htail⟩
          · exact readVarintFrom_nil _ _ _
          · rw [List.prefix_nil.mp htail] at hne
            exact absurd rfl hne
      · next hsmall =>
          rw [if_neg hsmall] at hne
          rcases List.prefix_cons_iff.mp hbytes with rfl | ⟨tail, rfl, htail⟩
          · exact readVarintFrom_nil _ _ _
          · have hrest : tail ≠ varintBytes groups (w >>> 7) := by
              intro heq
              exact hne (congrArg _ heq)
            cases rounds with
            | zero => rfl
            | succ rounds =>
                have hnext : (Input.ofBytes
                    ((w ||| 0x80).toUInt8 :: tail)).next =
                      some ((w ||| 0x80).toUInt8, Input.ofBytes tail) := rfl
                simp only [readVarintFrom, hnext,
                  (SevenBits.more_byte w).right, if_false]
                exact ih htail hrest

theorem frameDecoder_deframe : FrameDecoder deframe where
  whole := by
    intro payload rest hsize
    have hfit : payload.length < 2 ^ 32 := hsize.trans (by decide)
    have hbytes : (Input.ofBytes (frame payload ++ rest)).rest =
        varint32 (UInt32.ofNat payload.length) ++ (payload ++ rest) := by
      rw [Input.rest_ofBytes, frame, List.append_assoc]
    rcases readVarint32_varint32 _ (fun _ hmem => by cases hmem) hbytes with
      ⟨s, hread, hrest, _⟩
    have hlt : rest.length < (frame payload ++ rest).length := by
      rw [List.length_append]
      have hpos := List.length_pos_of_ne_nil (frame_ne_nil payload)
      lia
    unfold deframe
    rw [deframeFrom, hread]
    simp only [hrest, UInt32.toNat_ofNat_of_lt' hfit]
    rw [if_pos (by simp), List.take_left, List.drop_left,
      deframeFrom_eq hlt (Nat.lt_succ_self _)]
  unfinished := by
    intro payload bytes hsize hbytes hne
    have hfit : payload.length < 2 ^ 32 := hsize.trans (by decide)
    unfold deframe
    rw [deframeFrom]
    by_cases hlong : varint32 (UInt32.ofNat payload.length) <+: bytes
    · rcases hlong with ⟨tail, rfl⟩
      have htail := (List.prefix_append_right_inj _).mp hbytes
      have hshort : tail.length < payload.length := by
        apply lt_of_le_of_ne htail.length_le
        intro hlength
        exact hne (congrArg _ (htail.eq_of_length hlength))
      rcases readVarint32_varint32 _ (fun _ hmem => by cases hmem)
        (Input.rest_ofBytes _) with ⟨s, hread, hrest, _⟩
      rw [hread]
      simp only [hrest, UInt32.toNat_ofNat_of_lt' hfit]
      exact if_neg (Nat.not_le.mpr hshort)
    · have hsize := (List.prefix_or_prefix_of_prefix hbytes
        (List.prefix_append _ payload)).resolve_right hlong
      have hnone : (readVarint32 (Input.ofBytes bytes)).1 = none := by
        apply readVarintFrom_unfinished hsize
        rintro rfl
        exact hlong (List.prefix_refl _)
      cases hread : readVarint32 (Input.ofBytes bytes) with
      | mk size s =>
          rw [hread] at hnone
          dsimp only at hnone
          rw [hnone]

/-!
## The messages that arrive
-/

/-- Whatever has been written when a message was sent, and wherever the socket
has failed, the plugin decodes the messages with complete frames: an agent that
introduces itself and then sends results. -/
theorem received_in_order (block : Nat) (hblock : 0 < block)
    (serialize : Response -> List UInt8)
    (deframe : List UInt8 -> List (List UInt8))
    (hdeframe : FrameDecoder deframe)
    (parseResponse : List UInt8 -> Option Response)
    (qsort : Qsort maxCalltraces) (parse : List UInt8 -> Option RequestType)
    (env : Session) (socket : Socket) (hfresh : socket.accepted = [])
    (process : Process) (messages : List Response) (current : Socket)
    (hsent : env.SentOn block serialize qsort parse socket process messages
      current)
    (hsizes : forall message, message ∈ messages ->
      (serialize message).length < 2 ^ 31)
    (hparse : forall message, message ∈ messages ->
      parseResponse (serialize message) = some message) :
    exists k, k ≤ messages.length ∧
      (deframe current.accepted).filterMap parseResponse = messages.take k ∧
      CompleteUpTo (messages.map serialize) current.accepted k ∧
      (k ≠ 0 -> Introduced env.pid (messages.take k)) := by
  rcases hsent.written hblock with ⟨hcurrent, hintroduced⟩
  rcases ByteSink.exists_accepted_write socket
    (responseFrames serialize messages) with ⟨taken, htaken, haccepted⟩
  rw [← hcurrent, hfresh, List.nil_append] at haccepted
  rw [responseFrames_eq_frames] at htaken
  have hlengths : forall payload, payload ∈ messages.map serialize ->
      payload.length < 2 ^ 31 := by
    intro payload hmem
    rcases List.mem_map.mp hmem with ⟨message, hmessage, rfl⟩
    exact hsizes message hmessage
  rcases hdeframe.decodes hlengths htaken with ⟨k, hk, hdecoded, hcomplete⟩
  rw [List.length_map] at hk
  rw [haccepted]
  refine ⟨k, hk, ?_, hcomplete, ?_⟩
  · rw [hdecoded, filterMap_parse hparse]
  · intro hne
    rcases Nat.exists_eq_succ_of_ne_zero hne with ⟨n, rfl⟩
    exact introduced_take hintroduced n

def stoppedAtOnce : Session :=
  plainSession [requestFrame RequestType.stopProfiling]

def stopRead : LoopState :=
  stoppedAtOnce.note
    (stoppedAtOnce.waiting (stoppedAtOnce.begin Process.initial)) []
    RequestType.stopProfiling

/-- The socket takes the introduction, and fails inside the frame of the
result. -/
def cutSocket : Socket := { accepted := [], room := some 7 }

def parseAnswers : List UInt8 -> Option Response
  | [0x08, 1, 0x10, 0] => some (initResponse 1)
  | [0x08, 1, 0x10, 1] => some (stoppedAtOnce.result mergeQsort stopRead)
  | _ => none

theorem received_cutResult :
    exists current,
      stoppedAtOnce.SentOn 8192 bareResponse mergeQsort parseRequest
        cutSocket Process.initial
        [initResponse 1, stoppedAtOnce.result mergeQsort stopRead] current ∧
      current.accepted.length = 7 ∧
      (deframe current.accepted).filterMap parseAnswers =
        [initResponse 1] := by
  have hbegin : stoppedAtOnce.ReadsOn 8192 bareResponse mergeQsort parseRequest
      cutSocket Process.initial (stoppedAtOnce.begin Process.initial)
      (sendResponse 8192 bareResponse cutSocket (initResponse 1)).2 :=
    Session.ReadsOn.begin (by decide)
  have hread : readRequest parseRequest (stoppedAtOnce.waiting
      (stoppedAtOnce.begin Process.initial)).reads =
        (ReadResult.request RequestType.stopProfiling, []) := rfl
  have hsent := Session.SentOn.round hbegin hread
  rcases received_in_order 8192 (by decide) bareResponse deframe
    frameDecoder_deframe parseAnswers mergeQsort parseRequest stoppedAtOnce
    cutSocket rfl Process.initial
    [initResponse 1, stoppedAtOnce.result mergeQsort stopRead] _ hsent
    (by simp; decide) (by simp; exact ⟨rfl, rfl⟩) with
    ⟨k, _, hdecoded, hcomplete, _⟩
  refine ⟨_, hsent, by decide, ?_⟩
  have hfirst : 1 ≤ k := (hcomplete 1 (by decide)).mpr (by decide)
  have hsecond : ¬ 2 ≤ k := by
    intro htwo
    exact absurd ((hcomplete 2 (le_refl 2)).mp htwo) (by decide)
  have hk : k = 1 := by lia
  subst hk
  exact hdecoded

end Agent
end Franky

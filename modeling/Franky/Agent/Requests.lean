import Franky.Agent.RequestLoop

/-!
# Requests on a stream of bytes

The plugin writes each request as a frame of three bytes.  How the stream
delivers the frames decides whether the loop handles them all: what a read
delivers beyond the end of a request is lost.
-/

namespace Franky
namespace Agent

open Foundation
open Foundation.ByteStream (Input Boundary Consumed consumed_fresh)
open Foundation.Sorting (Qsort mergeQsort)
open Protocol

def requestNumber : RequestType -> UInt8
  | RequestType.startProfiling => 0
  | RequestType.stopProfiling => 1
  | RequestType.detach => 2

/-- The message: its only field, with field number one. -/
def requestMessage (type : RequestType) : List UInt8 :=
  [0x08, requestNumber type]

/-- `JVMRemoteInstance.send`: the message after its length. -/
def requestFrame (type : RequestType) : List UInt8 :=
  0x02 :: requestMessage type

/-- What is relied on of the parser. -/
def ParsesRequests (parse : List UInt8 -> Option RequestType) : Prop :=
  forall type, parse (requestMessage type) = some type

/-- The requests up to the first detach, which is the last one to be handled. -/
def upToDetach : List RequestType -> List RequestType
  | [] => []
  | RequestType.detach :: _ => [RequestType.detach]
  | type :: types => type :: upToDetach types

/-- Each request once, in the order sent, at its place in the stream. -/
def inOrder : Nat -> List RequestType -> List Handled
  | _, [] => []
  | position, type :: types =>
      { position := position, request := type } :: inOrder (position + 3) types

/-- Each request but the last one ends where a read ends, and the result of each
stop among them can be sent. -/
def Session.Undisturbed (env : Session) :
    Nat -> Nat -> List RequestType -> Prop
  | _, _, [] => True
  | _, _, [_] => True
  | position, messages, type :: types =>
      Boundary env.reads (position + 3) ∧
      (type = RequestType.stopProfiling ->
        env.sendSucceeds messages = true) ∧
      env.Undisturbed (position + 3)
        (if type = RequestType.stopProfiling then messages + 1 else messages)
        types

/-!
## Reading a frame
-/

variable {qsort : Qsort maxCalltraces}
  {parse : List UInt8 -> Option RequestType} {env : Session}

theorem readRequest_frame (hparse : ParsesRequests parse)
    {reads : List (List UInt8)}
    (hreads : forall chunk, chunk ∈ reads -> chunk ≠ []) {type : RequestType}
    {rest : List UInt8} (hflat : reads.flatten = requestFrame type ++ rest) :
    exists s, readRequest parse reads = (ReadResult.request type, s.pending) ∧
      Consumed reads (requestFrame type) s := by
  rcases ByteStream.next_of_rest (s := Input.fresh reads) hreads hflat with
    ⟨s₁, hnext, hrest₁, hchunks₁⟩
  have hfirst := (consumed_fresh reads).next hnext
  rcases hfirst.take hchunks₁ hrest₁ with ⟨s₂, htake, hconsumed⟩
  have hsize : readVarint32 (Input.fresh reads) = (some 2, s₁) := by
    unfold readVarint32 readVarintFrom
    rw [hnext]
    rfl
  have htwo : s₁.take (2 : UInt32).toNat = (requestMessage type, s₂) := htake
  refine ⟨s₂, ?_, hconsumed⟩
  unfold readRequest
  rw [hsize]
  dsimp only
  rw [htwo, hparse type]

theorem readRequest_nil : readRequest parse [] = (ReadResult.endOfStream, []) :=
  rfl

theorem reads_eq_nil {reads : List (List UInt8)}
    (hreads : forall chunk, chunk ∈ reads -> chunk ≠ [])
    (hflat : reads.flatten = []) : reads = [] := by
  cases reads with
  | nil => rfl
  | cons chunk reads =>
      have hchunk := List.flatten_eq_nil_iff.mp hflat chunk List.mem_cons_self
      exact absurd hchunk (hreads chunk List.mem_cons_self)

/-!
## One round of the loop
-/

theorem loop_endOfStream {rounds : Nat} {st : LoopState}
    {reads : List (List UInt8)}
    (hread : readRequest parse st.reads = (ReadResult.endOfStream, reads)) :
    env.loop qsort parse (rounds + 1) st =
      some (0, { env.waiting st with reads := reads }) := by
  simp only [Session.loop, waiting_reads, hread]

theorem loop_unreadable {rounds : Nat} {st : LoopState}
    {reads : List (List UInt8)}
    (hread : readRequest parse st.reads = (ReadResult.unreadable, reads)) :
    env.loop qsort parse (rounds + 1) st =
      some (-1, { env.waiting st with reads := reads }) := by
  simp only [Session.loop, waiting_reads, hread]

/-- The state after a request has been read and served. -/
def Session.served (qsort : Qsort maxCalltraces) (env : Session)
    (st : LoopState) (reads : List (List UInt8)) (type : RequestType) :
    LoopState × Option Int32 :=
  env.serve qsort (env.note (env.waiting st) reads type) type

theorem loop_request {rounds : Nat} {st : LoopState}
    {reads : List (List UInt8)} {type : RequestType}
    (hread : readRequest parse st.reads = (ReadResult.request type, reads)) :
    env.loop qsort parse (rounds + 1) st =
      match (env.served qsort st reads type).2 with
      | some code => some (code, (env.served qsort st reads type).1)
      | none => env.loop qsort parse rounds
          (env.served qsort st reads type).1 := by
  simp only [Session.loop, Session.served, waiting_reads, hread]
  cases env.serve qsort (env.note (env.waiting st) reads type) type with
  | mk st' code => cases code <;> rfl

theorem served_handled (qsort : Qsort maxCalltraces) (env : Session)
    (st : LoopState) (reads : List (List UInt8))
    (type : RequestType) :
    (env.served qsort st reads type).1.handled = st.handled ++
      [{ position := env.reads.flatten.length - st.reads.flatten.length
         request := type }] :=
  serve_handled _ type

theorem served_reads (qsort : Qsort maxCalltraces) (env : Session)
    (st : LoopState) (reads : List (List UInt8))
    (type : RequestType) :
    (env.served qsort st reads type).1.reads = reads :=
  serve_reads _ type

theorem loop_handled_prefix {rounds : Nat} {st st' : LoopState} {code : Int32}
    (h : env.loop qsort parse rounds st = some (code, st')) :
    st.handled <+: st'.handled := by
  induction rounds generalizing st with
  | zero => cases h
  | succ rounds ih =>
      cases hread : readRequest parse st.reads with
      | mk result reads =>
          cases result with
          | endOfStream =>
              rw [loop_endOfStream hread] at h
              cases h
              exact List.prefix_refl _
          | unreadable =>
              rw [loop_unreadable hread] at h
              cases h
              exact List.prefix_refl _
          | request type =>
              rw [loop_request hread] at h
              have hserved : st.handled <+:
                  (env.served qsort st reads type).1.handled := by
                rw [served_handled]
                exact List.prefix_append _ _
              cases hcode : (env.served qsort st reads type).2 with
              | some code' =>
                  rw [hcode] at h
                  cases h
                  exact hserved
              | none =>
                  rw [hcode] at h
                  exact hserved.trans (ih h)

theorem loop_handled_next {rounds : Nat} {st st' : LoopState} {code : Int32}
    (h : env.loop qsort parse rounds st = some (code, st')) :
    st'.handled = st.handled ∨ exists type more,
      st'.handled = st.handled ++
        { position := env.reads.flatten.length - st.reads.flatten.length
          request := type } :: more := by
  cases rounds with
  | zero => cases h
  | succ rounds =>
      cases hread : readRequest parse st.reads with
      | mk result reads =>
          cases result with
          | endOfStream =>
              rw [loop_endOfStream hread] at h
              cases h
              exact Or.inl rfl
          | unreadable =>
              rw [loop_unreadable hread] at h
              cases h
              exact Or.inl rfl
          | request type =>
              right
              rw [loop_request hread] at h
              have hhandled : (env.served qsort st reads type).1.handled =
                  st.handled ++
                    [{ position := env.reads.flatten.length -
                         st.reads.flatten.length
                       request := type }] := served_handled qsort env st reads type
              cases hcode : (env.served qsort st reads type).2 with
              | some code' =>
                  rw [hcode] at h
                  cases h
                  exact ⟨type, [], hhandled⟩
              | none =>
                  rw [hcode] at h
                  rcases loop_handled_prefix h with ⟨more, hmore⟩
                  rw [hhandled, List.append_assoc] at hmore
                  exact ⟨type, more, hmore.symm⟩

theorem served_code (qsort : Qsort maxCalltraces) (env : Session)
    (st : LoopState) (reads : List (List UInt8))
    (type : RequestType) :
    (env.served qsort st reads type).2 =
      match type with
      | RequestType.startProfiling => none
      | RequestType.stopProfiling =>
          if env.sendSucceeds st.sent.length then none else some (-1)
      | RequestType.detach => some 0 := by
  cases type <;> rfl

theorem served_sent_length (qsort : Qsort maxCalltraces) (env : Session)
    (st : LoopState) (reads : List (List UInt8))
    (type : RequestType) :
    (env.served qsort st reads type).1.sent.length =
      if type = RequestType.stopProfiling then st.sent.length + 1
      else st.sent.length := by
  cases type with
  | startProfiling => rfl
  | stopProfiling => exact List.length_append
  | detach => rfl

theorem served_code_some {st : LoopState} {reads : List (List UInt8)}
    {type : RequestType} {code : Int32} (hdetach : type ≠ RequestType.detach)
    (h : (env.served qsort st reads type).2 = some code) :
    type = RequestType.stopProfiling ∧
      env.sendSucceeds st.sent.length = false := by
  rw [served_code] at h
  cases type with
  | startProfiling => cases h
  | stopProfiling =>
      refine ⟨rfl, ?_⟩
      cases hsend : env.sendSucceeds st.sent.length with
      | true => simp [hsend] at h
      | false => rfl
  | detach => exact absurd rfl hdetach

theorem served_code_none {st : LoopState} {reads : List (List UInt8)}
    {type : RequestType} (h : (env.served qsort st reads type).2 = none) :
    type = RequestType.stopProfiling ->
      env.sendSucceeds st.sent.length = true := by
  intro hstop
  subst hstop
  rw [served_code] at h
  cases hsend : env.sendSucceeds st.sent.length with
  | true => rfl
  | false => simp [hsend] at h

/-!
## All rounds of the loop
-/

theorem upToDetach_cons {type : RequestType} (h : type ≠ RequestType.detach)
    (types : List RequestType) :
    upToDetach (type :: types) = type :: upToDetach types := by
  cases type with
  | startProfiling => rfl
  | stopProfiling => rfl
  | detach => exact absurd rfl h

theorem upToDetach_eq_nil_iff {types : List RequestType} :
    upToDetach types = [] <-> types = [] := by
  cases types with
  | nil => exact iff_of_true rfl rfl
  | cons type types => cases type <;> simp [upToDetach]

theorem inOrder_eq_nil_iff {position : Nat} {types : List RequestType} :
    inOrder position types = [] <-> types = [] := by
  cases types <;> simp [inOrder]

theorem undisturbed_cons {position messages : Nat} {type : RequestType}
    {types : List RequestType} (h : types ≠ []) :
    env.Undisturbed position messages (type :: types) <->
      Boundary env.reads (position + 3) ∧
      (type = RequestType.stopProfiling ->
        env.sendSucceeds messages = true) ∧
      env.Undisturbed (position + 3)
        (if type = RequestType.stopProfiling then messages + 1 else messages)
        types := by
  cases types with
  | nil => exact absurd rfl h
  | cons type' types => exact Iff.rfl

/-- A request whose last byte is not the last one of a read: what the read
delivered beyond it is lost, and the next request is not read at its place. -/
theorem not_inOrder_of_leftover {rounds : Nat} {st st' : LoopState}
    {code : Int32} {position : Nat} {types : List RequestType}
    (h : env.loop qsort parse rounds st = some (code, st'))
    (hposition : env.reads.flatten.length - st.reads.flatten.length ≠ position)
    (htypes : types ≠ []) :
    st'.handled ≠ st.handled ++ inOrder position types := by
  intro heq
  rcases loop_handled_next h with hsame | ⟨type, more, hnext⟩
  · rw [hsame] at heq
    have hnil := List.self_eq_append_right.mp heq
    exact htypes (inOrder_eq_nil_iff.mp hnil)
  · rw [hnext] at heq
    have hrest := List.append_cancel_left heq
    cases types with
    | nil => exact htypes rfl
    | cons type' types =>
        rw [inOrder, List.cons.injEq, Handled.mk.injEq] at hrest
        exact hposition hrest.left.left

/-- What is left to read begins with a frame: the reads in front of it have been
taken, and the rest are the frames of these requests. -/
structure AtFrames (env : Session) (st : LoopState) (front : List (List UInt8))
    (requests : List RequestType) : Prop where
  split : env.reads = front ++ st.reads
  chunks : forall chunk, chunk ∈ st.reads -> chunk ≠ []
  flat : st.reads.flatten = requests.flatMap requestFrame

section AtFrames

variable {st : LoopState} {front : List (List UInt8)} {type : RequestType}
  {types : List RequestType} {s : Input UInt8}

theorem AtFrames.read_nil (h : AtFrames env st front []) :
    readRequest parse st.reads = (ReadResult.endOfStream, []) := by
  rw [reads_eq_nil h.chunks h.flat, readRequest_nil]

theorem AtFrames.read (h : AtFrames env st front (type :: types))
    (hparse : ParsesRequests parse) :
    exists s, readRequest parse st.reads =
        (ReadResult.request type, s.pending) ∧
      Consumed st.reads (requestFrame type) s := by
  have hflat := h.flat
  rw [List.flatMap_cons] at hflat
  exact readRequest_frame hparse h.chunks hflat

theorem AtFrames.handled (qsort : Qsort maxCalltraces)
    (h : AtFrames env st front (type :: types)) (reads : List (List UInt8)) :
    (env.served qsort st reads type).1.handled = st.handled ++
      [{ position := front.flatten.length, request := type }] := by
  have htotal : env.reads.flatten.length - st.reads.flatten.length =
      front.flatten.length := by
    rw [h.split, List.flatten_append, List.length_append]
    lia
  rw [served_handled, htotal]

theorem AtFrames.boundary_iff (h : AtFrames env st front (type :: types))
    (hconsumed : Consumed st.reads (requestFrame type) s) :
    s.buffer = [] <-> Boundary env.reads (front.flatten.length + 3) := by
  rw [h.split, ByteStream.boundary_append_iff]
  exact hconsumed.buffer_eq_nil_iff

/-- A read that ends with the request: the next frame begins behind it. -/
theorem AtFrames.next (qsort : Qsort maxCalltraces)
    (h : AtFrames env st front (type :: types))
    (hconsumed : Consumed st.reads (requestFrame type) s)
    (hend : s.buffer = []) :
    exists taken,
      AtFrames env (env.served qsort st s.pending type).1 (front ++ taken)
        types ∧
      (front ++ taken).flatten.length = front.flatten.length + 3 := by
  rcases hconsumed.split_of_buffer_nil hend with ⟨taken, htaken, hbytes⟩
  have hrest := hconsumed.rest_of_flatten (h.flat.trans List.flatMap_cons)
  rw [Input.rest, hend] at hrest
  refine ⟨taken, ⟨?_, ?_, ?_⟩, ?_⟩
  · rw [served_reads, List.append_assoc, ← htaken, h.split]
  · rw [served_reads]
    intro chunk hmem
    apply h.chunks
    rw [htaken]
    exact List.mem_append_right _ hmem
  · rw [served_reads]
    exact hrest
  · rw [List.flatten_append, List.length_append, hbytes]
    rfl

/-- A read that delivered more than the request: there is another request, and
the next one is not read at its place. -/
theorem AtFrames.leftover (qsort : Qsort maxCalltraces)
    (h : AtFrames env st front (type :: types))
    (hconsumed : Consumed st.reads (requestFrame type) s)
    (hend : s.buffer ≠ []) :
    upToDetach types ≠ [] ∧
      env.reads.flatten.length -
          (env.served qsort st s.pending type).1.reads.flatten.length ≠
        front.flatten.length + 3 := by
  constructor
  · intro hnil
    have hrest := hconsumed.rest_of_flatten (h.flat.trans List.flatMap_cons)
    rw [upToDetach_eq_nil_iff.mp hnil, List.flatMap_nil] at hrest
    exact hend (List.append_eq_nil_iff.mp hrest).left
  · rw [served_reads]
    have hpending := hconsumed.pending_length
    have hframe : (requestFrame type).length = 3 := rfl
    have hpos := List.length_pos_iff.mpr hend
    rw [h.split, List.flatten_append, List.length_append]
    lia

theorem undisturbed_returned {position : Nat}
    (hdetach : type ≠ RequestType.detach) {reads : List (List UInt8)}
    {code : Int32}
    (hcode : (env.served qsort st reads type).2 = some code) :
    env.Undisturbed position st.sent.length (type :: types) <->
      types = [] := by
  rcases served_code_some hdetach hcode with ⟨hstop, hsend⟩
  rcases eq_or_ne types [] with rfl | hne
  · exact iff_of_true trivial rfl
  · rw [undisturbed_cons hne]
    apply iff_of_false
    · intro hgood
      rw [hgood.right.left hstop] at hsend
      cases hsend
    · exact hne

theorem undisturbed_next {position : Nat} {reads : List (List UInt8)}
    (hcode : (env.served qsort st reads type).2 = none)
    (hboundary : Boundary env.reads (position + 3)) :
    env.Undisturbed position st.sent.length (type :: types) <->
      env.Undisturbed (position + 3)
        (env.served qsort st reads type).1.sent.length types := by
  rw [served_sent_length]
  rcases eq_or_ne types [] with rfl | hne
  · exact iff_of_true trivial trivial
  · rw [undisturbed_cons hne]
    constructor
    · intro hgood
      exact hgood.right.right
    · intro hrun
      exact ⟨hboundary, served_code_none hcode, hrun⟩

end AtFrames

/-- From a place where a frame begins, the loop handles the requests in order
exactly when it is not disturbed on the way. -/
theorem loop_inOrder_iff (hparse : ParsesRequests parse)
    {requests : List RequestType} {rounds : Nat} {st st' : LoopState}
    {code : Int32} {front : List (List UInt8)}
    (hframes : AtFrames env st front requests)
    (h : env.loop qsort parse rounds st = some (code, st')) :
    st'.handled =
        st.handled ++ inOrder front.flatten.length (upToDetach requests) <->
      env.Undisturbed front.flatten.length st.sent.length
        (upToDetach requests) := by
  induction requests generalizing rounds st front with
  | nil =>
      cases rounds with
      | zero => cases h
      | succ rounds =>
          rw [loop_endOfStream hframes.read_nil] at h
          cases h
          exact iff_of_true (List.append_nil _).symm trivial
  | cons type types ih =>
      cases rounds with
      | zero => cases h
      | succ rounds =>
          rcases hframes.read hparse with ⟨s, hread, hconsumed⟩
          have hhandled := hframes.handled qsort s.pending
          rw [loop_request hread] at h
          rcases eq_or_ne type RequestType.detach with rfl | hdetach
          · rw [served_code] at h
            cases h
            exact iff_of_true hhandled trivial
          · rw [upToDetach_cons hdetach, inOrder]
            cases hcode : (env.served qsort st s.pending type).2 with
            | some code' =>
                rw [hcode] at h
                cases h
                rw [undisturbed_returned hdetach hcode, hhandled,
                  List.append_right_inj, List.cons.injEq,
                  eq_comm (a := []), inOrder_eq_nil_iff]
                exact and_iff_right rfl
            | none =>
                rw [hcode] at h
                dsimp only at h
                rw [List.append_cons, ← hhandled]
                rcases eq_or_ne s.buffer [] with hend | hend
                · rcases hframes.next qsort hconsumed hend with
                    ⟨taken, hnext, hlength⟩
                  have hrest := ih hnext h
                  rw [hlength] at hrest
                  rw [hrest, undisturbed_next hcode
                    ((hframes.boundary_iff hconsumed).mp hend)]
                · rcases hframes.leftover qsort hconsumed hend with
                    ⟨hmore, hposition⟩
                  rw [undisturbed_cons hmore]
                  apply iff_of_false
                  · exact not_inOrder_of_leftover h hposition hmore
                  · intro hgood
                    exact hend
                      ((hframes.boundary_iff hconsumed).mpr hgood.left)

/-!
## A whole session
-/

/-- The loop handles the requests the plugin sent, each once and in order up to
the first detach, exactly when its first message is sent and each request but
the last one ends where a read ends, with the result of each stop sent. -/
theorem requests_handled_iff (qsort : Qsort maxCalltraces)
    (parse : List UInt8 -> Option RequestType) (hparse : ParsesRequests parse)
    (env : Session) (process : Process)
    (hreads : forall chunk, chunk ∈ env.reads -> chunk ≠ [])
    (requests : List RequestType)
    (hrequests : env.reads.flatten = requests.flatMap requestFrame) :
    exists code st,
      env.handleRequestLoop qsort parse process = some (code, st) ∧
      (st.handled = inOrder 0 (upToDetach requests) <->
        (env.sendSucceeds 0 = true ∨ requests = []) ∧
          env.Undisturbed 0 1 (upToDetach requests)) := by
  rcases handleRequestLoop_returns qsort parse env process with ⟨⟨code, st⟩, hresult⟩
  refine ⟨code, st, hresult, ?_⟩
  unfold Session.handleRequestLoop at hresult
  cases hinit : env.sendSucceeds 0 with
  | true =>
      rw [hinit, if_pos rfl] at hresult
      have hloop : st.handled = (env.begin process).handled ++
            inOrder ([] : List (List UInt8)).flatten.length
              (upToDetach requests) <->
          env.Undisturbed ([] : List (List UInt8)).flatten.length
            (env.begin process).sent.length (upToDetach requests) :=
        loop_inOrder_iff hparse ⟨rfl, hreads, hrequests⟩ hresult
      change st.handled = inOrder 0 (upToDetach requests) <->
        env.Undisturbed 0 1 (upToDetach requests) at hloop
      rw [hloop]
      exact ⟨fun h => ⟨Or.inl rfl, h⟩, And.right⟩
  | false =>
      rw [hinit, if_neg Bool.false_ne_true] at hresult
      cases hresult
      change [] = inOrder 0 (upToDetach requests) <-> _
      rw [eq_comm, inOrder_eq_nil_iff, upToDetach_eq_nil_iff]
      constructor
      · intro hnil
        rw [hnil]
        exact ⟨Or.inr rfl, trivial⟩
      · intro hgood
        exact hgood.left.resolve_left Bool.false_ne_true

/-- A parser for the message as the plugin writes it. -/
def parseRequest : List UInt8 -> Option RequestType
  | [0x08, 0] => some RequestType.startProfiling
  | [0x08, 1] => some RequestType.stopProfiling
  | [0x08, 2] => some RequestType.detach
  | _ => none

/-- A session in which nothing fails and nothing is sampled. -/
def plainSession (reads : List (List UInt8)) : Session :=
  { pid := 1
    names := fun _ => { name := "run", sig := "()V", classSig := "LMain;" }
    vm := VM.initial
    reads := reads
    samples := fun _ => []
    sendSucceeds := fun _ => true }

def startStop : List RequestType :=
  [RequestType.startProfiling, RequestType.stopProfiling]

/-- A start and a stop that come in two reads are both handled. -/
theorem startStop_handled :
    exists code st,
      (plainSession (startStop.map requestFrame)).handleRequestLoop mergeQsort
        parseRequest Process.initial = some (code, st) ∧
      st.handled = inOrder 0 startStop := by
  have hparse : ParsesRequests parseRequest := by
    intro type
    cases type <;> rfl
  have hreads : forall chunk,
      chunk ∈ (plainSession (startStop.map requestFrame)).reads ->
        chunk ≠ [] := by
    intro chunk hmem
    rcases List.mem_pair.mp hmem with rfl | rfl <;> exact List.cons_ne_nil _ _
  rcases requests_handled_iff mergeQsort parseRequest hparse
    (plainSession (startStop.map requestFrame)) Process.initial hreads startStop
    rfl with ⟨code, st, hresult, hhandled⟩
  refine ⟨code, st, hresult, hhandled.mpr ⟨Or.inl rfl, ?_, ?_, trivial⟩⟩
  · exact ⟨[requestFrame RequestType.startProfiling],
      [requestFrame RequestType.stopProfiling], rfl, rfl⟩
  · intro _
    rfl

/-- A start and a stop that come in one read: the stop is lost. -/
theorem startStop_lost :
    (plainSession [startStop.flatMap requestFrame]).reads.flatten =
      startStop.flatMap requestFrame ∧
    ((plainSession [startStop.flatMap requestFrame]).handleRequestLoop
      mergeQsort parseRequest Process.initial).map
        (fun result => result.2.handled) =
      some (inOrder 0 [RequestType.startProfiling]) ∧
    inOrder 0 [RequestType.startProfiling] ≠
      inOrder 0 (upToDetach startStop) := by
  refine ⟨rfl, rfl, ?_⟩
  decide

end Agent
end Franky

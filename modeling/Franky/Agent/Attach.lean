import Franky.Agent.Environments
import Franky.Agent.Life

/-!
# Attaching the agent

Each time the agent is attached it sets up an environment, connects back to the
plugin and runs a session.  It may fail on the way, at five calls.  A failure
leaves the profiler as it was, but the socket that has been opened is closed
only by a session that a DETACH request ends.  All attachments here are of one
loaded library.
-/

namespace Franky
namespace Agent

open Foundation
open Foundation.Sorting (Qsort Contract mergeQsort mergeQsort_contract)
open Protocol

/-!
## The calls
-/

/-- What the system and the virtual machine return to `Profiler::init`:
descriptors and codes, and whether the host and the class are found. -/
structure ConnectCalls where
  socket : Int32
  gethostbyname : Bool
  connect : Int32
  findClass : Bool
  redefineClasses : Int32
deriving DecidableEq, Repr

/-- One attachment: the compilations and the samples since the one before, the
calls that are made, and the session that is had if they succeed. -/
structure Attachment where
  compiled : List CompiledMethodEvent
  idle : List (Option AsgctCallTrace)
  init : InitCalls
  calls : ConnectCalls
  session : Session

def performWorldDeopt (calls : ConnectCalls) : Int32 :=
  if calls.findClass then calls.redefineClasses else -1

def LoopState.detached (st : LoopState) : Bool :=
  st.handled.getLast?.map Handled.request = some RequestType.detach

/-- The process with the agent in it, and the sockets that are open. -/
structure AgentProcess where
  process : Process
  host : Host
  sockfd : Int32
  opened : List Int32

namespace AgentProcess

def initial : AgentProcess :=
  { process := Process.initial, host := Host.initial, sockfd := 0, opened := [] }

section Attach

variable (qsort : Qsort maxCalltraces)
  (parse : List UInt8 -> Option RequestType)

/-- `Profiler::handleRequestLoop`, which closes the socket for a DETACH. -/
def handleRequestLoop (a : AgentProcess) (session : Session) :
    Option (Int32 × AgentProcess × List Response) :=
  (({ session with vm := a.host.vm } : Session).handleRequestLoop qsort parse
    a.process).map (fun returned =>
      (returned.1,
        { a with
          process := returned.2.process
          host := { a.host with vm := returned.2.vm }
          opened :=
            if returned.2.detached then a.opened.erase a.sockfd
            else a.opened },
        returned.2.sent))

/-- `Profiler::init`. -/
def init (a : AgentProcess) (calls : ConnectCalls) (session : Session) :
    Option (Int32 × AgentProcess × List Response) :=
  let a := { a with sockfd := calls.socket }
  if calls.socket < 0 then some (-1, a, [])
  else
    let a := { a with opened := a.opened ++ [calls.socket] }
    if calls.gethostbyname = false then some (-1, a, [])
    else if calls.connect < 0 then some (-1, a, [])
    else if performWorldDeopt calls < 0 then some (-1, a, [])
    else a.handleRequestLoop qsort parse session

/-- `Agent_OnAttach`.  The result of `VM::init` is not looked at, and without an
environment `loadAllMethodIDs` ends the process. -/
def onAttach (a : AgentProcess) (attachment : Attachment) :
    Option (Int32 × AgentProcess × List Response) :=
  let host := (a.host.init attachment.init).2
  if host.jvmti then
    { a with host := host }.init qsort parse attachment.calls
      attachment.session
  else none

def wait (a : AgentProcess) (attachment : Attachment) : AgentProcess :=
  { a with
    process := attachment.idle.foldl Process.sample a.process
    host :=
      { a.host with
        vm := attachment.compiled.foldl
          (fun vm event => Host.deliver event a.host.enabled vm) a.host.vm } }

/-- All attachments, with the messages that are sent. -/
def attachAll : AgentProcess -> List Attachment ->
    Option (AgentProcess × List Response)
  | a, [] => some (a, [])
  | a, attachment :: attachments =>
      ((a.wait attachment).onAttach qsort parse attachment).bind
        (fun returned =>
          (attachAll returned.2.1 attachments).map (fun rest =>
            (rest.1, returned.2.2 ++ rest.2)))

end Attach

end AgentProcess

/-!
## What an attachment comes to
-/

/-- The calls lead to a session.  What `RedefineClasses` returns in the way of
an error is a positive number. -/
def ConnectCalls.Succeed (calls : ConnectCalls) : Prop :=
  0 ≤ calls.socket ∧ calls.gethostbyname = true ∧ 0 ≤ calls.connect ∧
    0 ≤ performWorldDeopt calls

instance (calls : ConnectCalls) : Decidable calls.Succeed :=
  inferInstanceAs (Decidable (_ ∧ _))

section Parse

variable (parse : List UInt8 -> Option RequestType)

/-- What the recorder goes through. -/
def Attachment.events (attachment : Attachment) : List AgentEvent :=
  if attachment.calls.Succeed then
    Visit.events parse
      { idle := attachment.idle, session := attachment.session }
  else attachment.idle.map AgentEvent.sample

/-- The socket that is left open. -/
def Attachment.leaves (attachment : Attachment) : Option Int32 :=
  if attachment.calls.socket < 0 then none
  else if attachment.calls.Succeed ∧
      RequestType.detach ∈ attachment.session.requests parse then none
  else some attachment.calls.socket

/-- Each socket is opened with a descriptor that is free. -/
def FreshSockets : List Int32 -> List Attachment -> Prop
  | _, [] => True
  | opened, attachment :: attachments =>
      (0 ≤ attachment.calls.socket -> attachment.calls.socket ∉ opened) ∧
        FreshSockets (opened ++ (attachment.leaves parse).toList) attachments

end Parse

/-!
## How a session ends
-/

section Ends

variable {qsort : Qsort maxCalltraces}
  {parse : List UInt8 -> Option RequestType} {env : Session}

theorem served_requests (qsort : Qsort maxCalltraces) (env : Session)
    (st : LoopState) (reads : List (List UInt8)) (type : RequestType) :
    (env.served qsort st reads type).1.handled.map Handled.request =
      st.handled.map Handled.request ++ [type] := by
  rw [served_handled, List.map_append]
  rfl

theorem loop_requests {rounds : Nat} {st st' : LoopState} {code : Int32}
    (h : env.loop qsort parse rounds st = some (code, st')) :
    st'.handled.map Handled.request = st.handled.map Handled.request ++
      answered env.sendSucceeds st.sent.length
        (requestsRead parse rounds st.reads) := by
  induction rounds generalizing st with
  | zero => cases h
  | succ rounds ih =>
      cases hread : readRequest parse st.reads with
      | mk result reads =>
          cases result with
          | endOfStream =>
              rw [loop_endOfStream hread] at h
              cases h
              simp only [requestsRead, hread, answered]
              exact (List.append_nil _).symm
          | unreadable =>
              rw [loop_unreadable hread] at h
              cases h
              simp only [requestsRead, hread, answered]
              exact (List.append_nil _).symm
          | request type =>
              have hserved := served_requests qsort env st reads type
              have hcode := served_code qsort env st reads type
              have hsent := served_sent_length qsort env st reads type
              have hreads := served_reads qsort env st reads type
              rw [loop_request hread] at h
              simp only [requestsRead, hread]
              cases type with
              | startProfiling =>
                  rw [hcode] at h
                  rw [ih h, hserved, hsent, hreads, answered, List.append_assoc]
                  rfl
              | stopProfiling =>
                  rw [answered]
                  cases hsend : env.sendSucceeds st.sent.length with
                  | true =>
                      simp only [hcode, hsend, if_true] at h
                      rw [ih h, hserved, hsent, hreads, if_pos rfl,
                        List.append_assoc]
                      rfl
                  | false =>
                      simp only [hcode, hsend, Bool.false_eq_true,
                        if_false] at h
                      cases h
                      rw [hserved, if_neg Bool.false_ne_true]
              | detach =>
                  rw [hcode] at h
                  cases h
                  rw [hserved, answered]

theorem handleRequestLoop_requests {process : Process} {st : LoopState}
    {code : Int32}
    (h : env.handleRequestLoop qsort parse process = some (code, st)) :
    st.handled.map Handled.request = env.requests parse := by
  unfold Session.handleRequestLoop at h
  unfold Session.requests
  split at h
  · next hsend =>
      rw [if_pos hsend]
      exact loop_requests h
  · next hsend =>
      cases h
      rw [if_neg hsend]
      rfl

theorem answered_getLast?_iff (sendSucceeds : Nat -> Bool) (messages : Nat)
    (types : List RequestType) :
    (answered sendSucceeds messages types).getLast? =
        some RequestType.detach <->
      RequestType.detach ∈ answered sendSucceeds messages types := by
  induction types generalizing messages with
  | nil => simp [answered]
  | cons type types ih =>
      cases type with
      | detach => simp [answered]
      | startProfiling =>
          have hrest := ih messages
          cases hanswered : answered sendSucceeds messages types with
          | nil => simp [answered, hanswered]
          | cons first rest =>
              rw [hanswered] at hrest
              rw [answered, hanswered, List.getLast?_cons_cons, hrest]
              simp
      | stopProfiling =>
          have hrest := ih (messages + 1)
          rw [answered]
          split
          · cases hanswered : answered sendSucceeds (messages + 1) types with
            | nil => simp
            | cons first rest =>
                rw [hanswered] at hrest
                rw [List.getLast?_cons_cons, hrest]
                simp
          · simp

theorem detached_iff {process : Process} {st : LoopState} {code : Int32}
    (h : env.handleRequestLoop qsort parse process = some (code, st)) :
    st.detached = true <-> RequestType.detach ∈ env.requests parse := by
  unfold LoopState.detached
  rw [decide_eq_true_iff, ← List.getLast?_map, handleRequestLoop_requests h]
  unfold Session.requests
  split
  · exact answered_getLast?_iff _ _ _
  · simp

theorem events_vm (vm : VM) (n m : Nat) (types : List RequestType) :
    ({ env with vm := vm } : Session).events n m types =
      env.events n m types := by
  induction types generalizing n m with
  | nil => rfl
  | cons type types ih => cases type <;> simp [Session.events, ih]

end Ends

/-!
## One attachment
-/

section Attached

variable {qsort : Qsort maxCalltraces}
  {parse : List UInt8 -> Option RequestType} {a : AgentProcess} {r : Recorder}

theorem host_init_jvmti (h : Host) (calls : InitCalls) :
    (h.init calls).2.jvmti = calls.environment := by
  unfold Host.init
  dsimp only
  split_ifs <;> rfl

theorem events_samples_isPrefix (attachment : Attachment) :
    attachment.idle.map AgentEvent.sample <+: attachment.events parse := by
  unfold Attachment.events
  split
  · exact List.prefix_append _ _
  · exact List.prefix_refl _

theorem Profiler.Records.session (hqsort : Contract qsort)
    {attachment : Attachment} (hcalls : attachment.calls.Succeed)
    {process : Process} (h : process.profiler.Records r)
    (hsamples : Machine.AllSteps Recorder.step Recorder.Samples r
      (attachment.events parse))
    (hprocess : a.process = attachment.idle.foldl Process.sample process)
    (hsockfd : a.sockfd = attachment.calls.socket) {opened : List Int32}
    (hopened : a.opened = opened ++ [attachment.calls.socket])
    (hfresh : attachment.calls.socket ∉ opened) :
    exists code a' sent,
      a.handleRequestLoop qsort parse attachment.session =
        some (code, a', sent) ∧
      a'.process.profiler.Records
        (Machine.run Recorder.step r (attachment.events parse)) ∧
      List.Forall₂ (Reports qsort) (r.reports (attachment.events parse))
        (results sent) ∧
      a'.opened = opened ++ (attachment.leaves parse).toList := by
  have hevents : attachment.events parse = Visit.events parse
      { idle := attachment.idle
        session := { attachment.session with vm := a.host.vm } } := by
    rw [Attachment.events, if_pos hcalls]
    unfold Visit.events
    dsimp only
    rw [events_vm a.host.vm]
  rw [hevents] at hsamples ⊢
  rcases h.visit hqsort _ hsamples with
    ⟨code, st, hreturn, hrecords, hreports⟩
  dsimp only at hreturn
  rw [← hprocess] at hreturn
  have hdetached := detached_iff hreturn
  change _ <-> RequestType.detach ∈ attachment.session.requests parse
    at hdetached
  unfold AgentProcess.handleRequestLoop
  rw [hreturn, Option.map_some]
  refine ⟨code, _, st.sent, rfl, hrecords, hreports, ?_⟩
  dsimp only
  rw [if_congr hdetached rfl rfl, hopened, hsockfd, Attachment.leaves,
    if_neg (Int32.not_lt.mpr hcalls.left)]
  split
  · next hdetach =>
      rw [if_pos ⟨hcalls, hdetach⟩, List.erase_append_right _ hfresh,
        List.erase_cons_head]
      rfl
  · next hdetach =>
      rw [if_neg (fun hboth => hdetach hboth.right)]
      rfl

/-- An attachment runs a session or fails before it. -/
theorem Profiler.Records.attach (hqsort : Contract qsort)
    (h : a.process.profiler.Records r) {attachment : Attachment}
    (henv : attachment.init.environment = true)
    (hfresh : 0 ≤ attachment.calls.socket ->
      attachment.calls.socket ∉ a.opened)
    (hsamples : Machine.AllSteps Recorder.step Recorder.Samples r
      (attachment.events parse)) :
    exists code a' sent,
      (a.wait attachment).onAttach qsort parse attachment =
        some (code, a', sent) ∧
      a'.process.profiler.Records
        (Machine.run Recorder.step r (attachment.events parse)) ∧
      List.Forall₂ (Reports qsort) (r.reports (attachment.events parse))
        (results sent) ∧
      a'.opened = a.opened ++ (attachment.leaves parse).toList := by
  have hidle := h.foldl_sample
    (hsamples.of_prefix (events_samples_isPrefix attachment))
  have hjvmti := host_init_jvmti (a.wait attachment).host attachment.init
  rw [henv] at hjvmti
  unfold AgentProcess.onAttach
  dsimp only
  rw [if_pos hjvmti]
  unfold AgentProcess.init
  dsimp only
  by_cases hcalls : attachment.calls.Succeed
  · have hopen : Not (attachment.calls.socket < 0) :=
      Int32.not_lt.mpr hcalls.left
    have hnamed : Not (attachment.calls.gethostbyname = false) := by
      rw [hcalls.right.left]
      decide
    rw [if_neg hopen, if_neg hnamed, if_neg (Int32.not_lt.mpr hcalls.right.right.left),
      if_neg (Int32.not_lt.mpr hcalls.right.right.right)]
    exact h.session hqsort hcalls hsamples rfl rfl rfl (hfresh hcalls.left)
  · have hevents : attachment.events parse =
        attachment.idle.map AgentEvent.sample := if_neg hcalls
    have hquiet := reports_samples r attachment.idle
    rw [hevents, hquiet]
    have hleaves : attachment.leaves parse =
        if attachment.calls.socket < 0 then none
        else some attachment.calls.socket := by
      unfold Attachment.leaves
      rw [if_neg (fun hboth : attachment.calls.Succeed ∧ _ =>
        hcalls hboth.left)]
    rw [hleaves]
    split
    · exact ⟨-1, _, [], rfl, hidle, List.Forall₂.nil,
        (List.append_nil _).symm⟩
    · next hopen =>
        split_ifs with hnamed hconnect hdeopt
        · exact ⟨-1, _, [], rfl, hidle, List.Forall₂.nil, rfl⟩
        · exact ⟨-1, _, [], rfl, hidle, List.Forall₂.nil, rfl⟩
        · exact ⟨-1, _, [], rfl, hidle, List.Forall₂.nil, rfl⟩
        · exact absurd ⟨Int32.not_lt.mp hopen, Bool.eq_true_of_not_eq_false hnamed,
            Int32.not_lt.mp hconnect, Int32.not_lt.mp hdeopt⟩ hcalls

/-!
## All attachments
-/

theorem Profiler.Records.attachAll (hqsort : Contract qsort)
    {attachments : List Attachment} (h : a.process.profiler.Records r)
    (henv : forall attachment, attachment ∈ attachments ->
      attachment.init.environment = true)
    (hfresh : FreshSockets parse a.opened attachments)
    (hsamples : Machine.AllSteps Recorder.step Recorder.Samples r
      (attachments.flatMap (Attachment.events parse))) :
    exists a' sent, a.attachAll qsort parse attachments = some (a', sent) ∧
      a'.opened =
        a.opened ++ attachments.filterMap (Attachment.leaves parse) ∧
      List.Forall₂ (Reports qsort)
        (r.reports (attachments.flatMap (Attachment.events parse)))
        (results sent) := by
  induction attachments generalizing a r with
  | nil => exact ⟨a, [], rfl, (List.append_nil _).symm, List.Forall₂.nil⟩
  | cons attachment attachments ih =>
      rw [List.flatMap_cons] at hsamples ⊢
      rcases Machine.allSteps_append.mp hsamples with ⟨hfirst, hrest⟩
      rcases hfresh with ⟨hfree, hfresh⟩
      rcases h.attach hqsort (henv attachment List.mem_cons_self) hfree hfirst
        with ⟨code, next, sent, hreturn, hrecords, hreports, hopened⟩
      rw [← hopened] at hfresh
      rcases ih hrecords
        (fun later hmem => henv later (List.mem_cons_of_mem _ hmem)) hfresh
        hrest with ⟨a', sent', hall, hleft, hreports'⟩
      refine ⟨a', sent ++ sent', ?_, ?_, ?_⟩
      · rw [AgentProcess.attachAll, hreturn, Option.bind_some, hall]
        rfl
      · rw [hleft, hopened, List.append_assoc, List.filterMap_cons]
        cases attachment.leaves parse <;> rfl
      · rw [Recorder.reports, Machine.outputs_append, results_append]
        exact List.rel_append hreports hreports'

end Attached

/-- Over all attachments, whichever of their calls fail, an agent is one
recorder, to which an attachment that fails on the way is just an interval
without requests; and the sockets that it leaves open are those of all
attachments that got one, less those whose session a DETACH has ended. -/
theorem attachments_report (qsort : Qsort maxCalltraces)
    (hqsort : Contract qsort) (parse : List UInt8 -> Option RequestType)
    (attachments : List Attachment)
    (henv : forall attachment, attachment ∈ attachments ->
      attachment.init.environment = true)
    (hfresh : FreshSockets parse [] attachments)
    (hsamples : Machine.AllSteps Recorder.step Recorder.Samples
      Recorder.initial (attachments.flatMap (Attachment.events parse))) :
    exists a sent,
      AgentProcess.initial.attachAll qsort parse attachments =
        some (a, sent) ∧
      a.opened = attachments.filterMap (Attachment.leaves parse) ∧
      List.Forall₂ (Reports qsort)
        (Recorder.initial.reports
          (attachments.flatMap (Attachment.events parse)))
        (results sent) := by
  have hrecords : AgentProcess.initial.process.profiler.Records
      Recorder.initial := records_initial
  exact hrecords.attachAll hqsort henv hfresh hsamples

def attachmentOf (calls : ConnectCalls)
    (idle : List (Option AsgctCallTrace)) (requests : List RequestType) :
    Attachment :=
  { compiled := [], idle := idle
    init :=
      { getEnv := 0, environment := true, addCapabilities := 0
        setEventCallbacks := 0 }
    calls := calls, session := plainSession (requests.map requestFrame) }

/-- A start, a connection that is refused, a stop on a virtual machine that
redefines no class, and a session that is detached. -/
def fourAttachments : List Attachment :=
  [attachmentOf ⟨3, true, 0, true, 0⟩ [] [RequestType.startProfiling],
    attachmentOf ⟨4, true, -1, true, 0⟩ [none] [],
    attachmentOf ⟨5, true, 0, true, 99⟩ [none] [RequestType.stopProfiling],
    attachmentOf ⟨6, true, 0, true, 0⟩ [] [RequestType.detach]]

theorem attachments_report_four :
    exists a sent,
      AgentProcess.initial.attachAll mergeQsort parseRequest fourAttachments =
        some (a, sent) ∧
      a.opened = [3, 4, 5] ∧
      List.Forall₂ (Reports mergeQsort)
        [{ running := true, samples := [none, none] }] (results sent) := by
  have hevents : fourAttachments.flatMap (Attachment.events parseRequest) =
      [AgentEvent.start, AgentEvent.sample none, AgentEvent.sample none,
        AgentEvent.stop] := rfl
  have hleaves : fourAttachments.filterMap (Attachment.leaves parseRequest) =
      [3, 4, 5] := by decide
  have hattached := attachments_report mergeQsort mergeQsort_contract
    parseRequest fourAttachments (by decide)
    ⟨by decide, by decide, by decide, by decide, trivial⟩
    (by
      rw [hevents]
      exact ⟨trivial, rfl, rfl, trivial, trivial⟩)
  rw [hevents, hleaves] at hattached
  exact hattached

end Agent
end Franky

import Franky.Plugin.LifetimeRuns
import Franky.Plugin.ProfilingResult

/-!
# A profiler tab

A tab has a lifetime.  The session with the process closes as an action of it,
and each result that is shown has a lifetime nested in it.  The session, the
results and the click that closes the tab come from different threads.
-/

namespace Franky
namespace Plugin

open Foundation
open Protocol

/-!
## The tab
-/

/-- `JVMSession`, with the number of the action that closes it and the requests
it has sent. -/
structure JVMSession where
  close : Nat
  isRunning : Bool
  requests : List RequestType
deriving DecidableEq, Repr

def JVMSession.startProfiling (session : JVMSession) : JVMSession :=
  { session with
    requests := session.requests ++ [RequestType.startProfiling]
    isRunning := true }

def JVMSession.stopProfiling (session : JVMSession) : JVMSession :=
  { session with
    requests := session.requests ++ [RequestType.stopProfiling]
    isRunning := false }

structure ProfResultViewModel where
  profInfo : ProfilingInfo
  lifetime : Nat
deriving DecidableEq, Repr

/-- An event that waits in the UI queue. -/
inductive UiEvent where
  | connected
  | profilingResult (result : Response)
deriving DecidableEq, Repr

inductive HandlerException where
  | lifetime (e : LifetimeException)
  | illegalArgument (e : IllegalArgument)
deriving DecidableEq, Repr

/-- The state of `JvmTabViewModel` and its parts.  It is `subscribed` when
`initSession` has been reached, and `connected` when the buttons are shown.  The
view is subscribed to `profilingResult` until its subscriber throws. -/
structure JvmTab where
  heap : Heap
  lifetime : Nat
  session : Option JVMSession
  subscribed : Bool
  viewSubscribed : Bool
  connected : Bool
  startButton : Bool
  stopButton : Bool
  profResultViewModel : Option ProfResultViewModel
  profilerPanel : Option (FlameTree × (Int64 -> Option MethodInfo))
  pending : List UiEvent
  failures : List HandlerException

/-- `lifetime.create()` and `JvmTabViewModel`. -/
def JvmTab.init (h : Heap) (parent : Nat) : JvmTab :=
  { heap := (h.call (Call.create [parent])).heap
    lifetime := h.size
    session := none
    subscribed := false
    viewSubscribed := true
    connected := false
    startButton := true
    stopButton := false
    profResultViewModel := none
    profilerPanel := none
    pending := []
    failures := [] }

namespace JvmTab

def closed (t : JvmTab) : Bool := t.heap.isTerminated t.lifetime

/-- An exception ends a handler. -/
def fail (t : JvmTab) (h : Heap) (e : LifetimeException) : JvmTab :=
  { t with
    heap := h
    failures := t.failures ++ [HandlerException.lifetime e] }

/-!
## Handlers
-/

/-- The subscriber of `sessionObservable`. -/
def sessionArrived (t : JvmTab) (onUi : Bool) : JvmTab :=
  let session := { close := t.heap.size, isRunning := false, requests := [] }
  let t := { t with session := some session }
  let added := t.heap.call (Call.add t.lifetime)
  match added.thrown with
  | some e => t.fail added.heap e
  | none =>
      { t with
        heap := added.heap
        subscribed := true
        connected := onUi || t.connected
        pending := if onUi then t.pending
          else t.pending ++ [UiEvent.connected] }

/-- The subscribers of `isProfilingStarted`. -/
def isProfilingStarted (t : JvmTab) (it : Bool) : JvmTab :=
  { t with
    startButton := !it
    stopButton := it
    session :=
      if t.subscribed then
        t.session.map (fun session =>
          if it then session.startProfiling else session.stopProfiling)
      else t.session }

/-- `profResultViewModel?.lifetime?.terminate()`. -/
def terminateShown (t : JvmTab) : Outcome :=
  match t.profResultViewModel with
  | none => Outcome.ok t.heap
  | some shown => t.heap.call (Call.terminate shown.lifetime)

/-- The rest of the handler, when it has made the new view model. -/
def showComponent (t : JvmTab) (result : Response) : JvmTab :=
  match createComponent result with
  | Except.ok component => { t with profilerPanel := some component }
  | Except.error e =>
      { t with
        profilerPanel := none
        viewSubscribed := false
        failures := t.failures ++ [HandlerException.illegalArgument e] }

/-- The subscriber of `profilingResult`.  An exception that leaves it ends its
subscription, and no other one on the way. -/
def profilingResult (t : JvmTab) (result : Response) : JvmTab :=
  let terminated := t.terminateShown
  match terminated.thrown with
  | some e => { t.fail terminated.heap e with viewSubscribed := false }
  | none =>
      let created := terminated.heap.call (Call.create [t.lifetime])
      match created.thrown with
      | some e => { t.fail created.heap e with viewSubscribed := false }
      | none =>
          let shown :=
            { profInfo := getProfInfo result, lifetime := terminated.heap.size }
          { t with
            heap := created.heap
            profResultViewModel := some shown }.showComponent result

/-- Results of the session reach the view. -/
def listens (t : JvmTab) : Bool := t.subscribed && t.viewSubscribed

/-- One event of the UI queue; a result is lost when nobody has subscribed to
those of the session, or when the view is subscribed no more. -/
def runUi (t : JvmTab) : UiEvent -> JvmTab
  | UiEvent.connected => { t with connected := true }
  | UiEvent.profilingResult result =>
      if t.listens then t.profilingResult result else t

/-- `CloseAction`; a closed tab cannot be clicked. -/
def closeClicked (t : JvmTab) : JvmTab :=
  if t.closed then t
  else
    let terminated := t.heap.call (Call.terminate t.lifetime)
    match terminated.thrown with
    | some e => t.fail terminated.heap e
    | none => { t with heap := terminated.heap }

end JvmTab

/-!
## Events
-/

/-- What happens to a tab.  The session arrives on the UI thread or on another
one, where its subscriber runs to its end before the next event; a received
response waits in the UI queue. -/
inductive TabEvent where
  | sessionArrives (onUi : Bool)
  | startClick
  | stopClick
  | receive (result : Response)
  | dispatch
  | closeClick
deriving DecidableEq, Repr

/-- Clicks reach a button that is shown and enabled, and `sessionObservable` has
one element. -/
def JvmTab.step (t : JvmTab) : TabEvent -> JvmTab
  | TabEvent.sessionArrives onUi =>
      match t.session with
      | none => t.sessionArrived onUi
      | some _ => t
  | TabEvent.startClick =>
      if t.connected && t.startButton then t.isProfilingStarted true else t
  | TabEvent.stopClick =>
      if t.connected && t.stopButton then t.isProfilingStarted false else t
  | TabEvent.receive result =>
      { t with pending := t.pending ++ [UiEvent.profilingResult result] }
  | TabEvent.dispatch =>
      match t.pending with
      | [] => t
      | event :: pending => { t with pending := pending }.runUi event
  | TabEvent.closeClick => t.closeClicked

/-- No handler has misused a lifetime, and when the tab is closed and no event
is waiting, a session that has arrived has been closed once. -/
structure JvmTab.Tidy (t : JvmTab) : Prop where
  failures : forall e, HandlerException.lifetime e ∉ t.failures
  session : t.closed = true -> t.pending = [] -> forall session,
    t.session = some session -> t.heap.log.count session.close = 1

/-- A session that arrives, or a result that reaches the view, finds the tab
open. -/
def JvmTab.FindsOpen (t : JvmTab) : TabEvent -> Prop
  | TabEvent.sessionArrives _ => t.session = none -> t.closed = false
  | TabEvent.dispatch => forall result,
      t.pending.head? = some (UiEvent.profilingResult result) ->
        t.listens = true -> t.closed = false
  | _ => True

/-!
## Events that find the tab open
-/

variable {t t' : JvmTab} {heap : Heap} {calls : List Call}

/-- The lifetimes of a tab on which no handler has failed. -/
structure JvmTab.Owns (t : JvmTab) (calls : List Call) : Prop where
  follows : Follows calls t.heap
  lifetime : IsLifetime (births calls) t.lifetime
  session : forall session, t.session = some session ->
    t.subscribed = true ∧ IsAction (births calls) session.close t.lifetime
  shown : forall shown, t.profResultViewModel = some shown ->
    IsChild (births calls) t.lifetime shown.lifetime ∧
      (t.closed = false -> t.heap.isTerminated shown.lifetime = false)

/-- No new misuse of a lifetime. -/
def JvmTab.FailsNoMore (t t' : JvmTab) : Prop :=
  forall e, HandlerException.lifetime e ∈ t'.failures ->
    HandlerException.lifetime e ∈ t.failures

theorem JvmTab.Owns.live (h : t.Owns calls) (hopen : t.closed = false) :
    t.heap.Live t.lifetime :=
  ⟨(h.follows.objects t.lifetime).mpr h.lifetime, hopen⟩

theorem isLifetime_births_concat {call : Call} {l : Nat}
    (h : IsLifetime (births calls) l) :
    IsLifetime (births (calls ++ [call])) l := by
  rw [births_concat]
  cases call.birth with
  | none => simpa using h
  | some b => exact isLifetime_concat.mpr (Or.inl h)

theorem isAction_births_concat {call : Call} {r l : Nat}
    (h : IsAction (births calls) r l) :
    IsAction (births (calls ++ [call])) r l := by
  rw [births_concat]
  cases call.birth with
  | none => simpa using h
  | some b => exact isAction_concat.mpr (Or.inl h)

theorem isChild_births_concat {call : Call} {p c : Nat}
    (h : IsChild (births calls) p c) :
    IsChild (births (calls ++ [call])) p c := by
  rw [births_concat]
  cases call.birth with
  | none => simpa using h
  | some b => exact isChild_concat.mpr (Or.inl h)

theorem JvmTab.Owns.session_concat (h : t.Owns calls) (call : Call) :
    forall session, t.session = some session -> t.subscribed = true ∧
      IsAction (births (calls ++ [call])) session.close t.lifetime := by
  intro session hsession
  rcases h.session session hsession with ⟨hsubscribed, haction⟩
  exact ⟨hsubscribed, isAction_births_concat haction⟩

theorem sessionArrived_open (hopen : t.closed = false) (onUi : Bool) :
    t.sessionArrived onUi =
      { t with
        heap := t.heap.step (Call.add t.lifetime)
        session := some
          { close := t.heap.size, isRunning := false, requests := [] }
        subscribed := true
        connected := onUi || t.connected
        pending := if onUi then t.pending
          else t.pending ++ [UiEvent.connected] } := by
  unfold JvmTab.sessionArrived
  simp only [Heap.step, call_add_live hopen, Outcome.ok]

theorem JvmTab.Owns.sessionArrived (h : t.Owns calls)
    (hopen : t.closed = false) (onUi : Bool) :
    (t.sessionArrived onUi).Owns (calls ++ [Call.add t.lifetime]) := by
  rw [sessionArrived_open hopen]
  constructor
  · exact (h.follows.add (h.live hopen)).right
  · exact isLifetime_births_concat h.lifetime
  · intro session hsession
    cases hsession
    refine ⟨rfl, ?_⟩
    rw [births_add]
    exact isAction_concat.mpr (Or.inr ⟨h.follows.size, rfl⟩)
  · intro shown hshown
    rcases h.shown shown hshown with ⟨hchild, hlive⟩
    refine ⟨isChild_births_concat hchild, ?_⟩
    intro _
    exact (isTerminated_add hopen _).trans (hlive hopen)

theorem JvmTab.Owns.terminateShown (h : t.Owns calls)
    (hopen : t.closed = false) :
    t.terminateShown.thrown = none ∧
      ({ t with
          heap := t.terminateShown.heap
          profResultViewModel := none } : JvmTab).closed = false ∧
      exists calls', ({ t with
          heap := t.terminateShown.heap
          profResultViewModel := none } : JvmTab).Owns calls' := by
  unfold JvmTab.terminateShown
  cases hshown : t.profResultViewModel with
  | none =>
      refine ⟨rfl, hopen, calls, h.follows, h.lifetime, h.session, ?_⟩
      intro shown hnone
      cases hnone
  | some shown =>
      rcases h.shown shown hshown with ⟨hchild, hlive⟩
      have hallowed : t.heap.Allows (Call.terminate shown.lifetime) :=
        ⟨(h.follows.objects _).mpr hchild.isLifetime, hlive hopen⟩
      rcases h.follows.terminate hallowed with ⟨hthrown, hfollows⟩
      refine ⟨hthrown, ?_, calls ++ [Call.terminate shown.lifetime], hfollows,
        isLifetime_births_concat h.lifetime, ?_, ?_⟩
      · rw [Bool.eq_false_iff]
        intro hclosed
        rcases (h.follows.isTerminated_terminate hallowed t.lifetime).mp
          hclosed with hold | hnested
        · rw [JvmTab.closed, hold] at hopen
          cases hopen
        · have hlt := (h.follows.born.child _ _ hchild).left
          exact absurd (hnested.le h.follows.born) (Nat.not_le_of_lt hlt)
      · exact h.session_concat _
      · intro shown hnone
        cases hnone

theorem JvmTab.Owns.createShown (h : t.Owns calls) (hopen : t.closed = false)
    (profInfo : ProfilingInfo) :
    (t.heap.call (Call.create [t.lifetime])).thrown = none ∧
      ({ t with
          heap := (t.heap.call (Call.create [t.lifetime])).heap
          profResultViewModel := some
            { profInfo := profInfo, lifetime := t.heap.size } } : JvmTab).Owns
        (calls ++ [Call.create [t.lifetime]]) := by
  have hallowed : t.heap.Allows (Call.create [t.lifetime]) := by
    refine ⟨List.nodup_singleton _, ?_⟩
    intro p hp
    rw [List.mem_singleton.mp hp]
    exact h.live hopen
  rcases h.follows.create hallowed with ⟨hthrown, hfollows⟩
  refine ⟨hthrown, hfollows, isLifetime_births_concat h.lifetime, ?_, ?_⟩
  · exact h.session_concat _
  · intro shown hshown
    cases hshown
    constructor
    · rw [births_create]
      exact isChild_concat.mpr (Or.inr ⟨h.follows.size, [t.lifetime], rfl,
        List.mem_cons_self⟩)
    · intro _
      refine (isTerminated_create h.follows hallowed t.heap.size).trans ?_
      rw [Heap.isTerminated, get_of_none h.follows.lifetime_size]
      rfl

theorem JvmTab.Owns.showComponent (h : t.Owns calls) (result : Response) :
    (t.showComponent result).Owns calls := by
  unfold JvmTab.showComponent
  cases createComponent result with
  | ok component => exact ⟨h.follows, h.lifetime, h.session, h.shown⟩
  | error e => exact ⟨h.follows, h.lifetime, h.session, h.shown⟩

theorem failsNoMore_showComponent (t : JvmTab) (result : Response) :
    t.FailsNoMore (t.showComponent result) := by
  intro e he
  unfold JvmTab.showComponent at he
  cases hcomponent : createComponent result with
  | ok component =>
      rw [hcomponent] at he
      exact he
  | error argument =>
      rw [hcomponent] at he
      rcases List.mem_append.mp he with hold | hnew
      · exact hold
      · cases List.mem_singleton.mp hnew

theorem JvmTab.Owns.profilingResult (h : t.Owns calls)
    (hopen : t.closed = false) (result : Response) :
    (exists calls', (t.profilingResult result).Owns calls') ∧
      t.FailsNoMore (t.profilingResult result) := by
  rcases h.terminateShown hopen with ⟨hthrown, hstill, calls', hcleared⟩
  rcases hcleared.createShown hstill (getProfInfo result) with
    ⟨hcreated, howns⟩
  change (t.terminateShown.heap.call
    (Call.create [t.lifetime])).thrown = none at hcreated
  unfold JvmTab.profilingResult
  simp only [hthrown, hcreated]
  exact ⟨⟨_, howns.showComponent result⟩, failsNoMore_showComponent _ result⟩

theorem JvmTab.Owns.closeClicked (h : t.Owns calls) :
    (exists calls', t.closeClicked.Owns calls') ∧
      t.FailsNoMore t.closeClicked := by
  unfold JvmTab.closeClicked
  cases hopen : t.closed with
  | true => exact ⟨⟨calls, h⟩, fun _ he => he⟩
  | false =>
      have hallowed : t.heap.Allows (Call.terminate t.lifetime) := h.live hopen
      rcases h.follows.terminate hallowed with ⟨hthrown, hfollows⟩
      rw [if_neg Bool.false_ne_true]
      simp only [hthrown]
      refine ⟨⟨calls ++ [Call.terminate t.lifetime], hfollows,
        isLifetime_births_concat h.lifetime, ?_, ?_⟩, fun _ he => he⟩
      · exact h.session_concat _
      · intro shown hshown
        refine ⟨isChild_births_concat (h.shown shown hshown).left, ?_⟩
        intro hstill
        have hdead := (h.follows.isTerminated_terminate hallowed
          t.lifetime).mpr (Or.inr Relation.ReflTransGen.refl)
        rw [JvmTab.closed] at hstill
        exact absurd (hdead.symm.trans hstill) (by decide)

theorem JvmTab.Owns.isProfilingStarted (h : t.Owns calls) (it : Bool) :
    (t.isProfilingStarted it).Owns calls where
  follows := h.follows
  lifetime := h.lifetime
  session := by
    intro session hsession
    unfold JvmTab.isProfilingStarted at hsession
    cases hold : t.session with
    | none => simp [hold] at hsession
    | some old =>
        rcases h.session old hold with ⟨hsubscribed, haction⟩
        rw [hold, hsubscribed] at hsession
        cases hsession
        refine ⟨hsubscribed, ?_⟩
        cases it <;> exact haction
  shown := h.shown

theorem JvmTab.Owns.runUi (h : t.Owns calls) (event : UiEvent)
    (hopen : forall result, event = UiEvent.profilingResult result ->
      t.listens = true -> t.closed = false) :
    (exists calls', (t.runUi event).Owns calls') ∧
      t.FailsNoMore (t.runUi event) := by
  cases event with
  | connected =>
      exact ⟨⟨calls, h.follows, h.lifetime, h.session, h.shown⟩,
        fun _ he => he⟩
  | profilingResult result =>
      rw [JvmTab.runUi]
      split
      · next hlistens =>
          exact h.profilingResult (hopen result rfl hlistens) result
      · exact ⟨⟨calls, h⟩, fun _ he => he⟩

/-- An event that finds the tab open fails at no lifetime. -/
theorem JvmTab.Owns.step (h : t.Owns calls) {event : TabEvent}
    (hopen : t.FindsOpen event) :
    (exists calls', (t.step event).Owns calls') ∧
      t.FailsNoMore (t.step event) := by
  have hsame : (exists calls', t.Owns calls') ∧ t.FailsNoMore t :=
    ⟨⟨calls, h⟩, fun _ he => he⟩
  cases event with
  | sessionArrives onUi =>
      cases hsession : t.session with
      | some session =>
          simp only [JvmTab.step, hsession]
          exact hsame
      | none =>
          simp only [JvmTab.step, hsession]
          have hopen := hopen hsession
          refine ⟨⟨_, h.sessionArrived hopen onUi⟩, ?_⟩
          rw [sessionArrived_open hopen]
          exact fun _ he => he
  | startClick =>
      rw [JvmTab.step]
      split
      · exact ⟨⟨calls, h.isProfilingStarted true⟩, fun _ he => he⟩
      · exact hsame
  | stopClick =>
      rw [JvmTab.step]
      split
      · exact ⟨⟨calls, h.isProfilingStarted false⟩, fun _ he => he⟩
      · exact hsame
  | receive result =>
      exact ⟨⟨calls, h.follows, h.lifetime, h.session, h.shown⟩,
        fun _ he => he⟩
  | dispatch =>
      cases hpending : t.pending with
      | nil =>
          simp only [JvmTab.step, hpending]
          exact hsame
      | cons event pending =>
          simp only [JvmTab.step, hpending]
          have hpopped : ({ t with pending := pending } : JvmTab).Owns calls :=
            ⟨h.follows, h.lifetime, h.session, h.shown⟩
          apply hpopped.runUi event
          rintro result rfl
          exact hopen result (by rw [hpending, List.head?_cons])
  | closeClick => exact h.closeClicked

/-!
## Events that come too late
-/

theorem fail_mem (t : JvmTab) (h : Heap) (e : LifetimeException) :
    HandlerException.lifetime e ∈ (t.fail h e).failures :=
  List.mem_append_right _ List.mem_cons_self

theorem sessionArrived_late (hclosed : t.closed = true) (onUi : Bool) :
    exists e, HandlerException.lifetime e ∈
      (t.sessionArrived onUi).failures := by
  have hthrown : (t.heap.call (Call.add t.lifetime)).thrown =
      some LifetimeException.alreadyTerminated := by
    rw [Heap.call, Heap.plusAssign, Heap.add]
    have hdead : ({ t.heap with size := t.heap.size + 1 } : Heap).isTerminated
        t.lifetime = true := hclosed
    rw [if_pos hdead, Outcome.throws]
  unfold JvmTab.sessionArrived
  simp only [hthrown]
  exact ⟨_, fail_mem _ _ _⟩

theorem create_late (h : Follows calls heap) {l : Nat}
    (hdead : heap.isTerminated l = true) :
    (heap.call (Call.create [l])).thrown =
      some LifetimeException.alreadyTerminated := by
  have hnew := h.lifetime_size
  have hfresh : heap.alloc.isTerminated heap.size = false := by
    rw [isTerminated_alloc hnew, Heap.isTerminated, get_of_none hnew]
    rfl
  have hdead' : heap.alloc.isTerminated l = true := by
    rw [isTerminated_alloc hnew, hdead]
  rw [Heap.call, Heap.create, Heap.forEach, Heap.addNested, Heap.add]
  simp [hfresh, hdead', Outcome.throws, Outcome.andThen]

/-- A result that comes to a closed tab is not shown. -/
theorem JvmTab.Owns.profilingResult_late (h : t.Owns calls)
    (hclosed : t.closed = true) (result : Response) :
    exists e, HandlerException.lifetime e ∈
      (t.profilingResult result).failures := by
  unfold JvmTab.profilingResult
  cases hshown : t.profResultViewModel with
  | none =>
      have hthrown := create_late h.follows hclosed
      simp only [JvmTab.terminateShown, hshown, Outcome.ok, hthrown]
      exact ⟨_, fail_mem _ _ _⟩
  | some shown =>
      have hchild := (h.shown shown hshown).left
      have hdead := h.follows.orderly.nested_terminated hclosed
        (Relation.ReflTransGen.single hchild)
      have hthrown : (t.heap.call (Call.terminate shown.lifetime)).thrown =
          some LifetimeException.terminatedSeveralTimes := by
        have hsize : t.heap.size ≠ 0 := by
          rw [h.follows.size]
          exact Nat.ne_of_gt (Nat.zero_lt_of_lt h.lifetime.lt)
        rcases Nat.exists_eq_succ_of_ne_zero hsize with ⟨depth, hdepth⟩
        rw [Heap.call, hdepth, Heap.terminate, if_pos hdead, Outcome.throws]
      simp only [JvmTab.terminateShown, hshown, hthrown]
      exact ⟨_, fail_mem _ _ _⟩

theorem JvmTab.Owns.step_late (h : t.Owns calls) {event : TabEvent}
    (hlate : ¬ t.FindsOpen event) :
    exists e, HandlerException.lifetime e ∈ (t.step event).failures := by
  cases event with
  | sessionArrives onUi =>
      simp only [JvmTab.FindsOpen, Classical.not_imp, Bool.not_eq_false]
        at hlate
      rcases hlate with ⟨hsession, hclosed⟩
      simp only [JvmTab.step, hsession]
      exact sessionArrived_late hclosed onUi
  | dispatch =>
      simp only [JvmTab.FindsOpen, not_forall, Bool.not_eq_false] at hlate
      rcases hlate with ⟨result, hhead, hlistens, hclosed⟩
      rcases List.head?_eq_some_iff.mp hhead with ⟨pending, hpending⟩
      have hpopped : ({ t with pending := pending } : JvmTab).Owns calls :=
        ⟨h.follows, h.lifetime, h.session, h.shown⟩
      simp only [JvmTab.step, hpending]
      rw [JvmTab.runUi]
      have hlistens' : ({ t with pending := pending } : JvmTab).listens = true :=
        hlistens
      rw [if_pos hlistens']
      exact hpopped.profilingResult_late hclosed result
  | startClick => exact absurd trivial hlate
  | stopClick => exact absurd trivial hlate
  | receive result => exact absurd trivial hlate
  | closeClick => exact absurd trivial hlate

/-!
## Runs of a tab
-/

/-- The session is closed with the tab. -/
theorem JvmTab.Owns.tidy (h : t.Owns calls)
    (hfailures : forall e, HandlerException.lifetime e ∉ t.failures) :
    t.Tidy where
  failures := hfailures
  session := by
    intro hclosed _ session hsession
    have hcount := h.follows.shutsDown.once session.close t.lifetime
      (h.session session hsession).right
    rw [hcount]
    exact if_pos hclosed

theorem JvmTab.Owns.step_tidy_iff (h : t.Owns calls) (htidy : t.Tidy)
    (event : TabEvent) : (t.step event).Tidy <-> t.FindsOpen event := by
  constructor
  · intro hstep
    apply Classical.byContradiction
    intro hlate
    rcases h.step_late hlate with ⟨e, he⟩
    exact hstep.failures e he
  · intro hopen
    rcases h.step hopen with ⟨⟨calls', howns⟩, hmore⟩
    exact howns.tidy (fun e he => htidy.failures e (hmore e he))

theorem init_owns (h : Follows calls heap) {parent : Nat}
    (hparent : heap.Live parent) :
    (JvmTab.init heap parent).Owns (calls ++ [Call.create [parent]]) := by
  have hallowed : heap.Allows (Call.create [parent]) := by
    refine ⟨List.nodup_singleton _, ?_⟩
    intro p hp
    rw [List.mem_singleton.mp hp]
    exact hparent
  rcases h.create hallowed with ⟨_, hfollows⟩
  refine ⟨hfollows, ?_, ?_, ?_⟩
  · rw [births_create]
    exact isLifetime_concat.mpr (Or.inr ⟨h.size, [parent], rfl⟩)
  · intro session hsession
    cases hsession
  · intro shown hshown
    cases hshown

/-- A tab never misuses a lifetime, and its session is closed with it, exactly
when no session and no result comes to it after it was closed. -/
theorem tab_tidy_iff (calls : List Call)
    (hcalls : Machine.AllSteps Heap.step Heap.Allows Heap.initial calls)
    (parent : Nat)
    (hparent : (Machine.run Heap.step Heap.initial calls).Live parent)
    (events : List TabEvent) :
    Machine.AllStates JvmTab.step JvmTab.Tidy
        (JvmTab.init (Machine.run Heap.step Heap.initial calls) parent)
        events <->
      Machine.AllSteps JvmTab.step JvmTab.FindsOpen
        (JvmTab.init (Machine.run Heap.step Heap.initial calls) parent)
        events := by
  have hinit := init_owns (follows_run hcalls) hparent
  apply Machine.allStates_iff_allSteps (fun t _ => exists calls, t.Owns calls)
  · rintro t event _ ⟨calls, howns⟩ htidy
    exact howns.step_tidy_iff htidy event
  · rintro t event _ ⟨calls, howns⟩ _ hopen
    exact (howns.step hopen).left
  · exact ⟨_, hinit⟩
  · exact hinit.tidy (fun e he => by cases he)

/-- The calls that are made before a tab is opened: the lifetimes of the plugin,
of its panel and of the two parts of the panel. -/
def callsBeforeTabs : List Call :=
  [Call.create [], Call.add 1, Call.create [1], Call.create [3],
    Call.create [3]]

def noSamples : Response :=
  { id := 1, type := ResponseType.profInfo, profInfo := none }

/-- An agent's answer with a sample of no frames, which cannot be shown. -/
def framelessSample : Response :=
  { id := 1, type := ResponseType.profInfo
    profInfo := some { defaultProfilingInfo with
      samples := [{ callCount := 1, frameList := [] }] } }

/-- A session that shows one result and fails to show another one.  The third
one comes to the closed tab, and the view is not subscribed any more. -/
theorem tab_tidy_unshownResult :
    Machine.AllStates JvmTab.step JvmTab.Tidy
      (JvmTab.init (Machine.run Heap.step Heap.initial callsBeforeTabs) 5)
      [TabEvent.sessionArrives true, TabEvent.startClick,
        TabEvent.receive noSamples, TabEvent.dispatch, TabEvent.stopClick,
        TabEvent.receive framelessSample, TabEvent.dispatch,
        TabEvent.receive noSamples, TabEvent.closeClick, TabEvent.dispatch] :=
  (tab_tidy_iff callsBeforeTabs
    ⟨by decide, by decide, by decide, by decide, by decide, trivial⟩ 5
    (by decide) _).mpr
    ⟨fun _ => by decide +kernel, trivial, trivial,
      fun _ _ _ => by decide +kernel, trivial, trivial,
      fun _ _ _ => by decide +kernel, trivial, trivial,
      fun _ _ hlistens => absurd hlistens (by decide +kernel), trivial⟩

/-- A session that arrives after the tab was closed stays open, and a result
that was queued behind the click fails. -/
theorem not_tidy_closedFirst :
    ¬ Machine.AllStates JvmTab.step JvmTab.Tidy
        (JvmTab.init (Machine.run Heap.step Heap.initial callsBeforeTabs) 5)
        [TabEvent.closeClick, TabEvent.sessionArrives false] ∧
      ¬ Machine.AllStates JvmTab.step JvmTab.Tidy
        (JvmTab.init (Machine.run Heap.step Heap.initial callsBeforeTabs) 5)
        [TabEvent.sessionArrives true, TabEvent.receive noSamples,
          TabEvent.closeClick, TabEvent.dispatch] := by
  constructor
  · intro hboth
    rcases hboth with ⟨_, _, htidy⟩
    have hcount := htidy.session (by decide +kernel) (by decide +kernel)
      { close := 7, isRunning := false, requests := [] } (by decide +kernel)
    revert hcount
    decide +kernel
  · intro hboth
    rcases hboth with ⟨_, _, _, _, htidy⟩
    apply htidy.failures LifetimeException.alreadyTerminated
    decide +kernel

end Plugin
end Franky

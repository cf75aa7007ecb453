import Franky.Plugin.TabRequests

/-!
# A tab and its session

A tab gets its session once, clicks come before and after, and every result of
the session is handled when it is published.  While the tab is open it shows the
latest of them, until the first one that cannot be shown; that one ends the
subscription of the view, and from then on the tab shows nothing.
-/

namespace Franky
namespace Plugin

open Foundation
open Protocol

variable {t : JvmTab}

/-!
## Actions
-/

/-- What happens to a tab that has its session. -/
inductive TabAction where
  | startClick
  | stopClick
  | dispatch
  | closeClick
deriving DecidableEq, Repr

def TabAction.event : TabAction -> TabEvent
  | startClick => TabEvent.startClick
  | stopClick => TabEvent.stopClick
  | dispatch => TabEvent.dispatch
  | closeClick => TabEvent.closeClick

def requestsOf (t : JvmTab) : List RequestType :=
  (t.session.map JVMSession.requests).getD []

/-- A tab that has its session keeps it, and shows what it has shown. -/
structure SameSession (t t' : JvmTab) : Prop where
  session : t'.session = none <-> t.session = none
  requests : requestsOf t <+: requestsOf t'
  panel : t'.profilerPanel = t.profilerPanel
  view : t'.viewSubscribed = t.viewSubscribed
  pending : forall result, UiEvent.profilingResult result ∈ t'.pending ->
    UiEvent.profilingResult result ∈ t.pending
  heap : t.heap.Ages t'.heap
  lifetime : t'.lifetime = t.lifetime

theorem SameSession.refl (t : JvmTab) : SameSession t t :=
  ⟨Iff.rfl, List.prefix_refl _, rfl, rfl, fun _ h => h, Heap.Ages.refl _, rfl⟩

theorem sameSession_isProfilingStarted (t : JvmTab) (it : Bool) :
    SameSession t (t.isProfilingStarted it) where
  session := by
    unfold JvmTab.isProfilingStarted
    dsimp only
    split <;> simp
  requests := by
    unfold requestsOf JvmTab.isProfilingStarted
    dsimp only
    split
    · cases t.session with
      | none => exact List.prefix_refl _
      | some session =>
          cases it <;> exact List.prefix_append _ _
    · exact List.prefix_refl _
  panel := rfl
  view := rfl
  pending := fun _ h => h
  heap := Heap.Ages.refl _
  lifetime := rfl

theorem sameSession_closeClicked (t : JvmTab) :
    SameSession t t.closeClicked := by
  have hsame := JvmTab.closeClicked_sameControls t
  have hframe : t.closeClicked.profilerPanel = t.profilerPanel ∧
      t.closeClicked.viewSubscribed = t.viewSubscribed ∧
      t.heap.Ages t.closeClicked.heap ∧
        t.closeClicked.lifetime = t.lifetime := by
    unfold JvmTab.closeClicked
    dsimp only
    split
    · exact ⟨rfl, rfl, Heap.Ages.refl _, rfl⟩
    · split
      · exact ⟨rfl, rfl, Heap.Ages.call _ _, rfl⟩
      · exact ⟨rfl, rfl, Heap.Ages.call _ _, rfl⟩
  constructor
  · rw [hsame.session]
  · unfold requestsOf
    rw [hsame.session]
  · exact hframe.left
  · exact hframe.right.left
  · intro result hmem
    rw [hsame.pending] at hmem
    exact hmem
  · exact hframe.right.right.left
  · exact hframe.right.right.right

theorem sameSession_action
    (h : forall result, UiEvent.profilingResult result ∉ t.pending)
    (action : TabAction) : SameSession t (t.step action.event) := by
  cases action with
  | startClick =>
      change SameSession t
        (if t.connected && t.startButton then t.isProfilingStarted true else t)
      split
      · exact sameSession_isProfilingStarted t true
      · exact SameSession.refl t
  | stopClick =>
      change SameSession t
        (if t.connected && t.stopButton then t.isProfilingStarted false else t)
      split
      · exact sameSession_isProfilingStarted t false
      · exact SameSession.refl t
  | dispatch =>
      cases hpending : t.pending with
      | nil =>
          simp only [TabAction.event, JvmTab.step, hpending]
          exact SameSession.refl t
      | cons event pending =>
          rw [hpending] at h
          cases event with
          | connected =>
              simp only [TabAction.event, JvmTab.step, hpending]
              refine ⟨Iff.rfl, List.prefix_refl _, rfl, rfl, ?_,
                Heap.Ages.refl _, rfl⟩
              intro result hmem
              rw [hpending]
              exact List.mem_cons_of_mem _ hmem
          | profilingResult result =>
              exact absurd List.mem_cons_self (h result)
  | closeClick => exact sameSession_closeClicked t

theorem sameSession_sessionArrives (t : JvmTab) (onUi : Bool) :
    (t.step (TabEvent.sessionArrives onUi)).session ≠ none ∧
      requestsOf (t.step (TabEvent.sessionArrives onUi)) = requestsOf t ∧
      (t.step (TabEvent.sessionArrives onUi)).profilerPanel =
        t.profilerPanel ∧
      (t.step (TabEvent.sessionArrives onUi)).viewSubscribed =
        t.viewSubscribed ∧
      (forall result, UiEvent.profilingResult result ∈
          (t.step (TabEvent.sessionArrives onUi)).pending ->
        UiEvent.profilingResult result ∈ t.pending) ∧
      t.heap.Ages (t.step (TabEvent.sessionArrives onUi)).heap ∧
      (t.step (TabEvent.sessionArrives onUi)).lifetime = t.lifetime := by
  cases hsession : t.session with
  | some session =>
      have hstep : t.step (TabEvent.sessionArrives onUi) = t := by
        simp only [JvmTab.step, hsession]
      rw [hstep, hsession]
      exact ⟨Option.some_ne_none _, rfl, rfl, rfl, fun _ h => h,
        Heap.Ages.refl _, rfl⟩
  | none =>
      have hnone : requestsOf t = [] := by
        unfold requestsOf
        rw [hsession]
        rfl
      simp only [JvmTab.step, hsession, hnone]
      unfold JvmTab.sessionArrived
      dsimp only
      split
      · exact ⟨Option.some_ne_none _, rfl, rfl, rfl, fun _ h => h,
          Heap.Ages.call _ _, rfl⟩
      · refine ⟨Option.some_ne_none _, rfl, rfl, rfl, ?_, Heap.Ages.call _ _,
          rfl⟩
        intro result hmem
        cases onUi with
        | true => exact hmem
        | false =>
            rcases List.mem_append.mp hmem with hold | hnew
            · exact hold
            · cases List.mem_singleton.mp hnew

theorem open_of_ages {t' : JvmTab} (hlifetime : t.lifetime < t.heap.size)
    (hages : t.heap.Ages t'.heap) (hsame : t'.lifetime = t.lifetime)
    (hopen : t'.closed = false) : t.closed = false := by
  rw [Bool.eq_false_iff] at hopen ⊢
  intro hclosed
  apply hopen
  unfold JvmTab.closed
  rw [hsame]
  exact hages.dead t.lifetime hlifetime hclosed

theorem terminateShown_ages (t : JvmTab) :
    t.heap.Ages t.terminateShown.heap := by
  unfold JvmTab.terminateShown
  split
  · exact Heap.Ages.refl _
  · exact Heap.Ages.call _ _

theorem profilingResult_ages (t : JvmTab) (msg : Response) :
    t.heap.Ages (t.profilingResult msg).heap ∧
      (t.profilingResult msg).lifetime = t.lifetime := by
  have hterminated := terminateShown_ages t
  unfold JvmTab.profilingResult
  dsimp only
  split
  · exact ⟨hterminated, rfl⟩
  · have hcreated := hterminated.trans (Heap.Ages.call t.terminateShown.heap
      (Call.create [t.lifetime]))
    split
    · exact ⟨hcreated, rfl⟩
    · unfold JvmTab.showComponent
      split <;> exact ⟨hcreated, rfl⟩

theorem published_sameControls (t : JvmTab) (msg : Response) :
    t.SameControls (t.runUi (UiEvent.profilingResult msg)) := by
  rw [JvmTab.runUi]
  split
  · exact JvmTab.profilingResult_sameControls t msg
  · exact ⟨rfl, rfl, rfl, rfl, rfl, rfl⟩

theorem JvmTab.Owns.create_open {calls : List Call} (h : t.Owns calls)
    (hopen : t.closed = false) :
    (t.heap.call (Call.create [t.lifetime])).heap.isTerminated t.lifetime =
      false := by
  have hallowed : t.heap.Allows (Call.create [t.lifetime]) := by
    refine ⟨List.nodup_singleton _, ?_⟩
    intro p hp
    rw [List.mem_singleton.mp hp]
    exact h.live hopen
  exact (isTerminated_create h.follows hallowed _).trans hopen

/-- An open tab stays open, and shows a result if it can be shown; its view is
subscribed no more if not. -/
theorem profilingResult_open {calls : List Call} (h : t.Owns calls)
    (hopen : t.closed = false) (msg : Response) :
    (t.profilingResult msg).closed = false ∧
      (t.profilingResult msg).profilerPanel =
        (createComponent msg).toOption ∧
      (t.profilingResult msg).viewSubscribed =
        (t.viewSubscribed && canShow msg) := by
  rcases h.terminateShown hopen with ⟨hthrown, hstill, calls', hcleared⟩
  have hcreated := (hcleared.createShown hstill (getProfInfo msg)).left
  have hkept := hcleared.create_open hstill
  change (t.terminateShown.heap.call
    (Call.create [t.lifetime])).thrown = none at hcreated
  unfold JvmTab.profilingResult
  simp only [hthrown, hcreated]
  unfold JvmTab.showComponent canShow
  cases createComponent msg with
  | ok component => exact ⟨hkept, rfl, (Bool.and_true _).symm⟩
  | error e => exact ⟨hkept, rfl, (Bool.and_false _).symm⟩

theorem sessionArrives_open (hopen : t.closed = false) (onUi : Bool) :
    (t.step (TabEvent.sessionArrives onUi)).closed = false := by
  cases hsession : t.session with
  | some session =>
      simp only [JvmTab.step, hsession]
      exact hopen
  | none =>
      simp only [JvmTab.step, hsession]
      rw [sessionArrived_open hopen]
      exact (isTerminated_add hopen _).trans hopen

theorem published_open {calls : List Call} (h : t.Owns calls)
    (hopen : t.closed = false) (msg : Response) :
    (t.runUi (UiEvent.profilingResult msg)).closed = false := by
  rw [JvmTab.runUi]
  split
  · exact (profilingResult_open h hopen msg).left
  · exact hopen

/-!
## What a tab shows
-/

/-- What is shown when these results have been received. -/
def latestPanel (received : List Response) :
    Option (FlameTree × (Int64 -> Option MethodInfo)) :=
  if received.all canShow then
    received.getLast?.bind (fun msg => (createComponent msg).toOption)
  else none

theorem latestPanel_concat (received : List Response) (msg : Response) :
    latestPanel (received ++ [msg]) =
      if received.all canShow then (createComponent msg).toOption else none := by
  unfold latestPanel
  rw [List.all_append, List.all_cons, List.all_nil, Bool.and_true,
    List.getLast?_concat, Option.bind_some]
  cases hearlier : received.all canShow with
  | false => rfl
  | true =>
      rw [Bool.true_and, if_pos rfl]
      unfold canShow
      cases createComponent msg <;> rfl

/-- What is known of a tab: it has its session when its connection has emitted
it, and while it is open it shows the latest result that it has received, unless
its view has been unsubscribed. -/
structure TabSound (chan : Option Nat) (received : List Response) (t : JvmTab) :
    Prop where
  alternating : t.Alternating
  arrived : t.session ≠ none <-> chan ≠ none
  pending : forall result, UiEvent.profilingResult result ∉ t.pending
  lifetime : t.lifetime < t.heap.size
  owns : t.closed = false -> exists calls, t.Owns calls
  view : t.closed = false -> t.viewSubscribed = received.all canShow
  shown : t.closed = false -> t.profilerPanel = latestPanel received

theorem requestsOf_inTurn (h : t.Alternating) :
    InTurn false (requestsOf t) t.stopButton := by
  unfold requestsOf
  cases hsession : t.session with
  | none =>
      rw [h.awaiting hsession]
      exact InTurn.nil false
  | some session => exact (h.session session hsession).left

theorem tabSound_init {calls : List Call} {heap : Heap}
    (hcalls : Follows calls heap) {parent : Nat} (hparent : heap.Live parent) :
    TabSound none [] (JvmTab.init heap parent) where
  alternating := JvmTab.init_alternating heap parent
  arrived := iff_of_false (fun h => h rfl) (fun h => h rfl)
  pending := by
    intro result hmem
    cases hmem
  lifetime :=
    (Heap.Ages.forEach (fun h p => Heap.Ages.addNested h p heap.size)
      heap.alloc [parent]).size
  owns := fun _ => ⟨_, init_owns hcalls hparent⟩
  view := fun _ => rfl
  shown := fun _ => rfl

namespace TabSound

variable {chan : Option Nat} {received : List Response}

theorem sessionArrives (h : TabSound chan received t) (onUi : Bool) (k : Nat) :
    TabSound (some k) received (t.step (TabEvent.sessionArrives onUi)) := by
  rcases sameSession_sessionArrives t onUi with
    ⟨hsession, _, hpanel, hview, hpending, hages, hlifetime⟩
  have hopen := open_of_ages h.lifetime hages hlifetime
  have hfinds : t.closed = false ->
      t.FindsOpen (TabEvent.sessionArrives onUi) := fun hstill _ => hstill
  constructor
  · exact h.alternating.step _
  · exact iff_of_true hsession (Option.some_ne_none k)
  · exact fun result hmem => h.pending result (hpending result hmem)
  · rw [hlifetime]
    exact h.lifetime.trans_le hages.size
  · intro hstill
    rcases h.owns (hopen hstill) with ⟨calls, howns⟩
    exact (howns.step (hfinds (hopen hstill))).left
  · intro hstill
    rw [hview]
    exact h.view (hopen hstill)
  · intro hstill
    rw [hpanel]
    exact h.shown (hopen hstill)

theorem action (h : TabSound chan received t) (action : TabAction) :
    TabSound chan received (t.step action.event) := by
  have hsame := sameSession_action h.pending action
  have hopen := open_of_ages h.lifetime hsame.heap hsame.lifetime
  have hfinds : t.FindsOpen action.event := by
    cases action with
    | startClick => exact trivial
    | stopClick => exact trivial
    | closeClick => exact trivial
    | dispatch =>
        intro result hhead
        exact absurd (List.mem_of_mem_head? hhead) (h.pending result)
  constructor
  · exact h.alternating.step _
  · exact (not_congr hsame.session).trans h.arrived
  · exact fun result hmem => h.pending result (hsame.pending result hmem)
  · rw [hsame.lifetime]
    exact h.lifetime.trans_le hsame.heap.size
  · intro hstill
    rcases h.owns (hopen hstill) with ⟨calls, howns⟩
    exact (howns.step hfinds).left
  · intro hstill
    rw [hsame.view]
    exact h.view (hopen hstill)
  · intro hstill
    rw [hsame.panel]
    exact h.shown (hopen hstill)

/-- A published result replaces what is shown, while the view is subscribed. -/
theorem published (h : TabSound chan received t) (hchan : chan ≠ none)
    (hopen : t.closed = false) (msg : Response) :
    (t.runUi (UiEvent.profilingResult msg)).profilerPanel =
        (if t.viewSubscribed then (createComponent msg).toOption else none) ∧
      (t.runUi (UiEvent.profilingResult msg)).viewSubscribed =
        (t.viewSubscribed && canShow msg) := by
  rcases h.owns hopen with ⟨calls, howns⟩
  rcases Option.ne_none_iff_exists'.mp (h.arrived.mpr hchan) with
    ⟨session, hsession⟩
  have hsubscribed := (howns.session session hsession).left
  have hlistens : t.listens = t.viewSubscribed := by
    rw [JvmTab.listens, hsubscribed, Bool.true_and]
  rw [JvmTab.runUi, hlistens]
  cases hview : t.viewSubscribed with
  | true =>
      rw [if_pos rfl, if_pos rfl, ← hview]
      exact (profilingResult_open howns hopen msg).right
  | false =>
      rw [if_neg Bool.false_ne_true, if_neg Bool.false_ne_true]
      refine ⟨?_, hview⟩
      have hended := h.view hopen
      rw [hview] at hended
      rw [h.shown hopen, latestPanel, ← hended, if_neg Bool.false_ne_true]

theorem receives (h : TabSound chan received t) (hchan : chan ≠ none)
    (msg : Response) :
    TabSound chan (received ++ [msg])
      (t.runUi (UiEvent.profilingResult msg)) := by
  have hsame := published_sameControls t msg
  have hages : t.heap.Ages (t.runUi (UiEvent.profilingResult msg)).heap ∧
      (t.runUi (UiEvent.profilingResult msg)).lifetime = t.lifetime := by
    rw [JvmTab.runUi]
    split
    · exact profilingResult_ages t msg
    · exact ⟨Heap.Ages.refl _, rfl⟩
  have hopen := open_of_ages h.lifetime hages.left hages.right
  constructor
  · exact h.alternating.of_sameControls hsame
  · rw [hsame.session]
    exact h.arrived
  · rw [hsame.pending]
    exact h.pending
  · rw [hages.right]
    exact h.lifetime.trans_le hages.left.size
  · intro hstill
    rcases h.owns (hopen hstill) with ⟨calls, howns⟩
    exact (howns.runUi _ (fun _ _ _ => hopen hstill)).left
  · intro hstill
    rw [List.all_append, List.all_cons, List.all_nil, Bool.and_true,
      ← h.view (hopen hstill)]
    exact (h.published hchan (hopen hstill) msg).right
  · intro hstill
    rw [latestPanel_concat, ← h.view (hopen hstill)]
    exact (h.published hchan (hopen hstill) msg).left

end TabSound

end Plugin
end Franky

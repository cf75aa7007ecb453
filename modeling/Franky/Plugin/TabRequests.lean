import Franky.Plugin.ProfilerTab

/-!
# The requests of a tab

The two buttons of a tab take turns.  Whatever else happens to the tab, the
requests of its session begin with a start, and stops and starts follow in turn;
the stop button is enabled exactly while the last one is a start.
-/

namespace Franky
namespace Plugin

open Foundation
open Protocol

/-!
## Requests in turn
-/

/-- The requests take a profiler from one value of its flag to another, and none
of them is redundant. -/
inductive InTurn : Bool -> List RequestType -> Bool -> Prop where
  | nil (running : Bool) : InTurn running [] running
  | start {types : List RequestType} {running : Bool}
      (h : InTurn true types running) :
      InTurn false (RequestType.startProfiling :: types) running
  | stop {types : List RequestType} {running : Bool}
      (h : InTurn false types running) :
      InTurn true (RequestType.stopProfiling :: types) running

theorem InTurn.append {types types' : List RequestType} {b b' b'' : Bool}
    (h : InTurn b types b') (h' : InTurn b' types' b'') :
    InTurn b (types ++ types') b'' := by
  induction h with
  | nil => exact h'
  | start _ ih => exact InTurn.start (ih h')
  | stop _ ih => exact InTurn.stop (ih h')

theorem InTurn.concat_start {types : List RequestType} {b : Bool}
    (h : InTurn b types false) :
    InTurn b (types ++ [RequestType.startProfiling]) true :=
  h.append (InTurn.start (InTurn.nil true))

theorem InTurn.concat_stop {types : List RequestType} {b : Bool}
    (h : InTurn b types true) :
    InTurn b (types ++ [RequestType.stopProfiling]) false :=
  h.append (InTurn.stop (InTurn.nil false))

theorem InTurn.not_detach {types : List RequestType} {b b' : Bool}
    (h : InTurn b types b') : RequestType.detach ∉ types := by
  induction h with
  | nil => exact List.not_mem_nil
  | start _ ih => simpa using ih
  | stop _ ih => simpa using ih

theorem InTurn.parity {types : List RequestType} {b b' : Bool}
    (h : InTurn b types b') : (b.toNat + types.length) % 2 = b'.toNat := by
  induction h with
  | nil b => cases b <;> rfl
  | start _ ih =>
      rw [Bool.toNat_true] at ih
      rw [List.length_cons, Bool.toNat_false, ← ih]
      lia
  | stop _ ih =>
      rw [Bool.toNat_false] at ih
      rw [List.length_cons, Bool.toNat_true, ← ih]
      lia

theorem InTurn.of_append {types types' : List RequestType} {b b' : Bool}
    (h : InTurn b (types ++ types') b') : exists b'', InTurn b types b'' := by
  induction types generalizing b with
  | nil => exact ⟨b, InTurn.nil b⟩
  | cons type types ih =>
      cases h with
      | start h =>
          rcases ih h with ⟨b'', hrest⟩
          exact ⟨b'', InTurn.start hrest⟩
      | stop h =>
          rcases ih h with ⟨b'', hrest⟩
          exact ⟨b'', InTurn.stop hrest⟩

/-!
## The tab
-/

/-- Buttons are shown only to a tab that sends its requests to its session, and
they show what it has asked for. -/
structure JvmTab.Alternating (t : JvmTab) : Prop where
  buttons : t.startButton = !t.stopButton
  connected : t.connected = true -> t.subscribed = true
  pending : UiEvent.connected ∈ t.pending -> t.subscribed = true
  subscribed : t.subscribed = true -> t.session ≠ none
  awaiting : t.session = none -> t.stopButton = false
  session : forall session, t.session = some session ->
    InTurn false session.requests t.stopButton ∧
      session.isRunning = t.stopButton

namespace JvmTab

variable {t : JvmTab}

theorem init_alternating (h : Heap) (parent : Nat) :
    (JvmTab.init h parent).Alternating where
  buttons := rfl
  connected := by
    intro hconnected
    cases hconnected
  pending := by
    intro hpending
    cases hpending
  subscribed := by
    intro hsubscribed
    cases hsubscribed
  awaiting := fun _ => rfl
  session := by
    intro session hsession
    cases hsession

theorem Alternating.sessionArrived (h : t.Alternating)
    (hnone : t.session = none) (onUi : Bool) :
    (t.sessionArrived onUi).Alternating := by
  have hstop := h.awaiting hnone
  have hunsubscribed : t.subscribed = false := by
    rw [Bool.eq_false_iff]
    intro hsubscribed
    exact h.subscribed hsubscribed hnone
  have hfresh : forall session : JVMSession,
      some { close := t.heap.size, isRunning := false, requests := [] } =
        some session ->
      InTurn false session.requests t.stopButton ∧
        session.isRunning = t.stopButton := by
    intro session hsession
    cases hsession
    rw [hstop]
    exact ⟨InTurn.nil false, rfl⟩
  unfold JvmTab.sessionArrived
  dsimp only
  split
  · exact ⟨h.buttons, h.connected, h.pending,
      fun _ => Option.some_ne_none _, fun _ => hstop, hfresh⟩
  · exact ⟨h.buttons, fun _ => rfl, fun _ => rfl,
      fun _ => Option.some_ne_none _, fun _ => hstop, hfresh⟩

/-- A click on the button that is enabled. -/
theorem Alternating.isProfilingStarted (h : t.Alternating)
    (hconnected : t.connected = true) (it : Bool)
    (hstop : t.stopButton = !it) : (t.isProfilingStarted it).Alternating := by
  have hsubscribed := h.connected hconnected
  rcases Option.ne_none_iff_exists'.mp (h.subscribed hsubscribed) with
    ⟨session, hsession⟩
  rcases h.session session hsession with ⟨hturn, _⟩
  rw [hstop] at hturn
  unfold JvmTab.isProfilingStarted
  simp only [hsubscribed, hsession, if_true, Option.map_some]
  refine ⟨rfl, fun _ => rfl, fun _ => rfl, fun _ => Option.some_ne_none _,
    fun hnone => absurd hnone (Option.some_ne_none _), ?_⟩
  intro session' hsession'
  cases hsession'
  cases it with
  | true => exact ⟨hturn.concat_start, rfl⟩
  | false => exact ⟨hturn.concat_stop, rfl⟩

/-- The buttons, the session and the queue are the same. -/
structure SameControls (t t' : JvmTab) : Prop where
  startButton : t'.startButton = t.startButton
  stopButton : t'.stopButton = t.stopButton
  connected : t'.connected = t.connected
  subscribed : t'.subscribed = t.subscribed
  session : t'.session = t.session
  pending : t'.pending = t.pending

theorem Alternating.of_sameControls (h : t.Alternating) {t' : JvmTab}
    (hsame : t.SameControls t') : t'.Alternating := by
  rcases hsame with
    ⟨hstart, hstop, hconnected, hsubscribed, hsession, hpending⟩
  constructor
  · rw [hstart, hstop]
    exact h.buttons
  · rw [hconnected, hsubscribed]
    exact h.connected
  · rw [hpending, hsubscribed]
    exact h.pending
  · rw [hsubscribed, hsession]
    exact h.subscribed
  · rw [hsession, hstop]
    exact h.awaiting
  · rw [hsession, hstop]
    exact h.session

theorem profilingResult_sameControls (t : JvmTab) (result : Response) :
    t.SameControls (t.profilingResult result) := by
  unfold JvmTab.profilingResult
  dsimp only
  split
  · exact ⟨rfl, rfl, rfl, rfl, rfl, rfl⟩
  · split
    · exact ⟨rfl, rfl, rfl, rfl, rfl, rfl⟩
    · unfold JvmTab.showComponent
      split <;> exact ⟨rfl, rfl, rfl, rfl, rfl, rfl⟩

theorem closeClicked_sameControls (t : JvmTab) :
    t.SameControls t.closeClicked := by
  unfold JvmTab.closeClicked
  dsimp only
  split
  · exact ⟨rfl, rfl, rfl, rfl, rfl, rfl⟩
  · split <;> exact ⟨rfl, rfl, rfl, rfl, rfl, rfl⟩

theorem Alternating.runUi (h : t.Alternating) (event : UiEvent)
    (hpending : event = UiEvent.connected -> t.subscribed = true) :
    (t.runUi event).Alternating := by
  cases event with
  | connected =>
      exact ⟨h.buttons, fun _ => hpending rfl, h.pending, h.subscribed,
        h.awaiting, h.session⟩
  | profilingResult result =>
      rw [JvmTab.runUi]
      split
      · exact h.of_sameControls (profilingResult_sameControls t result)
      · exact h

theorem Alternating.step (h : t.Alternating) (event : TabEvent) :
    (t.step event).Alternating := by
  cases event with
  | sessionArrives onUi =>
      cases hsession : t.session with
      | none =>
          simp only [JvmTab.step, hsession]
          exact h.sessionArrived hsession onUi
      | some session =>
          simp only [JvmTab.step, hsession]
          exact h
  | startClick =>
      rw [JvmTab.step]
      split
      · next hclick =>
          rcases Bool.and_eq_true_iff.mp hclick with ⟨hconnected, hstart⟩
          apply h.isProfilingStarted hconnected true
          rw [← Bool.not_inj_iff, ← h.buttons, hstart]
          rfl
      · exact h
  | stopClick =>
      rw [JvmTab.step]
      split
      · next hclick =>
          rcases Bool.and_eq_true_iff.mp hclick with ⟨hconnected, hstop⟩
          exact h.isProfilingStarted hconnected false hstop
      · exact h
  | receive result =>
      refine ⟨h.buttons, h.connected, ?_, h.subscribed, h.awaiting, h.session⟩
      intro hmem
      rcases List.mem_append.mp hmem with hold | hnew
      · exact h.pending hold
      · cases List.mem_singleton.mp hnew
  | dispatch =>
      cases hpending : t.pending with
      | nil =>
          simp only [JvmTab.step, hpending]
          exact h
      | cons event pending =>
          simp only [JvmTab.step, hpending]
          have hpopped : ({ t with pending := pending } : JvmTab).Alternating :=
            ⟨h.buttons, h.connected, fun hmem => h.pending (by
              rw [hpending]
              exact List.mem_cons_of_mem _ hmem),
              h.subscribed, h.awaiting, h.session⟩
          apply hpopped.runUi event
          rintro rfl
          apply h.pending
          rw [hpending]
          exact List.mem_cons_self
  | closeClick => exact h.of_sameControls (closeClicked_sameControls t)

theorem run_alternating (h : Heap) (parent : Nat) (events : List TabEvent) :
    (Machine.run JvmTab.step (JvmTab.init h parent) events).Alternating :=
  Machine.run_invariant (fun _ event h => h.step event)
    (init_alternating h parent) events

end JvmTab

end Plugin
end Franky

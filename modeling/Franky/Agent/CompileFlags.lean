import Franky.Agent.CompileRegistry

/-!
# The flags of a method follow its latest compilation

The entry of a method is a record shared by all methods that one event mentions.
Later events overwrite it, and a query may leave a null entry behind, so what a
query reports is decided by the latest event that mentions the method.
-/

namespace Franky
namespace Agent

open Foundation
open Protocol

/-- The event is for the method, or lists it in a frame of an inline record. -/
def CompiledMethodEvent.Mentions (event : CompiledMethodEvent)
    (method : UInt64) : Prop :=
  method = event.method ∨ method ∈ event.inlinedMethods

instance CompiledMethodEvent.mentionsDecidable (event : CompiledMethodEvent)
    (method : UInt64) : Decidable (event.Mentions method) :=
  inferInstanceAs (Decidable (_ ∨ _))

def latestMention (loads : List CompiledMethodEvent) (method : UInt64) :
    Option CompiledMethodEvent :=
  (loads.filter (fun event => event.Mentions method)).getLast?

def loadsOf (events : List RegistryEvent) : List CompiledMethodEvent :=
  events.filterMap (fun
    | RegistryEvent.load event => some event
    | RegistryEvent.query _ => none)

/-- The entry of every method is a record of the latest event that mentions
it. -/
def VM.FollowsLatest (vm : VM) (loads : List CompiledMethodEvent) : Prop :=
  forall method,
    (vm.compilesInfo method).join.map vm.recordMethod =
      (latestMention loads method).map (fun event => some event.method)

theorem latestMention_concat (loads : List CompiledMethodEvent)
    (event : CompiledMethodEvent) (method : UInt64) :
    latestMention (loads ++ [event]) method =
      if event.Mentions method then some event
      else latestMention loads method := by
  unfold latestMention
  rw [List.filter_append]
  by_cases hmentions : event.Mentions method
  · rw [if_pos hmentions, List.filter_singleton, decide_eq_true hmentions]
    exact List.getLast?_concat
  · rw [if_neg hmentions, List.filter_singleton, decide_eq_false hmentions]
    simp

theorem latestMention_isSome {loads : List CompiledMethodEvent}
    {method : UInt64} :
    (latestMention loads method).isSome = true <->
      exists event, event ∈ loads ∧ event.Mentions method := by
  unfold latestMention
  rw [List.getLast?_isSome, ne_eq, List.filter_eq_nil_iff]
  simp

/-!
## One event
-/

theorem compiledMethodLoad_join (vm : VM) (event : CompiledMethodEvent)
    (method : UInt64) :
    ((vm.compiledMethodLoad event).compilesInfo method).join =
      if event.Mentions method then some vm.records.length
      else (vm.compilesInfo method).join := by
  apply Option.ext
  intro info
  rw [Option.join_eq_some_iff, compiledMethodLoad_entry]
  have hmentions : method ∈ event.assigned <-> event.Mentions method :=
    List.mem_cons
  rw [if_congr hmentions rfl rfl]
  split
  · rw [Option.some_inj, eq_comm]
  · rw [Option.join_eq_some_iff]

/-- The new record is for the method of the event, and the older records stay
as they were. -/
theorem recordMethod_compiledMethodLoad (vm : VM) (event : CompiledMethodEvent)
    (info : Nat) :
    (vm.compiledMethodLoad event).recordMethod info =
      if info = vm.records.length then some event.method
      else vm.recordMethod info := by
  unfold VM.recordMethod
  rw [compiledMethodLoad_records_eq]
  rcases Nat.lt_trichotomy info vm.records.length with hlt | rfl | hgt
  · rw [if_neg (Nat.ne_of_lt hlt), List.getElem?_append_left hlt]
  · rw [if_pos rfl, List.getElem?_concat_length]
    rfl
  · rw [if_neg (Nat.ne_of_gt hgt), List.getElem?_eq_none,
      List.getElem?_eq_none (Nat.le_of_lt hgt)]
    rw [List.length_append, List.length_singleton]
    exact hgt

theorem VM.FollowsLatest.load {vm : VM} {loads : List CompiledMethodEvent}
    (h : vm.FollowsLatest loads) (event : CompiledMethodEvent) :
    (vm.compiledMethodLoad event).FollowsLatest (loads ++ [event]) := by
  intro method
  rw [compiledMethodLoad_join, latestMention_concat]
  split
  · rw [Option.map_some, Option.map_some, recordMethod_compiledMethodLoad,
      if_pos rfl]
  · rw [← h method]
    apply Option.map_congr
    intro info hinfo
    have hrecord : (latestMention loads method).map
        (fun event => some event.method) = some (vm.recordMethod info) := by
      rw [← h method, hinfo]
      rfl
    rw [recordMethod_compiledMethodLoad, if_neg]
    rintro rfl
    rcases Option.map_eq_some_iff.mp hrecord with ⟨latest, _, hlatest⟩
    rw [VM.recordMethod, List.getElem?_eq_none (Nat.le_refl _)] at hlatest
    cases hlatest

theorem VM.FollowsLatest.query {vm : VM} {loads : List CompiledMethodEvent}
    (h : vm.FollowsLatest loads) (names : UInt64 -> MethodName)
    (queried : UInt64) :
    (vm.fillMethodInfo names queried).2.FollowsLatest loads := by
  intro method
  have hentry : ((vm.lookup queried).2.compilesInfo method).join =
      (vm.compilesInfo method).join := by
    apply Option.ext
    intro info
    rw [Option.join_eq_some_iff, Option.join_eq_some_iff, lookup_entry]
  have hrecord : (vm.lookup queried).2.recordMethod = vm.recordMethod :=
    funext (recordMethod_lookup vm queried)
  rw [fillMethodInfo_vm, hentry, hrecord]
  exact h method

/-!
## Every history
-/

theorem loadsOf_concat (events : List RegistryEvent) (event : RegistryEvent) :
    loadsOf (events ++ [event]) = loadsOf events ++ loadsOf [event] :=
  List.filterMap_append

theorem run_followsLatest (names : UInt64 -> MethodName)
    (events : List RegistryEvent) :
    (Machine.run (VM.step names) VM.initial events).FollowsLatest
      (loadsOf events) := by
  apply Machine.run_history
    (fun events (vm : VM) => vm.FollowsLatest (loadsOf events))
  · intro method
    rfl
  · intro before event _ h
    rw [loadsOf_concat]
    cases event with
    | load event => exact h.load event
    | query method =>
        rw [show loadsOf [RegistryEvent.query method] = [] from rfl,
          List.append_nil]
        exact h.query names method

theorem VM.FollowsLatest.fillMethodInfo {vm : VM}
    {loads : List CompiledMethodEvent} (h : vm.FollowsLatest loads)
    (names : UInt64 -> MethodName) (method : UInt64) :
    (vm.fillMethodInfo names method).1.compiled =
        (latestMention loads method).isSome ∧
      (vm.fillMethodInfo names method).1.inlined =
        (latestMention loads method).map
          (fun event => decide (event.method ≠ method)) := by
  have hmethod := h method
  unfold VM.fillMethodInfo
  dsimp only
  rw [lookup_fst]
  cases hentry : (vm.compilesInfo method).join with
  | none =>
      rw [hentry, Option.map_none, eq_comm, Option.map_eq_none_iff] at hmethod
      rw [hmethod]
      exact ⟨rfl, rfl⟩
  | some info =>
      rw [hentry, Option.map_some, eq_comm, Option.map_eq_some_iff] at hmethod
      rcases hmethod with ⟨latest, hlatest, hrecord⟩
      rw [hlatest]
      refine ⟨rfl, ?_⟩
      rw [Option.map_some, Option.map_some, recordMethod_lookup, ← hrecord]
      simp

/-- After every history, a method is reported as compiled exactly when a
compilation mentioned it, and as inlined exactly when the latest of them was for
another method. -/
theorem fillMethodInfo_followsLatest (names : UInt64 -> MethodName)
    (events : List RegistryEvent) (method : UInt64) :
    let info := ((Machine.run (VM.step names) VM.initial
      events).fillMethodInfo names method).1
    (info.compiled = true <->
      exists event, event ∈ loadsOf events ∧ event.Mentions method) ∧
    (info.inlined = some true <->
      exists latest, latestMention (loadsOf events) method = some latest ∧
        latest.method ≠ method) := by
  intro info
  rcases (run_followsLatest names events).fillMethodInfo names method with
    ⟨hcompiled, hinlined⟩
  constructor
  · rw [← latestMention_isSome, ← hcompiled]
  · rw [hinlined, Option.map_eq_some_iff]
    simp

end Agent
end Franky

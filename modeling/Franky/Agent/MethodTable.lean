import Mathlib.Data.Finset.Dedup
import Franky.Agent.Counts

/-!
# The method table as a table of method ids

A slot is empty when its method is null, and an entry is found by its method
alone.  While no null method is stored, and no more methods than there are
slots, the table tallies the methods it was given.
-/

namespace Franky
namespace Agent

open Foundation
open Foundation.LinearProbing (Probe Tallies findKey tallies_empty)

/-- The key of a method; null is the mark of an empty slot. -/
def MethodSample.key (sample : MethodSample) : Option JMethodId :=
  if sample.method = 0 then none else some sample.method

def MethodSample.count (sample : MethodSample) : Int :=
  sample.callCount.toInt

def Profiler.methodKey (p : Profiler) : Fin maxCalltraces -> Option JMethodId :=
  MethodSample.key ∘ p.methods

def Profiler.methodCount (p : Profiler) : Fin maxCalltraces -> Int :=
  MethodSample.count ∘ p.methods

/-- The bucket where the search for a method begins. -/
def methodBucket (method : JMethodId) : Fin maxCalltraces :=
  bucketOf (hashMethod method)

/-- The table has counted the given methods, in this order. -/
def Profiler.CountsMethods (p : Profiler) (methods : List JMethodId) : Prop :=
  Tallies methodBucket methods p.methodKey p.methodCount

theorem methodKey_eq_some_iff {p : Profiler} {i : Fin maxCalltraces}
    {method : JMethodId} :
    p.methodKey i = some method <->
      (p.methods i).method = method ∧ method ≠ 0 := by
  unfold Profiler.methodKey MethodSample.key
  rw [Function.comp_apply]
  split
  · rename_i hnull
    simp only [reduceCtorEq, false_iff, not_and, not_not]
    intro heq
    rw [← heq, hnull]
  · rename_i hne
    rw [Option.some_inj]
    constructor
    · intro heq
      exact ⟨heq, heq ▸ hne⟩
    · exact And.left

theorem methodKey_eq_none_iff {p : Profiler} {i : Fin maxCalltraces} :
    p.methodKey i = none <-> (p.methods i).method = 0 := by
  simp [Profiler.methodKey, MethodSample.key]

theorem probeMethod_eq (p : Profiler) {method : JMethodId}
    (hne : method ≠ 0) :
    p.probeMethod method = findKey methodBucket p.methodKey method := by
  unfold Profiler.probeMethod findKey
  congr 1
  · funext i
    rw [decide_eq_decide, methodKey_eq_some_iff]
    exact ⟨fun heq => ⟨heq, hne⟩, And.left⟩
  · funext i
    rw [Bool.eq_iff_iff, decide_eq_true_iff, Option.isNone_iff_eq_none,
      methodKey_eq_none_iff]

variable {p : Profiler} {methods : List JMethodId}

/-- Storing one of at most as many methods as there are slots. -/
theorem Profiler.CountsMethods.storeMethod (h : p.CountsMethods methods)
    (hlength : methods.length + 1 < 2 ^ 31) {known : Finset JMethodId}
    (hcard : known.card ≤ maxCalltraces) (hnull : 0 ∉ known)
    (hknown : forall m, m ∈ methods -> m ∈ known) {method : JMethodId}
    (hmem : method ∈ known) :
    (p.storeMethod method).CountsMethods (methods ++ [method]) := by
  have hne : method ≠ 0 := fun heq => hnull (heq ▸ hmem)
  have hprobe := probeMethod_eq p hne
  rcases Tallies.record h hcard hknown hmem with
    ⟨i, hi, hfind, hrecord⟩ | ⟨i, _, _, hfind, hrecord⟩
  · have hle := Tallies.counts_le h i
    have hsucc : ((p.methods i).callCount + 1).toInt = p.methodCount i + 1 :=
      MachineInt.toInt_succ (Tallies.counts_nonneg h i) (by
        change (p.methods i).callCount.toInt ≤ (methods.length : Int) at hle
        lia)
    have hkeys : MethodSample.key ∘ Function.update p.methods i
        { p.methods i with callCount := (p.methods i).callCount + 1 } =
          p.methodKey := by
      rw [Function.comp_update]
      exact Function.update_eq_self i p.methodKey
    have hcounts : MethodSample.count ∘ Function.update p.methods i
        { p.methods i with callCount := (p.methods i).callCount + 1 } =
          Function.update p.methodCount i (p.methodCount i + 1) := by
      rw [Function.comp_update, ← hsucc]
      rfl
    rw [storeMethod_hit (hprobe.trans hfind)]
    unfold Profiler.CountsMethods Profiler.methodKey Profiler.methodCount
    dsimp only
    rw [hkeys, hcounts]
    exact hrecord
  · have hkeys : MethodSample.key ∘ Function.update p.methods i
        { callCount := 1, method := method } =
          Function.update p.methodKey i (some method) := by
      rw [Function.comp_update, MethodSample.key, if_neg hne]
      rfl
    have hcounts : MethodSample.count ∘ Function.update p.methods i
        { callCount := 1, method := method } =
          Function.update p.methodCount i 1 := by
      rw [Function.comp_update]
      rfl
    rw [storeMethod_stop (hprobe.trans hfind)]
    unfold Profiler.CountsMethods Profiler.methodKey Profiler.methodCount
    dsimp only
    rw [hkeys, hcounts]
    exact hrecord

theorem storeMethod_home {method : JMethodId}
    (h : (p.methods (methodBucket method)).method = method) :
    (p.storeMethod method).methods =
      Function.update p.methods (methodBucket method)
        { callCount := (p.methods (methodBucket method)).callCount + 1
          method := method } := by
  have hprobe : p.probeMethod method = Probe.hit (methodBucket method) :=
    LinearProbing.probe_eq_hit_home (decide_eq_true h)
  rw [storeMethod_hit hprobe]
  dsimp only
  rw [h]

theorem storeMethod_home_empty {method : JMethodId} (hne : method ≠ 0)
    (h : (p.methods (methodBucket method)).method = 0) :
    (p.storeMethod method).methods =
      Function.update p.methods (methodBucket method)
        { callCount := 1, method := method } := by
  have hprobe : p.probeMethod method = Probe.stop (methodBucket method) := by
    apply LinearProbing.probe_eq_stop_home
    · exact decide_eq_false (fun hhit => hne (hhit.symm.trans h))
    · exact decide_eq_true h
  rw [storeMethod_stop hprobe]

theorem clear_countsMethods (p : Profiler) : p.clear.CountsMethods [] :=
  tallies_empty

/-- The table after `calls` calls of `storeMethod`: each method that occurred
is in exactly one slot, with the number of its occurrences, and every other slot
is vacant. -/
structure Profiler.CountsEveryMethod (p : Profiler) (calls : List JMethodId) :
    Prop where
  held : forall method, method ∈ calls ->
    ∃! i, (p.methods i).method = method
  counted : forall i, (p.methods i).method ∈ calls ->
    (p.methods i).callCount.toInt = calls.count (p.methods i).method
  vacant : forall i, (p.methods i).method ∉ calls ->
    (p.methods i).method = 0 ∧ (p.methods i).callCount = 0

theorem Profiler.CountsMethods.countsEveryMethod (h : p.CountsMethods methods)
    (hnull : 0 ∉ methods) : p.CountsEveryMethod methods where
  held := by
    intro method hmem
    have hne : method ≠ 0 := fun heq => hnull (heq ▸ hmem)
    rcases Tallies.stored h method hmem with ⟨i, hi⟩
    refine ⟨i, (methodKey_eq_some_iff.mp hi).left, ?_⟩
    intro j hj
    exact (Tallies.linked h).slot_unique
      (methodKey_eq_some_iff.mpr ⟨hj, hne⟩) hi
  counted := by
    intro i hmem
    have hne : (p.methods i).method ≠ 0 := fun heq => hnull (heq ▸ hmem)
    exact Tallies.tally h i _ (methodKey_eq_some_iff.mpr ⟨rfl, hne⟩)
  vacant := by
    intro i hmem
    have hnone : p.methodKey i = none := by
      rw [Option.eq_none_iff_forall_ne_some]
      intro method hi
      rw [(methodKey_eq_some_iff.mp hi).left] at hmem
      exact hmem (Tallies.recorded h i method hi)
    refine ⟨methodKey_eq_none_iff.mp hnone, ?_⟩
    rw [← Int32.toInt_inj]
    exact Tallies.vacant h i hnone

/-- `storeMethod` counts every method exactly, up to a table that is full. -/
theorem storeMethod_countsEveryMethod (p : Profiler) (calls : List JMethodId)
    (hlength : calls.length < 2 ^ 31) (hnull : 0 ∉ calls)
    (hdistinct : calls.toFinset.card ≤ maxCalltraces) :
    (Machine.run Profiler.storeMethod p.clear calls).CountsEveryMethod
      calls := by
  have hcounts : (Machine.run Profiler.storeMethod p.clear calls).CountsMethods
      calls := by
    apply Machine.run_history (fun ms (q : Profiler) => q.CountsMethods ms)
      (clear_countsMethods p)
    intro bs b hbegin h
    have hle := hbegin.length_le
    rw [List.length_append, List.length_singleton] at hle
    have hmem : forall m, m ∈ bs ++ [b] -> m ∈ calls.toFinset :=
      fun m hm => List.mem_toFinset.mpr (hbegin.subset hm)
    apply h.storeMethod (by lia) hdistinct
    · simpa using hnull
    · exact fun m hm => hmem m (List.mem_append_left _ hm)
    · exact hmem b (List.mem_append_right _ List.mem_cons_self)
  exact hcounts.countsEveryMethod hnull

/-- The two methods have one bucket. -/
theorem storeMethod_countsEveryMethod_collision :
    (Machine.run Profiler.storeMethod Profiler.instance.clear
      [39, 228, 39, 228]).CountsEveryMethod [39, 228, 39, 228] :=
  storeMethod_countsEveryMethod Profiler.instance [39, 228, 39, 228] (by decide)
    (by decide) (by decide)

end Agent
end Franky

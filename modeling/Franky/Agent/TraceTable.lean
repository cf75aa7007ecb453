import Mathlib.Data.Finset.Dedup
import Mathlib.Data.List.ReduceOption
import Franky.Agent.Counts

/-!
# The trace table as a table of hashes

A slot is empty when its hash is zero, and an entry is found by its hash and a
positive count.  While only non-zero hashes are stored, and no more of them than
there are slots, the two tests agree, and the table tallies the hashes of the
traces it was given.
-/

namespace Franky
namespace Agent

open Foundation
open Foundation.LinearProbing (Probe Tallies findKey tallies_empty)

/-- The key of a hash; zero is the mark of an empty slot. -/
def hashKey (hash : UInt64) : Option UInt64 :=
  if hash = 0 then none else some hash

def Profiler.traceKey (p : Profiler) : Fin maxCalltraces -> Option UInt64 :=
  hashKey ∘ p.hashes

def CallTraceSample.count (sample : CallTraceSample) : Int :=
  sample.callCount.toInt

def Profiler.traceCount (p : Profiler) : Fin maxCalltraces -> Int :=
  CallTraceSample.count ∘ p.traces

/-- The entry holds the frames of the trace. -/
structure CallTraceSample.Holds (sample : CallTraceSample)
    (trace : AsgctCallTrace) : Prop where
  numFrames : sample.numFrames = trace.numFrames
  frameList : sample.frameList = trace.frameList

/-- The table has counted the given traces, in this order. -/
structure Profiler.CountsTraces (p : Profiler) (traces : List AsgctCallTrace) :
    Prop where
  tallies : Tallies bucketOf (traces.map hashCallTrace) p.traceKey p.traceCount
  first : forall i hash, p.traceKey i = some hash ->
    exists trace,
      traces.find? (fun t => hashCallTrace t = hash) = some trace ∧
        (p.traces i).Holds trace

theorem traceKey_eq_some_iff {p : Profiler} {i : Fin maxCalltraces}
    {hash : UInt64} :
    p.traceKey i = some hash <-> p.hashes i = hash ∧ hash ≠ 0 := by
  unfold Profiler.traceKey hashKey
  rw [Function.comp_apply]
  split
  · rename_i hzero
    simp only [reduceCtorEq, false_iff, not_and, not_not]
    intro heq
    rw [← heq, hzero]
  · rename_i hne
    rw [Option.some_inj]
    constructor
    · intro heq
      exact ⟨heq, heq ▸ hne⟩
    · exact And.left

theorem traceKey_eq_none_iff {p : Profiler} {i : Fin maxCalltraces} :
    p.traceKey i = none <-> p.hashes i = 0 := by
  simp [Profiler.traceKey, hashKey]

variable {p : Profiler} {traces : List AsgctCallTrace}

theorem Profiler.CountsTraces.probeTrace_eq (h : p.CountsTraces traces)
    {hash : UInt64} (hne : hash ≠ 0) :
    p.probeTrace hash = findKey bucketOf p.traceKey hash := by
  unfold Profiler.probeTrace findKey
  congr 1
  · funext i
    rw [decide_eq_decide, traceKey_eq_some_iff]
    constructor
    · intro hhit
      exact ⟨hhit.left, hne⟩
    · intro hkey
      have hcount := (h.tallies.counts_pos_iff i).mpr (by
        rw [traceKey_eq_some_iff.mpr hkey]
        exact Option.some_ne_none hash)
      exact ⟨hkey.left, MachineInt.pos_iff.mpr hcount⟩
  · funext i
    rw [Bool.eq_iff_iff, decide_eq_true_iff, Option.isNone_iff_eq_none,
      traceKey_eq_none_iff]

theorem Profiler.CountsTraces.storeCallTrace_hit (h : p.CountsTraces traces)
    (hlength : traces.length + 1 < 2 ^ 31) {trace : AsgctCallTrace}
    {i : Fin maxCalltraces} (hi : p.traceKey i = some (hashCallTrace trace)) :
    (p.storeCallTrace trace).CountsTraces (traces ++ [trace]) := by
  have hne := (traceKey_eq_some_iff.mp hi).right
  have hprobe : p.probeTrace (hashCallTrace trace) = Probe.hit i := by
    rw [h.probeTrace_eq hne]
    exact h.tallies.linked.findKey_mem hi
  have hle := h.tallies.counts_le i
  rw [List.length_map] at hle
  have hsucc : ((p.traces i).callCount + 1).toInt = p.traceCount i + 1 :=
    MachineInt.toInt_succ (h.tallies.counts_nonneg i) (by
      change (p.traces i).callCount.toInt ≤ (traces.length : Int) at hle
      lia)
  rw [Agent.storeCallTrace_hit hprobe]
  constructor
  · have hrecord := h.tallies.record_mem hi
    rw [List.map_append, List.map_singleton]
    rw [← hsucc] at hrecord
    have hcounts := Function.comp_update CallTraceSample.count p.traces i
      { p.traces i with callCount := (p.traces i).callCount + 1 }
    unfold Profiler.traceCount
    dsimp only
    rw [hcounts]
    exact hrecord
  · intro j hash hj
    rcases h.first j hash hj with ⟨first, hfind, hholds⟩
    refine ⟨first, ?_, ?_⟩
    · rw [List.find?_append, hfind]
      rfl
    · dsimp only
      rcases eq_or_ne j i with rfl | hji
      · rw [Function.update_self]
        exact ⟨hholds.numFrames, hholds.frameList⟩
      · rw [Function.update_of_ne hji]
        exact hholds

theorem Profiler.CountsTraces.storeCallTrace_stop (h : p.CountsTraces traces)
    {trace : AsgctCallTrace} (hne : hashCallTrace trace ≠ 0)
    (hnew : forall i, p.traceKey i ≠ some (hashCallTrace trace))
    {i : Fin maxCalltraces}
    (hfind : findKey bucketOf p.traceKey (hashCallTrace trace) = Probe.stop i)
    (hrecord : Tallies bucketOf
      (traces.map hashCallTrace ++ [hashCallTrace trace])
      (Function.update p.traceKey i (some (hashCallTrace trace)))
      (Function.update p.traceCount i 1)) :
    (p.storeCallTrace trace).CountsTraces (traces ++ [trace]) := by
  have hprobe : p.probeTrace (hashCallTrace trace) = Probe.stop i := by
    rw [h.probeTrace_eq hne]
    exact hfind
  rw [Agent.storeCallTrace_stop hprobe]
  have hkeys : hashKey ∘ Function.update p.hashes i (hashCallTrace trace) =
      Function.update p.traceKey i (some (hashCallTrace trace)) := by
    rw [Function.comp_update, hashKey, if_neg hne]
    rfl
  have hcounts : CallTraceSample.count ∘
      Function.update p.traces i ((p.traces i).assign trace) =
        Function.update p.traceCount i 1 := by
    rw [Function.comp_update]
    rfl
  constructor
  · unfold Profiler.traceKey Profiler.traceCount
    dsimp only
    rw [hkeys, hcounts, List.map_append, List.map_singleton]
    exact hrecord
  · intro j hash hj
    unfold Profiler.traceKey at hj
    dsimp only at hj ⊢
    rw [hkeys] at hj
    rcases eq_or_ne j i with rfl | hji
    · rw [Function.update_self] at hj ⊢
      cases hj
      refine ⟨trace, ?_, rfl, assign_frameList _ trace⟩
      rw [List.find?_append, List.find?_eq_none.mpr]
      · simp
      · intro other hmem heq
        rcases h.tallies.stored (hashCallTrace other)
            (List.mem_map_of_mem hmem) with ⟨k, hk⟩
        rw [of_decide_eq_true heq] at hk
        exact hnew k hk
    · rw [Function.update_of_ne hji] at hj ⊢
      rcases h.first j hash hj with ⟨first, hfirst, hholds⟩
      refine ⟨first, ?_, hholds⟩
      rw [List.find?_append, hfirst]
      rfl

/-- Storing one of at most as many hashes as there are slots. -/
theorem Profiler.CountsTraces.storeCallTrace (h : p.CountsTraces traces)
    (hlength : traces.length + 1 < 2 ^ 31) {known : Finset UInt64}
    (hcard : known.card ≤ maxCalltraces) (hzero : 0 ∉ known)
    (hknown : forall t, t ∈ traces -> hashCallTrace t ∈ known)
    {trace : AsgctCallTrace} (hmem : hashCallTrace trace ∈ known) :
    (p.storeCallTrace trace).CountsTraces (traces ++ [trace]) := by
  have hhashes : forall hash, hash ∈ traces.map hashCallTrace ->
      hash ∈ known := by
    intro hash hhash
    rcases List.mem_map.mp hhash with ⟨t, ht, rfl⟩
    exact hknown t ht
  rcases h.tallies.record hcard hhashes hmem with
    ⟨i, hi, _, _⟩ | ⟨i, hnew, _, hfind, hrecord⟩
  · exact h.storeCallTrace_hit hlength hi
  · have hne : hashCallTrace trace ≠ 0 := fun heq => hzero (heq ▸ hmem)
    exact h.storeCallTrace_stop hne hnew hfind hrecord

theorem clear_countsTraces (p : Profiler) : p.clear.CountsTraces [] where
  tallies := tallies_empty
  first := by
    intro i hash hi
    cases hi

/-!
## Calls of `storeCallTrace` alone
-/

/-- The tables after `traces` calls of `storeCallTrace`: each hash that occurred
is in exactly one slot, with the number of its calls and the first trace that
had it, and every other slot is vacant. -/
structure Profiler.CountsEveryHash (p : Profiler)
    (calls : List AsgctCallTrace) : Prop where
  held : forall hash, hash ∈ calls.map hashCallTrace ->
    ∃! i, p.hashes i = hash
  counted : forall i, p.hashes i ∈ calls.map hashCallTrace ->
    (p.traces i).callCount.toInt = (calls.map hashCallTrace).count (p.hashes i)
  first : forall i, p.hashes i ∈ calls.map hashCallTrace ->
    exists trace,
      calls.find? (fun t => hashCallTrace t = p.hashes i) = some trace ∧
        (p.traces i).Holds trace
  vacant : forall i, p.hashes i ∉ calls.map hashCallTrace ->
    p.hashes i = 0 ∧ (p.traces i).callCount = 0

theorem Profiler.CountsTraces.countsEveryHash (h : p.CountsTraces traces)
    (hzero : 0 ∉ traces.map hashCallTrace) : p.CountsEveryHash traces where
  held := by
    intro hash hmem
    have hne : hash ≠ 0 := fun heq => hzero (heq ▸ hmem)
    rcases h.tallies.stored hash hmem with ⟨i, hi⟩
    refine ⟨i, (traceKey_eq_some_iff.mp hi).left, ?_⟩
    intro j hj
    exact h.tallies.linked.slot_unique
      (traceKey_eq_some_iff.mpr ⟨hj, hne⟩) hi
  counted := by
    intro i hmem
    have hne : p.hashes i ≠ 0 := fun heq => hzero (heq ▸ hmem)
    exact h.tallies.tally i _ (traceKey_eq_some_iff.mpr ⟨rfl, hne⟩)
  first := by
    intro i hmem
    have hne : p.hashes i ≠ 0 := fun heq => hzero (heq ▸ hmem)
    exact h.first i _ (traceKey_eq_some_iff.mpr ⟨rfl, hne⟩)
  vacant := by
    intro i hmem
    have hnone : p.traceKey i = none := by
      rw [Option.eq_none_iff_forall_ne_some]
      intro hash hi
      rw [(traceKey_eq_some_iff.mp hi).left] at hmem
      exact hmem (h.tallies.recorded i hash hi)
    refine ⟨traceKey_eq_none_iff.mp hnone, ?_⟩
    rw [← Int32.toInt_inj]
    exact h.tallies.vacant i hnone

/-- `storeCallTrace` counts exactly per hash, up to a table that is full. -/
theorem storeCallTrace_countsEveryHash (p : Profiler)
    (calls : List AsgctCallTrace) (hlength : calls.length < 2 ^ 31)
    (hzero : 0 ∉ calls.map hashCallTrace)
    (hdistinct : (calls.map hashCallTrace).toFinset.card ≤ maxCalltraces) :
    (Machine.run Profiler.storeCallTrace p.clear calls).CountsEveryHash
      calls := by
  have hcounts : (Machine.run Profiler.storeCallTrace p.clear
      calls).CountsTraces calls := by
    apply Machine.run_history (fun ts (q : Profiler) => q.CountsTraces ts)
      (clear_countsTraces p)
    intro bs b hbegin h
    have hle := hbegin.length_le
    rw [List.length_append, List.length_singleton] at hle
    have hmem : forall t, t ∈ bs ++ [b] ->
        hashCallTrace t ∈ (calls.map hashCallTrace).toFinset :=
      fun t ht => List.mem_toFinset.mpr
        (List.mem_map_of_mem (hbegin.subset ht))
    apply h.storeCallTrace (by lia) hdistinct
    · rwa [List.mem_toFinset]
    · exact fun t ht => hmem t (List.mem_append_left _ ht)
    · exact hmem b (List.mem_append_right _ List.mem_cons_self)
  exact hcounts.countsEveryHash hzero

def shortTraces : List AsgctCallTrace :=
  [AsgctCallTrace.ofFrames [⟨3, 16⟩] (by decide),
    AsgctCallTrace.ofFrames [⟨5, 32⟩, ⟨3, 16⟩] (by decide),
    AsgctCallTrace.ofFrames [⟨3, 16⟩] (by decide)]

theorem storeCallTrace_countsEveryHash_shortTraces :
    (Machine.run Profiler.storeCallTrace Profiler.instance.clear
      shortTraces).CountsEveryHash shortTraces :=
  storeCallTrace_countsEveryHash Profiler.instance shortTraces (by decide)
    (by decide +kernel) (by decide +kernel)

/-!
## A whole run

Samples that are not Java samples leave the table alone, so a run counts its
Java traces.
-/

theorem javaTraces_cons (outcome : Option AsgctCallTrace)
    (outcomes : List (Option AsgctCallTrace)) :
    javaTraces (outcome :: outcomes) =
      javaTraces [outcome] ++ javaTraces outcomes := by
  unfold javaTraces
  cases outcome with
  | none => simp [isJavaSample, List.reduceOption]
  | some trace =>
      by_cases hframes : 0 < trace.numFrames <;>
        simp [isJavaSample, List.reduceOption, hframes]

theorem javaTraces_other {outcome : Option AsgctCallTrace}
    (h : isJavaSample outcome = false) : javaTraces [outcome] = [] := by
  simp [javaTraces, h, List.reduceOption]

theorem javaTraces_java {trace : AsgctCallTrace} (h : 0 < trace.numFrames) :
    javaTraces [some trace] = [trace] := by
  simp [javaTraces, isJavaSample, h, List.reduceOption]

theorem mem_javaTraces {outcomes : List (Option AsgctCallTrace)}
    {trace : AsgctCallTrace} :
    trace ∈ javaTraces outcomes <->
      some trace ∈ outcomes ∧ 0 < trace.numFrames := by
  unfold javaTraces
  rw [List.reduceOption_mem_iff, List.mem_filter]
  simp [isJavaSample]

theorem length_javaTraces_le (outcomes : List (Option AsgctCallTrace)) :
    (javaTraces outcomes).length ≤ outcomes.length :=
  (List.reduceOption_length_le _).trans (List.length_filter_le _ _)

theorem Profiler.CountsTraces.recordSample (h : p.CountsTraces traces)
    (hlength : traces.length + 1 < 2 ^ 31) {known : Finset UInt64}
    (hcard : known.card ≤ maxCalltraces) (hzero : 0 ∉ known)
    (hknown : forall t, t ∈ traces -> hashCallTrace t ∈ known)
    {outcome : Option AsgctCallTrace}
    (hmem : forall t, t ∈ javaTraces [outcome] -> hashCallTrace t ∈ known) :
    (p.recordSample outcome).CountsTraces (traces ++ javaTraces [outcome]) := by
  cases hjava : isJavaSample outcome with
  | false =>
      rcases recordSample_other_tables (p := p) hjava with
        ⟨hhashes, htraces, _⟩
      rw [javaTraces_other hjava, List.append_nil]
      have hkeys : (p.recordSample outcome).traceKey = p.traceKey := by
        funext i
        simp only [Profiler.traceKey, hhashes]
      have hcounts : (p.recordSample outcome).traceCount = p.traceCount := by
        funext i
        simp only [Profiler.traceCount, htraces]
      constructor
      · rw [hkeys, hcounts]
        exact h.tallies
      · rw [hkeys, htraces]
        exact h.first
  | true =>
      cases outcome with
      | none => cases hjava
      | some trace =>
          have hframes : 0 < trace.numFrames := of_decide_eq_true hjava
          rw [javaTraces_java hframes] at hmem ⊢
          have hcounted : p.countCall.CountsTraces traces :=
            ⟨h.tallies, h.first⟩
          have hstored := hcounted.storeCallTrace hlength hcard hzero hknown
            (hmem trace List.mem_cons_self)
          rw [recordSample_java hframes, storeMethod_frame]
          exact ⟨hstored.tallies, hstored.first⟩

theorem Profiler.CountsTraces.run (h : p.CountsTraces traces)
    {known : Finset UInt64} (hcard : known.card ≤ maxCalltraces)
    (hzero : 0 ∉ known)
    (hknown : forall t, t ∈ traces -> hashCallTrace t ∈ known)
    {outcomes : List (Option AsgctCallTrace)}
    (hlength : traces.length + outcomes.length < 2 ^ 31)
    (hmem : forall t, t ∈ javaTraces outcomes -> hashCallTrace t ∈ known) :
    (Machine.run Profiler.recordSample p outcomes).CountsTraces
      (traces ++ javaTraces outcomes) := by
  induction outcomes generalizing p traces with
  | nil =>
      rw [show javaTraces [] = [] from rfl, List.append_nil]
      exact h
  | cons outcome outcomes ih =>
      rw [javaTraces_cons] at hmem ⊢
      rw [List.length_cons] at hlength
      have hhead : forall t, t ∈ javaTraces [outcome] ->
          hashCallTrace t ∈ known :=
        fun t ht => hmem t (List.mem_append_left _ ht)
      have hstep := h.recordSample (by lia) hcard hzero hknown hhead
      have hshort := length_javaTraces_le [outcome]
      rw [List.length_singleton] at hshort
      rw [Machine.run_cons, ← List.append_assoc]
      apply ih hstep
      · intro t ht
        rcases List.mem_append.mp ht with hold | hnew
        · exact hknown t hold
        · exact hhead t hnew
      · rw [List.length_append]
        lia
      · exact fun t ht => hmem t (List.mem_append_right _ ht)

end Agent
end Franky

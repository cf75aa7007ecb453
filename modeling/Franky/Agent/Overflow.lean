import Franky.Foundation.Overwriting
import Franky.Agent.Accounting
import Franky.Agent.MethodTable
import Franky.Agent.TraceTable

/-!
# Past the capacity of the tables

A run may take more stacks and methods than the tables have slots, and a stack
may have the hash that marks an empty slot.  Then entries are replaced and their
counts are lost.  What is left never counts too much, and the counts that are
missing are those of the replaced entries.
-/

namespace Franky
namespace Agent

open Foundation
open Foundation.LinearProbing (Probe Linked linked_empty)
open Foundation.Overwriting (Undercounts undercounts_empty)

def Profiler.methodIds (p : Profiler) : Fin maxCalltraces -> JMethodId :=
  MethodSample.method ∘ p.methods

/-- The trace table counts no more than the given traces, and an entry that
counts something holds one of them. -/
structure Profiler.TracesUndercount (p : Profiler)
    (given : List AsgctCallTrace) : Prop where
  counts : Undercounts (given.map hashCallTrace) p.hashes p.traceCount
  held : forall i, 0 < p.traceCount i ->
    exists trace, trace ∈ given ∧ hashCallTrace trace = p.hashes i ∧
      (p.traces i).Holds trace

/-- The method table counts no more than the given methods. -/
def Profiler.MethodsUndercount (p : Profiler) (given : List JMethodId) : Prop :=
  Undercounts given p.methodIds p.methodCount

/-- Neither table counts more than the given traces. -/
structure Profiler.Undercounts (p : Profiler) (given : List AsgctCallTrace) :
    Prop where
  traces : p.TracesUndercount given
  methods : p.MethodsUndercount (given.map AsgctCallTrace.topMethod)

/-!
## Storing
-/

section Store

variable {p : Profiler} {given : List AsgctCallTrace}

theorem Profiler.TracesUndercount.storeCallTrace
    (h : p.TracesUndercount given) (hlength : given.length + 1 < 2 ^ 31)
    (trace : AsgctCallTrace) :
    (p.storeCallTrace trace).TracesUndercount (given ++ [trace]) := by
  cases hprobe : p.probeTrace (hashCallTrace trace) with
  | hit i =>
      have hfound := of_decide_eq_true (LinearProbing.hit_of_probe_eq_hit hprobe)
      have hpos : 0 < p.traceCount i := MachineInt.pos_iff.mp hfound.right
      have hle := h.counts.counts_le i
      rw [List.length_map] at hle
      have hsucc : ((p.traces i).callCount + 1).toInt = p.traceCount i + 1 :=
        MachineInt.toInt_succ (h.counts.nonneg i) (by
          change (p.traces i).callCount.toInt ≤ (given.length : Int) at hle
          lia)
      have hrecord := h.counts.record_hit i
      rw [storeCallTrace_hit hprobe]
      constructor
      · rw [List.map_append, List.map_singleton, ← hfound.left]
        rw [← hsucc] at hrecord
        unfold Profiler.traceCount
        dsimp only
        rw [Function.comp_update CallTraceSample.count p.traces i]
        exact hrecord
      · intro j hj
        change 0 < (Function.update p.traces i _ j).count at hj
        dsimp only
        have hold : 0 < p.traceCount j := by
          rcases eq_or_ne j i with rfl | hne
          · exact hpos
          · rw [Function.update_of_ne hne] at hj
            exact hj
        rcases h.held j hold with ⟨other, hother, hhash, hholds⟩
        refine ⟨other, List.mem_append_left _ hother, hhash, ?_⟩
        rcases eq_or_ne j i with rfl | hne
        · rw [Function.update_self]
          exact ⟨hholds.numFrames, hholds.frameList⟩
        · rw [Function.update_of_ne hne]
          exact hholds
  | stop i =>
      have hrecord := h.counts.record_over i (hashCallTrace trace)
      rw [storeCallTrace_stop hprobe]
      constructor
      · rw [List.map_append, List.map_singleton]
        unfold Profiler.traceCount
        dsimp only
        rw [Function.comp_update CallTraceSample.count p.traces i]
        exact hrecord
      · intro j hj
        change 0 < (Function.update p.traces i _ j).count at hj
        dsimp only
        rcases eq_or_ne j i with rfl | hne
        · rw [Function.update_self, Function.update_self]
          exact ⟨trace, List.mem_append_right _ List.mem_cons_self, rfl, rfl,
            assign_frameList _ trace⟩
        · rw [Function.update_of_ne hne] at hj
          rw [Function.update_of_ne hne, Function.update_of_ne hne]
          rcases h.held j hj with ⟨other, hother, hholds⟩
          exact ⟨other, List.mem_append_left _ hother, hholds⟩

theorem Profiler.MethodsUndercount.storeMethod {methods : List JMethodId}
    (h : p.MethodsUndercount methods) (hlength : methods.length + 1 < 2 ^ 31)
    (method : JMethodId) :
    (p.storeMethod method).MethodsUndercount (methods ++ [method]) := by
  cases hprobe : p.probeMethod method with
  | hit i =>
      have hfound : p.methodIds i = method :=
        of_decide_eq_true (LinearProbing.hit_of_probe_eq_hit hprobe)
      have hle := Overwriting.Undercounts.counts_le h i
      have hsucc : ((p.methods i).callCount + 1).toInt = p.methodCount i + 1 :=
        MachineInt.toInt_succ (Overwriting.Undercounts.nonneg h i) (by
          change (p.methods i).callCount.toInt ≤ (methods.length : Int) at hle
          lia)
      have hrecord := Overwriting.Undercounts.record_hit h i
      have hids : MethodSample.method ∘ Function.update p.methods i
          { p.methods i with callCount := (p.methods i).callCount + 1 } =
            p.methodIds := by
        rw [Function.comp_update]
        exact Function.update_eq_self i p.methodIds
      rw [hfound, ← hsucc] at hrecord
      rw [storeMethod_hit hprobe]
      unfold Profiler.MethodsUndercount Profiler.methodIds Profiler.methodCount
      dsimp only
      rw [hids, Function.comp_update MethodSample.count p.methods i]
      exact hrecord
  | stop i =>
      have hrecord := Overwriting.Undercounts.record_over h i method
      rw [storeMethod_stop hprobe]
      unfold Profiler.MethodsUndercount Profiler.methodIds Profiler.methodCount
      dsimp only
      rw [Function.comp_update MethodSample.method p.methods i,
        Function.comp_update MethodSample.count p.methods i]
      exact hrecord

theorem Profiler.Undercounts.recordSample (h : p.Undercounts given)
    (hlength : given.length + 1 < 2 ^ 31) (outcome : Option AsgctCallTrace) :
    (p.recordSample outcome).Undercounts (given ++ javaTraces [outcome]) := by
  cases hjava : isJavaSample outcome with
  | false =>
      rcases recordSample_other_tables (p := p) hjava with
        ⟨hhashes, htraces, hmethods⟩
      rw [javaTraces_other hjava, List.append_nil]
      rcases h with ⟨⟨hcounts, hheld⟩, hmethodCounts⟩
      refine ⟨⟨?_, ?_⟩, ?_⟩
      · unfold Profiler.traceCount
        rw [hhashes, htraces]
        exact hcounts
      · unfold Profiler.traceCount
        rw [hhashes, htraces]
        exact hheld
      · unfold Profiler.MethodsUndercount Profiler.methodIds
          Profiler.methodCount
        rw [hmethods]
        exact hmethodCounts
  | true =>
      cases outcome with
      | none => cases hjava
      | some trace =>
          have hframes : 0 < trace.numFrames := of_decide_eq_true hjava
          have hcounted : p.countCall.TracesUndercount given :=
            ⟨h.traces.counts, h.traces.held⟩
          have hstored := hcounted.storeCallTrace hlength trace
          have hmethods : (p.countCall.storeCallTrace trace).MethodsUndercount
              (given.map AsgctCallTrace.topMethod) := by
            unfold Profiler.MethodsUndercount Profiler.methodIds
              Profiler.methodCount
            rw [storeCallTrace_methods]
            exact h.methods
          rw [javaTraces_java hframes, recordSample_java hframes]
          constructor
          · rw [storeMethod_frame]
            exact ⟨hstored.counts, hstored.held⟩
          · rw [List.map_append, List.map_singleton]
            apply hmethods.storeMethod
            rw [List.length_map]
            exact hlength

end Store

theorem Profiler.Undercounts.nonneg {p : Profiler}
    {given : List AsgctCallTrace} (h : p.Undercounts given)
    (i : Fin maxCalltraces) : 0 ≤ (p.traces i).callCount.toInt :=
  h.traces.counts.nonneg i

theorem clear_undercounts (p : Profiler) : p.clear.Undercounts [] where
  traces := ⟨undercounts_empty _, fun _ h => absurd h (lt_irrefl 0)⟩
  methods := undercounts_empty _

theorem javaTraces_append (before after : List (Option AsgctCallTrace)) :
    javaTraces (before ++ after) = javaTraces before ++ javaTraces after := by
  unfold javaTraces
  rw [List.filter_append, List.reduceOption_append]

theorem start_undercounts {a : Process} (hstopped : a.profiler.running = false)
    (interval : Int64) {outcomes : List (Option AsgctCallTrace)}
    (hlength : outcomes.length < 2 ^ 31) :
    (Machine.run Profiler.recordSample (a.start interval).profiler
      outcomes).Undercounts (javaTraces outcomes) := by
  rw [start_of_stopped hstopped]
  apply Machine.run_history
    (fun taken (q : Profiler) => q.Undercounts (javaTraces taken))
    (clear_undercounts _)
  intro taken outcome hbegin h
  have hshort := length_javaTraces_le taken
  have hle := hbegin.length_le
  rw [List.length_append, List.length_singleton] at hle
  rw [javaTraces_append]
  exact h.recordSample (by lia) outcome

/-!
## Entries of their own

While no sample has a null method or a hash of zero, the tables stay linked, so
no method and no hash is ever in two slots.
-/

/-- No method and no hash is in two slots. -/
structure Profiler.KeysApart (p : Profiler) : Prop where
  traces : Linked bucketOf p.traceKey
  methods : Linked methodBucket p.methodKey

section Keys

variable {p : Profiler}

theorem probeTrace_eq_findKey (hhashed : forall i, p.hashes i ≠ 0 ->
      0 < (p.traces i).callCount.toInt) {hash : UInt64} (hne : hash ≠ 0) :
    p.probeTrace hash = LinearProbing.findKey bucketOf p.traceKey hash := by
  unfold Profiler.probeTrace LinearProbing.findKey
  congr 1
  · funext i
    rw [decide_eq_decide, traceKey_eq_some_iff]
    constructor
    · intro hhit
      exact ⟨hhit.left, hne⟩
    · intro hkey
      refine ⟨hkey.left, MachineInt.pos_iff.mpr (hhashed i ?_)⟩
      rw [hkey.left]
      exact hne
  · funext i
    rw [Bool.eq_iff_iff, decide_eq_true_iff, Option.isNone_iff_eq_none,
      traceKey_eq_none_iff]

theorem storeCallTrace_linked (h : Linked bucketOf p.traceKey)
    (hhashed : forall i, p.hashes i ≠ 0 -> 0 < (p.traces i).callCount.toInt)
    {trace : AsgctCallTrace} (hne : hashCallTrace trace ≠ 0) :
    Linked bucketOf (p.storeCallTrace trace).traceKey := by
  have hprobe := probeTrace_eq_findKey hhashed hne
  rcases h.findKey_update (hashCallTrace trace) with
    ⟨i, _, hfind⟩ | ⟨i, hfind, hlinked⟩
  · rw [storeCallTrace_hit (hprobe.trans hfind)]
    exact h
  · rw [storeCallTrace_stop (hprobe.trans hfind)]
    have hkeys : hashKey ∘ Function.update p.hashes i (hashCallTrace trace) =
        Function.update p.traceKey i (some (hashCallTrace trace)) := by
      rw [Function.comp_update, hashKey, if_neg hne]
      rfl
    unfold Profiler.traceKey
    dsimp only
    rw [hkeys]
    exact hlinked

theorem storeMethod_linked (h : Linked methodBucket p.methodKey)
    {method : JMethodId} (hne : method ≠ 0) :
    Linked methodBucket (p.storeMethod method).methodKey := by
  have hprobe := probeMethod_eq p hne
  rcases h.findKey_update method with ⟨i, hi, hfind⟩ | ⟨i, hfind, hlinked⟩
  · rw [storeMethod_hit (hprobe.trans hfind)]
    have hkeys : MethodSample.key ∘ Function.update p.methods i
        { p.methods i with callCount := (p.methods i).callCount + 1 } =
          p.methodKey := by
      rw [Function.comp_update]
      exact Function.update_eq_self i p.methodKey
    unfold Profiler.methodKey
    dsimp only
    rw [hkeys]
    exact h
  · rw [storeMethod_stop (hprobe.trans hfind)]
    have hkeys : MethodSample.key ∘ Function.update p.methods i
        { callCount := 1, method := method } =
          Function.update p.methodKey i (some method) := by
      rw [Function.comp_update, MethodSample.key, if_neg hne]
      rfl
    unfold Profiler.methodKey
    dsimp only
    rw [hkeys]
    exact hlinked

/-- The sample has a method at its top and a hash that is not the mark of an
empty slot. -/
def Keyed (outcome : Option AsgctCallTrace) : Prop :=
  forall trace, trace ∈ javaTraces [outcome] ->
    hashCallTrace trace ≠ 0 ∧ trace.topMethod ≠ 0

theorem Profiler.KeysApart.recordSample (h : p.KeysApart)
    (hhashed : forall i, p.hashes i ≠ 0 -> 0 < (p.traces i).callCount.toInt)
    {outcome : Option AsgctCallTrace} (hkeyed : Keyed outcome) :
    (p.recordSample outcome).KeysApart := by
  cases hjava : isJavaSample outcome with
  | false =>
      rcases recordSample_other_tables (p := p) hjava with
        ⟨hhashes, _, hmethods⟩
      constructor
      · unfold Profiler.traceKey
        rw [hhashes]
        exact h.traces
      · unfold Profiler.methodKey
        rw [hmethods]
        exact h.methods
  | true =>
      cases outcome with
      | none => cases hjava
      | some trace =>
          have hframes : 0 < trace.numFrames := of_decide_eq_true hjava
          rcases hkeyed trace (by
            rw [javaTraces_java hframes]
            exact List.mem_cons_self) with ⟨hhash, htop⟩
          have hstored := storeCallTrace_linked (p := p.countCall) h.traces
            hhashed hhash
          rw [recordSample_java hframes]
          constructor
          · unfold Profiler.traceKey
            rw [storeMethod_hashes]
            exact hstored
          · apply storeMethod_linked _ htop
            unfold Profiler.methodKey
            rw [storeCallTrace_methods]
            exact h.methods

end Keys

theorem clear_keysApart (p : Profiler) : p.clear.KeysApart :=
  ⟨linked_empty, linked_empty⟩

theorem Profiler.KeysApart.run {p : Profiler} (h : p.KeysApart)
    {outcomes : List (Option AsgctCallTrace)} (hawaits : p.Awaits outcomes)
    (hkeyed : forall outcome, outcome ∈ outcomes -> Keyed outcome) :
    (Machine.run Profiler.recordSample p outcomes).KeysApart := by
  induction outcomes generalizing p with
  | nil => exact h
  | cons outcome outcomes ih =>
      apply ih _ hawaits.recordSample
      · exact fun o ho => hkeyed o (List.mem_cons_of_mem outcome ho)
      · exact h.recordSample hawaits.counts.traces.hashed
          (hkeyed outcome List.mem_cons_self)

theorem nonNullMethods_of_java {outcome : Option AsgctCallTrace}
    (h : forall trace, trace ∈ javaTraces [outcome] ->
      forall frame, frame ∈ trace.frameList -> frame.methodId ≠ 0) :
    NonNullMethods outcome := by
  intro trace houtcome frame hframe
  subst houtcome
  apply h trace _ frame hframe
  rw [mem_javaTraces, MachineInt.pos_iff]
  have hlength := List.length_pos_of_mem hframe
  rw [length_frameList] at hlength
  exact ⟨List.mem_cons_self, by lia⟩

theorem Profiler.MethodsNamed.run {p : Profiler} (h : p.MethodsNamed)
    {outcomes : List (Option AsgctCallTrace)} (hawaits : p.Awaits outcomes)
    (hmethods : forall outcome, outcome ∈ outcomes ->
      NonNullMethods outcome) :
    (Machine.run Profiler.recordSample p outcomes).MethodsNamed := by
  induction outcomes generalizing p with
  | nil => exact h
  | cons outcome outcomes ih =>
      apply ih _ hawaits.recordSample
      · exact fun o ho => hmethods o (List.mem_cons_of_mem outcome ho)
      · exact h.recordSample hawaits.counts hawaits.calls_bound
          (hmethods outcome List.mem_cons_self)

/-!
## What is lost
-/

/-- The count that taking a sample throws away in the trace table. -/
def Profiler.traceLost (p : Profiler) : Option AsgctCallTrace -> Int
  | none => 0
  | some trace =>
      if 0 < trace.numFrames then p.traceOverwritten (hashCallTrace trace)
      else 0

/-- The count that taking a sample throws away in the method table. -/
def Profiler.methodLost (p : Profiler) : Option AsgctCallTrace -> Int
  | none => 0
  | some trace =>
      if 0 < trace.numFrames then p.methodOverwritten trace.topMethod else 0

/-- What the samples throw away, one after the other. -/
def Profiler.lostBy (lost : Profiler -> Option AsgctCallTrace -> Int) :
    Profiler -> List (Option AsgctCallTrace) -> Int
  | _, [] => 0
  | p, outcome :: outcomes =>
      lost p outcome + Profiler.lostBy lost (p.recordSample outcome) outcomes

section Lost

variable {p : Profiler} {outcomes : List (Option AsgctCallTrace)}

theorem lostBy_nonneg {lost : Profiler -> Option AsgctCallTrace -> Int}
    (hlost : forall q outcome, q.CountsBounded -> 0 ≤ lost q outcome)
    (h : p.Awaits outcomes) : 0 ≤ Profiler.lostBy lost p outcomes := by
  induction outcomes generalizing p with
  | nil => exact le_refl 0
  | cons outcome outcomes ih =>
      exact Int.add_nonneg (hlost p outcome h.counts) (ih h.recordSample)

theorem lost_java {trace : AsgctCallTrace} (h : 0 < trace.numFrames) :
    p.traceLost (some trace) = p.traceOverwritten (hashCallTrace trace) ∧
      p.methodLost (some trace) = p.methodOverwritten trace.topMethod :=
  ⟨if_pos h, if_pos h⟩

theorem lost_other {outcome : Option AsgctCallTrace}
    (h : isJavaSample outcome = false) :
    p.traceLost outcome = 0 ∧ p.methodLost outcome = 0 := by
  cases outcome with
  | none => exact ⟨rfl, rfl⟩
  | some trace =>
      have hframes : ¬ 0 < trace.numFrames := of_decide_eq_false h
      exact ⟨if_neg hframes, if_neg hframes⟩

theorem methodOverwritten_nonneg {bound : Int} (h : p.MethodsWithin bound)
    (method : JMethodId) : 0 ≤ p.methodOverwritten method := by
  unfold Profiler.methodOverwritten
  cases p.probeMethod method with
  | hit i => exact le_refl 0
  | stop i => exact (h i).left

theorem lost_nonneg (p : Profiler) (outcome : Option AsgctCallTrace)
    (h : p.CountsBounded) :
    0 ≤ p.traceLost outcome ∧ 0 ≤ p.methodLost outcome := by
  cases hjava : isJavaSample outcome with
  | false =>
      rcases lost_other (p := p) hjava with ⟨hlost, hlost'⟩
      rw [hlost, hlost']
      exact ⟨le_refl 0, le_refl 0⟩
  | true =>
      cases outcome with
      | none => cases hjava
      | some trace =>
          rcases lost_java (p := p) (of_decide_eq_true hjava) with
            ⟨hlost, hlost'⟩
          rw [hlost, hlost']
          exact ⟨traceOverwritten_nonneg h.traces _,
            methodOverwritten_nonneg h.methods _⟩

theorem storeCallTrace_methodOverwritten (p : Profiler)
    (trace : AsgctCallTrace) (method : JMethodId) :
    (p.countCall.storeCallTrace trace).methodOverwritten method =
      p.methodOverwritten method := by
  rw [storeCallTrace_frame]
  rfl

/-- One sample: it is counted, and what it replaces is not. -/
theorem recordSample_totals (h : p.CountsBounded)
    (hbound : p.callsTotal.toInt + 1 < 2 ^ 31)
    (outcome : Option AsgctCallTrace) :
    (p.recordSample outcome).tracesTotal + p.traceLost outcome =
        p.tracesTotal + (javaTraces [outcome]).length ∧
      (p.recordSample outcome).methodsTotal + p.methodLost outcome =
        p.methodsTotal + (javaTraces [outcome]).length ∧
      (p.recordSample outcome).countersTotal + (javaTraces [outcome]).length =
        p.countersTotal + 1 := by
  cases hjava : isJavaSample outcome with
  | false =>
      rcases recordSample_other_tables (p := p) hjava with
        ⟨_, htraces, hmethods⟩
      rcases lost_other (p := p) hjava with ⟨hlost, hlost'⟩
      have hcounters := recordSample_other_countersTotal h hbound hjava
      rw [javaTraces_other hjava, hlost, hlost', hcounters]
      unfold Profiler.tracesTotal Profiler.methodsTotal
      rw [htraces, hmethods]
      simp
  | true =>
      cases outcome with
      | none => cases hjava
      | some trace =>
          have hframes : 0 < trace.numFrames := of_decide_eq_true hjava
          have hcounted : p.countCall.TracesWithin p.callsTotal.toInt :=
            ⟨h.traces.counts, h.traces.hashed⟩
          have htraces := storeCallTrace_tracesTotal hcounted hbound trace
          have hmethods := storeMethod_methodsTotal
            (storeCallTrace_methodsWithin h.methods trace) hbound
            trace.topMethod
          change _ = p.tracesTotal + 1 - p.traceOverwritten _ at htraces
          rw [storeCallTrace_methodOverwritten,
            storeCallTrace_methodsTotal] at hmethods
          change _ = p.methodsTotal + 1 - _ at hmethods
          rcases lost_java (p := p) hframes with ⟨hlost, hlost'⟩
          rw [javaTraces_java hframes, recordSample_java hframes, hlost, hlost',
            storeMethod_tracesTotal, storeMethod_countersTotal,
            storeCallTrace_countersTotal, htraces]
          refine ⟨?_, ?_, rfl⟩
          · simp
          · change (Profiler.storeMethod _ trace.topMethod).methodsTotal + _ = _
            rw [hmethods]
            simp

theorem Profiler.Awaits.totals (h : p.Awaits outcomes) :
    (Machine.run Profiler.recordSample p outcomes).tracesTotal +
        Profiler.lostBy Profiler.traceLost p outcomes =
          p.tracesTotal + (javaTraces outcomes).length ∧
      (Machine.run Profiler.recordSample p outcomes).methodsTotal +
        Profiler.lostBy Profiler.methodLost p outcomes =
          p.methodsTotal + (javaTraces outcomes).length ∧
      (Machine.run Profiler.recordSample p outcomes).countersTotal +
        (javaTraces outcomes).length = p.countersTotal + outcomes.length := by
  induction outcomes generalizing p with
  | nil => simp [Profiler.lostBy, javaTraces, List.reduceOption]
  | cons outcome outcomes ih =>
      have hone := recordSample_totals h.counts h.calls_bound outcome
      have hrest := ih h.recordSample
      rw [javaTraces_cons, List.length_append, List.length_cons,
        Machine.run_cons]
      unfold Profiler.lostBy
      push_cast
      lia

theorem Profiler.Awaits.callsTotal (h : p.Awaits outcomes) :
    (Machine.run Profiler.recordSample p outcomes).callsTotal.toInt =
      p.callsTotal.toInt + outcomes.length := by
  induction outcomes generalizing p with
  | nil => simp
  | cons outcome outcomes ih =>
      have hone := recordSample_callsTotal_toInt h.counts h.calls_bound outcome
      have hrest := ih h.recordSample
      rw [Machine.run_cons, hrest, hone, List.length_cons]
      push_cast
      lia

end Lost

/-- Where the samples of a run went. -/
structure Profiler.AccountsWithLoss (p : Profiler)
    (outcomes : List (Option AsgctCallTrace)) (lostTraces lostMethods : Int) :
    Prop where
  total : p.callsTotal.toInt = outcomes.length
  counters : p.countersTotal + (javaTraces outcomes).length = outcomes.length
  traces : p.tracesTotal + lostTraces = (javaTraces outcomes).length
  methods : p.methodsTotal + lostMethods = (javaTraces outcomes).length
  lostTraces_nonneg : 0 ≤ lostTraces
  lostMethods_nonneg : 0 ≤ lostMethods

/-- A profiler that has counted nothing. -/
structure Profiler.Blank (p : Profiler) : Prop where
  calls : p.callsTotal.toInt = 0
  counters : p.countersTotal = 0
  traces : p.tracesTotal = 0
  methods : p.methodsTotal = 0

theorem start_blank {a : Process} (hstopped : a.profiler.running = false)
    (interval : Int64) : (a.start interval).profiler.Blank := by
  rw [start_of_stopped hstopped]
  constructor <;>
    simp [Profiler.clear, Profiler.countersTotal, Profiler.tracesTotal,
      Profiler.methodsTotal, CallTraceSample.zero, MethodSample.zero]

theorem Profiler.Awaits.accountsWithLoss {p : Profiler}
    {outcomes : List (Option AsgctCallTrace)} (h : p.Awaits outcomes)
    (hblank : p.Blank) :
    (Machine.run Profiler.recordSample p outcomes).AccountsWithLoss outcomes
      (Profiler.lostBy Profiler.traceLost p outcomes)
      (Profiler.lostBy Profiler.methodLost p outcomes) := by
  rcases h.totals with ⟨htraces, hmethods, hcounters⟩
  rw [hblank.traces] at htraces
  rw [hblank.methods] at hmethods
  rw [hblank.counters] at hcounters
  constructor
  · rw [h.callsTotal, hblank.calls, zero_add]
  · simpa using hcounters
  · simpa using htraces
  · simpa using hmethods
  · exact lostBy_nonneg (fun q o hq => (lost_nonneg q o hq).left) h
  · exact lostBy_nonneg (fun q o hq => (lost_nonneg q o hq).right) h

/-- Every sample of a run is in a counter, in the tables or in an entry that was
replaced. -/
theorem start_accountsWithLoss (a : Process) (interval : Int64)
    (hstopped : a.profiler.running = false)
    (outcomes : List (Option AsgctCallTrace))
    (hlength : outcomes.length < 2 ^ 31) :
    (Machine.run Profiler.recordSample (a.start interval).profiler
      outcomes).AccountsWithLoss outcomes
        (Profiler.lostBy Profiler.traceLost (a.start interval).profiler
          outcomes)
        (Profiler.lostBy Profiler.methodLost (a.start interval).profiler
          outcomes) :=
  (start_awaits hstopped interval hlength).accountsWithLoss
    (start_blank hstopped interval)

/-- The second sample takes the slot of the first one. -/
theorem start_accountsWithLoss_zeroHashTrace :
    (Machine.run Profiler.recordSample
      (Process.initial.start defaultInterval).profiler
      [some zeroHashTrace, some firstBucketTrace]).AccountsWithLoss
        [some zeroHashTrace, some firstBucketTrace] 1 0 := by
  have h := start_accountsWithLoss Process.initial defaultInterval rfl
    [some zeroHashTrace, some firstBucketTrace] (by decide)
  have hlost : Profiler.lostBy Profiler.traceLost
      (Process.initial.start defaultInterval).profiler
      [some zeroHashTrace, some firstBucketTrace] = 1 := by decide
  have hlost' : Profiler.lostBy Profiler.methodLost
      (Process.initial.start defaultInterval).profiler
      [some zeroHashTrace, some firstBucketTrace] = 0 := by decide
  rw [hlost, hlost'] at h
  exact h

end Agent
end Franky

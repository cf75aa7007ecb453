import Franky.Foundation.Machine
import Franky.Agent.TraceHash

/-!
# Traces that are counted together

An entry is found by its hash alone.  A record of the traces that each entry has
counted, kept beside the tables, says which traces the profiler does not tell
apart.
-/

namespace Franky
namespace Agent

open Foundation
open Foundation.LinearProbing (Probe)

/-- The tables, and for each slot the traces that its entry has counted. -/
structure TraceRecord where
  profiler : Profiler
  counted : Fin maxCalltraces -> List AsgctCallTrace

/-- The tables when a start has cleared them. -/
def TraceRecord.cleared (p : Profiler) : TraceRecord :=
  { profiler := p.clear, counted := fun _ => [] }

/-- The traces an entry has counted: one more when the trace is found, and this
one alone when it takes the slot. -/
def TraceRecord.step (s : TraceRecord) (trace : AsgctCallTrace) :
    TraceRecord :=
  { profiler := s.profiler.storeCallTrace trace
    counted :=
      match s.profiler.probeTrace (hashCallTrace trace) with
      | Probe.hit i => Function.update s.counted i (s.counted i ++ [trace])
      | Probe.stop i => Function.update s.counted i [trace] }

/-- One entry has counted both traces. -/
def TraceRecord.Merges (s : TraceRecord) (t t' : AsgctCallTrace) : Prop :=
  exists i, t ∈ s.counted i ∧ t' ∈ s.counted i

/-- The record says how many traces an entry has counted, and all of them have
its hash. -/
structure TraceRecord.Records (s : TraceRecord) : Prop where
  counts : forall i, (s.profiler.traces i).callCount =
    Int32.ofNat (s.counted i).length
  hashes : forall i t, t ∈ s.counted i -> hashCallTrace t = s.profiler.hashes i

theorem step_hit {s : TraceRecord} {trace : AsgctCallTrace}
    {i : Fin maxCalltraces}
    (h : s.profiler.probeTrace (hashCallTrace trace) = Probe.hit i) :
    s.step trace =
      { profiler := s.profiler.storeCallTrace trace
        counted := Function.update s.counted i (s.counted i ++ [trace]) } := by
  simp only [TraceRecord.step, h]

theorem step_stop {s : TraceRecord} {trace : AsgctCallTrace}
    {i : Fin maxCalltraces}
    (h : s.profiler.probeTrace (hashCallTrace trace) = Probe.stop i) :
    s.step trace =
      { profiler := s.profiler.storeCallTrace trace
        counted := Function.update s.counted i [trace] } := by
  simp only [TraceRecord.step, h]

theorem run_profiler (s : TraceRecord) (calls : List AsgctCallTrace) :
    (Machine.run TraceRecord.step s calls).profiler =
      Machine.run Profiler.storeCallTrace s.profiler calls := by
  induction calls generalizing s with
  | nil => rfl
  | cons trace calls ih => exact ih (s.step trace)

theorem cleared_records (p : Profiler) : (TraceRecord.cleared p).Records where
  counts := fun _ => rfl
  hashes := fun _ _ h => nomatch h

theorem TraceRecord.Records.step {s : TraceRecord} (h : s.Records)
    (trace : AsgctCallTrace) : (s.step trace).Records := by
  cases hprobe : s.profiler.probeTrace (hashCallTrace trace) with
  | hit i =>
      have hfound := of_decide_eq_true (LinearProbing.hit_of_probe_eq_hit hprobe)
      rw [step_hit hprobe, storeCallTrace_hit hprobe]
      constructor
      · intro j
        dsimp only
        rcases eq_or_ne j i with rfl | hne
        · rw [Function.update_self, Function.update_self, List.length_append,
            List.length_singleton]
          dsimp only
          rw [h.counts j]
          exact (Int32.ofNat_add _ 1).symm
        · rw [Function.update_of_ne hne, Function.update_of_ne hne]
          exact h.counts j
      · intro j t ht
        dsimp only at ht ⊢
        rcases eq_or_ne j i with rfl | hne
        · rw [Function.update_self] at ht
          rcases List.mem_append.mp ht with hold | hnew
          · exact h.hashes j t hold
          · rw [List.mem_singleton.mp hnew]
            exact hfound.left.symm
        · rw [Function.update_of_ne hne] at ht
          exact h.hashes j t ht
  | stop i =>
      rw [step_stop hprobe, storeCallTrace_stop hprobe]
      constructor
      · intro j
        dsimp only
        rcases eq_or_ne j i with rfl | hne
        · rw [Function.update_self, Function.update_self]
          rfl
        · rw [Function.update_of_ne hne, Function.update_of_ne hne]
          exact h.counts j
      · intro j t ht
        dsimp only at ht ⊢
        rcases eq_or_ne j i with rfl | hne
        · rw [Function.update_self] at ht ⊢
          rw [List.mem_singleton.mp ht]
        · rw [Function.update_of_ne hne] at ht ⊢
          exact h.hashes j t ht

theorem run_records (p : Profiler) (calls : List AsgctCallTrace) :
    (Machine.run TraceRecord.step (TraceRecord.cleared p) calls).Records :=
  Machine.run_invariant (fun _ trace h => h.step trace) (cleared_records p)
    calls

theorem TraceRecord.Records.hash_eq {s : TraceRecord} (h : s.Records)
    {t t' : AsgctCallTrace} (hmerges : s.Merges t t') :
    hashCallTrace t = hashCallTrace t' := by
  rcases hmerges with ⟨i, ht, ht'⟩
  rw [h.hashes i t ht, h.hashes i t' ht']

/-- Two traces of one hash are counted together when nothing else is stored. -/
theorem merges_of_hash_eq (p : Profiler) {t t' : AsgctCallTrace}
    (h : hashCallTrace t = hashCallTrace t') :
    (Machine.run TraceRecord.step (TraceRecord.cleared p) [t, t']).Merges t
      t' := by
  let home := bucketOf (hashCallTrace t)
  have hfirst : p.clear.probeTrace (hashCallTrace t) = Probe.stop home :=
    LinearProbing.probe_eq_stop_home (decide_eq_false (fun hhit => by
      cases hhit.right)) (decide_eq_true rfl)
  have hsecond : (p.clear.storeCallTrace t).probeTrace (hashCallTrace t') =
      Probe.hit home := by
    rw [← h, storeCallTrace_stop hfirst]
    apply LinearProbing.probe_eq_hit_home
    apply decide_eq_true
    dsimp only
    rw [Function.update_self, Function.update_self]
    exact ⟨rfl, show (0 : Int32) < 1 by decide⟩
  have hstep : (TraceRecord.cleared p).step t =
      { profiler := p.clear.storeCallTrace t
        counted := Function.update (fun _ => []) home [t] } :=
    step_stop hfirst
  rw [Machine.run_cons, Machine.run_cons, Machine.run_nil, hstep,
    step_hit hsecond]
  refine ⟨home, ?_, ?_⟩ <;>
    · dsimp only
      rw [Function.update_self, Function.update_self]
      simp

/-!
## Traces that differ in one frame
-/

theorem key_eq_iff (frame frame' : AsgctCallFrame) :
    frame.key = frame'.key <->
      frame.methodId ^^^ frame'.methodId =
        (bciWord frame.bci ^^^ bciWord frame'.bci) <<< 32 := by
  unfold AsgctCallFrame.key
  rw [Mixing.xor_eq_xor_iff, UInt64.shiftLeft_xor]

/-- Two traces that agree but for one frame are counted together in no reachable
state exactly when the method ids and the byte code indices of that frame do not
differ by the same bits. -/
theorem never_merged_iff (t t' : AsgctCallTrace) (i : Fin maxFrames)
    (h : AgreeButAt t t' i) :
    (forall p calls,
      ¬ (Machine.run TraceRecord.step (TraceRecord.cleared p) calls).Merges t
        t') <->
    (t.frames i).methodId ^^^ (t'.frames i).methodId ≠
      (bciWord (t.frames i).bci ^^^ bciWord (t'.frames i).bci) <<< 32 := by
  rw [ne_eq, ← key_eq_iff, ← h.hash_eq_iff]
  constructor
  · intro hnever hhash
    exact hnever Profiler.instance [t, t'] (merges_of_hash_eq _ hhash)
  · intro hhash p calls hmerges
    exact hhash ((run_records p calls).hash_eq hmerges)

def traceUnder (bci : Int32) (method : JMethodId) : AsgctCallTrace :=
  AsgctCallTrace.ofFrames [⟨bci, method⟩, ⟨3, 0x7f3a079c28e0⟩]
    (show 2 ≤ maxFrames by decide)

theorem agreeButAt_traceUnder (bci bci' : Int32) (method method' : JMethodId) :
    AgreeButAt (traceUnder bci method) (traceUnder bci' method') 0 where
  numFrames := rfl
  lt := show (0 : Int) < 2 by decide
  frames := by
    intro j hne _
    obtain ⟨k, hk⟩ : exists k, j.val = k + 1 :=
      Nat.exists_eq_succ_of_ne_zero (fun hzero => hne (Fin.ext hzero))
    simp [traceUnder, AsgctCallTrace.ofFrames, hk]

theorem never_merged_otherBci :
    (traceUnder 17 0x7f3a508e9f58).frames 0 ≠
        (traceUnder 42 0x7f3a508e9f58).frames 0 ∧
      forall p calls,
        ¬ (Machine.run TraceRecord.step (TraceRecord.cleared p) calls).Merges
          (traceUnder 17 0x7f3a508e9f58) (traceUnder 42 0x7f3a508e9f58) :=
  ⟨by decide,
    (never_merged_iff _ _ 0 (agreeButAt_traceUnder _ _ _ _)).mpr
      (by decide +kernel)⟩

/-- The upper half of a method id of 48 bits makes up for the byte code
index. -/
theorem merged_overlap :
    exists t t' i, AgreeButAt t t' i ∧ t.frames i ≠ t'.frames i ∧
      (0 ≤ (t.frames i).bci ∧ (t.frames i).bci ≤ 65535) ∧
      (0 ≤ (t'.frames i).bci ∧ (t'.frames i).bci ≤ 65535) ∧
      (t.frames i).methodId < 0x1000000000000 ∧
      (t'.frames i).methodId < 0x1000000000000 ∧
      exists calls, (Machine.run TraceRecord.step
        (TraceRecord.cleared Profiler.instance) calls).Merges t t' := by
  have hagree := agreeButAt_traceUnder 0 1 0x7f3a508e9f58 0x7f3b508e9f58
  refine ⟨_, _, 0, hagree, by decide, by decide, by decide, by decide,
    by decide, _, merges_of_hash_eq Profiler.instance ?_⟩
  rw [hagree.hash_eq_iff]
  decide +kernel

end Agent
end Franky

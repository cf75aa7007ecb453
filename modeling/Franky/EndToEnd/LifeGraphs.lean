import Mathlib.Data.List.Forall2
import Franky.Agent.Life
import Franky.EndToEnd.Truthful

/-!
# The flame graphs of a whole life

Where a loaded library is attached several times, a result may repeat what an
earlier one has reported, and it may report samples that were taken between two
sessions.  Its flame graph shows the samples since the last start that had an
effect, whichever session that start came in.
-/

namespace Franky
namespace EndToEnd

open Foundation
open Foundation.Sorting
open Protocol
open Agent
open Plugin

variable {traces : List AsgctCallTrace} {qsort : Qsort maxCalltraces}
  {samples samples' : List CallTraceSampleInfo}

/-!
## The order of the samples
-/

theorem totalCount_samplesThrough_perm (h : samples.Perm samples')
    (q : List Int64) :
    totalCount (samplesThrough samples q) =
      totalCount (samplesThrough samples' q) :=
  ((h.filter _).map _).sum_eq

theorem totalCount_perm (h : samples.Perm samples') :
    totalCount samples = totalCount samples' :=
  (h.map _).sum_eq

/-- The tree of the same samples in another order counts the same stacks. -/
theorem Distinguishable.flameTree_of_perm {p : Profiler}
    (h : Distinguishable traces)
    (hframes : forall trace, trace ∈ traces -> 0 < trace.numFrames)
    (hlength : traces.length < 2 ^ 31) (hqsort : Contract qsort)
    (hcounts : p.CountsTraces traces)
    (hperm : samples.Perm
      ((p.countedTraces qsort).map CallTraceSample.toInfo)) :
    exists t, FlameTree.ofSamples samples = Except.ok t ∧
      CountsStacks t traces := by
  rcases ofSamples_spec (fun sample hsample =>
    h.framed hframes hqsort hcounts sample (hperm.mem_iff.mp hsample)) with
    ⟨t, hok, hwell, hcost⟩
  have hfit := h.countsFit hlength hqsort hcounts
  have hfit' : CountsFit samples := by
    refine ⟨fun sample hsample => hfit.nonneg sample (hperm.mem_iff.mp hsample),
      ?_⟩
    rw [totalCount_perm hperm]
    exact hfit.total
  have hmerges := hwell.merges hcost
  have hexact := hmerges.costsExact hfit'
  have htotal : forall q, totalCount (samplesThrough samples q) =
      traces.countP (fun trace => decide (q <+: stackOf trace)) := by
    intro q
    rw [totalCount_samplesThrough_perm hperm, h.totalCount_eq hqsort hcounts]
  refine ⟨t, hok, ?_, ?_, ?_⟩
  · intro q hq
    rw [hmerges.reached q hq, ← h.exists_reported_iff hqsort hcounts]
    simp only [hperm.mem_iff]
  · intro q i _ hfollow
    rw [hexact.cost q i hfollow, htotal]
  · rw [hexact.rootCost, ← samplesThrough_nil samples, htotal]
    simp

/-!
## One result
-/

theorem freshProfiler_countsTraces {outcomes : List (Option AsgctCallTrace)}
    (hlength : outcomes.length < 2 ^ 31)
    (h : Distinguishable (javaTraces outcomes)) :
    (freshProfiler outcomes).CountsTraces (javaTraces outcomes) := by
  have hcounts := profiledRun_countsTraces (a := Process.initial) rfl
    defaultInterval hlength h
  rw [profiledRun, profiler_stop, run_sample_profiler] at hcounts
  exact ⟨hcounts.tallies, hcounts.first⟩

theorem reports_flameTree (hqsort : Contract qsort) {r : Recorder}
    {info : ProfilingInfo} (hreports : Reports qsort r info)
    (hlength : r.samples.length < 2 ^ 31)
    (h : Distinguishable (javaTraces r.samples)) :
    exists t, FlameTree.ofSamples info.samples = Except.ok t ∧
      CountsStacks t (javaTraces r.samples) := by
  have hshort := length_javaTraces_le r.samples
  have hlists := hreports.lists (Or.inr (countable_of_length hlength))
    (fun _ => ⟨"", "", ""⟩) VM.initial
  have hperm := hlists.samples.perm
  rw [profilingInfo_samples] at hperm
  exact h.flameTree_of_perm (fun t ht => (mem_javaTraces.mp ht).right)
    (by lia) hqsort (freshProfiler_countsTraces hlength h) hperm

/-- Each result that an agent sends in its life is shown as the flame graph of
the samples since the last start that found the profiler stopped. -/
theorem life_flameGraphs_truthful (qsort : Qsort maxCalltraces)
    (hqsort : Contract qsort) (parse : List UInt8 -> Option RequestType)
    (visits : List Visit)
    (hsamples : Machine.AllSteps Recorder.step Recorder.Samples
      Recorder.initial (visits.flatMap (Visit.events parse)))
    (hruns : forall r,
      r ∈ Recorder.initial.reports (visits.flatMap (Visit.events parse)) ->
        r.samples.length < 2 ^ 31 ∧ Distinguishable (javaTraces r.samples)) :
    exists a sent,
      Process.initial.life qsort parse visits = some (a, sent) ∧
      List.Forall₂
        (fun (r : Recorder) info =>
          exists t, FlameTree.ofSamples info.samples = Except.ok t ∧
            CountsStacks t (javaTraces r.samples))
        (Recorder.initial.reports (visits.flatMap (Visit.events parse)))
        (results sent) := by
  rcases records_initial.life hqsort hsamples with
    ⟨a, sent, hlife, _, hreports⟩
  refine ⟨a, sent, hlife, ?_⟩
  apply ((List.forall₂_and_left _ _).mpr ⟨hruns, hreports⟩).imp
  intro r info hboth
  rcases hboth with ⟨⟨hlength, hstacks⟩, hreport⟩
  exact reports_flameTree hqsort hreport hlength hstacks

theorem distinguishable_singleton {trace : AsgctCallTrace}
    (hnamed : forall frame, frame ∈ trace.frameList -> frame.methodId ≠ 0)
    (hhash : hashCallTrace trace ≠ 0) : Distinguishable [trace] where
  named := fun t ht => by
    rw [List.mem_singleton.mp ht]
    exact hnamed
  few := by
    rw [List.map_singleton]
    exact (List.toFinset_card_le _).trans (show 1 ≤ maxCalltraces by decide)
  hashes := by
    intro t t' ht ht' hne
    rw [List.mem_singleton.mp ht, List.mem_singleton.mp ht'] at hne
    exact absurd rfl hne
  nonzero := fun t ht => by
    rw [List.mem_singleton.mp ht]
    exact hhash

/-- A sample that is taken after a session was left without a stop. -/
def sampledBetween : List Visit :=
  [{ idle := [],
     session := plainSession [requestFrame RequestType.startProfiling] },
   { idle := [some callTrace, none],
     session := plainSession [requestFrame RequestType.stopProfiling] }]

theorem life_flameGraphs_sampledBetween :
    exists a sent,
      Process.initial.life mergeQsort parseRequest sampledBetween =
        some (a, sent) ∧
      List.Forall₂
        (fun (r : Recorder) info =>
          exists t, FlameTree.ofSamples info.samples = Except.ok t ∧
            CountsStacks t (javaTraces r.samples))
        [{ running := true, samples := [some callTrace, none] }]
        (results sent) := by
  have hevents : sampledBetween.flatMap (Visit.events parseRequest) =
      [AgentEvent.start, AgentEvent.sample (some callTrace),
        AgentEvent.sample none, AgentEvent.stop] := rfl
  have hlife := life_flameGraphs_truthful mergeQsort mergeQsort_contract
    parseRequest sampledBetween
    (by
      rw [hevents]
      exact ⟨trivial, rfl, rfl, trivial, trivial⟩)
    (by
      rw [hevents]
      intro r hr
      rw [List.mem_singleton.mp hr]
      exact ⟨by decide, distinguishable_singleton (by decide) (by decide)⟩)
  rw [hevents] at hlife
  exact hlife

end EndToEnd
end Franky

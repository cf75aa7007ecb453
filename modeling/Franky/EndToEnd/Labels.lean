import Franky.Agent.CompileFlags
import Franky.EndToEnd.LifeGraphs
import Franky.Plugin.FrameLabels

/-!
# The labels of a flame graph

The names in a result are those that the virtual machine gives, and a method is
described as compiled when some compilation has mentioned it.  Through the
message, the map and the panels this is what the graph says, however it has been
zoomed and repainted, and with the source methods that are found for these
names.
-/

namespace Franky
namespace EndToEnd

open Foundation
open Foundation.Sorting (Qsort Contract mergeQsort mergeQsort_contract)
open Protocol
open Agent
open Plugin

/-!
## Descriptions
-/

/-- The description of a method, after these compilations. -/
structure Describes (names : JMethodId -> MethodName)
    (loads : List CompiledMethodEvent) (method : JMethodId)
    (info : MethodInfo) : Prop where
  jMethodId : info.jMethodId = jMethodIdToId method
  name : info.name = (names method).name
  sig : info.sig = (names method).sig
  holder : info.holder = (names method).holder
  compiled : info.compiled = true <->
    exists event, event ∈ loads ∧ event.Mentions method

variable {names : JMethodId -> MethodName} {loads : List CompiledMethodEvent}
  {vm : VM}

theorem fillMethodInfo_describes (h : vm.FollowsLatest loads)
    (names : JMethodId -> MethodName) (method : JMethodId) :
    Describes names loads method (vm.fillMethodInfo names method).1 where
  jMethodId := rfl
  name := rfl
  sig := rfl
  holder := rfl
  compiled := by
    rw [(h.fillMethodInfo names method).left, latestMention_isSome]

theorem saveMethodIds_describes (h : vm.FollowsLatest loads)
    {ids : List JMethodId} {info : MethodInfo}
    (hinfo : info ∈ (vm.saveMethodIds names ids).1) :
    exists method, Describes names loads method info := by
  induction ids generalizing vm with
  | nil => cases hinfo
  | cons method ids ih =>
      rcases List.mem_cons.mp hinfo with rfl | hrest
      · exact ⟨method, fillMethodInfo_describes h names method⟩
      · exact ih (h.query names method) hrest

theorem profilingInfo_describes (h : vm.FollowsLatest loads)
    {qsort : Qsort maxCalltraces} {p : Profiler} {info : MethodInfo}
    (hinfo : info ∈ (p.profilingInfo qsort names vm).1.methodInfos) :
    exists method, Describes names loads method info := by
  simp only [Profiler.profilingInfo] at hinfo
  exact saveMethodIds_describes h hinfo

theorem methodId_ne_zero {qsort : Qsort maxCalltraces} {p : Profiler}
    {t : FlameTree}
    (ht : FlameTree.ofSamples (p.profilingInfo qsort names vm).1.samples =
      Except.ok t) {i : Nat} (hi : i < t.size) (hne : i ≠ 0) :
    (t.node i).methodId ≠ 0 := by
  rcases exists_frame_of_node ht hi hne with ⟨info, frame, hinfo, hframe, hid⟩
  rw [profilingInfo_samples] at hinfo
  rcases List.mem_map.mp hinfo with ⟨sample, _, rfl⟩
  rcases List.mem_map.mp hframe with ⟨named, hnamed, rfl⟩
  intro hzero
  rw [← hid] at hzero
  exact (frame_mem_namedFrames.mp hnamed).right
    (jMethodIdToId_eq_zero_iff.mp hzero)

theorem exists_description (h : vm.FollowsLatest loads)
    {qsort : Qsort maxCalltraces} {p : Profiler} {t : FlameTree}
    (ht : FlameTree.ofSamples (p.profilingInfo qsort names vm).1.samples =
      Except.ok t) {i : Nat} (hi : i < t.size) (hne : i ≠ 0) :
    exists method info, Describes names loads method info ∧
      associateBy (p.profilingInfo qsort names vm).1.methodInfos
        (t.node i).methodId = some info ∧
      jMethodIdToId method = (t.node i).methodId := by
  rcases exists_frame_of_node ht hi hne with ⟨sample, frame, hs, hf, hid⟩
  rw [profilingInfo_samples] at hs
  rcases List.mem_map.mp hs with ⟨entry, hentry, rfl⟩
  rcases List.mem_map.mp hf with ⟨named, hnamed, rfl⟩
  have hmem : (t.node i).methodId ∈ (p.profilingInfo qsort names
      vm).1.methodInfos.map MethodInfo.jMethodId :=
    (mem_methodInfos_iff p vm).mpr
      (Or.inr ⟨entry, named, hentry, hnamed, hid⟩)
  rcases exists_associateBy hmem with ⟨info, hfound, hinfo, hsame⟩
  rcases profilingInfo_describes h hinfo with ⟨method, hdescribes⟩
  exact ⟨method, info, hdescribes, hfound,
    hdescribes.jMethodId.symm.trans hsame⟩

/-!
## Labels
-/

section Labels

variable {psi : Type} {formatMethod : psi -> String}

/-- The source method that is found for a method of the virtual machine. -/
def sourceOf (lookUp : String -> String -> String -> Option psi)
    (name : MethodName) : Option psi :=
  lookUp name.holder name.name name.sig

/-- The name in a title: that of the source method, or else the class and the
name. -/
def shownName (formatMethod : psi -> String) (source : Option psi)
    (name : MethodName) : String :=
  match source with
  | none => name.holder ++ "." ++ name.name
  | some method => formatMethod method

theorem label_root (infos : List MethodInfo) {panel : FrameComponent}
    (hpanel : panel.methodInfo = (associateBy infos 0).getD rootMethodInfo)
    (link : Option psi) :
    (panel.label formatMethod link).title = Title.resetAll ∧
      (panel.label formatMethod link).warning = false := by
  unfold FrameComponent.label warns
  rw [hpanel, isRoot_getD]
  exact ⟨rfl, rfl⟩

/-- The panel of a described method names it, and warns unless a compilation
has mentioned it. -/
theorem label_described (formatMethod : psi -> String) (link : Option psi)
    {method : JMethodId} {panel : FrameComponent}
    (h : Describes names loads method panel.methodInfo) (hne : method ≠ 0) :
    (panel.label formatMethod link).title =
        Title.method (shownName formatMethod link (names method))
          panel.percentage panel.samplesCount ∧
      ((panel.label formatMethod link).warning = true <->
        forall event, event ∈ loads -> Not (event.Mentions method)) := by
  have hroot : isRoot panel.methodInfo = false := by
    apply decide_eq_false
    rw [h.jMethodId]
    exact fun hzero => hne (jMethodIdToId_eq_zero_iff.mp hzero)
  unfold FrameComponent.label warns
  rw [hroot]
  constructor
  · cases link with
    | none =>
        simp only [getMethodName, formatMethodInfo, h.holder, h.name]
        rfl
    | some source => rfl
  · have hcompiled := h.compiled
    cases hflag : panel.methodInfo.compiled with
    | true =>
        rw [hflag] at hcompiled
        rcases hcompiled.mp rfl with ⟨event, hevent, hmentions⟩
        constructor
        · intro hwarning
          cases hwarning
        · intro hnone
          exact absurd hmentions (hnone event hevent)
    | false =>
        rw [hflag] at hcompiled
        apply iff_of_true rfl
        intro event hevent hmentions
        have htrue := hcompiled.mpr ⟨event, hevent, hmentions⟩
        cases htrue

end Labels

/-!
## The graph of a run
-/

theorem Distinguishable.measured {traces : List AsgctCallTrace}
    (h : Distinguishable traces) {qsort : Qsort maxCalltraces}
    (hqsort : Contract qsort) {p : Profiler} (hcounts : p.CountsTraces traces)
    (hlength : traces.length < 2 ^ 31) (hne : traces ≠ []) {v : FlameSource}
    (ht : FlameTree.ofSamples
      ((p.countedTraces qsort).map CallTraceSample.toInfo) =
        Except.ok v.tree) :
    exists path, v.Measured path := by
  apply FlameSource.measured_of_samples ht
  · rcases List.exists_mem_of_ne_nil traces hne with ⟨trace, htrace⟩
    rcases (h.exists_reported_iff hqsort hcounts []).mpr
      ⟨trace, htrace, List.nil_prefix⟩ with ⟨sample, hsample, _⟩
    exact List.ne_nil_of_mem hsample
  · intro sample hsample
    rcases List.mem_map.mp hsample with ⟨entry, hentry, rfl⟩
    rcases (mem_countedTraces_iff hqsort
      hcounts.tallies.counts_nonneg).mp hentry with ⟨i, rfl, hpos⟩
    exact hpos
  · exact (h.countsFit hlength hqsort hcounts).total

def samplesOf (traces : List AsgctCallTrace) (q : List Int64) : Nat :=
  traces.countP (fun trace => decide (q <+: stackOf trace))

/-- The label names the method that these stacks have reached and links to its
source, with the number and the share of the samples, and warns unless a
compilation has mentioned the method. -/
def TrueOf (names : JMethodId -> MethodName) (loads : List CompiledMethodEvent)
    (traces : List AsgctCallTrace) {psi : Type} (formatMethod : psi -> String)
    (lookUp : String -> String -> String -> Option psi) (q : List Int64)
    (label : Label psi) : Prop :=
  exists (method : JMethodId) (samples : Int32),
    q.getLast? = some (jMethodIdToId method) ∧
      samples.toInt = samplesOf traces q ∧ 0 < samplesOf traces q ∧
      label.title = Title.method
        (shownName formatMethod (sourceOf lookUp (names method)) (names method))
        ((samplesOf traces q : Rat) / traces.length) samples ∧
      label.link = sourceOf lookUp (names method) ∧
      (label.warning = true <->
        forall event, event ∈ loads -> Not (event.Mentions method))

/-- The panels of a graph: the root's resets it, and there is one for each way
that a stack begins, with the label for it. -/
structure LabelsTrue (names : JMethodId -> MethodName)
    (loads : List CompiledMethodEvent) (traces : List AsgctCallTrace)
    {psi : Type} (formatMethod : psi -> String)
    (lookUp : String -> String -> String -> Option psi) (v : FlameSource)
    (c : LabelledComponent psi) : Prop where
  root : exists panel, c.component.nodeToComp 0 = some panel ∧
    (panel.label formatMethod (c.psiMethods 0)).title = Title.resetAll ∧
      (panel.label formatMethod (c.psiMethods 0)).warning = false
  below : forall i panel, c.component.nodeToComp i = some panel -> i ≠ 0 ->
    exists q, q ≠ [] ∧ v.tree.follow q = some i
  shown : forall q, q ≠ [] -> (exists trace, trace ∈ traces ∧
      q <+: stackOf trace) ->
    exists i panel, v.tree.follow q = some i ∧
      c.component.nodeToComp i = some panel
  labels : forall q i panel, q ≠ [] -> v.tree.follow q = some i ->
    c.component.nodeToComp i = some panel ->
    TrueOf names loads traces formatMethod lookUp q
      (panel.label formatMethod (c.psiMethods i))

section Component

variable {psi : Type} {formatMethod : psi -> String}
  {lookUp : String -> String -> String -> Option psi}
  {qsort : Qsort maxCalltraces} {p : Profiler} {traces : List AsgctCallTrace}
  {v : FlameSource} {path : Nat -> List Int64} {c : FlameComponent}
  {lc : LabelledComponent psi} {earlier : List MethodInfo}

theorem methodInfo_jMethodId (hlatest : vm.FollowsLatest loads)
    (htree : FlameTree.ofSamples
      (p.profilingInfo qsort names vm).1.samples = Except.ok v.tree)
    (hmethods : v.frameFactory =
      associateBy (p.profilingInfo qsort names vm).1.methodInfos) {i : Nat}
    (hi : i < v.tree.size) :
    (v.methodInfo i).jMethodId = (v.tree.node i).methodId := by
  unfold FlameSource.methodInfo
  rw [hmethods]
  rcases eq_or_ne i 0 with rfl | hne
  · rw [(rooted_of_ofSamples htree).right]
    exact of_decide_eq_true isRoot_getD
  · rcases exists_description hlatest htree hi hne with
      ⟨_, info, _, hinfo, _⟩
    rw [hinfo, Option.getD_some]
    exact jMethodId_of_associateBy hinfo

/-- The panels of one graph agree among themselves. -/
theorem sourcesAgree_of_earlier (hlatest : vm.FollowsLatest loads)
    (htree : FlameTree.ofSamples
      (p.profilingInfo qsort names vm).1.samples = Except.ok v.tree)
    (hmethods : v.frameFactory =
      associateBy (p.profilingInfo qsort names vm).1.methodInfos)
    (hearlier : forall info i, info ∈ earlier -> i < v.tree.size ->
      info.jMethodId = (v.methodInfo i).jMethodId ->
        findPsiMethod lookUp info = findPsiMethod lookUp (v.methodInfo i)) :
    v.SourcesAgree lookUp earlier := by
  intro info i hi hmade hid
  rcases hmade with hold | ⟨j, hj, rfl⟩
  · exact hearlier info i hold hi hid
  · rw [methodInfo_jMethodId hlatest htree hmethods hi,
      methodInfo_jMethodId hlatest htree hmethods hj] at hid
    unfold FlameSource.methodInfo
    rw [hid]

theorem label_of_follow (hlatest : vm.FollowsLatest loads)
    (htree : FlameTree.ofSamples
      (p.profilingInfo qsort names vm).1.samples = Except.ok v.tree)
    (hmethods : v.frameFactory =
      associateBy (p.profilingInfo qsort names vm).1.methodInfos)
    (hstacks : CountsStacks v.tree traces) (h : v.Measured path)
    (hfilled : v.Filled c) (hlabelled : v.Labelled c) {q : List Int64} {i : Nat}
    {panel : FrameComponent} (hq : q ≠ []) (hfollow : v.tree.follow q = some i)
    (hpanel : c.nodeToComp i = some panel) :
    TrueOf names loads traces formatMethod lookUp q
      (panel.label formatMethod
        (findPsiMethod lookUp (v.methodInfo i))) := by
  rcases h.paths.follow_root_iff.mp hfollow with ⟨hi, hpath⟩
  have hne : i ≠ 0 := by
    intro hzero
    rw [hzero, h.paths.root_path] at hpath
    exact hq hpath.symm
  rcases exists_description hlatest htree hi hne with
    ⟨method, info, hdescribes, hinfo, hid⟩
  have hmethod : method ≠ 0 := by
    intro hzero
    rw [jMethodIdToId_eq_zero_iff.mpr hzero] at hid
    exact methodId_ne_zero htree hi hne hid.symm
  have hlast : (v.tree.node i).methodId = q.getLast hq :=
    h.paths.label_eq_getLast hi hpath hq
  have hcost : (v.tree.node i).cost.toInt = samplesOf traces q :=
    hstacks.cost q i hq hfollow
  have hpositive : 0 < samplesOf traces q := by
    have hpos := h.positive i hi
    unfold FlameSource.cost at hpos
    rw [hcost] at hpos
    exact_mod_cast hpos
  have hpercentage : panel.percentage =
      (samplesOf traces q : Rat) / traces.length := by
    rw [hfilled.percentage i panel hpanel]
    unfold FlameSource.cost
    rw [hcost, hstacks.rootCost]
    simp
  rcases hlabelled i panel hpanel with ⟨hmethodInfo, hsamples⟩
  have hnode : v.methodInfo i = info := by
    rw [FlameSource.methodInfo, hmethods, hinfo, Option.getD_some]
  have hsource : findPsiMethod lookUp (v.methodInfo i) =
      sourceOf lookUp (names method) := by
    rw [hnode, findPsiMethod, hdescribes.holder, hdescribes.name,
      hdescribes.sig, sourceOf]
  rw [hnode] at hmethodInfo
  rw [← hmethodInfo] at hdescribes
  rw [hsource]
  rcases label_described formatMethod (sourceOf lookUp (names method))
    hdescribes hmethod with ⟨htitle, hwarning⟩
  refine ⟨method, panel.samplesCount, ?_, ?_, hpositive, ?_, rfl, hwarning⟩
  · rw [List.getLast?_eq_some_getLast hq, ← hlast, hid]
  · rw [hsamples]
    exact hcost
  · rw [htitle, hpercentage]

theorem labelsTrue_of_tree (hlatest : vm.FollowsLatest loads)
    (htree : FlameTree.ofSamples
      (p.profilingInfo qsort names vm).1.samples = Except.ok v.tree)
    (hmethods : v.frameFactory =
      associateBy (p.profilingInfo qsort names vm).1.methodInfos)
    (hstacks : CountsStacks v.tree traces) (h : v.Measured path)
    (hfilled : v.Filled lc.component) (hlabelled : v.Labelled lc.component)
    (hsourced : v.Sourced lookUp earlier lc) :
    LabelsTrue names loads traces formatMethod lookUp v lc where
  root := by
    rcases (hfilled.panels 0).mpr h.paths.root_lt with ⟨panel, hpanel⟩
    refine ⟨panel, hpanel, ?_⟩
    apply label_root (p.profilingInfo qsort names vm).1.methodInfos
    rw [(hlabelled 0 panel hpanel).left, FlameSource.methodInfo,
      (rooted_of_ofSamples htree).right, hmethods]
  below := by
    intro i panel hpanel hne
    have hi := (hfilled.panels i).mp ⟨panel, hpanel⟩
    refine ⟨path i, ?_, h.paths.follow_path hi rfl⟩
    intro hnil
    rw [← h.paths.root_path] at hnil
    exact hne (h.paths.injective i 0 hi h.paths.root_lt hnil)
  shown := by
    intro q hq htrace
    rcases (hstacks.node q hq).mpr htrace with ⟨i, hfollow⟩
    rcases (hfilled.panels i).mpr (h.paths.follow_root_iff.mp hfollow).left with
      ⟨panel, hpanel⟩
    exact ⟨i, panel, hfollow, hpanel⟩
  labels := by
    intro q i panel hq hfollow hpanel
    rw [hsourced.own i panel hpanel]
    exact label_of_follow hlatest htree hmethods hstacks h hfilled hlabelled hq
      hfollow hpanel

/-- What is reported of traces that can be told apart has a component. -/
theorem Distinguishable.exists_component (h : Distinguishable traces)
    (hframes : forall trace, trace ∈ traces -> 0 < trace.numFrames)
    (hlength : traces.length < 2 ^ 31) (hqsort : Contract qsort)
    (hcounts : p.CountsTraces traces) (names : JMethodId -> MethodName)
    (pid : Int32) (vm : VM) :
    exists v : FlameSource, createComponent
      (p.writeResult qsort names pid vm).1 =
        Except.ok (v.tree, v.frameFactory) := by
  rcases h.flameTree hframes hlength hqsort hcounts with ⟨t, hok, _⟩
  have htree : FlameTree.ofSamples
      (getProfInfo (p.writeResult qsort names pid vm).1).samples =
        Except.ok t := by
    rw [getProfInfo, writeResult_profInfo, Option.getD_some,
      profilingInfo_samples]
    exact hok
  generalize (p.writeResult qsort names pid vm).1 = result at htree ⊢
  exact ⟨{ tree := t, frameFactory := _
           order := fun i => (t.node i).children.map Prod.snd
           order_perm := fun _ => List.Perm.refl _ }, createComponent_eq htree⟩

end Component

/-- What the panels of the graph of a run say is true, after any clicks and
repaints, unless a panel that was made before has found another source method
for the id of one of its methods. -/
theorem labels_truthful (qsort : Qsort maxCalltraces)
    (hqsort : Contract qsort) (names : JMethodId -> MethodName) (pid : Int32)
    (before : List RegistryEvent) (a : Process) (interval : Int64)
    (hstopped : a.profiler.running = false)
    (outcomes : List (Option AsgctCallTrace))
    (hlength : outcomes.length < 2 ^ 31)
    (hstacks : Distinguishable (javaTraces outcomes))
    (hne : javaTraces outcomes ≠ []) (v : FlameSource)
    (hshown : createComponent ((profiledRun a interval
        outcomes).profiler.writeResult qsort names pid
          (Machine.run (VM.step names) VM.initial before)).1 =
      Except.ok (v.tree, v.frameFactory)) {psi : Type}
    (formatMethod : psi -> String)
    (lookUp : String -> String -> String -> Option psi)
    (earlier : List MethodInfo)
    (hearlier : forall info i, info ∈ earlier -> i < v.tree.size ->
      info.jMethodId = (v.methodInfo i).jMethodId ->
        findPsiMethod lookUp info = findPsiMethod lookUp (v.methodInfo i))
    (w : Int32) (events : List (FlameEvent v)) :
    LabelsTrue names (loadsOf before) (javaTraces outcomes) formatMethod lookUp
      v (v.historyLabelled lookUp w earlier events) := by
  have hcounts := profiledRun_countsTraces hstopped interval hlength hstacks
  have hshort := length_javaTraces_le outcomes
  rcases createComponent_ok hshown with ⟨htree, hmethods⟩
  rw [getProfInfo, writeResult_profInfo, Option.getD_some] at htree hmethods
  have hsamples := htree
  rw [profilingInfo_samples] at hsamples
  rcases hstacks.flameTree (fun t ht => (mem_javaTraces.mp ht).right)
    (by lia) hqsort hcounts with ⟨t, hok, htrue⟩
  rw [hsamples] at hok
  cases hok
  rcases hstacks.measured hqsort hcounts (by lia) hne hsamples with ⟨path, h⟩
  have hlatest := run_followsLatest names before
  have hagree := sourcesAgree_of_earlier hlatest htree hmethods hearlier
  have hcomponent : (v.historyLabelled lookUp w earlier events).component =
      v.history w events :=
    FlameSource.historyLabelled_component w earlier events
  apply labelsTrue_of_tree hlatest htree hmethods htrue h
  · rw [hcomponent]
    exact (h.history_laid w events).left.filled
  · rw [hcomponent]
    exact v.history_labelled w events
  · exact FlameSource.historyLabelled_sourced h hagree w events

def oneName : JMethodId -> MethodName := fun _ => ⟨"name", "()V", "LHolder;"⟩

/-- The graph of one sample, in a component that is repainted once.  The same
graph is shown in another tab, and the sources of its methods were found for
that one. -/
theorem labels_truthful_callTrace :
    exists v : FlameSource, LabelsTrue oneName (loadsOf [])
      (javaTraces [some callTrace]) (fun (name : String) => name)
      (fun _ name _ => some name) v
      (v.historyLabelled (fun _ name _ => some name) 640
        ((List.range v.tree.size).map v.methodInfo)
        [FlameEvent.repaint 800]) := by
  have hone : Distinguishable (javaTraces [some callTrace]) :=
    distinguishable_singleton (by decide) (by decide)
  have hcounts : (profiledRun Process.initial defaultInterval
      [some callTrace]).profiler.CountsTraces (javaTraces [some callTrace]) :=
    profiledRun_countsTraces rfl defaultInterval (by decide) hone
  rcases hone.exists_component (by decide) (by decide) mergeQsort_contract
    hcounts oneName 1 VM.initial with ⟨v, hshown⟩
  have hparts := createComponent_ok hshown
  rw [getProfInfo, writeResult_profInfo, Option.getD_some] at hparts
  have hagree : v.SourcesAgree (fun _ (name : String) _ => some name) [] :=
    sourcesAgree_of_earlier (run_followsLatest oneName []) hparts.left
      hparts.right (fun _ _ hnil => by cases hnil)
  refine ⟨v, labels_truthful mergeQsort mergeQsort_contract oneName 1 []
    Process.initial defaultInterval rfl [some callTrace] (by decide) hone
    (List.cons_ne_nil _ _) v hshown _ _ _ ?_ 640 _⟩
  intro info i hinfo hi hid
  rcases List.mem_map.mp hinfo with ⟨j, hj, rfl⟩
  exact hagree _ i hi (Or.inr ⟨j, List.mem_range.mp hj, rfl⟩) hid

end EndToEnd
end Franky

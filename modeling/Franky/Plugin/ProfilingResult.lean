import Franky.Plugin.FlameTree

/-!
# The result of a session in the plugin

`ProfResultViewModel` builds the flame tree of a result and a map that finds the
description of a method by its id.
-/

namespace Franky
namespace Plugin

open Protocol

def defaultProfilingInfo : ProfilingInfo :=
  { callsTotal := 0, callsNonJava := 0, callsGc := 0, callsDeopt := 0,
    callsUnknown := 0, methods := [], samples := [], methodInfos := [] }

/-- `result.profInfo`, which is the default where the response has none. -/
def getProfInfo (result : Response) : ProfilingInfo :=
  result.profInfo.getD defaultProfilingInfo

/-- `associateBy`; of two entries with one key the map keeps the later one. -/
def associateBy (infos : List MethodInfo) : Int64 -> Option MethodInfo :=
  infos.foldl (fun methods info =>
    Function.update methods info.jMethodId (some info)) (fun _ => none)

/-- `ProfResultViewModel.createComponent`, up to the component it makes of the
tree and the map. -/
def createComponent (result : Response) :
    Except IllegalArgument (FlameTree × (Int64 -> Option MethodInfo)) := do
  let profInfo := getProfInfo result
  let tree <- FlameTree.ofSamples profInfo.samples
  let methods := associateBy profInfo.methodInfos
  pure (tree, methods)

/-- The result has a component; the others throw. -/
def canShow (result : Response) : Bool := (createComponent result).toBool

theorem associateBy_concat (infos : List MethodInfo) (info : MethodInfo) :
    associateBy (infos ++ [info]) =
      Function.update (associateBy infos) info.jMethodId (some info) := by
  simp [associateBy]

theorem exists_associateBy {infos : List MethodInfo} {id : Int64}
    (h : id ∈ infos.map MethodInfo.jMethodId) :
    exists info, associateBy infos id = some info ∧ info ∈ infos ∧
      info.jMethodId = id := by
  induction infos using List.reverseRecOn with
  | nil => cases h
  | append_singleton infos info ih =>
      rw [associateBy_concat]
      rcases eq_or_ne id info.jMethodId with rfl | hne
      · exact ⟨info, Function.update_self _ _ _,
          List.mem_append_right infos List.mem_cons_self, rfl⟩
      · have hold : id ∈ infos.map MethodInfo.jMethodId := by
          simpa [hne] using h
        rcases ih hold with ⟨found, hfound, hmem, hid⟩
        rw [Function.update_of_ne hne]
        exact ⟨found, hfound, List.mem_append_left _ hmem, hid⟩

theorem createComponent_ok {result : Response} {t : FlameTree}
    {methods : Int64 -> Option MethodInfo}
    (h : createComponent result = Except.ok (t, methods)) :
    FlameTree.ofSamples (getProfInfo result).samples = Except.ok t ∧
      methods = associateBy (getProfInfo result).methodInfos := by
  cases htree : FlameTree.ofSamples (getProfInfo result).samples with
  | error thrown =>
      simp only [createComponent, htree] at h
      cases h
  | ok tree =>
      simp only [createComponent, htree] at h
      cases h
      exact ⟨rfl, rfl⟩

theorem createComponent_eq {result : Response} {t : FlameTree}
    (h : FlameTree.ofSamples (getProfInfo result).samples = Except.ok t) :
    createComponent result =
      Except.ok (t, associateBy (getProfInfo result).methodInfos) := by
  simp only [createComponent, h]
  rfl

theorem exists_frame_of_node {samples : List CallTraceSampleInfo}
    {t : FlameTree} (h : FlameTree.ofSamples samples = Except.ok t) {i : Nat}
    (hi : i < t.size) (hne : i ≠ 0) :
    exists sample frame, sample ∈ samples ∧ frame ∈ sample.frameList ∧
      frame.jMethodId = (t.node i).methodId := by
  rcases ofSamples_spec (frames_of_ofSamples h) with ⟨t', hok, hwell, hcost⟩
  rw [h] at hok
  cases hok
  have hmerges := hwell.merges hcost
  rcases hwell.paths with ⟨path, hpaths⟩
  rcases hpaths.parent_path hi hne with ⟨j, _, _, _, hpath⟩
  have hnil : path i ≠ [] := by
    rw [hpath]
    exact List.concat_ne_nil _ _
  have hfollow : t.follow (path i) = some i := hpaths.follow_path hi rfl
  rcases (hmerges.reached (path i) hnil).mp ⟨i, hfollow⟩ with
    ⟨sample, hsample, hbegin⟩
  have hlast : (t.node i).methodId ∈ sample.path := by
    rw [hmerges.methodId (path i) i hnil hfollow]
    exact hbegin.subset (List.getLast_mem hnil)
  rcases List.mem_map.mp hlast with ⟨frame, hframe, hid⟩
  exact ⟨sample, frame, hsample, List.mem_reverse.mp hframe, hid⟩

end Plugin
end Franky

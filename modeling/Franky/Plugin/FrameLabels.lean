import Franky.Foundation.Memo
import Franky.Plugin.FlameHeight
import Franky.Plugin.ProfilingResult

/-!
# What the panels say

A panel is titled with the source method that is found for it, or else with the
names that the agent has sent, and it warns of methods that were not compiled.
The source methods are remembered by method id for as long as the plugin is
loaded, whatever process the id is from.
-/

namespace Franky
namespace Plugin

open Foundation
open Protocol

/-!
## Labels
-/

/-- `MethodInfo.isRoot`. -/
def isRoot (info : MethodInfo) : Bool := info.jMethodId = 0

/-- The panel of the method gets a warning label. -/
def warns (info : MethodInfo) : Bool := !isRoot info && !info.compiled

/-- The title of a panel, before its numbers are formatted. -/
inductive Title where
  | resetAll
  | method (methodName : String) (percentage : Rat) (samplesCount : Int32)
deriving DecidableEq, Repr

/-- What a panel shows: its title, the method that the title links to, and
whether there is a warning label. -/
structure Label (psi : Type) where
  title : Title
  link : Option psi
  warning : Bool

section Labels

variable {psi : Type}

/-- `FrameComponent.formatMethodInfo`. -/
def formatMethodInfo (info : MethodInfo) : String :=
  info.holder ++ "." ++ info.name

/-- `FrameComponent.getMethodName`; `none` is `NULL_PSI_METHOD`. -/
def getMethodName (formatMethod : psi -> String) (psiMethod : Option psi)
    (info : MethodInfo) : String :=
  match psiMethod with
  | none => formatMethodInfo info
  | some method => formatMethod method

/-- `methodLabel` and the initializer of `FrameComponent`. -/
def FrameComponent.label (formatMethod : psi -> String)
    (psiMethod : Option psi) (panel : FrameComponent) : Label psi :=
  { title :=
      if isRoot panel.methodInfo then Title.resetAll
      else
        Title.method (getMethodName formatMethod psiMethod panel.methodInfo)
          panel.percentage panel.samplesCount
    link := psiMethod
    warning := warns panel.methodInfo }

/-- `FrameComponent.findPsiMethod`, where `lookUp` searches the sources for a
class, a name and a signature. -/
def findPsiMethod (lookUp : String -> String -> String -> Option psi)
    (info : MethodInfo) : Option psi :=
  lookUp info.holder info.name info.sig

/-- `FrameComponent.psiMethod` of a panel that is made after panels for these
methods, in any tabs: what `methodToPsiCache` holds then, or else what is
found. -/
def psiMethod (lookUp : String -> String -> String -> Option psi)
    (made : List MethodInfo) (info : MethodInfo) : Option psi :=
  Memo.answerAfter MethodInfo.jMethodId (findPsiMethod lookUp) made info

/-- A component with the source methods of its panels, and the methods for which
panels have been made so far, in any tab. -/
structure LabelledComponent (psi : Type) where
  component : FlameComponent
  psiMethods : Nat -> Option psi
  made : List MethodInfo

end Labels

/-!
## Making panels
-/

namespace FlameSource

section Making

variable (v : FlameSource) {psi : Type}
  (lookUp : String -> String -> String -> Option psi)

def methodInfo (node : Nat) : MethodInfo :=
  (v.frameFactory (v.tree.node node).methodId).getD rootMethodInfo

/-- `nodeToComp.getOrPut`, as far as the source methods go. -/
def makePanel (c : LabelledComponent psi) (node : Nat) :
    LabelledComponent psi :=
  match c.component.nodeToComp node with
  | some _ => c
  | none =>
      { c with
        psiMethods := Function.update c.psiMethods node
          (psiMethod lookUp c.made (v.methodInfo node))
        made := c.made ++ [v.methodInfo node] }

/-- `recalculateComponentCoords`, with the panel made if there is none. -/
def placeLabelled (w : Int32) (c : LabelledComponent psi) (box : Box) :
    LabelledComponent psi :=
  { v.makePanel lookUp c box.node with component := v.place w c.component box }

/-- `recalcPositions`, box by box. -/
def recalcLabelled (w : Int32) (c : LabelledComponent psi) :
    LabelledComponent psi :=
  (v.placements c.component.currentRoot).foldl (v.placeLabelled lookUp w)
    { c with component := { c.component with maxHeight := 0 } }

def stepLabelled (c : LabelledComponent psi) :
    FlameEvent v -> LabelledComponent psi
  | FlameEvent.click node width =>
      v.recalcLabelled lookUp width
        { c with
          component :=
            { c.component with
              nodeToComp := fun i => (c.component.nodeToComp i).map
                (fun panel => { panel with bounds := Bounds.zero })
              currentRoot := node } }
  | FlameEvent.repaint width => v.recalcLabelled lookUp width c

/-- The constructor of `FlameComponent`, after panels for these methods. -/
def constructLabelled (w : Int32) (earlier : List MethodInfo) :
    LabelledComponent psi :=
  v.recalcLabelled lookUp w
    { component := FlameComponent.empty, psiMethods := fun _ => none
      made := earlier }

def historyLabelled (w : Int32) (earlier : List MethodInfo)
    (events : List (FlameEvent v)) : LabelledComponent psi :=
  Machine.run (v.stepLabelled lookUp) (v.constructLabelled lookUp w earlier)
    events

end Making

variable {v : FlameSource} {w : Int32} {c : FlameComponent}
  {path : Nat -> List Int64} {psi : Type}
  {lookUp : String -> String -> String -> Option psi}
  {lc : LabelledComponent psi} {earlier : List MethodInfo}

theorem recalcLabelled_component (w : Int32) (lc : LabelledComponent psi) :
    (v.recalcLabelled lookUp w lc).component =
      v.recalcPositions w lc.component := by
  have hfold : forall (boxes : List Box) (lc : LabelledComponent psi),
      (boxes.foldl (v.placeLabelled lookUp w) lc).component =
        boxes.foldl (v.place w) lc.component := by
    intro boxes
    induction boxes with
    | nil => exact fun _ => rfl
    | cons box boxes ih => exact fun lc => ih (v.placeLabelled lookUp w lc box)
  rw [recalcPositions_eq_placements]
  exact hfold _ _

theorem stepLabelled_component (lc : LabelledComponent psi)
    (event : FlameEvent v) :
    (v.stepLabelled lookUp lc event).component = v.step lc.component event := by
  cases event with
  | click node width => exact recalcLabelled_component width _
  | repaint width => exact recalcLabelled_component width lc

theorem historyLabelled_component (w : Int32) (earlier : List MethodInfo)
    (events : List (FlameEvent v)) :
    (v.historyLabelled lookUp w earlier events).component =
      v.history w events := by
  have hall : Machine.AllSteps (v.stepLabelled lookUp) (fun _ _ => True)
      (v.constructLabelled lookUp w earlier) events :=
    Machine.allSteps_of_run (fun _ _ _ => trivial)
  exact Machine.run_related
    (fun (lc : LabelledComponent psi) c => lc.component = c)
    (fun lc c event _ hsame => by rw [stepLabelled_component, hsame])
    (recalcLabelled_component w _) hall

/-- No panel that was made before, in any tab, for a method with the id of one
of the graph has found another source method; neither has one of the graph. -/
def SourcesAgree (v : FlameSource)
    (lookUp : String -> String -> String -> Option psi)
    (earlier : List MethodInfo) : Prop :=
  forall info i, i < v.tree.size ->
    (info ∈ earlier ∨ exists j, j < v.tree.size ∧ info = v.methodInfo j) ->
    info.jMethodId = (v.methodInfo i).jMethodId ->
      findPsiMethod lookUp info = findPsiMethod lookUp (v.methodInfo i)

/-- Each panel has the source method that is found for it. -/
structure Sourced (v : FlameSource)
    (lookUp : String -> String -> String -> Option psi)
    (earlier : List MethodInfo) (lc : LabelledComponent psi) : Prop where
  own : forall i panel, lc.component.nodeToComp i = some panel ->
    lc.psiMethods i = findPsiMethod lookUp (v.methodInfo i)
  made : forall info, info ∈ lc.made ->
    info ∈ earlier ∨ exists j, j < v.tree.size ∧ info = v.methodInfo j

theorem Sourced.place (hc : v.Sourced lookUp earlier lc)
    (hagree : v.SourcesAgree lookUp earlier) {box : Box}
    (hbox : box.node < v.tree.size) :
    v.Sourced lookUp earlier (v.placeLabelled lookUp w lc box) := by
  have hother : forall {i}, i ≠ box.node ->
      (v.place w lc.component box).nodeToComp i =
        lc.component.nodeToComp i := fun hne => Function.update_of_ne hne _ _
  unfold placeLabelled makePanel
  cases hnode : lc.component.nodeToComp box.node with
  | some old =>
      refine ⟨?_, hc.made⟩
      intro i panel hpanel
      rcases eq_or_ne i box.node with rfl | hne
      · exact hc.own box.node old hnode
      · exact hc.own i panel ((hother hne).symm.trans hpanel)
  | none =>
      refine ⟨?_, ?_⟩
      · intro i panel hpanel
        dsimp only
        rcases eq_or_ne i box.node with rfl | hne
        · rw [Function.update_self]
          apply Memo.answerAfter_own
          exact fun info hinfo => hagree info box.node hbox (hc.made info hinfo)
        · rw [Function.update_of_ne hne]
          exact hc.own i panel ((hother hne).symm.trans hpanel)
      · intro info hinfo
        rcases List.mem_append.mp hinfo with hold | hnew
        · exact hc.made info hold
        · exact Or.inr ⟨box.node, hbox, List.mem_singleton.mp hnew⟩

theorem Sourced.recalc (hc : v.Sourced lookUp earlier lc)
    (h : v.Measured path) (hagree : v.SourcesAgree lookUp earlier)
    (hr : lc.component.currentRoot < v.tree.size) (w : Int32) :
    v.Sourced lookUp earlier (v.recalcLabelled lookUp w lc) := by
  have hboxes : forall box, box ∈ v.placements lc.component.currentRoot ->
      box.node < v.tree.size := by
    intro box hbox
    rw [h.placements_eq hr] at hbox
    exact (h.level_of_mem_layout hr hbox).left
  have hstart : v.Sourced lookUp earlier
      { lc with component := { lc.component with maxHeight := 0 } } :=
    ⟨hc.own, hc.made⟩
  unfold recalcLabelled
  generalize v.placements lc.component.currentRoot = boxes at hboxes
  generalize ({ lc with component := { lc.component with maxHeight := 0 } } :
    LabelledComponent psi) = start at hstart
  induction boxes generalizing start with
  | nil => exact hstart
  | cons box boxes ih =>
      exact ih (fun box' hbox' => hboxes box' (List.mem_cons_of_mem box hbox'))
        _ (hstart.place hagree (hboxes box List.mem_cons_self))

theorem Sourced.step (hc : v.Sourced lookUp earlier lc) (h : v.Measured path)
    (hagree : v.SourcesAgree lookUp earlier)
    (hr : lc.component.currentRoot < v.tree.size) (event : FlameEvent v) :
    v.Sourced lookUp earlier (v.stepLabelled lookUp lc event) := by
  cases event with
  | click node width =>
      apply Sourced.recalc _ h hagree node.isLt
      refine ⟨?_, hc.made⟩
      intro i panel hpanel
      rcases Option.map_eq_some_iff.mp hpanel with ⟨old, hold, _⟩
      exact hc.own i old hold
  | repaint width => exact hc.recalc h hagree hr width

/-- Where the sources agree, every panel has its own source method after any
clicks and repaints. -/
theorem historyLabelled_sourced (h : v.Measured path)
    (hagree : v.SourcesAgree lookUp earlier) (w : Int32)
    (events : List (FlameEvent v)) :
    v.Sourced lookUp earlier (v.historyLabelled lookUp w earlier events) := by
  have hstart : v.Sourced lookUp earlier
      (v.constructLabelled lookUp w earlier) := by
    apply Sourced.recalc _ h hagree h.paths.root_lt
    refine ⟨?_, fun info hinfo => Or.inl hinfo⟩
    intro i panel hpanel
    cases hpanel
  have hroot : (v.constructLabelled lookUp w earlier).component.currentRoot <
      v.tree.size := by
    unfold constructLabelled
    rw [recalcLabelled_component]
    exact (h.construct_laid w).filled.root_lt
  have hinv : forall (lc : LabelledComponent psi) (event : FlameEvent v),
      lc.component.currentRoot < v.tree.size ∧ v.Sourced lookUp earlier lc ->
      (v.stepLabelled lookUp lc event).component.currentRoot < v.tree.size ∧
        v.Sourced lookUp earlier (v.stepLabelled lookUp lc event) := by
    intro lc event hboth
    refine ⟨?_, hboth.right.step h hagree hboth.left event⟩
    rw [stepLabelled_component]
    cases event with
    | click node width =>
        exact (h.recalcPositions_currentRoot node.isLt width).trans_lt node.isLt
    | repaint width =>
        exact (h.recalcPositions_currentRoot hboth.left width).trans_lt
          hboth.left
  exact (Machine.run_invariant hinv ⟨hroot, hstart⟩ events).right

/-!
## Panels keep what they were made from
-/

/-- Each panel is about the method of its node, and counts its samples. -/
def Labelled (v : FlameSource) (c : FlameComponent) : Prop :=
  forall i panel, c.nodeToComp i = some panel ->
    panel.methodInfo = v.methodInfo i ∧
      panel.samplesCount = (v.tree.node i).cost

theorem Labelled.place (h : v.Labelled c) (box : Box) :
    v.Labelled (v.place w c box) := by
  intro i panel hpanel
  rcases eq_or_ne i box.node with rfl | hne
  · rw [place_panel, Option.some.injEq] at hpanel
    rw [← hpanel]
    unfold placed
    cases hold : c.nodeToComp box.node with
    | none => exact ⟨rfl, rfl⟩
    | some old => exact h box.node old hold
  · apply h i panel
    rw [← hpanel]
    exact (Function.update_of_ne hne _ _).symm

theorem Labelled.recalcPositions (h : v.Labelled c) (w : Int32) :
    v.Labelled (v.recalcPositions w c) := by
  rw [recalcPositions_eq_placements]
  have hstart : v.Labelled { c with maxHeight := 0 } := h
  generalize v.placements c.currentRoot = boxes
  generalize ({ c with maxHeight := 0 } : FlameComponent) = start at hstart
  induction boxes generalizing start with
  | nil => exact hstart
  | cons box boxes ih => exact ih _ (hstart.place box)

theorem Labelled.step (h : v.Labelled c) (event : FlameEvent v) :
    v.Labelled (v.step c event) := by
  cases event with
  | click node width =>
      apply Labelled.recalcPositions
      intro i panel hpanel
      rcases Option.map_eq_some_iff.mp hpanel with ⟨old, hold, rfl⟩
      exact h i old hold
  | repaint width => exact h.recalcPositions width

theorem history_labelled (v : FlameSource) (w : Int32)
    (events : List (FlameEvent v)) : v.Labelled (v.history w events) := by
  have hempty : v.Labelled FlameComponent.empty := by
    intro i panel hpanel
    cases hpanel
  exact Machine.run_invariant
    (fun (c : FlameComponent) event (h : v.Labelled c) => h.step event)
    (hempty.recalcPositions w) events

end FlameSource

/-!
## The root

The root stands for no method, and its panel resets the graph.
-/

/-- The root of a tree under construction. -/
def FlameTree.Rooted (t : FlameTree) : Prop :=
  0 < t.size ∧ (t.node 0).methodId = 0

namespace FlameTree.Rooted

variable {t : FlameTree}

theorem addCost (h : t.Rooted) (i : Nat) (coef : Int32) :
    (t.addCost i coef).Rooted := by
  refine ⟨h.left, ?_⟩
  rw [← h.right]
  exact congrFun (congrArg ArenaTree.label (addCost_shape t i coef)) 0

theorem computeIfAbsent (h : t.Rooted) (i : Nat) (methodId : Int64) :
    (t.computeIfAbsent i methodId).2.Rooted := by
  unfold FlameTree.computeIfAbsent
  cases (t.node i).children.lookup methodId with
  | some j => exact h
  | none =>
      refine ⟨Nat.succ_pos _, ?_⟩
      dsimp only
      rw [Function.update_of_ne (Nat.ne_of_lt h.left)]
      rcases eq_or_ne 0 i with rfl | hne
      · rw [Function.update_self]
        exact h.right
      · rw [Function.update_of_ne hne]
        exact h.right

theorem addFrames (coef : Int32) (frames : List CallFrame) (h : t.Rooted)
    (i : Nat) : (FlameTree.addFrames coef t i frames).Rooted := by
  induction frames generalizing t i with
  | nil => exact h
  | cons frame frames ih =>
      exact ih ((h.computeIfAbsent i frame.jMethodId).addCost _ coef) _

theorem addSamples {samples : List CallTraceSampleInfo} {t' : FlameTree}
    (h : t.Rooted) (hok : t.addSamples samples = Except.ok t') : t'.Rooted := by
  induction samples generalizing t with
  | nil =>
      cases hok
      exact h
  | cons sample samples ih =>
      unfold FlameTree.addSamples at hok
      cases hvalid : validate sample with
      | error e =>
          rw [hvalid] at hok
          cases hok
      | ok _ =>
          rw [hvalid] at hok
          exact ih ((h.addCost 0 sample.callCount).addFrames sample.callCount
            sample.frameList.reverse 0) hok

end FlameTree.Rooted

theorem jMethodId_of_associateBy {infos : List MethodInfo} {id : Int64}
    {info : MethodInfo} (h : associateBy infos id = some info) :
    info.jMethodId = id := by
  induction infos using List.reverseRecOn with
  | nil => cases h
  | append_singleton infos last ih =>
      rw [associateBy_concat] at h
      rcases eq_or_ne id last.jMethodId with rfl | hne
      · rw [Function.update_self] at h
        cases h
        rfl
      · rw [Function.update_of_ne hne] at h
        exact ih h

theorem isRoot_getD {infos : List MethodInfo} :
    isRoot ((associateBy infos 0).getD rootMethodInfo) = true := by
  cases h : associateBy infos 0 with
  | none => rfl
  | some info => exact decide_eq_true (jMethodId_of_associateBy h)

theorem rooted_of_ofSamples {samples : List CallTraceSampleInfo} {t : FlameTree}
    (h : FlameTree.ofSamples samples = Except.ok t) : t.Rooted := by
  have hempty : FlameTree.empty.Rooted := ⟨Nat.one_pos, rfl⟩
  exact hempty.addSamples h

end Plugin
end Franky

import Franky.Plugin.FlameZoom

/-!
# The preferred height of the flame graph

The component asks for the height at which its deepest row begins, without the
height of the row itself, so that row is always cut off.
-/

namespace Franky
namespace Plugin

open Foundation
open Protocol

/-- Every component that the last recalculation gave a position ends within the
preferred height. -/
def Scrollable (v : FlameSource) (c : FlameComponent) : Prop :=
  forall box panel, box ∈ v.placements c.currentRoot ->
    c.nodeToComp box.node = some panel ->
      panel.bounds.y + panel.bounds.height ≤ c.getPreferredHeight

namespace FlameSource

variable {v : FlameSource} {path : Nat -> List Int64} {w : Int32}

/-!
## The level of a node

A box lies on the level that the depth of its node says, also in a tree whose
costs cannot be laid out.
-/

theorem level_of_mem_drawn (h : v.tree.shape.Paths path)
    (hkeys : v.tree.KeysDistinct) {depth r : Nat} (hr : r < v.tree.size)
    {begin width : Rat} {box : Box}
    (hbox : box ∈ v.drawn depth r begin width (path r).length) :
    box.level = (path box.node).length := by
  induction depth generalizing r begin width with
  | zero => cases hbox
  | succ depth ih =>
      unfold drawn at hbox
      split at hbox
      · cases hbox
      · rcases List.mem_cons.mp hbox with rfl | hbox
        · rfl
        · rcases List.mem_flatMap.mp hbox with ⟨part, hpart, hbox⟩
          have hitem := Subdivision.part_item_mem hpart
          rcases (mem_order_iff hkeys).mp hitem with ⟨m, hm⟩
          rcases h.child_path r m part.item hr hm with ⟨hlt, hpath⟩
          have hlevel : ((path part.item).length : Int) =
              (path r).length + 1 := by
            rw [hpath, List.length_append, List.length_singleton]
            rfl
          rw [← hlevel] at hbox
          exact ih hlt hbox

theorem level_of_mem_ancestors (h : v.tree.shape.Paths path) {depth r : Nat}
    (hr : r < v.tree.size) {box : Box}
    (hbox : box ∈ v.ancestors depth (path r).length r) :
    box.level = (path box.node).length := by
  induction depth generalizing r with
  | zero => cases hbox
  | succ depth ih =>
      unfold ancestors at hbox
      rcases parent_cases h hr with ⟨_, hparent⟩ | ⟨i, hi, hparent, hchild⟩
      · rw [hparent] at hbox
        cases hbox
      · have hlt := hi.trans hr
        have hpath := (h.child_path i _ r hlt hchild).right
        have hlevel : ((path r).length : Int) - 1 = (path i).length := by
          rw [hpath, List.length_append, List.length_singleton]
          lia
        rw [hparent, hlevel] at hbox
        rcases List.mem_cons.mp hbox with rfl | hbox
        · rfl
        · exact ih hlt hbox

theorem level_of_mem_placements (h : v.tree.shape.Paths path)
    (hkeys : v.tree.KeysDistinct) {r : Nat} (hr : r < v.tree.size) {box : Box}
    (hbox : box ∈ v.placements r) : box.level = (path box.node).length := by
  have hlevel := countLevel_eq h (Nat.le_of_lt hr) hr
  unfold placements at hbox
  rw [hlevel] at hbox
  rcases List.mem_append.mp hbox with hbox | hbox
  · exact level_of_mem_ancestors h hr hbox
  · exact level_of_mem_drawn h hkeys hr hbox

theorem placements_ne_nil {r : Nat} (hsize : 0 < v.tree.size) :
    v.placements r ≠ [] := by
  unfold placements
  cases hdepth : v.tree.size with
  | zero => lia
  | succ depth =>
      intro hnil
      have hnone := (List.append_eq_nil_iff.mp hnil).right
      unfold drawn at hnone
      rw [if_neg (not_le_of_gt one_pos)] at hnone
      cases hnone

/-!
## The deepest row

While boxes are placed, the height is where the deepest of them begins.
-/

/-- One of the boxes placed so far has its panel at the height reached. -/
def Deepest (boxes : List Box) (c : FlameComponent) : Prop :=
  exists box panel, box ∈ boxes ∧ c.nodeToComp box.node = some panel ∧
    panel.bounds.y = c.maxHeight ∧ panel.bounds.height = frameHeight ∧
      box.level * frameHeight = c.maxHeight

theorem place_maxHeight (c : FlameComponent) (box : Box) :
    (v.place w c box).maxHeight =
      if c.maxHeight ≤ box.level * frameHeight then box.level * frameHeight
      else c.maxHeight := rfl

theorem place_panel (c : FlameComponent) (box : Box) :
    (v.place w c box).nodeToComp box.node =
      some (v.placed w (c.nodeToComp box.node) box) :=
  Function.update_self _ _ _

theorem deepest_of_le {c : FlameComponent} {box : Box}
    (hle : c.maxHeight ≤ box.level * frameHeight) (boxes : List Box) :
    Deepest (boxes ++ [box]) (v.place w c box) := by
  have hheight := place_maxHeight (v := v) (w := w) c box
  rw [if_pos hle] at hheight
  refine ⟨box, _, List.mem_append_right boxes List.mem_cons_self,
    place_panel c box, ?_, rfl, hheight.symm⟩
  exact hheight.symm

/-- Placing a box keeps the deepest one, since a node is never placed on two
levels. -/
theorem Deepest.place {boxes : List Box} {c : FlameComponent}
    (h : Deepest boxes c) {box : Box}
    (hlevels : forall box', box' ∈ boxes -> box'.node = box.node ->
      box'.level = box.level) :
    Deepest (boxes ++ [box]) (v.place w c box) := by
  rcases le_or_gt c.maxHeight (box.level * frameHeight) with hle | hgt
  · exact deepest_of_le hle boxes
  · rcases h with ⟨deepest, panel, hmem, hpanel, hy, hheight, hlevel⟩
    have hne : deepest.node ≠ box.node := by
      intro hsame
      rw [hlevels deepest hmem hsame] at hlevel
      lia
    have hmax := place_maxHeight (v := v) (w := w) c box
    rw [if_neg (not_le_of_gt hgt)] at hmax
    refine ⟨deepest, panel, List.mem_append_left _ hmem, ?_, ?_, hheight, ?_⟩
    · rw [← hpanel]
      exact Function.update_of_ne hne _ _
    · rw [hmax, hy]
    · rw [hmax, hlevel]

theorem deepest_of_run {boxes : List Box} (hne : boxes ≠ [])
    (hlevels : forall box box', box ∈ boxes -> box' ∈ boxes ->
      box'.node = box.node -> box'.level = box.level)
    (hnonneg : forall box, box ∈ boxes -> 0 ≤ box.level) {c : FlameComponent}
    (hc : c.maxHeight = 0) :
    Deepest boxes (boxes.foldl (v.place w) c) := by
  have hrun : (boxes = [] ∧ (boxes.foldl (v.place w) c).maxHeight = 0) ∨
      Deepest boxes (boxes.foldl (v.place w) c) := by
    apply Machine.run_history (fun boxes (c : FlameComponent) =>
      (boxes = [] ∧ c.maxHeight = 0) ∨ Deepest boxes c)
    · exact Or.inl ⟨rfl, hc⟩
    · intro before box hbegin hbefore
      have hbox : box ∈ boxes :=
        hbegin.subset (List.mem_append_right before List.mem_cons_self)
      right
      rcases hbefore with ⟨_, hzero⟩ | hdeepest
      · apply deepest_of_le
        rw [hzero]
        exact mul_nonneg (hnonneg box hbox) (by decide)
      · apply hdeepest.place
        intro box' hbox'
        exact hlevels box box' hbox
          (hbegin.subset (List.mem_append_left _ hbox'))
  rcases hrun with ⟨hnil, _⟩ | hdeepest
  · exact absurd hnil hne
  · exact hdeepest

/-!
## Every history
-/

theorem recalcPositions_currentRoot (c : FlameComponent) :
    (v.recalcPositions w c).currentRoot = c.currentRoot := by
  rw [recalcPositions_eq_placements]
  exact foldl_place_currentRoot _ _

/-- No recalculation leaves a component that can be scrolled to its end. -/
theorem recalcPositions_not_scrollable (h : v.tree.WellFormed)
    {c : FlameComponent} (hr : c.currentRoot < v.tree.size) (w : Int32) :
    ¬ Scrollable v (v.recalcPositions w c) := by
  rcases h.paths with ⟨path, hpaths⟩
  intro hscroll
  unfold Scrollable at hscroll
  rw [recalcPositions_currentRoot, recalcPositions_eq_placements] at hscroll
  have hlevel : forall box, box ∈ v.placements c.currentRoot ->
      box.level = (path box.node).length :=
    fun box hbox => level_of_mem_placements hpaths h.keys hr hbox
  have hdeepest : Deepest (v.placements c.currentRoot)
      ((v.placements c.currentRoot).foldl (v.place w)
        { c with maxHeight := 0 }) := by
    apply deepest_of_run (placements_ne_nil (Nat.zero_lt_of_lt hr))
    · intro box box' hbox hbox' hsame
      rw [hlevel box hbox, hlevel box' hbox', hsame]
    · intro box hbox
      rw [hlevel box hbox]
      exact Int.natCast_nonneg _
    · rfl
  rcases hdeepest with ⟨box, panel, hbox, hpanel, hy, hheight, _⟩
  have hle := hscroll box panel hbox hpanel
  rw [hy, hheight] at hle
  exact absurd hle (not_le_of_gt (Int.lt_add_of_pos_right _ (by decide)))

/-- The state between two events. -/
structure CutOff (v : FlameSource) (c : FlameComponent) : Prop where
  root_lt : c.currentRoot < v.tree.size
  not_scrollable : ¬ Scrollable v c

theorem cutOff_recalcPositions (h : v.tree.WellFormed) {c : FlameComponent}
    (hr : c.currentRoot < v.tree.size) (w : Int32) :
    CutOff v (v.recalcPositions w c) := by
  refine ⟨?_, recalcPositions_not_scrollable h hr w⟩
  rw [recalcPositions_currentRoot]
  exact hr

theorem CutOff.step (h : v.tree.WellFormed) {c : FlameComponent}
    (hc : CutOff v c) (event : FlameEvent v) : CutOff v (v.step c event) := by
  cases event with
  | click node width => exact cutOff_recalcPositions h node.isLt width
  | repaint width => exact cutOff_recalcPositions h hc.root_lt width

end FlameSource

/-- The bottom row is cut off in every tree, after every history. -/
theorem history_not_scrollable (samples : List CallTraceSampleInfo)
    (v : FlameSource) (hbuilt : FlameTree.ofSamples samples = Except.ok v.tree)
    (w : Int32) (events : List (FlameEvent v)) :
    ¬ Scrollable v (v.history w events) := by
  rcases ofSamples_spec (frames_of_ofSamples hbuilt) with ⟨t, hok, hwell, _⟩
  rw [hbuilt] at hok
  cases hok
  rcases hwell.paths with ⟨path, hpaths⟩
  have hstart : v.CutOff (v.construct w) :=
    FlameSource.cutOff_recalcPositions hwell hpaths.root_lt w
  have hlast : v.CutOff (v.history w events) :=
    Machine.run_invariant (fun _ event hc => hc.step hwell event) hstart events
  exact hlast.not_scrollable

theorem history_not_scrollable_twoStacks :
    exists node,
      ¬ Scrollable (FlameSource.ofSamples (twoStacks 3))
        ((FlameSource.ofSamples (twoStacks 3)).history 0
          [FlameEvent.click node 640, FlameEvent.repaint 800]) := by
  have hlt : 1 < (FlameSource.ofSamples (twoStacks 3)).tree.size := by decide
  exact ⟨⟨1, hlt⟩, history_not_scrollable (twoStacks 3) _ rfl 0
    [FlameEvent.click ⟨1, hlt⟩ 640, FlameEvent.repaint 800]⟩

/-- Two stacks fill two rows of which the component asks for one. -/
theorem not_scrollable_twoRows :
    ¬ Scrollable (FlameSource.ofSamples (twoStacks 3))
      ((FlameSource.ofSamples (twoStacks 3)).history 800 []) := by
  intro hscroll
  let c := (FlameSource.ofSamples (twoStacks 3)).history 800 []
  have hall : ((FlameSource.ofSamples (twoStacks 3)).placements
      c.currentRoot).all (fun box => (c.nodeToComp box.node).all (fun panel =>
        panel.bounds.y + panel.bounds.height ≤ c.getPreferredHeight)) =
          true := by
    rw [List.all_eq_true]
    intro box hbox
    rw [Option.all_eq_true_iff_get]
    intro hsome
    exact decide_eq_true (hscroll box _ hbox (Option.some_get hsome).symm)
  have hnone : ((FlameSource.ofSamples (twoStacks 3)).placements
      c.currentRoot).all (fun box => (c.nodeToComp box.node).all (fun panel =>
        panel.bounds.y + panel.bounds.height ≤ c.getPreferredHeight)) =
          false := by
    decide +kernel
  rw [hnone] at hall
  cases hall

end Plugin
end Franky

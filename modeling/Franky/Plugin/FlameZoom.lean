import Mathlib.Algebra.BigOperators.Ring.Finset
import Franky.Plugin.FlameBoxes

/-!
# Zooming in and out

After any clicks and repaints the panels show the subtree of the current root
over its ancestors, and nothing is left of what was shown before.
-/

namespace Franky
namespace Plugin

open Foundation
open Protocol

/-!
## Pixels
-/

theorem toPixels_eq_floor {q : Rat} (h : 0 ≤ q) (hle : q ≤ 2 ^ 31 - 1) :
    toPixels q = ⌊q⌋ := by
  have hdiv : q.num.tdiv q.den = ⌊q⌋ := by
    rw [Int.tdiv_eq_ediv_of_nonneg (Rat.num_nonneg.mpr h), Rat.floor_def']
  have hlow : 0 ≤ ⌊q⌋ := Int.floor_nonneg.mpr h
  have hhigh : ⌊q⌋ ≤ 2 ^ 31 - 1 := by
    have hcast : ((⌊q⌋ : Int) : Rat) ≤ ((2 ^ 31 - 1 : Int) : Rat) := by
      exact_mod_cast (Int.floor_le q).trans hle
    exact Int.cast_le.mp hcast
  rw [toPixels, hdiv]
  lia

/-- The pixels that a panel covers. -/
def Bounds.Covers (bounds : Bounds) (x y : Int) : Prop :=
  (bounds.x ≤ x ∧ x < bounds.x + bounds.width) ∧
    (bounds.y ≤ y ∧ y < bounds.y + bounds.height)

theorem Bounds.not_covers_zero (x y : Int) :
    Not (Bounds.zero.Covers x y) := by
  intro hcovers
  rcases hcovers with ⟨⟨hx, hx'⟩, _⟩
  simp only [Bounds.zero] at hx hx'
  lia

def Bounds.Visible (bounds : Bounds) : Prop :=
  0 < bounds.width ∧ 0 < bounds.height

def Box.bounds (box : Box) (parentWidth : Int32) : Bounds :=
  ComponentCoord.bounds
    { x := box.begin, width := box.width, level := box.level,
      parentWidth := parentWidth }

/-- The box is a part of the component's width. -/
structure Box.Within (box : Box) : Prop where
  left : 0 ≤ box.begin
  width_pos : 0 < box.width
  right : box.begin + box.width ≤ 1

theorem toPixels_fraction {a : Rat} (h : 0 ≤ a) (hle : a ≤ 1) {w : Int32}
    (hw : 0 < w.toInt) : toPixels (a * w.toInt) = ⌊a * w.toInt⌋ := by
  have hpos : (0 : Rat) ≤ (w.toInt : Rat) :=
    Int.cast_nonneg (le_of_lt hw)
  have hmax : (w.toInt : Rat) ≤ 2 ^ 31 - 1 := by
    have hlt : w.toInt ≤ 2 ^ 31 - 1 := by
      have hbound := w.toInt_lt
      lia
    have hcast : (w.toInt : Rat) ≤ ((2 ^ 31 - 1 : Int) : Rat) :=
      Int.cast_le.mpr hlt
    exact_mod_cast hcast
  apply toPixels_eq_floor
  · exact mul_nonneg h hpos
  · exact (mul_le_of_le_one_left hpos hle).trans hmax

namespace Box.Within

variable {box box' : Box} {w : Int32}

theorem bounds_x (h : box.Within) (hw : 0 < w.toInt) :
    (box.bounds w).x = ⌊box.begin * w.toInt⌋ := by
  apply toPixels_fraction h.left _ hw
  linarith [h.width_pos, h.right]

theorem bounds_width (h : box.Within) (hw : 0 < w.toInt) :
    (box.bounds w).width = ⌊box.width * w.toInt⌋ := by
  apply toPixels_fraction (le_of_lt h.width_pos) _ hw
  linarith [h.left, h.right]

theorem apart (h : box.Within) (h' : box'.Within) (hw : 0 < w.toInt)
    (hbefore : box.Before box') (x y : Int) :
    Not ((box.bounds w).Covers x y ∧ (box'.bounds w).Covers x y) := by
  intro hcovers
  rcases hcovers with ⟨⟨hx, hy⟩, ⟨hx', hy'⟩⟩
  have hlevel : box.level = box'.level := by
    simp only [bounds, ComponentCoord.bounds, ComponentCoord.getY,
      ComponentCoord.getHeight, frameHeight] at hy hy'
    lia
  have hends : box.begin * w.toInt + box.width * w.toInt ≤
      box'.begin * w.toInt := by
    rw [← add_mul]
    apply mul_le_mul_of_nonneg_right (hbefore.right hlevel)
    exact Int.cast_nonneg (le_of_lt hw)
  have hpixels := Subdivision.floor_add_floor_le hends
  rw [h.bounds_x hw, h.bounds_width hw] at hx
  rw [h'.bounds_x hw] at hx'
  lia

end Box.Within

/-!
## Placing the boxes
-/

namespace FlameSource

variable {v : FlameSource} {path : Nat -> List Int64} {w : Int32}

theorem exists_box_or_none (boxes : List Box) (i : Nat) :
    (exists box, box ∈ boxes ∧ box.node = i) ∨
      forall box, box ∈ boxes -> box.node ≠ i := by
  rw [or_iff_not_imp_left]
  intro hnone box hbox hnode
  exact hnone ⟨box, hbox, hnode⟩

/-- The panel of a box, which keeps the rest of the panel that was there. -/
def placed (v : FlameSource) (w : Int32) (old : Option FrameComponent)
    (box : Box) : FrameComponent :=
  { old.getD (v.makeFrameComponent box.node box.width) with
    collapsed := box.collapsed
    bounds := box.bounds w }

theorem foldl_place_currentRoot (boxes : List Box) (c : FlameComponent) :
    (boxes.foldl (v.place w) c).currentRoot = c.currentRoot := by
  induction boxes generalizing c with
  | nil => rfl
  | cons box boxes ih => exact ih _

theorem foldl_place_other {boxes : List Box} {i : Nat}
    (h : forall box, box ∈ boxes -> box.node ≠ i) (c : FlameComponent) :
    (boxes.foldl (v.place w) c).nodeToComp i = c.nodeToComp i := by
  induction boxes generalizing c with
  | nil => rfl
  | cons box boxes ih =>
      rw [List.foldl_cons,
        ih (fun box' hbox' => h box' (List.mem_cons_of_mem box hbox'))]
      exact Function.update_of_ne (h box List.mem_cons_self).symm _ _

theorem foldl_place_mem {boxes : List Box}
    (h : boxes.Pairwise Box.Before) {box : Box} (hbox : box ∈ boxes)
    (c : FlameComponent) :
    (boxes.foldl (v.place w) c).nodeToComp box.node =
      some (v.placed w (c.nodeToComp box.node) box) := by
  induction boxes generalizing c with
  | nil => cases hbox
  | cons first boxes ih =>
      rcases List.pairwise_cons.mp h with ⟨hfirst, hrest⟩
      rw [List.foldl_cons]
      rcases List.mem_cons.mp hbox with rfl | hbox
      · rw [foldl_place_other
          (fun box' hbox' => (hfirst box' hbox').left.symm)]
        exact Function.update_self _ _ _
      · rw [ih hrest hbox]
        have hsame : (v.place w c first).nodeToComp box.node =
            c.nodeToComp box.node :=
          Function.update_of_ne (hfirst box hbox).left.symm _ _
        rw [hsame]

/-!
## Laying out the component
-/

theorem Measured.recalcPositions_cases (h : v.Measured path)
    {c : FlameComponent} (hroot : c.currentRoot < v.tree.size) (w : Int32)
    (i : Nat) :
    (exists box, box ∈ v.layout c.currentRoot ∧ box.node = i ∧
      (v.recalcPositions w c).nodeToComp i =
        some (v.placed w (c.nodeToComp i) box)) ∨
    ((forall box, box ∈ v.layout c.currentRoot -> box.node ≠ i) ∧
      (v.recalcPositions w c).nodeToComp i = c.nodeToComp i) := by
  rw [h.recalcPositions_eq w hroot]
  rcases exists_box_or_none (v.layout c.currentRoot) i with
    ⟨box, hbox, rfl⟩ | hnone
  · left
    exact ⟨box, hbox, rfl, foldl_place_mem (h.layout_pairwise hroot) hbox _⟩
  · right
    exact ⟨hnone, foldl_place_other hnone _⟩

theorem Measured.recalcPositions_currentRoot (h : v.Measured path)
    {c : FlameComponent} (hroot : c.currentRoot < v.tree.size) (w : Int32) :
    (v.recalcPositions w c).currentRoot = c.currentRoot := by
  rw [h.recalcPositions_eq w hroot]
  exact foldl_place_currentRoot _ _

/-- There is a panel for each node, which keeps the share of the whole that the
node has. -/
structure Filled (v : FlameSource) (c : FlameComponent) : Prop where
  root_lt : c.currentRoot < v.tree.size
  panels : forall i, (exists panel, c.nodeToComp i = some panel) <->
    i < v.tree.size
  percentage : forall i panel, c.nodeToComp i = some panel ->
    panel.percentage = v.cost i / v.cost 0

/-- Only the layout of the current root is shown. -/
structure Laid (v : FlameSource) (w : Int32) (c : FlameComponent) : Prop where
  filled : v.Filled c
  placed : forall box, box ∈ v.layout c.currentRoot ->
    forall panel, c.nodeToComp box.node = some panel ->
      panel.collapsed = box.collapsed ∧ panel.bounds = box.bounds w
  hidden : forall i, (forall box, box ∈ v.layout c.currentRoot ->
      box.node ≠ i) ->
    forall panel, c.nodeToComp i = some panel -> panel.bounds = Bounds.zero

/-- Whatever was placed before, the layout is shown afterwards, and nothing else
is when the panels outside it were empty. -/
theorem Measured.recalcPositions_laid (h : v.Measured path)
    {c : FlameComponent} (hroot : c.currentRoot < v.tree.size)
    (hfilled : v.Filled (v.recalcPositions w c))
    (hhidden : forall i, (forall box, box ∈ v.layout c.currentRoot ->
        box.node ≠ i) ->
      forall panel, c.nodeToComp i = some panel ->
        panel.bounds = Bounds.zero) :
    v.Laid w (v.recalcPositions w c) := by
  have hcurrent := h.recalcPositions_currentRoot hroot w
  constructor
  · exact hfilled
  · intro box hbox panel hpanel
    rw [hcurrent] at hbox
    have hbefore := (h.layout_pairwise hroot)
    rw [h.recalcPositions_eq w hroot, foldl_place_mem hbefore hbox] at hpanel
    cases hpanel
    exact ⟨rfl, rfl⟩
  · intro i hi panel hpanel
    rw [hcurrent] at hi
    rw [h.recalcPositions_eq w hroot, foldl_place_other hi] at hpanel
    exact hhidden i hi panel hpanel

theorem Measured.recalcPositions_filled (h : v.Measured path)
    {c : FlameComponent} (hc : v.Filled c) (w : Int32) :
    v.Filled (v.recalcPositions w c) := by
  constructor
  · rw [h.recalcPositions_currentRoot hc.root_lt]
    exact hc.root_lt
  · intro i
    rw [← hc.panels i]
    rcases h.recalcPositions_cases hc.root_lt w i with
      ⟨box, hbox, rfl, hpanel⟩ | ⟨_, hpanel⟩
    · have hlt := (h.level_of_mem_layout hc.root_lt hbox).left
      exact iff_of_true ⟨_, hpanel⟩ ((hc.panels _).mpr hlt)
    · rw [hpanel]
  · intro i panel hpanel
    rcases h.recalcPositions_cases hc.root_lt w i with
      ⟨box, hbox, rfl, hplaced⟩ | ⟨_, hsame⟩
    · have hlt := (h.level_of_mem_layout hc.root_lt hbox).left
      rcases (hc.panels _).mpr hlt with ⟨old, hold⟩
      rw [hplaced, hold] at hpanel
      cases hpanel
      exact hc.percentage _ old hold
    · rw [hsame] at hpanel
      exact hc.percentage i panel hpanel

/-!
## Histories
-/

theorem Measured.construct_cases (h : v.Measured path) (w : Int32) (i : Nat) :
    (exists box, box ∈ v.layout 0 ∧ box.node = i ∧
      (v.construct w).nodeToComp i = some (v.placed w none box)) ∨
    (v.tree.size ≤ i ∧ (v.construct w).nodeToComp i = none) := by
  have hroot := h.paths.root_lt
  rcases h.recalcPositions_cases (c := FlameComponent.empty) hroot w i with
    hplaced | ⟨hnone, hpanel⟩
  · exact Or.inl hplaced
  · right
    constructor
    · apply Nat.le_of_not_lt
      intro hi
      rcases h.exists_mem_layout hroot hi
          (Or.inr ⟨path i, h.paths.follow_path hi rfl⟩) with
        ⟨box, hbox, hnode⟩
      exact hnone box hbox hnode
    · exact hpanel

theorem Measured.construct_laid (h : v.Measured path) (w : Int32) :
    v.Laid w (v.construct w) := by
  have hroot := h.paths.root_lt
  apply h.recalcPositions_laid (c := FlameComponent.empty) hroot
  · constructor
    · rw [h.recalcPositions_currentRoot (c := FlameComponent.empty) hroot]
      exact hroot
    · intro i
      rcases h.construct_cases w i with ⟨box, hbox, rfl, hpanel⟩ | ⟨hi, hpanel⟩
      · have hlt := (h.level_of_mem_layout hroot hbox).left
        exact iff_of_true ⟨_, hpanel⟩ hlt
      · apply iff_of_false _ (Nat.not_lt.mpr hi)
        intro hsome
        rcases hsome with ⟨panel, hsome⟩
        exact absurd (hpanel.symm.trans hsome) (Option.some_ne_none panel).symm
    · intro i panel hpanel
      rcases h.construct_cases w i with ⟨box, hbox, rfl, hplaced⟩ | ⟨_, hnone⟩
      · rw [← construct, hplaced] at hpanel
        cases hpanel
        rcases h.mem_layout_cases hroot hbox with habove | hbelow
        · exact absurd habove.lt (Nat.not_lt_zero _)
        · exact hbelow.width_eq.trans (one_mul _)
      · rw [← construct, hnone] at hpanel
        cases hpanel
  · intro i _ panel hpanel
    cases hpanel

theorem Measured.repaint_laid (h : v.Measured path) {c : FlameComponent}
    {w : Int32} (hc : v.Laid w c) (width : Int32) :
    v.Laid width (v.recalcPositions width c) :=
  h.recalcPositions_laid hc.filled.root_lt
    (h.recalcPositions_filled hc.filled width) hc.hidden

theorem Measured.click_laid (h : v.Measured path) {c : FlameComponent}
    (hc : v.Filled c) (node : Fin v.tree.size) (width : Int32) :
    v.Laid width (v.resetNode width c node) := by
  apply h.recalcPositions_laid node.isLt
  · apply h.recalcPositions_filled
    constructor
    · exact node.isLt
    · intro i
      rw [← hc.panels i]
      simp
    · intro i panel hpanel
      rcases Option.map_eq_some_iff.mp hpanel with ⟨old, hold, rfl⟩
      exact hc.percentage i old hold
  · intro i _ panel hpanel
    rcases Option.map_eq_some_iff.mp hpanel with ⟨old, _, rfl⟩
    rfl

end FlameSource

/-- The node that is current after an event. -/
def FlameEvent.rootAfter {v : FlameSource} (r : Nat) : FlameEvent v -> Nat
  | FlameEvent.click node _ => node
  | FlameEvent.repaint _ => r

def FlameEvent.width {v : FlameSource} : FlameEvent v -> Int32
  | FlameEvent.click _ width => width
  | FlameEvent.repaint width => width

/-- The node clicked last, or else the one that was current before. -/
def lastRoot {v : FlameSource} (r : Nat) (events : List (FlameEvent v)) : Nat :=
  events.foldl FlameEvent.rootAfter r

def lastWidth {v : FlameSource} (w : Int32) (events : List (FlameEvent v)) :
    Int32 :=
  events.foldl (fun _ event => event.width) w

/-- A component after a history, which begins with its construction. -/
def FlameSource.history (v : FlameSource) (w : Int32)
    (events : List (FlameEvent v)) : FlameComponent :=
  Machine.run v.step (v.construct w) events

namespace FlameSource

variable {v : FlameSource} {path : Nat -> List Int64} {w : Int32}

theorem Measured.step_laid (h : v.Measured path) {c : FlameComponent}
    (hc : v.Laid w c) (event : FlameEvent v) :
    v.Laid event.width (v.step c event) ∧
      (v.step c event).currentRoot = event.rootAfter c.currentRoot := by
  cases event with
  | click node width =>
      exact ⟨h.click_laid hc.filled node width,
        h.recalcPositions_currentRoot node.isLt width⟩
  | repaint width =>
      exact ⟨h.repaint_laid hc width,
        h.recalcPositions_currentRoot hc.filled.root_lt width⟩

theorem Measured.run_laid (h : v.Measured path) {c : FlameComponent}
    (hc : v.Laid w c) (events : List (FlameEvent v)) :
    v.Laid (lastWidth w events) (Machine.run v.step c events) ∧
      (Machine.run v.step c events).currentRoot =
        lastRoot c.currentRoot events := by
  induction events generalizing c w with
  | nil => exact ⟨hc, rfl⟩
  | cons event events ih =>
      rcases h.step_laid hc event with ⟨hstep, hroot⟩
      rcases ih hstep with ⟨hlaid, hlast⟩
      rw [hroot] at hlast
      exact ⟨hlaid, hlast⟩

theorem Measured.history_laid (h : v.Measured path) (w : Int32)
    (events : List (FlameEvent v)) :
    v.Laid (lastWidth w events) (v.history w events) ∧
      (v.history w events).currentRoot = lastRoot 0 events := by
  rcases h.run_laid (h.construct_laid w) events with ⟨hlaid, hroot⟩
  have hconstruct : (v.construct w).currentRoot = 0 :=
    h.recalcPositions_currentRoot (c := FlameComponent.empty) h.paths.root_lt w
  rw [hconstruct] at hroot
  exact ⟨hlaid, hroot⟩

end FlameSource

/-!
## What is shown

The ancestors of the current root are shown collapsed, each alone on its level.
Below them the subtree is shown, and every other panel is empty.
-/

/-- Node `i` is an ancestor of node `j`, or `j` itself. -/
def FlameTree.Leads (t : FlameTree) (i j : Nat) : Prop :=
  exists p, t.shape.follow i p = some j

/-- A component of width `w` that shows the node `r`. -/
structure Zoomed (v : FlameSource) (r : Nat) (w : Int32) (c : FlameComponent) :
    Prop where
  current : c.currentRoot = r
  panels : forall i, (exists panel, c.nodeToComp i = some panel) <->
    i < v.tree.size
  ancestor : forall i panel, c.nodeToComp i = some panel ->
    v.tree.Leads i r -> i ≠ r ->
      panel.collapsed = true ∧ panel.bounds.x = 0 ∧
        panel.bounds.width = w.toInt ∧ panel.bounds.height = frameHeight
  alone : forall i panel, c.nodeToComp i = some panel ->
    v.tree.Leads i r -> i ≠ r ->
      forall j other, c.nodeToComp j = some other -> j ≠ i ->
        other.bounds.Visible -> other.bounds.y ≠ panel.bounds.y
  subtree : forall i panel, c.nodeToComp i = some panel -> v.tree.Leads r i ->
    panel.collapsed = false ∧
      panel.bounds.width = ⌊(w.toInt : Rat) * (v.cost i / v.cost r)⌋ ∧
      panel.bounds.height = frameHeight
  level : forall i panel, c.nodeToComp i = some panel ->
    v.tree.Leads i r ∨ v.tree.Leads r i ->
      forall p, v.tree.shape.SpellsUp i p ->
        panel.bounds.y = p.length * frameHeight
  hidden : forall i panel, c.nodeToComp i = some panel ->
    Not (v.tree.Leads i r) -> Not (v.tree.Leads r i) ->
      panel.bounds.width = 0 ∧ panel.bounds.height = 0
  apart : forall i j panel other, c.nodeToComp i = some panel ->
    c.nodeToComp j = some other -> i ≠ j ->
      forall x y, Not (panel.bounds.Covers x y ∧ other.bounds.Covers x y)
  percentage : forall i panel, c.nodeToComp i = some panel ->
    panel.percentage = v.cost i / v.cost 0

namespace FlameSource

variable {v : FlameSource} {path : Nat -> List Int64} {w : Int32}
  {c : FlameComponent}

theorem Measured.within_of_mem_layout (h : v.Measured path) {r : Nat}
    (hr : r < v.tree.size) {box : Box} (hbox : box ∈ v.layout r) :
    box.Within := by
  rcases h.mem_layout_cases hr hbox with habove | hbelow
  · constructor
    · rw [habove.begin_eq]
    · rw [habove.width_eq]
      exact one_pos
    · rw [habove.begin_eq, habove.width_eq, zero_add]
  · rcases hbelow.reached with ⟨q, hq, _⟩
    have hlt := (h.paths.path_of_follow hr hq).left
    constructor
    · exact hbelow.left
    · rw [hbelow.width_eq, one_mul]
      exact div_pos (h.positive _ hlt) (h.positive r hr)
    · simpa using hbelow.right

theorem Measured.before_or_before (h : v.Measured path) {r : Nat}
    (hr : r < v.tree.size) {box box' : Box} (hbox : box ∈ v.layout r)
    (hbox' : box' ∈ v.layout r) (hne : box.node ≠ box'.node) :
    box.Before box' ∨ box'.Before box := by
  have hpairs : (v.layout r).Pairwise
      (fun box box' => box.Before box' ∨ box'.Before box) :=
    (h.layout_pairwise hr).imp Or.inl
  have hsymm : Std.Symm
      (fun box box' : Box => box.Before box' ∨ box'.Before box) :=
    ⟨fun _ _ hor => hor.symm⟩
  apply hpairs.forall hbox hbox'
  intro hsame
  exact hne (congrArg Box.node hsame)

theorem Measured.level_ne_of_full (h : v.Measured path) {r : Nat}
    (hr : r < v.tree.size) {box box' : Box} (hbox : box ∈ v.layout r)
    (hbox' : box' ∈ v.layout r) (hne : box.node ≠ box'.node)
    (hbegin : box.begin = 0) (hwidth : box.width = 1) :
    box'.level ≠ box.level := by
  intro hlevel
  have hwithin' := h.within_of_mem_layout hr hbox'
  rcases h.before_or_before hr hbox hbox' hne with hbefore | hbefore
  · have hends := hbefore.right hlevel.symm
    linarith [hwithin'.width_pos, hwithin'.right]
  · have hends := hbefore.right hlevel
    linarith [hwithin'.left, hwithin'.width_pos]

theorem Laid.panel_cases (hc : v.Laid w c) {i : Nat} {panel : FrameComponent}
    (hpanel : c.nodeToComp i = some panel) :
    (exists box, box ∈ v.layout c.currentRoot ∧ box.node = i ∧
      panel.collapsed = box.collapsed ∧ panel.bounds = box.bounds w) ∨
    ((forall box, box ∈ v.layout c.currentRoot -> box.node ≠ i) ∧
      panel.bounds = Bounds.zero) := by
  rcases exists_box_or_none (v.layout c.currentRoot) i with
    ⟨box, hbox, rfl⟩ | hnone
  · left
    exact ⟨box, hbox, rfl, hc.placed box hbox panel hpanel⟩
  · right
    exact ⟨hnone, hc.hidden i hnone panel hpanel⟩

theorem Measured.exists_box (h : v.Measured path) (hc : v.Laid w c) {i : Nat}
    {panel : FrameComponent} (hpanel : c.nodeToComp i = some panel)
    (hi : v.tree.Leads i c.currentRoot ∨ v.tree.Leads c.currentRoot i) :
    exists box, box ∈ v.layout c.currentRoot ∧ box.node = i ∧
      panel.collapsed = box.collapsed ∧ panel.bounds = box.bounds w := by
  have hlt := (hc.filled.panels i).mp ⟨panel, hpanel⟩
  rcases h.exists_mem_layout hc.filled.root_lt hlt hi with ⟨box, hbox, rfl⟩
  exact ⟨box, hbox, rfl, hc.placed box hbox panel hpanel⟩

theorem Measured.above_of_ancestor (h : v.Measured path) {r : Nat}
    (hr : r < v.tree.size) {box : Box} (hbox : box ∈ v.layout r)
    (hi : v.tree.Leads box.node r) (hne : box.node ≠ r) :
    Measured.Above v r (path r).length box := by
  rcases h.mem_layout_cases hr hbox with habove | hbelow
  · exact habove
  · rcases hi with ⟨p, hp⟩
    rcases hbelow.reached with ⟨q, hq, _⟩
    have hlt := (h.paths.path_of_follow hr hq).left
    have hsame := Nat.le_antisymm (h.le_of_follow hlt hp) (h.le_of_follow hr hq)
    exact absurd hsame hne

theorem Measured.below_of_subtree (h : v.Measured path) {r : Nat}
    (hr : r < v.tree.size) {box : Box} (hbox : box ∈ v.layout r)
    (hi : v.tree.Leads r box.node) :
    Measured.Below v r 0 1 (path r).length box := by
  rcases h.mem_layout_cases hr hbox with habove | hbelow
  · rcases hi with ⟨p, hp⟩
    exact absurd (h.le_of_follow hr hp) (Nat.not_le.mpr habove.lt)
  · exact hbelow

theorem Measured.ancestor_panel (h : v.Measured path) (hc : v.Laid w c)
    (hw : 0 < w.toInt) {i : Nat} {panel : FrameComponent}
    (hpanel : c.nodeToComp i = some panel)
    (hi : v.tree.Leads i c.currentRoot) (hne : i ≠ c.currentRoot) :
    panel.collapsed = true ∧ panel.bounds.x = 0 ∧
      panel.bounds.width = w.toInt ∧ panel.bounds.height = frameHeight := by
  have hr := hc.filled.root_lt
  rcases h.exists_box hc hpanel (Or.inl hi) with
    ⟨box, hbox, rfl, hcollapsed, hbounds⟩
  have habove := h.above_of_ancestor hr hbox hi hne
  have hwithin := h.within_of_mem_layout hr hbox
  rw [hcollapsed, hbounds]
  constructor
  · exact habove.collapsed
  constructor
  · rw [hwithin.bounds_x hw, habove.begin_eq]
    simp
  constructor
  · rw [hwithin.bounds_width hw, habove.width_eq]
    simp
  · rfl

theorem Measured.ancestor_alone (h : v.Measured path) (hc : v.Laid w c)
    {i : Nat} {panel : FrameComponent} (hpanel : c.nodeToComp i = some panel)
    (hi : v.tree.Leads i c.currentRoot) (hne : i ≠ c.currentRoot) {j : Nat}
    {other : FrameComponent} (hother : c.nodeToComp j = some other)
    (hji : j ≠ i) (hvisible : other.bounds.Visible) :
    other.bounds.y ≠ panel.bounds.y := by
  have hr := hc.filled.root_lt
  rcases h.exists_box hc hpanel (Or.inl hi) with ⟨box, hbox, rfl, _, hbounds⟩
  have habove := h.above_of_ancestor hr hbox hi hne
  rcases hc.panel_cases hother with ⟨box', hbox', rfl, _, hbounds'⟩ | ⟨_, hzero⟩
  · have hlevel := h.level_ne_of_full hr hbox hbox' hji.symm habove.begin_eq
      habove.width_eq
    rw [hbounds, hbounds']
    simp only [Box.bounds, ComponentCoord.bounds, ComponentCoord.getY,
      frameHeight]
    lia
  · rw [hzero] at hvisible
    exact absurd hvisible.left (lt_irrefl 0)

theorem Measured.panels_apart (h : v.Measured path) (hc : v.Laid w c)
    (hw : 0 < w.toInt) {i j : Nat} {panel other : FrameComponent}
    (hpanel : c.nodeToComp i = some panel)
    (hother : c.nodeToComp j = some other) (hij : i ≠ j) (x y : Int) :
    Not (panel.bounds.Covers x y ∧ other.bounds.Covers x y) := by
  intro hcovers
  have hr := hc.filled.root_lt
  rcases hc.panel_cases hpanel with ⟨box, hbox, rfl, _, hbounds⟩ | ⟨_, hzero⟩
  · rcases hc.panel_cases hother with ⟨box', hbox', rfl, _, hbounds'⟩ | ⟨_, hzero⟩
    · have hwithin := h.within_of_mem_layout hr hbox
      have hwithin' := h.within_of_mem_layout hr hbox'
      rw [hbounds, hbounds'] at hcovers
      rcases h.before_or_before hr hbox hbox' hij with hbefore | hbefore
      · exact hwithin.apart hwithin' hw hbefore x y hcovers
      · exact hwithin'.apart hwithin hw hbefore x y hcovers.symm
    · rw [hzero] at hcovers
      exact Bounds.not_covers_zero x y hcovers.right
  · rw [hzero] at hcovers
    exact Bounds.not_covers_zero x y hcovers.left

/-- What is laid out at a width of at least one pixel shows the current
root. -/
theorem Measured.zoomed (h : v.Measured path) (hc : v.Laid w c)
    (hw : 0 < w.toInt) : Zoomed v c.currentRoot w c where
  current := rfl
  panels := hc.filled.panels
  ancestor := fun _ _ hpanel hi hne => h.ancestor_panel hc hw hpanel hi hne
  alone := fun _ _ hpanel hi hne _ _ hother hji hvisible =>
    h.ancestor_alone hc hpanel hi hne hother hji hvisible
  subtree := by
    intro i panel hpanel hi
    have hr := hc.filled.root_lt
    rcases h.exists_box hc hpanel (Or.inr hi) with
      ⟨box, hbox, rfl, hcollapsed, hbounds⟩
    have hbelow := h.below_of_subtree hr hbox hi
    rw [hcollapsed, hbounds]
    constructor
    · exact hbelow.expanded
    constructor
    · rw [(h.within_of_mem_layout hr hbox).bounds_width hw, hbelow.width_eq,
        one_mul, mul_comm]
    · rfl
  level := by
    intro i panel hpanel hi p hup
    rcases h.exists_box hc hpanel hi with ⟨box, hbox, rfl, _, hbounds⟩
    rcases h.level_of_mem_layout hc.filled.root_lt hbox with ⟨hlt, hlevel⟩
    rw [hbounds, h.paths.eq_path_of_spellsUp hlt hup, ← hlevel]
    rfl
  hidden := by
    intro i panel hpanel habove hbelow
    rcases hc.panel_cases hpanel with ⟨box, hbox, rfl, _, _⟩ | ⟨_, hzero⟩
    · rcases h.mem_layout_cases hc.filled.root_lt hbox with hup | hdown
      · rcases hup.reached with ⟨q, _, hq, _⟩
        exact absurd ⟨q, hq⟩ habove
      · rcases hdown.reached with ⟨q, hq, _⟩
        exact absurd ⟨q, hq⟩ hbelow
    · rw [hzero]
      exact ⟨rfl, rfl⟩
  apart := fun _ _ _ _ hpanel hother hij =>
    h.panels_apart hc hw hpanel hother hij
  percentage := hc.filled.percentage

theorem Laid.bounds_eq {c' : FlameComponent} (hc : v.Laid w c)
    (hc' : v.Laid w c') (hroot : c'.currentRoot = c.currentRoot) {i : Nat}
    {panel panel' : FrameComponent} (hpanel : c.nodeToComp i = some panel)
    (hpanel' : c'.nodeToComp i = some panel') :
    panel'.bounds = panel.bounds := by
  rcases hc.panel_cases hpanel with ⟨box, hbox, rfl, _, hbounds⟩ | ⟨hnone, hzero⟩
  · rw [← hroot] at hbox
    rw [(hc'.placed box hbox panel' hpanel').right, hbounds]
  · rw [← hroot] at hnone
    rw [hc'.hidden i hnone panel' hpanel', hzero]

/-- A tree of samples that all count something can be laid out, when their total
fits in an `Int`. -/
theorem measured_of_samples {samples : List CallTraceSampleInfo}
    (hbuilt : FlameTree.ofSamples samples = Except.ok v.tree)
    (hne : samples ≠ [])
    (hcounts : forall sample, sample ∈ samples -> 0 < sample.callCount.toInt)
    (htotal : totalCount samples < 2 ^ 31) : exists path, v.Measured path := by
  rcases ofSamples_spec (frames_of_ofSamples hbuilt) with
    ⟨t, hok, hwell, hcostAt⟩
  rw [hbuilt] at hok
  cases hok
  have hnonneg := fun sample hmem => le_of_lt (hcounts sample hmem)
  have hmerges := hwell.merges hcostAt
  have hcosts := hmerges.costsExact ⟨hnonneg, htotal⟩
  rcases hwell.paths with ⟨path, hpaths⟩
  refine ⟨path, hpaths, hwell.keys, ?_, ?_⟩
  · intro i hi
    exact Int.cast_pos.mpr
      (hcosts.cost_pos hmerges hne hcounts (hpaths.follow_path hi rfl))
  · intro i hi
    have hsum := hcosts.sum_children_le hnonneg hpaths hwell.keys hi
    have hperm := ((v.order_perm i).map v.cost).sum_eq
    have hcast : (((v.tree.node i).children.map Prod.snd).map v.cost).sum =
        ((((v.tree.node i).children.map
          (fun child => (v.tree.node child.2).cost.toInt)).sum : Int) :
            Rat) := by
      rw [List.map_map, Int.cast_list_sum, List.map_map]
      rfl
    rw [hperm, hcast]
    exact Int.cast_le.mpr hsum

end FlameSource

/-- The flame graph of samples that count something, in a total that fits in an
`Int`, shows after any clicks and repaints the node clicked last, at the last
width.  What it shows does not depend on what was shown before. -/
theorem zoomed_of_history (samples : List CallTraceSampleInfo)
    (v : FlameSource) (hbuilt : FlameTree.ofSamples samples = Except.ok v.tree)
    (hne : samples ≠ [])
    (hcounts : forall sample, sample ∈ samples -> 0 < sample.callCount.toInt)
    (htotal : totalCount samples < 2 ^ 31) (w : Int32)
    (events : List (FlameEvent v)) (hw : 0 < (lastWidth w events).toInt) :
    Zoomed v (lastRoot 0 events) (lastWidth w events) (v.history w events) ∧
      forall w' (events' : List (FlameEvent v)),
        lastRoot 0 events' = lastRoot 0 events ->
        lastWidth w' events' = lastWidth w events ->
          forall i panel panel',
            (v.history w events).nodeToComp i = some panel ->
            (v.history w' events').nodeToComp i = some panel' ->
              panel'.bounds = panel.bounds := by
  rcases FlameSource.measured_of_samples hbuilt hne hcounts htotal with
    ⟨path, h⟩
  rcases h.history_laid w events with ⟨hlaid, hroot⟩
  constructor
  · rw [← hroot]
    exact h.zoomed hlaid hw
  · intro w' events' hsameRoot hsameWidth i panel panel' hpanel hpanel'
    rcases h.history_laid w' events' with ⟨hlaid', hroot'⟩
    rw [hsameWidth] at hlaid'
    apply hlaid.bounds_eq hlaid' _ hpanel hpanel'
    rw [hroot', hsameRoot, hroot]

/-- A component without method names, whose children are met in the order of
their creation. -/
def FlameSource.ofSamples (samples : List CallTraceSampleInfo) :
    FlameSource where
  tree := (FlameTree.ofSamples samples).toOption.getD FlameTree.empty
  frameFactory := fun _ => none
  order := fun i =>
    (((FlameTree.ofSamples samples).toOption.getD FlameTree.empty).node
      i).children.map Prod.snd
  order_perm := fun _ => List.Perm.refl _

def twoStacks (callCount : Int32) : List CallTraceSampleInfo :=
  [{ callCount := callCount, frameList := [{ bci := 0, jMethodId := 1 }] },
    { callCount := callCount, frameList := [{ bci := 0, jMethodId := 2 }] }]

theorem zoomed_twoStacks :
    exists node,
      Zoomed (FlameSource.ofSamples (twoStacks 3)) 1 800
        ((FlameSource.ofSamples (twoStacks 3)).history 0
          [FlameEvent.click node 640, FlameEvent.repaint 800]) := by
  have hlt : 1 < (FlameSource.ofSamples (twoStacks 3)).tree.size := by decide
  have hw : 0 < (800 : Int32).toInt := by decide
  exact ⟨⟨1, hlt⟩, (zoomed_of_history (twoStacks 3) _ rfl (by decide)
    (by decide) (by decide) 0
    [FlameEvent.click ⟨1, hlt⟩ 640, FlameEvent.repaint 800] hw).left⟩

/-- When the total overflows, the root's cost is negative and its children have
no panels. -/
theorem not_zoomed_overflow :
    exists samples : List CallTraceSampleInfo, exists v : FlameSource,
      FlameTree.ofSamples samples = Except.ok v.tree ∧ samples ≠ [] ∧
        (forall sample, sample ∈ samples -> 0 < sample.callCount.toInt) ∧
        (exists i, v.tree.Leads 0 i ∧
          (v.history 800 [FlameEvent.repaint 800]).nodeToComp i = none) ∧
        Not (Zoomed v 0 800 (v.history 800 [FlameEvent.repaint 800])) := by
  have hnone : ((FlameSource.ofSamples (twoStacks 2147483647)).history 800
      [FlameEvent.repaint 800]).nodeToComp 1 = none := by
    decide +kernel
  refine ⟨twoStacks 2147483647,
    FlameSource.ofSamples (twoStacks 2147483647), rfl, by decide, by decide,
    ⟨1, ⟨[1], by decide⟩, hnone⟩, ?_⟩
  intro hzoomed
  have hlt : 1 < (FlameSource.ofSamples (twoStacks 2147483647)).tree.size := by
    decide
  rcases (hzoomed.panels 1).mpr hlt with ⟨panel, hpanel⟩
  rw [hnone] at hpanel
  cases hpanel

end Plugin
end Franky

import Franky.Foundation.Subdivision
import Franky.Plugin.FlameComponent

/-!
# The boxes of a flame graph

Laying out the component places one box after another: first one for each
ancestor of the current root, on the way up, then those of the subtree below it.
The boxes are described here as lists, apart from the panels that they are given
to.
-/

namespace Franky
namespace Plugin

open Foundation

/-- Where a node is placed, in fractions of the width of the component. -/
structure Box where
  node : Nat
  begin : Rat
  width : Rat
  level : Int
  collapsed : Bool

/-- The left box comes first: it is another node's, and ends before the right
one begins where they share a level. -/
def Box.Before (box box' : Box) : Prop :=
  box.node ≠ box'.node ∧
    (box.level = box'.level -> box.begin + box.width ≤ box'.begin)

namespace FlameSource

variable (v : FlameSource)

/-- The share of a node's width that its child has. -/
def share (node vertex : Nat) : Rat := v.cost vertex / v.cost node

def boxes : Nat -> Nat -> Rat -> Rat -> Int -> List Box
  | 0, _, _, _, _ => []
  | depth + 1, node, begin, width, level =>
      { node := node, begin := begin, width := width, level := level,
        collapsed := false } ::
        (Subdivision.parts width (v.share node) begin (v.order node)).flatMap
          (fun part =>
            boxes depth part.item part.begin part.width (level + 1))

/-- The boxes of `boxes` that are reached: nothing is drawn below a node without
a width. -/
def drawn : Nat -> Nat -> Rat -> Rat -> Int -> List Box
  | 0, _, _, _, _ => []
  | depth + 1, node, begin, width, level =>
      if width ≤ 0 then []
      else
        { node := node, begin := begin, width := width, level := level,
          collapsed := false } ::
          (Subdivision.parts width (v.share node) begin (v.order node)).flatMap
            (fun part =>
              drawn depth part.item part.begin part.width (level + 1))

def ancestors : Nat -> Int -> Nat -> List Box
  | 0, _, _ => []
  | depth + 1, level, node =>
      match (v.tree.node node).parent with
      | none => []
      | some parent =>
          { node := parent, begin := 0, width := 1, level := level - 1,
            collapsed := true } :: ancestors depth (level - 1) parent

/-- The boxes of a component whose current root is `r`, in the order in which
they are placed. -/
def layout (r : Nat) : List Box :=
  v.ancestors v.tree.size (v.countLevel v.tree.size r) r ++
    v.boxes v.tree.size r 0 1 (v.countLevel v.tree.size r)

/-- The boxes that are given to panels, whatever the costs of the nodes are. -/
def placements (r : Nat) : List Box :=
  v.ancestors v.tree.size (v.countLevel v.tree.size r) r ++
    v.drawn v.tree.size r 0 1 (v.countLevel v.tree.size r)

def place (parentWidth : Int32) (c : FlameComponent) (box : Box) :
    FlameComponent :=
  v.recalculateComponentCoords parentWidth c box.begin box.level box.node
    box.width box.collapsed

/-- What the layout needs of a tree: its nodes are known by their paths, no
cost is zero, and the children of a node cost no more than the node. -/
structure Measured (path : Nat -> List Int64) : Prop where
  paths : v.tree.shape.Paths path
  keys : v.tree.KeysDistinct
  positive : forall i, i < v.tree.size -> 0 < v.cost i
  children : forall i, i < v.tree.size ->
    ((v.order i).map v.cost).sum ≤ v.cost i

/-!
## Children
-/

variable {v} {path : Nat -> List Int64}

theorem mem_order_iff (hkeys : v.tree.KeysDistinct) {i j : Nat} :
    j ∈ v.order i <-> exists m, v.tree.shape.child i m = some j := by
  rw [(v.order_perm i).mem_iff]
  constructor
  · intro hmem
    rcases List.mem_map.mp hmem with ⟨⟨m, k⟩, hchild, rfl⟩
    exact ⟨m, lookup_of_mem (hkeys i) hchild⟩
  · intro hchild
    rcases hchild with ⟨m, hm⟩
    exact List.mem_map.mpr ⟨(m, j), mem_of_lookup hm, rfl⟩

theorem parent_cases (h : v.tree.shape.Paths path) {r : Nat}
    (hr : r < v.tree.size) :
    (r = 0 ∧ (v.tree.node r).parent = none) ∨
      exists i, i < r ∧ (v.tree.node r).parent = some i ∧
        v.tree.shape.child i (v.tree.shape.label r) = some r := by
  rcases Nat.eq_zero_or_pos r with rfl | hpos
  · exact Or.inl ⟨rfl, h.root_parent⟩
  · exact Or.inr (h.parent_child r hr (Nat.ne_of_gt hpos))

theorem countLevel_eq (h : v.tree.shape.Paths path) {depth r : Nat}
    (hdepth : r ≤ depth) (hr : r < v.tree.size) :
    v.countLevel depth r = (path r).length := by
  induction depth generalizing r with
  | zero =>
      rw [Nat.le_zero.mp hdepth, h.root_path]
      rfl
  | succ depth ih =>
      unfold countLevel
      rcases parent_cases h hr with ⟨rfl, hparent⟩ | ⟨i, hi, hparent, hchild⟩
      · rw [hparent, h.root_path]
        rfl
      · rw [hparent, (h.child_path i _ r (hi.trans hr) hchild).right,
          List.length_append, List.length_singleton]
        dsimp only
        rw [ih (by lia) (hi.trans hr)]
        lia

namespace Measured

theorem child_lt (h : v.Measured path) {i j : Nat} (hi : i < v.tree.size)
    (hj : j ∈ v.order i) : i < j ∧ j < v.tree.size := by
  rcases (mem_order_iff h.keys).mp hj with ⟨m, hm⟩
  exact ⟨(h.paths.parent_of_child hi hm).left,
    (h.paths.child_path i m j hi hm).left⟩

theorem le_of_follow (h : v.Measured path) {i j : Nat} {q : List Int64}
    (hi : i < v.tree.size) (hfollow : v.tree.shape.follow i q = some j) :
    i ≤ j := by
  induction q generalizing i with
  | nil =>
      cases hfollow
      exact Nat.le_refl _
  | cons m q ih =>
      rcases Option.bind_eq_some_iff.mp hfollow with ⟨k, hk, hq⟩
      rcases h.child_lt hi ((mem_order_iff h.keys).mpr ⟨m, hk⟩) with ⟨hlt, hsize⟩
      exact (Nat.le_of_lt hlt).trans (ih hsize hq)

theorem subtrees_apart (h : v.Measured path) {i j j' k : Nat} {q q' : List Int64}
    (hi : i < v.tree.size) (hj : j ∈ v.order i) (hj' : j' ∈ v.order i)
    (hk : v.tree.shape.follow j q = some k)
    (hk' : v.tree.shape.follow j' q' = some k) : j = j' := by
  rcases (mem_order_iff h.keys).mp hj with ⟨m, hm⟩
  rcases (mem_order_iff h.keys).mp hj' with ⟨m', hm'⟩
  have hpath : path k = path i ++ m :: q := by
    apply (h.paths.path_of_follow hi _).right
    simp [ArenaTree.follow, hm, hk]
  have hpath' : path k = path i ++ m' :: q' := by
    apply (h.paths.path_of_follow hi _).right
    simp [ArenaTree.follow, hm', hk']
  rw [hpath, List.append_cancel_left_eq, List.cons.injEq] at hpath'
  rw [hpath'.left, hm'] at hm
  exact (Option.some.inj hm).symm

theorem order_nodup (h : v.Measured path) {i : Nat} (hi : i < v.tree.size) :
    (v.order i).Nodup := by
  rw [(v.order_perm i).nodup_iff, List.nodup_iff_pairwise_ne,
    List.pairwise_map]
  have hkeys := h.keys i
  rw [List.nodup_iff_pairwise_ne, List.pairwise_map] at hkeys
  apply hkeys.imp_of_mem
  intro child child' hmem hmem' hne hsame
  have hm : v.tree.shape.child i child.1 = some child.2 :=
    lookup_of_mem (h.keys i) hmem
  have hm' : v.tree.shape.child i child'.1 = some child'.2 :=
    lookup_of_mem (h.keys i) hmem'
  have hpath := (h.paths.child_path i child.1 _ hi hm).right
  rw [hsame, (h.paths.child_path i child'.1 _ hi hm').right] at hpath
  rw [List.append_cancel_left_eq, List.singleton_inj] at hpath
  exact hne hpath.symm

theorem share_pos (h : v.Measured path) {i j : Nat} (hi : i < v.tree.size)
    (hj : j ∈ v.order i) : 0 < v.share i j :=
  div_pos (h.positive j (h.child_lt hi hj).right) (h.positive i hi)

theorem sum_share_le (h : v.Measured path) {i : Nat} (hi : i < v.tree.size) :
    ((v.order i).map (v.share i)).sum ≤ 1 := by
  have hsum : ((v.order i).map (v.share i)).sum =
      ((v.order i).map v.cost).sum / v.cost i := by
    simp only [div_eq_mul_inv, ← List.sum_map_mul_right]
    rfl
  rw [hsum, div_le_one (h.positive i hi)]
  exact h.children i hi

/-!
## The subtree of the current root
-/

/-- The box of a node below `r`, within the part of the width from `begin` on
that `r` has. -/
structure Below (v : FlameSource) (r : Nat) (begin width : Rat) (level : Int)
    (box : Box) : Prop where
  reached : exists q, v.tree.shape.follow r q = some box.node ∧
    box.level = level + q.length
  width_eq : box.width = width * (v.cost box.node / v.cost r)
  left : begin ≤ box.begin
  right : box.begin + box.width ≤ begin + width
  expanded : box.collapsed = false

theorem part_below (h : v.Measured path) {r : Nat} (hr : r < v.tree.size)
    {begin width : Rat} (hwidth : 0 < width)
    {part : Subdivision.Part Nat Rat}
    (hpart : part ∈ Subdivision.parts width (v.share r) begin (v.order r)) :
    part.item ∈ v.order r ∧ part.item < v.tree.size ∧
      part.width = width * v.share r part.item ∧ 0 < part.width ∧
      begin ≤ part.begin ∧ part.finish ≤ begin + width := by
  have hitem := Subdivision.part_item_mem hpart
  have hshare := h.share_pos hr hitem
  have hpartWidth := Subdivision.part_width hpart
  have hwithin := Subdivision.part_within (le_of_lt hwidth)
    (fun x hx => le_of_lt (h.share_pos hr hx)) hpart
  have hsum := mul_le_mul_of_nonneg_left (h.sum_share_le hr) (le_of_lt hwidth)
  rw [mul_one] at hsum
  constructor
  · exact hitem
  constructor
  · exact (h.child_lt hr hitem).right
  constructor
  · exact hpartWidth
  constructor
  · rw [hpartWidth]
    exact mul_pos hwidth hshare
  · exact ⟨hwithin.left, hwithin.right.trans (add_le_add_right hsum begin)⟩

theorem below_of_mem_boxes (h : v.Measured path) {depth r : Nat}
    (hr : r < v.tree.size) {begin width : Rat} (hwidth : 0 < width)
    {level : Int} {box : Box} (hbox : box ∈ v.boxes depth r begin width level) :
    Below v r begin width level box := by
  induction depth generalizing r begin width level with
  | zero => cases hbox
  | succ depth ih =>
      have hcost := h.positive r hr
      rcases List.mem_cons.mp hbox with rfl | hbox
      · constructor
        · exact ⟨[], rfl, by simp⟩
        · simp [div_self (ne_of_gt hcost)]
        · exact le_refl _
        · exact le_refl _
        · rfl
      · rcases List.mem_flatMap.mp hbox with ⟨part, hpart, hbox⟩
        rcases h.part_below hr hwidth hpart with
          ⟨hitem, hlt, hpartWidth, hpos, hleft, hright⟩
        have hbelow := ih hlt hpos hbox
        have hchild := h.positive part.item hlt
        constructor
        · rcases (mem_order_iff h.keys).mp hitem with ⟨m, hm⟩
          rcases hbelow.reached with ⟨q, hq, hlevel⟩
          refine ⟨m :: q, ?_, ?_⟩
          · simp [ArenaTree.follow, hm, hq]
          · rw [hlevel, List.length_cons]
            lia
        · rw [hbelow.width_eq, hpartWidth, share]
          field_simp
        · exact hleft.trans hbelow.left
        · exact hbelow.right.trans hright
        · exact hbelow.expanded

theorem exists_mem_boxes (h : v.Measured path) {depth r i : Nat}
    (hr : r < v.tree.size) (hdepth : v.tree.size ≤ depth + r) {q : List Int64}
    (hfollow : v.tree.shape.follow r q = some i) (begin width : Rat)
    (level : Int) :
    exists box, box ∈ v.boxes depth r begin width level ∧ box.node = i := by
  induction depth generalizing r q begin width level with
  | zero => lia
  | succ depth ih =>
      cases q with
      | nil =>
          cases hfollow
          exact ⟨_, List.mem_cons_self, rfl⟩
      | cons m q =>
          rcases Option.bind_eq_some_iff.mp hfollow with ⟨j, hm, hq⟩
          have hj : j ∈ v.order r := (mem_order_iff h.keys).mpr ⟨m, hm⟩
          rcases h.child_lt hr hj with ⟨hlt, hsize⟩
          have hitem : j ∈ (Subdivision.parts width (v.share r) begin
              (v.order r)).map Subdivision.Part.item := by
            rw [Subdivision.parts_items]
            exact hj
          rcases List.mem_map.mp hitem with ⟨part, hpart, rfl⟩
          rcases ih hsize (by lia) hq part.begin part.width (level + 1) with
            ⟨box, hbox, hnode⟩
          refine ⟨box, ?_, hnode⟩
          exact List.mem_cons_of_mem _
            (List.mem_flatMap.mpr ⟨part, hpart, hbox⟩)

theorem before_of_below_child (h : v.Measured path) {r j : Nat}
    (hr : r < v.tree.size) (hj : j ∈ v.order r) {box box' : Box}
    (hnode : box.node = r) {begin width : Rat}
    (hbelow : Below v j begin width (box.level + 1) box') :
    box.Before box' := by
  rcases h.child_lt hr hj with ⟨hlt, hsize⟩
  rcases hbelow.reached with ⟨q, hq, hlevel⟩
  constructor
  · rw [hnode]
    exact Nat.ne_of_lt (hlt.trans_le (h.le_of_follow hsize hq))
  · intro hsame
    lia

theorem before_of_below_children (h : v.Measured path) {r j j' : Nat}
    (hr : r < v.tree.size) (hj : j ∈ v.order r) (hj' : j' ∈ v.order r)
    (hne : j ≠ j') {begin width begin' width' : Rat}
    (hends : begin + width ≤ begin') {level level' : Int} {box box' : Box}
    (hbelow : Below v j begin width level box)
    (hbelow' : Below v j' begin' width' level' box') : box.Before box' := by
  constructor
  · intro hsame
    rcases hbelow.reached with ⟨q, hq, _⟩
    rcases hbelow'.reached with ⟨q', hq', _⟩
    rw [← hsame] at hq'
    exact hne (h.subtrees_apart hr hj hj' hq hq')
  · intro _
    exact hbelow.right.trans (hends.trans hbelow'.left)

/-- The boxes of the subtree are different nodes', and on each level they lie
side by side. -/
theorem boxes_pairwise (h : v.Measured path) {depth r : Nat}
    (hr : r < v.tree.size) {begin width : Rat} (hwidth : 0 < width)
    (level : Int) :
    (v.boxes depth r begin width level).Pairwise Box.Before := by
  induction depth generalizing r begin width level with
  | zero => exact List.Pairwise.nil
  | succ depth ih =>
      apply List.Pairwise.cons
      · intro box hbox
        rcases List.mem_flatMap.mp hbox with ⟨part, hpart, hbox⟩
        rcases h.part_below hr hwidth hpart with ⟨hitem, hlt, _, hpos, _, _⟩
        exact h.before_of_below_child hr hitem rfl
          (h.below_of_mem_boxes hlt hpos hbox)
      · rw [List.pairwise_flatMap]
        constructor
        · intro part hpart
          rcases h.part_below hr hwidth hpart with ⟨_, hlt, _, hpos, _, _⟩
          exact ih hlt hpos (level + 1)
        · have hends : (Subdivision.parts width (v.share r) begin
              (v.order r)).Pairwise (fun part part' =>
                part.finish ≤ part'.begin) :=
            Subdivision.parts_pairwise (le_of_lt hwidth)
              (fun x hx => le_of_lt (h.share_pos hr hx))
          have hitems : (Subdivision.parts width (v.share r) begin
              (v.order r)).Pairwise (fun part part' =>
                part.item ≠ part'.item) := by
            rw [← List.pairwise_map (f := Subdivision.Part.item),
              Subdivision.parts_items, ← List.nodup_iff_pairwise_ne]
            exact h.order_nodup hr
          apply (hitems.and hends).imp_of_mem
          intro part part' hpart hpart' hapart box hbox box' hbox'
          rcases h.part_below hr hwidth hpart with
            ⟨hitem, hlt, _, hpos, _, _⟩
          rcases h.part_below hr hwidth hpart' with
            ⟨hitem', hlt', _, hpos', _, _⟩
          exact h.before_of_below_children hr hitem hitem' hapart.left
            hapart.right (h.below_of_mem_boxes hlt hpos hbox)
            (h.below_of_mem_boxes hlt' hpos' hbox')

/-!
## The ancestors of the current root
-/

/-- The box of a node above `r`. -/
structure Above (v : FlameSource) (r : Nat) (level : Int) (box : Box) :
    Prop where
  reached : exists q, q ≠ [] ∧ v.tree.shape.follow box.node q = some r ∧
    box.level = level - q.length
  lt : box.node < r
  begin_eq : box.begin = 0
  width_eq : box.width = 1
  collapsed : box.collapsed = true

theorem above_of_mem_ancestors (h : v.Measured path) {depth r : Nat}
    (hr : r < v.tree.size) {level : Int} {box : Box}
    (hbox : box ∈ v.ancestors depth level r) : Above v r level box := by
  induction depth generalizing r level with
  | zero => cases hbox
  | succ depth ih =>
      unfold ancestors at hbox
      rcases parent_cases h.paths hr with ⟨_, hparent⟩ | ⟨i, hi, hparent, hchild⟩
      · rw [hparent] at hbox
        cases hbox
      · rw [hparent] at hbox
        rcases List.mem_cons.mp hbox with rfl | hbox
        · constructor
          · refine ⟨[v.tree.shape.label r], by simp, ?_, by simp⟩
            simp [ArenaTree.follow, hchild]
          · exact hi
          · rfl
          · rfl
          · rfl
        · have habove := ih (hi.trans hr) hbox
          constructor
          · rcases habove.reached with ⟨q, _, hq, hlevel⟩
            refine ⟨q ++ [v.tree.shape.label r], by simp, ?_, ?_⟩
            · rw [ArenaTree.follow_concat, hq]
              exact hchild
            · rw [hlevel, List.length_append, List.length_singleton]
              lia
          · exact habove.lt.trans hi
          · exact habove.begin_eq
          · exact habove.width_eq
          · exact habove.collapsed

theorem exists_mem_ancestors (h : v.Measured path) {depth r i : Nat}
    (hdepth : r ≤ depth) (hi : i < v.tree.size) {q : List Int64} (hq : q ≠ [])
    (hfollow : v.tree.shape.follow i q = some r) (level : Int) :
    exists box, box ∈ v.ancestors depth level r ∧ box.node = i := by
  induction q using List.reverseRecOn generalizing depth r level with
  | nil => exact absurd rfl hq
  | append_singleton q m ih =>
      rw [ArenaTree.follow_concat] at hfollow
      rcases Option.bind_eq_some_iff.mp hfollow with ⟨k, hk, hm⟩
      have hlt := (h.paths.path_of_follow hi hk).left
      rcases h.paths.parent_of_child hlt hm with ⟨hkr, hparent⟩
      have hnode : (v.tree.node r).parent = some k := hparent
      cases depth with
      | zero => lia
      | succ depth =>
          unfold ancestors
          rw [hnode]
          cases q with
          | nil =>
              cases hk
              exact ⟨_, List.mem_cons_self, rfl⟩
          | cons m' q =>
              rcases ih (show k ≤ depth by lia) (List.cons_ne_nil m' q) hk
                  (level - 1) with
                ⟨box, hbox, hbnode⟩
              exact ⟨box, List.mem_cons_of_mem _ hbox, hbnode⟩

theorem ancestors_pairwise (h : v.Measured path) {depth r : Nat}
    (hr : r < v.tree.size) (level : Int) :
    (v.ancestors depth level r).Pairwise Box.Before := by
  induction depth generalizing r level with
  | zero => exact List.Pairwise.nil
  | succ depth ih =>
      unfold ancestors
      rcases parent_cases h.paths hr with ⟨_, hparent⟩ | ⟨i, hi, hparent, _⟩
      · rw [hparent]
        exact List.Pairwise.nil
      · rw [hparent]
        apply List.Pairwise.cons
        · intro box hbox
          have habove := h.above_of_mem_ancestors (hi.trans hr) hbox
          rcases habove.reached with ⟨q, hq, _, hlevel⟩
          have hlength := List.length_pos_iff.mpr hq
          constructor
          · exact (Nat.ne_of_lt habove.lt).symm
          · intro hsame
            dsimp only at hsame
            lia
        · exact ih (hi.trans hr) (level - 1)

/-!
## The whole layout
-/

theorem mem_layout_cases (h : v.Measured path) {r : Nat} (hr : r < v.tree.size)
    {box : Box} (hbox : box ∈ v.layout r) :
    Above v r (path r).length box ∨ Below v r 0 1 (path r).length box := by
  have hlevel := countLevel_eq h.paths (Nat.le_of_lt hr) hr
  rcases List.mem_append.mp hbox with hbox | hbox
  · left
    rw [hlevel] at hbox
    exact h.above_of_mem_ancestors hr hbox
  · right
    rw [hlevel] at hbox
    exact h.below_of_mem_boxes hr one_pos hbox

theorem level_of_mem_layout (h : v.Measured path) {r : Nat}
    (hr : r < v.tree.size) {box : Box} (hbox : box ∈ v.layout r) :
    box.node < v.tree.size ∧ box.level = (path box.node).length := by
  rcases h.mem_layout_cases hr hbox with habove | hbelow
  · rcases habove.reached with ⟨q, _, hq, hlevel⟩
    have hlt := habove.lt.trans hr
    rw [hlevel, (h.paths.path_of_follow hlt hq).right, List.length_append]
    exact ⟨hlt, by lia⟩
  · rcases hbelow.reached with ⟨q, hq, hlevel⟩
    rcases h.paths.path_of_follow hr hq with ⟨hlt, hpath⟩
    rw [hlevel, hpath, List.length_append]
    exact ⟨hlt, by lia⟩

theorem exists_mem_layout (h : v.Measured path) {r i : Nat}
    (hr : r < v.tree.size) (hi : i < v.tree.size)
    (hnode : (exists q, v.tree.shape.follow i q = some r) ∨
      exists q, v.tree.shape.follow r q = some i) :
    exists box, box ∈ v.layout r ∧ box.node = i := by
  have hbelow : forall q, v.tree.shape.follow r q = some i ->
      exists box, box ∈ v.layout r ∧ box.node = i := by
    intro q hq
    rcases h.exists_mem_boxes hr (Nat.le_add_right _ r) hq 0 1
        (v.countLevel v.tree.size r) with ⟨box, hbox, hbnode⟩
    exact ⟨box, List.mem_append_right _ hbox, hbnode⟩
  rcases hnode with ⟨q, hq⟩ | ⟨q, hq⟩
  · cases q with
    | nil =>
        cases hq
        exact hbelow [] rfl
    | cons m q =>
        rcases h.exists_mem_ancestors (Nat.le_of_lt hr) hi
            (List.cons_ne_nil m q) hq (v.countLevel v.tree.size r) with
          ⟨box, hbox, hbnode⟩
        exact ⟨box, List.mem_append_left _ hbox, hbnode⟩
  · exact hbelow q hq

theorem layout_pairwise (h : v.Measured path) {r : Nat} (hr : r < v.tree.size) :
    (v.layout r).Pairwise Box.Before := by
  rw [layout, List.pairwise_append]
  constructor
  · exact h.ancestors_pairwise hr _
  constructor
  · exact h.boxes_pairwise hr one_pos _
  · intro box hbox box' hbox'
    have habove := h.above_of_mem_ancestors hr hbox
    have hbelow := h.below_of_mem_boxes hr one_pos hbox'
    rcases habove.reached with ⟨q, hq, _, hlevel⟩
    rcases hbelow.reached with ⟨q', hq', hlevel'⟩
    have hlength := List.length_pos_iff.mpr hq
    constructor
    · intro hsame
      have hlt := habove.lt
      rw [hsame] at hlt
      exact absurd (h.le_of_follow hr hq') (Nat.not_le.mpr hlt)
    · intro hsame
      lia

end Measured

/-!
## The layout is what the component places
-/

theorem build_eq (v : FlameSource) (parentWidth : Int32) (depth r : Nat)
    (begin finish : Rat) (c : FlameComponent) (level : Int) :
    v.build parentWidth depth c r begin finish level =
      (v.drawn depth r begin (finish - begin) level).foldl
        (v.place parentWidth) c := by
  induction depth generalizing c r begin finish level with
  | zero => rfl
  | succ depth ih =>
      unfold build drawn
      dsimp only
      rcases le_or_gt (finish - begin) 0 with hnone | hwidth
      · rw [if_pos hnone, if_pos hnone]
        rfl
      · rw [if_neg (not_le_of_gt hwidth), if_neg (not_le_of_gt hwidth),
          List.foldl_cons, List.foldl_flatMap]
        refine (Subdivision.foldl_parts (v.share r)
          (fun c vertex begin finish =>
            v.build parentWidth depth c vertex begin finish (level + 1))
          _).trans ?_
        apply List.foldl_ext
        intro c part _
        rw [ih, Subdivision.Part.finish, add_sub_cancel_left]

theorem calcTopFrom_eq (parentWidth : Int32) (depth r : Nat) (level : Int)
    (c : FlameComponent) :
    v.calcTopFrom parentWidth depth c level r =
      (v.ancestors depth level r).foldl (v.place parentWidth) c := by
  induction depth generalizing c r level with
  | zero => rfl
  | succ depth ih =>
      unfold calcTopFrom ancestors
      cases (v.tree.node r).parent with
      | none => rfl
      | some parent => exact ih parent (level - 1) _

/-- Laying out a component places the boxes that are drawn. -/
theorem recalcPositions_eq_placements (v : FlameSource) (parentWidth : Int32)
    (c : FlameComponent) :
    v.recalcPositions parentWidth c =
      (v.placements c.currentRoot).foldl (v.place parentWidth)
        { c with maxHeight := 0 } := by
  unfold recalcPositions calcTop placements
  dsimp only
  rw [build_eq, sub_zero, calcTopFrom_eq, List.foldl_append]

theorem Measured.drawn_eq (h : v.Measured path) (depth : Nat) {r : Nat}
    (hr : r < v.tree.size) (begin : Rat) {width : Rat} (hwidth : 0 < width)
    (level : Int) :
    v.drawn depth r begin width level = v.boxes depth r begin width level := by
  induction depth generalizing r begin width level with
  | zero => rfl
  | succ depth ih =>
      unfold drawn boxes
      rw [if_neg (not_le_of_gt hwidth), List.cons.injEq]
      refine ⟨rfl, List.flatMap_congr ?_⟩
      intro part hpart
      rcases h.part_below hr hwidth hpart with ⟨_, hlt, _, hpos, _, _⟩
      exact ih hlt part.begin hpos (level + 1)

theorem Measured.placements_eq (h : v.Measured path) {r : Nat}
    (hr : r < v.tree.size) : v.placements r = v.layout r := by
  rw [placements, layout, h.drawn_eq v.tree.size hr 0 one_pos]

theorem Measured.recalcPositions_eq (h : v.Measured path)
    (parentWidth : Int32) {c : FlameComponent}
    (hr : c.currentRoot < v.tree.size) :
    v.recalcPositions parentWidth c =
      (v.layout c.currentRoot).foldl (v.place parentWidth)
        { c with maxHeight := 0 } := by
  rw [recalcPositions_eq_placements, h.placements_eq hr]

end FlameSource
end Plugin
end Franky

import Mathlib.Data.Rat.Floor
import Mathlib.Algebra.Order.Field.Rat
import Franky.Foundation.Machine
import Franky.Plugin.FlameTree

/-!
# The flame graph component

The component keeps one panel for each node of the tree and lays the panels out
anew on every repaint and every click.  Fractions of the width are exact
rational numbers here.  A level is the depth of the recursion that lays it out,
and is counted without a bound.
-/

namespace Franky
namespace Plugin

open Foundation
open Protocol

/-- What a flame graph is built from: the tree, the names of its methods, and
the order in which the children of each node are met. -/
structure FlameSource where
  tree : FlameTree
  frameFactory : Int64 -> Option MethodInfo
  order : Nat -> List Nat
  order_perm : forall i,
    (order i).Perm ((tree.node i).children.map Prod.snd)

/-!
## Coordinates
-/

/-- `Double.toInt`. -/
def toPixels (q : Rat) : Int :=
  max (-2 ^ 31) (min (2 ^ 31 - 1) (q.num.tdiv q.den))

structure ComponentCoord where
  x : Rat
  width : Rat
  level : Int
  parentWidth : Int32
deriving DecidableEq, Repr

def frameHeight : Int := 20

def ComponentCoord.getX (coord : ComponentCoord) : Int :=
  toPixels (coord.x * coord.parentWidth.toInt)

def ComponentCoord.getWidth (coord : ComponentCoord) : Int :=
  toPixels (coord.width * coord.parentWidth.toInt)

def ComponentCoord.getY (coord : ComponentCoord) : Int :=
  coord.level * frameHeight

def ComponentCoord.getHeight (_coord : ComponentCoord) : Int :=
  frameHeight

/-- The size and the location of a panel. -/
structure Bounds where
  x : Int
  y : Int
  width : Int
  height : Int
deriving DecidableEq, Repr

/-- `Dimension(0, 0)` at `Point(0, 0)`. -/
def Bounds.zero : Bounds := { x := 0, y := 0, width := 0, height := 0 }

def ComponentCoord.bounds (coord : ComponentCoord) : Bounds :=
  { x := coord.getX, y := coord.getY, width := coord.getWidth,
    height := coord.getHeight }

/-!
## The component
-/

structure FrameComponent where
  methodInfo : MethodInfo
  percentage : Rat
  samplesCount : Int32
  collapsed : Bool
  bounds : Bounds
deriving DecidableEq, Repr

/-- `FlameComponent`, with its panels by node. -/
structure FlameComponent where
  nodeToComp : Nat -> Option FrameComponent
  currentRoot : Nat
  maxHeight : Int

def FlameComponent.empty : FlameComponent :=
  { nodeToComp := fun _ => none, currentRoot := 0, maxHeight := 0 }

/-- The height of `FlameComponent.getPreferredSize`. -/
def FlameComponent.getPreferredHeight (c : FlameComponent) : Int :=
  c.maxHeight

def rootMethodInfo : MethodInfo :=
  { jMethodId := 0, name := "all", sig := "", holder := "reset",
    compiled := false, inlined := none }

namespace FlameSource

variable (v : FlameSource)

/-- `FlameComponent.makeFrameComponent`. -/
def makeFrameComponent (node : Nat) (percentage : Rat) : FrameComponent :=
  { methodInfo :=
      (v.frameFactory (v.tree.node node).methodId).getD rootMethodInfo
    percentage := percentage
    samplesCount := (v.tree.node node).cost
    collapsed := false
    bounds := Bounds.zero }

/-- `FlameComponent.recalculateComponentCoords`, for a component of the given
width. -/
def recalculateComponentCoords (parentWidth : Int32) (c : FlameComponent)
    (begin : Rat) (level : Int) (node : Nat) (width : Rat)
    (isCollapsed : Bool) : FlameComponent :=
  let component :=
    (c.nodeToComp node).getD (v.makeFrameComponent node width)
  let coord : ComponentCoord :=
    { x := begin, width := width, level := level, parentWidth := parentWidth }
  { c with
    nodeToComp := Function.update c.nodeToComp node
      (some { component with
        collapsed := isCollapsed
        bounds := coord.bounds })
    maxHeight :=
      if c.maxHeight ≤ coord.getY then coord.getY else c.maxHeight }

def cost (node : Nat) : Rat := ((v.tree.node node).cost.toInt : Rat)

/-- `FlameComponent.build`, to a depth of so many nodes. -/
def build (parentWidth : Int32) :
    Nat -> FlameComponent -> Nat -> Rat -> Rat -> Int -> FlameComponent
  | 0, c, _, _, _, _ => c
  | depth + 1, c, node, begin, finish, level =>
      let width := finish - begin
      if width ≤ 0 then c
      else
        let c := v.recalculateComponentCoords parentWidth c begin level node
          width false
        ((v.order node).foldl
          (fun (state : FlameComponent × Rat) vertex =>
            let nodeWidth := width * (v.cost vertex / v.cost node)
            (build parentWidth depth state.1 vertex state.2
              (state.2 + nodeWidth) (level + 1), state.2 + nodeWidth))
          (c, begin)).1

/-- The loop of `countLevel`, over so many nodes. -/
def countLevel : Nat -> Nat -> Int
  | 0, _ => 0
  | depth + 1, node =>
      match (v.tree.node node).parent with
      | none => 0
      | some parent => 1 + countLevel depth parent

/-- The loop of `FlameComponent.calcTop`, over so many nodes. -/
def calcTopFrom (parentWidth : Int32) :
    Nat -> FlameComponent -> Int -> Nat -> FlameComponent
  | 0, c, _, _ => c
  | depth + 1, c, level, node =>
      match (v.tree.node node).parent with
      | none => c
      | some parent =>
          calcTopFrom parentWidth depth
            (v.recalculateComponentCoords parentWidth c 0 (level - 1) parent 1
              true) (level - 1) parent

/-- `FlameComponent.calcTop`. -/
def calcTop (parentWidth : Int32) (c : FlameComponent) (currentRoot : Nat) :
    FlameComponent × Int :=
  let allLevel := v.countLevel v.tree.size currentRoot
  (v.calcTopFrom parentWidth v.tree.size c allLevel currentRoot, allLevel)

/-- `FlameComponent.recalcPositions`. -/
def recalcPositions (parentWidth : Int32) (c : FlameComponent) :
    FlameComponent :=
  let top := v.calcTop parentWidth { c with maxHeight := 0 } c.currentRoot
  v.build parentWidth v.tree.size top.1 c.currentRoot 0 1 top.2

/-- `FlameComponent.resetNode`, which first empties every panel. -/
def resetNode (parentWidth : Int32) (c : FlameComponent) (node : Nat) :
    FlameComponent :=
  v.recalcPositions parentWidth
    { c with
      nodeToComp := fun i =>
        (c.nodeToComp i).map (fun panel => { panel with bounds := Bounds.zero })
      currentRoot := node }

/-- The constructor of `FlameComponent`. -/
def construct (parentWidth : Int32) : FlameComponent :=
  v.recalcPositions parentWidth FlameComponent.empty

end FlameSource

/-- What happens to a component: a click on a panel, or a repaint, each at the
width that the component has then. -/
inductive FlameEvent (v : FlameSource) where
  | click (node : Fin v.tree.size) (width : Int32)
  | repaint (width : Int32)

def FlameSource.step (v : FlameSource) (c : FlameComponent) :
    FlameEvent v -> FlameComponent
  | FlameEvent.click node width => v.resetNode width c node
  | FlameEvent.repaint width => v.recalcPositions width c

end Plugin
end Franky

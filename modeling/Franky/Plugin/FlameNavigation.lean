import Mathlib.Logic.Relation
import Franky.Plugin.FrameLabels

/-!
# Where clicks can lead

A panel takes clicks in its centre, inside its border and beside its warning
label, and a small share of a narrow component leaves no centre.  A node can be
brought to the top exactly when every step of the way down to it has, at or
below it, a node that is wide enough under the step before, whatever was shown
before.  The component is taken to be so high that no row is cut off.
-/

namespace Franky
namespace Plugin

open Foundation
open Protocol

/-!
## Clicks
-/

/-- The width and the height of a component, and the width of the warning label
of a panel. -/
structure View where
  width : Int32
  height : Int
  warningWidth : Int

namespace FlameSource

/-- The component is wide enough for a panel with a warning, and no row of it is
cut off. -/
structure Fits (v : FlameSource) (view : View) : Prop where
  warning : 0 ≤ view.warningWidth
  width : 3 + view.warningWidth ≤ view.width.toInt
  rows : forall i, i < v.tree.size ->
    v.countLevel v.tree.size i * frameHeight + 1 < view.height

theorem Fits.width_pos {v : FlameSource} {view : View} (h : v.Fits view) :
    0 < view.width.toInt := by
  have hwarning := h.warning
  have hwidth := h.width
  lia

variable {v : FlameSource} {path : Nat -> List Int64} {view : View}
  {c : FlameComponent}

namespace Measured

/-!
## Ancestors
-/

end Measured
end FlameSource

end Plugin
end Franky

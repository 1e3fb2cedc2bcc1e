import UiConformance.Decimal.Layout

/-!
# Rectangles

Screen rectangles in physical pixels, given by their four sides.
-/

namespace UiConformance

structure Rect where
  left : Float
  top : Float
  right : Float
  bottom : Float
  deriving Repr

namespace Rect

def width (r : Rect) : Float := r.right - r.left

def height (r : Rect) : Float := r.bottom - r.top

/-- The rectangle has no positive area. A side that is no number makes no side short. -/
def isEmpty (r : Rect) : Bool := r.width ≤ 0 || r.height ≤ 0

def text (r : Rect) : String :=
  let side := Decimal.plainText
  s!"[l={side r.left},t={side r.top},r={side r.right},b={side r.bottom}]"

end Rect

end UiConformance

import Fieldbus.Point.Basic

/-!
# Overlapping points

Two points of one unit and class overlap when their ranges share an address, unless they are
disjoint bit fields of one register.
-/

namespace Fieldbus.Point

def haveDisjointFields (left right : Point) : Bool :=
  match left.bits, right.bits with
  | some leftField, some rightField =>
    left.address == right.address && leftField.disjoint rightField
  | _, _ => false

def rangesOverlap (left right : Point) : Bool :=
  match left.range, right.range with
  | .ok leftRange, .ok rightRange => leftRange.overlaps rightRange
  | _, _ => false

def overlaps (left right : Point) : Bool :=
  left.unit == right.unit && left.registerClass == right.registerClass &&
    left.rangesOverlap right && !left.haveDisjointFields right

/-- Every pair of overlapping points, the earlier point first, with their places. -/
def overlapsFrom : (place : Nat) → List Point → List ((Nat × Point) × (Nat × Point))
  | _, [] => []
  | place, point :: rest =>
    ((rest.zipIdx (place + 1)).filter fun (other, _) => point.overlaps other).map
        (fun (other, otherPlace) => ((place, point), (otherPlace, other)))
      ++ overlapsFrom (place + 1) rest

def findOverlaps (points : List Point) : List ((Nat × Point) × (Nat × Point)) :=
  overlapsFrom 0 points

end Fieldbus.Point

import Fieldbus.Notice
import Fieldbus.Point.Overlap

/-!
# Batching

Readable points are sorted by period and address, and each joins the first group of its period,
unit and class that it does not widen beyond a span.  A point wider than the span has a group to
itself.
-/

namespace Fieldbus

namespace Point

/-- The range of a point that takes part in polling. -/
def pollRange? (point : Point) : Option AddressRange :=
  match point.validate, point.range with
  | .ok _, .ok range => if point.access.isReadable then some range else none
  | _, _ => none

/-- The order in which points are put into groups. -/
def precedes (left right : Point × AddressRange) : Bool :=
  left.1.period < right.1.period ||
    (left.1.period == right.1.period && left.2.start ≤ right.2.start)

/-- The points that take part in polling, in the order in which they are put into groups. -/
def pollOrder (points : List Point) : List (Point × AddressRange) :=
  (points.filterMap fun point => point.pollRange?.map fun range => (point, range)).mergeSort
    precedes

end Point

namespace PollGroup

def single (index : Nat) (point : Point) (range : AddressRange) : PollGroup :=
  { index, unit := point.unit, registerClass := point.registerClass, range, points := [point],
    period := point.period }

/-- The point can be read with the group. -/
def accepts (maxSpan : Nat) (point : Point) (range : AddressRange) (group : PollGroup) : Bool :=
  group.period == point.period && group.unit == point.unit &&
    group.registerClass == point.registerClass && group.range.unionSpan range ≤ maxSpan

def extend (group : PollGroup) (point : Point) (range : AddressRange) : PollGroup :=
  { group with range := group.range.union range, points := group.points ++ [point] }

/-- Puts a point into the first group that accepts it, or into a new one at the end. -/
def place (maxSpan index : Nat) (point : Point) (range : AddressRange) :
    List PollGroup → List PollGroup
  | [] => [single index point range]
  | group :: rest =>
    if group.accepts maxSpan point range then group.extend point range :: rest
    else group :: place maxSpan index point range rest

def placeAll (maxSpan : Nat) (points : List (Point × AddressRange)) : List PollGroup :=
  points.foldl (fun groups (point, range) => place maxSpan groups.length point range groups) []

end PollGroup

/-- The groups of some points. -/
def buildGroups (points : List Point) (maxSpan : UInt16) : List PollGroup :=
  PollGroup.placeAll maxSpan.toNat (Point.pollOrder points)

/-- What there is to say about points that are put into groups: which are invalid, and which
decode the same registers. -/
def batchNotices (points : List Point) : List Notice :=
  let dropped := points.filterMap fun point =>
    match point.validate with
    | .ok _ => none
    | .error error => some (Notice.pointDropped point error)
  let overlaps := Point.findOverlaps ((Point.pollOrder points).map (·.1))
  dropped ++ overlaps.map fun (first, second) => .pointsOverlap first.2 second.2

end Fieldbus

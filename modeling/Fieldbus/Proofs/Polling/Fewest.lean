import Fieldbus.Proofs.Polling.Layout
import Mathlib.Data.List.Perm.Subperm
import Mathlib.Order.Bounds.Defs

/-!
# The fewest groups

No way to read the points in batches has fewer batches than there are groups.  The reason is that
the first points of any two groups cannot be read together: when the second group was opened, the
first one would have become too large.
-/

namespace Fieldbus

namespace Point

variable {points : List Point} {left right : Point}

/-- The number of addresses from the first to the last one of some points. -/
def span (points : List Point) : Nat :=
  (points.map stop).max?.getD 0 - (points.map (·.address.toNat)).min?.getD 0

theorem stop_le_add_span (hleft : left ∈ points) (hright : right ∈ points) :
    right.stop ≤ left.address.toNat + span points := by
  have hmax : right.stop ≤ (points.map stop).max?.getD 0 :=
    List.le_max?_getD_of_mem (List.mem_map_of_mem hright)
  have hmin : (points.map (·.address.toNat)).min?.getD 0 ≤ left.address.toNat :=
    List.min?_getD_le_of_mem (List.mem_map.mpr ⟨left, hleft, rfl⟩)
  rw [span]
  omega

/-- Points inside a range span no more addresses than it has. -/
theorem span_le {range : AddressRange}
    (hwithin : ∀ point ∈ points, point.readRequest.range.Within range) :
    span points ≤ range.count.toNat := by
  have hmax : (points.map stop).max?.getD 0 ≤ range.stop := by
    cases hstop : (points.map stop).max? with
    | none => exact Nat.zero_le _
    | some stop =>
        obtain ⟨point, hpoint, rfl⟩ := List.mem_map.mp (List.max?_mem hstop)
        exact (hwithin point hpoint).stop_le
  have hmin : range.start.toNat ≤ (points.map (·.address.toNat)).min?.getD 0 ∨ points = [] := by
    cases hstart : (points.map (·.address.toNat)).min? with
    | none => exact .inr (by simpa using hstart)
    | some start =>
        obtain ⟨point, hpoint, rfl⟩ := List.mem_map.mp (List.min?_mem hstart)
        exact .inl (hwithin point hpoint).start_le
  rcases hmin with hmin | rfl
  · rw [AddressRange.stop] at hmax
    rw [span]
    omega
  · exact Nat.zero_le _

end Point

/-- A way to read the points that are polled: in batches of points of one kind, and those of several
points not larger than a span. -/
structure Batching (points : List Point) (maxSpan : Nat) (batches : List (List Point)) : Prop where
  members : batches.flatten.Perm (points.filter Point.isPolled)
  kind : ∀ batch ∈ batches, ∀ left ∈ batch, ∀ right ∈ batch, left.kind = right.kind
  span : ∀ batch ∈ batches, 2 ≤ batch.length → Point.span batch ≤ maxSpan

/-- The groups are such batches. -/
theorem batching_buildGroups (points : List Point) (maxSpan : UInt16) :
    Batching points maxSpan.toNat ((buildGroups points maxSpan).map (·.points)) where
  members := polled_buildGroups points maxSpan
  kind batch hbatch left hleft right hright := by
    obtain ⟨group, hgroup, rfl⟩ := List.mem_map.mp hbatch
    have hkind := ((laid_buildGroups points maxSpan).formed group hgroup).kind
    exact (hkind left hleft).trans (hkind right hright).symm
  span batch hbatch hseveral := by
    obtain ⟨group, hgroup, rfl⟩ := List.mem_map.mp hbatch
    have hmembers := (covers_of_mem_buildGroups hgroup).members
    rcases ((laid_buildGroups points maxSpan).formed group hgroup).narrow with hone | hnarrow
    · omega
    · calc Point.span group.points
          ≤ group.range.count.toNat := Point.span_le fun point hpoint =>
            (hmembers point hpoint).within
        _ ≤ maxSpan.toNat := hnarrow

namespace Point

variable {left right : Point} {maxSpan : Nat}

/-- The points are of different kinds, or too many addresses for one batch lie between their
ends. -/
def Apart (maxSpan : Nat) (left right : Point) : Prop :=
  left.kind = right.kind → ∃ first ∈ [left, right], ∃ last ∈ [left, right],
    first.address.toNat + maxSpan < last.stop

theorem Apart.symm (hapart : Apart maxSpan left right) : Apart maxSpan right left := by
  intro hkind
  obtain ⟨first, hfirst, last, hlast, hspan⟩ := hapart hkind.symm
  have hswap : [left, right].Perm [right, left] := .swap right left []
  exact ⟨first, hswap.mem_iff.mp hfirst, last, hswap.mem_iff.mp hlast, hspan⟩

end Point

/-- No two points of a batch are apart. -/
theorem Batching.length_le_one {points part batch : List Point} {maxSpan : Nat}
    {batches : List (List Point)} (hbatching : Batching points maxSpan batches)
    (hbatch : batch ∈ batches) (hpart : part.Sublist batch)
    (hapart : part.Pairwise (Point.Apart maxSpan)) : part.length ≤ 1 := by
  match part with
  | [] => exact Nat.zero_le _
  | [_] => exact Nat.le_refl _
  | left :: right :: rest =>
      have hinside : ∀ point ∈ [left, right], point ∈ batch := by
        intro point hpoint
        apply hpart.subset
        rcases List.mem_pair.mp hpoint with rfl | rfl <;> simp
      have hkind := hbatching.kind batch hbatch left (hinside left (by simp)) right
        (hinside right (by simp))
      have hseveral : 2 ≤ batch.length := Nat.le_trans (by simp) hpart.length_le
      obtain ⟨first, hfirst, last, hlast, hfar⟩ :=
        List.rel_of_pairwise_cons hapart List.mem_cons_self hkind
      have hnear := Point.stop_le_add_span (hinside first hfirst) (hinside last hlast)
      have hspan := hbatching.span batch hbatch hseveral
      omega

/-- If no part of a batch has two items that are apart, there are as many batches as there are items
apart from each other. -/
theorem length_le_of_sublist_flatten {A : Type} {apart : A → A → Prop} {items : List A}
    {batches : List (List A)} (hitems : items.Sublist batches.flatten)
    (hapart : items.Pairwise apart)
    (hone : ∀ batch ∈ batches, ∀ part : List A, part.Sublist batch → part.Pairwise apart →
      part.length ≤ 1) : items.length ≤ batches.length := by
  induction batches generalizing items with
  | nil => simpa using hitems
  | cons batch rest ih =>
      rw [List.flatten_cons, List.sublist_append_iff] at hitems
      obtain ⟨part, others, rfl, hpart, hothers⟩ := hitems
      obtain ⟨hpartApart, hothersApart, -⟩ := List.pairwise_append.mp hapart
      obtain ⟨hbatch, hrest⟩ := List.forall_mem_cons.mp hone
      calc (part ++ others).length
          = part.length + others.length := List.length_append
        _ ≤ 1 + rest.length :=
          Nat.add_le_add (hbatch part hpart hpartApart) (ih hothers hothersApart hrest)
        _ = (batch :: rest).length := Nat.add_comm 1 rest.length

namespace PollGroup

variable {earlier later : PollGroup} {groups : List PollGroup} {maxSpan : Nat}

/-- The first point of each group. -/
def founders (groups : List PollGroup) : List Point := groups.filterMap (·.points.head?)

theorem founders_sublist (groups : List PollGroup) :
    (founders groups).Sublist (members groups) := by
  induction groups with
  | nil => exact .refl _
  | cons group rest ih =>
      rw [members, List.flatMap_cons, founders]
      cases hpoints : group.points with
      | nil =>
          rw [List.filterMap_cons_none (by rw [hpoints]; rfl)]
          exact ih
      | cons first others =>
          rw [List.filterMap_cons_some (by rw [hpoints]; rfl)]
          exact (ih.trans (List.sublist_append_right others _)).cons_cons first

theorem length_founders (hformed : ∀ group ∈ groups, group.Formed maxSpan) :
    (founders groups).length = groups.length := by
  induction groups with
  | nil => rfl
  | cons group rest ih =>
      obtain ⟨hgroup, hrest⟩ := List.forall_mem_cons.mp hformed
      obtain ⟨first, others, hpoints, -⟩ := hgroup.first
      rw [founders, List.filterMap_cons_some (by rw [hpoints]; rfl), List.length_cons,
        List.length_cons]
      exact congrArg (· + 1) (ih hrest)

/-- The point of a group that is not narrow is too wide for any batch. -/
theorem Formed.stop_of_not_narrow (hformed : earlier.Formed maxSpan)
    (hwide : ¬earlier.Narrow maxSpan) {first : Point} (hfirst : first ∈ earlier.points) :
    first.address.toNat + maxSpan < first.stop := by
  obtain ⟨point, hpoints, hrange⟩ := hformed.exists_alone (hformed.narrow.resolve_right hwide)
  rw [hpoints, List.mem_singleton] at hfirst
  rw [Narrow, hrange, ← hfirst] at hwide
  exact Nat.add_lt_add_left (Nat.lt_of_not_le hwide) _

/-- The first points of two groups are apart. -/
theorem Follows.apart (hfollows : Follows maxSpan earlier later)
    (hearlier : earlier.Formed maxSpan) (hlater : later.Formed maxSpan) {first second : Point}
    (hfirst : earlier.points.head? = some first) (hsecond : later.points.head? = some second) :
    Point.Apart maxSpan first second := by
  obtain ⟨founder, rest, hpoints, haddress⟩ := hearlier.first
  obtain ⟨other, others, hotherPoints, hotherAddress⟩ := hlater.first
  obtain rfl : founder = first := by simpa [hpoints] using hfirst
  obtain rfl : other = second := by simpa [hotherPoints] using hsecond
  have hother : other ∈ later.points := hotherPoints ▸ List.mem_cons_self
  have hrefuses := hfollows.refuses other hother
  intro hkind
  by_cases hnarrow : earlier.Narrow maxSpan
  · refine ⟨founder, by simp, other, by simp, ?_⟩
    by_contra hnear
    apply hrefuses
    have hsame : other.kind = earlier.kind :=
      hkind.symm.trans (hearlier.kind founder (hpoints ▸ List.mem_cons_self))
    constructor
    · exact hsame
    · exact hnarrow
    · rw [hotherAddress]
      exact hfollows.start_le (hsame.symm.trans (hlater.kind other hother))
    · rw [← haddress]
      exact Nat.le_of_not_lt hnear
  · have hwide := hearlier.stop_of_not_narrow hnarrow (hpoints ▸ List.mem_cons_self)
    exact ⟨founder, by simp, founder, by simp, hwide⟩

theorem Laid.pairwise_founders (hlaid : Laid maxSpan groups) :
    (founders groups).Pairwise (Point.Apart maxSpan) := by
  rw [founders, List.pairwise_filterMap]
  apply hlaid.follows.imp_of_mem
  intro earlier later hearlier hlater hfollows first hfirst second hsecond
  exact hfollows.apart (hlaid.formed earlier hearlier) (hlaid.formed later hlater) hfirst hsecond

end PollGroup

/-- Every batching of the points has a batch for each group. -/
theorem Batching.length_le {points : List Point} {maxSpan : UInt16} {batches : List (List Point)}
    (hbatching : Batching points maxSpan.toNat batches) :
    (buildGroups points maxSpan).length ≤ batches.length := by
  have hlaid := laid_buildGroups points maxSpan
  have hmembers : (PollGroup.members (buildGroups points maxSpan)).Perm batches.flatten :=
    (polled_buildGroups points maxSpan).trans hbatching.members.symm
  have hsubperm := (PollGroup.founders_sublist (buildGroups points maxSpan)).subperm.trans
    hmembers.subperm
  obtain ⟨founders, hperm, hsublist⟩ := hsubperm
  have hapart : founders.Pairwise (Point.Apart maxSpan.toNat) :=
    hperm.symm.pairwise hlaid.pairwise_founders fun h => h.symm
  calc (buildGroups points maxSpan).length
      = (PollGroup.founders (buildGroups points maxSpan)).length :=
        (PollGroup.length_founders hlaid.formed).symm
    _ = founders.length := hperm.length_eq.symm
    _ ≤ batches.length := length_le_of_sublist_flatten hsublist hapart
      fun batch hbatch part => hbatching.length_le_one hbatch

/-- The number of groups is the least number of batches in which the points can be read. -/
theorem isLeast_length_buildGroups (points : List Point) (maxSpan : UInt16) :
    IsLeast {count | ∃ batches, Batching points maxSpan.toNat batches ∧ batches.length = count}
      (buildGroups points maxSpan).length := by
  constructor
  · exact ⟨_, batching_buildGroups points maxSpan, List.length_map _⟩
  · rintro count ⟨batches, hbatching, rfl⟩
    exact hbatching.length_le

end Fieldbus

import Fieldbus.Proofs.Polling.Members
import Mathlib.Data.Prod.Lex

/-!
# The layout of poll groups

Points are put into groups in the order of their periods and addresses.  A group therefore keeps the
address at which it was opened, the groups follow each other in the same order, and no point is
behind a group that could take it.  The groups divide the points that are polled among them, each
with the smallest block around its members.
-/

namespace Fieldbus

namespace Point

/-- One past the last address of a point. -/
def stop (point : Point) : Nat := point.address.toNat + point.quantity.toNat

/-- The point is valid and can be read. -/
def isPolled (point : Point) : Bool := decide point.Valid && point.access.isReadable

/-- What the points of one group have in common: their period, their unit and their class. -/
def kind (point : Point) : Nanoseconds × UnitId × RegisterClass :=
  (point.period, point.unit, point.registerClass)

/-- The place of a point in the order in which points are put into groups. -/
def rank (point : Point) : Nat ×ₗ Nat := toLex (point.period, point.address.toNat)

theorem pollRange?_eq_some_iff {point : Point} {range : AddressRange} :
    point.pollRange? = some range ↔
      point.isPolled = true ∧ range = point.readRequest.range := by
  rw [isPolled, Bool.and_eq_true, decide_eq_true_eq]
  constructor
  · intro hpoll
    obtain ⟨hvalid, hrange⟩ := pollRange?_eq_some hpoll
    refine ⟨⟨hvalid, ?_⟩, hrange⟩
    by_contra hreadable
    have hvalidate : point.validate = .ok () := hvalid
    simp [pollRange?, hvalidate, hvalid.range_eq, hreadable] at hpoll
  · rintro ⟨⟨hvalid, hreadable⟩, rfl⟩
    exact pollRange?_of_valid hvalid hreadable

theorem isSome_pollRange? (point : Point) : point.pollRange?.isSome = point.isPolled := by
  rw [Bool.eq_iff_iff, Option.isSome_iff_exists]
  constructor
  · rintro ⟨range, hpoll⟩
    exact (pollRange?_eq_some_iff.mp hpoll).1
  · intro hpolled
    exact ⟨_, pollRange?_eq_some_iff.mpr ⟨hpolled, rfl⟩⟩

/-- In one period the order is that of the addresses. -/
theorem le_of_rank_le {period other start stop : Nat}
    (hrank : toLex (period, start) ≤ toLex (other, stop)) (hperiod : period = other) :
    start ≤ stop := by
  rcases Prod.Lex.toLex_le_toLex.mp hrank with hless | ⟨-, hstart⟩
  · exact absurd hperiod (Nat.ne_of_lt hless)
  · exact hstart

theorem precedes_iff {left right : Point × AddressRange} :
    precedes left right = true ↔
      toLex (left.1.period, left.2.start.toNat) ≤ toLex (right.1.period, right.2.start.toNat) := by
  rw [precedes, Prod.Lex.toLex_le_toLex, Bool.or_eq_true, Bool.and_eq_true, decide_eq_true_eq,
    beq_iff_eq, decide_eq_true_eq, UInt16.le_iff_toNat_le]

/-- Points are put into groups by their rank. -/
theorem pairwise_pollOrder (points : List Point) :
    (pollOrder points).Pairwise fun left right => left.1.rank ≤ right.1.rank := by
  have hsorted : (pollOrder points).Pairwise fun left right => precedes left right = true := by
    apply List.pairwise_mergeSort
    · intro first second third hfirst hsecond
      rw [precedes_iff] at hfirst hsecond ⊢
      exact hfirst.trans hsecond
    · intro first second
      rw [Bool.or_eq_true, precedes_iff, precedes_iff]
      exact le_total _ _
  apply hsorted.imp_of_mem
  intro left right hleft hright hprecedes
  have hleftRange := (pollRange?_eq_some_iff.mp (mem_pollOrder hleft)).2
  have hrightRange := (pollRange?_eq_some_iff.mp (mem_pollOrder hright)).2
  rwa [precedes_iff, hleftRange, hrightRange] at hprecedes

end Point

namespace AddressRange

variable {left right : AddressRange}

theorem toNat_count_union (hspan : left.unionSpan right < UInt16.size) :
    (left.union right).count.toNat = left.unionSpan right :=
  UInt16.toNat_ofNat_of_lt' hspan

theorem eq_of_stop (hstart : left.start = right.start) (hstop : left.stop = right.stop) :
    left = right := by
  obtain ⟨start, count⟩ := left
  obtain ⟨otherStart, otherCount⟩ := right
  obtain rfl : start = otherStart := hstart
  obtain rfl : count = otherCount := UInt16.toNat_inj.mp (Nat.add_left_cancel hstop)
  rfl

theorem start_union (hstart : left.start.toNat ≤ right.start.toNat) :
    (left.union right).start = left.start := by
  apply UInt16.toNat_inj.mp
  rw [toNat_start_union, Nat.min_eq_left hstart]

end AddressRange

namespace PollGroup

variable {group earlier later : PollGroup} {groups : List PollGroup} {point : Point}
variable {range : AddressRange} {maxSpan index : Nat}

def kind (group : PollGroup) : Nanoseconds × UnitId × RegisterClass :=
  (group.period, group.unit, group.registerClass)

/-- The place of a group in the order of groups. -/
def rank (group : PollGroup) : Nat ×ₗ Nat := toLex (group.period, group.range.start.toNat)

/-- The group may have more than one point. -/
def Narrow (maxSpan : Nat) (group : PollGroup) : Prop := group.range.count.toNat ≤ maxSpan

/-- The group can take the point.  How far the group reaches does not matter, so that this remains
true while the group takes other points. -/
structure Admits (maxSpan : Nat) (group : PollGroup) (point : Point) : Prop where
  kind : point.kind = group.kind
  narrow : group.Narrow maxSpan
  start_le : group.range.start.toNat ≤ point.address.toNat
  stop_le : point.stop ≤ group.range.start.toNat + maxSpan

theorem accepts_iff (hstart : group.range.start.toNat ≤ point.address.toNat) :
    group.accepts maxSpan point point.readRequest.range = true ↔ group.Admits maxSpan point := by
  have hkinds : point.kind = group.kind ↔ (group.period = point.period ∧
      group.unit = point.unit) ∧ group.registerClass = point.registerClass := by
    rw [Point.kind, kind, Prod.mk.injEq, Prod.mk.injEq, eq_comm, @eq_comm _ point.unit,
      @eq_comm _ point.registerClass, and_assoc]
  have hspan : group.range.unionSpan point.readRequest.range ≤ maxSpan ↔
      group.Narrow maxSpan ∧ point.stop ≤ group.range.start.toNat + maxSpan := by
    have hmin : min group.range.start.toNat point.readRequest.range.start.toNat =
        group.range.start.toNat := Nat.min_eq_left hstart
    have hstop : point.readRequest.range.stop = point.stop := rfl
    rw [AddressRange.unionSpan, hmin, hstop, Narrow, AddressRange.stop]
    omega
  rw [accepts, Bool.and_eq_true, Bool.and_eq_true, Bool.and_eq_true, beq_iff_eq, beq_iff_eq,
    beq_iff_eq, decide_eq_true_eq, ← hkinds, hspan]
  constructor
  · rintro ⟨hkind, hnarrow, hstop⟩
    exact ⟨hkind, hnarrow, hstart, hstop⟩
  · rintro ⟨hkind, hnarrow, -, hstop⟩
    exact ⟨hkind, hnarrow, hstop⟩

/-- Nothing is lost when the block of a group is widened for a point that it accepts. -/
theorem unionSpan_lt (haccepts : group.accepts maxSpan point range = true)
    (hspan : maxSpan < UInt16.size) : group.range.unionSpan range < UInt16.size := by
  simp only [accepts, Bool.and_eq_true, decide_eq_true_eq] at haccepts
  exact Nat.lt_of_le_of_lt haccepts.2 hspan

theorem Admits.accepts (hadmits : group.Admits maxSpan point) :
    group.accepts maxSpan point point.readRequest.range = true :=
  (accepts_iff hadmits.start_le).mpr hadmits

/-- A point is put into the first group that accepts it, or else into a new one. -/
theorem place_cases (maxSpan index : Nat) (point : Point) (range : AddressRange)
    (groups : List PollGroup) :
    (∃ before group after, groups = before ++ group :: after ∧
      (∀ other ∈ before, other.accepts maxSpan point range = false) ∧
        group.accepts maxSpan point range = true ∧
          place maxSpan index point range groups =
            before ++ group.extend point range :: after) ∨
      (∀ group ∈ groups, group.accepts maxSpan point range = false) ∧
        place maxSpan index point range groups = groups ++ [single index point range] := by
  induction groups with
  | nil => exact .inr ⟨by simp, rfl⟩
  | cons first rest ih =>
      rw [place]
      split
      · next haccepts => exact .inl ⟨[], first, rest, rfl, by simp, haccepts, rfl⟩
      · next hrefuses =>
          have hfirst : first.accepts maxSpan point range = false :=
            (Bool.not_eq_true _).mp hrefuses
          rcases ih with ⟨before, group, after, rfl, hbefore, haccepts, hplace⟩ | ⟨hall, hplace⟩
          · refine .inl ⟨first :: before, group, after, rfl, ?_, haccepts, ?_⟩
            · exact List.forall_mem_cons.mpr ⟨hfirst, hbefore⟩
            · rw [hplace, List.cons_append]
          · refine .inr ⟨List.forall_mem_cons.mpr ⟨hfirst, hall⟩, ?_⟩
            rw [hplace, List.cons_append]

/-! ## How a group is formed -/

/-- The group has not been polled yet.  Its block begins with its first point and ends with one of
its points, and only a narrow group has more than one. -/
structure Formed (maxSpan : Nat) (group : PollGroup) : Prop where
  lastPollAt : group.lastPollAt = none
  failures : group.failures = 0
  kind : ∀ point ∈ group.points, point.kind = group.kind
  first : ∃ first rest, group.points = first :: rest ∧ first.address = group.range.start
  last : ∃ last ∈ group.points, last.stop = group.range.stop
  narrow : group.points.length = 1 ∨ group.Narrow maxSpan

theorem formed_single (maxSpan index : Nat) (point : Point) :
    (single index point point.readRequest.range).Formed maxSpan where
  lastPollAt := rfl
  failures := rfl
  kind other hother := by
    rw [List.mem_singleton.mp hother]
    rfl
  first := ⟨point, [], rfl, rfl⟩
  last := ⟨point, List.mem_singleton_self point, rfl⟩
  narrow := .inl rfl

/-- A group of one point reads what the point occupies. -/
theorem Formed.exists_alone (hformed : group.Formed maxSpan)
    (hone : group.points.length = 1) :
    ∃ point, group.points = [point] ∧ group.range = point.readRequest.range := by
  obtain ⟨point, hpoints⟩ := List.length_eq_one_iff.mp hone
  obtain ⟨first, rest, hfirst, haddress⟩ := hformed.first
  obtain ⟨last, hlast, hstop⟩ := hformed.last
  rw [hpoints, List.mem_singleton] at hlast
  rw [hpoints, List.cons.injEq] at hfirst
  refine ⟨point, hpoints, AddressRange.eq_of_stop ?_ ?_⟩
  · rw [← haddress, ← hfirst.1]
    rfl
  · rw [← hstop, hlast]
    rfl

theorem start_extend (hadmits : group.Admits maxSpan point) :
    (group.extend point point.readRequest.range).range.start = group.range.start :=
  AddressRange.start_union hadmits.start_le

theorem rank_extend (hadmits : group.Admits maxSpan point) :
    (group.extend point point.readRequest.range).rank = group.rank := by
  rw [rank, start_extend hadmits]
  rfl

theorem stop_extend (hadmits : group.Admits maxSpan point) (hspan : maxSpan < UInt16.size) :
    (group.extend point point.readRequest.range).range.stop =
      max group.range.stop point.stop :=
  AddressRange.stop_union (unionSpan_lt hadmits.accepts hspan)

theorem narrow_extend (hadmits : group.Admits maxSpan point) (hspan : maxSpan < UInt16.size) :
    (group.extend point point.readRequest.range).Narrow maxSpan := by
  have haccepts := hadmits.accepts
  have hcount := AddressRange.toNat_count_union (unionSpan_lt haccepts hspan)
  simp only [PollGroup.accepts, Bool.and_eq_true, decide_eq_true_eq] at haccepts
  calc (group.extend point point.readRequest.range).range.count.toNat
      = group.range.unionSpan point.readRequest.range := hcount
    _ ≤ maxSpan := haccepts.2

/-- A group that has taken a point admits no other points than before. -/
theorem Admits.of_extend {other : Point} (hadmits : group.Admits maxSpan point)
    (hother : (group.extend point point.readRequest.range).Admits maxSpan other) :
    group.Admits maxSpan other where
  kind := hother.kind
  narrow := hadmits.narrow
  start_le := start_extend hadmits ▸ hother.start_le
  stop_le := start_extend hadmits ▸ hother.stop_le

theorem Formed.extend (hformed : group.Formed maxSpan) (hadmits : group.Admits maxSpan point)
    (hspan : maxSpan < UInt16.size) :
    (group.extend point point.readRequest.range).Formed maxSpan where
  lastPollAt := hformed.lastPollAt
  failures := hformed.failures
  kind other hother := by
    rcases List.mem_append.mp hother with hold | hnew
    · exact hformed.kind other hold
    · rw [List.mem_singleton.mp hnew]
      exact hadmits.kind
  first := by
    obtain ⟨first, rest, hpoints, haddress⟩ := hformed.first
    refine ⟨first, rest ++ [point], ?_, ?_⟩
    · simp only [PollGroup.extend, hpoints, List.cons_append]
    · rw [start_extend hadmits, haddress]
  last := by
    rw [stop_extend hadmits hspan]
    rcases Nat.le_total group.range.stop point.stop with hreaches | hinside
    · refine ⟨point, List.mem_append_right _ (List.mem_singleton_self point), ?_⟩
      rw [Nat.max_eq_right hreaches]
    · obtain ⟨last, hlast, hstop⟩ := hformed.last
      refine ⟨last, List.mem_append_left _ hlast, ?_⟩
      rw [Nat.max_eq_left hinside, hstop]
  narrow := .inr (narrow_extend hadmits hspan)

/-- The second group is not before the first, which admits none of its points. -/
structure Follows (maxSpan : Nat) (earlier later : PollGroup) : Prop where
  rank_le : earlier.rank ≤ later.rank
  refuses : ∀ point ∈ later.points, ¬earlier.Admits maxSpan point

theorem Follows.extend_earlier (hfollows : Follows maxSpan earlier later)
    (hadmits : earlier.Admits maxSpan point) :
    Follows maxSpan (earlier.extend point point.readRequest.range) later where
  rank_le := (rank_extend hadmits).le.trans hfollows.rank_le
  refuses other hother hagain := hfollows.refuses other hother (hadmits.of_extend hagain)

theorem Follows.extend_later (hfollows : Follows maxSpan earlier later)
    (hadmits : later.Admits maxSpan point)
    (hrefuses : earlier.accepts maxSpan point point.readRequest.range = false) :
    Follows maxSpan earlier (later.extend point point.readRequest.range) where
  rank_le := hfollows.rank_le.trans (rank_extend hadmits).ge
  refuses other hother hagain := by
    rcases List.mem_append.mp hother with hold | hnew
    · exact hfollows.refuses other hold hagain
    · rw [List.mem_singleton.mp hnew] at hagain
      simp [hagain.accepts] at hrefuses

theorem follows_single (hrank : earlier.rank ≤ point.rank)
    (hrefuses : earlier.accepts maxSpan point point.readRequest.range = false) (index : Nat) :
    Follows maxSpan earlier (single index point point.readRequest.range) where
  rank_le := hrank
  refuses other hother hadmits := by
    rw [List.mem_singleton.mp hother] at hadmits
    simp [hadmits.accepts] at hrefuses

theorem Follows.start_le (hfollows : Follows maxSpan earlier later)
    (hkind : earlier.kind = later.kind) :
    earlier.range.start.toNat ≤ later.range.start.toNat :=
  Point.le_of_rank_le hfollows.rank_le (congrArg Prod.fst hkind)

/-- The groups are numbered, and each is formed of points that no group before it admits. -/
structure Laid (maxSpan : Nat) (groups : List PollGroup) : Prop where
  indices : groups.map (·.index) = List.range groups.length
  formed : ∀ group ∈ groups, group.Formed maxSpan
  follows : groups.Pairwise (Follows maxSpan)

theorem admits_of_accepts (hrank : group.rank ≤ point.rank)
    (haccepts : group.accepts maxSpan point point.readRequest.range = true) :
    group.Admits maxSpan point := by
  refine (accepts_iff ?_).mp haccepts
  simp only [accepts, Bool.and_eq_true, beq_iff_eq] at haccepts
  exact Point.le_of_rank_le hrank haccepts.1.1.1

theorem Laid.place (hlaid : Laid maxSpan groups) (hrank : ∀ group ∈ groups, group.rank ≤ point.rank)
    (hspan : maxSpan < UInt16.size) :
    Laid maxSpan (place maxSpan groups.length point point.readRequest.range groups) := by
  rcases place_cases maxSpan groups.length point point.readRequest.range groups with
    ⟨before, group, after, rfl, hbefore, haccepts, hplace⟩ | ⟨hrefuse, hplace⟩
  · have hadmits := admits_of_accepts (hrank group (by simp)) haccepts
    obtain ⟨hearlier, hlater, hbetween⟩ := List.pairwise_append.mp hlaid.follows
    obtain ⟨hafter, hrest⟩ := List.pairwise_cons.mp hlater
    rw [hplace]
    constructor
    · have hindices := hlaid.indices
      simp only [List.map_append, List.map_cons, List.length_append, List.length_cons]
        at hindices ⊢
      exact hindices
    · intro other hother
      rcases List.mem_append.mp hother with hmem | hmem
      · exact hlaid.formed other (List.mem_append_left _ hmem)
      · rcases List.mem_cons.mp hmem with rfl | hmem
        · exact (hlaid.formed group (by simp)).extend hadmits hspan
        · exact hlaid.formed other (by simp [hmem])
    · apply List.pairwise_append.mpr
      refine ⟨hearlier, List.pairwise_cons.mpr ⟨?_, hrest⟩, ?_⟩
      · intro other hother
        exact (hafter other hother).extend_earlier hadmits
      · intro other hother next hnext
        rcases List.mem_cons.mp hnext with rfl | hnext
        · exact (hbetween other hother group (by simp)).extend_later hadmits
            (hbefore other hother)
        · exact hbetween other hother next (by simp [hnext])
  · rw [hplace]
    constructor
    · rw [List.map_append, hlaid.indices, List.length_append, List.length_singleton,
        List.range_succ]
      rfl
    · intro other hother
      rcases List.mem_append.mp hother with hold | hnew
      · exact hlaid.formed other hold
      · rw [List.mem_singleton.mp hnew]
        exact formed_single maxSpan groups.length point
    · apply List.pairwise_append.mpr
      refine ⟨hlaid.follows, List.pairwise_singleton _ _, ?_⟩
      intro other hother next hnext
      rw [List.mem_singleton.mp hnext]
      exact follows_single (hrank other hother) (hrefuse other hother) groups.length

/-- No group gets another rank when a point is placed, and a new group has that of the point. -/
theorem rank_of_mem_place (hrank : ∀ group ∈ groups, group.rank ≤ point.rank)
    (hgroup : group ∈ place maxSpan index point point.readRequest.range groups) :
    group.rank ≤ point.rank := by
  rcases place_cases maxSpan index point point.readRequest.range groups with
    ⟨before, old, after, rfl, -, haccepts, hplace⟩ | ⟨-, hplace⟩
  · rw [hplace] at hgroup
    rcases List.mem_append.mp hgroup with hmem | hmem
    · exact hrank group (List.mem_append_left _ hmem)
    · rcases List.mem_cons.mp hmem with rfl | hmem
      · have hold := hrank old (by simp)
        exact (rank_extend (admits_of_accepts hold haccepts)).le.trans hold
      · exact hrank group (by simp [hmem])
  · rw [hplace] at hgroup
    rcases List.mem_append.mp hgroup with hold | hnew
    · exact hrank group hold
    · rw [List.mem_singleton.mp hnew]
      exact le_refl point.rank

/-- Placing points by their rank keeps the groups in good order. -/
theorem Laid.foldl_place {entries : List (Point × AddressRange)} (hlaid : Laid maxSpan groups)
    (hspan : maxSpan < UInt16.size)
    (hranges : ∀ entry ∈ entries, entry.2 = entry.1.readRequest.range)
    (hsorted : entries.Pairwise fun left right => left.1.rank ≤ right.1.rank)
    (hrank : ∀ group ∈ groups, ∀ entry ∈ entries, group.rank ≤ entry.1.rank) :
    Laid maxSpan (entries.foldl
      (fun groups (point, range) => PollGroup.place maxSpan groups.length point range groups)
        groups) := by
  induction entries generalizing groups with
  | nil => exact hlaid
  | cons entry rest ih =>
      obtain ⟨point, range⟩ := entry
      obtain ⟨hrange, hrestRanges⟩ := List.forall_mem_cons.mp hranges
      obtain rfl : range = point.readRequest.range := hrange
      obtain ⟨hfirst, hrest⟩ := List.pairwise_cons.mp hsorted
      have hpoint : ∀ group ∈ groups, group.rank ≤ point.rank :=
        fun group hgroup => hrank group hgroup _ List.mem_cons_self
      rw [List.foldl_cons]
      apply ih (hlaid.place hpoint hspan) hrestRanges hrest
      intro group hgroup next hnext
      exact (rank_of_mem_place hpoint hgroup).trans (hfirst next hnext)

end PollGroup

theorem laid_buildGroups (points : List Point) (maxSpan : UInt16) :
    PollGroup.Laid maxSpan.toNat (buildGroups points maxSpan) := by
  have hnone : PollGroup.Laid maxSpan.toNat [] := ⟨rfl, by simp, .nil⟩
  apply hnone.foldl_place maxSpan.toNat_lt
  · intro entry hentry
    exact (Point.pollRange?_eq_some_iff.mp (Point.mem_pollOrder hentry)).2
  · exact Point.pairwise_pollOrder points
  · simp

/-- No point that is polled is lost and none is doubled. -/
theorem polled_buildGroups (points : List Point) (maxSpan : UInt16) :
    (PollGroup.members (buildGroups points maxSpan)).Perm (points.filter Point.isPolled) := by
  have hmembers := members_buildGroups points maxSpan
  simpa only [Point.isSome_pollRange?] using hmembers

/-- The smallest block around its members is the block of a group. -/
theorem PollGroup.Formed.within_iff {maxSpan : Nat} {group : PollGroup}
    (hformed : group.Formed maxSpan) (hcovers : group.Covers) (outer : AddressRange) :
    group.range.Within outer ↔ ∀ point ∈ group.points, point.readRequest.range.Within outer := by
  constructor
  · intro hwithin point hpoint
    exact (hcovers.members point hpoint).within.trans hwithin
  · intro hmembers
    obtain ⟨first, rest, hpoints, haddress⟩ := hformed.first
    obtain ⟨last, hlast, hstop⟩ := hformed.last
    constructor
    · rw [← haddress]
      exact (hmembers first (hpoints ▸ List.mem_cons_self)).start_le
    · rw [← hstop]
      exact (hmembers last hlast).stop_le

/-- The groups divide the points that are polled among them. -/
structure Partitions (points : List Point) (maxSpan : UInt16) (groups : List PollGroup) :
    Prop where
  /-- Every occurrence of a valid point that can be read is in one group, and nothing else is. -/
  members : (PollGroup.members groups).Perm (points.filter Point.isPolled)
  /-- The members of a group share its period, its unit and its class. -/
  kind : ∀ group ∈ groups, ∀ point ∈ group.points, point.kind = group.kind
  /-- The block of a group is the smallest one around its members. -/
  smallest : ∀ group ∈ groups, ∀ outer : AddressRange, group.range.Within outer ↔
    ∀ point ∈ group.points, point.readRequest.range.Within outer
  /-- A block is not empty and lies in the address space. -/
  valid : ∀ group ∈ groups, group.range.Valid
  /-- Only a group of one point is larger than the span. -/
  span : ∀ group ∈ groups, group.points.length = 1 ∨ group.range.count ≤ maxSpan
  /-- The groups are numbered from zero. -/
  indices : groups.map (·.index) = List.range groups.length
  /-- The groups are in the order of their periods and addresses. -/
  ranked : groups.Pairwise fun earlier later => earlier.rank ≤ later.rank
  /-- Whenever a point is put into a group, the size of the new block is that of the smallest one
  around both. -/
  untruncated : ∀ {earlier later : List (Point × AddressRange)} {point : Point}
    {range : AddressRange}, Point.pollOrder points = earlier ++ (point, range) :: later →
      ∀ group ∈ PollGroup.placeAll maxSpan.toNat earlier,
        group.accepts maxSpan.toNat point range = true →
          (group.extend point range).range.count.toNat = group.range.unionSpan range

/-- Whatever the points and the span, the groups are a partition of the points that are polled. -/
theorem partitions_buildGroups (points : List Point) (maxSpan : UInt16) :
    Partitions points maxSpan (buildGroups points maxSpan) where
  members := polled_buildGroups points maxSpan
  kind group hgroup := ((laid_buildGroups points maxSpan).formed group hgroup).kind
  smallest group hgroup := by
    have hformed := (laid_buildGroups points maxSpan).formed group hgroup
    exact hformed.within_iff (covers_of_mem_buildGroups hgroup)
  valid group hgroup := (covers_of_mem_buildGroups hgroup).valid
  span group hgroup := by
    have hformed := (laid_buildGroups points maxSpan).formed group hgroup
    exact hformed.narrow.imp_right UInt16.le_iff_toNat_le.mpr
  indices := (laid_buildGroups points maxSpan).indices
  ranked := (laid_buildGroups points maxSpan).follows.imp fun hfollows => hfollows.rank_le
  untruncated _ group _ haccepts :=
    AddressRange.toNat_count_union (PollGroup.unionSpan_lt haccepts maxSpan.toNat_lt)

end Fieldbus

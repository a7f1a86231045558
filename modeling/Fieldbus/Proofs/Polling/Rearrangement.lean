import Fieldbus.Proofs.Polling.Layout
import Fieldbus.Proofs.Run.Path
import Mathlib.Data.Multiset.Defs

/-!
# The order in which points are declared

Which points are read together does not depend on the order in which they are declared.  Of the
groups that admit a point, the point is in the one that starts first, and a group starts at a point
exactly if no group that starts earlier admits the point.  This determines the groups, but for their
numbers and the order of their points.
-/

namespace Fieldbus

namespace AddressRange

theorem Within.antisymm {left right : AddressRange} (hleft : left.Within right)
    (hright : right.Within left) : left = right := by
  apply eq_of_stop
  · exact UInt16.toNat_inj.mp (Nat.le_antisymm hright.start_le hleft.start_le)
  · exact Nat.le_antisymm hleft.stop_le hright.stop_le

end AddressRange

namespace PollGroup

variable {maxSpan : Nat} {group other : PollGroup} {groups others : List PollGroup} {point : Point}

def isNarrow (maxSpan : Nat) (group : PollGroup) : Bool := group.range.count.toNat ≤ maxSpan

theorem isNarrow_iff : group.isNarrow maxSpan = true ↔ group.Narrow maxSpan := decide_eq_true_iff

/-- What a group reads and for which points, whatever its number and the order of the points. -/
structure Content where
  unit : UnitId
  registerClass : RegisterClass
  period : Nanoseconds
  range : AddressRange
  points : Multiset Point

def content (group : PollGroup) : Content where
  unit := group.unit
  registerClass := group.registerClass
  period := group.period
  range := group.range
  points := group.points

/-- What a group of the point alone reads. -/
def alone (point : Point) : Content := (single 0 point point.readRequest.range).content

/-- Groups are laid in good order, and each covers its points. -/
structure Settled (maxSpan : Nat) (groups : List PollGroup) : Prop extends
    Laid maxSpan groups where
  covers : ∀ group ∈ groups, group.Covers

theorem Admits.congr (hadmits : other.Admits maxSpan point) (hkind : other.kind = group.kind)
    (hstart : other.range.start = group.range.start) (hnarrow : group.Narrow maxSpan) :
    group.Admits maxSpan point where
  kind := hadmits.kind.trans hkind
  narrow := hnarrow
  start_le := hstart ▸ hadmits.start_le
  stop_le := hstart ▸ hadmits.stop_le

namespace Settled

theorem kind (hsettled : Settled maxSpan groups) (hgroup : group ∈ groups)
    (hpoint : point ∈ group.points) : point.kind = group.kind :=
  (hsettled.formed group hgroup).kind point hpoint

theorem exists_first (hsettled : Settled maxSpan groups) (hgroup : group ∈ groups) :
    ∃ first ∈ group.points, first.address = group.range.start := by
  obtain ⟨first, rest, hpoints, haddress⟩ := (hsettled.formed group hgroup).first
  exact ⟨first, hpoints ▸ List.mem_cons_self, haddress⟩

/-- A narrow group admits its own points. -/
theorem admits (hsettled : Settled maxSpan groups) (hgroup : group ∈ groups)
    (hnarrow : group.Narrow maxSpan) (hpoint : point ∈ group.points) :
    group.Admits maxSpan point where
  kind := hsettled.kind hgroup hpoint
  narrow := hnarrow
  start_le := ((hsettled.covers group hgroup).members point hpoint).within.start_le
  stop_le := by
    have hwithin := ((hsettled.covers group hgroup).members point hpoint).within
    calc point.stop
        ≤ group.range.stop := hwithin.stop_le
      _ = group.range.start.toNat + group.range.count.toNat := rfl
      _ ≤ group.range.start.toNat + maxSpan := Nat.add_le_add_left hnarrow _

/-- Whether a group is narrow can be told from any of its points. -/
theorem narrow_iff (hsettled : Settled maxSpan groups) (hgroup : group ∈ groups)
    (hpoint : point ∈ group.points) :
    group.Narrow maxSpan ↔ point.quantity.toNat ≤ maxSpan := by
  constructor
  · intro hnarrow
    have hadmits := hsettled.admits hgroup hnarrow hpoint
    have hstart := hadmits.start_le
    have hstop := hadmits.stop_le
    rw [Point.stop] at hstop
    omega
  · intro hsmall
    have hformed := hsettled.formed group hgroup
    rcases hformed.narrow with hone | hnarrow
    · obtain ⟨only, hpoints, hrange⟩ := hformed.exists_alone hone
      rw [hpoints, List.mem_singleton] at hpoint
      rw [Narrow, hrange, ← hpoint]
      exact hsmall
    · exact hnarrow

theorem follows_or (hsettled : Settled maxSpan groups) (hgroup : group ∈ groups)
    (hother : other ∈ groups) :
    group = other ∨ Follows maxSpan group other ∨ Follows maxSpan other group := by
  obtain ⟨before, after, rfl⟩ := List.append_of_mem hgroup
  obtain ⟨-, hlater, hbetween⟩ := List.pairwise_append.mp hsettled.follows
  rcases List.mem_append.mp hother with hbefore | hmem
  · exact .inr (.inr (hbetween other hbefore group List.mem_cons_self))
  · rcases List.mem_cons.mp hmem with rfl | hafter
    · exact .inl rfl
    · exact .inr (.inl (List.rel_of_pairwise_cons hlater hafter))

/-- Of the groups that admit a point, the point is in the first one. -/
theorem start_le (hsettled : Settled maxSpan groups) (hgroup : group ∈ groups)
    (hpoint : point ∈ group.points) (hother : other ∈ groups)
    (hadmits : other.Admits maxSpan point) :
    group.range.start.toNat ≤ other.range.start.toNat := by
  rcases hsettled.follows_or hgroup hother with rfl | hlater | hearlier
  · exact Nat.le_refl _
  · have hkind := (hsettled.kind hgroup hpoint).symm.trans hadmits.kind
    exact hlater.start_le hkind
  · exact absurd hadmits (hearlier.refuses point hpoint)

/-- Narrow groups of one kind start at different addresses. -/
theorem eq_of_start (hsettled : Settled maxSpan groups) (hgroup : group ∈ groups)
    (hother : other ∈ groups) (hnarrow : group.Narrow maxSpan)
    (hotherNarrow : other.Narrow maxSpan) (hkind : group.kind = other.kind)
    (hstart : group.range.start = other.range.start) : group = other := by
  rcases hsettled.follows_or hgroup hother with rfl | hlater | hearlier
  · rfl
  · obtain ⟨first, hfirst, -⟩ := hsettled.exists_first hother
    have hadmits := hsettled.admits hother hotherNarrow hfirst
    exact absurd (hadmits.congr hkind.symm hstart.symm hnarrow) (hlater.refuses first hfirst)
  · obtain ⟨first, hfirst, -⟩ := hsettled.exists_first hgroup
    have hadmits := hsettled.admits hgroup hnarrow hfirst
    exact absurd (hadmits.congr hkind hstart hotherNarrow) (hearlier.refuses first hfirst)

end Settled

theorem exists_group_of_mem_members (hpoint : point ∈ members groups) :
    ∃ group ∈ groups, point ∈ group.points :=
  List.mem_flatMap.mp hpoint

theorem mem_members (hgroup : group ∈ groups) (hpoint : point ∈ group.points) :
    point ∈ members groups :=
  List.mem_flatMap.mpr ⟨group, hgroup, hpoint⟩

/-- All occurrences of a point of a narrow group are in that group. -/
theorem Settled.count_members (hsettled : Settled maxSpan groups) (hgroup : group ∈ groups)
    (hnarrow : group.Narrow maxSpan) (hpoint : point ∈ group.points) :
    (members groups).count point = group.points.count point := by
  have hsmall := (hsettled.narrow_iff hgroup hpoint).mp hnarrow
  have hadmits := hsettled.admits hgroup hnarrow hpoint
  obtain ⟨before, after, rfl⟩ := List.append_of_mem hgroup
  obtain ⟨-, hlater, hbetween⟩ := List.pairwise_append.mp hsettled.follows
  have hbefore : (members before).count point = 0 := by
    apply List.count_eq_zero.mpr
    intro hmem
    obtain ⟨other, hother, hinside⟩ := exists_group_of_mem_members hmem
    have hmemOther : other ∈ before ++ group :: after := List.mem_append_left _ hother
    have hotherNarrow := (hsettled.narrow_iff hmemOther hinside).mpr hsmall
    exact (hbetween other hother group List.mem_cons_self).refuses point hpoint
      (hsettled.admits hmemOther hotherNarrow hinside)
  have hafter : (members after).count point = 0 := by
    apply List.count_eq_zero.mpr
    intro hmem
    obtain ⟨other, hother, hinside⟩ := exists_group_of_mem_members hmem
    exact (List.rel_of_pairwise_cons hlater hother).refuses point hinside hadmits
  calc (members (before ++ group :: after)).count point
      = (members before).count point + (group.points.count point +
          (members after).count point) := by
        rw [members, List.flatMap_append, List.flatMap_cons, List.count_append,
          List.count_append, members, members]
    _ = group.points.count point := by rw [hbefore, hafter, Nat.zero_add, Nat.add_zero]

theorem Settled.nodup_content (hsettled : Settled maxSpan groups) :
    ((groups.filter (isNarrow maxSpan)).map content).Nodup := by
  rw [List.Nodup, List.pairwise_map, List.pairwise_filter]
  apply hsettled.follows.imp_of_mem
  intro earlier later hearlier hlater hfollows hearlierNarrow hlaterNarrow hsame
  rw [isNarrow_iff] at hearlierNarrow hlaterNarrow
  obtain ⟨first, hfirst, -⟩ := hsettled.exists_first hlater
  have hkind : later.kind = earlier.kind := by
    simp only [content, Content.mk.injEq] at hsame
    obtain ⟨hunit, hclass, hperiod, -, -⟩ := hsame
    rw [PollGroup.kind, PollGroup.kind, hunit, hclass, hperiod]
  have hrange : later.range = earlier.range := (congrArg Content.range hsame).symm
  have hadmits := hsettled.admits hlater hlaterNarrow hfirst
  exact hfollows.refuses first hfirst
    (hadmits.congr hkind (congrArg AddressRange.start hrange) hearlierNarrow)

/-! ## Two layouts of the same points -/

/-- Narrow groups of one kind that start at the same address. -/
structure Counterpart (maxSpan : Nat) (group other : PollGroup) : Prop where
  narrow : group.Narrow maxSpan
  otherNarrow : other.Narrow maxSpan
  kind : other.kind = group.kind
  start : other.range.start = group.range.start

namespace Counterpart

theorem symm (hmatch : Counterpart maxSpan group other) : Counterpart maxSpan other group :=
  ⟨hmatch.otherNarrow, hmatch.narrow, hmatch.kind.symm, hmatch.start.symm⟩

/-- Counterparts admit the same points. -/
theorem admits (hmatch : Counterpart maxSpan group other) (hadmits : group.Admits maxSpan point) :
    other.Admits maxSpan point :=
  hadmits.congr hmatch.kind.symm hmatch.start.symm hmatch.otherNarrow

end Counterpart

/-- Two layouts of the same points. -/
structure SamePoints (maxSpan : Nat) (groups others : List PollGroup) : Prop where
  settled : Settled maxSpan groups
  other : Settled maxSpan others
  members : (members groups).Perm (members others)

namespace SamePoints

theorem symm (hsame : SamePoints maxSpan groups others) : SamePoints maxSpan others groups :=
  ⟨hsame.other, hsame.settled, hsame.members.symm⟩

/-- The narrow group that a point of a narrow group is in, in the other layout. -/
theorem exists_home (hsame : SamePoints maxSpan groups others) (hgroup : group ∈ groups)
    (hnarrow : group.Narrow maxSpan) (hpoint : point ∈ group.points) :
    ∃ home ∈ others, point ∈ home.points ∧ home.kind = group.kind ∧
      home.Admits maxSpan point := by
  obtain ⟨home, hhome, hinside⟩ :=
    exists_group_of_mem_members (hsame.members.mem_iff.mp (mem_members hgroup hpoint))
  have hsmall := (hsame.settled.narrow_iff hgroup hpoint).mp hnarrow
  have hhomeNarrow := (hsame.other.narrow_iff hhome hinside).mpr hsmall
  have hkind := (hsame.other.kind hhome hinside).symm.trans (hsame.settled.kind hgroup hpoint)
  exact ⟨home, hhome, hinside, hkind, hsame.other.admits hhome hhomeNarrow hinside⟩

/-- Narrow groups start at the same addresses in both layouts.  The induction is on the address:
whether a group starts there depends only on the groups that start earlier. -/
theorem exists_counterpart (hsame : SamePoints maxSpan groups others) (hgroup : group ∈ groups)
    (hnarrow : group.Narrow maxSpan) : ∃ other ∈ others, Counterpart maxSpan group other := by
  induction hstart : group.range.start.toNat using Nat.strong_induction_on
    generalizing groups others group with
  | _ start ih =>
      obtain ⟨first, hfirst, haddress⟩ := hsame.settled.exists_first hgroup
      obtain ⟨home, hhome, -, hkind, hadmits⟩ := hsame.exists_home hgroup hnarrow hfirst
      have hle : home.range.start.toNat ≤ start := by
        rw [← hstart, ← haddress]
        exact hadmits.start_le
      rcases Nat.eq_or_lt_of_le hle with hequal | hearlier
      · have hsameStart := UInt16.toNat_inj.mp (hequal.trans hstart.symm)
        exact ⟨home, hhome, hnarrow, hadmits.narrow, hkind, hsameStart⟩
      · obtain ⟨back, hback, hmatch⟩ := ih _ hearlier hsame.symm hhome hadmits.narrow rfl
        have hmin := hsame.settled.start_le hgroup hfirst hback (hmatch.admits hadmits)
        rw [hmatch.start, hstart] at hmin
        exact absurd hearlier (Nat.not_lt_of_le hmin)

/-- A point is in the counterpart of its group. -/
theorem mem_of_mem (hsame : SamePoints maxSpan groups others) (hgroup : group ∈ groups)
    (hother : other ∈ others) (hmatch : Counterpart maxSpan group other)
    (hpoint : point ∈ group.points) : point ∈ other.points := by
  obtain ⟨home, hhome, hinside, hkind, hadmits⟩ := hsame.exists_home hgroup hmatch.narrow hpoint
  obtain ⟨back, hback, hreturn⟩ := hsame.symm.exists_counterpart hhome hadmits.narrow
  have hlower := hsame.settled.start_le hgroup hpoint hback (hreturn.admits hadmits)
  have hupper := hsame.other.start_le hhome hinside hother
    (hmatch.admits (hsame.settled.admits hgroup hmatch.narrow hpoint))
  rw [hreturn.start, ← hmatch.start] at hlower
  have hequal : home = other :=
    hsame.other.eq_of_start hhome hother hadmits.narrow hmatch.otherNarrow
      (hkind.trans hmatch.kind.symm) (UInt16.toNat_inj.mp (Nat.le_antisymm hupper hlower))
  exact hequal ▸ hinside

theorem points_perm (hsame : SamePoints maxSpan groups others) (hgroup : group ∈ groups)
    (hother : other ∈ others) (hmatch : Counterpart maxSpan group other) :
    group.points.Perm other.points := by
  apply List.perm_iff_count.mpr
  intro point
  by_cases hpoint : point ∈ group.points
  · have hinside := hsame.mem_of_mem hgroup hother hmatch hpoint
    calc group.points.count point
        = (PollGroup.members groups).count point :=
          (hsame.settled.count_members hgroup hmatch.narrow hpoint).symm
      _ = (PollGroup.members others).count point := hsame.members.count_eq point
      _ = other.points.count point :=
          hsame.other.count_members hother hmatch.otherNarrow hinside
  · have hback := mt (hsame.symm.mem_of_mem hother hgroup hmatch.symm) hpoint
    rw [List.count_eq_zero.mpr hpoint, List.count_eq_zero.mpr hback]

theorem within (hsame : SamePoints maxSpan groups others) (hgroup : group ∈ groups)
    (hother : other ∈ others) (hmatch : Counterpart maxSpan group other) :
    group.range.Within other.range := by
  rw [(hsame.settled.formed group hgroup).within_iff (hsame.settled.covers group hgroup)]
  intro point hpoint
  have hinside := hsame.mem_of_mem hgroup hother hmatch hpoint
  exact ((hsame.other.covers other hother).members point hinside).within

/-- A narrow group is also in the other layout. -/
theorem exists_content (hsame : SamePoints maxSpan groups others) (hgroup : group ∈ groups)
    (hnarrow : group.Narrow maxSpan) :
    ∃ other ∈ others, other.Narrow maxSpan ∧ other.content = group.content := by
  obtain ⟨other, hother, hmatch⟩ := hsame.exists_counterpart hgroup hnarrow
  have hpoints := hsame.points_perm hgroup hother hmatch
  have hrange : other.range = group.range :=
    (hsame.symm.within hother hgroup hmatch.symm).antisymm (hsame.within hgroup hother hmatch)
  have hkind := hmatch.kind
  simp only [PollGroup.kind, Prod.mk.injEq] at hkind
  obtain ⟨hperiod, hunit, hclass⟩ := hkind
  refine ⟨other, hother, hmatch.otherNarrow, ?_⟩
  rw [content, content, hperiod, hunit, hclass, hrange, Multiset.coe_eq_coe.mpr hpoints.symm]

theorem mem_narrow_of_mem (hsame : SamePoints maxSpan groups others) {found : Content}
    (hfound : found ∈ (groups.filter (isNarrow maxSpan)).map content) :
    found ∈ (others.filter (isNarrow maxSpan)).map content := by
  obtain ⟨group, hmem, rfl⟩ := List.mem_map.mp hfound
  obtain ⟨hgroup, hnarrow⟩ := List.mem_filter.mp hmem
  obtain ⟨other, hother, hotherNarrow, hcontent⟩ :=
    hsame.exists_content hgroup (isNarrow_iff.mp hnarrow)
  exact List.mem_map.mpr
    ⟨other, List.mem_filter.mpr ⟨hother, isNarrow_iff.mpr hotherNarrow⟩, hcontent⟩

theorem narrow_perm (hsame : SamePoints maxSpan groups others) :
    ((groups.filter (isNarrow maxSpan)).map content).Perm
      ((others.filter (isNarrow maxSpan)).map content) := by
  apply (List.perm_ext_iff_of_nodup hsame.settled.nodup_content hsame.other.nodup_content).mpr
  intro found
  exact ⟨hsame.mem_narrow_of_mem, hsame.symm.mem_narrow_of_mem⟩

end SamePoints

namespace Settled

/-- A wide group is that of its only point. -/
theorem exists_alone (hsettled : Settled maxSpan groups) (hgroup : group ∈ groups)
    (hwide : ¬group.Narrow maxSpan) :
    ∃ point, group.points = [point] ∧ group.content = alone point := by
  have hformed := hsettled.formed group hgroup
  obtain ⟨point, hpoints, hrange⟩ := hformed.exists_alone (hformed.narrow.resolve_right hwide)
  have hkind := hformed.kind point (hpoints ▸ List.mem_singleton_self point)
  simp only [Point.kind, PollGroup.kind, Prod.mk.injEq] at hkind
  obtain ⟨hperiod, hunit, hclass⟩ := hkind
  refine ⟨point, hpoints, ?_⟩
  rw [content, hpoints, hrange, ← hperiod, ← hunit, ← hclass]
  rfl

/-- Only a wide group has a wide point. -/
theorem map_alone_points (hsettled : Settled maxSpan groups) (hgroup : group ∈ groups) :
    (group.points.filter (maxSpan < ·.quantity.toNat)).map alone =
      if group.isNarrow maxSpan then [] else [group.content] := by
  split
  · next hnarrow =>
      apply List.map_eq_nil_iff.mpr
      apply List.filter_eq_nil_iff.mpr
      intro point hpoint
      have hsmall := (hsettled.narrow_iff hgroup hpoint).mp (isNarrow_iff.mp hnarrow)
      simpa using hsmall
  · next hnarrow =>
      rw [isNarrow_iff] at hnarrow
      obtain ⟨point, hpoints, hcontent⟩ := hsettled.exists_alone hgroup hnarrow
      have hpoint : point ∈ group.points := hpoints ▸ List.mem_singleton_self point
      have hlarge : maxSpan < point.quantity.toNat := by
        rw [← Nat.not_le, ← hsettled.narrow_iff hgroup hpoint]
        exact hnarrow
      rw [hpoints, List.filter_cons_of_pos (by simpa using hlarge), hcontent]
      rfl

/-- The wide points are in groups of their own. -/
theorem map_alone_members (hsettled : Settled maxSpan groups) :
    ((members groups).filter (maxSpan < ·.quantity.toNat)).map alone =
      (groups.filter (!isNarrow maxSpan ·)).map content := by
  have hfilter (part : List PollGroup) :
      (part.flatMap fun group => if group.isNarrow maxSpan then [] else [group.content]) =
        (part.filter (!isNarrow maxSpan ·)).map content := by
    induction part with
    | nil => rfl
    | cons group rest ih =>
        rw [List.flatMap_cons, ih]
        cases hnarrow : group.isNarrow maxSpan <;> simp [hnarrow]
  calc ((members groups).filter (maxSpan < ·.quantity.toNat)).map alone
      = groups.flatMap fun group =>
          (group.points.filter (maxSpan < ·.quantity.toNat)).map alone := by
        rw [members, List.filter_flatMap, List.map_flatMap]
    _ = groups.flatMap fun group =>
          if group.isNarrow maxSpan then [] else [group.content] :=
        List.flatMap_congr fun _ hgroup => hsettled.map_alone_points hgroup
    _ = (groups.filter (!isNarrow maxSpan ·)).map content := hfilter groups

end Settled

/-- Two layouts of the same points have the same groups. -/
theorem SamePoints.content_perm (hsame : SamePoints maxSpan groups others) :
    (groups.map content).Perm (others.map content) := by
  have hsplit (groups : List PollGroup) : (groups.map content).Perm
      ((groups.filter (isNarrow maxSpan)).map content ++
        (groups.filter (!isNarrow maxSpan ·)).map content) := by
    rw [← List.map_append]
    exact ((List.filter_append_perm (isNarrow maxSpan) groups).map content).symm
  have hwide : ((groups.filter (!isNarrow maxSpan ·)).map content).Perm
      ((others.filter (!isNarrow maxSpan ·)).map content) := by
    rw [← hsame.settled.map_alone_members, ← hsame.other.map_alone_members]
    exact (hsame.members.filter _).map alone
  exact (hsplit groups).trans ((hsame.narrow_perm.append hwide).trans (hsplit others).symm)

end PollGroup

theorem settled_buildGroups (points : List Point) (maxSpan : UInt16) :
    PollGroup.Settled maxSpan.toNat (buildGroups points maxSpan) where
  toLaid := laid_buildGroups points maxSpan
  covers _ hgroup := covers_of_mem_buildGroups hgroup

/-- Which points are read together does not depend on their order. -/
theorem content_buildGroups_perm {points other : List Point} (hperm : points.Perm other)
    (maxSpan : UInt16) :
    ((buildGroups points maxSpan).map PollGroup.content).Perm
      ((buildGroups other maxSpan).map PollGroup.content) := by
  have hmembers : (PollGroup.members (buildGroups points maxSpan)).Perm
      (PollGroup.members (buildGroups other maxSpan)) :=
    (polled_buildGroups points maxSpan).trans
      ((hperm.filter Point.isPolled).trans (polled_buildGroups other maxSpan).symm)
  have hsame : PollGroup.SamePoints maxSpan.toNat (buildGroups points maxSpan)
      (buildGroups other maxSpan) :=
    ⟨settled_buildGroups points maxSpan, settled_buildGroups other maxSpan, hmembers⟩
  exact hsame.content_perm

/-- A number of two registers that starts where the sample does. -/
def Point.total : Point := { sample with name := "total", rawType := .uint32 }

/-- The larger of two points that start at one address may be declared first. -/
theorem content_buildGroups_total :
    [Point.total, Point.sample].Perm [Point.sample, Point.total] ∧
      ((buildGroups [Point.total, Point.sample] 2).map PollGroup.content).Perm
        [((PollGroup.single 0 Point.sample ⟨4, 1⟩).extend Point.total ⟨4, 2⟩).content] := by
  have hperm : [Point.total, Point.sample].Perm [Point.sample, Point.total] := .swap _ _ _
  have hsorted : Point.pollOrder [Point.sample, Point.total] =
      [(Point.sample, ⟨4, 1⟩), (Point.total, ⟨4, 2⟩)] :=
    List.mergeSort_of_pairwise (by decide +kernel)
  have hgroups : buildGroups [Point.sample, Point.total] 2 =
      [(PollGroup.single 0 Point.sample ⟨4, 1⟩).extend Point.total ⟨4, 2⟩] := by
    rw [buildGroups, hsorted]
    decide +kernel
  have hsame := content_buildGroups_perm hperm 2
  rw [hgroups] at hsame
  exact ⟨hperm, hsame⟩

end Fieldbus

import Fieldbus.Proofs.Polling.Signals

/-!
# The points of a connection

A connection keeps the first valid declaration of each name of a device.  The writers look points up
among those that are kept, the scheduler polls those of them that can be read, and the devices are
those of the points that are kept: all three go by the same declarations, whatever else is declared.
-/

namespace Fieldbus

namespace Point

/-- What a write knows a point by. -/
def key (point : Point) : DeviceId × String := (point.device, point.name)

/-- The first valid declaration of a name of a device. -/
structure IsFirstValid (declared : List Point) (device : DeviceId) (name : String)
    (point : Point) : Prop where
  valid : point.Valid
  key_eq : point.key = (device, name)
  first : ∃ before after, declared = before ++ point :: after ∧
    ∀ other ∈ before, other.Valid → other.key ≠ (device, name)

end Point

variable {points kept declared : List Point} {device : DeviceId} {name : String} {point : Point}

theorem findPoint?_eq_find? (points : List Point) (device : DeviceId) (name : String) :
    findPoint? points device name = points.find? fun point => point.key = (device, name) := by
  rw [findPoint?]
  congr 1
  funext point
  rw [Point.key, Bool.eq_iff_iff]
  simp

theorem findPoint?_cons (first : Point) (rest : List Point) (device : DeviceId) (name : String) :
    findPoint? (first :: rest) device name =
      if first.key = (device, name) then some first else findPoint? rest device name := by
  rw [findPoint?_eq_find?, findPoint?_eq_find?, List.find?_cons]
  by_cases hkey : first.key = (device, name) <;> simp [hkey]

theorem findPoint?_append (points more : List Point) (device : DeviceId) (name : String) :
    findPoint? (points ++ more) device name =
      (findPoint? points device name).or (findPoint? more device name) := by
  simp only [findPoint?_eq_find?, List.find?_append]

theorem findPoint?_eq_some_iff : findPoint? points device name = some point ↔
    point.key = (device, name) ∧ ∃ before after, points = before ++ point :: after ∧
      ∀ other ∈ before, other.key ≠ (device, name) := by
  simp [findPoint?_eq_find?, List.find?_eq_some_iff_append]

theorem isSome_findPoint?_iff :
    (findPoint? points device name).isSome = true ↔
      ∃ point ∈ points, point.key = (device, name) := by
  simp [findPoint?_eq_find?]

theorem findPoint?_valid_eq_some_iff :
    findPoint? (points.filter fun point => point.Valid) device name = some point ↔
      point.IsFirstValid points device name := by
  rw [findPoint?_eq_find?, List.find?_filter, List.find?_eq_some_iff_append]
  simp only [decide_eq_true_eq, Bool.not_eq_true', decide_eq_false_iff_not, not_and]
  constructor
  · rintro ⟨⟨hvalid, hkey⟩, before, after, hpoints, hbefore⟩
    exact ⟨hvalid, hkey, before, after, hpoints, hbefore⟩
  · rintro ⟨hvalid, hkey, before, after, hpoints, hbefore⟩
    exact ⟨⟨hvalid, hkey⟩, before, after, hpoints, hbefore⟩

/-- Where each key occurs once, a point is found by its own key. -/
theorem findPoint?_key_iff (hkeys : (points.map Point.key).Nodup) :
    findPoint? points point.device point.name = some point ↔ point ∈ points := by
  constructor
  · rw [findPoint?_eq_some_iff]
    rintro ⟨-, before, after, rfl, -⟩
    simp
  · intro hmem
    obtain ⟨before, after, rfl⟩ := List.append_of_mem hmem
    refine findPoint?_eq_some_iff.mpr ⟨rfl, before, after, rfl, fun other hother hkey => ?_⟩
    rw [List.map_append, List.map_cons, List.nodup_append] at hkeys
    exact hkeys.2.2 other.key (List.mem_map_of_mem hother) point.key List.mem_cons_self hkey

theorem eraseDups_append_cons_of_mem {A : Type} [DecidableEq A] {items : List A} {item : A}
    (hmem : item ∈ items) (rest : List A) :
    (items ++ item :: rest).eraseDups = (items ++ rest).eraseDups := by
  rw [List.eraseDups_append, List.eraseDups_append]
  simp [List.removeAll, hmem]

/-- Items come in the order of their first occurrences. -/
theorem pairwise_idxOf_eraseDups {A : Type} [DecidableEq A] (items : List A) :
    items.eraseDups.Pairwise fun left right => items.idxOf left < items.idxOf right := by
  induction items using List.reverseRecOn with
  | nil => simp
  | append_singleton items last ih =>
      have hold : items.eraseDups.Pairwise fun left right =>
          (items ++ [last]).idxOf left < (items ++ [last]).idxOf right := by
        refine ih.imp_of_mem fun hleft hright hlt => ?_
        rwa [List.idxOf_append_of_mem (List.mem_eraseDups.mp hleft),
          List.idxOf_append_of_mem (List.mem_eraseDups.mp hright)]
      rw [eraseDups_concat]
      split
      · exact hold
      · next hnew =>
          refine List.pairwise_append.mpr ⟨hold, List.pairwise_singleton _ _, ?_⟩
          intro item hitem other hother
          have hmem : item ∈ items := List.mem_eraseDups.mp hitem
          rw [List.mem_singleton.mp hother, List.idxOf_append_of_mem hmem,
            List.idxOf_append_of_notMem hnew]
          exact Nat.lt_of_lt_of_le (List.idxOf_lt_length_of_mem hmem) (Nat.le_add_right _ _)

namespace Connection

/-- What can be looked up is what was kept before, or else the first valid declaration. -/
theorem findPoint?_register (kept declared : List Point) (device : DeviceId) (name : String) :
    findPoint? (register kept declared).1 device name =
      (findPoint? kept device name).or
        (findPoint? (declared.filter fun point => point.Valid) device name) := by
  induction declared generalizing kept with
  | nil => simp [register, findPoint?]
  | cons first rest ih =>
      rw [register]
      split
      · next error hinvalid =>
          have hfirst : ¬first.Valid := by simp [Point.Valid, hinvalid]
          rw [List.filter_cons_of_neg (by simpa using hfirst)]
          exact ih kept
      · next hvalid =>
          have hfirst : first.Valid := hvalid
          rw [List.filter_cons_of_pos (by simpa using hfirst)]
          rw [findPoint?_cons]
          split
          · next hrepeated =>
              rw [ih]
              split
              · next hkey =>
                  obtain ⟨rfl, rfl⟩ := Prod.mk.inj hkey
                  obtain ⟨point, hfound⟩ := Option.isSome_iff_exists.mp hrepeated
                  simp [hfound]
              · rfl
          · next hnew =>
              rw [ih, findPoint?_append, findPoint?_cons, Option.or_assoc]
              split <;> rfl

theorem register_keys_nodup (hkept : (kept.map Point.key).Nodup) :
    ((register kept declared).1.map Point.key).Nodup := by
  induction declared generalizing kept with
  | nil => exact hkept
  | cons first rest ih =>
      rw [register]
      split
      · exact ih hkept
      · split
        · exact ih hkept
        · next hnew =>
            apply ih
            rw [List.map_append, List.nodup_append]
            refine ⟨hkept, by simp, ?_⟩
            rintro key hkey other hother rfl
            obtain ⟨point, hpoint, rfl⟩ := List.mem_map.mp hkey
            rw [List.map_singleton, List.mem_singleton] at hother
            exact hnew (isSome_findPoint?_iff.mpr ⟨point, hpoint, hother⟩)

/-- A device is kept with the first valid declaration of one of its points. -/
theorem eraseDups_devices_register (kept declared : List Point) :
    ((register kept declared).1.map (·.device)).eraseDups =
      (kept.map (·.device) ++
        (declared.filter fun point => point.Valid).map (·.device)).eraseDups := by
  induction declared generalizing kept with
  | nil => simp [register]
  | cons first rest ih =>
      rw [register]
      split
      · next error hinvalid =>
          have hfirst : ¬first.Valid := by simp [Point.Valid, hinvalid]
          rw [List.filter_cons_of_neg (by simpa using hfirst)]
          exact ih kept
      · next hvalid =>
          have hfirst : first.Valid := hvalid
          rw [List.filter_cons_of_pos (by simpa using hfirst), List.map_cons]
          split
          · next hrepeated =>
              obtain ⟨other, hother, hkey⟩ := isSome_findPoint?_iff.mp hrepeated
              have hdevice : first.device ∈ kept.map (·.device) :=
                List.mem_map.mpr ⟨other, hother, (Prod.mk.inj hkey).1⟩
              rw [ih, eraseDups_append_cons_of_mem hdevice]
          · rw [ih, List.map_append, List.append_assoc]
            rfl

theorem mem_devices_iff {c : Connection} :
    device ∈ c.devices ↔ ∃ name, (findPoint? c.points device name).isSome = true := by
  simp only [devices, List.mem_eraseDups, List.mem_map, isSome_findPoint?_iff, Point.key,
    Prod.mk.injEq]
  constructor
  · rintro ⟨point, hmem, rfl⟩
    exact ⟨point.name, point, hmem, rfl, rfl⟩
  · rintro ⟨name, point, hmem, hdevice, -⟩
    exact ⟨point, hmem, hdevice⟩

/-- A kept point that can be read is polled, since nothing that is kept is invalid. -/
theorem polled_create_perm (settings : ConnectionSettings) (codec : ValueCodec)
    (declared : List Point) :
    (PollGroup.members (create settings codec declared).1.scheduler.groups).Perm
      ((create settings codec declared).1.points.filter (·.access.isReadable)) := by
  have hfilter : (create settings codec declared).1.points.filter Point.isPolled =
      (create settings codec declared).1.points.filter (·.access.isReadable) := by
    refine List.filter_congr fun point hmem => ?_
    have hvalid : point.Valid := create_valid settings codec declared point hmem
    simp [Point.isPolled, hvalid]
  rw [← hfilter]
  exact polled_buildGroups _ _

/-- The points that are looked up, the points that are polled and the devices go by the same
declarations. -/
structure Agrees (declared : List Point) (c : Connection) : Prop where
  /-- A write finds the first valid declaration of a name of a device, and nothing else. -/
  found_iff : ∀ device name point, findPoint? c.points device name = some point ↔
    point.IsFirstValid declared device name
  /-- What has a valid declaration is found. -/
  found : ∀ point ∈ declared, point.Valid →
    (findPoint? c.points point.device point.name).isSome = true
  /-- The points that are polled are those that a write can find and that can be read. -/
  polled_iff : ∀ point, point ∈ PollGroup.members c.scheduler.groups ↔
    findPoint? c.points point.device point.name = some point ∧ point.access.isReadable = true
  /-- No point is polled twice. -/
  polled_once : ((PollGroup.members c.scheduler.groups).map Point.key).Nodup
  /-- The devices are those of the points that a write can find. -/
  device_iff : ∀ device, device ∈ c.devices ↔
    ∃ name, (findPoint? c.points device name).isSome = true
  device_once : c.devices.Nodup
  /-- Devices come in the order of their first valid declarations. -/
  first_seen : c.devices.Pairwise fun left right =>
    ((declared.filter fun point => point.Valid).map (·.device)).idxOf left <
      ((declared.filter fun point => point.Valid).map (·.device)).idxOf right

/-- Whatever is declared, in whatever order, the scheduler and the writers of a new connection agree
on the points. -/
theorem agrees_create (settings : ConnectionSettings) (codec : ValueCodec)
    (declared : List Point) : Agrees declared (create settings codec declared).1 := by
  have hpoints : (create settings codec declared).1.points = (register [] declared).1 := rfl
  have hfind (device : DeviceId) (name : String) :
      findPoint? (create settings codec declared).1.points device name =
        findPoint? (declared.filter fun point => point.Valid) device name := by
    rw [hpoints, findPoint?_register]
    rfl
  have hkeys : ((create settings codec declared).1.points.map Point.key).Nodup :=
    register_keys_nodup List.nodup_nil
  have hdevices : (create settings codec declared).1.devices =
      ((declared.filter fun point => point.Valid).map (·.device)).eraseDups :=
    eraseDups_devices_register [] declared
  have hpolled := polled_create_perm settings codec declared
  exact {
    found_iff := by
      intro device name point
      rw [hfind, findPoint?_valid_eq_some_iff]
    found := by
      intro point hmem hvalid
      rw [hfind, isSome_findPoint?_iff]
      exact ⟨point, List.mem_filter.mpr ⟨hmem, by simpa using hvalid⟩, rfl⟩
    polled_iff := by
      intro point
      rw [hpolled.mem_iff, List.mem_filter, findPoint?_key_iff hkeys]
    polled_once := by
      rw [(hpolled.map Point.key).nodup_iff]
      exact hkeys.sublist (List.filter_sublist.map _)
    device_iff := fun device => mem_devices_iff
    device_once := devices_nodup _
    first_seen := by
      rw [hdevices]
      exact pairwise_idxOf_eraseDups _ }

/-- A declaration that is not valid gives way to the next one, and later ones are left out. -/
example : (create {} Codec.registerCodec
    [{ Point.sample with rawType := .uint32, address := 65535 }, Point.sample,
      { Point.sample with address := 9 }]).1.points = [Point.sample] := by
  decide

end Connection

end Fieldbus

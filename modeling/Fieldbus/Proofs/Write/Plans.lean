import Fieldbus.Proofs.Write.Commands
import Mathlib.Data.List.Forall2

/-!
# What plans do

The commands of a plan are sorted and merged, but they do to a memory what the points do when they
are written one after the other as the caller named them.
-/

namespace Fieldbus

open Codec

section Sorting

variable {A S : Type} {key : A → Nat} {items other : List A} {act : S → A → S}

/-- A stable sort keeps the order of items with the same key. -/
theorem filter_mergeSort (key : A → Nat) (items : List A) (value : Nat) :
    (items.mergeSort fun left right => key left ≤ key right).filter (key · = value) =
      items.filter (key · = value) := by
  have hsorted : (items.filter (key · = value)).Pairwise
      fun left right => decide (key left ≤ key right) = true := by
    apply List.pairwise_of_forall_mem_list
    intro left hleft right hright
    have hleftKey := List.of_mem_filter hleft
    have hrightKey := List.of_mem_filter hright
    simp only [decide_eq_true_eq] at hleftKey hrightKey ⊢
    omega
  have hsublist : (items.filter (key · = value)).Sublist
      (items.mergeSort fun left right => key left ≤ key right) := by
    apply List.sublist_mergeSort _ _ hsorted List.filter_sublist
    · intro first second third hfirst hsecond
      simp only [decide_eq_true_eq] at hfirst hsecond ⊢
      omega
    · intro first second
      simp only [Bool.or_eq_true, decide_eq_true_eq]
      omega
  have hfiltered := hsublist.filter (key · = value)
  rw [List.filter_filter] at hfiltered
  simp only [Bool.and_self] at hfiltered
  apply (hfiltered.eq_of_length _).symm
  exact ((List.mergeSort_perm items _).filter _).length_eq.symm

/-- An item can be moved past items that it commutes with. -/
theorem foldl_append_cons (earlier later : List A) (item : A)
    (hcomm : ∀ first ∈ earlier, ∀ state, act (act state first) item = act (act state item) first)
    (state : S) :
    (earlier ++ item :: later).foldl act state = (earlier ++ later).foldl act (act state item) := by
  induction earlier generalizing state with
  | nil => rfl
  | cons first rest ih =>
      rw [List.cons_append, List.foldl_cons, ih fun next hnext =>
        hcomm next (List.mem_cons_of_mem _ hnext)]
      rw [hcomm first List.mem_cons_self, List.cons_append, List.foldl_cons]

theorem mem_iff_of_filter
    (hfilter : ∀ value, other.filter (key · = value) = items.filter (key · = value)) (item : A) :
    item ∈ other ↔ item ∈ items := by
  have hmem := congrArg (item ∈ ·) (hfilter (key item))
  simpa using hmem

/-- Lists that agree on the items of every key do the same, if items of different keys commute. -/
theorem foldl_eq_of_filter (key : A → Nat)
    (hcomm : ∀ first ∈ items, ∀ second ∈ items, key first ≠ key second →
      ∀ state, act (act state first) second = act (act state second) first)
    (hfilter : ∀ value, other.filter (key · = value) = items.filter (key · = value)) (state : S) :
    other.foldl act state = items.foldl act state := by
  induction items generalizing other state with
  | nil =>
      have hnone : other = [] := by
        apply List.eq_nil_iff_forall_not_mem.mpr
        intro item hitem
        simpa using (mem_iff_of_filter hfilter item).mp hitem
      rw [hnone]
  | cons item rest ih =>
      have hitem : other.filter (key · = key item) =
          item :: rest.filter (key · = key item) := by
        rw [hfilter, List.filter_cons_of_pos (by simp)]
      obtain ⟨earlier, later, rfl, hearlier, -, hlater⟩ := List.filter_eq_cons_iff.mp hitem
      have hdifferent : ∀ first ∈ earlier, key first ≠ key item := by
        intro first hfirst
        simpa using hearlier first hfirst
      have hmove : ∀ first ∈ earlier, ∀ state,
          act (act state first) item = act (act state item) first := by
        intro first hfirst
        apply hcomm first _ item List.mem_cons_self (hdifferent first hfirst)
        exact (mem_iff_of_filter hfilter first).mp (List.mem_append_left _ hfirst)
      rw [foldl_append_cons earlier later item hmove, List.foldl_cons]
      apply ih
      · intro first hfirst second hsecond
        exact hcomm first (List.mem_cons_of_mem _ hfirst) second (List.mem_cons_of_mem _ hsecond)
      · intro value
        rw [List.filter_append]
        by_cases hvalue : key item = value
        · subst hvalue
          have hnone : earlier.filter (key · = key item) = [] := by
            apply List.filter_eq_nil_iff.mpr
            intro first hfirst
            simpa using hdifferent first hfirst
          rw [hnone, hlater]
          rfl
        · have hvalues := hfilter value
          rw [List.filter_append, List.filter_cons_of_neg (by simpa using hvalue),
            List.filter_cons_of_neg (by simpa using hvalue)] at hvalues
          exact hvalues

end Sorting

/-! ## Sorting and merging commands -/

namespace WriteCommand

/-- The place of a command in the order of commands. -/
def key (command : WriteCommand) : Nat :=
  (command.unit.value.toNat * 4 + command.registerClass.rank) * AddressRange.spaceSize
    + command.start.toNat

theorem precedes_eq : precedes = fun left right => decide (left.key ≤ right.key) := rfl

variable {left right current : WriteCommand} {commands : List WriteCommand} {memory : Memory}

/-- Commands of different blocks can be sorted first. -/
theorem applyAll_mergeSort (hsound : ∀ command ∈ commands, command.Sound)
    (hapart : ∀ left ∈ commands, ∀ right ∈ commands, left.key ≠ right.key →
      left.block.Apart right.block) (memory : Memory) :
    applyAll registerCodec (commands.mergeSort precedes) memory =
      applyAll registerCodec commands memory := by
  apply foldl_eq_of_filter key
  · intro first hfirst second hsecond hkey memory
    exact (hsound first hfirst).apply_comm (hsound second hsecond)
      (hapart first hfirst second hsecond hkey) memory
  · intro value
    rw [precedes_eq]
    exact filter_mergeSort key commands value

theorem canMerge_iff {maxSpan : Nat} (hmerge : left.canMerge maxSpan right = true) :
    ∃ words more, left.values = .words words ∧ right.values = .words more ∧
      left.registerClass = .holdingRegister ∧ right.registerClass = .holdingRegister ∧
        left.unit = right.unit ∧ left.field = none ∧ right.field = none ∧
          left.stop = right.start.toNat := by
  rw [canMerge] at hmerge
  split at hmerge
  · next words more hwords hmore =>
      simp only [Bool.and_eq_true, beq_iff_eq, Option.isNone_iff_eq_none,
        decide_eq_true_eq] at hmerge
      obtain ⟨⟨⟨⟨⟨⟨hleft, hright⟩, hunit⟩, hfield⟩, hnone⟩, hstop⟩, -⟩ := hmerge
      exact ⟨words, more, hwords, hmore, hleft, hright, hunit, hfield, hnone, hstop⟩
  · simp at hmerge

/-- Two commands that are merged are made as one. -/
theorem Sound.merge {maxSpan : Nat} (hright : right.Sound)
    (hmerge : left.canMerge maxSpan right = true) :
    (left.merge right).Sound ∧ ∀ codec memory,
      (left.merge right).apply codec memory = right.apply codec (left.apply codec memory) := by
  obtain ⟨words, more, hwords, hmore, hclass, hrightClass, hunit, hfield, hnone, hstop⟩ :=
    canMerge_iff hmerge
  have hvalues : (left.merge right).values = .words (words ++ more) := by
    rw [WriteCommand.merge, hwords, hmore]
  have hlength : left.values.length = words.length := by rw [hwords, WireValues.length]
  have hmoreLength : right.values.length = more.length := by rw [hmore, WireValues.length]
  have hfits := hright.fits
  rw [stop, hmoreLength] at hfits
  rw [stop, hlength] at hstop
  constructor
  · constructor
    · rw [stop, hvalues, WireValues.length, List.length_append]
      rw [← hstop] at hfits
      exact Nat.add_assoc _ _ _ ▸ hfits
    · intro point value hsome
      have hmerged : (left.merge right).field = left.field := rfl
      simp [hmerged, hfield] at hsome
  · intro codec memory
    rw [apply, apply, apply, hfield, hnone, show (left.merge right).field = none from hfield]
    dsimp only
    rw [hvalues, hwords, hmore, ← hunit, hrightClass, ← hclass]
    exact Memory.store_append hstop.symm hfits memory

/-- Merging neighbours changes nothing. -/
theorem mergeFrom_sound (maxSpan : Nat) (current : WriteCommand) (commands : List WriteCommand)
    (hcurrent : current.Sound) (hsound : ∀ command ∈ commands, command.Sound) :
    (∀ command ∈ mergeFrom maxSpan current commands, command.Sound) ∧ ∀ codec memory,
      applyAll codec (mergeFrom maxSpan current commands) memory =
        applyAll codec (current :: commands) memory := by
  induction commands generalizing current with
  | nil =>
      constructor
      · intro command hcommand
        rwa [List.mem_singleton.mp hcommand]
      · exact fun _ _ => rfl
  | cons next rest ih =>
      have hnext := hsound next List.mem_cons_self
      have hrest := fun command hcommand => hsound command (List.mem_cons_of_mem _ hcommand)
      rw [mergeFrom]
      split
      · next hmerge =>
          obtain ⟨hmerged, happly⟩ := hnext.merge hmerge
          obtain ⟨hall, hsame⟩ := ih (current.merge next) hmerged hrest
          refine ⟨hall, fun codec memory => ?_⟩
          rw [hsame, applyAll, List.foldl_cons, happly]
          rfl
      · obtain ⟨hall, hsame⟩ := ih next hnext hrest
        refine ⟨List.forall_mem_cons.mpr ⟨hcurrent, hall⟩, fun codec memory => ?_⟩
        exact hsame codec _

theorem mergeAll_sound (maxSpan : Nat) (hsound : ∀ command ∈ commands, command.Sound) :
    (∀ command ∈ mergeAll maxSpan commands, command.Sound) ∧ ∀ codec memory,
      applyAll codec (mergeAll maxSpan commands) memory = applyAll codec commands memory := by
  cases commands with
  | nil => exact ⟨hsound, fun _ _ => rfl⟩
  | cons first rest =>
      obtain ⟨hfirst, hrest⟩ := List.forall_mem_cons.mp hsound
      exact mergeFrom_sound maxSpan first rest hfirst hrest

end WriteCommand

namespace PointWrite

variable {points : List Point} {device : DeviceId} {write : PointWrite} {writes : List PointWrite}
variable {command : WriteCommand} {commands : List WriteCommand}

/-- Points of one unit and class whose addresses intersect start at the same address. -/
def ShareStarts (points : List Point) (device : DeviceId) (writes : List PointWrite) : Prop :=
  ∀ left ∈ writes, ∀ right ∈ writes, ∀ first second,
    findPoint? points device left.name = some first →
      findPoint? points device right.name = some second → first.unit = second.unit →
        first.registerClass = second.registerClass → first.rangesOverlap second = true →
          first.address = second.address

theorem mem_of_findPoint? {name : String} {point : Point}
    (hpoint : findPoint? points device name = some point) : point ∈ points :=
  List.mem_of_find?_eq_some hpoint

/-- What a point must be like to have a command. -/
theorem toCommand_eq_ok {codec : ValueCodec}
    (hcommand : write.toCommand codec points device = .ok command) :
    ∃ point values, findPoint? points device write.name = some point ∧
      point.access.isWritable = true ∧ point.registerClass.isWritable = true ∧
        codec.encode point write.value (point.bits.map fun _ => 0) = .ok values ∧
          command = ⟨point.unit, point.registerClass, point.address, values, [point.name],
            point.bits.map fun _ => (point, write.value)⟩ := by
  rw [toCommand] at hcommand
  cases hpoint : findPoint? points device write.name with
  | none =>
      rw [hpoint] at hcommand
      cases hcommand
  | some point =>
      simp only [hpoint] at hcommand
      split at hcommand
      · cases hcommand
      · next haccess =>
          split at hcommand
          · cases hcommand
          · next hwritable =>
              split at hcommand
              · next values hencode =>
                  refine ⟨point, values, rfl, by simpa using haccess, by simpa using hwritable,
                    hencode, ?_⟩
                  exact (Except.ok.inj hcommand).symm
              · cases hcommand

/-- The command of a valid point writes the point. -/
theorem toCommand_sound (hvalid : ∀ point ∈ points, point.Valid)
    (hcommand : write.toCommand registerCodec points device = .ok command) :
    ∃ point, point.Valid ∧ findPoint? points device write.name = some point ∧
      command.unit = point.unit ∧ command.registerClass = point.registerClass ∧
        command.start = point.address ∧
          command.stop = point.address.toNat + point.quantity.toNat ∧
            command.Sound ∧ ∀ memory, write.Performs points device memory
              (command.apply registerCodec memory) := by
  obtain ⟨point, values, hpoint, -, hwritable, hencode, rfl⟩ := toCommand_eq_ok hcommand
  have hpointValid := hvalid point (mem_of_findPoint? hpoint)
  have hlength : values.length = point.quantity.toNat := length_encode hpointValid hencode
  have hstop : point.address.toNat + values.length = point.address.toNat + point.quantity.toNat :=
    congrArg (point.address.toNat + ·) hlength
  refine ⟨point, hpointValid, hpoint, rfl, rfl, rfl, hstop, ?_⟩
  have hfits : point.address.toNat + values.length ≤ AddressRange.spaceSize :=
    hstop ▸ hpointValid.stop_le
  cases hbits : point.bits with
  | none =>
      rw [hbits] at hencode
      refine ⟨⟨hfits, fun _ _ hsome => by simp at hsome⟩, fun memory => ?_⟩
      exact .plain hpoint hbits hencode
  | some field =>
      obtain ⟨hword, -, hfieldFits⟩ := hpointValid.field hbits
      have hclass : point.registerClass = .holdingRegister := by
        cases hcase : point.registerClass <;>
          simp [hcase, RegisterClass.isBit, RegisterClass.isWritable] at hword hwritable ⊢
      have hencodes := encode_field hword hbits write.value
      rw [hbits, Option.map_some, show registerCodec.encode = encode from rfl,
        hencodes] at hencode
      obtain ⟨first, hfirst, rfl⟩ := exists_of_map_eq_ok hencode
      obtain ⟨number, hnumber, hmax, hmerges⟩ := exists_encodeField hfieldFits hfirst
      have hrewrites : ∀ old, ∃ new, encode point write.value (some old) = .ok (.words [new]) ∧
          field.Replaces number (point.seen old) (point.seen new) := by
        intro old
        obtain ⟨new, hnew, hreplaces⟩ := hmerges old
        exact ⟨new, by rw [hencodes, hnew]; rfl, hreplaces⟩
      constructor
      · refine ⟨hfits, fun other value hsome => ?_⟩
        obtain ⟨rfl, rfl⟩ := Prod.mk.inj (Option.some.inj hsome)
        exact ⟨hclass, rfl, field, number, hbits, hnumber, hrewrites⟩
      · intro memory
        obtain ⟨new, hnew, hreplaces⟩ :=
          hrewrites (memory.word point.unit .holdingRegister point.address)
        rw [WriteCommand.apply]
        simp only [Option.map_some, show registerCodec.encode = encode from rfl, hnew]
        exact .field hpoint hbits hnumber hmax (hclass ▸ hreplaces)

theorem mapM_cons_eq_ok {f : PointWrite → Except WriteError WriteCommand} {rest : List PointWrite}
    (hcommands : (write :: rest).mapM f = .ok commands) :
    ∃ first more, f write = .ok first ∧ rest.mapM f = .ok more ∧ commands = first :: more := by
  rw [List.mapM_cons] at hcommands
  obtain ⟨first, hfirst, hothers⟩ := exists_of_bind_eq_ok hcommands
  obtain ⟨more, hmore, hpair⟩ := exists_of_bind_eq_ok hothers
  exact ⟨first, more, hfirst, hmore, (Except.ok.inj hpair).symm⟩

theorem mergeFrom_ne_nil (maxSpan : Nat) (current : WriteCommand) (commands : List WriteCommand) :
    WriteCommand.mergeFrom maxSpan current commands ≠ [] := by
  induction commands generalizing current with
  | nil => simp [WriteCommand.mergeFrom]
  | cons next rest ih =>
      rw [WriteCommand.mergeFrom]
      split
      · exact ih _
      · simp

/-- The plan of a write has commands unless the write names no points. -/
theorem plan_ne_nil {codec : ValueCodec} {maxSpan : Nat}
    (hplan : planWrite codec points maxSpan device writes = .ok commands) (hwrites : writes ≠ []) :
    commands ≠ [] := by
  obtain ⟨named, hnamed, hmerged⟩ := exists_of_bind_eq_ok hplan
  obtain rfl := Except.ok.inj hmerged
  obtain ⟨write, rest, rfl⟩ := List.exists_cons_of_ne_nil hwrites
  obtain ⟨first, more, -, -, rfl⟩ := mapM_cons_eq_ok hnamed
  cases hsorted : (first :: more).mergeSort WriteCommand.precedes with
  | nil =>
      have hlength := (List.mergeSort_perm (first :: more) WriteCommand.precedes).length_eq
      simp [hsorted] at hlength
  | cons head tail => exact mergeFrom_ne_nil maxSpan head tail

/-- Every command comes from a write. -/
theorem exists_write {f : PointWrite → Except WriteError WriteCommand}
    (hcommands : writes.mapM f = .ok commands) (hmem : command ∈ commands) :
    ∃ write ∈ writes, f write = .ok command := by
  induction writes generalizing commands with
  | nil =>
      obtain rfl := Except.ok.inj (show Except.ok [] = Except.ok commands from hcommands)
      simp at hmem
  | cons write rest ih =>
      obtain ⟨first, more, hfirst, hmore, rfl⟩ := mapM_cons_eq_ok hcommands
      rcases List.mem_cons.mp hmem with rfl | hlater
      · exact ⟨write, List.mem_cons_self, hfirst⟩
      · obtain ⟨other, hother, hcommand⟩ := ih hmore hlater
        exact ⟨other, List.mem_cons_of_mem _ hother, hcommand⟩

/-- The commands of points, as they are named, write the points. -/
theorem threads_performs (hvalid : ∀ point ∈ points, point.Valid)
    (hcommands : writes.mapM (toCommand registerCodec points device) = .ok commands)
    (memory : Memory) :
    Threads (Performs points device) memory writes
      (WriteCommand.applyAll registerCodec commands memory) := by
  induction writes generalizing commands memory with
  | nil =>
      obtain rfl := Except.ok.inj (show Except.ok [] = Except.ok commands from hcommands)
      exact .nil memory
  | cons write rest ih =>
      obtain ⟨first, more, hfirst, hmore, rfl⟩ := mapM_cons_eq_ok hcommands
      obtain ⟨point, -, -, -, -, -, -, -, hperforms⟩ := toCommand_sound hvalid hfirst
      exact .cons (hperforms memory) (ih hmore _)

theorem named_sound (hvalid : ∀ point ∈ points, point.Valid)
    (hnamed : writes.mapM (toCommand registerCodec points device) = .ok commands) :
    ∀ command ∈ commands, command.Sound := by
  intro command hmem
  obtain ⟨write, -, hcommand⟩ := exists_write hnamed hmem
  obtain ⟨point, -, -, -, -, -, -, hsound, -⟩ := toCommand_sound hvalid hcommand
  exact hsound

/-- Commands of points that start at different addresses are about different cells. -/
theorem named_apart (hvalid : ∀ point ∈ points, point.Valid)
    (hstarts : ShareStarts points device writes)
    (hnamed : writes.mapM (toCommand registerCodec points device) = .ok commands) :
    ∀ left ∈ commands, ∀ right ∈ commands, left.key ≠ right.key →
      left.block.Apart right.block := by
  intro left hleft right hright hkey hunit hclass
  obtain ⟨write, hwrite, hleftCommand⟩ := exists_write hnamed hleft
  obtain ⟨other, hother, hrightCommand⟩ := exists_write hnamed hright
  obtain ⟨first, hfirstValid, hfirst, hfirstUnit, hfirstClass, hfirstStart, hfirstStop, -⟩ :=
    toCommand_sound hvalid hleftCommand
  obtain ⟨second, hsecondValid, hsecond, hsecondUnit, hsecondClass, hsecondStart, hsecondStop,
    -⟩ := toCommand_sound hvalid hrightCommand
  have hsameUnit : first.unit = second.unit := by
    rw [← hfirstUnit, ← hsecondUnit]
    exact hunit
  have hsameClass : first.registerClass = second.registerClass := by
    rw [← hfirstClass, ← hsecondClass]
    exact hclass
  by_contra hmeet
  apply hkey
  have hoverlap : first.rangesOverlap second = true := by
    simp only [Point.rangesOverlap, hfirstValid.range_eq, hsecondValid.range_eq,
      AddressRange.overlaps, Bool.and_eq_true, decide_eq_true_eq]
    simp only [WriteCommand.block, hfirstStart, hfirstStop, hsecondStart, hsecondStop] at hmeet
    dsimp only [AddressRange.stop]
    omega
  have haddress := hstarts write hwrite other hother first second hfirst hsecond hsameUnit
    hsameClass hoverlap
  rw [WriteCommand.key, WriteCommand.key, hfirstUnit, hfirstClass, hfirstStart, hsecondUnit,
    hsecondClass, hsecondStart, hsameUnit, hsameClass, haddress]

theorem plan_sound {maxSpan : Nat} (hvalid : ∀ point ∈ points, point.Valid)
    (hplan : planWrite registerCodec points maxSpan device writes = .ok commands) :
    ∀ command ∈ commands, command.Sound := by
  obtain ⟨named, hnamed, hmerged⟩ := exists_of_bind_eq_ok hplan
  obtain rfl := Except.ok.inj hmerged
  apply (WriteCommand.mergeAll_sound maxSpan _).1
  intro command hmem
  exact named_sound hvalid hnamed command (List.mem_mergeSort.mp hmem)

/-- The plan of a write does what the points do one after the other, as the caller named them. -/
theorem plan_performs {maxSpan : Nat} (hvalid : ∀ point ∈ points, point.Valid)
    (hstarts : ShareStarts points device writes)
    (hplan : planWrite registerCodec points maxSpan device writes = .ok commands)
    (memory : Memory) :
    Threads (Performs points device) memory writes
      (WriteCommand.applyAll registerCodec commands memory) := by
  obtain ⟨named, hnamed, hmerged⟩ := exists_of_bind_eq_ok hplan
  obtain rfl := Except.ok.inj hmerged
  have hsound := named_sound hvalid hnamed
  have hsorted : ∀ command ∈ named.mergeSort WriteCommand.precedes, command.Sound := by
    intro command hmem
    exact hsound command (List.mem_mergeSort.mp hmem)
  rw [(WriteCommand.mergeAll_sound maxSpan hsorted).2,
    WriteCommand.applyAll_mergeSort hsound (named_apart hvalid hstarts hnamed)]
  exact threads_performs hvalid hnamed memory

end PointWrite

/-- Only valid points can be written. -/
theorem Connection.register_valid {kept declared : List Point}
    (hkept : ∀ point ∈ kept, point.Valid) :
    ∀ point ∈ (register kept declared).1, point.Valid := by
  induction declared generalizing kept with
  | nil => exact hkept
  | cons first rest ih =>
      rw [register]
      split
      · exact ih hkept
      · next hvalid =>
          split
          · exact ih hkept
          · apply ih
            intro point hpoint
            rcases List.mem_append.mp hpoint with hmem | hmem
            · exact hkept point hmem
            · rw [List.mem_singleton.mp hmem]
              exact hvalid

theorem Connection.create_valid (settings : ConnectionSettings) (codec : ValueCodec)
    (declared : List Point) : ∀ point ∈ (create settings codec declared).1.points, point.Valid :=
  register_valid (by simp)

end Fieldbus

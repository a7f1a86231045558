import Fieldbus.Connection.Basic
import Mathlib.Data.List.Basic

/-!
# Calls by their numbers

The calls under way are a list, but what matters of them is which phase the call with a number is
in.  Every change of the list is a change of that map at one number.
-/

namespace Fieldbus

namespace Calls

variable {calls : List Call} {id : Nat} {phase old : CallPhase}

/-- The phase of the call with a number. -/
def phase? (calls : List Call) (id : Nat) : Option CallPhase :=
  (calls.find? (·.id == id)).map (·.phase)

def set (id : Nat) (phase : CallPhase) (calls : List Call) : List Call :=
  calls.map fun call => if call.id = id then { call with phase } else call

def remove (id : Nat) (calls : List Call) : List Call := calls.filter (·.id ≠ id)

def add (id : Nat) (phase : CallPhase) (calls : List Call) : List Call := calls ++ [⟨id, phase⟩]

/-- The writes that the scheduler knows of. -/
def announced (calls : List Call) : Nat := calls.countP (·.phase.isAnnounced)

theorem phase?_cons (call : Call) (calls : List Call) (id : Nat) :
    phase? (call :: calls) id = if call.id = id then some call.phase else phase? calls id := by
  unfold phase?
  by_cases hid : call.id = id <;> simp [hid]

theorem phase?_eq_none_iff : phase? calls id = none ↔ ∀ call ∈ calls, call.id ≠ id := by
  simp [phase?]

theorem exists_mem_of_phase? (hphase : phase? calls id = some phase) :
    ⟨id, phase⟩ ∈ calls := by
  induction calls with
  | nil => simp [phase?] at hphase
  | cons call rest ih =>
      rw [phase?_cons] at hphase
      split at hphase
      · next hid =>
          obtain rfl := Option.some.inj hphase
          exact List.mem_cons.mpr (.inl (by rw [← hid]))
      · exact List.mem_cons_of_mem _ (ih hphase)

theorem phase?_set_apply (id : Nat) (phase : CallPhase) (calls : List Call) (other : Nat) :
    phase? (set id phase calls) other =
      if other = id then (phase? calls id).map fun _ => phase else phase? calls other := by
  induction calls with
  | nil => simp [phase?, set]
  | cons call rest ih =>
      rw [set, List.map_cons, phase?_cons, phase?_cons, phase?_cons]
      rw [set] at ih
      by_cases hid : call.id = id
      · by_cases hother : other = id
        · simp [hid, hother]
        · have hne : id ≠ other := fun heq => hother heq.symm
          simp [hid, hother, hne, ih]
      · simp only [hid, if_false, ih]
        by_cases hother : other = id
        · simp [hother, hid]
        · simp [hother]

theorem phase?_set (hphase : phase? calls id ≠ none) :
    phase? (set id phase calls) = Function.update (phase? calls) id (some phase) := by
  funext other
  obtain ⟨old, hold⟩ := Option.ne_none_iff_exists'.mp hphase
  rw [phase?_set_apply, hold, Function.update_apply]
  rfl

theorem phase?_remove (id : Nat) (calls : List Call) :
    phase? (remove id calls) = Function.update (phase? calls) id none := by
  funext other
  induction calls with
  | nil => simp [phase?, remove, Function.update_apply]
  | cons call rest ih =>
      rw [Function.update_apply, remove, List.filter_cons]
      rw [Function.update_apply, remove] at ih
      by_cases hid : call.id = id
      · by_cases hother : other = id
        · simpa [hid, hother] using ih
        · have hne : id ≠ other := fun heq => hother heq.symm
          simpa [hid, hother, hne, phase?_cons] using ih
      · simp only [hid, ne_eq, not_false_eq_true, decide_true, if_true, phase?_cons, ih]
        by_cases hother : other = id
        · simp [hother, hid]
        · simp [hother]

theorem phase?_add (hnew : phase? calls id = none) :
    phase? (add id phase calls) = Function.update (phase? calls) id (some phase) := by
  funext other
  rw [Function.update_apply]
  induction calls with
  | nil =>
      by_cases hother : other = id
      · simp [phase?, add, hother]
      · have hne : id ≠ other := fun heq => hother heq.symm
        simp [phase?, add, hother, hne]
  | cons call rest ih =>
      rw [phase?_cons] at hnew
      split at hnew
      · exact absurd hnew (by simp)
      · next hid =>
          rw [add, List.cons_append, phase?_cons, phase?_cons, ← add, ih hnew]
          by_cases hother : other = id
          · simp [hother, hid]
          · simp [hother]

theorem phase?_of_set {other : Nat} {found : CallPhase} (hne : phase ≠ found)
    (hfound : phase? (set id phase calls) other = some found) :
    phase? calls other = some found := by
  rw [phase?_set_apply] at hfound
  split at hfound
  · obtain ⟨_, _, heq⟩ := Option.map_eq_some_iff.mp hfound
    exact absurd heq hne
  · exact hfound

theorem phase?_of_remove {other : Nat} {found : CallPhase}
    (hfound : phase? (remove id calls) other = some found) :
    phase? calls other = some found := by
  rw [phase?_remove, Function.update_apply] at hfound
  split at hfound
  · simp at hfound
  · exact hfound

theorem phase?_of_add {other : Nat} {found : CallPhase} (hnew : phase? calls id = none)
    (hne : phase ≠ found) (hfound : phase? (add id phase calls) other = some found) :
    phase? calls other = some found := by
  rw [phase?_add hnew, Function.update_apply] at hfound
  split at hfound
  · exact absurd (Option.some.inj hfound) hne
  · exact hfound

/-- The call with a number is the one that changes, or it stays the same. -/
theorem set_cases {other : Nat} {before old new : CallPhase}
    (hbefore : phase? calls id = some before) (hold : phase? calls other = some old)
    (hnew : phase? (set id phase calls) other = some new) :
    id ≠ other ∧ new = old ∨ id = other ∧ before = old ∧ phase = new := by
  rw [phase?_set_apply, hold, hbefore, Option.map_some] at hnew
  split at hnew
  · next hsame =>
      subst hsame
      exact .inr ⟨rfl, Option.some.inj (hbefore.symm.trans hold), Option.some.inj hnew⟩
  · next hother => exact .inl ⟨Ne.symm hother, (Option.some.inj hnew).symm⟩

theorem remove_cases {other : Nat} {old new : CallPhase} (hold : phase? calls other = some old)
    (hnew : phase? (remove id calls) other = some new) : id ≠ other ∧ new = old := by
  rw [phase?_remove, Function.update_apply] at hnew
  split at hnew
  · simp at hnew
  · next hother => exact ⟨Ne.symm hother, Option.some.inj (hnew.symm.trans hold)⟩

theorem add_cases {other : Nat} {old new : CallPhase} (hfresh : phase? calls id = none)
    (hold : phase? calls other = some old) (hnew : phase? (add id phase calls) other = some new) :
    new = old := by
  have hother : other ≠ id := by
    rintro rfl
    simp [hold] at hfresh
  rw [phase?_add hfresh, Function.update_of_ne hother] at hnew
  exact Option.some.inj (hnew.symm.trans hold)

theorem set_set (id : Nat) (phase next : CallPhase) (calls : List Call) :
    set id next (set id phase calls) = set id next calls := by
  rw [set, set, List.map_map]
  refine List.map_congr_left fun call _ => ?_
  by_cases hid : call.id = id <;> simp [hid]

def weight (phase : CallPhase) : Nat := if phase.isAnnounced then 1 else 0

theorem announced_cons (call : Call) (calls : List Call) :
    announced (call :: calls) = announced calls + weight call.phase := by
  simp [announced, weight, List.countP_cons]

theorem announced_add (id : Nat) (phase : CallPhase) (calls : List Call) :
    announced (add id phase calls) = announced calls + weight phase := by
  simp [announced, weight, add, List.countP_append, List.countP_cons]

theorem announced_pos (hphase : phase? calls id = some phase) (hknown : phase.isAnnounced) :
    0 < announced calls :=
  List.countP_pos_iff.mpr ⟨_, exists_mem_of_phase? hphase, hknown⟩

theorem set_eq_self (hnone : phase? calls id = none) : set id phase calls = calls := by
  rw [set]
  conv_rhs => rw [← List.map_id calls]
  refine List.map_congr_left fun call hcall => ?_
  simp [phase?_eq_none_iff.mp hnone call hcall]

theorem remove_eq_self (hnone : phase? calls id = none) : remove id calls = calls :=
  List.filter_eq_self.mpr fun call hcall => by
    simpa using phase?_eq_none_iff.mp hnone call hcall

/-- The numbers of the calls are different. -/
def Distinct (calls : List Call) : Prop := (calls.map (·.id)).Nodup

theorem Distinct.phase?_tail {call : Call} (hdistinct : Distinct (call :: calls)) :
    phase? calls call.id = none := by
  rw [phase?_eq_none_iff]
  intro other hother heq
  rw [Distinct, List.map_cons, List.nodup_cons] at hdistinct
  exact hdistinct.1 (heq ▸ List.mem_map_of_mem hother)

theorem phase?_eq_some_iff (hdistinct : Distinct calls) :
    phase? calls id = some phase ↔ ⟨id, phase⟩ ∈ calls := by
  refine ⟨exists_mem_of_phase?, fun hmem => ?_⟩
  induction calls with
  | nil => simp at hmem
  | cons call rest ih =>
      rw [phase?_cons]
      rcases List.mem_cons.mp hmem with rfl | hmem
      · rw [if_pos rfl]
      · have hother : call.id ≠ id := by
          rintro rfl
          exact phase?_eq_none_iff.mp hdistinct.phase?_tail _ hmem rfl
        rw [if_neg hother]
        exact ih (List.nodup_cons.mp hdistinct).2 hmem

theorem announced_set (hdistinct : Distinct calls) (hold : phase? calls id = some old) :
    announced (set id phase calls) + weight old = announced calls + weight phase := by
  induction calls with
  | nil => simp [phase?] at hold
  | cons call rest ih =>
      have hrest : Distinct rest := (List.nodup_cons.mp hdistinct).2
      rw [phase?_cons] at hold
      rw [set, List.map_cons, announced_cons, announced_cons, ← set]
      split at hold
      · next hid =>
          obtain rfl := Option.some.inj hold
          rw [set_eq_self (hid ▸ hdistinct.phase?_tail)]
          simp [hid, Nat.add_right_comm]
      · next hid =>
          have hsum := ih hrest hold
          simp only [hid, if_false]
          omega

theorem announced_set_self (hdistinct : Distinct calls) (hold : phase? calls id = some old)
    (hsame : phase.isAnnounced = old.isAnnounced) :
    announced (set id phase calls) = announced calls := by
  have hweight : weight phase = weight old := by rw [weight, weight, hsame]
  have hsum : announced (set id phase calls) + weight old = announced calls + weight phase :=
    announced_set hdistinct hold
  rw [hweight] at hsum
  exact Nat.add_right_cancel hsum

theorem announced_remove (hdistinct : Distinct calls) (hold : phase? calls id = some old) :
    announced (remove id calls) + weight old = announced calls := by
  induction calls with
  | nil => simp [phase?] at hold
  | cons call rest ih =>
      have hrest : Distinct rest := (List.nodup_cons.mp hdistinct).2
      rw [phase?_cons] at hold
      rw [remove, List.filter_cons, announced_cons, ← remove]
      split at hold
      · next hid =>
          obtain rfl := Option.some.inj hold
          rw [remove_eq_self (hid ▸ hdistinct.phase?_tail)]
          simp [hid]
      · next hid =>
          have hsum := ih hrest hold
          simp only [hid, ne_eq, not_false_eq_true, decide_true, if_true, announced_cons]
          omega

theorem Distinct.set (hdistinct : Distinct calls) (id : Nat) (phase : CallPhase) :
    Distinct (Calls.set id phase calls) := by
  have hids : (Calls.set id phase calls).map (·.id) = calls.map (·.id) := by
    rw [Calls.set, List.map_map]
    refine List.map_congr_left fun call _ => ?_
    by_cases hid : call.id = id <;> simp [hid]
  rw [Distinct, hids]
  exact hdistinct

theorem Distinct.remove (hdistinct : Distinct calls) (id : Nat) :
    Distinct (Calls.remove id calls) :=
  hdistinct.sublist (List.filter_sublist.map _)

theorem Distinct.add (hdistinct : Distinct calls) (hnew : phase? calls id = none)
    (phase : CallPhase) : Distinct (Calls.add id phase calls) := by
  rw [Distinct, Calls.add, List.map_append]
  refine List.nodup_append.mpr ⟨hdistinct, by simp, ?_⟩
  rintro first hfirst second hsecond rfl
  obtain ⟨call, hcall, rfl⟩ := List.mem_map.mp hfirst
  simp only [List.map_cons, List.map_nil, List.mem_singleton] at hsecond
  exact phase?_eq_none_iff.mp hnew call hcall hsecond

end Calls

end Fieldbus

import Fieldbus.Proofs.Run.Phases
import Mathlib.Data.Finset.Card

/-!
# The record of writes

The scheduler knows of writes by a count and by the end of the last one.  A write is counted from
its announcement to its end, whether it succeeds, fails or is given up at any wait, so that the
count is that of the writes under way; and since the clock does not go back, the last end is the
latest.
-/

namespace Fieldbus

/-- The scheduler knows of a write with this number. -/
def Traffic.Announced (id : Nat) (c : Traffic) : Prop :=
  (Calls.phase? c.calls id).any CallPhase.isAnnounced = true

instance (id : Nat) (c : Traffic) : Decidable (c.Announced id) :=
  inferInstanceAs (Decidable (_ = true))

theorem Traffic.announced_iff {id : Nat} {c : Traffic} :
    c.Announced id ↔
      ∃ phase, Calls.phase? c.calls id = some phase ∧ phase.isAnnounced = true := by
  rw [Announced, Option.any_eq_true]

/-- A write that the scheduler knows of is counted. -/
theorem Traffic.Orderly.pending_pos {id : Nat} {c : Traffic} (horderly : c.Orderly)
    (hannounced : c.Announced id) : 0 < c.trace.pending := by
  obtain ⟨phase, hphase, hknown⟩ := Traffic.announced_iff.mp hannounced
  rw [horderly.pending_eq]
  exact Calls.announced_pos hphase hknown

/-- A write announces itself, an announced write ends, or neither happens. -/
inductive ActivityStep (c : Traffic) (action : Action) (events : List Event)
    (after : Traffic) : Prop where
  | keep (htrace : after.trace = c.trace) (hwrites : ∀ id, after.Announced id ↔ c.Announced id)
  | starts (id : Nat) (haction : action = .run (.call id)) (hnew : ¬c.Announced id)
      (htrace : after.trace = c.trace.start)
      (hwrites : ∀ other, after.Announced other ↔ other = id ∨ c.Announced other)
  | ends (id : Nat)
      (hcause : action = .cancel id ∨ ∃ result, events = [.callReturns id (.write result)])
      (hold : c.Announced id) (htrace : after.trace = c.trace.finish c.now)
      (hwrites : ∀ other, after.Announced other ↔ other ≠ id ∧ c.Announced other)

namespace ActivityStep

variable {c after : Traffic} {action : Action} {events : List Event} {id : Nat}
variable {old new : CallPhase}

theorem of_calls_eq (htrace : after.trace = c.trace) (hcalls : after.calls = c.calls) :
    ActivityStep c action events after :=
  .keep htrace fun id => by rw [Traffic.Announced, hcalls, Traffic.Announced]

theorem announced_set_iff (hcalls : after.calls = Calls.set id new c.calls)
    (hold : Calls.phase? c.calls id = some old) (other : Nat) :
    after.Announced other ↔
      if other = id then new.isAnnounced = true else c.Announced other := by
  rw [Traffic.Announced, hcalls, Calls.phase?_set_apply, hold]
  split <;> simp [Traffic.Announced]

theorem announced_remove_iff (hcalls : after.calls = Calls.remove id c.calls) (other : Nat) :
    after.Announced other ↔ other ≠ id ∧ c.Announced other := by
  rw [Traffic.Announced, hcalls, Calls.phase?_remove, Function.update_apply]
  split <;> simp_all [Traffic.Announced]

theorem of_set (htrace : after.trace = c.trace) (hcalls : after.calls = Calls.set id new c.calls)
    (hold : Calls.phase? c.calls id = some old) (hsame : new.isAnnounced = old.isAnnounced) :
    ActivityStep c action events after := by
  refine .keep htrace fun other => ?_
  rw [announced_set_iff hcalls hold]
  split
  · next hother => simp [hother, Traffic.Announced, hold, hsame]
  · rfl

theorem of_remove (htrace : after.trace = c.trace) (hcalls : after.calls = Calls.remove id c.calls)
    (hold : Calls.phase? c.calls id = some old) (hunknown : old.isAnnounced = false) :
    ActivityStep c action events after := by
  refine .keep htrace fun other => ?_
  rw [announced_remove_iff hcalls, and_iff_right_iff_imp]
  rintro hother rfl
  simp [Traffic.Announced, hold, hunknown] at hother

theorem of_add (htrace : after.trace = c.trace) (hcalls : after.calls = Calls.add id new c.calls)
    (hnone : Calls.phase? c.calls id = none) (hunknown : new.isAnnounced = false) :
    ActivityStep c action events after := by
  refine .keep htrace fun other => ?_
  rw [Traffic.Announced, hcalls, Calls.phase?_add hnone, Function.update_apply]
  split
  · next hother => simp [hother, Traffic.Announced, hnone, hunknown]
  · rfl

theorem start_of_announced (hstep : ActivityStep c action events after)
    (hnew : ¬c.Announced id) (hknown : after.Announced id) : after.trace = c.trace.start := by
  cases hstep with
  | keep htrace hwrites => exact absurd ((hwrites id).mp hknown) hnew
  | starts other haction hfresh htrace => exact htrace
  | ends other hcause hold htrace hwrites => exact absurd ((hwrites id).mp hknown).2 hnew

theorem finish_of_announced (hstep : ActivityStep c action events after)
    (hknown : c.Announced id) (hgone : ¬after.Announced id) :
    after.trace = c.trace.finish c.now ∧
      (action = .cancel id ∨ ∃ result, events = [.callReturns id (.write result)]) := by
  cases hstep with
  | keep htrace hwrites => exact absurd ((hwrites id).mpr hknown) hgone
  | starts other haction hfresh htrace hwrites =>
      exact absurd ((hwrites id).mpr (.inr hknown)) hgone
  | ends other hcause hold htrace hwrites =>
      have hsame : id = other := by
        by_contra hother
        exact hgone ((hwrites id).mpr ⟨hother, hknown⟩)
      exact ⟨htrace, hsame ▸ hcause⟩

end ActivityStep

namespace Move

variable {c after : Traffic} {action : Action} {events : List Event}

theorem activity_step (hmove : Move c action events after) :
    ActivityStep c action events after := by
  cases hmove with
  | elapse | stay | stroll | clear | seekLink | seekSetting | seekShutdown | leaveLink
  | endScheduler | poll | refuse | proceed | endPoll | writeBack => exact .of_calls_eq rfl rfl
  | startWrite hnew | startPosting hnew => exact .of_add rfl rfl hnew rfl
  | postClose hphase | callSeekShutdown hphase | enterSection hphase | finish hphase
  | callSeekLink hphase | callLeaveLink hphase | attempt hphase =>
      exact .of_set rfl rfl hphase rfl
  | store htransaction hphase | misfit htransaction hphase => exact .of_set rfl rfl hphase rfl
  | refuseAttempt hphase =>
      exact .of_set rfl rfl hphase
        (WriteJob.apply_afterFailure CallPhase.isAnnounced (fun _ => rfl) fun _ => rfl)
  | fail htransaction hphase =>
      exact .of_set rfl rfl hphase
        (WriteJob.apply_afterFailure CallPhase.isAnnounced (fun _ => rfl) fun _ => rfl)
  | endSetting hphase | callShutdown hphase => exact .of_remove rfl rfl hphase rfl
  | @announce id device commands hphase =>
      refine .starts id rfl (by simp [Traffic.Announced, hphase, CallPhase.isAnnounced]) rfl
        fun other => ?_
      rw [ActivityStep.announced_set_iff rfl hphase]
      split <;> simp_all [CallPhase.isAnnounced]
  | @«return» id result hphase =>
      exact .ends id (.inr ⟨result, rfl⟩)
        (by simp [Traffic.Announced, hphase, CallPhase.isAnnounced]) rfl
        (ActivityStep.announced_remove_iff rfl)
  | @cancel id phase hphase =>
      cases hknown : phase.isAnnounced with
      | false => exact .of_remove (by simp) rfl hphase hknown
      | true =>
          exact .ends id (.inl rfl) (by simp [Traffic.Announced, hphase, hknown]) (by simp)
            (ActivityStep.announced_remove_iff rfl)

/-- The clock goes on only while time passes. -/
theorem now_eq (hmove : Move c action events after) : after.now = c.now + action.duration := by
  cases hmove with
  | elapse duration => rfl
  | stay haction | stroll haction | seekSetting haction =>
      rw [Action.duration_of_isInternal haction]
      rfl
  | proceed htransaction hturn | store htransaction hphase hjob hturn
  | misfit htransaction hphase hturn | endPoll htransaction hphase hturn
  | fail htransaction hphase hjob hturn | writeBack htransaction hphase hjob hfield hturn =>
      rw [Action.duration_of_isAnswer hturn.isAnswer]
      rfl
  | clear | seekLink | seekShutdown | leaveLink | endScheduler | poll | refuse | startWrite
  | startPosting | postClose | endSetting | callSeekShutdown | callShutdown | announce
  | enterSection | finish | callSeekLink | callLeaveLink | «return» | cancel | attempt
  | refuseAttempt => rfl

theorem now_le (hmove : Move c action events after) : c.now ≤ after.now := by
  rw [hmove.now_eq]
  exact Nat.le_add_right _ _

end Move

/-! ## The writes under way -/

namespace Transition

/-- A write is announced. -/
def Begins (id : Nat) (transition : Transition) : Prop :=
  ¬transition.before.traffic.Announced id ∧ transition.after.traffic.Announced id

/-- An announced write ends, with whatever result, or it is cancelled. -/
def Retires (id : Nat) (transition : Transition) : Prop :=
  transition.before.traffic.Announced id ∧ ¬transition.after.traffic.Announced id

instance (id : Nat) (transition : Transition) : Decidable (transition.Begins id) :=
  inferInstanceAs (Decidable (_ ∧ _))

instance (id : Nat) (transition : Transition) : Decidable (transition.Retires id) :=
  inferInstanceAs (Decidable (_ ∧ _))

end Transition

/-- On the path a write with this number has begun and has not ended since. -/
def UnderWay (id : Nat) (path : List Transition) : Prop :=
  ∃ before begin after, path = before ++ begin :: after ∧ begin.Begins id ∧
    ∀ transition ∈ after, ¬transition.Retires id

theorem not_underWay_nil (id : Nat) : ¬UnderWay id [] := by
  rintro ⟨before, begin, after, hpath, -⟩
  simp at hpath

theorem underWay_concat_iff {id : Nat} {path : List Transition} {last : Transition} :
    UnderWay id (path ++ [last]) ↔ last.Begins id ∨ UnderWay id path ∧ ¬last.Retires id := by
  constructor
  · rintro ⟨before, begin, after, hpath, hbegins, hafter⟩
    rcases List.eq_nil_or_concat after with rfl | ⟨more, final, rfl⟩
    · obtain ⟨-, hlast⟩ := List.append_inj' hpath rfl
      exact .inl (List.singleton_inj.mp hlast ▸ hbegins)
    · rw [List.concat_eq_append, ← List.cons_append, ← List.append_assoc] at hpath
      obtain ⟨rfl, hlast⟩ := List.append_inj' hpath rfl
      obtain rfl := List.singleton_inj.mp hlast
      refine .inr ⟨⟨before, begin, more, rfl, hbegins, fun transition hmem => ?_⟩, ?_⟩
      · exact hafter transition (by simp [hmem])
      · exact hafter last (by simp)
  · rintro (hbegins | ⟨⟨before, begin, after, rfl, hbegins, hafter⟩, hlast⟩)
    · exact ⟨path, last, [], rfl, hbegins, by simp⟩
    · refine ⟨before, begin, after ++ [last], by simp, hbegins, fun transition hmem => ?_⟩
      rcases List.mem_append.mp hmem with hmem | hmem
      · exact hafter transition hmem
      · rwa [List.mem_singleton.mp hmem]

/-- The numbers of the writes that the scheduler knows of. -/
def Traffic.writers (c : Traffic) : Finset Nat :=
  ((c.calls.filter (·.phase.isAnnounced)).map (·.id)).toFinset

namespace Traffic

variable {c : Traffic} {id : Nat}

theorem mem_writers_iff (hdistinct : Calls.Distinct c.calls) :
    id ∈ c.writers ↔ c.Announced id := by
  rw [announced_iff, writers, List.mem_toFinset, List.mem_map]
  constructor
  · rintro ⟨call, hcall, rfl⟩
    obtain ⟨hmem, hknown⟩ := List.mem_filter.mp hcall
    exact ⟨call.phase, (Calls.phase?_eq_some_iff hdistinct).mpr hmem, hknown⟩
  · rintro ⟨phase, hphase, hknown⟩
    have hmem := (Calls.phase?_eq_some_iff hdistinct).mp hphase
    exact ⟨_, List.mem_filter.mpr ⟨hmem, hknown⟩, rfl⟩

theorem card_writers (hdistinct : Calls.Distinct c.calls) :
    c.writers.card = Calls.announced c.calls := by
  have hnodup : ((c.calls.filter (·.phase.isAnnounced)).map (·.id)).Nodup :=
    hdistinct.sublist (List.filter_sublist.map _)
  rw [writers, List.toFinset_card_of_nodup hnodup, List.length_map, Calls.announced,
    List.countP_eq_length_filter]

end Traffic

namespace Connection

variable {settings : ConnectionSettings} {codec : ValueCodec} {declared : List Point}
variable {final : Connection} {path : List Transition}

/-- What the scheduler is told of the writes is what has happened to them on the path. -/
structure Accounts (path : List Transition) (c : Connection) : Prop where
  /-- The writes that count are those under way, each once. -/
  pending_eq : c.trace.pending = c.traffic.writers.card
  mem_writers_iff : ∀ id, id ∈ c.traffic.writers ↔ UnderWay id path
  /-- A write that is under way ends when it is given up, at whatever point, or returns a result,
  whatever it is. -/
  retires_iff : ∀ transition ∈ path, ∀ id, transition.before.traffic.Announced id →
    (transition.Retires id ↔ transition.action = .cancel id ∨
      ∃ result, .callReturns id (.write result) ∈ transition.events)
  /-- Each announcement counts one up. -/
  begins : ∀ transition ∈ path, ∀ id, transition.Begins id →
    transition.after.trace.pending = transition.before.trace.pending + 1
  /-- Each end counts one down, and there is always one to take away. -/
  retires : ∀ transition ∈ path, ∀ id, transition.Retires id →
    transition.after.trace.pending + 1 = transition.before.trace.pending
  /-- Polls are in the way of a write that is under way, or that has ended less than the quiet time
  ago. -/
  shouldDefer_iff : ∀ now quiet, c.trace.shouldDefer now quiet = true ↔
    (∃ id, UnderWay id path) ∨
      ∃ ending ∈ path, (∃ id, ending.Retires id) ∧ now < ending.before.now + quiet

theorem Path.mem_writers_iff (hpath : Path (create settings codec declared).1 path final)
    (id : Nat) : id ∈ final.traffic.writers ↔ UnderWay id path := by
  refine hpath.history (motive := fun past state =>
    id ∈ state.traffic.writers ↔ UnderWay id past) ?_ ?_
  · have hnone : id ∉ (create settings codec declared).1.traffic.writers := by
      simp [Traffic.writers, create, traffic]
    exact iff_of_false hnone (not_underWay_nil id)
  · intro past before action after events hpast hbefore hstep
    have horderly := hpast.orderly (create_orderly settings codec declared)
    have hafter := (move_of_step horderly hstep).orderly horderly
    rw [Traffic.mem_writers_iff horderly.distinct] at hbefore
    rw [Traffic.mem_writers_iff hafter.distinct, underWay_concat_iff, ← hbefore]
    simp only [Transition.Begins, Transition.Retires]
    tauto

theorem Path.activity_step (hpath : Path (create settings codec declared).1 path final)
    {transition : Transition} (hmem : transition ∈ path) :
    ActivityStep transition.before.traffic transition.action transition.events
      transition.after.traffic := by
  obtain ⟨past, later, rfl⟩ := List.append_of_mem hmem
  obtain ⟨hpast, hstep, -⟩ := hpath.split
  exact (move_of_step (hpast.orderly (create_orderly _ _ _)) hstep).activity_step

/-- A write that returns is gone. -/
theorem phase?_of_write_returns {before after : Connection} {action : Action}
    {events : List Event} {id : Nat} {result : Except WriteError Unit}
    (horderly : before.traffic.Orderly) (hstep : before.step action = some (after, events))
    (hannounced : before.traffic.Announced id)
    (hreturns : .callReturns id (.write result) ∈ events) :
    Calls.phase? after.calls id = none := by
  obtain ⟨phase, hphase, -⟩ := Traffic.announced_iff.mp hannounced
  cases (move_of_step horderly hstep).of_returns hreturns with
  | refused =>
      exact absurd (hphase.symm.trans (phase?_of_start hstep)) (by simp)
  | write hfinishing =>
      rw [step, call?_eq_some hfinishing, Option.bind_some] at hstep
      have hended : before.endWrite id result = (after, events) := Option.some.inj hstep
      have hcalls : after.calls = Calls.remove id before.calls :=
        congrArg (·.1.calls) hended.symm
      rw [hcalls, Calls.phase?_remove, Function.update_self]

theorem Path.retires_iff (hpath : Path (create settings codec declared).1 path final)
    {transition : Transition} (hmem : transition ∈ path) {id : Nat}
    (hannounced : transition.before.traffic.Announced id) :
    transition.Retires id ↔ transition.action = .cancel id ∨
      ∃ result, .callReturns id (.write result) ∈ transition.events := by
  have hactivity := hpath.activity_step hmem
  obtain ⟨past, later, rfl⟩ := List.append_of_mem hmem
  obtain ⟨hpast, hstep, -⟩ := hpath.split
  have horderly := hpast.orderly (create_orderly settings codec declared)
  have hgone (hnone : Calls.phase? transition.after.calls id = none) : transition.Retires id :=
    ⟨hannounced, fun hstill => by
      obtain ⟨phase, hphase, -⟩ := Traffic.announced_iff.mp hstill
      exact absurd (hnone.symm.trans hphase) (by simp)⟩
  constructor
  · intro hretires
    obtain ⟨-, hcause⟩ := hactivity.finish_of_announced hretires.1 hretires.2
    exact hcause.imp_right fun ⟨result, hevents⟩ => ⟨result, by simp [hevents]⟩
  · rintro (haction | ⟨result, hreturns⟩)
    · exact hgone (phase?_of_cancel (haction ▸ hstep))
    · exact hgone (phase?_of_write_returns horderly hstep hannounced hreturns)

theorem Path.pending_pos (hpath : Path (create settings codec declared).1 path final)
    {transition : Transition} (hmem : transition ∈ path) {id : Nat}
    (hannounced : transition.before.traffic.Announced id) :
    0 < transition.before.trace.pending := by
  obtain ⟨past, later, rfl⟩ := List.append_of_mem hmem
  have horderly := hpath.split.1.orderly (create_orderly settings codec declared)
  exact horderly.pending_pos hannounced

theorem Path.before_now_le {start : Connection} (hpath : Path start path final)
    (horderly : start.traffic.Orderly) :
    ∀ transition ∈ path, transition.before.now ≤ final.now := by
  refine hpath.history (motive := fun past state =>
    ∀ transition ∈ past, transition.before.now ≤ state.now) (by simp) ?_
  intro past before action after events hpast hbefore hstep transition hmem
  have hlater : before.now ≤ after.now := (move_of_step (hpast.orderly horderly) hstep).now_le
  rcases List.mem_append.mp hmem with hmem | hmem
  · exact Nat.le_trans (hbefore transition hmem) hlater
  · rwa [List.mem_singleton.mp hmem]

/-- The end on record is the latest of all ends. -/
theorem Path.lastEndAt_iff (hpath : Path (create settings codec declared).1 path final)
    (time : Instant) :
    (∃ last, final.trace.lastEndAt = some last ∧ time ≤ last) ↔
      ∃ ending ∈ path, (∃ id, ending.Retires id) ∧ time ≤ ending.before.now := by
  refine hpath.history (motive := fun past state =>
    (∃ last, state.trace.lastEndAt = some last ∧ time ≤ last) ↔
      ∃ ending ∈ past, (∃ id, ending.Retires id) ∧ time ≤ ending.before.now) ?_ ?_
  · simp [create]
  · intro past before action after events hpast hbefore hstep
    have hcreate := create_orderly settings codec declared
    have hstill {ending : Transition} (hnone : ∀ id, ¬ending.Retires id) :
        (∃ other ∈ past ++ [ending], (∃ id, other.Retires id) ∧ time ≤ other.before.now) ↔
          ∃ other ∈ past, (∃ id, other.Retires id) ∧ time ≤ other.before.now := by
      simp [hnone, or_and_right, exists_or]
    cases (move_of_step (hpast.orderly hcreate) hstep).activity_step with
    | keep htrace hwrites =>
        have htrace : after.trace = before.trace := htrace
        rw [htrace, hbefore, hstill fun id hretires => hretires.2 ((hwrites id).mpr hretires.1)]
    | starts id haction hnew htrace hwrites =>
        have htrace : after.trace = before.trace.start := htrace
        rw [hstill fun id hretires => hretires.2 ((hwrites id).mpr (.inr hretires.1)), ← hbefore,
          htrace]
        rfl
    | ends id hcause hold htrace hwrites =>
        have htrace : after.trace = before.trace.finish before.now := htrace
        have hretires : Transition.Retires id ⟨before, action, after, events⟩ :=
          ⟨hold, fun hannounced => ((hwrites id).mp hannounced).1 rfl⟩
        constructor
        · rintro ⟨last, hlast, hle⟩
          rw [htrace] at hlast
          obtain rfl := Option.some.inj hlast
          exact ⟨_, List.mem_append_right _ List.mem_cons_self, ⟨id, hretires⟩, hle⟩
        · rintro ⟨ending, hmem, -, hle⟩
          refine ⟨before.now, by rw [htrace]; rfl, ?_⟩
          rcases List.mem_append.mp hmem with hmem | hmem
          · exact Nat.le_trans hle (hpast.before_now_le hcreate ending hmem)
          · rwa [List.mem_singleton.mp hmem] at hle

/-- Whatever writes there are and however they end, the record of their activity is exact. -/
theorem accounts_of_path (hpath : Path (create settings codec declared).1 path final) :
    Accounts path final := by
  have horderly := hpath.orderly (create_orderly settings codec declared)
  have hpending : final.trace.pending = final.traffic.writers.card :=
    horderly.pending_eq.trans (Traffic.card_writers horderly.distinct).symm
  refine ⟨hpending, hpath.mem_writers_iff, fun transition hmem id => hpath.retires_iff hmem,
    ?_, ?_, ?_⟩
  · intro transition hmem id hbegins
    exact congrArg WriteTrace.pending
      ((hpath.activity_step hmem).start_of_announced hbegins.1 hbegins.2)
  · intro transition hmem id hretires
    obtain ⟨hfinish, -⟩ := (hpath.activity_step hmem).finish_of_announced hretires.1 hretires.2
    have hpending : transition.after.trace.pending = transition.before.trace.pending - 1 :=
      congrArg WriteTrace.pending hfinish
    rw [hpending, Nat.sub_add_cancel (hpath.pending_pos hmem hretires.1)]
  · intro now quiet
    have hlate (last : Instant) : now < last + quiet ↔ now + 1 - quiet ≤ last :=
      Nat.sub_le_iff_le_add.symm
    simp only [WriteTrace.shouldDefer_iff, hlate, hpath.lastEndAt_iff, hpending, Finset.card_pos]
    exact or_congr_left (exists_congr hpath.mem_writers_iff)

/-- Two writes are announced, and the first is given up inside the write section. -/
def sampleOverlap : List Action :=
  [.start 0 (.write ⟨"plant"⟩ [⟨"level", .int 3⟩]), .run (.call 0), .run (.call 0),
    .start 1 (.write ⟨"plant"⟩ [⟨"level", .int 5⟩]), .run (.call 1), .elapse (40 * millisecond),
    .cancel 0, .elapse (40 * millisecond)]

/-- The second write still counts, and only the second. -/
theorem sample_overlapping_writes :
    (sample.stop sampleOverlap).trace.pending = 1 ∧ UnderWay 1 (sample.walk sampleOverlap) ∧
      ¬UnderWay 0 (sample.walk sampleOverlap) := by
  have hpath := path_walk (show (sample.run sampleOverlap).isSome = true by decide +kernel)
  have haccounts := accounts_of_path hpath
  have hwriters : (sample.stop sampleOverlap).traffic.writers = {1} := by decide +kernel
  rw [haccounts.pending_eq, ← haccounts.mem_writers_iff, ← haccounts.mem_writers_iff, hwriters]
  decide

end Connection

end Fieldbus

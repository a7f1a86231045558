import Fieldbus.Proofs.Run.Starts
import Fieldbus.Proofs.Write.Activity

/-!
# Polls in the way of a write

A poll that was cleared before a write announced itself may still come, since the scheduler asks
once and then waits for the link.  No other poll starts until the write has ended and its quiet
time is over: every later question is answered with no.
-/

namespace Fieldbus

namespace Transition

/-- A call announces its write. -/
def Announces (id : Nat) (transition : Transition) : Prop :=
  transition.action = .run (.call id) ∧
    transition.after.trace = transition.before.trace.start

/-- On the visit to a group the scheduler asks whether to defer the poll, and need not. -/
structure Clears (tick : Tick) (transition : Transition) : Prop where
  visiting : transition.before.scheduler.phase = .visiting tick
  requesting : transition.after.scheduler.phase = .requesting tick
  rests : transition.before.trace.shouldDefer transition.before.now
    transition.before.settings.link.minInterval = false

end Transition

/-- The visit for which a poll has been cleared. -/
def SchedulerPhase.cleared? : SchedulerPhase → Option Tick
  | requesting tick | awaitingLink tick | polling tick => some tick
  | idle | visiting _ | publishing _ _ | delivering _ _ _ | applying _ _ | stopping
  | awaitingShutdown | ended => none

theorem SchedulerPhase.cleared?_of_isFree {phase : SchedulerPhase} (hfree : phase.isFree = true) :
    phase.cleared? = none := by
  cases phase <;> first | rfl | simp [isFree] at hfree

/-- A write has ended at this time or later. -/
def Traffic.EndedSince (time : Instant) (c : Traffic) : Prop :=
  time ≤ c.now ∧ ∃ last, c.trace.lastEndAt = some last ∧ time ≤ last

/-- Unless another poll is cleared, none will start any more: none is cleared, or the exchange of
the one that was has started. -/
def Traffic.Spent (c : Traffic) : Prop :=
  c.phase.cleared? = none ∨ ∃ tick request since, c.phase = .polling tick ∧
    c.transaction = some ⟨request, .exchanging since⟩

namespace Move

variable {c after : Traffic} {action : Action} {events : List Event} {id : Nat} {tick : Tick}

/-- The end of a write is only replaced by a later one. -/
theorem endedSince {time : Instant} (hmove : Move c action events after)
    (hended : c.EndedSince time) : after.EndedSince time := by
  refine ⟨Nat.le_trans hended.1 hmove.now_le, ?_⟩
  cases hmove.activity_step with
  | keep htrace => exact htrace ▸ hended.2
  | starts other haction hnew htrace => exact htrace ▸ hended.2
  | ends other hcause hold htrace => exact ⟨c.now, by rw [htrace]; rfl, hended.1⟩

/-- Every announced write stays announced until it is counted as ended. -/
theorem announced_or_ended (hmove : Move c action events after) (hannounced : c.Announced id) :
    after.Announced id ∨ after.EndedSince c.now := by
  cases hmove.activity_step with
  | keep htrace hwrites => exact .inl ((hwrites id).mpr hannounced)
  | starts other haction hnew htrace hwrites => exact .inl ((hwrites id).mpr (.inr hannounced))
  | ends other hcause hold htrace =>
      exact .inr ⟨hmove.now_le, c.now, by rw [htrace]; rfl, Nat.le_refl _⟩

/-- Only the announcement of a write counts it as under way. -/
theorem announces (hmove : Move c (.run (.call id)) events after)
    (htrace : after.trace = c.trace.start) :
    after.Announced id ∧ after.phase = c.phase := by
  have hcount : c.trace ≠ c.trace.start := fun hsame => by
    have hpending : c.trace.pending = c.trace.pending + 1 := congrArg WriteTrace.pending hsame
    omega
  cases hmove with
  | announce hphase =>
      rw [Traffic.announced_iff, Calls.phase?_set (by simp [hphase]), Function.update_self]
      exact ⟨⟨_, rfl, rfl⟩, rfl⟩
  | «return» =>
      have hpending : c.trace.pending - 1 = c.trace.pending + 1 :=
        congrArg WriteTrace.pending htrace
      omega
  | _ => exact absurd htrace hcount

/-- A poll is cleared by a question, and stays cleared until it is over. -/
theorem cleared (hmove : Move c action events after) (hcleared : after.phase.cleared? = some tick) :
    c.phase.cleared? = some tick ∨
      c.phase = .visiting tick ∧ after.phase = .requesting tick ∧ after.calls = c.calls ∧
        c.trace.shouldDefer c.now c.settings.link.minInterval = false := by
  have hfree : ∀ {next : SchedulerPhase}, next.isFree = true → next.cleared? = some tick →
      False := by
    intro next hnext hsome
    simp [SchedulerPhase.cleared?_of_isFree hnext] at hsome
  cases hmove with
  | stroll haction hphase hnext => exact (hfree hnext hcleared).elim
  | leaveLink hphase hheld hnext => exact (hfree hnext hcleared).elim
  | endPoll htransaction hphase hturn hnext => exact (hfree hnext hcleared).elim
  | clear hphase hopen hrest hquiet =>
      obtain rfl := Option.some.inj hcleared
      exact .inr ⟨hphase, rfl, rfl, hrest⟩
  | seekLink hphase | poll hphase =>
      rw [hphase]
      exact .inl hcleared
  | seekSetting | seekShutdown | endScheduler => simp [SchedulerPhase.cleared?] at hcleared
  | _ => exact .inl hcleared

theorem spent (hmove : Move c action events after) (horderly : c.Orderly) (hspent : c.Spent)
    (hdeferred : ∀ tick, c.phase = .visiting tick → after.phase = .requesting tick →
      c.trace.shouldDefer c.now c.settings.link.minInterval = true) : after.Spent := by
  rcases hspent with hnone | ⟨tick, request, since, hphase, htransaction⟩
  · refine .inl (Option.eq_none_iff_forall_ne_some.mpr fun tick hsome => ?_)
    rcases hmove.cleared hsome with hcleared | ⟨hvisiting, hrequesting, -, hrests⟩
    · simp [hnone] at hcleared
    · simp [hdeferred tick hvisiting hrequesting] at hrests
  · have hheld : c.linkLock.holder = some .scheduler := by
      apply horderly.link.holder_of_inside
      simp [Traffic.stance, linkStance, hphase, SchedulerPhase.linkStance]
    have hcall : ∀ {id job}, Calls.phase? c.calls id ≠ some (.transacting job) := by
      intro id job hjob
      have hholder := horderly.held_of_transacting hjob
      simp [hheld] at hholder
    have hkeep : after.phase = c.phase → after.transaction = c.transaction → after.Spent :=
      fun hsame hstill =>
        .inr ⟨tick, request, since, hsame.trans hphase, hstill.trans htransaction⟩
    cases hmove with
    | stroll haction haway =>
        simp [hphase, SchedulerPhase.linkStance] at haway
    | seekSetting haction hfree => simp [hphase, SchedulerPhase.isFree] at hfree
    | leaveLink hqueued => simp [hphase, SchedulerPhase.linkStance] at hqueued
    | clear hother | seekLink hother | seekShutdown hother | endScheduler hother
    | poll hother => simp [hphase] at hother
    | endPoll hsome hpolling hturn hnext =>
        exact .inl (SchedulerPhase.cleared?_of_isFree hnext)
    | attempt hjob hholder => simp [hheld] at hholder
    | store hsome hjob | fail hsome hjob | misfit hsome hjob => exact absurd hjob hcall
    | writeBack hsome hjob => exact absurd hjob hcall
    | proceed hsome hturn =>
        obtain ⟨-, rfl⟩ := Transaction.mk.inj (Option.some.inj (hsome.symm.trans htransaction))
        exact absurd rfl (hturn.not_exchanging since)
    | @cancel id phase hjob =>
        have hidle : phase.isTransacting = false := by
          cases phase <;> first | rfl | exact absurd hjob hcall
        exact hkeep rfl (by simp [hidle])
    | _ => exact hkeep rfl rfl

end Move

namespace Connection

variable {settings : ConnectionSettings} {codec : ValueCodec} {declared : List Point}
variable {start final : Connection} {path earlier period : List Transition}
variable {announcement : Transition} {id : Nat}

def pollStarts (path : List Transition) : List Request :=
  path.flatMap (·.exchangesOf .scheduler)

/-- An exchange of the scheduler that starts is a poll of the group that it visits. -/
theorem poll_of_exchangesOf {transition : Transition} {request : Request}
    (horderly : transition.before.traffic.Orderly)
    (hmove : Move transition.before.traffic transition.action transition.events
      transition.after.traffic)
    (hstarts : request ∈ transition.exchangesOf .scheduler) :
    transition.exchangesOf .scheduler = [request] ∧ ∃ tick since,
      transition.after.scheduler.phase = .polling tick ∧
        transition.after.transaction = some ⟨request, .exchanging since⟩ ∧
          transition.before.traffic.phase.cleared? = some tick ∧
            ¬transition.before.traffic.Spent := by
  obtain ⟨hheld, hmem⟩ := Transition.mem_exchangesOf.mp hstarts
  obtain ⟨hone, ⟨since, htransaction⟩, hstart⟩ := hmove.start hmem
  have hexchanges : transition.exchangesOf .scheduler = [request] := by
    rw [Transition.exchangesOf, if_pos (FairLock.isHeldBy_iff.mpr hheld), hone]
  have hafter := hmove.orderly horderly
  obtain ⟨tick, hpolling⟩ := hafter.polling_of_held htransaction hheld
  refine ⟨hexchanges, tick, since, hpolling, htransaction, ?_⟩
  cases hstart with
  | poll other hphase hheld' hother hlock =>
      obtain rfl := SchedulerPhase.polling.inj (hpolling.symm.trans hother)
      rw [Traffic.Spent, hphase]
      simp [SchedulerPhase.cleared?]
  | attempt id job command rest hphase hcall hjob hrequest hother hlock =>
      have hholder : transition.after.traffic.linkLock.holder = some (.call id) := hlock ▸ hcall
      exact absurd (hheld.symm.trans hholder) (by simp)
  | proceed stage hsome hstage hphase =>
      rw [Traffic.Spent, ← hphase, hpolling, hsome]
      simp [SchedulerPhase.cleared?, hstage]
  | writeBack id job read since hsome hphase hcalls hlock =>
      have hholder : transition.after.traffic.linkLock.holder = some (.call id) :=
        hlock ▸ horderly.held_of_transacting hphase
      exact absurd (hheld.symm.trans hholder) (by simp)

theorem Path.pollStarts_of_spent (hpath : Path start path final)
    (horderly : start.traffic.Orderly) (hspent : start.traffic.Spent)
    (hnone : ∀ transition ∈ path, ∀ tick, ¬transition.Clears tick) : pollStarts path = [] := by
  induction hpath with
  | nil => rfl
  | @cons before after _ action events _ hstep _ ih =>
      have hmove := move_of_step horderly hstep
      have hfirst : Transition.exchangesOf .scheduler ⟨before, action, after, events⟩ = [] := by
        refine List.eq_nil_iff_forall_not_mem.mpr fun request hstarts => ?_
        obtain ⟨-, tick, since, -, -, -, hready⟩ := poll_of_exchangesOf horderly hmove hstarts
        exact hready hspent
      have hnext : after.traffic.Spent := by
        refine hmove.spent horderly hspent fun tick hvisiting hrequesting => ?_
        by_contra hrests
        exact hnone _ List.mem_cons_self tick
          ⟨hvisiting, hrequesting, (Bool.not_eq_true _).mp hrests⟩
      have hrest := ih (hmove.orderly horderly) hnext fun transition htransition =>
        hnone transition (List.mem_cons_of_mem _ htransition)
      rw [pollStarts, List.flatMap_cons, hfirst, List.nil_append]
      exact hrest

/-- While no poll is cleared, at most one starts. -/
theorem Path.length_pollStarts_le (hpath : Path start path final)
    (horderly : start.traffic.Orderly)
    (hnone : ∀ transition ∈ path, ∀ tick, ¬transition.Clears tick) :
    (pollStarts path).length ≤ 1 := by
  induction hpath with
  | nil => exact Nat.zero_le 1
  | @cons before after _ action events rest hstep hrest ih =>
      have hmove := move_of_step horderly hstep
      have hlater := fun transition htransition =>
        hnone transition (List.mem_cons_of_mem _ htransition)
      rw [pollStarts, List.flatMap_cons]
      cases hstarts : Transition.exchangesOf .scheduler ⟨before, action, after, events⟩ with
      | nil => exact ih (hmove.orderly horderly) hlater
      | cons request more =>
          obtain ⟨hone, tick, since, hphase, htransaction, -⟩ :=
            poll_of_exchangesOf horderly hmove (hstarts ▸ List.mem_cons_self)
          have hspent : after.traffic.Spent := .inr ⟨tick, request, since, hphase, htransaction⟩
          have hnever := hrest.pollStarts_of_spent (hmove.orderly horderly) hspent hlater
          rw [pollStarts] at hnever
          rw [← hstarts, hone, hnever]
          exact Nat.le_refl 1

/-- As long as the write lasts, and from then on until the quiet time is over. -/
def WithinQuiet (quiet : Nanoseconds) (id : Nat) (period : List Transition) : Prop :=
  period.Pairwise fun ending later =>
    ending.Retires id → later.before.now < ending.before.now + quiet

instance (quiet : Nanoseconds) (id : Nat) (period : List Transition) :
    Decidable (WithinQuiet quiet id period) :=
  inferInstanceAs (Decidable (List.Pairwise _ _))

/-- The write is announced still, or its end is on record. -/
theorem Path.announced_or_ended (hpath : Path start path final)
    (horderly : start.traffic.Orderly) (hannounced : start.traffic.Announced id) :
    final.traffic.Announced id ∨ ∃ ending ∈ path, ending.Retires id ∧
      final.traffic.EndedSince ending.before.now := by
  refine hpath.history (motive := fun past state => state.traffic.Announced id ∨
    ∃ ending ∈ past, ending.Retires id ∧ state.traffic.EndedSince ending.before.now)
    (.inl hannounced) fun past before action after events hpast hbefore hstep => ?_
  have hmove := move_of_step (hpast.orderly horderly) hstep
  rcases hbefore with hannounced | ⟨ending, hmem, hretires, hended⟩
  · by_cases hstill : after.traffic.Announced id
    · exact .inl hstill
    · rcases hmove.announced_or_ended hannounced with hkept | hended
      · exact .inl hkept
      · exact .inr ⟨_, List.mem_append_right _ List.mem_cons_self, ⟨hannounced, hstill⟩, hended⟩
  · exact .inr ⟨ending, List.mem_append_left _ hmem, hretires, hmove.endedSince hended⟩

theorem Path.not_clears (hpath : Path start period final) (horderly : start.traffic.Orderly)
    (hannounced : start.traffic.Announced id)
    (hperiod : WithinQuiet start.settings.link.minInterval id period) :
    ∀ transition ∈ period, ∀ tick, ¬transition.Clears tick := by
  intro transition hmem tick hclears
  obtain ⟨before, after, rfl⟩ := List.append_of_mem hmem
  obtain ⟨hbefore, -, -⟩ := hpath.split
  have hstill := hbefore.orderly horderly
  suffices hdefers : transition.before.trace.shouldDefer transition.before.now
      transition.before.settings.link.minInterval = true by
    simp [hclears.rests] at hdefers
  rcases hbefore.announced_or_ended horderly hannounced with
    hwriting | ⟨ending, hending, hretires, -, last, hlast, hlate⟩
  · exact WriteTrace.shouldDefer_iff.mpr (.inl (hstill.pending_pos hwriting))
  · have hsoon := (List.pairwise_append.mp hperiod).2.2 ending hending transition
      List.mem_cons_self hretires
    rw [← hbefore.settings_eq horderly] at hsoon
    have hrecent := Nat.lt_of_lt_of_le hsoon (Nat.add_le_add_right hlate _)
    exact WriteTrace.shouldDefer_iff.mpr (.inr ⟨last, hlast, hrecent⟩)

/-- A cleared poll has been cleared at some time, and has been on its way since then. -/
theorem Path.exists_clears {tick : Tick}
    (hpath : Path (create settings codec declared).1 path final)
    (hcleared : final.scheduler.phase.cleared? = some tick) :
    ∃ past check since, path = past ++ check :: since ∧ check.Clears tick ∧
      ∀ transition ∈ since, transition.after.scheduler.phase.cleared? = some tick := by
  refine hpath.history (motive := fun path state => ∀ tick,
    state.scheduler.phase.cleared? = some tick → ∃ past check since,
      path = past ++ check :: since ∧ check.Clears tick ∧
        ∀ transition ∈ since, transition.after.scheduler.phase.cleared? = some tick)
    (fun tick hnew => by simp [create, SchedulerPhase.cleared?] at hnew)
    (fun path before action after events hpast hbefore hstep tick hafter => ?_) tick hcleared
  have hmove := move_of_step (hpast.orderly (create_orderly _ _ _)) hstep
  rcases hmove.cleared hafter with hsame | ⟨hvisiting, hrequesting, -, hrests⟩
  · obtain ⟨past, check, since, rfl, hclears, hsince⟩ := hbefore tick hsame
    refine ⟨past, check, since ++ [⟨before, action, after, events⟩], by simp, hclears, ?_⟩
    intro transition htransition
    rcases List.mem_append.mp htransition with hmem | hmem
    · exact hsince transition hmem
    · rwa [List.mem_singleton.mp hmem]
  · exact ⟨path, _, [], rfl, ⟨hvisiting, hrequesting, hrests⟩, by simp⟩

/-- From the announcement of a write until the quiet time after its end at most one poll starts.
It is one that had been cleared before the announcement, on the same visit to the group that it
reads. -/
theorem pollStarts_during_write
    (hpath : Path (create settings codec declared).1 (earlier ++ announcement :: period) final)
    (hannounces : announcement.Announces id)
    (hperiod : WithinQuiet settings.link.minInterval id period) :
    (pollStarts period).length ≤ 1 ∧
      ∀ before poll after request, period = before ++ poll :: after →
        request ∈ poll.exchangesOf .scheduler → ∃ past check since tick group,
          earlier = past ++ check :: since ∧ check.Clears tick ∧
            (∀ transition ∈ since ++ announcement :: before,
              transition.after.scheduler.phase.cleared? = some tick) ∧
            poll.after.scheduler.phase = .polling tick ∧
              poll.after.group? tick.next = some group ∧ request = .read group.readRequest := by
  have hcreate := create_orderly settings codec declared
  obtain ⟨hearlier, hannouncement, hrest⟩ := hpath.split
  have hbefore := hearlier.orderly hcreate
  have hmove := move_of_step hbefore hannouncement
  obtain ⟨hannounced, hphases⟩ := (hannounces.1 ▸ hmove).announces hannounces.2
  have hafter := hmove.orderly hbefore
  have hsettings : announcement.after.settings = settings :=
    hmove.settings_eq.trans (hearlier.settings_eq hcreate)
  rw [← hsettings] at hperiod
  have hnone := hrest.not_clears hafter hannounced hperiod
  refine ⟨hrest.length_pollStarts_le hafter hnone, ?_⟩
  rintro before poll after request rfl hstarts
  obtain ⟨hpast, hpoll, -⟩ := hrest.split
  have hready := hpast.orderly hafter
  have hpolls := move_of_step hready hpoll
  obtain ⟨-, tick, sent, hphase, htransaction, hcleared, -⟩ :=
    poll_of_exchangesOf hready hpolls hstarts
  obtain ⟨read, hread, hrequest⟩ :=
    ((hpolls.orderly hready).errand _ htransaction).1 tick hphase
  obtain ⟨group, hgroup, rfl⟩ := Option.map_eq_some_iff.mp hread
  have hupto := hearlier.append (.cons hannouncement hpast)
  obtain ⟨past, check, since, hsplit, hclears, hsince⟩ := hupto.exists_clears hcleared
  -- The question cannot have come with the announcement or after it.
  have hlate : check ∉ announcement :: before := by
    intro hmem
    rcases List.mem_cons.mp hmem with rfl | hmem
    · exact absurd (hclears.requesting.symm.trans (hphases.trans hclears.visiting)) (by simp)
    · exact hnone check (List.mem_append_left _ hmem) tick hclears
  obtain ⟨rest, rfl, rfl⟩ := exists_of_append_eq hsplit hlate
  exact ⟨past, check, rest, tick, group, rfl, hclears, hsince, hphase, hgroup, hrequest⟩

/-- The sample clears a poll, and a write is called for. -/
def sampleClearing : List Action :=
  [.tick, .run .scheduler, .start 0 (.write ⟨"plant"⟩ [⟨"level", .int 3⟩])]

/-- After the announcement the poll is made, then the write, and some of the quiet time passes. -/
def samplePeriod : List Transition :=
  ((sample.stop sampleClearing).next (.run (.call 0))).after.walk
    [.run .scheduler, .run .scheduler, .openDone (.ok ()), .exchangeDone (.ok (.registers [7])),
      .run (.call 0), .run (.call 0), .run (.call 0), .elapse (100 * millisecond), .expire,
      .exchangeDone (.ok .written), .run (.call 0), .run (.call 0), .elapse (99 * millisecond),
      .run .scheduler]

/-- A poll that was faster than a write. -/
theorem sample_poll_before_write :
    WithinQuiet (100 * millisecond) 0 samplePeriod ∧ (pollStarts samplePeriod).length = 1 ∧
      ∃ check ∈ sample.walk sampleClearing, ∃ tick, check.Clears tick := by
  have hearlier := path_walk (show (sample.run sampleClearing).isSome = true by decide +kernel)
  have hannouncement := step_eq_next (show ((sample.stop sampleClearing).step
    (.run (.call 0))).isSome = true by decide +kernel)
  have hrest : Path _ samplePeriod _ := path_walk (by decide +kernel)
  have hannounces : ((sample.stop sampleClearing).next (.run (.call 0))).Announces 0 :=
    ⟨rfl, by decide +kernel⟩
  have hperiod : WithinQuiet (100 * millisecond) 0 samplePeriod := by decide +kernel
  have hone : (pollStarts samplePeriod).length = 1 := by decide +kernel
  obtain ⟨-, hcleared⟩ := pollStarts_during_write
    (hearlier.append (.cons hannouncement hrest)) hannounces hperiod
  obtain ⟨request, hrequest⟩ := List.exists_mem_of_length_pos (by rw [hone]; exact Nat.one_pos)
  obtain ⟨poll, hpoll, hstarts⟩ := List.mem_flatMap.mp hrequest
  obtain ⟨before, after, hsplit⟩ := List.append_of_mem hpoll
  obtain ⟨past, check, since, tick, -, hwalk, hclears, -⟩ :=
    hcleared before poll after request hsplit hstarts
  exact ⟨hperiod, hone, check, hwalk ▸ by simp, tick, hclears⟩

end Connection

end Fieldbus

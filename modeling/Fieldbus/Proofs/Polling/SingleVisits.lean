import Fieldbus.Proofs.Link.Exchanges
import Fieldbus.Proofs.Link.Requests
import Fieldbus.Proofs.Polling.Deferral
import Fieldbus.Proofs.Polling.Layout
import Fieldbus.Proofs.Polling.Signals

/-!
# One visit a group

A tick goes through the groups in their order and visits each of them at most once.  When the
transport cannot be opened for one of them, the scheduler leaves it alone until the tick is over,
however many groups are due.
-/

namespace Fieldbus

/-- What a step shows on the wire, if the link is in the hands of this user. -/
def Transition.signsOf (actor : Actor) (transition : Transition) : List Sign :=
  if transition.before.linkLock.isHeldBy actor then
    transition.before.traffic.heard transition.action ++ signs transition.events
  else []

/-- What the scheduler has done with the transport on a path, and heard from it. -/
def schedulerSigns (path : List Transition) : List Sign := path.flatMap (·.signsOf .scheduler)

/-- The scheduler begins a transaction that reads the group of this number. -/
def Transition.ReadsGroup (transition : Transition) (index : Nat) : Prop :=
  ∃ tick group, transition.before.scheduler.phase = .awaitingLink tick ∧
    transition.before.group? tick.next = some group ∧ group.index = index ∧
      transition.before.Hands transition.action .scheduler (.read group.readRequest)

/-- The transport has failed to open. -/
def Sign.isOpenFailure : Sign → Bool
  | openEnds success => !success
  | opens | starts _ | ends _ | closes => false

/-- The least number that a group can have if it is still to be polled in this tick. -/
def SchedulerPhase.floor? : SchedulerPhase → Option Nat
  | visiting tick | requesting tick | awaitingLink tick => some tick.next
  | polling tick | publishing tick _ | delivering tick _ _ => some (tick.next + 1)
  | applying _ interrupted => interrupted.map (·.next)
  | idle | stopping | awaitingShutdown | ended => none

theorem SchedulerPhase.floor?_attending (interrupted : Option Tick) :
    (attending interrupted).floor? = interrupted.map (·.next) := by
  cases interrupted <;> rfl

@[simp]
theorem SchedulerPhase.awaitingLink_ne_attending (tick : Tick) (interrupted : Option Tick) :
    awaitingLink tick ≠ attending interrupted := by
  cases interrupted <;> simp [attending]

/-- Within a tick the scheduler does not go back. -/
theorem SchedulerStep.floor {c : Connection} {action : Action} {shown : List Event}
    {next : Scheduler} {floor : Nat} (hstep : SchedulerStep c action shown next)
    (haction : action ≠ .tick) (hfloor : next.phase.floor? = some floor) :
    ∃ before ≤ floor, c.scheduler.phase.floor? = some before := by
  have hsame {phase : SchedulerPhase} (hphase : c.scheduler.phase = phase) {before : Nat}
      (hbefore : phase.floor? = some before) (hle : before ≤ floor) :
      ∃ before ≤ floor, c.scheduler.phase.floor? = some before :=
    ⟨before, hle, hphase ▸ hbefore⟩
  cases hstep with
  | keep => exact ⟨floor, Nat.le_refl floor, hfloor⟩
  | switch _ hphase => exact hsame hphase hfloor (Nat.le_refl floor)
  | seekSetting _ hphase =>
      exact hsame hphase ((SchedulerPhase.floor?_attending _).trans hfloor) (Nat.le_refl floor)
  | applied hphase =>
      exact hsame hphase ((SchedulerPhase.floor?_attending _).symm.trans hfloor)
        (Nat.le_refl floor)
  | halt | seekShutdown | endScheduler | endTick => simp [SchedulerPhase.floor?] at hfloor
  | beginTick => exact absurd rfl haction
  | notDue hvisits | skip hvisits | defer hvisits =>
      obtain rfl := Option.some.inj hfloor
      exact hsame hvisits.phase rfl (Nat.le_succ _)
  | clear hvisits => exact hsame hvisits.phase hfloor (Nat.le_refl floor)
  | seekLink hphase => exact hsame hphase hfloor (Nat.le_refl floor)
  | giveUp hphase =>
      obtain rfl := Option.some.inj hfloor
      rcases hphase with hphase | hphase
      · exact hsame hphase rfl (Nat.le_succ _)
      · exact hsame hphase rfl (Nat.le_succ _)
  | poll hphase =>
      obtain rfl := Option.some.inj hfloor
      exact hsame hphase rfl (Nat.le_succ _)
  | read hhears => exact hsame hhears.phase hfloor (Nat.le_refl floor)
  | fail hhears | abort hhears => exact hsame hhears.phase hfloor (Nat.le_refl floor)
  | sample hphase | pass hphase | deliver hphase | conclude hphase =>
      exact hsame hphase hfloor (Nat.le_refl floor)

/-- The visits of a tick are to the first groups, one after another, and a visit that is under way
is to a group that exists. -/
structure Scheduler.Advances (scheduler : Scheduler) : Prop where
  visited : ∀ tick, scheduler.phase.tick? = some tick →
    tick.outcomes.map (·.1) = List.range tick.next ∧ tick.next ≤ scheduler.groups.length
  found : ∀ tick answered, scheduler.phase.underWay? = some (tick, answered) →
    tick.next < scheduler.groups.length

theorem SchedulerStep.length_groups {c : Connection} {action : Action} {shown : List Event}
    {next : Scheduler} (hstep : SchedulerStep c action shown next) :
    next.groups.length = c.scheduler.groups.length := by
  cases hstep <;> first | rfl | exact List.length_set

/-- A visit that is concluded has been to a group. -/
theorem Connection.Concludes.next_lt {c : Connection} {action : Action} {tick : Tick}
    {outcome : PollOutcome} (hconcludes : c.Concludes action tick outcome)
    (hadvances : c.scheduler.Advances) : tick.next < c.scheduler.groups.length := by
  have hcount {group : PollGroup} (hfound : c.group? tick.next = some group) :
      tick.next < c.scheduler.groups.length := (List.getElem?_eq_some_iff.mp hfound).1
  cases hconcludes with
  | notDue hvisits | deferred hvisits | skipped hvisits => exact hcount hvisits.found
  | heard hhears => exact hcount hhears.found
  | closed hphase =>
      refine hadvances.found tick false ?_
      rcases hphase with hphase | hphase <;> rw [hphase] <;> rfl
  | polled hphase =>
      refine hadvances.found tick true ?_
      rw [hphase]
      rfl

theorem SchedulerStep.advances {c : Connection} {action : Action} {shown : List Event}
    {next : Scheduler} (hstep : SchedulerStep c action shown next)
    (hopens : ∀ tick error, c.scheduler.phase = .visiting tick →
      tick.openFailure = some error → error.isOpenFailure = true)
    (hadvances : c.scheduler.Advances) : next.Advances where
  visited tick hnow := by
    rw [hstep.length_groups]
    rcases hstep.tick hnow with hsame | ⟨due, -, rfl⟩ | ⟨old, reported, outcome, hconcludes, rfl⟩
    · exact hadvances.visited tick hsame
    · exact ⟨rfl, Nat.zero_le _⟩
    · obtain ⟨hnumbers, -⟩ := hadvances.visited old hconcludes.tick?_eq
      refine ⟨?_, hconcludes.next_lt hadvances⟩
      simp only [Tick.concluded, List.map_append, hnumbers, List.map_singleton]
      exact List.range_succ.symm
  found tick answered hnow := by
    rw [hstep.length_groups]
    have hvisit := hstep.visitStep hopens
    generalize c.scheduler.phase.visitsSince next.phase = concluded at hvisit
    cases hvisit with
    | keep hphase => exact hadvances.found tick answered (hphase ▸ hnow)
    | ask _ hafter hfound | answer _ hafter hfound =>
        obtain ⟨rfl, -⟩ := Prod.mk.inj (Option.some.inj (hafter.symm.trans hnow))
        exact (List.getElem?_eq_some_iff.mp hfound).1
    | pass _ hafter | fail _ hafter | abort _ hafter | conclude _ hafter | leave _ hafter =>
        simp [hafter] at hnow

/-! ## A transport that does not open -/

theorem SchedulerPhase.tick?_of_cleared? {phase : SchedulerPhase} {tick : Tick}
    (hcleared : phase.cleared? = some tick) : phase.tick? = some tick := by
  cases phase <;> first | exact hcleared | simp [cleared?] at hcleared

theorem SchedulerPhase.cleared?_attending (interrupted : Option Tick) :
    (attending interrupted).cleared? = none := by
  cases interrupted <;> rfl

/-- The scheduler leaves the link alone in this tick, because the transport has failed to open. -/
structure SchedulerPhase.Barred (phase : SchedulerPhase) : Prop where
  cleared : phase.cleared? = none
  failed : ∀ tick, phase.tick? = some tick → tick.openFailure ≠ none

theorem Tick.openFailure_concluded {tick : Tick} (hfailed : tick.openFailure ≠ none)
    (outcome : PollOutcome) : (tick.concluded outcome).openFailure ≠ none := by
  cases hfailure : outcome.openFailure? with
  | none => simpa [concluded, hfailure] using hfailed
  | some error => simp [concluded, hfailure]

/-- Until the next tick the scheduler does not try again. -/
theorem SchedulerStep.barred {c : Connection} {action : Action} {shown : List Event}
    {next : Scheduler} (hstep : SchedulerStep c action shown next)
    (hbarred : c.scheduler.phase.Barred) (haction : action ≠ .tick) : next.phase.Barred := by
  have hbusy {phase : SchedulerPhase} {tick : Tick} (hphase : c.scheduler.phase = phase)
      (hcleared : phase.cleared? = some tick) : False := by
    have hnone := hbarred.cleared
    simp [hphase, hcleared] at hnone
  have hkeep {phase other : SchedulerPhase} (hphase : c.scheduler.phase = phase)
      (htick : other.tick? = phase.tick?) (hcleared : other.cleared? = none) : other.Barred :=
    ⟨hcleared, fun tick hnow => hbarred.failed tick (by rwa [hphase, ← htick])⟩
  have hconclude {tick : Tick} {outcome : PollOutcome}
      (hbefore : c.scheduler.phase.tick? = some tick) :
      (SchedulerPhase.visiting (tick.concluded outcome)).Barred := by
    refine ⟨rfl, fun other hnow => ?_⟩
    obtain rfl := Option.some.inj hnow
    exact Tick.openFailure_concluded (hbarred.failed tick hbefore) outcome
  have hnone {phase : SchedulerPhase} (htick : phase.tick? = none)
      (hcleared : phase.cleared? = none) : phase.Barred :=
    ⟨hcleared, fun tick hnow => by simp [htick] at hnow⟩
  cases hstep with
  | keep => exact hbarred
  | switch haction hphase => exact hkeep hphase rfl (SchedulerPhase.cleared?_attending _)
  | seekSetting haction hphase => exact hkeep hphase (SchedulerPhase.tick?_attending _).symm rfl
  | applied hphase =>
      exact hkeep hphase (SchedulerPhase.tick?_attending _) (SchedulerPhase.cleared?_attending _)
  | halt | seekShutdown | endScheduler | endTick => exact hnone rfl rfl
  | beginTick => exact absurd rfl haction
  | notDue hvisits | skip hvisits | defer hvisits =>
      exact hconclude (by rw [hvisits.phase]; rfl)
  | clear hvisits hdue hfailure =>
      exact absurd hfailure (hbarred.failed _ (by rw [hvisits.phase]; rfl))
  | seekLink hphase | poll hphase => exact (hbusy hphase rfl).elim
  | giveUp hphase =>
      rcases hphase with hphase | hphase
      · exact (hbusy hphase rfl).elim
      · exact (hbusy hphase rfl).elim
  | read hhears | fail hhears | abort hhears => exact (hbusy hhears.phase rfl).elim
  | sample hphase | pass hphase | deliver hphase => exact hkeep hphase rfl rfl
  | conclude hphase => exact hconclude (by rw [hphase]; rfl)

/-- A poll is cleared only while the transport has not failed to open. -/
theorem SchedulerStep.openFailure_of_cleared {c : Connection} {action : Action}
    {shown : List Event} {next : Scheduler} {tick : Tick}
    (hstep : SchedulerStep c action shown next) (hcleared : next.phase.cleared? = some tick)
    (hbefore : ∀ tick, c.scheduler.phase.cleared? = some tick → tick.openFailure = none) :
    tick.openFailure = none := by
  cases hstep with
  | keep => exact hbefore tick hcleared
  | switch | applied => simp [SchedulerPhase.cleared?_attending] at hcleared
  | clear hvisits hdue hfailure =>
      obtain rfl := Option.some.inj hcleared
      exact hfailure
  | seekLink hphase | poll hphase => exact hbefore tick (by rw [hphase]; exact hcleared)
  | seekSetting | halt | seekShutdown | endScheduler | beginTick | endTick | notDue | skip | defer
  | giveUp | read | fail | abort | sample | pass | deliver | conclude =>
      simp [SchedulerPhase.cleared?] at hcleared

theorem Sign.eq_openEnds_of_isOpenFailure {sign : Sign} (hfails : sign.isOpenFailure = true) :
    sign = .openEnds false := by
  cases sign with
  | openEnds success => simpa [isOpenFailure] using hfails
  | opens | starts request | ends success | closes => simp [isOpenFailure] at hfails

/-- A link only hears that its transport does not open. -/
theorem openEnds_not_mem_signs (success : Bool) (events : List Event) :
    .openEnds success ∉ signs events := by
  intro hmem
  obtain ⟨event, -, hsign⟩ := List.mem_filterMap.mp hmem
  cases event <;> simp [Event.sign?] at hsign

theorem Transaction.length_heard_le (transaction : Transaction) (action : Action) :
    (transaction.heard action).length ≤ 1 := by
  rw [heard]
  split
  · exact Option.length_toList_le
  · exact Nat.zero_le 1
  · exact Option.length_toList_le

namespace Transition

variable {transition : Transition}

theorem countP_signsOf_le (transition : Transition) :
    (transition.signsOf .scheduler).countP Sign.isOpenFailure ≤ 1 := by
  rw [signsOf]
  split
  · have hsilent : (signs transition.events).countP Sign.isOpenFailure = 0 := by
      apply List.countP_eq_zero.mpr
      intro sign hsign hfails
      rw [Sign.eq_openEnds_of_isOpenFailure hfails] at hsign
      exact openEnds_not_mem_signs false _ hsign
    rw [List.countP_append, hsilent, Nat.add_zero]
    refine Nat.le_trans (List.countP_le_length) ?_
    cases htransaction : transition.before.traffic.transaction with
    | none => simp [Traffic.heard_of_none htransaction]
    | some transaction =>
        rw [Traffic.heard_of_some htransaction]
        exact transaction.length_heard_le transition.action
  · exact Nat.zero_le 1

end Transition

/-- While no poll has been cleared, the scheduler does nothing with the transport but to close
it. -/
theorem Move.eq_closes_of_sign {c after : Traffic} {action : Action} {events : List Event}
    {sign : Sign} (hmove : Move c action events after) (horderly : c.Orderly)
    (hheld : c.linkLock.holder = some .scheduler) (hcleared : c.phase.cleared? = none)
    (hsign : sign ∈ c.heard action ++ signs events) : sign = .closes := by
  have hidle : c.transaction = none := by
    cases htransaction : c.transaction with
    | none => rfl
    | some transaction =>
        obtain ⟨tick, hphase⟩ := horderly.polling_of_held htransaction hheld
        simp [hphase, SchedulerPhase.cleared?] at hcleared
  have hbusy {transaction : Transaction} (hsome : c.transaction = some transaction) : False := by
    simp [hidle] at hsome
  have hother {id : Nat} (hcall : c.linkLock.holder = some (.call id)) : False := by
    simp [hheld] at hcall
  have hquietly {events : List Event} (hquiet : Quiet events) (hmem : sign ∈ signs events) :
      sign = .closes := by
    simp [hquiet.signs_eq_nil] at hmem
  rw [Traffic.heard_of_none hidle, List.nil_append] at hsign
  cases hmove with
  | elapse | seekLink | seekSetting | seekShutdown | refuse | startWrite | startPosting
  | postClose | endSetting | callSeekShutdown | announce | finish | callSeekLink
  | callLeaveLink | «return» | cancel => simp [signs, Event.sign?] at hsign
  | stay haction hquiet => exact hquietly hquiet hsign
  | stroll haction hphase hnext hquiet => exact hquietly hquiet hsign
  | clear hphase hopen hrest hquiet | leaveLink hphase hheld hnext hquiet
  | enterSection hphase hheld hquiet => exact hquietly hquiet hsign
  | refuseAttempt hphase hheld hopen hjob hinvalid hquiet => exact hquietly hquiet hsign
  | endScheduler hphase hheld hquiet =>
      rw [signs_append, hquiet.signs_eq_nil, List.append_nil, Link.signs_shutdown,
        Link.signs_close] at hsign
      split at hsign
      · exact List.mem_singleton.mp hsign
      · simp at hsign
  | callShutdown hphase hcall | attempt hphase hcall => exact (hother hcall).elim
  | poll hphase => simp [hphase, SchedulerPhase.cleared?] at hcleared
  | proceed htransaction | endPoll htransaction | store htransaction | fail htransaction
  | misfit htransaction | writeBack htransaction => exact (hbusy htransaction).elim

namespace Connection

variable {before after start final : Connection} {action : Action} {events : List Event}
variable {path : List Transition} {transition : Transition}

theorem mem_signsOf_scheduler {sign : Sign} :
    sign ∈ transition.signsOf .scheduler ↔
      transition.before.linkLock.holder = some .scheduler ∧
        sign ∈ transition.before.traffic.heard transition.action ++ signs transition.events := by
  rw [Transition.signsOf]
  split
  · next hholder => simp [FairLock.isHeldBy_iff.mp hholder]
  · next hholder => simp [mt FairLock.isHeldBy_iff.mpr hholder]

/-- A transport that does not open has been opened for the transaction under way. -/
theorem opening_of_heard {c : Traffic} {action : Action}
    (hheard : Sign.openEnds false ∈ c.heard action) :
    ∃ request since error, c.transaction = some ⟨request, .opening since⟩ ∧
      action.openResult? = some (.error error) := by
  cases htransaction : c.transaction with
  | none => simp [Traffic.heard_of_none htransaction] at hheard
  | some transaction =>
      obtain ⟨request, stage⟩ := transaction
      rw [Traffic.heard_of_some htransaction] at hheard
      cases stage with
      | spacing stop => simp [Transaction.heard] at hheard
      | exchanging since => simp [Transaction.heard] at hheard
      | opening since =>
          simp only [Transaction.heard, Option.mem_toList, Option.map_eq_some_iff,
            Sign.openEnds.injEq] at hheard
          obtain ⟨result, hresult, hfails⟩ := hheard
          cases result with
          | ok _ => simp [Except.isOk, Except.toBool] at hfails
          | error error => exact ⟨request, since, error, rfl, hresult⟩

/-- When the transport fails to open for a poll, the scheduler does not try again. -/
theorem barred_of_openEnds (horderly : before.traffic.Orderly)
    (hstep : before.step action = some (after, events))
    (hfails : Sign.openEnds false ∈
      Transition.signsOf .scheduler ⟨before, action, after, events⟩) :
    after.scheduler.phase.Barred := by
  obtain ⟨hheld, hsign⟩ := mem_signsOf_scheduler.mp hfails
  have hheard : Sign.openEnds false ∈ before.traffic.heard action :=
    (List.mem_append.mp hsign).resolve_right (openEnds_not_mem_signs false events)
  obtain ⟨request, since, failure, htransaction, haction⟩ := opening_of_heard hheard
  obtain ⟨tick, hphase⟩ := horderly.polling_of_held htransaction hheld
  have hpolling : before.scheduler.phase = .polling tick := hphase
  obtain ⟨cause, noticing, -, hopened⟩ := before.link.opened_failed before.now request failure
  have hcause : cause.isOpenFailure = true :=
    before.link.isOpenFailure_of_opened (congrArg (·.2.2) hopened)
  have hends : before.traffic.ending? action = some (.error cause) := by
    have hlink : before.traffic.link.opened before.traffic.now request (.error failure) = _ :=
      hopened
    simp only [Traffic.ending?, htransaction, haction, Option.bind_some, hlink]
    rfl
  have hfree : after.scheduler.phase.isFree = true :=
    (move_of_step horderly hstep).phase_of_ending? horderly hphase hends
  have hresult {tick : Tick} {group : PollGroup} {result : Except RequestError Response}
      (hhears : before.Hears action tick group result) : result = .error cause := by
    obtain ⟨stage, link, shown, hsome, hturn⟩ := hhears.turn
    have hended := Link.Turn.ending?_eq (c := before.traffic) hsome hturn
    rw [hends] at hended
    exact (Option.some.inj hended).symm
  have hscheduler := scheduler_of_step horderly hstep
  generalize reports events = shown, after.scheduler = next at hscheduler hfree
  cases hscheduler with
  | keep => simp [hpolling, SchedulerPhase.isFree] at hfree
  | fail hhears hcounts hfresh =>
      obtain rfl := Except.error.inj (hresult hhears)
      refine ⟨rfl, fun other hnow => ?_⟩
      obtain rfl := Option.some.inj hnow
      simp [Tick.concluded, PollOutcome.openFailure?, hcause]
  | read hhears => cases hresult hhears
  | abort hhears hending =>
      obtain rfl := Except.error.inj (hresult hhears)
      simp [RequestError.not_isEnding_of_isOpenFailure hcause] at hending
  | switch _ hother | seekSetting _ hother | halt _ hother => simp [hpolling] at hother
  | applied hother | seekShutdown hother | endScheduler hother | beginTick hother
  | seekLink hother | poll hother | sample hother | pass hother | deliver hother
  | conclude hother => simp [hpolling] at hother
  | endTick hother | giveUp hother => simp [hpolling] at hother
  | notDue hvisits | skip hvisits | defer hvisits | clear hvisits =>
      have hother := hvisits.phase
      simp [hpolling] at hother

/-- What the scheduler hands to the link is the read of a group. -/
theorem Hands.polled {c : Connection} {request : Request}
    (hhands : c.Hands action .scheduler request) :
    ∃ tick group, c.scheduler.phase = .awaitingLink tick ∧ c.group? tick.next = some group ∧
      request = .read group.readRequest := by
  cases hhands with
  | poll hphase hheld hopen hgroup => exact ⟨_, _, hphase, hgroup, rfl⟩

/-! ## Paths -/

theorem Path.barred (hpath : Path start path final) (horderly : start.traffic.Orderly)
    (hbarred : start.scheduler.phase.Barred)
    (hsame : ∀ transition ∈ path, transition.action ≠ .tick) :
    final.scheduler.phase.Barred ∧ (∀ sign ∈ schedulerSigns path, sign = .closes) ∧
      ∀ transition ∈ path, ∀ request,
        ¬transition.before.Hands transition.action .scheduler request := by
  induction hpath with
  | nil => exact ⟨hbarred, by simp [schedulerSigns], by simp⟩
  | @cons before after final action events rest hstep hrest ih =>
      have hmove := move_of_step horderly hstep
      have hnext := (scheduler_of_step horderly hstep).barred hbarred
        (hsame _ List.mem_cons_self)
      obtain ⟨hfinal, hsigns, hpolls⟩ := ih (hmove.orderly horderly) hnext fun transition hmem =>
        hsame transition (List.mem_cons_of_mem _ hmem)
      refine ⟨hfinal, ?_, List.forall_mem_cons.mpr ⟨?_, hpolls⟩⟩
      · rw [schedulerSigns, List.flatMap_cons, List.forall_mem_append]
        refine ⟨fun sign hsign => ?_, hsigns⟩
        obtain ⟨hheld, hmem⟩ := mem_signsOf_scheduler.mp hsign
        exact hmove.eq_closes_of_sign horderly hheld hbarred.cleared hmem
      · intro request hhands
        obtain ⟨tick, group, hphase, -, -⟩ := hhands.polled
        have hwaits : before.scheduler.phase = .awaitingLink tick := hphase
        have hcleared := hbarred.cleared
        simp [hwaits, SchedulerPhase.cleared?] at hcleared

/-- The transport fails to open for the scheduler once, and then it is barred. -/
theorem Path.countP_openFailures (hpath : Path start path final)
    (horderly : start.traffic.Orderly)
    (hsame : ∀ transition ∈ path, transition.action ≠ .tick) :
    (schedulerSigns path).countP Sign.isOpenFailure ≤ 1 := by
  induction hpath with
  | nil => exact Nat.zero_le 1
  | @cons before after final action events rest hstep hrest ih =>
      have hmove := move_of_step horderly hstep
      have hlater := fun transition hmem => hsame transition (List.mem_cons_of_mem _ hmem)
      rw [schedulerSigns, List.flatMap_cons, List.countP_append, ← schedulerSigns]
      by_cases hfails : Sign.openEnds false ∈
          Transition.signsOf .scheduler ⟨before, action, after, events⟩
      · have hbarred := barred_of_openEnds horderly hstep hfails
        obtain ⟨-, hsigns, -⟩ := hrest.barred (hmove.orderly horderly) hbarred hlater
        have hnone : (schedulerSigns rest).countP Sign.isOpenFailure = 0 := by
          apply List.countP_eq_zero.mpr
          intro sign hsign hopens
          rw [hsigns sign hsign] at hopens
          simp [Sign.isOpenFailure] at hopens
        rw [hnone, Nat.add_zero]
        exact Transition.countP_signsOf_le _
      · have hnone : (Transition.signsOf .scheduler ⟨before, action, after, events⟩).countP
            Sign.isOpenFailure = 0 := by
          apply List.countP_eq_zero.mpr
          intro sign hsign hopens
          rw [Sign.eq_openEnds_of_isOpenFailure hopens] at hsign
          exact hfails hsign
        rw [hnone, Nat.zero_add]
        exact ih (hmove.orderly horderly) hlater

/-- A group that is polled has not been passed by yet. -/
theorem Path.floor_le (hpath : Path start path final) (horderly : start.traffic.Orderly)
    (hsame : ∀ transition ∈ path, transition.action ≠ .tick) :
    ∀ transition ∈ path, ∀ tick, transition.before.scheduler.phase = .awaitingLink tick →
      ∃ floor ≤ tick.next, start.scheduler.phase.floor? = some floor := by
  induction hpath with
  | nil => simp
  | @cons before after final action events rest hstep hrest ih =>
      have hmove := move_of_step horderly hstep
      have hrests := ih (hmove.orderly horderly) fun transition hmem =>
        hsame transition (List.mem_cons_of_mem _ hmem)
      refine List.forall_mem_cons.mpr ⟨fun tick hphase => ?_, fun transition hmem tick hphase => ?_⟩
      · exact ⟨tick.next, Nat.le_refl _, by rw [show before.scheduler.phase = _ from hphase]; rfl⟩
      · obtain ⟨floor, hle, hfloor⟩ := hrests transition hmem tick hphase
        obtain ⟨earlier, hearlier, hbefore⟩ := (scheduler_of_step horderly hstep).floor
          (hsame _ List.mem_cons_self) hfloor
        exact ⟨earlier, Nat.le_trans hearlier hle, hbefore⟩

/-- A group is behind the scheduler as soon as it is polled. -/
theorem floor_of_polls {tick : Tick} {request : Request} (horderly : before.traffic.Orderly)
    (hstep : before.step action = some (after, events))
    (hphase : before.scheduler.phase = .awaitingLink tick)
    (hhands : before.Hands action .scheduler request) :
    after.scheduler.phase.floor? = some (tick.next + 1) := by
  obtain @⟨other, group, hwaits, hheld, hopen, hgroup⟩ := hhands
  obtain rfl := SchedulerPhase.awaitingLink.inj (hwaits.symm.trans hphase)
  have hscheduler := scheduler_of_step horderly hstep
  generalize reports events = shown, after.scheduler = next at hscheduler
  cases hscheduler with
  | keep hother => simp [Action.isScheduling] at hother
  | @poll polled _ hpolled =>
      obtain rfl := SchedulerPhase.awaitingLink.inj (hphase.symm.trans hpolled)
      rfl
  | giveUp _ hclosing => simp [hopen] at hclosing
  | @endTick ended _ hended =>
      rcases hended with hvisits | ⟨hended, hnone⟩
      · simp [hphase] at hvisits
      · obtain rfl := SchedulerPhase.awaitingLink.inj (hphase.symm.trans hended)
        simp [hgroup] at hnone
  | switch _ hother | seekSetting _ hother | halt _ hother | applied hother
  | seekShutdown hother | endScheduler hother | seekLink hother | sample hother | pass hother
  | conclude hother => simp [hphase] at hother
  | notDue hvisits | skip hvisits | defer hvisits | clear hvisits =>
      have hother := hvisits.phase
      simp [hphase] at hother
  | read hhears | fail hhears | abort hhears =>
      have hother := hhears.phase
      simp [hphase] at hother

/-- The groups are polled in their order. -/
theorem Path.places_increase (hpath : Path start path final) (horderly : start.traffic.Orderly)
    (hsame : ∀ transition ∈ path, transition.action ≠ .tick) :
    path.Pairwise fun first second => ∀ tick later request,
      first.before.scheduler.phase = .awaitingLink tick →
        first.before.Hands first.action .scheduler request →
          second.before.scheduler.phase = .awaitingLink later → tick.next < later.next := by
  induction hpath with
  | nil => exact .nil
  | @cons before after final action events rest hstep hrest ih =>
      have hready := (move_of_step horderly hstep).orderly horderly
      have hlater := fun transition hmem => hsame transition (List.mem_cons_of_mem _ hmem)
      refine .cons (fun second hmem tick later request hphase hhands hwaits => ?_)
        (ih hready hlater)
      obtain ⟨floor, hle, hfloor⟩ := hrest.floor_le hready hlater second hmem later hwaits
      have hplace := (floor_of_polls horderly hstep hphase hhands).symm.trans hfloor
      obtain rfl := Option.some.inj hplace
      exact hle

theorem Path.indices_eq (hpath : Path start path final) (horderly : start.traffic.Orderly) :
    final.scheduler.groups.map (·.index) = start.scheduler.groups.map (·.index) := by
  have htasks := congrArg (List.map PollGroup.index) (hpath.tasks_eq horderly)
  rw [List.map_map, List.map_map] at htasks
  exact htasks

/-- The groups keep their numbers. -/
theorem Path.numbered (hpath : Path start path final) (horderly : start.traffic.Orderly)
    (hnumbered : start.scheduler.groups.map (·.index) = List.range start.scheduler.groups.length) :
    final.scheduler.groups.map (·.index) = List.range final.scheduler.groups.length := by
  have hkept := hpath.indices_eq horderly
  have hlength := congrArg List.length hkept
  rw [List.length_map, List.length_map] at hlength
  rw [hkept, hnumbered, hlength]

/-- The number of a group is its place. -/
theorem index_eq_of_group? {index : Nat} {group : PollGroup}
    (hnumbered : start.scheduler.groups.map (·.index) = List.range start.scheduler.groups.length)
    (hfound : start.group? index = some group) : group.index = index := by
  have hplace : start.scheduler.groups[index]? = some group := hfound
  have hnumber := congrArg (fun numbers => numbers[index]?) hnumbered
  have hlt := (List.getElem?_eq_some_iff.mp hplace).1
  simpa [hplace, List.getElem?_range hlt] using hnumber

theorem Path.advances (hpath : Path start path final) (horderly : start.traffic.Orderly)
    (hidle : start.scheduler.phase = .idle) : final.scheduler.Advances := by
  refine hpath.history (motive := fun _ state => state.scheduler.Advances) ?_ ?_
  · exact ⟨fun tick hnow => by simp [hidle, SchedulerPhase.tick?] at hnow,
      fun tick answered hnow => by simp [hidle, SchedulerPhase.underWay?] at hnow⟩
  · intro past before action after events hpast hadvances hstep
    exact (scheduler_of_step (hpast.orderly horderly) hstep).advances
      (fun _ _ => hpast.isOpenFailure_of_visiting horderly hidle) hadvances

/-- A tick in which the transport has failed to open is barred. -/
theorem Path.barred_of_failed {tick : Tick} {index : Nat} {error : RequestError}
    (hpath : Path start path final) (horderly : start.traffic.Orderly)
    (hidle : start.scheduler.phase = .idle) (htick : final.scheduler.phase.tick? = some tick)
    (hmem : (index, .failed error) ∈ tick.outcomes) (hopens : error.isOpenFailure = true) :
    final.scheduler.phase.Barred := by
  have hfailure : tick.openFailure ≠ none := by
    rw [hpath.openFailure_eq horderly hidle htick, Tick.lastOpenFailure?, ne_eq,
      List.getLast?_eq_none_iff]
    apply List.ne_nil_of_mem
    apply List.mem_filterMap.mpr
    exact ⟨_, hmem, if_pos hopens⟩
  have hcleared : ∀ tick, final.scheduler.phase.cleared? = some tick → tick.openFailure = none := by
    refine hpath.history (motive := fun _ state => ∀ tick,
      state.scheduler.phase.cleared? = some tick → tick.openFailure = none) ?_ ?_
    · simp [hidle, SchedulerPhase.cleared?]
    · intro past before action after events hpast hbefore hstep tick hnow
      exact (scheduler_of_step (hpast.orderly horderly) hstep).openFailure_of_cleared hnow hbefore
  refine ⟨?_, fun other hother => ?_⟩
  · cases hphase : final.scheduler.phase.cleared? with
    | none => rfl
    | some cleared =>
        have hnow := SchedulerPhase.tick?_of_cleared? hphase
        obtain rfl := Option.some.inj (htick.symm.trans hnow)
        exact absurd (hcleared tick hphase) hfailure
  · obtain rfl := Option.some.inj (htick.symm.trans hother)
    exact hfailure

end Connection

/-- What a tick does with the groups. -/
structure SingleVisits (groups : List PollGroup) (during : List Transition) : Prop where
  /-- The outcomes that a tick returns are those of the first groups. -/
  outcomes : ∀ transition ∈ during, ∀ outcomes, .tickEnds outcomes ∈ transition.events →
    outcomes.map (·.1) <+: groups.map (·.index)
  indices_nodup : (groups.map (·.index)).Nodup
  /-- The scheduler only reads groups. -/
  polls : ∀ transition ∈ during, ∀ request,
    transition.before.Hands transition.action .scheduler request →
      ∃ index ∈ groups.map (·.index), transition.ReadsGroup index
  polled_once : during.Pairwise fun first second =>
    ∀ index, first.ReadsGroup index → ¬second.ReadsGroup index
  /-- After a visit that the transport has failed to open for, the scheduler does nothing with it
  but to close it. -/
  barred : ∀ past visit later tick index error, during = past ++ visit :: later →
    visit.after.scheduler.phase.tick? = some tick → (index, .failed error) ∈ tick.outcomes →
      error.isOpenFailure = true →
        (∀ sign ∈ schedulerSigns later, sign = .closes) ∧
          ∀ transition ∈ later, ∀ request,
            ¬transition.before.Hands transition.action .scheduler request
  openFailures : (schedulerSigns during).countP Sign.isOpenFailure ≤ 1

namespace Connection

variable {settings : ConnectionSettings} {codec : ValueCodec} {declared : List Point}
variable {final : Connection} {earlier during : List Transition}

theorem indices_create (settings : ConnectionSettings) (codec : ValueCodec)
    (declared : List Point) :
    (create settings codec declared).1.scheduler.groups.map (·.index) =
      List.range (create settings codec declared).1.scheduler.groups.length :=
  (partitions_buildGroups _ _).indices

/-- Whatever else goes on until the next tick begins, the groups are visited in their order, each of
them is read at most once, and the transport fails to open at most once. -/
theorem singleVisits_of_tick
    (hpath : Path (create settings codec declared).1 (earlier ++ during) final)
    (hsame : ∀ transition ∈ during, transition.action ≠ .tick) :
    SingleVisits (create settings codec declared).1.scheduler.groups during := by
  have hcreate := create_orderly settings codec declared
  have hnumbered := indices_create settings codec declared
  obtain ⟨begun, hearlier, hduring⟩ := Path.append_iff.mp hpath
  have horderly := hearlier.orderly hcreate
  have hreach {past later : List Transition} {transition : Transition}
      (hsplit : during = past ++ transition :: later) :
      Path (create settings codec declared).1 (earlier ++ past) transition.before :=
    hearlier.append (hsplit ▸ hduring).split.1
  have hgroup {transition : Transition} {index : Nat} {group : PollGroup}
      (hmem : transition ∈ during) (hfound : transition.before.group? index = some group) :
      group.index = index ∧
        index < (create settings codec declared).1.scheduler.groups.length := by
    obtain ⟨past, later, hsplit⟩ := List.append_of_mem hmem
    have hindices := (hreach hsplit).indices_eq hcreate
    have hlength := congrArg List.length hindices
    rw [List.length_map, List.length_map] at hlength
    have hlt := (List.getElem?_eq_some_iff.mp hfound).1
    exact ⟨index_eq_of_group? ((hreach hsplit).numbered hcreate hnumbered) hfound, hlength ▸ hlt⟩
  refine ⟨?_, hnumbered ▸ List.nodup_range, ?_, ?_, ?_, hduring.countP_openFailures horderly hsame⟩
  · intro transition hmem outcomes hends
    obtain ⟨past, later, hsplit⟩ := List.append_of_mem hmem
    have hpast := hreach hsplit
    obtain ⟨tick, htick, rfl⟩ := tick_of_ends (hpast.orderly hcreate)
      (hsplit ▸ hduring).split.2.1 hends
    obtain ⟨hvisited, hle⟩ := (hpast.advances hcreate rfl).visited tick htick
    have hlength := congrArg List.length (hpast.indices_eq hcreate)
    rw [List.length_map, List.length_map] at hlength
    rw [hvisited, hnumbered, ← hlength, ← Nat.min_eq_left hle, ← List.take_range]
    exact List.take_prefix _ _
  · intro transition hmem request hhands
    obtain ⟨tick, group, hphase, hfound, rfl⟩ := hhands.polled
    obtain ⟨hindex, hlt⟩ := hgroup hmem hfound
    refine ⟨group.index, ?_, tick, group, hphase, hfound, rfl, hhands⟩
    rw [hnumbered, hindex]
    exact List.mem_range.mpr hlt
  · apply (hduring.places_increase horderly hsame).imp_of_mem
    rintro first second hfirst hsecond hincrease index
      ⟨tick, group, hphase, hfound, rfl, hhands⟩ ⟨later, other, hlater, hagain, hsameIndex, -⟩
    have hless := hincrease tick later _ hphase hhands hlater
    rw [← (hgroup hfirst hfound).1, ← (hgroup hsecond hagain).1, hsameIndex] at hless
    exact Nat.lt_irrefl _ hless
  · rintro past visit later tick index error rfl htick hmem hopens
    have hvisit := hduring.split
    have hpast := (hreach rfl).append (.cons hvisit.2.1 (.nil _))
    have hbarred := hpast.barred_of_failed hcreate rfl htick hmem hopens
    exact (hvisit.2.2.barred (hpast.orderly hcreate) hbarred fun transition hlater =>
      hsame transition (by simp [hlater])).2

/-- Once the transport has failed to open, the scheduler is done with it in this tick. -/
theorem sampleTick_singleVisits :
    SingleVisits sampleStation.scheduler.groups (sampleTick.after.walk Action.readAndFail) ∧
      (schedulerSigns (sampleTick.after.walk Action.readAndFail)).countP Sign.isOpenFailure =
        1 := by
  have hpath : Path sampleStation
      ([sampleTick] ++ sampleTick.after.walk Action.readAndFail)
        (sampleTick.after.stop Action.readAndFail) := path_sampleTick
  refine ⟨singleVisits_of_tick hpath fun transition hmem htick => ?_, by decide +kernel⟩
  have haction := action_mem_of_walk hmem
  simp [htick, Action.readAndFail] at haction

end Connection

end Fieldbus

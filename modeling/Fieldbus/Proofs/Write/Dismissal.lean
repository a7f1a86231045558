import Fieldbus.Proofs.Link.Shutdown
import Mathlib.Order.WithBot

/-!
# Writes that are dismissed

A write that waits when its connection is shut down can only return that the connection is closed.
Both locks are passed on in the order in which they have been asked for, and nobody keeps the link
any more, so there is always a user whose next step brings the write closer to its end.
-/

namespace Fieldbus

namespace CallPhase

/-- The write waits for the write section or for the link, or it is about to. -/
def isPending : CallPhase → Bool
  | announcing _ _ | awaitingSection _ _ | awaitingLink _ => true
  | attempting job => !job.commands.isEmpty
  | posting _ | stopping | awaitingShutdown | transacting _ | finishing _ => false

/-- Once the connection closes, the write can only return that it is closed. -/
def IsDoomed : CallPhase → Prop
  | announcing _ commands | awaitingSection _ commands => commands ≠ []
  | attempting job => job.commands ≠ []
  | awaitingLink _ => True
  | finishing result => result = .error .closed
  | posting _ | stopping | awaitingShutdown | transacting _ => False

/-- Where the next step of a write leads once the connection closes. -/
inductive Yields : CallPhase → CallPhase → Prop where
  | announces (device : DeviceId) (commands : List WriteCommand) :
      Yields (announcing device commands) (awaitingSection device commands)
  | enters (device : DeviceId) (commands : List WriteCommand) :
      Yields (awaitingSection device commands) (attempting { commands })
  | ends {job : WriteJob} (hjob : job.commands = []) :
      Yields (attempting job) (finishing (.ok ()))
  | givesUp {job : WriteJob} (hjob : job.commands ≠ []) :
      Yields (attempting job) (finishing (.error .closed))
  | leaves (job : WriteJob) : Yields (awaitingLink job) (finishing (.error .closed))

/-- The steps of its own that a write inside the section has left, once the connection closes. -/
def toGo : CallPhase → Nat
  | awaitingSection _ _ => 3
  | attempting _ | awaitingLink _ => 2
  | finishing _ => 1
  | posting _ | stopping | awaitingShutdown | announcing _ _ | transacting _ => 0

variable {old new phase : CallPhase}

theorem isDoomed_of_isPending (hpending : phase.isPending = true)
    (hplanned : ∀ commands, phase.planned? = some commands → commands ≠ []) : phase.IsDoomed := by
  cases phase with
  | announcing device commands | awaitingSection device commands => exact hplanned commands rfl
  | attempting job =>
      rintro hnone
      simp [isPending, hnone] at hpending
  | awaitingLink => trivial
  | posting | stopping | awaitingShutdown | transacting | finishing =>
      simp [isPending] at hpending

theorem isAnnounced_iff : phase.isAnnounced = true ↔ phase.sectionStance ≠ .away := by
  cases phase <;> simp [isAnnounced, CallPhase.sectionStance]

theorem IsDoomed.isWrite (hdoomed : phase.IsDoomed) : phase.isWrite = true := by
  cases phase <;> first | rfl | exact hdoomed.elim

theorem Yields.isDoomed (hyields : old.Yields new) (hdoomed : old.IsDoomed) : new.IsDoomed := by
  cases hyields with
  | announces | enters => exact hdoomed
  | ends hjob => exact absurd hjob hdoomed
  | givesUp | leaves => rfl

theorem Yields.linkStance (hyields : old.Yields new) : new.linkStance = .away := by
  cases hyields <;> rfl

theorem Yields.toGo_lt (hyields : old.Yields new) (hknown : old.isAnnounced = true) :
    new.toGo < old.toGo := by
  cases hyields with
  | announces => simp [isAnnounced] at hknown
  | enters | ends | givesUp | leaves => simp [toGo]

end CallPhase

namespace Connection

variable {before after : Connection} {action : Action} {events : List Event} {id holder : Nat}
variable {phase : CallPhase} {actor : Actor}

/-- What the next step of a write does once the connection closes. -/
inductive Dismissal (before : Connection) (id : Nat) :
    CallPhase → List Event → Connection → Prop where
  | goesOn {old new : CallPhase} {events : List Event} {after : Connection}
      (hyields : old.Yields new) (hnext : Calls.phase? after.calls id = some new)
      (hsection : old.isAnnounced = true → after.writeSection = before.writeSection)
      (hsilent : returned events = []) : Dismissal before id old events after
  | returns {result : Except WriteError Unit} {after : Connection}
      (hgone : Calls.phase? after.calls id = none)
      (hsection : after.writeSection = before.writeSection.release) :
      Dismissal before id (.finishing result) [.callReturns id (.write result)] after

theorem step_call (hphase : Calls.phase? before.calls id = some phase) :
    before.step (.run (.call id)) = before.runCall? ⟨id, phase⟩ := by
  rw [step, call?_eq_some hphase, Option.bind_some]

theorem dismissal_of_turn {outcome : Connection × List Event} (hclosing : before.closing = true)
    (hphase : Calls.phase? before.calls id = some phase) (hwrite : phase.isWrite = true)
    (hturn : before.CallTurn id outcome) : Dismissal before id phase outcome.2 outcome.1 := by
  have hset (next : CallPhase) : Calls.phase? (Calls.set id next before.calls) id = some next := by
    rw [Calls.phase?_set (by simp [hphase]), Function.update_self]
  cases hturn with
  | endSetting hnow | postClose hnow | seekShutdown hnow | shutdown hnow =>
      obtain rfl := Option.some.inj (hnow.symm.trans hphase)
      simp [CallPhase.isWrite, CallPhase.isAnnounced] at hwrite
  | announce hnow =>
      obtain rfl := Option.some.inj (hnow.symm.trans hphase)
      exact .goesOn (.announces _ _) (hset _) (by simp [CallPhase.isAnnounced]) rfl
  | enterSection hnow =>
      obtain rfl := Option.some.inj (hnow.symm.trans hphase)
      exact .goesOn (.enters _ _) (hset _) (fun _ => rfl) rfl
  | finish hnow hresult =>
      obtain rfl := Option.some.inj (hnow.symm.trans hphase)
      rcases hresult with ⟨hnone, rfl⟩ | ⟨hjob, -, rfl⟩
      · exact .goesOn (.ends hnone) (hset _) (fun _ => rfl) rfl
      · exact .goesOn (.givesUp hjob) (hset _) (fun _ => rfl) rfl
  | leaveLink hnow =>
      obtain rfl := Option.some.inj (hnow.symm.trans hphase)
      exact .goesOn (.leaves _) (hset _) (fun _ => rfl) rfl
  | seekLink _ _ hopen | attempt _ _ hopen => simp [hclosing] at hopen
  | «return» hnow =>
      obtain rfl := Option.some.inj (hnow.symm.trans hphase)
      have hgone : Calls.phase? (Calls.remove id before.calls) id = none := by
        rw [Calls.phase?_remove, Function.update_self]
      exact .returns hgone rfl

theorem dismissal_of_step (hclosing : before.closing = true)
    (hphase : Calls.phase? before.calls id = some phase) (hwrite : phase.isWrite = true)
    (hstep : before.step (.run (.call id)) = some (after, events)) :
    Dismissal before id phase events after :=
  dismissal_of_turn hclosing hphase hwrite (callTurn_of_step hstep)

end Connection

namespace Move

variable {c after : Traffic} {action : Action} {events : List Event} {id : Nat}
variable {phase : CallPhase} {actor : Actor}

/-- Nobody leaves the write section but the write that has it, when it returns. -/
theorem section_joined (hmove : Move c action events after) (horderly : c.Orderly)
    (hkept : ∀ id, action ≠ .cancel id) (hheld : c.writeSection.holder = some (.call id))
    (hphase : Calls.phase? c.calls id = some phase)
    (hstays : phase.isFinishing = true → action ≠ .run (.call id)) :
    c.writeSection.Joined after.writeSection := by
  cases hmove with
  | announce => exact .inr ⟨_, rfl⟩
  | cancel => exact absurd rfl (hkept _)
  | @«return» other result hfinishing =>
      have hholder :=
        horderly.writes.holder_of_inside _ (stances_call hfinishing)
      obtain rfl : id = other := by simpa [hheld] using hholder
      obtain rfl := Option.some.inj (hphase.symm.trans hfinishing)
      exact absurd rfl (hstays rfl)
  | _ => exact .inl rfl

/-- Nobody leaves the link but the user that has it, when no transaction is under way. -/
theorem link_joined (hmove : Move c action events after) (horderly : c.Orderly)
    (hkept : ∀ id, action ≠ .cancel id) (hnone : c.transaction = none)
    (hafter : after.transaction = none) (hheld : c.linkLock.holder = some actor)
    (hother : action ≠ .run actor) : c.linkLock.Joined after.linkLock := by
  cases hmove.shift with
  | keep hlock => exact .inl hlock
  | request other haway hlock => exact .inr ⟨other, hlock⟩
  | enter other hholder hqueued hlock hstance hbusy => exact absurd hafter hbusy
  | leave other haction hholder =>
      obtain rfl := Option.some.inj (hheld.symm.trans hholder)
      exact absurd haction hother
  | exit other hinside => exact absurd hnone (horderly.busy.mpr ⟨other, hinside⟩)
  | withdraw other haction => exact absurd haction (hkept other)

end Move

namespace Connection

variable {c before after : Connection} {action : Action} {events : List Event} {id holder : Nat}
variable {phase : CallPhase} {actor : Actor} {rank : WithTop Nat}

/-- A step of a connection that has been shut down, where nobody gives a call up. -/
structure Aftermath (before : Connection) (action : Action) (after : Connection)
    (events : List Event) : Prop where
  orderly : before.traffic.Orderly
  down : before.traffic.Down
  step : before.step action = some (after, events)
  kept : ∀ id, action ≠ .cancel id

namespace Aftermath

theorem move (hstep : Aftermath before action after events) :
    Move before.traffic action events after.traffic :=
  move_of_step hstep.orderly hstep.step

theorem down_after (hstep : Aftermath before action after events) : after.traffic.Down :=
  (hstep.move.of_down hstep.down).1

theorem orderly_after (hstep : Aftermath before action after events) : after.traffic.Orderly :=
  hstep.move.orderly hstep.orderly

/-- A call stays where it is unless it takes a step. -/
theorem phase?_eq (hstep : Aftermath before action after events)
    (hphase : Calls.phase? before.calls id = some phase) (hother : action ≠ .run (.call id)) :
    Calls.phase? after.calls id = some phase := by
  have hstarted : ∀ request, action ≠ .start id request := by
    rintro request rfl
    simp [phase?_of_start hstep.step] at hphase
  cases hstep.move.call_step id with
  | keep hsame => exact hsame.trans hphase
  | write device writes commands haction => exact absurd haction (hstarted _)
  | post request command haction => exact absurd haction (hstarted _)
  | advance old new hold hnow hlive hplanned hown =>
      cases hown with
      | inl hown => exact absurd hown hother
      | inr hbusy => exact absurd hstep.down.transaction hbusy
  | leave hnone hown =>
      cases hown with
      | inl hown => exact absurd hown hother
      | inr hcancelled => exact absurd hcancelled (hstep.kept id)

/-- A doomed write returns that the connection is closed, or it stays doomed. -/
theorem doomed (hstep : Aftermath before action after events)
    (hphase : Calls.phase? before.calls id = some phase) (hdoomed : phase.IsDoomed) :
    .callReturns id (.write (.error .closed)) ∈ events ∨
      (∀ result, .callReturns id result ∉ events) ∧
        ∃ next, Calls.phase? after.calls id = some next ∧ next.IsDoomed := by
  by_cases hown : action = .run (.call id)
  · have htaken := hstep.step
    rw [hown] at htaken
    cases dismissal_of_step hstep.down.closing hphase hdoomed.isWrite htaken with
    | @goesOn _ new _ _ hyields hnext hsection hsilent =>
        refine .inr ⟨fun result hreturns => ?_, new, hnext, hyields.isDoomed hdoomed⟩
        rw [← mem_returned, hsilent] at hreturns
        simp at hreturns
    | @returns result =>
        obtain rfl : result = .error .closed := hdoomed
        exact .inl List.mem_cons_self
  · refine .inr ⟨fun result hreturns => ?_, phase, hstep.phase?_eq hphase hown, hdoomed⟩
    cases hstep.move.of_returns hreturns with
    | refused => simp [phase?_of_start hstep.step] at hphase
    | setting | closed | write => exact hown rfl

theorem section_joined (hstep : Aftermath before action after events)
    (hheld : before.writeSection.holder = some (.call holder))
    (hphase : Calls.phase? before.calls holder = some phase)
    (hstays : phase.isFinishing = true → action ≠ .run (.call holder)) :
    before.writeSection.Joined after.writeSection :=
  hstep.move.section_joined hstep.orderly hstep.kept hheld hphase hstays

theorem link_joined (hstep : Aftermath before action after events)
    (hheld : before.linkLock.holder = some actor) (hother : action ≠ .run actor) :
    before.linkLock.Joined after.linkLock :=
  hstep.move.link_joined hstep.orderly hstep.kept hstep.down.transaction
    hstep.down_after.transaction hheld hother

end Aftermath

/-! ## Who brings a write closer to its end -/

theorem exists_call_of_stance {phases : Nat → Option CallPhase}
    (hstance : sectionStance phases actor ≠ .away) :
    ∃ id phase, actor = .call id ∧ phases id = some phase ∧
      sectionStance phases actor = phase.sectionStance := by
  cases actor with
  | scheduler => exact absurd rfl hstance
  | call id =>
      cases hphase : phases id with
      | none => exact absurd (stances_call_none hphase) hstance
      | some phase => exact ⟨id, phase, rfl, hphase, stances_call hphase⟩

theorem sectionGuards (horderly : c.traffic.Orderly) :
    c.writeSection.Guards (sectionStance (Calls.phase? c.calls)) :=
  horderly.writes

theorem linkGuards (horderly : c.traffic.Orderly) : c.linkLock.Guards c.traffic.stance :=
  horderly.link

theorem ne_inside (horderly : c.traffic.Orderly) (hdown : c.traffic.Down) (actor : Actor) :
    c.traffic.stance actor ≠ .inside :=
  fun hinside => horderly.busy.mpr ⟨actor, hinside⟩ hdown.transaction

theorem exists_release_scheduler (horderly : c.traffic.Orderly) (hdown : c.traffic.Down)
    (hheld : c.linkLock.holder = some .scheduler) :
    ∃ after events, c.step (.run .scheduler) = some (after, events) ∧
      after.linkLock = c.linkLock.release := by
  have hholder : c.linkLock.isHeldBy .scheduler = true := FairLock.isHeldBy_iff.mpr hheld
  have hclosing : c.closing = true := hdown.closing
  have hpresent : c.scheduler.phase.linkStance ≠ .away := horderly.link.ne_away_of_holder hheld
  have hwaits : c.scheduler.phase.linkStance ≠ .inside := ne_inside horderly hdown .scheduler
  cases hphase : c.scheduler.phase with
  | awaitingLink tick =>
      have hrun : c.step (.run .scheduler) =
          some (c.releaseLink.concludeVisit tick (.failed .closed), []) := by
        simp [step, runScheduler?, hphase, hholder, hclosing]
      exact ⟨_, _, hrun, rfl⟩
  | applying level interrupted =>
      have hrun : c.step (.run .scheduler) =
          some ({ c with link := { c.link with decode := level } }.releaseLink.resume
            interrupted, []) := by
        simp [step, runScheduler?, hphase, hholder]
      refine ⟨_, _, hrun, ?_⟩
      cases interrupted <;> rfl
  | awaitingShutdown =>
      have hrun : c.step (.run .scheduler) = some c.endScheduler := by
        simp [step, runScheduler?, hphase, hholder]
      exact ⟨_, _, hrun, rfl⟩
  | idle | visiting | requesting | publishing | delivering | stopping | ended =>
      simp [hphase, SchedulerPhase.linkStance] at hpresent
  | polling tick => simp [hphase, SchedulerPhase.linkStance] at hwaits

theorem exists_release_call (horderly : c.traffic.Orderly) (hdown : c.traffic.Down)
    (hheld : c.linkLock.holder = some (.call id)) :
    ∃ after events, c.step (.run (.call id)) = some (after, events) ∧
      after.linkLock = c.linkLock.release := by
  have hholder : c.linkLock.isHeldBy (.call id) = true := FairLock.isHeldBy_iff.mpr hheld
  have hclosing : c.closing = true := hdown.closing
  have hpresent : c.traffic.stance (.call id) ≠ .away := horderly.link.ne_away_of_holder hheld
  have hwaits := ne_inside horderly hdown (.call id)
  obtain ⟨phase, hphase⟩ : ∃ phase, Calls.phase? c.calls id = some phase :=
    Option.ne_none_iff_exists'.mp fun hnone => hpresent (Traffic.stance_call_none hnone)
  have hstance : c.traffic.stance (.call id) = phase.linkStance := Traffic.stance_call hphase
  rw [hstance] at hpresent hwaits
  cases phase with
  | awaitingLink job =>
      have hrun : c.step (.run (.call id)) =
          some (c.releaseLink.setCallPhase id (.finishing (.error .closed)), []) := by
        simp [step_call hphase, runCall?, hholder, hclosing]
      exact ⟨_, _, hrun, rfl⟩
  | awaitingShutdown =>
      have hrun : c.step (.run (.call id)) =
          some ((c.shutdownLink.1.endCall id .closed).1,
            c.shutdownLink.2 ++ [.callReturns id .closed]) := by
        simp [step_call hphase, runCall?, hholder, endCall]
      exact ⟨_, _, hrun, rfl⟩
  | posting | stopping | announcing | awaitingSection | attempting | finishing =>
      exact absurd rfl hpresent
  | transacting job => exact absurd rfl hwaits

/-- Whoever has the link of a connection that has been shut down gives it back at its next step. -/
theorem exists_release (horderly : c.traffic.Orderly) (hdown : c.traffic.Down)
    (hheld : c.linkLock.holder = some actor) :
    ∃ after events, c.step (.run actor) = some (after, events) ∧
      after.linkLock = c.linkLock.release := by
  cases actor with
  | scheduler => exact exists_release_scheduler horderly hdown hheld
  | call id => exact exists_release_call horderly hdown hheld

/-- How far a write is from its end once the connection has been shut down, and the user whose next
step brings it closer.  Nobody knows how many writes come before one that has not asked for the
write section yet. -/
inductive Pending (c : Connection) (id : Nat) : Actor → WithTop Nat → Prop where
  | announcing {device : DeviceId} {commands : List WriteCommand}
      (hphase : Calls.phase? c.calls id = some (.announcing device commands)) :
      Pending c id (.call id) ⊤
  /-- The write that has the section goes on. -/
  | inside {holder : Nat} {phase : CallPhase} (hmem : .call id ∈ c.writeSection.members)
      (hheld : c.writeSection.holder = some (.call holder))
      (hphase : Calls.phase? c.calls holder = some phase) (haway : phase.linkStance = .away) :
      Pending c id (.call holder) (.some (3 * c.writeSection.place (.call id) + phase.toGo))
  /-- The write that has the section waits for the link. -/
  | queued {holder : Nat} {job : WriteJob} {actor : Actor}
      (hmem : .call id ∈ c.writeSection.members)
      (hheld : c.writeSection.holder = some (.call holder))
      (hphase : Calls.phase? c.calls holder = some (.awaitingLink job))
      (hlink : c.linkLock.holder = some actor) :
      Pending c id actor
        (.some (3 * c.writeSection.place (.call id) + 2 + c.linkLock.place (.call holder)))

theorem mem_link (horderly : c.traffic.Orderly) {job : WriteJob}
    (hphase : Calls.phase? c.calls id = some (.awaitingLink job)) :
    .call id ∈ c.linkLock.members := by
  have hguards := linkGuards horderly
  have hstance : c.traffic.stance (.call id) = (CallPhase.awaitingLink job).linkStance :=
    Traffic.stance_call hphase
  apply (hguards.mem_iff _).mpr
  simp [hstance, CallPhase.linkStance]

/-- There is somebody for every write that has asked for the section. -/
theorem exists_pending (horderly : c.traffic.Orderly) (hdown : c.traffic.Down)
    (hmem : .call id ∈ c.writeSection.members) :
    ∃ actor rank, c.Pending id actor (.some rank) := by
  have hwrites := sectionGuards horderly
  obtain ⟨first, hheld⟩ := hwrites.prompt.exists_holder hmem
  have hpresent := hwrites.ne_away_of_holder hheld
  obtain ⟨holder, phase, rfl, hphase, hstance⟩ := exists_call_of_stance hpresent
  rw [hstance] at hpresent
  cases haway : phase.linkStance with
  | away => exact ⟨_, _, .inside hmem hheld hphase haway⟩
  | inside =>
      have hinside : c.traffic.stance (.call holder) = phase.linkStance :=
        Traffic.stance_call hphase
      exact absurd (hinside.trans haway) (ne_inside horderly hdown _)
  | queued =>
      cases phase with
      | awaitingLink job =>
          have hguards := linkGuards horderly
          obtain ⟨actor, hlink⟩ := hguards.prompt.exists_holder (mem_link horderly hphase)
          exact ⟨_, _, .queued hmem hheld hphase hlink⟩
      | awaitingShutdown => simp [CallPhase.sectionStance] at hpresent
      | posting | stopping | announcing | awaitingSection | attempting | transacting
      | finishing => simp [CallPhase.linkStance] at haway

/-- Whoever brings a write closer can go on. -/
theorem Pending.ready (hpending : c.Pending id actor rank) (horderly : c.traffic.Orderly)
    (hdown : c.traffic.Down) : c.step (.run actor) ≠ none := by
  cases hpending with
  | announcing hphase => simp [step_call hphase, runCall?]
  | @inside holder phase hmem hheld hphase haway =>
      have hwrites := sectionGuards horderly
      have hpresent := hwrites.ne_away_of_holder hheld
      rw [sectionStance, stances_call hphase] at hpresent
      have hholder : c.writeSection.isHeldBy (.call holder) = true :=
        FairLock.isHeldBy_iff.mpr hheld
      rw [step_call hphase]
      cases phase with
      | awaitingSection | finishing => simp [runCall?, hholder]
      | attempting job =>
          simp only [runCall?]
          split
          · simp
          · split <;> simp
      | posting | stopping | announcing => exact absurd rfl hpresent
      | awaitingShutdown | awaitingLink | transacting => simp [CallPhase.linkStance] at haway
  | queued hmem hheld hphase hlink =>
      obtain ⟨after, events, hrun, -⟩ := exists_release horderly hdown hlink
      simp [hrun]

namespace Aftermath

variable {device : DeviceId} {commands : List WriteCommand} {job : WriteJob}

/-- The write is nearer to its end, or it is where it was and its helper has not taken a step. -/
def Nears (after : Connection) (action : Action) (id : Nat) (actor : Actor) (rank : WithTop Nat) :
    Prop :=
  (∃ helper less, less < rank ∧ after.Pending id helper less) ∨
    action ≠ .run actor ∧ after.Pending id actor rank

theorem nears_announcing (hstep : Aftermath before action after events)
    (hphase : Calls.phase? before.calls id = some (.announcing device commands)) :
    Nears after action id (.call id) ⊤ := by
  by_cases hown : action = .run (.call id)
  · have htaken := hstep.step
    rw [hown] at htaken
    cases dismissal_of_step hstep.down.closing hphase rfl htaken with
    | goesOn hyields hnext =>
        cases hyields
        have hwrites := sectionGuards hstep.orderly_after
        have hmem : .call id ∈ after.writeSection.members := by
          rw [hwrites.mem_iff, sectionStance, stances_call hnext]
          simp [CallPhase.sectionStance]
        obtain ⟨helper, less, hpending⟩ :=
          exists_pending hstep.orderly_after hstep.down_after hmem
        exact .inl ⟨helper, _, WithTop.coe_lt_top less, hpending⟩
  · exact .inr ⟨hown, .announcing (hstep.phase?_eq hphase hown)⟩

/-- The section passes from a write that returns to one that enters it next. -/
theorem exists_pending_of_release (hstep : Aftermath before action after events)
    (haction : action = .run (.call holder))
    (hheld : before.writeSection.holder = some (.call holder))
    (hsection : after.writeSection = before.writeSection.release)
    (hmem : .call id ∈ before.writeSection.members) (hne : id ≠ holder) :
    ∃ actor less, less ≤ 3 * before.writeSection.place (.call id) ∧
      after.Pending id actor (.some less) := by
  have hdistinct : Actor.call id ≠ .call holder := by simpa using hne
  have hstays := FairLock.mem_release hheld hmem hdistinct
  rw [← hsection] at hstays
  obtain ⟨next, hnext⟩ := (sectionGuards hstep.orderly_after).prompt.exists_holder hstays
  obtain ⟨hother, hqueued⟩ :=
    (sectionGuards hstep.orderly).queued_of_release hheld (hsection ▸ hnext)
  have hpresent : sectionStance (Calls.phase? before.calls) next ≠ .away := by simp [hqueued]
  obtain ⟨waiter, phase, rfl, hphase, hstance⟩ := exists_call_of_stance hpresent
  rw [hstance] at hqueued
  obtain ⟨device, commands, rfl⟩ : ∃ device commands, phase = .awaitingSection device commands := by
    cases phase <;> simp [CallPhase.sectionStance] at hqueued ⊢
  have hafter := hstep.phase?_eq hphase (by rw [haction]; simpa using hother.symm)
  refine ⟨_, _, ?_, .inside hstays hnext hafter rfl⟩
  have hplace := FairLock.place_release hheld hdistinct
  rw [hsection, CallPhase.toGo]
  omega

theorem nears_inside (hstep : Aftermath before action after events)
    (hpresent : Calls.phase? after.calls id ≠ none)
    (hmem : .call id ∈ before.writeSection.members)
    (hheld : before.writeSection.holder = some (.call holder))
    (hphase : Calls.phase? before.calls holder = some phase) (haway : phase.linkStance = .away) :
    Nears after action id (.call holder)
      (.some (3 * before.writeSection.place (.call id) + phase.toGo)) := by
  have hguards := sectionGuards hstep.orderly
  by_cases hown : action = .run (.call holder)
  · have hstance := hguards.ne_away_of_holder hheld
    rw [sectionStance, stances_call hphase] at hstance
    have hknown := CallPhase.isAnnounced_iff.mpr hstance
    have hwrite : phase.isWrite = true := by
      cases phase <;> first | rfl | exact hknown
    have htaken := hstep.step
    rw [hown] at htaken
    cases dismissal_of_step hstep.down.closing hphase hwrite htaken with
    | goesOn hyields hnext hsection =>
        have hsame := hsection hknown
        have hless := hyields.toGo_lt hknown
        refine .inl ⟨.call holder, _, ?_,
          .inside (hsame ▸ hmem) (hsame ▸ hheld) hnext hyields.linkStance⟩
        rw [hsame]
        exact WithTop.coe_lt_coe.mpr (Nat.add_lt_add_left hless _)
    | returns hgone hsection =>
        have hne : id ≠ holder := by
          rintro rfl
          exact hpresent hgone
        obtain ⟨helper, less, hless, hpending⟩ :=
          hstep.exists_pending_of_release hown hheld hsection hmem hne
        exact .inl ⟨helper, _, WithTop.coe_lt_coe.mpr (Nat.lt_succ_of_le hless), hpending⟩
  · have hjoined := hstep.section_joined hheld hphase fun _ => hown
    refine .inr ⟨hown, ?_⟩
    rw [← hjoined.place_eq hguards.prompt hmem]
    exact .inside (hjoined.mem hguards.prompt hmem) (hjoined.holder_eq hheld)
      (hstep.phase?_eq hphase hown) haway

theorem nears_queued (hstep : Aftermath before action after events)
    (hmem : .call id ∈ before.writeSection.members)
    (hheld : before.writeSection.holder = some (.call holder))
    (hphase : Calls.phase? before.calls holder = some (.awaitingLink job))
    (hlink : before.linkLock.holder = some actor) :
    Nears after action id actor
      (.some (3 * before.writeSection.place (.call id) + 2 +
        before.linkLock.place (.call holder))) := by
  have hguards := sectionGuards hstep.orderly
  have hjoined := hstep.section_joined hheld hphase (by simp [CallPhase.isFinishing])
  have hplace := hjoined.place_eq hguards.prompt hmem
  have hstays := hjoined.mem hguards.prompt hmem
  have hholder := hjoined.holder_eq hheld
  have hwaits := mem_link hstep.orderly hphase
  have hlocks := linkGuards hstep.orderly
  by_cases hself : action = .run (.call holder)
  · have htaken := hstep.step
    rw [hself] at htaken
    cases dismissal_of_step hstep.down.closing hphase rfl htaken with
    | goesOn hyields hnext =>
        cases hyields
        refine .inl ⟨.call holder, _, ?_, .inside hstays hholder hnext rfl⟩
        rw [hplace, CallPhase.toGo]
        exact WithTop.coe_lt_coe.mpr (by omega)
  · have hafter := hstep.phase?_eq hphase hself
    by_cases hown : action = .run actor
    · have hother : Actor.call holder ≠ actor := by
        rintro rfl
        exact hself hown
      obtain ⟨_, _, hrun, hreleased⟩ := exists_release hstep.orderly hstep.down hlink
      rw [← hown, hstep.step] at hrun
      obtain ⟨rfl, rfl⟩ := Prod.mk.inj (Option.some.inj hrun)
      have hnextGuards := linkGuards hstep.orderly_after
      obtain ⟨next, hnext⟩ :=
        hnextGuards.prompt.exists_holder (mem_link hstep.orderly_after hafter)
      have hless := FairLock.place_release hlink hother
      refine .inl ⟨next, _, ?_, .queued hstays hholder hafter hnext⟩
      rw [hplace, hreleased]
      exact WithTop.coe_lt_coe.mpr (by omega)
    · have hqueue := hstep.link_joined hlink hown
      refine .inr ⟨hown, ?_⟩
      rw [← hplace, ← hqueue.place_eq hlocks.prompt hwaits]
      exact .queued hstays hholder hafter (hqueue.holder_eq hlink)

theorem nears (hstep : Aftermath before action after events)
    (hpresent : Calls.phase? after.calls id ≠ none) (hpending : before.Pending id actor rank) :
    Nears after action id actor rank := by
  cases hpending with
  | announcing hphase => exact hstep.nears_announcing hphase
  | inside hmem hheld hphase haway => exact hstep.nears_inside hpresent hmem hheld hphase haway
  | queued hmem hheld hphase hlink => exact hstep.nears_queued hmem hheld hphase hlink

/-- A doomed write returns nothing else. -/
theorem eq_closed (hstep : Aftermath before action after events)
    (hphase : Calls.phase? before.calls id = some phase) (hdoomed : phase.IsDoomed)
    {result : CallResult} (hreturns : .callReturns id result ∈ events) :
    result = .write (.error .closed) := by
  cases hstep.move.of_returns hreturns with
  | refused => simp [phase?_of_start hstep.step] at hphase
  | setting hother | closed hother =>
      obtain rfl := Option.some.inj (hphase.symm.trans hother)
      exact hdoomed.elim
  | write hother =>
      obtain rfl := Option.some.inj (hphase.symm.trans hother)
      rw [show _ = Except.error WriteError.closed from hdoomed]

end Aftermath

/-- A doomed write of a connection that has been shut down, and the user that brings it closer. -/
structure Returning (id : Nat) (c : Connection) (actor : Actor) (rank : WithTop Nat) : Prop where
  orderly : c.traffic.Orderly
  down : c.traffic.Down
  doomed : ∃ phase, Calls.phase? c.calls id = some phase ∧ phase.IsDoomed
  pending : c.Pending id actor rank

theorem exists_returning (horderly : c.traffic.Orderly) (hdown : c.traffic.Down)
    (hphase : Calls.phase? c.calls id = some phase) (hdoomed : phase.IsDoomed) :
    ∃ actor rank, Returning id c actor rank := by
  have hwrites := sectionGuards horderly
  cases hknown : phase.isAnnounced with
  | true =>
      have hmem : .call id ∈ c.writeSection.members := by
        rw [hwrites.mem_iff, sectionStance, stances_call hphase]
        exact CallPhase.isAnnounced_iff.mp hknown
      obtain ⟨actor, rank, hpending⟩ := exists_pending horderly hdown hmem
      exact ⟨actor, rank, horderly, hdown, ⟨phase, hphase, hdoomed⟩, hpending⟩
  | false =>
      cases phase with
      | announcing device commands =>
          exact ⟨_, _, horderly, hdown, ⟨_, hphase, hdoomed⟩, .announcing hphase⟩
      | posting | stopping | awaitingShutdown => exact hdoomed.elim
      | awaitingSection | attempting | awaitingLink | transacting | finishing =>
          simp [CallPhase.isAnnounced] at hknown

/-- A doomed write returns, or it comes nearer to its end whenever its helper takes a step. -/
theorem Returning.step (hreturning : Returning id before actor rank)
    (hstep : Aftermath before action after events) :
    .callReturns id (.write (.error .closed)) ∈ events ∨
      (∀ result, .callReturns id result ∉ events) ∧
        ((∃ helper less, less < rank ∧ Returning id after helper less) ∨
          action ≠ .run actor ∧ Returning id after actor rank) := by
  obtain ⟨phase, hphase, hdoomed⟩ := hreturning.doomed
  cases hstep.doomed hphase hdoomed with
  | inl hreturns => exact .inl hreturns
  | inr hlater =>
      obtain ⟨hsilent, next, hnext, hstays⟩ := hlater
      have hkeep {helper : Actor} {less : WithTop Nat} (hpending : after.Pending id helper less) :
          Returning id after helper less :=
        ⟨hstep.orderly_after, hstep.down_after, ⟨next, hnext, hstays⟩, hpending⟩
      refine .inr ⟨hsilent, ?_⟩
      cases hstep.nears (by simp [hnext]) hreturning.pending with
      | inl hnearer =>
          obtain ⟨helper, less, hless, hpending⟩ := hnearer
          exact .inl ⟨helper, less, hless, hkeep hpending⟩
      | inr hsame => exact .inr ⟨hsame.1, hkeep hsame.2⟩

end Connection

end Fieldbus

import Fieldbus.Proofs.Polling.Visits

/-!
# Commands and polls

Calls queue commands at the end of the mailbox, and the scheduler takes them from its beginning,
between two ticks or before the visit to a group.  A visit finds the mailbox empty, so it obeys
every command that has been queued before it.
-/

namespace Fieldbus

/-- What a command says of polling. -/
def Command.switch? : Command → Option Bool
  | set .enable => some true
  | set .disable => some false
  | set (.decode _) | close => none

/-- Whether polling is enabled after some commands: the last one that speaks of it counts. -/
def ConnectionSettings.enabledAfter (commands : List Command) (settings : ConnectionSettings) :
    Bool :=
  (commands.filterMap Command.switch?).getLast?.getD settings.enabled

theorem ConnectionSettings.enabledAfter_concat (commands : List Command) (command : Command)
    (settings : ConnectionSettings) :
    settings.enabledAfter (commands ++ [command]) =
      command.switch?.getD (settings.enabledAfter commands) := by
  rw [enabledAfter, List.filterMap_append]
  cases hswitch : command.switch? <;> simp [hswitch, enabledAfter]

theorem ConnectionSettings.enable_mem_of_enabledAfter {settings : ConnectionSettings}
    {before after : List Command}
    (henabled : settings.enabledAfter (before ++ .set .disable :: after) = true) :
    .set .enable ∈ after := by
  induction after using List.reverseRecOn with
  | nil => simp [enabledAfter_concat, Command.switch?] at henabled
  | append_singleton rest last ih =>
      rw [← List.cons_append, ← List.append_assoc, enabledAfter_concat] at henabled
      rw [List.mem_append, List.mem_singleton]
      cases last with
      | close => exact .inl (ih henabled)
      | set setting =>
          cases setting with
          | enable => exact .inr rfl
          | disable => simp [Command.switch?] at henabled
          | decode => exact .inl (ih henabled)

/-- The command that a call puts into the mailbox with an action. -/
def Connection.queues? (action : Action) (connection : Connection) : Option Command :=
  match action with
  | .run (.call id) =>
    match Calls.phase? connection.calls id with
    | some (.posting command) => if connection.mailbox.receiving then some command else none
    | _ => none
  | _ => none

/-- The commands that are put into the mailbox, in their order. -/
def queued (path : List Transition) : List Command :=
  path.filterMap fun transition => transition.before.queues? transition.action

theorem queued_append (path more : List Transition) :
    queued (path ++ more) = queued path ++ queued more :=
  List.filterMap_append

theorem queued_singleton (transition : Transition) :
    queued [transition] = (transition.before.queues? transition.action).toList := by
  rw [queued]
  cases hqueues : transition.before.queues? transition.action <;> simp [hqueues]

/-- The scheduler takes no more commands that could change its mind. -/
def SchedulerPhase.isEnding : SchedulerPhase → Bool
  | stopping | awaitingShutdown | ended => true
  | idle | visiting _ | requesting _ | awaitingLink _ | polling _ | publishing _ _
  | delivering _ _ _ | applying _ _ => false

theorem SchedulerStep.isEnding {c : Connection} {action : Action} {shown : List Event}
    {next : Scheduler} (hstep : SchedulerStep c action shown next)
    (hending : c.scheduler.phase.isEnding = true) : next.phase.isEnding = true := by
  have hattending {interrupted : Option Tick}
      (hphase : c.scheduler.phase = .attending interrupted) : False := by
    cases interrupted <;>
      simp [hphase, SchedulerPhase.attending, SchedulerPhase.isEnding] at hending
  cases hstep with
  | keep => exact hending
  | halt | seekShutdown | endScheduler => rfl
  | switch haction hphase | seekSetting haction hphase => exact (hattending hphase).elim
  | endTick hphase | giveUp hphase =>
      rcases hphase with hphase | hphase <;> simp [hphase, SchedulerPhase.isEnding] at hending
  | notDue hvisits | skip hvisits | defer hvisits | clear hvisits =>
      simp [hvisits.phase, SchedulerPhase.isEnding] at hending
  | read hhears | fail hhears | abort hhears =>
      simp [hhears.phase, SchedulerPhase.isEnding] at hending
  | applied hphase | beginTick hphase | seekLink hphase | poll hphase | sample hphase
  | pass hphase | deliver hphase | conclude hphase =>
      simp [hphase, SchedulerPhase.isEnding] at hending

/-- A poll that has been decided on and has not begun. -/
def SchedulerPhase.sought? : SchedulerPhase → Option Tick
  | requesting tick | awaitingLink tick => some tick
  | idle | visiting _ | polling _ | publishing _ _ | delivering _ _ _ | applying _ _ | stopping
  | awaitingShutdown | ended => none

theorem SchedulerPhase.sought?_attending (interrupted : Option Tick) :
    (attending interrupted).sought? = none := by
  cases interrupted <;> rfl

theorem SchedulerStep.sought {c : Connection} {action : Action} {shown : List Event}
    {next : Scheduler} {tick : Tick} (hstep : SchedulerStep c action shown next)
    (hsought : next.phase.sought? = some tick) :
    c.scheduler.phase.sought? = some tick ∨ ∃ group, c.Visits tick group := by
  cases hstep with
  | keep => exact .inl hsought
  | clear hvisits =>
      obtain rfl := Option.some.inj hsought
      exact .inr ⟨_, hvisits⟩
  | seekLink hphase => exact .inl (by rw [hphase]; exact hsought)
  | switch | applied => simp [SchedulerPhase.sought?_attending] at hsought
  | seekSetting | halt | seekShutdown | endScheduler | beginTick | endTick | notDue | skip | defer
  | giveUp | poll | read | fail | abort | sample | pass | deliver | conclude =>
      simp [SchedulerPhase.sought?] at hsought

/-- A group is being read, or its samples are being passed on. -/
def SchedulerPhase.isReading : SchedulerPhase → Bool
  | polling _ | publishing _ _ | delivering _ _ _ => true
  | idle | visiting _ | requesting _ | awaitingLink _ | applying _ _ | stopping
  | awaitingShutdown | ended => false

theorem SchedulerPhase.sought?_of_isReading {phase : SchedulerPhase}
    (hreading : phase.isReading = true) : phase.sought? = none := by
  cases phase <;> first | rfl | simp [isReading] at hreading

theorem SchedulerPhase.sought?_of_isEnding {phase : SchedulerPhase}
    (hending : phase.isEnding = true) : phase.sought? = none := by
  cases phase <;> first | rfl | simp [isEnding] at hending

/-! ## The mailbox -/

/-- What a step makes of the mailbox and of the switch that its commands turn. -/
inductive MailStep (c : Connection) (action : Action) (after : Connection) : Prop where
  | keep (hqueues : c.queues? action = none)
      (hcommands : after.mailbox.commands = c.mailbox.commands)
      (henabled : after.scheduler.enabled = c.scheduler.enabled)
  | queue (command : Command) (hqueues : c.queues? action = some command)
      (hcommands : after.mailbox.commands = c.mailbox.commands ++ [command])
      (hscheduler : after.scheduler = c.scheduler)
  | take (command : Command) (hqueues : c.queues? action = none)
      (hcommands : c.mailbox.commands = command :: after.mailbox.commands)
      (henabled : after.scheduler.enabled = command.switch?.getD c.scheduler.enabled)
      (hcloses : command = .close → after.scheduler.phase.isEnding = true)
  /-- The commands that are left are lost. -/
  | finish (hphase : after.scheduler.phase.isEnding = true)

namespace Connection

variable {connection after : Connection} {action : Action} {events : List Event}

/-- Neither the mailbox nor the switch changes. -/
def Minds (connection after : Connection) : Prop :=
  after.mailbox = connection.mailbox ∧ after.scheduler.enabled = connection.scheduler.enabled

theorem Spares.minds {outcome : Connection × List Event} (hspares : connection.Spares outcome) :
    connection.Minds outcome.1 :=
  ⟨hspares.mailbox, congrArg Scheduler.enabled hspares.scheduler⟩

theorem minds_pollEnded (tick : Tick) (result : Except RequestError Response)
    (connection : Connection) : connection.Minds (connection.pollEnded tick result).1 := by
  simp only [pollEnded]
  split
  · exact ⟨rfl, rfl⟩
  · split
    · exact ⟨rfl, rfl⟩
    · split <;> exact ⟨rfl, rfl⟩

theorem minds_proceed (request : Request) (outcome : Link × List Event × Progress)
    (connection : Connection) : connection.Minds (connection.proceed request outcome).1 := by
  obtain ⟨link, events, progress⟩ := outcome
  cases progress with
  | waiting stage => exact ⟨rfl, rfl⟩
  | finished result =>
      simp only [proceed, transactionEnded]
      split
      · exact (spares_callTransactionEnded ..).minds
      · exact minds_pollEnded ..
      · exact ⟨rfl, rfl⟩

theorem minds_visitGroup (tick : Tick) (group : PollGroup) (connection : Connection) :
    connection.Minds (connection.visitGroup tick group).1 := by
  rw [visitGroup]
  dsimp only
  split
  · exact ⟨rfl, rfl⟩
  · split
    · exact ⟨rfl, rfl⟩
    · split <;> exact ⟨rfl, rfl⟩

theorem minds_publish (tick : Tick) (publication : Publication) (connection : Connection) :
    connection.Minds (connection.publish tick publication).1 := by
  rw [publish]
  split
  · exact ⟨rfl, rfl⟩
  · split <;> exact ⟨rfl, rfl⟩

theorem mailStep_of_minds (hqueues : connection.queues? action = none)
    (hminds : connection.Minds after) : MailStep connection action after :=
  .keep hqueues (congrArg Mailbox.commands hminds.1) hminds.2

theorem queues?_eq_none (haction : ∀ id, action ≠ .run (.call id)) (connection : Connection) :
    connection.queues? action = none := by
  unfold queues?
  split
  · next id => exact absurd rfl (haction id)
  · rfl

/-- The command is gone from the mailbox, and it has turned the switch or it ends the scheduler. -/
theorem obey_mailbox (command : Command) (interrupted : Option Tick) (connection : Connection) :
    (connection.obey command interrupted).1.mailbox = connection.mailbox ∧
      (connection.obey command interrupted).1.scheduler.enabled =
        command.switch?.getD connection.scheduler.enabled ∧
      (command = .close → (connection.obey command interrupted).1.scheduler.phase.isEnding) := by
  have hresume (connection : Connection) : connection.Minds (connection.resume interrupted) := by
    cases interrupted <;> exact ⟨rfl, rfl⟩
  have hswitch (enabled : Bool) :
      (connection.setEnabled enabled).1.mailbox = connection.mailbox ∧
        (connection.setEnabled enabled).1.scheduler.enabled = enabled := by
    rw [setEnabled]
    split
    · next hsame => exact ⟨rfl, hsame⟩
    · exact ⟨rfl, rfl⟩
  cases command with
  | close => exact ⟨rfl, rfl, fun _ => rfl⟩
  | set setting =>
      cases setting with
      | decode level => exact ⟨rfl, rfl, by simp⟩
      | enable =>
          have hkept := hresume (connection.setEnabled true).1
          exact ⟨hkept.1.trans (hswitch true).1, hkept.2.trans (hswitch true).2, by simp⟩
      | disable =>
          have hkept := hresume (connection.setEnabled false).1
          exact ⟨hkept.1.trans (hswitch false).1, hkept.2.trans (hswitch false).2, by simp⟩

theorem receive?_mailStep {interrupted : Option Tick} {outcome : Connection × List Event}
    (haction : ∀ id, action ≠ .run (.call id))
    (hreceive : connection.receive? interrupted = some outcome) :
    MailStep connection action outcome.1 := by
  simp only [receive?, Mailbox.take?] at hreceive
  cases hcommands : connection.mailbox.commands with
  | nil =>
      simp only [hcommands] at hreceive
      split at hreceive
      · obtain rfl := Option.some.inj hreceive
        exact .finish rfl
      · simp at hreceive
  | cons command rest =>
      simp only [hcommands, Option.some.injEq] at hreceive
      subst hreceive
      obtain ⟨hmailbox, henabled, hcloses⟩ := obey_mailbox command interrupted
        { connection with mailbox := { connection.mailbox with commands := rest } }
      refine .take command (queues?_eq_none haction connection) ?_ henabled hcloses
      rw [hmailbox, hcommands]

theorem visit_mailStep (tick : Tick) (connection : Connection) :
    MailStep connection (.run .scheduler) (connection.visit tick).1 := by
  have hqueues := queues?_eq_none (show ∀ id, Action.run .scheduler ≠ .run (.call id) by simp)
    connection
  rw [visit]
  split
  · exact mailStep_of_minds hqueues ⟨rfl, rfl⟩
  · split
    · next outcome hreceive => exact receive?_mailStep (by simp) hreceive
    · split
      · exact mailStep_of_minds hqueues ⟨rfl, rfl⟩
      · exact mailStep_of_minds hqueues (minds_visitGroup ..)

theorem SchedulerTurn.mailStep {outcome : Connection × List Event}
    (hturn : connection.SchedulerTurn outcome) :
    MailStep connection (.run .scheduler) outcome.1 := by
  have hqueues : connection.queues? (.run .scheduler) = none := rfl
  cases hturn with
  | visit => exact visit_mailStep ..
  | seekLink | giveUp | leaveLink | seekShutdown => exact mailStep_of_minds hqueues ⟨rfl, rfl⟩
  | @poll tick =>
      refine mailStep_of_minds hqueues ?_
      rw [beginPoll]
      split
      · exact ⟨rfl, rfl⟩
      · exact minds_proceed _ _ (connection.setPhase (.polling tick))
  | publish => exact mailStep_of_minds hqueues (minds_publish ..)
  | @apply level interrupted =>
      refine mailStep_of_minds hqueues ?_
      cases interrupted <;> exact ⟨rfl, rfl⟩
  | shutdown => exact .finish rfl

theorem mailStep_of_posting {id : Nat} {command : Command} {mailbox : Mailbox}
    (hphase : Calls.phase? connection.calls id = some (.posting command))
    (hposting : connection.mailbox.Posting id command mailbox)
    (hmailbox : after.mailbox = mailbox) (hscheduler : after.scheduler = connection.scheduler) :
    MailStep connection (.run (.call id)) after := by
  subst hmailbox
  generalize hkept : after.mailbox = mailbox at hposting
  cases hposting with
  | lost hdeaf =>
      refine .keep (by simp [queues?, hphase, hdeaf]) ?_ (by rw [hscheduler])
      rw [hkept]
      rfl
  | posted hreceiving hroom =>
      refine .queue command (by simp [queues?, hphase, hreceiving]) ?_ hscheduler
      rw [hkept]
      rfl

theorem CallTurn.mailStep {id : Nat} {outcome : Connection × List Event}
    (hturn : connection.CallTurn id outcome) :
    MailStep connection (.run (.call id)) outcome.1 := by
  by_cases hposting : ∃ command, Calls.phase? connection.calls id = some (.posting command)
  · obtain ⟨command, hposts⟩ := hposting
    cases hturn with
    | endSetting hphase hposting => exact mailStep_of_posting hphase hposting rfl rfl
    | postClose hphase hposting => exact mailStep_of_posting hphase hposting rfl rfl
    | seekShutdown hphase | shutdown hphase | announce hphase | enterSection hphase
    | finish hphase | seekLink hphase | leaveLink hphase | attempt hphase | «return» hphase =>
        simp [hphase] at hposts
  · have hsilent : ∀ command, Calls.phase? connection.calls id ≠ some (.posting command) := by
      simpa using hposting
    refine mailStep_of_minds ?_ (hturn.spares hsilent).minds
    rw [queues?]
    split
    · next command hphase => exact absurd hphase (hsilent command)
    · rfl

/-- Every step leaves the mailbox alone, adds a command at its end, takes one from its beginning, or
ends the scheduler. -/
theorem mailStep_of_step (hstep : connection.step action = some (after, events)) :
    MailStep connection action after := by
  generalize houtcome : (after, events) = outcome at hstep
  suffices hmail : MailStep connection action outcome.1 by rwa [← houtcome] at hmail
  cases turn_of_step hstep with
  | elapse | dropHandle | tick => exact mailStep_of_minds rfl ⟨rfl, rfl⟩
  | cancel => exact .keep rfl rfl rfl
  | start request =>
      cases request with
      | write device writes =>
          refine mailStep_of_minds rfl ?_
          rw [startCall]
          split <;> exact ⟨rfl, rfl⟩
      | set | close => exact .keep rfl rfl rfl
  | receive _ hreceive => exact receive?_mailStep (by simp) hreceive
  | scheduler hturn => exact hturn.mailStep
  | call hturn => exact hturn.mailStep
  | answer haction =>
      have hqueues : connection.queues? action = none :=
        queues?_eq_none (by rintro id rfl; simp [Action.isAnswer] at haction) connection
      exact mailStep_of_minds hqueues (minds_proceed ..)
  | deliver =>
      refine mailStep_of_minds rfl ?_
      rw [delivered]
      split <;> exact ⟨rfl, rfl⟩

/-! ## What a visit obeys -/

variable {settings : ConnectionSettings} {codec : ValueCodec} {declared : List Point}
variable {start final : Connection} {path earlier later : List Transition} {tick : Tick}

/-- The commands that have been taken are the first ones of those that have been queued, and they
have turned the switch to where it is. -/
def Heeds (settings : ConnectionSettings) (path : List Transition) (connection : Connection) :
    Prop :=
  ∃ taken, queued path = taken ++ connection.mailbox.commands ∧
    connection.scheduler.enabled = settings.enabledAfter taken ∧ .close ∉ taken

theorem Heeds.step (hheeds : connection.Heeds settings path)
    (hmails : MailStep connection action after) :
    after.scheduler.phase.isEnding = true ∨
      after.Heeds settings (path ++ [⟨connection, action, after, events⟩]) := by
  obtain ⟨taken, hqueued, henabled, hopen⟩ := hheeds
  rw [Heeds, queued_append, queued_singleton, hqueued]
  cases hmails with
  | keep hqueues hcommands hsame =>
      refine .inr ⟨taken, ?_, hsame.trans henabled, hopen⟩
      rw [hqueues, hcommands, Option.toList_none, List.append_nil]
  | queue command hqueues hcommands hscheduler =>
      refine .inr ⟨taken, ?_, by rw [hscheduler, henabled], hopen⟩
      rw [hqueues, hcommands, Option.toList_some, List.append_assoc]
  | take command hqueues hcommands hswitch hcloses =>
      by_cases hclose : command = .close
      · exact .inl (hcloses hclose)
      · refine .inr ⟨taken ++ [command], ?_, ?_, ?_⟩
        · rw [hqueues, hcommands, Option.toList_none, List.append_nil, List.append_cons]
        · rw [hswitch, henabled, ConnectionSettings.enabledAfter_concat]
        · simpa [hopen] using Ne.symm hclose
  | finish hphase => exact .inl hphase

/-- Until the scheduler ends, it heeds the commands. -/
theorem Path.heeds (hpath : Path (create settings codec declared).1 path final) :
    final.scheduler.phase.isEnding = true ∨ final.Heeds settings path := by
  refine hpath.history (motive := fun past state =>
    state.scheduler.phase.isEnding = true ∨ state.Heeds settings past) ?_ ?_
  · exact .inr ⟨[], rfl, rfl, by simp⟩
  · intro past before action after events hpast hbefore hstep
    rcases hbefore with hending | hheeds
    · have hready := hpast.orderly (create_orderly settings codec declared)
      exact .inl ((scheduler_of_step hready hstep).isEnding hending)
    · exact hheeds.step (mailStep_of_step hstep)

/-- A visit has seen all commands. -/
theorem Path.enabled_of_visits {group : PollGroup}
    (hpath : Path (create settings codec declared).1 path final)
    (hvisits : final.Visits tick group) :
    settings.enabledAfter (queued path) = true ∧ .close ∉ queued path := by
  rcases hpath.heeds with hending | ⟨taken, hqueued, henabled, hopen⟩
  · rw [hvisits.phase] at hending
    simp [SchedulerPhase.isEnding] at hending
  · rw [hvisits.commands, List.append_nil] at hqueued
    rw [hqueued]
    exact ⟨henabled ▸ hvisits.enabled, hopen⟩

/-- A poll that has not begun comes from a visit that has seen all commands. -/
theorem Path.exists_visit (hpath : Path (create settings codec declared).1 path final)
    (hsought : final.scheduler.phase.sought? = some tick) :
    ∃ past visit since group, path = past ++ visit :: since ∧ visit.before.Visits tick group ∧
      ∀ transition ∈ since, transition.after.scheduler.phase.sought? = some tick := by
  refine hpath.history (motive := fun path state => ∀ tick,
    state.scheduler.phase.sought? = some tick → ∃ past visit since group,
      path = past ++ visit :: since ∧ visit.before.Visits tick group ∧
        ∀ transition ∈ since, transition.after.scheduler.phase.sought? = some tick)
    (fun tick hnew => by simp [create, SchedulerPhase.sought?] at hnew)
    (fun path before action after events hpast hbefore hstep tick hafter => ?_) tick hsought
  have hready := hpast.orderly (create_orderly settings codec declared)
  rcases (scheduler_of_step hready hstep).sought hafter with hsame | ⟨group, hvisits⟩
  · obtain ⟨past, visit, since, group, rfl, hvisits, hsince⟩ := hbefore tick hsame
    refine ⟨past, visit, since ++ [⟨before, action, after, events⟩], group, by simp, hvisits, ?_⟩
    intro transition htransition
    rcases List.mem_append.mp htransition with hmem | hmem
    · exact hsince transition hmem
    · rwa [List.mem_singleton.mp hmem]
  · exact ⟨path, _, [], group, rfl, hvisits, by simp⟩

end Connection

/-- The scheduler begins to read a group. -/
structure Transition.Polls (tick : Tick) (group : PollGroup) (transition : Transition) : Prop where
  seeks : transition.before.scheduler.phase = .awaitingLink tick
  found : transition.before.group? tick.next = some group
  reads : transition.after.scheduler.phase = .polling tick

namespace Connection

variable {settings : ConnectionSettings} {codec : ValueCodec} {declared : List Point}
variable {final : Connection} {earlier later first between : List Transition}
variable {order read : Transition} {tick : Tick} {group : PollGroup} {command : Command}

/-- The visit to a group that is read, and what it has obeyed. -/
structure Obeys (settings : ConnectionSettings) (tick : Tick) (past : List Transition)
    (visit : Transition) : Prop where
  visits : ∃ group, visit.before.Visits tick group
  enabled : settings.enabledAfter (queued past) = true
  notClosed : .close ∉ queued past
  attended : visit.before.isAbandoned = false

theorem Path.exists_obeys
    (hpath : Path (create settings codec declared).1 (earlier ++ read :: later) final)
    (hpolls : read.Polls tick group) :
    ∃ past visit since, earlier = past ++ visit :: since ∧ Obeys settings tick past visit ∧
      ∀ transition ∈ since, transition.after.scheduler.phase.sought? = some tick := by
  obtain ⟨hearlier, -, -⟩ := hpath.split
  have hsought : read.before.scheduler.phase.sought? = some tick := by rw [hpolls.seeks]; rfl
  obtain ⟨past, visit, since, visited, rfl, hvisits, hsince⟩ := hearlier.exists_visit hsought
  obtain ⟨hpast, -, -⟩ := hearlier.split
  obtain ⟨henabled, hopen⟩ := hpast.enabled_of_visits hvisits
  exact ⟨past, visit, since, rfl, ⟨⟨visited, hvisits⟩, henabled, hopen, hvisits.attended⟩, hsince⟩

/-- A command leaves the scheduler where it is. -/
theorem sought?_of_queues? {before after : Connection} {action : Action} {events : List Event}
    (hstep : before.step action = some (after, events))
    (hqueues : before.queues? action = some command)
    (hreading : before.scheduler.phase.isReading = true) :
    after.scheduler.phase.sought? = none := by
  cases mailStep_of_step hstep with
  | keep hnone | take _ hnone => simp [hnone] at hqueues
  | queue other hother hcommands hscheduler =>
      rw [hscheduler]
      exact SchedulerPhase.sought?_of_isReading hreading
  | finish hending => exact SchedulerPhase.sought?_of_isEnding hending

/-- The visit to a group that is read later comes after a command that is queued now. -/
theorem Path.exists_obeys_after
    (hpath : Path (create settings codec declared).1
      ((first ++ order :: between) ++ read :: later) final)
    (hqueues : order.before.queues? order.action = some command)
    (hreading : order.before.scheduler.phase.isReading = true) (hpolls : read.Polls tick group) :
    ∃ past visit since, between = past ++ visit :: since ∧
      Obeys settings tick (first ++ order :: past) visit := by
  obtain ⟨past, visit, since, hsplit, hobeys, hsince⟩ := hpath.exists_obeys hpolls
  obtain ⟨hearlier, -, -⟩ := hpath.split
  obtain ⟨-, hstep, -⟩ := hearlier.split
  have hlate : order ∉ visit :: since := by
    intro hmem
    rcases List.mem_cons.mp hmem with rfl | hmem
    · obtain ⟨visited, hvisits⟩ := hobeys.visits
      simp [hvisits.phase, SchedulerPhase.isReading] at hreading
    · have hsought := hsince order hmem
      rw [sought?_of_queues? hstep hqueues hreading] at hsought
      simp at hsought
  obtain ⟨rest, rfl, rfl⟩ := exists_of_append_eq hsplit.symm hlate
  exact ⟨rest, visit, since, rfl, hobeys⟩

/-- A group is read only after a visit that has obeyed all commands queued before it.  So a command
to close that is queued while another group is being read stops every later group, and a command to
disable does unless it is taken back by one to enable. -/
theorem polls_obey_commands :
    (∀ (settings : ConnectionSettings) (codec : ValueCodec) (declared : List Point)
        (earlier later : List Transition) (read : Transition) (final : Connection) (tick : Tick)
        (group : PollGroup),
      Path (create settings codec declared).1 (earlier ++ read :: later) final →
        read.Polls tick group →
          ∃ past visit since, earlier = past ++ visit :: since ∧ Obeys settings tick past visit) ∧
      ∀ (settings : ConnectionSettings) (codec : ValueCodec) (declared : List Point)
        (first between later : List Transition) (order read : Transition) (final : Connection)
        (tick : Tick) (group : PollGroup) (command : Command),
      Path (create settings codec declared).1 ((first ++ order :: between) ++ read :: later)
          final →
        order.before.queues? order.action = some command →
          order.before.scheduler.phase.isReading = true → read.Polls tick group →
            command ≠ .close ∧ (command = .set .disable →
              ∃ past visit since, between = past ++ visit :: since ∧
                visit.before.scheduler.phase = .visiting tick ∧
                  .set .enable ∈ queued past) := by
  constructor
  · intro settings codec declared earlier later read final tick group hpath hpolls
    obtain ⟨past, visit, since, hsplit, hobeys, -⟩ := hpath.exists_obeys hpolls
    exact ⟨past, visit, since, hsplit, hobeys⟩
  · intro settings codec declared first between later order read final tick group command hpath
      hqueues hreading hpolls
    obtain ⟨past, visit, since, hsplit, hobeys⟩ :=
      hpath.exists_obeys_after hqueues hreading hpolls
    have hqueued : queued (first ++ order :: past) = queued first ++ command :: queued past := by
      rw [queued_append, ← List.singleton_append, queued_append, queued_singleton, hqueues]
      rfl
    constructor
    · rintro rfl
      exact hobeys.notClosed (by simp [hqueued])
    · rintro rfl
      have henabled := hobeys.enabled
      rw [hqueued] at henabled
      obtain ⟨visited, hvisits⟩ := hobeys.visits
      exact ⟨past, visit, since, hsplit, hvisits.phase,
        ConnectionSettings.enable_mem_of_enabledAfter henabled⟩

end Connection

/-- Two commands are called for while a group is being read. -/
def Action.readThenSwitch : List Action :=
  openForPoll ++ [.openDone (.ok ()), .start 0 (.set .disable), .start 1 (.set .enable)]

/-- The second command is queued as well, the answer comes, the scheduler takes both commands and
goes on to the next group. -/
def Action.switchBack : List Action :=
  [.run (.call 1), .exchangeDone (.ok (.registers [7])), .run .scheduler, .deliver,
    .run .scheduler, .run .scheduler, .run .scheduler, .run .scheduler, .run .scheduler]

namespace Connection

/-- Polling is disabled. -/
def sampleDisable : Transition := (samplePairBuilt.stop Action.readThenSwitch).next (.run (.call 0))

/-- The second group is read. -/
def sampleReadOn : Transition := (sampleDisable.after.stop Action.switchBack).next (.run .scheduler)

theorem path_sampleReadOn : Path samplePair
    ((samplePairBuilt.walk Action.readThenSwitch ++
        sampleDisable :: sampleDisable.after.walk Action.switchBack) ++ sampleReadOn :: [])
      sampleReadOn.after := by
  have hreads := path_walk
    (show (samplePairBuilt.run Action.readThenSwitch).isSome = true by decide +kernel)
  have hswitches := path_walk
    (show (sampleDisable.after.run Action.switchBack).isSome = true by decide +kernel)
  rw [samplePair_eq]
  exact (hreads.append (.cons_next (by decide +kernel) hswitches)).append
    (.cons_next (by decide +kernel) (.nil _))

/-- The tick of both reads, in its second visit. -/
def sampleReadOnTick : Tick := { instant := 0, next := 1, outcomes := [(0, .polled)] }

theorem sampleReadOn_polls : sampleReadOn.Polls sampleReadOnTick sampleInflow := by
  constructor <;> decide +kernel

/-- The second group is read, since polling has been enabled again before the visit to it. -/
theorem sampleReadOn_obeys :
    (∃ past visit since,
      samplePairBuilt.walk Action.readThenSwitch ++
          sampleDisable :: sampleDisable.after.walk Action.switchBack = past ++ visit :: since ∧
        Obeys {} sampleReadOnTick past visit) ∧
      ∃ past visit since, sampleDisable.after.walk Action.switchBack = past ++ visit :: since ∧
        visit.before.scheduler.phase = .visiting sampleReadOnTick ∧
          .set .enable ∈ queued past := by
  obtain ⟨hobeys, hlater⟩ := polls_obey_commands
  exact ⟨hobeys _ _ _ _ _ _ _ _ _ path_sampleReadOn sampleReadOn_polls,
    (hlater _ _ _ _ _ _ _ _ _ _ _ (.set .disable) path_sampleReadOn (by decide +kernel)
      (by decide +kernel) sampleReadOn_polls).2 rfl⟩

/-- A command to disable does not by itself stop the later groups of the tick: one to enable may
follow while the same group is being read. -/
theorem not_stopped_by_disable :
    ¬ ∀ (settings : ConnectionSettings) (codec : ValueCodec) (declared : List Point)
        (first between later : List Transition) (order read : Transition) (final : Connection)
        (tick : Tick) (group : PollGroup),
      Path (create settings codec declared).1 ((first ++ order :: between) ++ read :: later)
          final →
        order.before.queues? order.action = some (.set .disable) →
          order.before.scheduler.phase.isReading = true →
            (∀ transition ∈ between, transition.action ≠ .tick) → ¬read.Polls tick group := by
  intro hstops
  refine hstops {} Codec.registerCodec [Point.sample, Point.inflow] _ _ _ _ _ _ _ _
    path_sampleReadOn (by decide +kernel) (by decide +kernel) (fun transition hmem htick => ?_)
    sampleReadOn_polls
  have haction := action_mem_of_walk hmem
  simp [htick, Action.switchBack] at haction

end Connection

end Fieldbus

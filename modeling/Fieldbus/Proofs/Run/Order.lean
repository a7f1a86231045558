import Fieldbus.Proofs.Run.Move

/-!
# Order among the users

Both locks know how every user stands to them, a transaction is under way exactly while some user
is inside the link, and it carries a request that its user is about to make.  Every move keeps this
order, so at most one user is ever in a transaction and at most one call inside the write section.
-/

namespace Fieldbus

/-- An attempt at the command can carry this request. -/
def WriteCommand.Sends (codec : ValueCodec) (request : Request) (command : WriteCommand) : Prop :=
  match command.field with
  | none => request = .write (command.writeRequest command.values)
  | some (point, value) =>
    request = .read command.readRequest ∨
      ∃ current values, codec.encode point value (some current) = .ok values ∧
        request = .write (command.writeRequest values)

theorem WriteCommand.sends_firstRequest (codec : ValueCodec) (command : WriteCommand) :
    command.Sends codec command.firstRequest := by
  unfold Sends firstRequest
  cases command.field with
  | none => rfl
  | some field => exact .inl rfl

/-- After a failed attempt at a command its write makes another one, or it fails. -/
theorem WriteJob.afterFailure_cases (attempts : Nat) (command : WriteCommand)
    (error : RequestError) (job : WriteJob) :
    job.afterFailure attempts command error =
        .attempting { job with attempt := job.attempt + 1 } ∨
      ∃ failure, job.afterFailure attempts command error = .finishing (.error failure) ∧
        (failure = .closed ∨ failure = .request command.range error) := by
  rw [afterFailure]
  split
  · exact .inr ⟨_, rfl, .inl rfl⟩
  · split
    · exact .inl rfl
    · exact .inr ⟨_, rfl, .inr rfl⟩

/-- What attempts and failures have in common, a failed attempt leads to. -/
theorem WriteJob.apply_afterFailure {A : Type} (view : CallPhase → A) {seen : A} {attempts : Nat}
    {command : WriteCommand} {error : RequestError} {job : WriteJob}
    (hattempt : ∀ next, view (.attempting next) = seen)
    (hfails : ∀ failure, view (.finishing (.error failure)) = seen) :
    view (job.afterFailure attempts command error) = seen := by
  rcases job.afterFailure_cases attempts command error with hnext | ⟨failure, hnext, -⟩
  · rw [hnext, hattempt]
  · rw [hnext, hfails]

theorem WriteJob.afterFailure_ne {phase : CallPhase} (hphase : phase.linkStance ≠ .away)
    (attempts : Nat) (command : WriteCommand) (error : RequestError) (job : WriteJob) :
    job.afterFailure attempts command error ≠ phase := by
  rintro rfl
  exact hphase (apply_afterFailure CallPhase.linkStance (fun _ => rfl) fun _ => rfl)

namespace Traffic

def stance (c : Traffic) : Actor → Stance := linkStance c.phase (Calls.phase? c.calls)

theorem stance_call {c : Traffic} {id : Nat} {phase : CallPhase}
    (hphase : Calls.phase? c.calls id = some phase) :
    c.stance (.call id) = phase.linkStance := by
  rw [stance, linkStance, stances_call hphase]

theorem stance_call_none {c : Traffic} {id : Nat} (hnone : Calls.phase? c.calls id = none) :
    c.stance (.call id) = .away := by
  rw [stance, linkStance, stances_call_none hnone]

/-- The request of a transaction is one that its user makes. -/
def Errand (c : Traffic) (request : Request) : Prop :=
  (∀ tick, c.phase = .polling tick →
      ∃ read, c.reads tick.next = some read ∧ request = .read read) ∧
    ∀ id job, Calls.phase? c.calls id = some (.transacting job) →
      ∃ command rest, job.commands = command :: rest ∧ command.Sends c.codec request

theorem stance_polling {c : Traffic} {tick : Tick} (hphase : c.phase = .polling tick) :
    c.stance .scheduler = .inside := by
  rw [stance, linkStance, hphase]
  rfl

section Errands

variable {c after : Traffic} {request : Request} {tick : Tick} {id other : Nat}
variable {job otherJob : WriteJob} {command : WriteCommand} {rest : List WriteCommand}

/-- At most one call is in a transaction. -/
theorem transacting_unique (hlink : c.linkLock.Guards c.stance)
    (hphase : Calls.phase? c.calls id = some (.transacting job))
    (hother : Calls.phase? c.calls other = some (.transacting otherJob)) :
    other = id ∧ otherJob = job := by
  obtain rfl := Actor.call.inj (hlink.inside_unique (stance_call hphase) (stance_call hother))
  exact ⟨rfl, CallPhase.transacting.inj (Option.some.inj (hother.symm.trans hphase))⟩

/-- While the scheduler polls, no call is in a transaction. -/
theorem not_transacting_of_polling (hlink : c.linkLock.Guards c.stance)
    (hphase : c.phase = .polling tick) :
    Calls.phase? c.calls id ≠ some (.transacting job) := fun hcall =>
  absurd (hlink.inside_unique (stance_call hcall) (stance_polling hphase)) (by simp)

theorem Errand.of_poll {read : ReadRequest} (hlink : c.linkLock.Guards c.stance)
    (hphase : c.phase = .polling tick) (hread : c.reads tick.next = some read) :
    c.Errand (.read read) := by
  refine ⟨fun other hother => ?_, fun id job hcall => ?_⟩
  · obtain rfl := SchedulerPhase.polling.inj (hphase.symm.trans hother)
    exact ⟨read, hread, rfl⟩
  · exact absurd hcall (not_transacting_of_polling hlink hphase)

theorem Errand.of_attempt (hlink : c.linkLock.Guards c.stance)
    (hphase : Calls.phase? c.calls id = some (.transacting job))
    (hjob : job.commands = command :: rest) (hsends : command.Sends c.codec request) :
    c.Errand request := by
  refine ⟨fun tick hpolling => ?_, fun other otherJob hother => ?_⟩
  · exact absurd hphase (not_transacting_of_polling hlink hpolling)
  · obtain ⟨rfl, rfl⟩ := transacting_unique hlink hphase hother
    exact ⟨command, rest, hjob, hsends⟩

/-- A request stays one of its user while nobody else begins a transaction. -/
theorem Errand.keep (herrand : c.Errand request) (hreads : after.reads = c.reads)
    (hcodec : after.codec = c.codec)
    (hpolls : ∀ tick, after.phase = .polling tick → c.phase = .polling tick)
    (hattempts : ∀ id job, Calls.phase? after.calls id = some (.transacting job) →
      Calls.phase? c.calls id = some (.transacting job)) : after.Errand request := by
  rw [Errand, hreads, hcodec]
  exact ⟨fun tick htick => herrand.1 tick (hpolls tick htick),
    fun id job hjob => herrand.2 id job (hattempts id job hjob)⟩

end Errands

/-- A transaction is under way exactly while somebody is inside the link. -/
def Busy (c : Traffic) : Prop := c.transaction ≠ none ↔ ∃ actor, c.stance actor = .inside

/-- Whoever is about to close the link for good has told everybody. -/
def Warned (c : Traffic) : Prop :=
  (c.phase = .awaitingShutdown → c.closing = true) ∧
    ∀ id, Calls.phase? c.calls id = some .awaitingShutdown → c.closing = true

structure Orderly (c : Traffic) : Prop where
  distinct : Calls.Distinct c.calls
  pending_eq : c.trace.pending = Calls.announced c.calls
  link : c.linkLock.Guards c.stance
  writes : c.writeSection.Guards (sectionStance (Calls.phase? c.calls))
  busy : c.Busy
  errand : ∀ transaction, c.transaction = some transaction → c.Errand transaction.request
  warned : c.Warned

namespace Orderly

variable {c : Traffic} {actor : Actor} {id : Nat} {transaction : Transaction}

/-- Who has been given the link and has not begun yet finds no transaction under way. -/
theorem transaction_eq_none (horderly : c.Orderly) (hheld : c.linkLock.holder = some actor)
    (hstance : c.stance actor ≠ .inside) : c.transaction = none := by
  by_contra hbusy
  obtain ⟨other, hinside⟩ := horderly.busy.mp hbusy
  have hholder := horderly.link.holder_of_inside other hinside
  rw [hheld] at hholder
  obtain rfl := Option.some.inj hholder
  exact hstance hinside

theorem idle_of_scheduler (horderly : c.Orderly) (hheld : c.linkLock.holder = some .scheduler)
    (hqueued : c.phase.linkStance = .queued) : c.transaction = none := by
  have hstance : c.stance .scheduler = .queued := hqueued
  exact horderly.transaction_eq_none hheld (by simp [hstance])

theorem idle_of_call {phase : CallPhase} (horderly : c.Orderly)
    (hheld : c.linkLock.holder = some (.call id)) (hphase : Calls.phase? c.calls id = some phase)
    (hqueued : phase.linkStance = .queued) : c.transaction = none :=
  horderly.transaction_eq_none hheld (by simp [stance_call hphase, hqueued])

theorem exists_inside (horderly : c.Orderly) (htransaction : c.transaction = some transaction) :
    ∃ actor, c.stance actor = .inside ∧ c.linkLock.holder = some actor := by
  obtain ⟨actor, hinside⟩ := horderly.busy.mp (by simp [htransaction])
  exact ⟨actor, hinside, horderly.link.holder_of_inside actor hinside⟩

/-- The transaction of the scheduler is a poll. -/
theorem polling_of_held (horderly : c.Orderly) (htransaction : c.transaction = some transaction)
    (hheld : c.linkLock.holder = some .scheduler) : ∃ tick, c.phase = .polling tick := by
  obtain ⟨actor, hinside, hholder⟩ := horderly.exists_inside htransaction
  obtain rfl := Option.some.inj (hheld.symm.trans hholder)
  rw [stance, linkStance] at hinside
  cases hphase : c.phase with
  | polling tick => exact ⟨tick, rfl⟩
  | idle | visiting | requesting | awaitingLink | publishing | delivering | applying | stopping
  | awaitingShutdown | ended => simp [hphase, SchedulerPhase.linkStance] at hinside

/-- The transaction of a call belongs to an attempt of its write. -/
theorem transacting_of_held (horderly : c.Orderly)
    (htransaction : c.transaction = some transaction)
    (hheld : c.linkLock.holder = some (.call id)) :
    ∃ job, Calls.phase? c.calls id = some (.transacting job) := by
  obtain ⟨actor, hinside, hholder⟩ := horderly.exists_inside htransaction
  obtain rfl := Option.some.inj (hheld.symm.trans hholder)
  cases hphase : Calls.phase? c.calls id with
  | none => simp [stance_call_none hphase] at hinside
  | some phase =>
      rw [stance_call hphase] at hinside
      cases phase with
      | transacting job => exact ⟨job, rfl⟩
      | posting | stopping | awaitingShutdown | announcing | awaitingSection | attempting
      | awaitingLink | finishing => simp [CallPhase.linkStance] at hinside

theorem held_of_transacting {job : WriteJob} (horderly : c.Orderly)
    (hphase : Calls.phase? c.calls id = some (.transacting job)) :
    c.linkLock.holder = some (.call id) :=
  horderly.link.holder_of_inside _ (stance_call hphase)

/-- At most one call is in a transaction. -/
theorem transacting_unique {other : Nat} {job otherJob : WriteJob} (horderly : c.Orderly)
    (hphase : Calls.phase? c.calls id = some (.transacting job))
    (hother : Calls.phase? c.calls other = some (.transacting otherJob)) :
    other = id ∧ otherJob = job :=
  Traffic.transacting_unique horderly.link hphase hother

/-- What an attempt at a bit field reads is its register. -/
theorem read_of_errand {job : WriteJob} {command : WriteCommand} {read : ReadRequest}
    {stage : Stage} (horderly : c.Orderly)
    (hphase : Calls.phase? c.calls id = some (.transacting job))
    (hhead : job.commands.head? = some command) (hfield : command.field ≠ none)
    (htransaction : c.transaction = some ⟨.read read, stage⟩) : read = command.readRequest := by
  obtain ⟨first, rest, hcommands, hsends⟩ := (horderly.errand _ htransaction).2 id job hphase
  obtain rfl : first = command := by simpa [hcommands] using hhead
  obtain ⟨field, hsome⟩ := Option.ne_none_iff_exists'.mp hfield
  simpa [WriteCommand.Sends, hsome] using hsends

end Orderly

end Traffic

/-! ## Changes of stance -/

section Stances

variable {phase next : SchedulerPhase} {calls : List Call} {id : Nat} {old new : CallPhase}
variable {scheduler : Stance} {ofCall : CallPhase → Stance}

theorem linkStance_scheduler (phase next : SchedulerPhase) (phases : Nat → Option CallPhase) :
    linkStance next phases =
      Function.update (linkStance phase phases) .scheduler next.linkStance :=
  stances_update_scheduler next.linkStance

theorem linkStance_scheduler_self (hsame : next.linkStance = phase.linkStance)
    (phases : Nat → Option CallPhase) : linkStance next phases = linkStance phase phases := by
  rw [linkStance, linkStance, hsame]

theorem stances_set (hold : Calls.phase? calls id = some old) (new : CallPhase) :
    stances scheduler ofCall (Calls.phase? (Calls.set id new calls)) =
      Function.update (stances scheduler ofCall (Calls.phase? calls)) (.call id) (ofCall new) := by
  rw [Calls.phase?_set (by simp [hold]), stances_update_call]
  rfl

theorem stances_remove (id : Nat) (calls : List Call) :
    stances scheduler ofCall (Calls.phase? (Calls.remove id calls)) =
      Function.update (stances scheduler ofCall (Calls.phase? calls)) (.call id) .away := by
  rw [Calls.phase?_remove, stances_update_call]
  rfl

theorem stances_set_self (hold : Calls.phase? calls id = some old)
    (hsame : ofCall new = ofCall old) :
    stances scheduler ofCall (Calls.phase? (Calls.set id new calls)) =
      stances scheduler ofCall (Calls.phase? calls) := by
  rw [Calls.phase?_set (by simp [hold])]
  exact stances_update_self (hsame.trans (stances_call hold).symm)

theorem stances_remove_self (hold : Calls.phase? calls id = some old)
    (haway : ofCall old = .away) :
    stances scheduler ofCall (Calls.phase? (Calls.remove id calls)) =
      stances scheduler ofCall (Calls.phase? calls) := by
  rw [Calls.phase?_remove]
  exact stances_update_self (haway.symm.trans (stances_call hold).symm)

theorem stances_add_self (hnew : Calls.phase? calls id = none) (haway : ofCall new = .away) :
    stances scheduler ofCall (Calls.phase? (Calls.add id new calls)) =
      stances scheduler ofCall (Calls.phase? calls) := by
  rw [Calls.phase?_add hnew]
  exact stances_update_self (haway.trans (stances_call_none hnew).symm)

end Stances

namespace Traffic

/-- How the use of the link changes: at most one user changes its stance, and a transaction begins
when a user goes inside and ends when it leaves. -/
inductive Shift (c : Traffic) (action : Action) (after : Traffic) : Prop where
  | keep (hlock : after.linkLock = c.linkLock) (hstance : after.stance = c.stance)
      (hbusy : after.transaction ≠ none ↔ c.transaction ≠ none)
  | request (actor : Actor) (haway : c.stance actor = .away)
      (hlock : after.linkLock = c.linkLock.request actor)
      (hstance : after.stance = Function.update c.stance actor .queued)
      (hsame : after.transaction = c.transaction)
  | enter (actor : Actor) (hheld : c.linkLock.holder = some actor)
      (hqueued : c.stance actor = .queued) (hlock : after.linkLock = c.linkLock)
      (hstance : after.stance = Function.update c.stance actor .inside)
      (hbusy : after.transaction ≠ none)
  | leave (actor : Actor) (haction : action = .run actor)
      (hheld : c.linkLock.holder = some actor) (hqueued : c.stance actor = .queued)
      (hlock : after.linkLock = c.linkLock.release)
      (hstance : after.stance = Function.update c.stance actor .away)
      (hsame : after.transaction = c.transaction)
  | exit (actor : Actor) (hinside : c.stance actor = .inside)
      (hlock : after.linkLock = c.linkLock.release)
      (hstance : after.stance = Function.update c.stance actor .away)
      (hnone : after.transaction = none)
  | withdraw (id : Nat) (haction : action = .cancel id)
      (hlock : after.linkLock = c.linkLock.withdraw (.call id))
      (hstance : after.stance = Function.update c.stance (.call id) .away)
      (hended : after.transaction =
        if c.stance (.call id) = .inside then none else c.transaction)

namespace Shift

variable {c after : Traffic} {action : Action}

theorem link (hshift : c.Shift action after) (hlink : c.linkLock.Guards c.stance) :
    after.linkLock.Guards after.stance := by
  cases hshift with
  | keep hlock hstance => rwa [hlock, hstance]
  | request actor haway hlock hstance =>
      rw [hlock, hstance]
      exact hlink.request haway
  | enter actor hheld hqueued hlock hstance =>
      rw [hlock, hstance]
      exact hlink.enter hheld
  | leave actor haction hheld hqueued hlock hstance =>
      rw [hlock, hstance]
      exact hlink.release hheld
  | exit actor hinside hlock hstance =>
      rw [hlock, hstance]
      exact hlink.release (hlink.holder_of_inside actor hinside)
  | withdraw id haction hlock hstance =>
      rw [hlock, hstance]
      exact hlink.withdraw _

theorem exists_inside_update {stance : Actor → Stance} {actor : Actor} {new : Stance}
    (hbefore : stance actor ≠ .inside) (hafter : new ≠ .inside) :
    (∃ other, Function.update stance actor new other = .inside) ↔
      ∃ other, stance other = .inside := by
  constructor
  · rintro ⟨other, hother⟩
    by_cases heq : other = actor
    · rw [heq, Function.update_self] at hother
      exact absurd hother hafter
    · exact ⟨other, by rwa [Function.update_of_ne heq] at hother⟩
  · rintro ⟨other, hother⟩
    have heq : other ≠ actor := fun heq => hbefore (heq ▸ hother)
    exact ⟨other, by rwa [Function.update_of_ne heq]⟩

theorem not_exists_inside_update {lock : FairLock} {stance : Actor → Stance} {actor : Actor}
    {new : Stance} (hguards : lock.Guards stance) (hbefore : stance actor = .inside)
    (hafter : new ≠ .inside) : ¬∃ other, Function.update stance actor new other = .inside := by
  rintro ⟨other, hother⟩
  by_cases heq : other = actor
  · rw [heq, Function.update_self] at hother
    exact hafter hother
  · rw [Function.update_of_ne heq] at hother
    exact heq (hguards.inside_unique hother hbefore)

theorem busy (hshift : c.Shift action after) (hlink : c.linkLock.Guards c.stance) (hbusy : c.Busy) :
    after.Busy := by
  unfold Busy at hbusy ⊢
  cases hshift with
  | keep hlock hstance hsame => rw [hsame, hbusy, hstance]
  | request actor haway hlock hstance hsame =>
      rw [hsame, hbusy, hstance, exists_inside_update (by simp [haway]) (by simp)]
  | enter actor hheld hqueued hlock hstance hsome =>
      rw [hstance]
      exact iff_of_true hsome ⟨actor, Function.update_self ..⟩
  | leave actor haction hheld hqueued hlock hstance hsame =>
      rw [hsame, hbusy, hstance, exists_inside_update (by simp [hqueued]) (by simp)]
  | exit actor hinside hlock hstance hnone =>
      rw [hstance]
      exact iff_of_false (by simp [hnone]) (not_exists_inside_update hlink hinside (by simp))
  | withdraw id haction hlock hstance hended =>
      rw [hstance, hended]
      by_cases hinside : c.stance (.call id) = .inside
      · rw [if_pos hinside]
        exact iff_of_false (by simp) (not_exists_inside_update hlink hinside (by simp))
      · rw [if_neg hinside, hbusy, exists_inside_update hinside (by simp)]

end Shift

/-- What a move means to the transaction under way. -/
inductive TransactionStep (c : Traffic) (action : Action) (events : List Event)
    (after : Traffic) : Prop where
  /-- Nothing is heard of it and no other one begins, but it may be given up. -/
  | keep (haction : action.isAnswer = false)
      (hsame : ∀ transaction, after.transaction = some transaction →
        c.transaction = some transaction)
      (hpolls : ∀ tick, after.phase = .polling tick → c.phase = .polling tick)
      (hattempts : ∀ id job, Calls.phase? after.calls id = some (.transacting job) →
        Calls.phase? c.calls id = some (.transacting job))
  | poll {tick : Tick} {read : ReadRequest} {link : Link} {stage : Stage}
      (haction : action = .run .scheduler) (hphase : c.phase = .awaitingLink tick)
      (hheld : c.linkLock.holder = some .scheduler) (hopen : c.closing = false)
      (hread : c.reads tick.next = some read)
      (hbegin : c.link.begin c.now (.read read) = (link, events, .waiting stage))
      (hpolling : after.phase = .polling tick)
      (hafter : after.transaction = some ⟨.read read, stage⟩)
  | attempt {id : Nat} {job : WriteJob} {command : WriteCommand} {rest : List WriteCommand}
      {link : Link} {stage : Stage} (haction : action = .run (.call id))
      (hphase : Calls.phase? c.calls id = some (.awaitingLink job))
      (hheld : c.linkLock.holder = some (.call id)) (hopen : c.closing = false)
      (hjob : job.commands = command :: rest)
      (hbegin : c.link.begin c.now command.firstRequest = (link, events, .waiting stage))
      (hattempts : Calls.phase? after.calls id = some (.transacting job))
      (hafter : after.transaction = some ⟨command.firstRequest, stage⟩)
  | proceed {request : Request} {stage next : Stage} {link : Link}
      (hbefore : c.transaction = some ⟨request, stage⟩)
      (hturn : c.link.Turn c.now ⟨request, stage⟩ action (link, events, .waiting next))
      (hphase : after.phase = c.phase) (hcalls : after.calls = c.calls)
      (hafter : after.transaction = some ⟨request, next⟩)
  | writeBack {id : Nat} {job : WriteJob} {command : WriteCommand} {rest : List WriteCommand}
      {point : Point} {value : PointValue} {read : ReadRequest} {stage next : Stage} {link : Link}
      {shown : List Event} {current : UInt16} {others : List UInt16} {values : WireValues}
      (hbefore : c.transaction = some ⟨.read read, stage⟩)
      (hphase : Calls.phase? c.calls id = some (.transacting job))
      (hjob : job.commands = command :: rest) (hfield : command.field = some (point, value))
      (hturn : c.link.Turn c.now ⟨.read read, stage⟩ action
        (link, shown, .finished (.ok (.registers (current :: others)))))
      (hencode : c.codec.encode point value (some current) = .ok values)
      (hcalls : after.calls = c.calls)
      (hafter : after.transaction = some ⟨.write (command.writeRequest values), next⟩)
  | finish (hnone : after.transaction = none)

end Traffic

namespace Move

variable {c after : Traffic} {action : Action} {events : List Event}

theorem distinct (hmove : Move c action events after) (hdistinct : Calls.Distinct c.calls) :
    Calls.Distinct after.calls := by
  cases hmove
  case startWrite hnew _ _ _ => exact hdistinct.add hnew _
  case startPosting hnew _ _ => exact hdistinct.add hnew _
  all_goals first
    | exact hdistinct
    | exact hdistinct.set _ _
    | exact hdistinct.remove _

/-- One user changes its stance to the link, or none does. -/
theorem shift (hmove : Move c action events after) : c.Shift action after := by
  cases hmove with
  | elapse | stay | refuse => exact .keep rfl rfl Iff.rfl
  | proceed htransaction hturn | writeBack htransaction =>
      exact .keep rfl rfl (by simp [htransaction])
  | stroll haction hphase hnext hquiet =>
      have hsame := (SchedulerPhase.linkStance_of_isFree hnext).trans hphase.symm
      exact .keep rfl (linkStance_scheduler_self hsame _) Iff.rfl
  | clear hphase hopen hrest hquiet =>
      exact .keep rfl (linkStance_scheduler_self (by rw [hphase]; rfl) _) Iff.rfl
  | seekLink hphase hopen =>
      have haway : c.phase.linkStance = .away := by rw [hphase]; rfl
      exact .request .scheduler haway rfl (linkStance_scheduler _ _ _) rfl
  | seekSetting haction hphase =>
      have haway := SchedulerPhase.linkStance_of_isFree hphase
      exact .request .scheduler haway rfl (linkStance_scheduler _ _ _) rfl
  | seekShutdown hphase =>
      have haway : c.phase.linkStance = .away := by rw [hphase]; rfl
      exact .request .scheduler haway rfl (linkStance_scheduler _ _ _) rfl
  | leaveLink hphase hheld hnext hquiet =>
      refine .leave .scheduler rfl hheld hphase rfl ?_ rfl
      exact SchedulerPhase.linkStance_of_isFree hnext ▸ linkStance_scheduler c.phase _ _
  | endScheduler hphase hheld hquiet =>
      have hqueued : c.phase.linkStance = .queued := by rw [hphase]; rfl
      exact .leave .scheduler rfl hheld hqueued rfl (linkStance_scheduler _ _ _) rfl
  | poll hphase hheld hopen hbegin =>
      have hqueued : c.phase.linkStance = .queued := by rw [hphase]; rfl
      exact .enter .scheduler hheld hqueued rfl (linkStance_scheduler _ _ _) (by simp)
  | startWrite hnew hwrites hopen hplan =>
      exact .keep rfl (stances_add_self hnew rfl) Iff.rfl
  | startPosting hnew hrequest hclosing =>
      exact .keep rfl (stances_add_self hnew rfl) Iff.rfl
  | postClose hphase | announce hphase | enterSection hphase | finish hphase =>
      exact .keep rfl (stances_set_self hphase rfl) Iff.rfl
  | endSetting hphase | «return» hphase =>
      exact .keep rfl (stances_remove_self hphase rfl) Iff.rfl
  | callSeekShutdown hphase | callSeekLink hphase =>
      exact .request _ (Traffic.stance_call hphase) rfl (stances_set hphase _) rfl
  | callShutdown hphase hheld =>
      exact .leave _ rfl hheld (Traffic.stance_call hphase) rfl (stances_remove _ _) rfl
  | callLeaveLink hphase hheld hresult =>
      exact .leave _ rfl hheld (Traffic.stance_call hphase) rfl (stances_set hphase _) rfl
  | @cancel id phase hphase =>
      refine .withdraw id rfl rfl (stances_remove _ _) ?_
      rw [Traffic.stance_call hphase]
      cases phase <;> rfl
  | attempt hphase hheld hopen hjob hbegin =>
      exact .enter _ hheld (Traffic.stance_call hphase) rfl (stances_set hphase _) (by simp)
  | refuseAttempt hphase hheld hopen hjob hinvalid hquiet =>
      refine .leave _ rfl hheld (Traffic.stance_call hphase) rfl ?_ rfl
      exact WriteJob.apply_afterFailure CallPhase.linkStance (fun _ => rfl) (fun _ => rfl) ▸
        stances_set hphase _
  | endPoll htransaction hphase hturn hnext hquiet =>
      have hinside : c.phase.linkStance = .inside := by rw [hphase]; rfl
      refine .exit .scheduler hinside rfl ?_ rfl
      exact SchedulerPhase.linkStance_of_isFree hnext ▸ linkStance_scheduler c.phase _ _
  | store htransaction hphase hjob hturn =>
      exact .exit _ (Traffic.stance_call hphase) rfl (stances_set hphase _) rfl
  | fail htransaction hphase hjob hturn hfails hquiet =>
      refine .exit _ (Traffic.stance_call hphase) rfl ?_ rfl
      exact WriteJob.apply_afterFailure CallPhase.linkStance (fun _ => rfl) (fun _ => rfl) ▸
        stances_set hphase _
  | misfit htransaction hphase hturn =>
      exact .exit _ (Traffic.stance_call hphase) rfl (stances_set hphase _) rfl

/-- The write section keeps count of the announced writes. -/
theorem writes (hmove : Move c action events after)
    (hwrites : c.writeSection.Guards (sectionStance (Calls.phase? c.calls))) :
    after.writeSection.Guards (sectionStance (Calls.phase? after.calls)) := by
  have hkeep (hlock : after.writeSection = c.writeSection)
      (hstance : sectionStance (Calls.phase? after.calls) = sectionStance (Calls.phase? c.calls)) :
      after.writeSection.Guards (sectionStance (Calls.phase? after.calls)) := by
    rwa [hlock, hstance]
  cases hmove with
  | startWrite hnew | startPosting hnew => exact hkeep rfl (stances_add_self hnew rfl)
  | postClose hphase | callSeekShutdown hphase | finish hphase | callSeekLink hphase
  | callLeaveLink hphase | attempt hphase => exact hkeep rfl (stances_set_self hphase rfl)
  | store htransaction hphase | misfit htransaction hphase =>
      exact hkeep rfl (stances_set_self hphase rfl)
  | refuseAttempt hphase =>
      exact hkeep rfl (stances_set_self hphase
        (WriteJob.apply_afterFailure CallPhase.sectionStance (fun _ => rfl) fun _ => rfl))
  | fail htransaction hphase =>
      exact hkeep rfl (stances_set_self hphase
        (WriteJob.apply_afterFailure CallPhase.sectionStance (fun _ => rfl) fun _ => rfl))
  | endSetting hphase | callShutdown hphase => exact hkeep rfl (stances_remove_self hphase rfl)
  | announce hphase =>
      dsimp only
      rw [sectionStance, stances_set hphase]
      exact hwrites.request (stances_call hphase)
  | enterSection hphase hheld hquiet =>
      dsimp only
      rw [sectionStance, stances_set hphase]
      exact hwrites.enter hheld
  | «return» hphase =>
      dsimp only
      rw [sectionStance, stances_remove]
      exact hwrites.release (hwrites.holder_of_inside _ (stances_call hphase))
  | cancel hphase =>
      dsimp only
      rw [sectionStance, stances_remove]
      exact hwrites.withdraw _
  | _ => exact hwrites

/-- The record of writes counts the announced ones. -/
theorem pending (hmove : Move c action events after) (hdistinct : Calls.Distinct c.calls)
    (hpending : c.trace.pending = Calls.announced c.calls) :
    after.trace.pending = Calls.announced after.calls := by
  cases hmove with
  | startWrite | startPosting =>
      dsimp only
      rw [Calls.announced_add, hpending]
      rfl
  | postClose hphase | callSeekShutdown hphase | enterSection hphase | finish hphase
  | callSeekLink hphase | callLeaveLink hphase | attempt hphase =>
      dsimp only
      rw [Calls.announced_set_self hdistinct hphase (by rfl), hpending]
  | store htransaction hphase | misfit htransaction hphase =>
      dsimp only
      rw [Calls.announced_set_self hdistinct hphase (by rfl), hpending]
  | refuseAttempt hphase =>
      dsimp only
      rw [Calls.announced_set_self hdistinct hphase
        (WriteJob.apply_afterFailure CallPhase.isAnnounced (fun _ => rfl) fun _ => rfl), hpending]
  | fail htransaction hphase =>
      dsimp only
      rw [Calls.announced_set_self hdistinct hphase
        (WriteJob.apply_afterFailure CallPhase.isAnnounced (fun _ => rfl) fun _ => rfl), hpending]
  | endSetting hphase | callShutdown hphase =>
      have hsum := Calls.announced_remove hdistinct hphase
      exact hpending.trans hsum.symm
  | @announce id device commands hphase =>
      have hsum : Calls.announced (Calls.set id (.awaitingSection device commands) c.calls) + 0 =
          Calls.announced c.calls + 1 := Calls.announced_set hdistinct hphase
      simp only [WriteTrace.start, hpending]
      exact hsum.symm
  | «return» hphase =>
      have hsum := Calls.announced_remove hdistinct hphase
      simp only [WriteTrace.finish, hpending, ← hsum]
      rfl
  | @cancel id phase hphase =>
      have hsum := Calls.announced_remove hdistinct hphase
      rw [Calls.weight] at hsum
      dsimp only
      split
      · next hknown =>
          rw [if_pos hknown] at hsum
          simp only [WriteTrace.finish, hpending, ← hsum, Nat.add_sub_cancel]
      · next hunknown =>
          rw [if_neg hunknown] at hsum
          exact hpending.trans hsum.symm
  | _ => exact hpending

theorem settings_eq (hmove : Move c action events after) : after.settings = c.settings := by
  cases hmove <;> rfl

theorem codec_eq (hmove : Move c action events after) : after.codec = c.codec := by
  cases hmove <;> rfl

theorem points_eq (hmove : Move c action events after) : after.points = c.points := by
  cases hmove <;> rfl

theorem reads_eq (hmove : Move c action events after) : after.reads = c.reads := by
  cases hmove <;> rfl

theorem transaction_step (hmove : Move c action events after) :
    c.TransactionStep action events after := by
  have hfree {next : SchedulerPhase} (hnext : next.isFree = true) (tick : Tick) :
      next ≠ .polling tick := by
    rintro rfl
    simp [SchedulerPhase.isFree] at hnext
  cases hmove with
  | elapse | refuse => exact .keep rfl (fun _ => id) (fun _ => id) fun _ _ => id
  | stay haction =>
      exact .keep (Action.isAnswer_of_isInternal haction) (fun _ => id) (fun _ => id) fun _ _ => id
  | stroll haction _ hnext =>
      exact .keep (Action.isAnswer_of_isInternal haction) (fun _ => id)
        (fun tick hpolling => absurd hpolling (hfree hnext tick)) fun _ _ => id
  | seekSetting haction =>
      exact .keep (Action.isAnswer_of_isInternal haction) (fun _ => id) (by simp) fun _ _ => id
  | clear | seekLink | seekShutdown | endScheduler =>
      exact .keep rfl (fun _ => id) (by simp) fun _ _ => id
  | leaveLink _ _ hnext =>
      exact .keep rfl (fun _ => id) (fun tick hpolling => absurd hpolling (hfree hnext tick))
        fun _ _ => id
  | startWrite hnew | startPosting hnew =>
      exact .keep rfl (fun _ => id) (fun _ => id) fun _ _ => Calls.phase?_of_add hnew (by simp)
  | postClose | callSeekShutdown | announce | enterSection | finish | callSeekLink
  | callLeaveLink =>
      exact .keep rfl (fun _ => id) (fun _ => id) fun _ _ => Calls.phase?_of_set (by simp)
  | refuseAttempt =>
      exact .keep rfl (fun _ => id) (fun _ => id) fun _ _ =>
        Calls.phase?_of_set (WriteJob.afterFailure_ne (by simp [CallPhase.linkStance]) _ _ _ _)
  | endSetting | callShutdown | «return» =>
      exact .keep rfl (fun _ => id) (fun _ => id) fun _ _ => Calls.phase?_of_remove
  | @cancel caller phase =>
      refine .keep rfl (fun transaction hafter => ?_) (fun _ => id) fun _ _ =>
        Calls.phase?_of_remove
      cases hinside : phase.isTransacting with
      | true => simp [hinside] at hafter
      | false => simpa [hinside] using hafter
  | poll hphase hheld hopen hread hbegin =>
      exact .poll rfl hphase hheld hopen hread hbegin rfl rfl
  | attempt hphase hheld hopen hjob hbegin =>
      refine .attempt rfl hphase hheld hopen hjob hbegin ?_ rfl
      rw [Calls.phase?_set (by simp [hphase]), Function.update_self]
  | proceed hbefore hturn => exact .proceed hbefore hturn rfl rfl rfl
  | writeBack hbefore hphase hjob hfield hturn hencode =>
      exact .writeBack hbefore hphase hjob hfield hturn hencode rfl rfl
  | endPoll | store | fail | misfit => exact .finish rfl

/-- A transaction carries a request of its user, from its first stage to its last. -/
theorem errand (hmove : Move c action events after) (horderly : c.Orderly)
    (hlink : after.linkLock.Guards after.stance) {transaction : Transaction}
    (htransaction : after.transaction = some transaction) :
    after.Errand transaction.request := by
  have hold := horderly.errand
  have hreads := hmove.reads_eq
  have hcodec := hmove.codec_eq
  cases hmove.transaction_step with
  | keep haction hsame hpolls hattempts =>
      exact (hold _ (hsame _ htransaction)).keep hreads hcodec hpolls hattempts
  | poll haction hphase hheld hopen hread hbegin hpolling hafter =>
      obtain rfl := Option.some.inj (hafter.symm.trans htransaction)
      exact .of_poll hlink hpolling (by rw [hreads, hread])
  | @attempt _ _ command _ _ _ haction hphase hheld hopen hjob hbegin hattempts hafter =>
      obtain rfl := Option.some.inj (hafter.symm.trans htransaction)
      exact .of_attempt hlink hattempts hjob (command.sends_firstRequest _)
  | proceed hbefore hturn hphase hcalls hafter =>
      obtain rfl := Option.some.inj (hafter.symm.trans htransaction)
      have herrand := hold _ hbefore
      exact herrand.keep hreads hcodec (by simp [hphase]) (by simp [hcalls])
  | @writeBack id job command rest point value _ _ _ _ _ current _ values hbefore hphase hjob hfield
      hturn hencode hcalls hafter =>
      obtain rfl := Option.some.inj (hafter.symm.trans htransaction)
      refine .of_attempt hlink (hcalls ▸ hphase) hjob ?_
      rw [WriteCommand.Sends, hfield, hcodec]
      exact .inr ⟨current, values, hencode, rfl⟩
  | finish hnone => simp [hnone] at htransaction

/-- Nobody takes back that the connection is closing. -/
theorem closing (hmove : Move c action events after) (hclosing : c.closing = true) :
    after.closing = true := by
  cases hmove
  case startPosting _ _ hkeeps => exact hkeeps hclosing
  all_goals first | exact hclosing | rfl

theorem warned (hmove : Move c action events after) (hwarned : c.Warned) : after.Warned := by
  have hkeep : (after.phase = .awaitingShutdown → c.phase = .awaitingShutdown) →
      (∀ id, Calls.phase? after.calls id = some .awaitingShutdown →
        Calls.phase? c.calls id = some .awaitingShutdown) → after.Warned := fun hphase hcalls =>
    ⟨fun hafter => hmove.closing (hwarned.1 (hphase hafter)),
      fun id hafter => hmove.closing (hwarned.2 id (hcalls id hafter))⟩
  have hfree : ∀ {next : SchedulerPhase}, next.isFree = true → next ≠ .awaitingShutdown := by
    rintro _ hnext rfl
    simp [SchedulerPhase.isFree] at hnext
  cases hmove with
  | elapse | stay | refuse | proceed | writeBack => exact hkeep id fun _ => id
  | stroll haction hphase hnext | leaveLink hphase hheld hnext
  | endPoll htransaction hphase hturn hnext =>
      exact hkeep (fun hafter => absurd hafter (hfree hnext)) fun _ => id
  | clear | seekLink | seekSetting | endScheduler | poll => exact hkeep (by simp) fun _ => id
  | seekShutdown | callSeekShutdown => exact ⟨fun _ => rfl, fun _ _ => rfl⟩
  | startWrite hnew | startPosting hnew =>
      exact hkeep id fun _ => Calls.phase?_of_add hnew (by simp)
  | endSetting | callShutdown | «return» | cancel => exact hkeep id fun _ => Calls.phase?_of_remove
  | postClose | announce | enterSection | finish | callSeekLink | callLeaveLink | attempt | store
  | misfit => exact hkeep id fun _ => Calls.phase?_of_set (by simp)
  | refuseAttempt | fail =>
      exact hkeep id fun _ => Calls.phase?_of_set
        (WriteJob.afterFailure_ne (by simp [CallPhase.linkStance]) _ _ _ _)

/-- Every move keeps the order. -/
theorem orderly (hmove : Move c action events after) (horderly : c.Orderly) : after.Orderly where
  distinct := hmove.distinct horderly.distinct
  pending_eq := hmove.pending horderly.distinct horderly.pending_eq
  link := hmove.shift.link horderly.link
  writes := hmove.writes horderly.writes
  busy := hmove.shift.busy horderly.link horderly.busy
  errand _ := hmove.errand horderly (hmove.shift.link horderly.link)
  warned := hmove.warned horderly.warned

end Move

end Fieldbus

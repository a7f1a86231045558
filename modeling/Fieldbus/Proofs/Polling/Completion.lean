import Fieldbus.Proofs.Polling.Forecast

/-!
# Calm ticks come to their end

Whatever the replies to its reads, a calm tick can be brought to its end: no visit waits for
anything that the scheduler, the link, the receiver of samples and the clock do not provide.
Between two visits nobody holds the link, so the scheduler gets it at once; the transport opens, the
minimum interval passes, the reply comes, and its samples are taken one by one.
-/

namespace Fieldbus

/-- The time since the last write only grows. -/
theorem WriteTrace.shouldDefer_mono {trace : WriteTrace} {quiet : Nanoseconds} {now later : Instant}
    (hlater : now ≤ later) (hrested : trace.shouldDefer now quiet = false) :
    trace.shouldDefer later quiet = false := by
  rw [Bool.eq_false_iff, ne_eq, shouldDefer_iff] at hrested ⊢
  rintro (hpending | ⟨last, hlast, hrecent⟩)
  · exact hrested (.inl hpending)
  · exact hrested (.inr ⟨last, hlast, Nat.lt_of_le_of_lt hlater hrecent⟩)

namespace Connection

variable {replies : Nat → Except RequestError Response}
variable {c after final : Connection} {action : Action} {events : List Event}
variable {tick : Tick} {group : PollGroup}

/-- A later state of the same tick, in which nobody but the scheduler and the link has done
anything. -/
structure Steady (c after : Connection) : Prop where
  settings : after.settings = c.settings
  trace : after.trace = c.trace
  mailbox : after.mailbox = c.mailbox
  closing : after.closing = c.closing
  calls : after.calls = c.calls
  handleHeld : after.handleHeld = c.handleHeld
  enabled : after.scheduler.enabled = c.scheduler.enabled
  groups : after.scheduler.groups.length = c.scheduler.groups.length
  now : c.now ≤ after.now

/-- Undisturbed steps lead from one state to the other. -/
structure Leads (replies : Nat → Except RequestError Response) (c after : Connection) : Prop where
  steady : c.Steady after
  path : ∃ path, Path c path after ∧ ∀ transition ∈ path, transition.Undisturbed replies

theorem Steady.calm (hsteady : c.Steady after) (hcalm : c.Calm) : after.Calm where
  rested := by
    rw [hsteady.trace, hsteady.settings]
    exact WriteTrace.shouldDefer_mono hsteady.now hcalm.rested
  commands := by rw [hsteady.mailbox, hcalm.commands]
  notClosing := by rw [hsteady.closing, hcalm.notClosing]

theorem Steady.trans (hfirst : c.Steady after) (hsecond : after.Steady final) :
    c.Steady final where
  settings := hsecond.settings.trans hfirst.settings
  trace := hsecond.trace.trans hfirst.trace
  mailbox := hsecond.mailbox.trans hfirst.mailbox
  closing := hsecond.closing.trans hfirst.closing
  calls := hsecond.calls.trans hfirst.calls
  handleHeld := hsecond.handleHeld.trans hfirst.handleHeld
  enabled := hsecond.enabled.trans hfirst.enabled
  groups := hsecond.groups.trans hfirst.groups
  now := Nat.le_trans hfirst.now hsecond.now

theorem Leads.refl (replies : Nat → Except RequestError Response) (c : Connection) :
    c.Leads replies c :=
  ⟨⟨rfl, rfl, rfl, rfl, rfl, rfl, rfl, rfl, Nat.le_refl _⟩, [], .nil c, by simp⟩

theorem Leads.trans (hfirst : c.Leads replies after) (hsecond : after.Leads replies final) :
    c.Leads replies final := by
  obtain ⟨earlier, hearlier, hbefore⟩ := hfirst.path
  obtain ⟨later, hlater, hafter⟩ := hsecond.path
  exact ⟨hfirst.steady.trans hsecond.steady, earlier ++ later, hearlier.append hlater,
    List.forall_mem_append.mpr ⟨hbefore, hafter⟩⟩

/-- A step that answers nothing does not disturb a calm tick. -/
theorem undisturbed_of_silent (hcalm : c.Calm) (hwithin : c.scheduler.phase.tick? ≠ none)
    (hsilent : action.isAnswer = false) :
    Transition.Undisturbed replies ⟨c, action, after, events⟩ := by
  have hopen : c.openEnd? action = none := by
    rw [openEnd?]
    cases action <;> first | (split <;> rfl) | simp [Action.isAnswer] at hsilent
  have hreply : c.reply? action = none := by
    rw [reply?]
    cases action <;> first | (split <;> rfl) | simp [Action.isAnswer] at hsilent
  exact ⟨hcalm, hwithin, by simp [hopen], by simp [hreply]⟩

/-- The scheduler, the receiver of samples or the clock takes a step. -/
theorem leads_of_step (hcalm : c.Calm) (hwithin : c.scheduler.phase.tick? ≠ none)
    (hsilent : action.isAnswer = false) (hstep : c.step action = some (after, events))
    (hsteady : c.Steady after) : c.Leads replies after := by
  refine ⟨hsteady, _, .cons hstep (.nil after), ?_⟩
  simpa using undisturbed_of_silent hcalm hwithin hsilent

/-- The wait of a transaction ends, as far as the replies tell. -/
theorem leads_of_answer (hcalm : c.Calm) (hphase : c.scheduler.phase = .polling tick)
    (hopens : ∀ result ∈ c.openEnd? action, result = .ok ())
    (hreplied : ∀ reply ∈ c.reply? action, reply.2 = replies reply.1)
    (hstep : c.step action = some (after, events)) (hsteady : c.Steady after) :
    c.Leads replies after := by
  have hwithin : c.scheduler.phase.tick? ≠ none := by simp [hphase, SchedulerPhase.tick?]
  refine ⟨hsteady, _, .cons hstep (.nil after), ?_⟩
  simp only [List.mem_singleton, forall_eq]
  exact ⟨hcalm, hwithin, hopens, hreplied⟩

theorem steady_setPhase (phase : SchedulerPhase) (c : Connection) :
    c.Steady (c.setPhase phase) :=
  ⟨rfl, rfl, rfl, rfl, rfl, rfl, rfl, rfl, Nat.le_refl _⟩

theorem steady_setGroup (group : PollGroup) (index : Nat) (c : Connection) :
    c.Steady (c.setGroup group index) :=
  ⟨rfl, rfl, rfl, rfl, rfl, rfl, rfl, List.length_set, Nat.le_refl _⟩

theorem steady_concludeVisit (tick : Tick) (outcome : PollOutcome) (c : Connection) :
    c.Steady (c.concludeVisit tick outcome) := by
  rw [concludeVisit_eq]
  exact steady_setPhase _ c

/-- Another link, with another transaction. -/
theorem steady_link (link : Link) (transaction : Option Transaction) (linkLock : FairLock)
    (c : Connection) : c.Steady { c with link, transaction, linkLock } :=
  ⟨rfl, rfl, rfl, rfl, rfl, rfl, rfl, rfl, Nat.le_refl _⟩

/-! ## The parts of a visit -/

variable (replies)

/-- The scheduler is about to go on to the group after that of the tick. -/
def GoesOn (tick : Tick) (c : Connection) : Prop :=
  ∃ next, c.scheduler.phase = .visiting next ∧ next.next = tick.next + 1

theorem goesOn_concludeVisit (tick : Tick) (reported : List DeviceId) (outcome : PollOutcome)
    (c : Connection) : (c.concludeVisit { tick with reported } outcome).GoesOn tick := by
  rw [concludeVisit_eq]
  exact ⟨_, rfl, rfl⟩

/-- A publication ends: its samples are taken one by one. -/
theorem exists_concluded {publication : Publication} (hcalm : c.Calm)
    (hphase : c.scheduler.phase = .publishing tick publication) :
    ∃ after, c.Leads replies after ∧ after.linkLock = c.linkLock ∧ after.GoesOn tick := by
  have hwithin : c.scheduler.phase.tick? ≠ none := by simp [hphase, SchedulerPhase.tick?]
  have hstep : c.step (.run .scheduler) = some (c.publish tick publication) := by
    simp [step, runScheduler?, hphase]
  generalize hremaining : publication.remaining = points at hstep
  induction points generalizing c publication with
  | nil =>
      rw [publish, hremaining] at hstep
      refine ⟨_, leads_of_step hcalm hwithin rfl hstep (steady_concludeVisit ..), rfl, ?_⟩
      exact goesOn_concludeVisit tick tick.reported .polled c
  | cons point rest ih =>
      -- One more point goes out of the way, and the others follow.
      have hothers {between : Connection} {later : Publication} (hleads : c.Leads replies between)
          (hlock : between.linkLock = c.linkLock)
          (hbetween : between.scheduler.phase = .publishing tick later)
          (hrest : later.remaining = rest) :
          ∃ after, c.Leads replies after ∧ after.linkLock = c.linkLock ∧ after.GoesOn tick := by
        obtain ⟨after, hafter, hsame, hgoes⟩ := ih (hleads.steady.calm hcalm) hbetween
          (by simp [hbetween, SchedulerPhase.tick?])
          (by simp [step, runScheduler?, hbetween]) hrest
        exact ⟨after, hleads.trans hafter, hsame.trans hlock, hgoes⟩
      cases hvalue : c.decodePoint publication point with
      | error error =>
          simp only [publish, hremaining, hvalue] at hstep
          exact hothers (leads_of_step hcalm hwithin rfl hstep (steady_setPhase _ c)) rfl rfl rfl
      | ok value =>
          simp only [publish, hremaining, hvalue] at hstep
          have hgives : c.Leads replies _ :=
            leads_of_step hcalm hwithin rfl hstep (steady_setPhase _ c)
          have htakes : (c.setPhase (.delivering tick publication c.now)).step .deliver =
              some ((c.setPhase (.delivering tick publication c.now)).delivered tick publication,
                []) := rfl
          simp only [delivered, hremaining] at htakes
          have htaken : (c.setPhase (.delivering tick publication c.now)).Leads replies _ :=
            leads_of_step (hgives.steady.calm hcalm) (by simp [setPhase, SchedulerPhase.tick?]) rfl
              htakes (steady_setPhase _ _)
          exact hothers (hgives.trans htaken) rfl rfl rfl

/-- What the end of a poll leaves. -/
theorem pollEnded_goesOn (hfound : c.group? tick.next = some group)
    (result : Except RequestError Response) :
    c.Steady (c.pollEnded tick result).1 ∧
      (c.pollEnded tick result).1.linkLock = c.linkLock.release ∧
        ((c.pollEnded tick result).1.GoesOn tick ∨
          ∃ publication, (c.pollEnded tick result).1.scheduler.phase =
            .publishing tick publication) := by
  have hreleased : c.releaseLink.group? tick.next = some group := hfound
  have hrelease : c.Steady c.releaseLink := steady_link _ _ _ c
  rw [pollEnded, hreleased]
  dsimp only
  cases result with
  | ok response =>
      exact ⟨hrelease.trans ((steady_setGroup ..).trans (steady_setPhase ..)), rfl,
        .inr ⟨_, rfl⟩⟩
  | error error =>
      dsimp only
      split
      · rw [concludeVisit_eq]
        exact ⟨hrelease.trans (steady_setPhase ..), rfl, .inl ⟨_, rfl, rfl⟩⟩
      · rw [pollFailed]
        dsimp only
        rw [concludeVisit_eq]
        exact ⟨hrelease.trans ((steady_setGroup ..).trans (steady_setPhase ..)), rfl,
          .inl ⟨_, rfl, rfl⟩⟩

/-- The reply ends the exchange of a poll. -/
theorem exists_answered {read : ReadRequest} {since : Instant} (hcalm : c.Calm)
    (hphase : c.scheduler.phase = .polling tick) (hfound : c.group? tick.next = some group)
    (hlock : c.linkLock = { holder := some .scheduler })
    (htransaction : c.transaction = some ⟨.read read, .exchanging since⟩) :
    ∃ after, c.Leads replies after ∧ after.linkLock = {} ∧
      (after.GoesOn tick ∨
        ∃ publication, after.scheduler.phase = .publishing tick publication) := by
  obtain ⟨shown, hended, -⟩ :=
    c.link.exchanged_eq c.now (.read read) (replies tick.next)
  have hstep : c.step (.exchangeDone (replies tick.next)) =
      some (c.proceed (.read read) (c.link.exchanged c.now (.read read) (replies tick.next))) := by
    simp [step, htransaction]
  generalize hlink : ({ c.link with lastExchangeEnd := some c.now }.conclude
    ((Request.read read).verdict (replies tick.next))).1 = link at hended
  simp only [hended, proceed, transactionEnded, hlock, hphase] at hstep
  obtain ⟨hsteady, hreleased, hgoes⟩ := pollEnded_goesOn
    (c := { c with link, transaction := none, linkLock := { holder := some .scheduler } }) hfound
    ((Request.read read).verdict (replies tick.next))
  refine ⟨_, leads_of_answer hcalm hphase ?_ ?_ hstep ((steady_link ..).trans hsteady), hreleased,
    hgoes⟩
  · simp [openEnd?, htransaction]
  · simp [reply?, hphase, htransaction, Action.exchangeResult?]

/-- After the minimum interval the exchange of a poll starts. -/
theorem exists_exchanging_of_spacing {read : ReadRequest} {stop : Instant} (hcalm : c.Calm)
    (hphase : c.scheduler.phase = .polling tick)
    (htransaction : c.transaction = some ⟨.read read, .spacing stop⟩) :
    ∃ after since, c.Leads replies after ∧ after.linkLock = c.linkLock ∧
      after.scheduler = c.scheduler ∧
        after.transaction = some ⟨.read read, .exchanging since⟩ := by
  have hwithin : c.scheduler.phase.tick? ≠ none := by simp [hphase, SchedulerPhase.tick?]
  have hwait : c.Leads replies { c with now := c.now + (stop - c.now) } :=
    leads_of_step hcalm hwithin (rfl : (Action.elapse (stop - c.now)).isAnswer = false) rfl
      ⟨rfl, rfl, rfl, rfl, rfl, rfl, rfl, rfl, Nat.le_add_right _ _⟩
  generalize hlater : ({ c with now := c.now + (stop - c.now) } : Connection) = later at hwait
  have hnow : stop ≤ later.now := by
    rw [← hlater]
    exact Nat.sub_le_iff_le_add'.mp (Nat.le_refl _)
  have hsame : later.scheduler = c.scheduler ∧ later.linkLock = c.linkLock ∧
      later.transaction = some ⟨.read read, .spacing stop⟩ := by
    rw [← hlater]
    exact ⟨rfl, rfl, htransaction⟩
  obtain ⟨hscheduler, hlock, htransaction⟩ := hsame
  have hstep : later.step .expire = some (later.proceed (.read read)
      (later.link.beginExchange later.now (.read read))) := by
    simp [step, htransaction, Link.deadline, Link.expired, hnow]
  simp only [proceed, Link.beginExchange] at hstep
  have hpolling : later.scheduler.phase = .polling tick := by rw [hscheduler, hphase]
  have hexpire : later.Leads replies _ :=
    leads_of_answer (hwait.steady.calm hcalm) hpolling (by simp [openEnd?, htransaction])
      (by simp [reply?, hpolling, htransaction]) hstep (steady_link ..)
  exact ⟨_, _, hwait.trans hexpire, hlock, hscheduler, rfl⟩

/-- The transport opens, if it has to, and the exchange of a poll starts. -/
theorem exists_exchanging {read : ReadRequest} {stage : Stage} (hcalm : c.Calm)
    (hphase : c.scheduler.phase = .polling tick)
    (htransaction : c.transaction = some ⟨.read read, stage⟩) :
    ∃ after since, c.Leads replies after ∧ after.linkLock = c.linkLock ∧
      after.scheduler = c.scheduler ∧
        after.transaction = some ⟨.read read, .exchanging since⟩ := by
  cases stage with
  | exchanging since => exact ⟨c, since, .refl replies c, rfl, rfl, htransaction⟩
  | spacing stop => exact exists_exchanging_of_spacing replies hcalm hphase htransaction
  | opening since =>
      obtain ⟨changing, -, hopened⟩ := c.link.opened_ok c.now (.read read)
      have hstep : c.step (.openDone (.ok ())) =
          some (c.proceed (.read read) (c.link.opened c.now (.read read) (.ok ()))) := by
        simp [step, htransaction]
      have hleads {after : Connection} {events : List Event}
          (hstep : c.step (.openDone (.ok ())) = some (after, events))
          (hsteady : c.Steady after) : c.Leads replies after :=
        leads_of_answer hcalm hphase (by simp [openEnd?, htransaction, Action.openResult?])
          (by simp [reply?, hphase, htransaction]) hstep hsteady
      rcases Link.space_cases c.now (.read read) { c.link with isOpen := true, state := .opened }
        with ⟨stop, -, hspace⟩ | ⟨sent, hspace, -⟩
      · simp only [hopened, hspace, proceed] at hstep
        have hfirst := hleads hstep (steady_link ..)
        obtain ⟨after, since, hsecond, hlock, hscheduler, hexchanging⟩ :=
          exists_exchanging_of_spacing replies (hfirst.steady.calm hcalm) hphase rfl
        exact ⟨after, since, hfirst.trans hsecond, hlock, hscheduler, hexchanging⟩
      · simp only [hopened, hspace, proceed] at hstep
        exact ⟨_, c.now, hleads hstep (steady_link ..), rfl, rfl, rfl⟩

/-- A visit ends at once, or its group is to be read. -/
theorem exists_visited (hcalm : c.Calm) (hattended : c.isAbandoned = false)
    (hpolls : c.scheduler.enabled = true) (hphase : c.scheduler.phase = .visiting tick)
    (hfound : c.group? tick.next = some group) :
    ∃ after, c.Leads replies after ∧ after.linkLock = c.linkLock ∧
      (after.GoesOn tick ∨ after.scheduler.phase = .requesting tick) := by
  have hwithin : c.scheduler.phase.tick? ≠ none := by simp [hphase, SchedulerPhase.tick?]
  have hvisits : c.Visits tick group :=
    ⟨hphase, hfound, hcalm.commands, hattended, hpolls, hcalm.notClosing⟩
  have hasked : c.Steady (c.setGroup (group.asked c.ceiling) tick.next) := steady_setGroup ..
  suffices hvisit : c.Steady (c.visitGroup tick group).1 ∧
      (c.visitGroup tick group).1.linkLock = c.linkLock ∧
        ((c.visitGroup tick group).1.GoesOn tick ∨
          (c.visitGroup tick group).1.scheduler.phase = .requesting tick) by
    obtain ⟨hsteady, hlock, hgoes⟩ := hvisit
    exact ⟨_, leads_of_step hcalm hwithin rfl hvisits.step_eq hsteady, hlock, hgoes⟩
  rw [visitGroup]
  dsimp only [askDue]
  split
  · rw [concludeVisit_eq]
    exact ⟨hasked.trans (steady_setPhase ..), rfl, .inl ⟨_, rfl, rfl⟩⟩
  · split
    · rw [concludeVisit_eq]
      exact ⟨hasked.trans ((steady_setGroup ..).trans (steady_setPhase ..)), rfl,
        .inl ⟨_, rfl, rfl⟩⟩
    · split
      · rw [concludeVisit_eq]
        exact ⟨hasked.trans (steady_setPhase ..), rfl, .inl ⟨_, rfl, rfl⟩⟩
      · exact ⟨hasked.trans (steady_setPhase ..), rfl, .inr rfl⟩

/-- The scheduler gets a link that nobody holds, and the poll begins. -/
theorem exists_polling (hcalm : c.Calm) (hlock : c.linkLock = {})
    (hphase : c.scheduler.phase = .requesting tick) (hfound : c.group? tick.next = some group) :
    ∃ after read stage, c.Leads replies after ∧
      after.linkLock = { holder := some .scheduler } ∧ after.scheduler.phase = .polling tick ∧
        after.transaction = some ⟨.read read, stage⟩ := by
  have hseek : c.step (.run .scheduler) =
      some ((c.requestLink .scheduler).setPhase (.awaitingLink tick), []) := by
    simp [step, runScheduler?, hphase, hcalm.notClosing]
  have hseeks : c.Leads replies ((c.requestLink .scheduler).setPhase (.awaitingLink tick)) :=
    leads_of_step hcalm (by simp [hphase, SchedulerPhase.tick?]) rfl hseek
      ((steady_link ..).trans (steady_setPhase ..))
  generalize hwaits : (c.requestLink .scheduler).setPhase (.awaitingLink tick) = between at hseeks
  have hbetween : between.scheduler.phase = .awaitingLink tick ∧
      between.group? tick.next = some group ∧
        between.linkLock = { holder := some .scheduler } := by
    rw [← hwaits]
    exact ⟨rfl, hfound, by simp [setPhase, requestLink, hlock, FairLock.request]⟩
  obtain ⟨hawaits, hgroup, hheld⟩ := hbetween
  have hcalm := hseeks.steady.calm hcalm
  obtain ⟨link, events, stage, hbegin⟩ := between.link.begin_read between.now group.readRequest
  have hstep : between.step (.run .scheduler) = some (between.beginPoll tick) := by
    simp [step, runScheduler?, hawaits, hheld, FairLock.isHeldBy, hcalm.notClosing]
  simp only [beginPoll, hgroup, hbegin, proceed] at hstep
  have hpolls : between.Leads replies _ :=
    leads_of_step hcalm (by simp [hawaits, SchedulerPhase.tick?]) rfl hstep
      ((steady_setPhase ..).trans (steady_link ..))
  exact ⟨_, group.readRequest, stage, hseeks.trans hpolls, hheld, rfl, rfl⟩

/-- A visit is concluded, and the link is free again. -/
theorem exists_goesOn (hcalm : c.Calm) (hattended : c.isAbandoned = false)
    (hpolls : c.scheduler.enabled = true) (hlock : c.linkLock = {})
    (hphase : c.scheduler.phase = .visiting tick) (hindex : tick.next < c.scheduler.groups.length) :
    ∃ after, c.Leads replies after ∧ after.linkLock = {} ∧ after.GoesOn tick := by
  -- The place of the group stays in the list.
  have hfound {between : Connection} (hsteady : c.Steady between) :
      ∃ group, between.group? tick.next = some group :=
    ⟨_, List.getElem?_eq_getElem (hsteady.groups ▸ hindex)⟩
  obtain ⟨group, hgroup⟩ := hfound (Leads.refl replies c).steady
  obtain ⟨visited, hvisit, hfree, hgoes | hrequesting⟩ :=
    exists_visited replies hcalm hattended hpolls hphase hgroup
  · exact ⟨visited, hvisit, hfree.trans hlock, hgoes⟩
  obtain ⟨asked, hasked⟩ := hfound hvisit.steady
  obtain ⟨polling, read, stage, hpoll, hheld, hpolling, htransaction⟩ :=
    exists_polling replies (hvisit.steady.calm hcalm) (hfree.trans hlock) hrequesting
      hasked
  have hpoll := hvisit.trans hpoll
  obtain ⟨exchanging, since, hexchange, hsame, hscheduler, hwaits⟩ :=
    exists_exchanging replies (hpoll.steady.calm hcalm) hpolling htransaction
  have hexchange := hpoll.trans hexchange
  obtain ⟨exchanged, hexchanged⟩ := hfound hexchange.steady
  obtain ⟨answered, hanswer, hreleased, hgoes | ⟨publication, hpublishing⟩⟩ :=
    exists_answered replies (hexchange.steady.calm hcalm)
      (by rw [hscheduler, hpolling]) hexchanged (hsame.trans hheld) hwaits
  · exact ⟨answered, hexchange.trans hanswer, hreleased, hgoes⟩
  have hanswer := hexchange.trans hanswer
  obtain ⟨after, hafter, hkept, hgoes⟩ :=
    exists_concluded replies (hanswer.steady.calm hcalm) hpublishing
  exact ⟨after, hanswer.trans hafter, hkept.trans hreleased, hgoes⟩

/-- Nobody holds or awaits the link between two visits of a calm tick. -/
theorem linkLock_of_calm (horderly : c.traffic.Orderly) (hcalm : c.Calm)
    (hphase : c.scheduler.phase = .visiting tick) : c.linkLock = {} := by
  have hpending : c.trace.pending = 0 := by
    have hrested := hcalm.rested
    rw [Bool.eq_false_iff, ne_eq, WriteTrace.shouldDefer_iff, not_or] at hrested
    exact Nat.eq_zero_of_not_pos hrested.1
  have haway (actor : Actor) : c.traffic.stance actor = .away := by
    cases actor with
    | scheduler =>
        have hscheduler : c.traffic.phase = .visiting tick := hphase
        simp [Traffic.stance, linkStance, hscheduler, SchedulerPhase.linkStance]
    | call id =>
        cases hcall : Calls.phase? c.calls id with
        | none => exact Traffic.stance_call_none hcall
        | some phase =>
            have hunknown : phase.isAnnounced = false := by
              by_contra hknown
              have hcount : c.trace.pending = Calls.announced c.calls := horderly.pending_eq
              have hpos := Calls.announced_pos hcall ((Bool.not_eq_false _).mp hknown)
              omega
            rw [Traffic.stance_call (c := c.traffic) hcall]
            cases phase with
            | awaitingShutdown =>
                have hclosing : c.closing = true := horderly.warned.2 id hcall
                simp [hcalm.notClosing] at hclosing
            | posting | stopping | announcing => rfl
            | awaitingSection | attempting | awaitingLink | transacting | finishing =>
                simp [CallPhase.isAnnounced] at hunknown
  have hnobody : c.linkLock.members = [] := by
    apply List.eq_nil_iff_forall_not_mem.mpr
    intro actor hactor
    exact (horderly.link.mem_iff actor).mp hactor (haway actor)
  obtain ⟨hholder, hwaiting⟩ := List.append_eq_nil_iff.mp hnobody
  have hholder : c.linkLock.holder = none := by simpa using hholder
  calc
    c.linkLock = ⟨c.linkLock.holder, c.linkLock.waiting⟩ := rfl
    _ = {} := by rw [hholder, hwaiting]

theorem Steady.attended (hsteady : c.Steady after) (hattended : c.isAbandoned = false) :
    after.isAbandoned = false := by
  rwa [isAbandoned, hsteady.handleHeld, hsteady.calls]

/-- The rest of a calm tick comes to its end, visit by visit. -/
theorem exists_end {c : Connection} {tick : Tick} (hcalm : c.Calm)
    (hattended : c.isAbandoned = false) (hlock : c.linkLock = {})
    (hphase : c.scheduler.phase = .visiting tick) :
    ∃ path final outcomes, Path c path final ∧
      (∀ transition ∈ path, transition.Undisturbed replies) ∧
        ∃ last, path.getLast? = some last ∧ .tickEnds outcomes ∈ last.events := by
  by_cases hends : c.group? tick.next = none ∨ c.scheduler.enabled = false
  · have hnothing : c.receive? (some tick) = none := by
      simp [receive?, Mailbox.take?, hcalm.commands, hattended]
    have hstep : c.step (.run .scheduler) = some (c.endTick tick) := by
      simp only [step, runScheduler?, hphase, visit]
      rcases hends with hnone | hdisabled
      · rw [hnone]
      · cases c.group? tick.next with
        | none => rfl
        | some group => simp [hnothing, hdisabled]
    refine ⟨_, c.rest, tick.outcomes, .cons hstep (.nil _), ?_, _, rfl, by simp⟩
    simpa using undisturbed_of_silent hcalm (by simp [hphase, SchedulerPhase.tick?]) rfl
  · simp only [not_or, Bool.not_eq_false] at hends
    obtain ⟨hsome, hpolls⟩ := hends
    have hindex : tick.next < c.scheduler.groups.length := by
      by_contra hlate
      exact hsome (List.getElem?_eq_none (Nat.le_of_not_lt hlate))
    obtain ⟨after, hleads, hfree, next, hnext, hcount⟩ :=
      exists_goesOn replies hcalm hattended hpolls hlock hphase hindex
    have hlength := hleads.steady.groups
    obtain ⟨later, final, outcomes, hlater, hundisturbed, last, hlast, hmem⟩ :=
      exists_end (hleads.steady.calm hcalm) (hleads.steady.attended hattended) hfree hnext
    obtain ⟨earlier, hearlier, hbefore⟩ := hleads.path
    refine ⟨earlier ++ later, final, outcomes, hearlier.append hlater,
      List.forall_mem_append.mpr ⟨hbefore, hundisturbed⟩, last, ?_, hmem⟩
    rw [List.getLast?_append, hlast, Option.some_or]
termination_by c.scheduler.groups.length - tick.next
decreasing_by omega

/-- A calm tick that has begun can be brought to its end, whatever the replies to its reads, unless
everybody has gone away. -/
theorem exists_calmTick {instant : Instant} (horderly : c.traffic.Orderly) (hcalm : c.Calm)
    (hattended : c.isAbandoned = false) (hphase : c.scheduler.phase = .visiting { instant }) :
    ∃ run, CalmTick replies c run := by
  obtain ⟨path, final, outcomes, hpath, hundisturbed, hends⟩ :=
    exists_end replies hcalm hattended (linkLock_of_calm horderly hcalm hphase) hphase
  exact ⟨⟨path, final, outcomes⟩, hpath, ⟨instant, hphase⟩, hundisturbed, hends⟩

end Connection

end Fieldbus

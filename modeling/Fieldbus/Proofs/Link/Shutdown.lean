import Fieldbus.Proofs.Link.Exchanges
import Fieldbus.Proofs.Polling.Scheduler
import Fieldbus.Proofs.Run.Phases

/-!
# The end of a connection

The first user that closes the link for good tells its observers so, and nobody uses the link after
that.  Whoever comes second finds nothing left to close or to tell.
-/

namespace Fieldbus

def Event.linkState? : Event → Option LinkState
  | linkChanges state => some state
  | transportOpens | exchangeStarts _ | transportCloses | sampled _ | deviceOnline _
  | deviceOffline _ | tickEnds _ | schedulerEnds | callReturns _ _ | noticed _ => none

/-- The states of the link that its observers hear of. -/
def linkStates (events : List Event) : List LinkState := events.filterMap Event.linkState?

theorem linkStates_append (events more : List Event) :
    linkStates (events ++ more) = linkStates events ++ linkStates more :=
  List.filterMap_append

theorem Quiet.linkStates_eq_nil {events : List Event} (hquiet : Quiet events) :
    linkStates events = [] := by
  rw [linkStates, List.filterMap_eq_nil_iff]
  intro event hevent
  have hsilent := hquiet event hevent
  cases event <;> first | rfl | simp [Event.isQuiet] at hsilent

namespace Link

/-- The link does not come to be shut down, and nobody hears that it does. -/
structure Lasts (link after : Link) (events : List Event) : Prop where
  state : link.state ≠ .shutdown → after.state ≠ .shutdown
  unheard : .shutdown ∉ linkStates events

variable {link after : Link} {now : Instant} {events : List Event}

/-- Short of its shutdown no operation of a link shuts it down. -/
theorem Evolves.lasts (hevolves : Evolves now link after events) : link.Lasts after events := by
  induction hevolves with
  | refl => exact ⟨id, by simp [linkStates]⟩
  | @shows _ _ event _ _ hstate _ ih =>
      have hsilent : event.linkState? = none := by
        cases event <;> first | rfl | exact absurd rfl (hstate _)
      refine ⟨ih.state, ?_⟩
      rw [linkStates, List.filterMap_cons_none hsilent]
      exact ih.unheard
  | marks hrest ih | stamps hrest ih => exact ⟨ih.state, ih.unheard⟩
  | @changes _ _ events state hlive hrest ih =>
      have hheard : linkStates (.linkChanges state :: events) = state :: linkStates events := rfl
      refine ⟨fun _ => ih.state hlive, ?_⟩
      rw [hheard, List.mem_cons, not_or]
      exact ⟨hlive.symm, ih.unheard⟩

/-- A link that is up is shut down once. -/
theorem linkStates_shutdown (hlive : link.state ≠ .shutdown) :
    ∃ before, linkStates link.shutdown.2 = before ++ [.shutdown] ∧ .shutdown ∉ before := by
  have hclosed := (link.evolves_close 0).lasts
  refine ⟨linkStates link.close.2, ?_, hclosed.unheard⟩
  rw [shutdown]
  simp only [linkStates_append, changeState, hclosed.state hlive, if_false]
  rfl

/-- A link that has been shut down has nothing left to close or to tell. -/
theorem shutdown_of_down (hdown : link.isOpen = false) (hstate : link.state = .shutdown) :
    link.shutdown = (link, []) := by
  simp [shutdown, close, changeState, hdown, hstate]

end Link

/-! ## After the link has been shut down -/

/-- The link has been shut down, and everybody knows that the connection closes. -/
structure Traffic.Down (c : Traffic) : Prop where
  closing : c.closing = true
  transaction : c.transaction = none
  isOpen : c.link.isOpen = false
  state : c.link.state = .shutdown

namespace Move

variable {c after : Traffic} {action : Action} {events : List Event}

/-- Once the link has been shut down it stays so, and nothing is heard of it any more. -/
theorem of_down (hmove : Move c action events after) (hdown : c.Down) :
    after.Down ∧ signs events = [] ∧ linkStates events = [] := by
  have hquietly {events : List Event} (hquiet : Quiet events) :
      signs events = [] ∧ linkStates events = [] :=
    ⟨hquiet.signs_eq_nil, hquiet.linkStates_eq_nil⟩
  have hbusy {transaction : Transaction} (hsome : c.transaction = some transaction) : False := by
    simp [hdown.transaction] at hsome
  have hclosed (hopen : c.closing = false) : False := by simp [hdown.closing] at hopen
  cases hmove with
  | elapse | seekSetting | refuse | postClose | endSetting | announce | finish | callLeaveLink
  | «return» => exact ⟨{ hdown with }, rfl, rfl⟩
  | stay haction hquiet => exact ⟨hdown, hquietly hquiet⟩
  | stroll haction hphase hnext hquiet | leaveLink hphase hheld hnext hquiet =>
      exact ⟨{ hdown with }, hquietly hquiet⟩
  | enterSection hphase hheld hquiet => exact ⟨{ hdown with }, hquietly hquiet⟩
  | seekShutdown | callSeekShutdown => exact ⟨{ hdown with closing := rfl }, rfl, rfl⟩
  | startPosting hnew hrequest hcloses =>
      exact ⟨{ hdown with closing := hcloses hdown.closing }, rfl, rfl⟩
  | cancel =>
      refine ⟨{ hdown with transaction := ?_ }, rfl, rfl⟩
      dsimp only
      split
      · rfl
      · exact hdown.transaction
  | endScheduler hphase hheld hquiet =>
      rw [Link.shutdown_of_down hdown.isOpen hdown.state]
      exact ⟨{ hdown with }, hquietly hquiet⟩
  | callShutdown =>
      rw [Link.shutdown_of_down hdown.isOpen hdown.state]
      exact ⟨{ hdown with }, rfl, rfl⟩
  | clear hphase hopen | seekLink hphase hopen | startWrite hnew hwrites hopen
  | callSeekLink hphase hjob hopen | poll hphase hheld hopen | attempt hphase hheld hopen
  | refuseAttempt hphase hheld hopen => exact (hclosed hopen).elim
  | proceed htransaction | endPoll htransaction | store htransaction | fail htransaction
  | misfit htransaction | writeBack htransaction => exact (hbusy htransaction).elim

/-- The link stays up, or it is shut down, and its observers hear of that last. -/
theorem notifies (hmove : Move c action events after) (horderly : c.Orderly)
    (hlive : c.link.state ≠ .shutdown) :
    (after.link.state ≠ .shutdown ∧ .shutdown ∉ linkStates events) ∨
      (after.Down ∧
        ∃ before, linkStates events = before ++ [.shutdown] ∧ .shutdown ∉ before) := by
  have hquietly {events : List Event} (hquiet : Quiet events) :
      .shutdown ∉ linkStates events := by simp [hquiet.linkStates_eq_nil]
  have hlasts {link : Link} {shown : List Event} (hlink : Link.Evolves c.now c.link link shown) :
      link.state ≠ .shutdown ∧ .shutdown ∉ linkStates shown :=
    ⟨hlink.lasts.state hlive, hlink.lasts.unheard⟩
  have hends {link : Link} {shown telling : List Event}
      (hlink : Link.Evolves c.now c.link link shown) (hquiet : Quiet telling) :
      link.state ≠ .shutdown ∧ .shutdown ∉ linkStates (shown ++ telling) := by
    rw [linkStates_append, hquiet.linkStates_eq_nil, List.append_nil]
    exact hlasts hlink
  have hshut (hidle : c.transaction = none) (hclosing : c.closing = true)
      (hafter : after.link = c.link.shutdown.1) (hclosed : after.closing = c.closing)
      (hsame : after.transaction = c.transaction) : after.Down := by
    refine ⟨hclosed.trans hclosing, hsame.trans hidle, ?_, ?_⟩
    · rw [hafter, Link.shutdown_fst]
      exact Link.isOpen_close c.link
    · rw [hafter, Link.shutdown_fst]
  obtain ⟨before, hstates, hbefore⟩ := Link.linkStates_shutdown hlive
  cases hmove with
  | elapse | seekLink | seekSetting | seekShutdown | refuse | startWrite | startPosting | postClose
  | endSetting | callSeekShutdown | announce | finish | callSeekLink | callLeaveLink | «return»
  | cancel => exact .inl ⟨hlive, by simp [linkStates, Event.linkState?]⟩
  | stay haction hquiet => exact .inl ⟨hlive, hquietly hquiet⟩
  | stroll haction hphase hnext hquiet => exact .inl ⟨hlive, hquietly hquiet⟩
  | clear hphase hopen hrest hquiet | leaveLink hphase hheld hnext hquiet
  | enterSection hphase hheld hquiet => exact .inl ⟨hlive, hquietly hquiet⟩
  | refuseAttempt hphase hheld hopen hjob hinvalid hquiet => exact .inl ⟨hlive, hquietly hquiet⟩
  | endScheduler hphase hheld hquiet =>
      have hidle := horderly.idle_of_scheduler hheld (by rw [hphase]; rfl)
      refine .inr ⟨hshut hidle (horderly.warned.1 hphase) rfl rfl rfl, before, ?_, hbefore⟩
      rw [linkStates_append, hquiet.linkStates_eq_nil, List.append_nil, hstates]
  | callShutdown hphase hheld =>
      have hidle := horderly.idle_of_call hheld hphase rfl
      refine .inr ⟨hshut hidle (horderly.warned.2 _ hphase) rfl rfl rfl, before, ?_, hbefore⟩
      rw [linkStates_append, hstates]
      exact List.append_nil _
  | poll hphase hheld hopen hread hbegin | attempt hphase hheld hopen hjob hbegin =>
      exact .inl (hlasts (Link.evolves_begin hbegin))
  | proceed htransaction hturn | store htransaction hphase hjob hturn
  | misfit htransaction hphase hturn => exact .inl (hlasts hturn.evolves)
  | endPoll htransaction hphase hturn hnext hquiet
  | fail htransaction hphase hjob hturn hfails hquiet => exact .inl (hends hturn.evolves hquiet)
  | writeBack htransaction hphase hjob hfield hturn hencode hbegin =>
      exact .inl (hlasts (hturn.evolves.trans (Link.evolves_begin hbegin)))

end Move

/-- No transport is connected, and none is about to be. -/
def Mode.isClosed : Mode → Bool
  | closed | shut => true
  | opening | ready | busy | spent _ => false

namespace Wire

variable {settings : LinkSettings} {start final : Wire} {log : List Entry}

/-- A transport that is connected is closed before the wire rests. -/
theorem Run.exists_closes (hrun : Run settings start log final)
    (hstart : start.mode.isClosed = false) (hfinal : final.mode.isClosed = true) :
    ∃ entry ∈ log, entry.sign = .closes := by
  induction hrun with
  | nil => simp [hstart] at hfinal
  | @cons before after final entry rest hstep hrest ih =>
      have hlater (hafter : after.mode.isClosed = false) :
          ∃ other ∈ entry :: rest, other.sign = .closes := by
        obtain ⟨other, hother, hcloses⟩ := ih hafter hfinal
        exact ⟨other, List.mem_cons_of_mem _ hother, hcloses⟩
      cases hstep with
      | closes | shuts => exact ⟨_, List.mem_cons_self, rfl⟩
      | opens => simp [Mode.isClosed] at hstart
      | starts => exact hlater rfl
      | openEnds | ends =>
          apply hlater
          dsimp only
          split <;> rfl

/-- When the wire rests, every open has been followed by a close. -/
theorem Run.closed (hrun : Run settings start log final) (hfinal : final.mode.isClosed = true)
    {before after : List Entry} {opening : Entry} (hlog : log = before ++ opening :: after)
    (hopens : opening.sign = .opens) : ∃ entry ∈ after, entry.sign = .closes := by
  subst hlog
  obtain ⟨waiting, opened, -, hstep, hafter⟩ := hrun.split
  refine hafter.exists_closes ?_ hfinal
  obtain ⟨time, sign⟩ := opening
  obtain rfl : sign = .opens := hopens
  cases hstep
  rfl

end Wire

/-- A call to close the connection returns, or the scheduler ends. -/
def Transition.Ends (transition : Transition) : Prop :=
  (∃ id, .callReturns id .closed ∈ transition.events) ∨ .schedulerEnds ∈ transition.events

namespace Connection

/-- The states of the link that are heard of on a path. -/
def heardStates (path : List Transition) : List LinkState :=
  linkStates (path.flatMap (·.events))

theorem heardStates_append (path more : List Transition) :
    heardStates (path ++ more) = heardStates path ++ heardStates more := by
  rw [heardStates, List.flatMap_append, linkStates_append, heardStates, heardStates]

theorem heardStates_singleton (transition : Transition) :
    heardStates [transition] = linkStates transition.events := by
  rw [heardStates, List.flatMap_singleton]

variable {settings : ConnectionSettings} {codec : ValueCodec} {declared : List Point}
variable {before after start final : Connection} {path earlier later : List Transition}
variable {action : Action} {events : List Event} {ending : Transition}

/-- Until the link is shut down nobody hears that it is, and then everybody does. -/
theorem Path.notifies (hpath : Path (create settings codec declared).1 path final) :
    (final.link.state ≠ .shutdown ∧ .shutdown ∉ heardStates path) ∨
      (final.traffic.Down ∧
        ∃ states, heardStates path = states ++ [.shutdown] ∧ .shutdown ∉ states) := by
  have hcreate := create_orderly settings codec declared
  refine hpath.history (motive := fun path state =>
    (state.link.state ≠ .shutdown ∧ .shutdown ∉ heardStates path) ∨
      (state.traffic.Down ∧
        ∃ states, heardStates path = states ++ [.shutdown] ∧ .shutdown ∉ states))
    (.inl ⟨by simp [create, Link.ofSettings], by simp [heardStates, linkStates]⟩) ?_
  intro past before action after events hpast hbefore hstep
  have horderly := hpast.orderly hcreate
  have hmove := move_of_step horderly hstep
  rw [heardStates_append, heardStates_singleton]
  rcases hbefore with ⟨hlive, hunheard⟩ | ⟨hdown, states, hheard, hstates⟩
  · rcases hmove.notifies horderly hlive with ⟨hlasts, hmore⟩ | ⟨hdown, states, hheard, hstates⟩
    · exact .inl ⟨hlasts, by simp [hunheard, hmore]⟩
    · refine .inr ⟨hdown, heardStates past ++ states, ?_, by simp [hunheard, hstates]⟩
      rw [hheard, List.append_assoc]
  · obtain ⟨hafter, -, hnothing⟩ := hmove.of_down hdown
    refine .inr ⟨hafter, states, ?_, hstates⟩
    rw [hnothing, List.append_nil, hheard]

/-- Whoever ends the connection shuts the link down. -/
theorem state_of_ends (horderly : before.traffic.Orderly)
    (hstep : before.step action = some (after, events))
    (hends : Transition.Ends ⟨before, action, after, events⟩) : after.link.state = .shutdown := by
  have hshut : before.link.shutdown.1.state = .shutdown := by rw [Link.shutdown_fst]
  rcases hends with ⟨id, hreturns⟩ | hends
  · cases (move_of_step horderly hstep).of_returns hreturns with
    | closed hphase hlink =>
        have hafter : after.link = before.link.shutdown.1 := hlink
        rw [hafter, hshut]
  · have hreport : .schedulerEnds ∈ reports events := List.mem_filter.mpr ⟨hends, rfl⟩
    have hscheduler := scheduler_of_step horderly hstep
    generalize reports events = shown, after.scheduler = next at hreport hscheduler
    cases hscheduler with
    | endScheduler hphase hheld =>
        have hholder : before.linkLock.isHeldBy .scheduler = true := FairLock.isHeldBy_iff.mpr hheld
        simp only [step, runScheduler?, hphase, hholder, if_true, Option.some.injEq] at hstep
        have hafter : after = before.endScheduler.1 := by rw [hstep]
        rw [hafter]
        exact hshut
    | keep | switch | seekSetting | applied | halt | seekShutdown | endTick | beginTick | notDue
    | skip | defer | clear | seekLink | giveUp | poll | read | abort | sample | pass | deliver =>
        simp at hreport
    | fail | conclude => simp at hreport

/-- A link that has been shut down stays so on every path, and nothing passes over the wire. -/
theorem Path.of_down (hpath : Path start path final) (horderly : start.traffic.Orderly)
    (hdown : start.traffic.Down) :
    wireLog path = [] ∧ final.traffic.Down ∧
      ∀ transition ∈ path, transition.before.traffic.Down := by
  induction hpath with
  | nil => exact ⟨rfl, hdown, by simp⟩
  | @cons before _ _ action events rest hstep _ ih =>
      have hmove := move_of_step horderly hstep
      obtain ⟨hafter, hsigns, -⟩ := hmove.of_down hdown
      obtain ⟨hlog, hfinal, hrest⟩ := ih (hmove.orderly horderly) hafter
      refine ⟨?_, hfinal, List.forall_mem_cons.mpr ⟨hdown, hrest⟩⟩
      rw [wireLog, List.flatMap_cons, ← wireLog, hlog, Transition.wire, hsigns,
        Traffic.heard_of_none hdown.transaction]
      rfl

/-- A connection that closes refuses every write, unless it has nothing to write. -/
theorem events_of_write {id : Nat} {device : DeviceId} {writes : List PointWrite}
    (hstep : before.step (.start id (.write device writes)) = some (after, events))
    (hclosing : before.closing = true) (hwrites : writes ≠ []) :
    events = [.callReturns id (.write (.error .closed))] := by
  have hprepare : before.prepareWrite device writes = .error .closed := by
    simp [prepareWrite, hwrites, hclosing]
  have hstart := startCall_of_step hstep
  simp only [startCall, hprepare, Prod.mk.injEq] at hstart
  exact hstart.2

/-- What remains of a connection after its end. -/
structure ShutDown (earlier : List Transition) (ending : Transition) (later : List Transition) :
    Prop where
  /-- The transport has been closed after every time that it was opened. -/
  closed : ∀ before opening after, wireLog (earlier ++ [ending]) = before ++ opening :: after →
    opening.sign = .opens → ∃ entry ∈ after, entry.sign = .closes
  /-- It is never used again. -/
  silent : wireLog later = []
  /-- The last thing that is heard of the link is that it is shut down, and nobody hears it
  twice. -/
  told : ∃ states, heardStates (earlier ++ ending :: later) = states ++ [.shutdown] ∧
    .shutdown ∉ states
  refused : ∀ start ∈ later, ∀ id device writes, start.action = .start id (.write device writes) →
    writes ≠ [] → start.events = [.callReturns id (.write (.error .closed))]

/-- After its end a connection is closed for good. -/
theorem Path.shutDown
    (hpath : Path (create settings codec declared).1 (earlier ++ ending :: later) final)
    (hkept : ∀ id, Action.cancel id ∉ (earlier ++ ending :: later).map (·.action))
    (hends : ending.Ends) : ending.after.traffic.Down ∧ ShutDown earlier ending later := by
  have hcreate := create_orderly settings codec declared
  have hcut : earlier ++ ending :: later = (earlier ++ [ending]) ++ later := by simp
  obtain ⟨hearlier, hstep, hlater⟩ := hpath.split
  have hready := hearlier.orderly hcreate
  have hended : Path (create settings codec declared).1 (earlier ++ [ending]) ending.after :=
    hearlier.append (.cons hstep (.nil _))
  have hstate := state_of_ends hready hstep hends
  have hdown : ending.after.traffic.Down := by
    rcases hended.notifies with ⟨hlive, -⟩ | ⟨hdown, -⟩
    · exact absurd hstate hlive
    · exact hdown
  obtain ⟨hsilent, hfinal, hall⟩ := hlater.of_down (hended.orderly hcreate) hdown
  refine ⟨hdown, ?_, hsilent, ?_, ?_⟩
  · have hcompletes : Completes (earlier ++ [ending]) :=
      completes_of_actions fun id hmem => hkept id (by
        rw [hcut, List.map_append]
        exact List.mem_append_left _ hmem)
    obtain ⟨wire, hrun, hshows⟩ :=
      hended.wire_run hcompletes hcreate (create_shows settings codec declared)
    have hclosed : wire.mode.isClosed = true := by
      cases hshows.fits with
      | closed hmode | shut hmode => rw [hmode]; rfl
      | ready hmode hup | spacing hmode hup | busy hmode hup => simp [hdown.isOpen] at hup
      | opening hmode hclosed request since hsome => simp [hdown.transaction] at hsome
    intro before opening after hlog hopens
    exact hrun.closed hclosed hlog hopens
  · rcases hpath.notifies with ⟨hlive, -⟩ | ⟨-, htold⟩
    · exact absurd hfinal.state hlive
    · exact htold
  · intro start hmem id device writes haction hwrites
    obtain ⟨past, rest, rfl⟩ := List.append_of_mem hmem
    obtain ⟨-, hstart, -⟩ := hlater.split
    rw [haction] at hstart
    exact events_of_write hstart (hall start hmem).closing hwrites

end Connection

end Fieldbus

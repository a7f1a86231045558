import Fieldbus.Proofs.Link.Evolution
import Fieldbus.Proofs.Run.Step

/-!
# The course of a call

The phase of a call changes by its own steps only, and when its transaction or its caller ends it.
Until it is inside the write section a write carries the commands that it was planned with, and it
returns what it has come to at its last phase.
-/

namespace Fieldbus

/-- The commands of a write that is not inside the write section yet. -/
def CallPhase.planned? : CallPhase → Option (List WriteCommand)
  | announcing _ commands | awaitingSection _ commands => some commands
  | posting _ | stopping | awaitingShutdown | attempting _ | awaitingLink _ | transacting _
  | finishing _ => none

def CallPhase.isFinishing : CallPhase → Bool
  | finishing _ => true
  | posting _ | stopping | awaitingShutdown | announcing _ _ | awaitingSection _ _
  | attempting _ | awaitingLink _ | transacting _ => false

/-- What a step does to the call with a number. -/
inductive CallStep (c : Traffic) (action : Action) (after : Traffic) (id : Nat) : Prop where
  | keep (hphase : Calls.phase? after.calls id = Calls.phase? c.calls id)
  | write (device : DeviceId) (writes : List PointWrite) (commands : List WriteCommand)
      (haction : action = .start id (.write device writes)) (hwrites : writes ≠ [])
      (hplan : planWrite c.codec c.points c.settings.link.maxWriteSpan.toNat device writes =
        .ok commands)
      (hphase : Calls.phase? after.calls id = some (.announcing device commands))
  | post (request : Connection.CallRequest) (command : Command)
      (haction : action = .start id request)
      (hrequest : ∀ device writes, request ≠ .write device writes)
      (hphase : Calls.phase? after.calls id = some (.posting command))
  | advance (old new : CallPhase) (hold : Calls.phase? c.calls id = some old)
      (hphase : Calls.phase? after.calls id = some new) (hlive : old.isFinishing = false)
      (hplanned : new.planned? = none ∨ new.planned? = old.planned?)
      (hown : action = .run (.call id) ∨ c.transaction ≠ none)
  | leave (hphase : Calls.phase? after.calls id = none)
      (hown : action = .run (.call id) ∨ action = .cancel id)

namespace CallStep

variable {c after : Traffic} {action : Action} {id other : Nat} {old new : CallPhase}

theorem of_set (hcalls : after.calls = Calls.set other new c.calls)
    (hold : Calls.phase? c.calls other = some old) (hlive : old.isFinishing = false)
    (hplanned : new.planned? = none ∨ new.planned? = old.planned?)
    (hown : action = .run (.call other) ∨ c.transaction ≠ none) :
    CallStep c action after id := by
  by_cases hother : id = other
  · subst hother
    refine .advance old new hold ?_ hlive hplanned hown
    rw [hcalls, Calls.phase?_set (by simp [hold]), Function.update_self]
  · apply keep
    rw [hcalls, Calls.phase?_set_apply, if_neg hother]

theorem of_remove (hcalls : after.calls = Calls.remove other c.calls)
    (hown : action = .run (.call other) ∨ action = .cancel other) :
    CallStep c action after id := by
  by_cases hother : id = other
  · subst hother
    refine .leave ?_ hown
    rw [hcalls, Calls.phase?_remove, Function.update_self]
  · apply keep
    rw [hcalls, Calls.phase?_remove, Function.update_of_ne hother]

end CallStep

namespace Move

variable {c after : Traffic} {action : Action} {events : List Event} {id : Nat}

theorem call_step (hmove : Move c action events after) (id : Nat) :
    CallStep c action after id := by
  cases hmove with
  | elapse | stay | stroll | clear | seekLink | seekSetting | seekShutdown | leaveLink
  | endScheduler | poll | refuse | proceed | endPoll | writeBack => exact .keep rfl
  | @startWrite caller device writes commands hnew hwrites hopen hplan =>
      by_cases hcaller : id = caller
      · subst hcaller
        refine .write device writes commands rfl hwrites hplan ?_
        rw [Calls.phase?_add hnew, Function.update_self]
      · apply CallStep.keep
        rw [Calls.phase?_add hnew, Function.update_of_ne hcaller]
  | @startPosting caller request command closing hnew hrequest =>
      by_cases hcaller : id = caller
      · subst hcaller
        refine .post request command rfl hrequest ?_
        rw [Calls.phase?_add hnew, Function.update_self]
      · apply CallStep.keep
        rw [Calls.phase?_add hnew, Function.update_of_ne hcaller]
  | announce hphase => exact .of_set rfl hphase rfl (.inr rfl) (.inl rfl)
  | postClose hphase | callSeekShutdown hphase | enterSection hphase | finish hphase
  | callSeekLink hphase | callLeaveLink hphase | attempt hphase =>
      exact .of_set rfl hphase rfl (.inl rfl) (.inl rfl)
  | refuseAttempt hphase =>
      exact .of_set rfl hphase rfl
        (.inl (WriteJob.apply_afterFailure CallPhase.planned? (fun _ => rfl) fun _ => rfl))
        (.inl rfl)
  | store htransaction hphase | misfit htransaction hphase =>
      exact .of_set rfl hphase rfl (.inl rfl) (.inr (by simp [htransaction]))
  | fail htransaction hphase =>
      exact .of_set rfl hphase rfl
        (.inl (WriteJob.apply_afterFailure CallPhase.planned? (fun _ => rfl) fun _ => rfl))
        (.inr (by simp [htransaction]))
  | endSetting | callShutdown | «return» => exact .of_remove rfl (.inl rfl)
  | cancel => exact .of_remove rfl (.inr rfl)

/-- The commands of a write outside the section are those of its plan. -/
theorem planned (hmove : Move c action events after) {phase : CallPhase}
    {commands : List WriteCommand} (hphase : Calls.phase? after.calls id = some phase)
    (hplanned : phase.planned? = some commands) :
    (∃ old, Calls.phase? c.calls id = some old ∧ old.planned? = some commands) ∨
      ∃ device writes, action = .start id (.write device writes) ∧
        planWrite c.codec c.points c.settings.link.maxWriteSpan.toNat device writes =
          .ok commands := by
  cases hmove.call_step id with
  | keep hsame => exact .inl ⟨phase, hsame ▸ hphase, hplanned⟩
  | write device writes listed haction hwrites hplan hnow =>
      obtain rfl := Option.some.inj (hphase.symm.trans hnow)
      obtain rfl := Option.some.inj hplanned
      exact .inr ⟨device, writes, haction, hplan⟩
  | post request command haction hrequest hnow =>
      obtain rfl := Option.some.inj (hphase.symm.trans hnow)
      simp [CallPhase.planned?] at hplanned
  | advance old new hold hnow hlive hsame =>
      obtain rfl := Option.some.inj (hphase.symm.trans hnow)
      rcases hsame with hnone | hsame
      · simp [hnone] at hplanned
      · exact .inl ⟨old, hold, hsame.symm.trans hplanned⟩
  | leave hnone => simp [hnone] at hphase

/-- A call comes from its start. -/
theorem present (hmove : Move c action events after)
    (hpresent : Calls.phase? after.calls id ≠ none)
    (hstart : ∀ request, action ≠ .start id request) : Calls.phase? c.calls id ≠ none := by
  cases hmove.call_step id with
  | keep hsame => rwa [← hsame]
  | write device writes commands haction => exact absurd haction (hstart _)
  | post request command haction => exact absurd haction (hstart _)
  | advance old new hold => simp [hold]
  | leave hnone => exact absurd hnone hpresent

/-- What a write has come to does not change any more. -/
theorem finishing (hmove : Move c action events after) {result : Except WriteError Unit}
    (hresult : Calls.phase? c.calls id = some (.finishing result))
    (hpresent : Calls.phase? after.calls id ≠ none)
    (hstart : ∀ request, action ≠ .start id request) :
    Calls.phase? after.calls id = some (.finishing result) := by
  cases hmove.call_step id with
  | keep hsame => rw [hsame, hresult]
  | write device writes commands haction => exact absurd haction (hstart _)
  | post request command haction => exact absurd haction (hstart _)
  | advance old new hold hnow hlive =>
      obtain rfl := Option.some.inj (hresult.symm.trans hold)
      simp [CallPhase.isFinishing] at hlive
  | leave hnone => exact absurd hnone hpresent

/-- A write that is not refused carries the commands of its plan. -/
theorem plan_of_start (hmove : Move c action events after) {device : DeviceId}
    {writes : List PointWrite} (haction : action = .start id (.write device writes))
    (hnew : Calls.phase? c.calls id = none) (hpresent : Calls.phase? after.calls id ≠ none) :
    ∃ commands, planWrite c.codec c.points c.settings.link.maxWriteSpan.toNat device writes =
        .ok commands ∧ Calls.phase? after.calls id = some (.announcing device commands) := by
  cases hmove.call_step id with
  | keep hsame => exact absurd (hsame.trans hnew) hpresent
  | write other listed commands hstart hwrites hplan hphase =>
      obtain ⟨-, hrequest⟩ := Action.start.inj (haction.symm.trans hstart)
      obtain ⟨rfl, rfl⟩ := Connection.CallRequest.write.inj hrequest
      exact ⟨commands, hplan, hphase⟩
  | post request command hstart hrequest =>
      obtain ⟨-, hwrite⟩ := Action.start.inj (haction.symm.trans hstart)
      exact absurd hwrite.symm (hrequest device writes)
  | advance old new hold => simp [hnew] at hold
  | leave hnone => exact absurd hnone hpresent

end Move

deriving instance DecidableEq for CallResult

def Event.returned? : Event → Option (Nat × CallResult)
  | callReturns id result => some (id, result)
  | transportOpens | exchangeStarts _ | transportCloses | linkChanges _ | sampled _
  | deviceOnline _ | deviceOffline _ | tickEnds _ | schedulerEnds | noticed _ => none

/-- The calls that return, with their results. -/
def returned (events : List Event) : List (Nat × CallResult) := events.filterMap Event.returned?

theorem mem_returned {events : List Event} {result : CallResult} {id : Nat} :
    (id, result) ∈ returned events ↔ .callReturns id result ∈ events := by
  rw [returned, List.mem_filterMap]
  constructor
  · rintro ⟨event, hevent, hreturned⟩
    cases event with
    | callReturns other found =>
        obtain ⟨rfl, rfl⟩ := Prod.mk.inj (Option.some.inj hreturned)
        exact hevent
    | _ => simp [Event.returned?] at hreturned
  · exact fun hevent => ⟨_, hevent, rfl⟩

theorem returned_append (events more : List Event) :
    returned (events ++ more) = returned events ++ returned more :=
  List.filterMap_append

theorem Quiet.returned_eq_nil {events : List Event} (hquiet : Quiet events) :
    returned events = [] := by
  rw [returned, List.filterMap_eq_nil_iff]
  intro event hevent
  have hsilent := hquiet event hevent
  cases event <;> first | rfl | simp [Event.isQuiet] at hsilent

/-- What a link shows is not about calls. -/
theorem OfLink.returned_eq_nil {events : List Event} (hshown : OfLink events) :
    returned events = [] := by
  rw [returned, List.filterMap_eq_nil_iff]
  intro event hevent
  have hlink := hshown event hevent
  cases event <;> first | rfl | simp [Event.isOfLink] at hlink

/-- Why a call returns. -/
inductive CallReturn (c after : Traffic) (id : Nat) : Action → CallResult → Prop where
  /-- It is a write that is refused at once. -/
  | refused {device : DeviceId} {writes : List PointWrite} {error : WriteError} :
      CallReturn c after id (.start id (.write device writes)) (.write (.error error))
  | setting {setting : Setting} {result : Except SettingError Unit}
      (hphase : Calls.phase? c.calls id = some (.posting (.set setting))) :
      CallReturn c after id (.run (.call id)) (.setting result)
  | closed (hphase : Calls.phase? c.calls id = some .awaitingShutdown)
      (hlink : after.link = c.link.shutdown.1) : CallReturn c after id (.run (.call id)) .closed
  | write {result : Except WriteError Unit}
      (hphase : Calls.phase? c.calls id = some (.finishing result)) :
      CallReturn c after id (.run (.call id)) (.write result)

namespace Move

variable {c after : Traffic} {action : Action} {events : List Event} {id : Nat}

/-- A call returns what it has come to, unless it is a write that is refused. -/
theorem of_returns (hmove : Move c action events after) {result : CallResult}
    (hreturns : .callReturns id result ∈ events) : CallReturn c after id action result := by
  rw [← mem_returned] at hreturns
  have hsilent : returned events = [] → False := by
    intro hnone
    simp [hnone] at hreturns
  cases hmove with
  | elapse | seekLink | seekSetting | seekShutdown | startWrite | startPosting | postClose
  | callSeekShutdown | announce | finish | callSeekLink | callLeaveLink | cancel =>
      exact (hsilent rfl).elim
  | stay haction hquiet => exact (hsilent hquiet.returned_eq_nil).elim
  | stroll haction hphase hnext hquiet => exact (hsilent hquiet.returned_eq_nil).elim
  | clear hphase hopen hrest hquiet | leaveLink hphase hheld hnext hquiet
  | enterSection hphase hheld hquiet => exact (hsilent hquiet.returned_eq_nil).elim
  | refuseAttempt hphase hheld hopen hjob hinvalid hquiet =>
      exact (hsilent hquiet.returned_eq_nil).elim
  | endScheduler hphase hheld hquiet =>
      refine (hsilent ?_).elim
      rw [returned_append, (Link.ofLink_shutdown _).returned_eq_nil, hquiet.returned_eq_nil]
      rfl
  | poll hphase hheld hopen hread hbegin | attempt hphase hheld hopen hjob hbegin =>
      exact (hsilent (Link.evolves_begin hbegin).ofLink.returned_eq_nil).elim
  | refuse hnew =>
      obtain ⟨rfl, rfl⟩ : id = _ ∧ result = _ := by
        simpa [returned, Event.returned?] using hreturns
      exact .refused
  | endSetting hphase =>
      obtain ⟨rfl, rfl⟩ : id = _ ∧ result = _ := by
        simpa [returned, Event.returned?] using hreturns
      exact .setting hphase
  | callShutdown hphase hheld =>
      rw [returned_append, (Link.ofLink_shutdown _).returned_eq_nil] at hreturns
      obtain ⟨rfl, rfl⟩ : id = _ ∧ result = _ := by
        simpa [returned, Event.returned?] using hreturns
      exact .closed hphase rfl
  | «return» hphase =>
      obtain ⟨rfl, rfl⟩ : id = _ ∧ result = _ := by
        simpa [returned, Event.returned?] using hreturns
      exact .write hphase
  | proceed htransaction hturn | store htransaction hphase hjob hturn
  | misfit htransaction hphase hturn =>
      exact (hsilent hturn.evolves.ofLink.returned_eq_nil).elim
  | endPoll htransaction hphase hturn hnext hquiet
  | fail htransaction hphase hjob hturn hfails hquiet =>
      refine (hsilent ?_).elim
      rw [returned_append, hturn.evolves.ofLink.returned_eq_nil, hquiet.returned_eq_nil]
      rfl
  | writeBack htransaction hphase hjob hfield hturn hencode hbegin =>
      have hevolves := hturn.evolves.trans (Link.evolves_begin hbegin)
      exact (hsilent hevolves.ofLink.returned_eq_nil).elim

/-- A write that succeeds has come to that before. -/
theorem finishing_of_returns (hmove : Move c action events after)
    (hreturns : .callReturns id (.write (.ok ())) ∈ events) :
    Calls.phase? c.calls id = some (.finishing (.ok ())) := by
  cases hmove.of_returns hreturns with
  | write hphase => exact hphase

end Move

namespace Connection

variable {before after : Connection} {events : List Event} {id : Nat}

/-- A call starts with a new number. -/
theorem phase?_of_start {request : CallRequest}
    (hstep : before.step (.start id request) = some (after, events)) :
    Calls.phase? before.calls id = none := by
  generalize (after, events) = outcome at hstep
  cases turn_of_step hstep with
  | start _ _ hnew => exact hnew
  | answer haction => cases haction

/-- A write that is refused at once leaves everything as it was. -/
theorem refused_of_start {device : DeviceId} {writes : List PointWrite} {refusal : WriteError}
    (hstep : before.step (.start id (.write device writes)) = some (after, events))
    (hreturns : .callReturns id (.write (.error refusal)) ∈ events) :
    before.prepareWrite device writes = .error refusal ∧ after = before ∧
      events = [.callReturns id (.write (.error refusal))] := by
  have hstart := startCall_of_step hstep
  simp only [startCall] at hstart
  cases hprepare : before.prepareWrite device writes with
  | ok commands =>
      simp only [hprepare, Prod.mk.injEq] at hstart
      simp [hstart.2] at hreturns
  | error found =>
      simp only [hprepare, Prod.mk.injEq] at hstart
      obtain ⟨rfl, rfl⟩ := hstart
      obtain rfl : refusal = found := by simpa using hreturns
      exact ⟨rfl, rfl, rfl⟩

/-- A cancelled call is gone. -/
theorem phase?_of_cancel (hstep : before.step (.cancel id) = some (after, events)) :
    Calls.phase? after.calls id = none := by
  generalize houtcome : (after, events) = outcome at hstep
  obtain rfl : outcome.1 = after := by rw [← houtcome]
  cases turn_of_step hstep with
  | @cancel _ phase =>
      have hcalls : (before.cancelCall ⟨id, phase⟩).calls = Calls.remove id before.calls := rfl
      rw [hcalls, Calls.phase?_remove, Function.update_self]
  | answer haction => cases haction

/-- What a connection makes of a write. -/
def plan (connection : Connection) (device : DeviceId) (writes : List PointWrite) :
    Except WriteError (List WriteCommand) :=
  planWrite connection.codec connection.points connection.settings.link.maxWriteSpan.toNat device
    writes

variable {start final : Connection} {path : List Transition}

theorem Path.plan_eq (hpath : Path start path final) (horderly : start.traffic.Orderly) :
    final.plan = start.plan := by
  funext device writes
  rw [plan, plan, hpath.codec_eq horderly, hpath.points_eq horderly, hpath.settings_eq horderly]

/-- A call that is there has been there since its start. -/
theorem Path.present (hpath : Path start path final) (horderly : start.traffic.Orderly)
    (hsame : ∀ transition ∈ path, ∀ request, transition.action ≠ .start id request)
    (hpresent : Calls.phase? final.calls id ≠ none) : Calls.phase? start.calls id ≠ none := by
  induction hpath with
  | nil => exact hpresent
  | cons hstep _ ih =>
      have hmove := move_of_step horderly hstep
      have hlater := ih (hmove.orderly horderly)
        (fun transition hmem => hsame transition (List.mem_cons_of_mem _ hmem)) hpresent
      exact hmove.present hlater (hsame _ List.mem_cons_self)

/-- A write outside the write section has been called for, and its commands are those of its
plan. -/
theorem Path.exists_start {phase : CallPhase} {commands : List WriteCommand}
    (hpath : Path start path final) (horderly : start.traffic.Orderly) (hfresh : start.calls = [])
    (hphase : Calls.phase? final.calls id = some phase)
    (hplanned : phase.planned? = some commands) :
    ∃ transition ∈ path, ∃ device writes, transition.action = .start id (.write device writes) ∧
      start.plan device writes = .ok commands := by
  refine hpath.history (motive := fun path state => ∀ phase,
    Calls.phase? state.calls id = some phase → phase.planned? = some commands →
      ∃ transition ∈ path, ∃ device writes,
        transition.action = .start id (.write device writes) ∧
          start.plan device writes = .ok commands)
    (fun phase hnew => by simp [hfresh, Calls.phase?] at hnew)
    (fun past before action after events hpast hbefore hstep phase hafter hlisted => ?_)
    phase hphase hplanned
  rcases (move_of_step (hpast.orderly horderly) hstep).planned hafter hlisted with
    ⟨old, hold, hsame⟩ | ⟨device, writes, rfl, hplan⟩
  · obtain ⟨transition, hmem, hstarted⟩ := hbefore old hold hsame
    exact ⟨transition, List.mem_append_left _ hmem, hstarted⟩
  · refine ⟨_, List.mem_append_right _ List.mem_cons_self, device, writes, rfl, ?_⟩
    rw [← hpast.plan_eq horderly]
    exact hplan

end Connection

end Fieldbus

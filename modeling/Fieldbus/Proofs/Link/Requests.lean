import Fieldbus.Proofs.Polling.Rounds
import Fieldbus.Proofs.Run.Phases
import Fieldbus.Proofs.Write.Requests

/-!
# Requests to the link

The scheduler hands reads of its groups to the link, and a call the requests of its commands.  All
of them are valid, and the writes among them stay within the points that their caller has named.  So
a poll or a write is never refused as a bad request, unless the transport itself says so.
-/

namespace Fieldbus

open Codec

/-- With this action an actor that holds the link begins a transaction. -/
inductive Connection.Hands (c : Connection) : Action → Actor → Request → Prop where
  | poll {tick : Tick} {group : PollGroup} (hphase : c.scheduler.phase = .awaitingLink tick)
      (hheld : c.linkLock.holder = some .scheduler) (hopen : c.closing = false)
      (hgroup : c.group? tick.next = some group) :
      Hands c (.run .scheduler) .scheduler (.read group.readRequest)
  | attempt {id : Nat} {job : WriteJob} {command : WriteCommand} {rest : List WriteCommand}
      (hphase : Calls.phase? c.calls id = some (.awaitingLink job))
      (hheld : c.linkLock.holder = some (.call id)) (hopen : c.closing = false)
      (hjob : job.commands = command :: rest) :
      Hands c (.run (.call id)) (.call id) command.firstRequest
  /-- The register of a bit field has been read, and the value goes into it. -/
  | writeBack {action : Action} {id : Nat} {job : WriteJob} {command : WriteCommand}
      {rest : List WriteCommand} {point : Point} {value : PointValue} {read : ReadRequest}
      {current : UInt16} {others : List UInt16} {values : WireValues}
      (hphase : Calls.phase? c.calls id = some (.transacting job))
      (hjob : job.commands = command :: rest) (hfield : command.field = some (point, value))
      (hverdict : c.traffic.verdict? action =
        some (.read read, .ok (.registers (current :: others))))
      (hencode : c.codec.encode point value (some current) = .ok values) :
      Hands c action (.call id) (.write (command.writeRequest values))

/-- No transaction is under way that has not been handed to the link. -/
theorem Move.transaction_origin {c : Connection} {after : Traffic} {action : Action}
    {events : List Event} {request : Request} {stage : Stage}
    (hmove : Move c.traffic action events after)
    (hafter : after.transaction = some ⟨request, stage⟩) :
    (∃ old, c.transaction = some ⟨request, old⟩) ∨ ∃ actor, c.Hands action actor request := by
  cases hmove.transaction_step with
  | keep haction hsame => exact .inl ⟨stage, hsame _ hafter⟩
  | finish hnone => simp [hnone] at hafter
  | proceed hbefore hturn hphase hcalls hnow =>
      obtain ⟨rfl, -⟩ := Transaction.mk.inj (Option.some.inj (hafter.symm.trans hnow))
      exact .inl ⟨_, hbefore⟩
  | poll haction hphase hheld hopen hread hbegin hpolling hnow =>
      obtain ⟨rfl, -⟩ := Transaction.mk.inj (Option.some.inj (hafter.symm.trans hnow))
      obtain ⟨group, hgroup, rfl⟩ := Option.map_eq_some_iff.mp hread
      subst haction
      exact .inr ⟨.scheduler, .poll hphase hheld hopen hgroup⟩
  | attempt haction hphase hheld hopen hjob hbegin hattempts hnow =>
      obtain ⟨rfl, -⟩ := Transaction.mk.inj (Option.some.inj (hafter.symm.trans hnow))
      subst haction
      exact .inr ⟨.call _, .attempt hphase hheld hopen hjob⟩
  | writeBack hbefore hphase hjob hfield hturn hencode hcalls hnow =>
      obtain ⟨rfl, -⟩ := Transaction.mk.inj (Option.some.inj (hafter.symm.trans hnow))
      exact .inr ⟨.call _, .writeBack hphase hjob hfield (hturn.verdict_ok hbefore) hencode⟩

/-- The commands that a write still has to make. -/
def CallPhase.commands : CallPhase → List WriteCommand
  | announcing _ commands | awaitingSection _ commands => commands
  | attempting job | awaitingLink job | transacting job => job.commands
  | posting _ | stopping | awaitingShutdown | finishing _ => []

theorem WriteJob.commands_afterFailure_subset (attempts : Nat) (command : WriteCommand)
    (error : RequestError) (job : WriteJob) :
    (job.afterFailure attempts command error).commands ⊆ job.commands := by
  rcases job.afterFailure_cases attempts command error with hnext | ⟨failure, hnext, -⟩
  · rw [hnext]
    exact List.Subset.refl _
  · rw [hnext]
    exact List.nil_subset _

/-- A call never gets another command than those it has. -/
theorem Move.commands_subset {c after : Traffic} {action : Action} {events : List Event} {id : Nat}
    {old phase : CallPhase} (hmove : Move c action events after)
    (hold : Calls.phase? c.calls id = some old)
    (hphase : Calls.phase? after.calls id = some phase) : phase.commands ⊆ old.commands := by
  have hsame (hunchanged : phase = old) : phase.commands ⊆ old.commands := by
    rw [hunchanged]
    exact List.Subset.refl _
  have hkeep (hcalls : after.calls = c.calls) : phase.commands ⊆ old.commands := by
    rw [hcalls, hold] at hphase
    exact hsame (Option.some.inj hphase).symm
  have hset {other : Nat} {before new : CallPhase}
      (hcalls : after.calls = Calls.set other new c.calls)
      (hbefore : Calls.phase? c.calls other = some before)
      (hsubset : new.commands ⊆ before.commands) : phase.commands ⊆ old.commands := by
    rcases Calls.set_cases hbefore hold (hcalls ▸ hphase) with ⟨-, hunchanged⟩ | ⟨-, rfl, rfl⟩
    · exact hsame hunchanged
    · exact hsubset
  have hremove {other : Nat} (hcalls : after.calls = Calls.remove other c.calls) :
      phase.commands ⊆ old.commands := hsame (Calls.remove_cases hold (hcalls ▸ hphase)).2
  have hadd {other : Nat} {new : CallPhase} (hcalls : after.calls = Calls.add other new c.calls)
      (hnew : Calls.phase? c.calls other = none) : phase.commands ⊆ old.commands :=
    hsame (Calls.add_cases hnew hold (hcalls ▸ hphase))
  cases hmove with
  | elapse | stay | stroll | clear | seekLink | seekSetting | seekShutdown | leaveLink
  | endScheduler | poll | refuse | proceed | endPoll | writeBack => exact hkeep rfl
  | startWrite hnew | startPosting hnew => exact hadd rfl hnew
  | endSetting | callShutdown | «return» | cancel => exact hremove rfl
  | announce hbefore | enterSection hbefore | callSeekLink hbefore | attempt hbefore =>
      exact hset rfl hbefore (List.Subset.refl _)
  | postClose hbefore | callSeekShutdown hbefore | finish hbefore | callLeaveLink hbefore =>
      exact hset rfl hbefore (List.nil_subset _)
  | misfit htransaction hbefore => exact hset rfl hbefore (List.nil_subset _)
  | store htransaction hbefore hjob =>
      refine hset rfl hbefore ?_
      rw [CallPhase.commands, CallPhase.commands, hjob]
      exact List.subset_cons_self _ _
  | refuseAttempt hbefore =>
      exact hset rfl hbefore (WriteJob.commands_afterFailure_subset _ _ _ _)
  | fail htransaction hbefore =>
      exact hset rfl hbefore (WriteJob.commands_afterFailure_subset _ _ _ _)

/-- The transport itself answers the exchange of this user of the link that the request is bad. -/
structure Transition.Rejects (actor : Actor) (error : InvalidRequest) (transition : Transition) :
    Prop where
  action : transition.action = .exchangeDone (.error (.badRequest error))
  held : transition.before.linkLock.holder = some actor

theorem Link.isOpenFailure_of_opened {link : Link} {now : Instant} {request : Request}
    {result : Except RequestError Unit} {error : RequestError}
    (hfinished : (link.opened now request result).2.2 = .finished (.error error)) :
    error.isOpenFailure = true := by
  cases result with
  | ok _ =>
      obtain ⟨changing, -, hresult⟩ := link.opened_ok now request
      rw [hresult] at hfinished
      rcases space_cases now request { link with isOpen := true, state := .opened } with
        ⟨stop, -, hspace⟩ | ⟨sent, hspace, -, -⟩
      · simp [hspace] at hfinished
      · simp [hspace] at hfinished
  | error cause =>
      cases hcause : cause.isOpenFailure with
      | true =>
          simp only [opened, hcause, if_true, conclude_progress, Progress.finished.injEq,
            Except.error.injEq] at hfinished
          exact hfinished ▸ hcause
      | false =>
          simp only [opened, hcause, Bool.false_eq_true, if_false, conclude_progress,
            Progress.finished.injEq, Except.error.injEq] at hfinished
          rw [← hfinished]
          rfl

theorem Request.verdict_eq_badRequest {request : Request} {answer : Except RequestError Response}
    {error : InvalidRequest} (hverdict : request.verdict answer = .error (.badRequest error)) :
    answer = .error (.badRequest error) := by
  cases answer with
  | error cause => exact hverdict
  | ok response =>
      rw [verdict] at hverdict
      simp only [bind, Except.bind] at hverdict
      split at hverdict
      · cases hverdict
      · cases hverdict

theorem Action.eq_exchangeDone {action : Action} {error : InvalidRequest}
    (hresult : action.exchangeResult? = some (.error (.badRequest error))) :
    action = .exchangeDone (.error (.badRequest error)) := by
  cases action <;> simp_all [exchangeResult?]

/-- A transaction that has begun ends with a bad request only if the transport says so. -/
theorem Link.Turn.eq_exchangeDone {link after : Link} {now : Instant} {transaction : Transaction}
    {action : Action} {events : List Event} {error : InvalidRequest}
    (hturn : link.Turn now transaction action
      (after, events, .finished (.error (.badRequest error)))) :
    action = .exchangeDone (.error (.badRequest error)) := by
  generalize houtcome : (after, events, Progress.finished (.error (.badRequest error))) = outcome
    at hturn
  cases hturn with
  | @opens request since action result haction =>
      have hfailure := link.isOpenFailure_of_opened (congrArg (·.2.2) houtcome).symm
      simp [RequestError.isOpenFailure] at hfailure
  | spaced hdue => simp [beginExchange] at houtcome
  | @exchanges request since action answer haction =>
      obtain ⟨shown, hresult, -⟩ := link.exchanged_eq now request answer
      rw [hresult] at houtcome
      simp only [Prod.mk.injEq, Progress.finished.injEq] at houtcome
      rw [Request.verdict_eq_badRequest houtcome.2.2.symm] at haction
      exact Action.eq_exchangeDone haction

theorem WriteJob.eq_badRequest_of_afterFailure {attempts : Nat} {command : WriteCommand}
    {cause : RequestError} {job : WriteJob} {range : AddressRange} {error : InvalidRequest}
    (hfinishing : job.afterFailure attempts command cause =
      .finishing (.error (.request range (.badRequest error)))) : cause = .badRequest error := by
  rcases job.afterFailure_cases attempts command cause with hnext | ⟨failure, hnext, hfailure⟩
  · simp [hnext] at hfinishing
  · obtain rfl := Except.error.inj (CallPhase.finishing.inj (hnext.symm.trans hfinishing))
    rcases hfailure with hclosed | hrequest
    · cases hclosed
    · exact (WriteError.request.inj hrequest).2.symm

/-- An attempt fails with a bad request if the link refuses its request, or if the transport
does. -/
theorem Connection.refusal_of_move {c : Connection} {after : Traffic} {action : Action}
    {events : List Event} {id : Nat} {range : AddressRange} {error : InvalidRequest}
    (hmove : Move c.traffic action events after) (horderly : c.traffic.Orderly)
    (hphase : Calls.phase? after.calls id =
      some (.finishing (.error (.request range (.badRequest error))))) :
    Calls.phase? c.calls id = some (.finishing (.error (.request range (.badRequest error)))) ∨
      (∃ request, c.Hands action (.call id) request ∧ request.validate = .error error) ∨
      action = .exchangeDone (.error (.badRequest error)) ∧
        c.linkLock.holder = some (.call id) := by
  have hset {other : Nat} {new : CallPhase} (hcalls : after.calls = Calls.set other new c.calls)
      (hnew : ∀ range error, new ≠ .finishing (.error (.request range (.badRequest error)))) :
      Calls.phase? c.calls id =
        some (.finishing (.error (.request range (.badRequest error)))) :=
    Calls.phase?_of_set (hnew range error) (hcalls ▸ hphase)
  cases hmove with
  | elapse | stay | stroll | clear | seekLink | seekSetting | seekShutdown | leaveLink
  | endScheduler | poll | refuse | proceed | endPoll | writeBack => exact .inl hphase
  | startWrite hnew | startPosting hnew => exact .inl (Calls.phase?_of_add hnew (by simp) hphase)
  | endSetting | callShutdown | «return» | cancel => exact .inl (Calls.phase?_of_remove hphase)
  | postClose | callSeekShutdown | announce | enterSection | callSeekLink | attempt | store
  | misfit => exact .inl (hset rfl (by simp))
  | finish hbefore hresult | callLeaveLink hbefore hheld hresult =>
      refine .inl (hset rfl fun range error hrefused => ?_)
      rcases hresult with ⟨-, rfl⟩ | ⟨-, rfl⟩ <;> simp at hrefused
  | @refuseAttempt caller _ job command rest cause hbefore hheld hopen hjob hinvalid =>
      rw [Calls.phase?_set_apply] at hphase
      split at hphase
      · next hsame =>
          subst hsame
          obtain ⟨-, -, hfinishing⟩ := Option.map_eq_some_iff.mp hphase
          have hcause := RequestError.badRequest.inj
            (WriteJob.eq_badRequest_of_afterFailure hfinishing)
          exact .inr (.inl ⟨_, .attempt hbefore hheld hopen hjob, hcause ▸ hinvalid⟩)
      · exact .inl hphase
  | @fail caller _ _ _ transaction _ result job command rest cause htransaction hbefore hjob hturn
      hfails hquiet =>
      rw [Calls.phase?_set_apply] at hphase
      split at hphase
      · next hsame =>
          subst hsame
          obtain ⟨-, -, hfinishing⟩ := Option.map_eq_some_iff.mp hphase
          obtain rfl := WriteJob.eq_badRequest_of_afterFailure hfinishing
          obtain ⟨request, stage⟩ := transaction
          cases hfails with
          | transaction hresult =>
              exact .inr (.inr ⟨(hresult ▸ hturn).eq_exchangeDone,
                horderly.held_of_transacting hbefore⟩)
          | store hread hfield hresult hencode hinvalid =>
              obtain rfl : request = .read _ := hread
              have hverdict := (hresult ▸ hturn).verdict_ok htransaction
              exact .inr (.inl ⟨_, .writeBack hbefore hjob hfield hverdict hencode, hinvalid⟩)
      · exact .inl hphase

namespace Connection

/-- The last call with the number makes this request, and then comes the rest of the path. -/
structure Makes (id : Nat) (request : CallRequest) (path since : List Transition) : Prop where
  cut : ∃ earlier call, path = earlier ++ call :: since ∧ call.action = .start id request
  last : ∀ transition ∈ since, ∀ other, transition.action ≠ .start id other

theorem makes_of_start {id : Nat} {request : CallRequest} {call : Transition}
    (haction : call.action = .start id request) (path : List Transition) :
    Makes id request (path ++ [call]) [] :=
  ⟨⟨path, call, rfl, haction⟩, by simp⟩

theorem Makes.concat {id : Nat} {request : CallRequest} {path since : List Transition}
    {transition : Transition} (hmakes : Makes id request path since)
    (hother : ∀ other, transition.action ≠ .start id other) :
    Makes id request (path ++ [transition]) (since ++ [transition]) := by
  obtain ⟨earlier, call, rfl, haction⟩ := hmakes.cut
  refine ⟨⟨earlier, call, by simp, haction⟩, fun other hmem => ?_⟩
  rcases List.mem_append.mp hmem with hbefore | hlast
  · exact hmakes.last other hbefore
  · rwa [List.mem_singleton.mp hlast]

/-- What a call has come to since it was made.  It makes the commands of its plan and no others, and
no attempt has failed for a bad request unless the transport has said so. -/
structure Account (plan : DeviceId → List PointWrite → Except WriteError (List WriteCommand))
    (id : Nat) (request : CallRequest) (since : List Transition) (phase : CallPhase) : Prop where
  commands : ∀ command ∈ phase.commands, ∃ device writes planned,
    request = .write device writes ∧ plan device writes = .ok planned ∧ command ∈ planned
  refusal : ∀ range error,
    phase = .finishing (.error (.request range (.badRequest error))) →
      ∃ transition ∈ since, transition.Rejects (.call id) error

/-- A call that starts has the commands of its plan. -/
theorem Account.of_start
    {plan : DeviceId → List PointWrite → Except WriteError (List WriteCommand)} {c after : Traffic}
    {id : Nat} {request : CallRequest} {phase : CallPhase}
    (hstep : CallStep c (.start id request) after id) (hnew : Calls.phase? c.calls id = none)
    (hphase : Calls.phase? after.calls id = some phase)
    (hplan : ∀ device writes commands, planWrite c.codec c.points
      c.settings.link.maxWriteSpan.toNat device writes = .ok commands →
        plan device writes = .ok commands) : Account plan id request [] phase := by
  cases hstep with
  | keep hsame => simp [hsame, hnew] at hphase
  | write device writes planned haction hwrites hplanned hnow =>
      obtain rfl := Option.some.inj (hphase.symm.trans hnow)
      obtain ⟨-, rfl⟩ := Action.start.inj haction
      exact ⟨fun command hmem => ⟨device, writes, planned, rfl, hplan _ _ _ hplanned, hmem⟩,
        by simp⟩
  | post other command haction hrequest hnow =>
      obtain rfl := Option.some.inj (hphase.symm.trans hnow)
      exact ⟨by simp [CallPhase.commands], by simp⟩
  | advance old new hold => simp [hnew] at hold
  | leave hnone => simp [hphase] at hnone

variable {start final : Connection} {path : List Transition} {c : Connection} {action : Action}
variable {actor : Actor} {request : Request} {id : Nat} {maxSpan : Nat} {named : List Point}

/-! ## What is handed over is proper -/

/-- A poll reads the block of its group. -/
theorem Hands.proper_of_poll (hhands : c.Hands action .scheduler request)
    (hgroups : ∀ group ∈ c.scheduler.groups, group.range.Valid) :
    request.Proper ∧ ∃ read, request = .read read := by
  cases hhands with
  | poll hphase hheld hopen hgroup =>
      have hvalid := hgroups _ (List.mem_of_getElem? hgroup)
      exact ⟨⟨rfl, _, rfl, hvalid⟩, _, rfl⟩

/-- A call makes requests for its commands. -/
theorem Hands.proper_of_call (hhands : c.Hands action (.call id) request)
    (hcodec : c.codec = registerCodec) (hspan : maxSpan < UInt16.size)
    (hserves : ∀ phase, Calls.phase? c.calls id = some phase →
      ∀ command ∈ phase.commands, command.Serves maxSpan named) :
    request.Proper ∧ ∀ write, request = .write write → write.Serves maxSpan named := by
  cases hhands with
  | @attempt _ job command rest hphase hheld hopen hjob =>
      have hcommand : command.Serves maxSpan named :=
        hserves _ hphase command (by simp [CallPhase.commands, hjob])
      exact hcommand.firstRequest hspan
  | @writeBack _ _ job command rest point value read current others values hphase hjob hfield
      hverdict hencode =>
      have hcommand : command.Serves maxSpan named :=
        hserves _ hphase command (by simp [CallPhase.commands, hjob])
      rw [hcodec] at hencode
      have hwrite := hcommand.writeBack hspan hfield hencode
      refine ⟨hwrite.proper, fun write hsame => ?_⟩
      obtain rfl := Request.write.inj hsame
      exact hwrite

/-- The blocks of the groups of a new connection stay as they are. -/
theorem Path.range_valid {settings : ConnectionSettings} {codec : ValueCodec}
    {declared : List Point} (hpath : Path (create settings codec declared).1 path final) :
    ∀ group ∈ final.scheduler.groups, group.range.Valid := by
  intro group hgroup
  have htasks := hpath.tasks_eq (create_orderly settings codec declared)
  have htask : group.task ∈ final.scheduler.groups.map PollGroup.task :=
    List.mem_map_of_mem hgroup
  rw [htasks] at htask
  obtain ⟨built, hbuilt, hsame⟩ := List.mem_map.mp htask
  have hrange : built.task.range = group.task.range := by rw [hsame]
  have hvalid : built.task.range.Valid := (covers_of_mem_buildGroups hbuilt).valid
  rwa [hrange] at hvalid

theorem Hands.exists_command (hhands : c.Hands action (.call id) request) :
    ∃ phase command, Calls.phase? c.calls id = some phase ∧ command ∈ phase.commands := by
  cases hhands with
  | @attempt _ job command rest hphase hheld hopen hjob =>
      exact ⟨.awaitingLink job, command, hphase, by simp [CallPhase.commands, hjob]⟩
  | @writeBack _ _ job command rest _ _ _ _ _ _ hphase hjob =>
      exact ⟨.transacting job, command, hphase, by simp [CallPhase.commands, hjob]⟩

/-- A write that accounts for its commands makes proper requests. -/
theorem Hands.proper_of_account {settings : ConnectionSettings} {declared : List Point}
    {made : CallRequest} {since : List Transition}
    (hpath : Path (create settings registerCodec declared).1 path c)
    (hhands : c.Hands action (.call id) request)
    (haccount : ∀ phase, Calls.phase? c.calls id = some phase →
      Account (create settings registerCodec declared).1.plan id made since phase) :
    ∃ device writes, made = .write device writes ∧ request.Proper ∧
      ∀ write, request = .write write → write.Serves settings.link.maxWriteSpan.toNat
        (namedPoints (create settings registerCodec declared).1.points device writes) := by
  obtain ⟨phase, command, hphase, hmem⟩ := hhands.exists_command
  obtain ⟨device, writes, -, rfl, -, -⟩ := (haccount phase hphase).commands command hmem
  have hcodec := hpath.codec_eq (create_orderly settings registerCodec declared)
  refine ⟨device, writes, rfl, hhands.proper_of_call hcodec settings.link.maxWriteSpan.toNat_lt ?_⟩
  intro other hother command hcommand
  obtain ⟨_, _, planned, hmade, hplan, hlisted⟩ :=
    (haccount other hother).commands command hcommand
  obtain ⟨rfl, rfl⟩ := CallRequest.write.inj hmade
  exact PointWrite.plan_serves (create_valid settings registerCodec declared) hplan command hlisted

/-- The last call with a number accounts for the phase it has come to. -/
theorem Path.account {settings : ConnectionSettings} {declared : List Point} {phase : CallPhase}
    (hpath : Path (create settings registerCodec declared).1 path final)
    (hphase : Calls.phase? final.calls id = some phase) :
    ∃ request since, Makes id request path since ∧
      Account (create settings registerCodec declared).1.plan id request since phase := by
  have hcreate := create_orderly settings registerCodec declared
  refine hpath.history (motive := fun path state => ∀ id phase,
    Calls.phase? state.calls id = some phase → ∃ request since, Makes id request path since ∧
      Account (create settings registerCodec declared).1.plan id request since phase)
    (fun id phase hnew => by simp [create, Calls.phase?] at hnew) ?_ id phase hphase
  intro past before action after events hpast hbefore hstep id phase hafter
  have horderly := hpast.orderly hcreate
  have hmove := move_of_step horderly hstep
  by_cases hstart : ∃ request, action = .start id request
  · obtain ⟨request, rfl⟩ := hstart
    refine ⟨request, [], makes_of_start rfl past, ?_⟩
    refine Account.of_start (hmove.call_step id) (phase?_of_start hstep) hafter ?_
    intro device writes commands hplan
    rw [← hpast.plan_eq hcreate]
    exact hplan
  · have hother : ∀ request, action ≠ .start id request := by simpa using hstart
    obtain ⟨old, hold⟩ := Option.ne_none_iff_exists'.mp
      (hmove.present (by simp [traffic, hafter]) hother)
    obtain ⟨request, since, hmakes, haccount⟩ := hbefore id old hold
    refine ⟨request, since ++ [⟨before, action, after, events⟩], hmakes.concat hother, ?_, ?_⟩
    · exact fun command hmem => haccount.commands command (hmove.commands_subset hold hafter hmem)
    · rintro range error rfl
      rcases refusal_of_move hmove horderly hafter with
        hsame | ⟨handed, hhands, hinvalid⟩ | ⟨hreplies, hheld⟩
      · obtain rfl := Option.some.inj (hold.symm.trans hsame)
        obtain ⟨transition, hmem, hrejects⟩ := haccount.refusal range error rfl
        exact ⟨transition, List.mem_append_left _ hmem, hrejects⟩
      · obtain ⟨device, writes, -, hproper, -⟩ := hhands.proper_of_account hpast
          fun other hnow => Option.some.inj (hold.symm.trans hnow) ▸ haccount
        simp [hproper.valid] at hinvalid
      · exact ⟨_, List.mem_append_right _ List.mem_cons_self, hreplies, hheld⟩

end Connection

/-- The visit to this group has been concluded with a bad request. -/
def Tick.Rejects (index : Nat) (error : InvalidRequest) (tick : Tick) : Prop :=
  (index, .failed (.badRequest error)) ∈ tick.outcomes

/-- The visit to a group is concluded with a bad request only if the transport says so. -/
theorem Connection.Concludes.rejected {c : Connection} {action : Action} {tick : Tick}
    {error : InvalidRequest}
    (hconcludes : c.Concludes action tick (.failed (.badRequest error)))
    (hopens : ∀ cause, c.scheduler.phase = .visiting tick → tick.openFailure = some cause →
      cause.isOpenFailure = true) :
    action = .exchangeDone (.error (.badRequest error)) ∧ c.scheduler.phase = .polling tick := by
  cases hconcludes with
  | skipped hvisits hfailure =>
      have hopen := hopens _ hvisits.phase hfailure
      simp [RequestError.isOpenFailure] at hopen
  | heard hhears =>
      obtain ⟨stage, link, events, -, hturn⟩ := hhears.turn
      exact ⟨hturn.eq_exchangeDone, hhears.phase⟩

/-- A tick counts a bad request among its outcomes for no other reason. -/
theorem SchedulerStep.rejected {c : Connection} {action : Action} {shown : List Event}
    {next : Scheduler} {tick : Tick} {index : Nat} {error : InvalidRequest}
    (hstep : SchedulerStep c action shown next)
    (hopens : ∀ tick cause, c.scheduler.phase = .visiting tick → tick.openFailure = some cause →
      cause.isOpenFailure = true)
    (htick : next.phase.tick? = some tick)
    (hmem : tick.Rejects index error) :
    (∃ old, c.scheduler.phase.tick? = some old ∧ old.Rejects index error) ∨
      action = .exchangeDone (.error (.badRequest error)) ∧
        ∃ polled, c.scheduler.phase = .polling polled ∧ polled.next = index := by
  rcases hstep.tick htick with hsame | ⟨due, -, rfl⟩ | ⟨old, reported, outcome, hconcludes, rfl⟩
  · exact .inl ⟨tick, hsame, hmem⟩
  · simp [Tick.Rejects] at hmem
  · rcases List.mem_append.mp hmem with hearlier | hlast
    · exact .inl ⟨old, hconcludes.tick?_eq, hearlier⟩
    · obtain ⟨hindex, rfl⟩ := Prod.mk.inj (List.mem_singleton.mp hlast)
      obtain ⟨haction, hpolling⟩ := hconcludes.rejected (hopens old)
      exact .inr ⟨haction, old, hpolling, hindex.symm⟩

namespace Connection

variable {settings : ConnectionSettings} {declared : List Point}
variable {path earlier later : List Transition}
variable {final : Connection} {transition : Transition} {id index : Nat} {error : InvalidRequest}

/-- A tick that is under way has no bad request among its outcomes that the transport has not
reported. -/
theorem Path.exists_rejects {codec : ValueCodec} {tick : Tick}
    (hpath : Path (create settings codec declared).1 path final)
    (htick : final.scheduler.phase.tick? = some tick) (hrejects : tick.Rejects index error) :
    ∃ transition ∈ path, transition.Rejects .scheduler error ∧
      ∃ polled, transition.before.scheduler.phase = .polling polled ∧ polled.next = index := by
  have hcreate := create_orderly settings codec declared
  refine hpath.history (motive := fun path state => ∀ tick,
    state.scheduler.phase.tick? = some tick → tick.Rejects index error →
      ∃ transition ∈ path, transition.Rejects .scheduler error ∧
        ∃ polled, transition.before.scheduler.phase = .polling polled ∧ polled.next = index)
    (fun tick hnow => by simp [create, SchedulerPhase.tick?] at hnow) ?_ tick htick hrejects
  intro past before action after events hpast hbefore hstep tick hnow hmem
  have horderly := hpast.orderly hcreate
  have hopens : ∀ tick cause, before.scheduler.phase = .visiting tick →
      tick.openFailure = some cause → cause.isOpenFailure = true :=
    fun _ _ => hpast.isOpenFailure_of_visiting hcreate rfl
  rcases (scheduler_of_step horderly hstep).rejected hopens hnow hmem with
    ⟨old, hold, hlisted⟩ | ⟨hreplies, polled, hphase, hindex⟩
  · obtain ⟨transition, hearlier, hfound⟩ := hbefore old hold hlisted
    exact ⟨transition, List.mem_append_left _ hearlier, hfound⟩
  · have hheld := horderly.link.holder_of_inside .scheduler (Traffic.stance_polling hphase)
    exact ⟨_, List.mem_append_right _ List.mem_cons_self, ⟨hreplies, hheld⟩, polled, hphase,
      hindex⟩

/-- A tick reports the outcomes that it has come to. -/
theorem tick_of_ends {before after : Connection} {action : Action} {events : List Event}
    {outcomes : List (Nat × PollOutcome)} (horderly : before.traffic.Orderly)
    (hstep : before.step action = some (after, events)) (hends : .tickEnds outcomes ∈ events) :
    ∃ tick, before.scheduler.phase.tick? = some tick ∧ tick.outcomes = outcomes := by
  have hreport : .tickEnds outcomes ∈ reports events := List.mem_filter.mpr ⟨hends, rfl⟩
  have hscheduler := scheduler_of_step horderly hstep
  generalize reports events = shown, after.scheduler = next at hreport hscheduler
  cases hscheduler with
  | @endTick tick nextTick hphase =>
      obtain rfl := Event.tickEnds.inj (List.mem_singleton.mp hreport)
      refine ⟨tick, ?_, rfl⟩
      rcases hphase with hphase | ⟨hphase, -⟩ <;> rw [hphase] <;> rfl
  | keep | switch | seekSetting | applied | halt | seekShutdown | endScheduler | beginTick
  | notDue | skip | defer | clear | seekLink | giveUp | poll | read | fail | abort | sample
  | pass | deliver | conclude => simp at hreport

/-- A write that is refused at once has made no request. -/
theorem ne_request_of_refused {before after : Connection} {events : List Event}
    {device : DeviceId} {writes : List PointWrite} {refusal : WriteError}
    (hstep : before.step (.start id (.write device writes)) = some (after, events))
    (hreturns : .callReturns id (.write (.error refusal)) ∈ events) (range : AddressRange)
    (cause : RequestError) : refusal ≠ .request range cause := by
  rintro rfl
  have hprepare := (refused_of_start hstep hreturns).1
  rw [prepareWrite] at hprepare
  split at hprepare
  · simp at hprepare
  · split at hprepare
    · simp at hprepare
    · exact PointWrite.plan_ne_request range cause hprepare

/-! ## All requests of a connection -/

/-- What holds of the requests that a step of a connection hands to its link. -/
structure ProperRequests (settings : ConnectionSettings) (points : List Point)
    (earlier : List Transition) (transition : Transition) : Prop where
  polls : ∀ request, transition.before.Hands transition.action .scheduler request →
    request.Proper ∧ ∃ read, request = .read read
  writes : ∀ id request, transition.before.Hands transition.action (.call id) request →
    ∃ device writes since, Makes id (.write device writes) earlier since ∧ request.Proper ∧
      ∀ write, request = .write write →
        write.Serves settings.link.maxWriteSpan.toNat (namedPoints points device writes)
  /-- There is no other way to begin a transaction. -/
  others : ∀ request stage, transition.after.transaction = some ⟨request, stage⟩ →
    (∃ old, transition.before.transaction = some ⟨request, old⟩) ∨
      ∃ actor, transition.before.Hands transition.action actor request
  /-- A write fails with a bad request only if the transport has said so of one of its exchanges. -/
  writeFails : ∀ id range error,
    .callReturns id (.write (.error (.request range (.badRequest error)))) ∈ transition.events →
      ∃ request since, Makes id request earlier since ∧
        ∃ exchange ∈ since, exchange.Rejects (.call id) error
  /-- So does the poll of a group. -/
  pollFails : ∀ outcomes index error, .tickEnds outcomes ∈ transition.events →
    (index, .failed (.badRequest error)) ∈ outcomes →
      ∃ exchange ∈ earlier, exchange.Rejects .scheduler error ∧
        ∃ polled, exchange.before.scheduler.phase = .polling polled ∧ polled.next = index

/-- All requests to the link are proper, and those of a write stay within the points that it
names. -/
theorem requests_proper
    (hpath : Path (create settings registerCodec declared).1 (earlier ++ transition :: later)
      final) :
    ProperRequests settings (create settings registerCodec declared).1.points earlier
      transition := by
  have hcreate := create_orderly settings registerCodec declared
  obtain ⟨hearlier, hstep, -⟩ := hpath.split
  have horderly := hearlier.orderly hcreate
  have hmove := move_of_step horderly hstep
  refine ⟨?_, ?_, ?_, ?_, ?_⟩
  · intro request hhands
    exact hhands.proper_of_poll hearlier.range_valid
  · intro id request hhands
    obtain ⟨phase, -, hphase, -⟩ := hhands.exists_command
    obtain ⟨made, since, hmakes, haccount⟩ := hearlier.account hphase
    obtain ⟨device, writes, rfl, hproper, hserves⟩ := hhands.proper_of_account hearlier
      fun other hother => Option.some.inj (hphase.symm.trans hother) ▸ haccount
    exact ⟨device, writes, since, hmakes, hproper, hserves⟩
  · intro request stage htransaction
    exact hmove.transaction_origin htransaction
  · intro id range error hreturns
    have hreturn := hmove.of_returns hreturns
    generalize hcaller : transition.action = action at hreturn hstep
    cases hreturn with
    | refused => exact absurd rfl (ne_request_of_refused hstep hreturns range (.badRequest error))
    | write hphase =>
        obtain ⟨request, since, hmakes, haccount⟩ := hearlier.account hphase
        exact ⟨request, since, hmakes, haccount.refusal range error rfl⟩
  · intro outcomes index error hends hmem
    obtain ⟨tick, htick, rfl⟩ := tick_of_ends horderly hstep hends
    exact hearlier.exists_rejects htick hmem

end Connection

/-- A write of one register comes up to its attempt. -/
def Action.comeToAttempt : List Action :=
  [.start 0 (.write ⟨"plant"⟩ [⟨"level", .int 3⟩]), .run (.call 0), .run (.call 0), .run (.call 0)]

/-- The transport opens, but it cannot write registers. -/
def Action.reject : List Action :=
  [.openDone (.ok ()),
    .exchangeDone (.error (.badRequest (.unsupportedClass .holdingRegister)))]

namespace Connection

def sampleAttempt : Transition := (sample.stop Action.comeToAttempt).next (.run (.call 0))

/-- The write returns after it has been rejected. -/
def sampleRejection : Transition := (sampleAttempt.after.stop Action.reject).next (.run (.call 0))

theorem path_sampleRejection :
    Path sample (sample.walk Action.comeToAttempt ++
      sampleAttempt :: (sampleAttempt.after.walk Action.reject ++ [sampleRejection]))
        sampleRejection.after := by
  have hcome := path_walk
    (show (sample.run Action.comeToAttempt).isSome = true by decide +kernel)
  have hreject := path_walk
    (show (sampleAttempt.after.run Action.reject).isSome = true by decide +kernel)
  have hreturn : Path (sampleAttempt.after.stop Action.reject) [sampleRejection]
      sampleRejection.after := .cons_next (by decide +kernel) (.nil _)
  exact hcome.append (.cons_next (by decide +kernel) (hreject.append hreturn))

theorem sampleAttempt_proper :
    sampleAttempt.after.transaction =
        some ⟨.write ⟨⟨1⟩, .holdingRegister, 4, .words [3]⟩, .opening 0⟩ ∧
      ProperRequests {} sample.points (sample.walk Action.comeToAttempt) sampleAttempt :=
  ⟨by decide +kernel, requests_proper path_sampleRejection⟩

/-- So it is not true that no write fails with a bad request. -/
theorem not_forall_ne_badRequest :
    ¬∀ (path : List Transition) (transition : Transition) (id : Nat) (range : AddressRange)
      (error : InvalidRequest), Path sample (path ++ [transition]) transition.after →
        .callReturns id (.write (.error (.request range (.badRequest error)))) ∉
          transition.events := by
  intro hnever
  have hpath : Path sample ((sample.walk Action.comeToAttempt ++
      sampleAttempt :: sampleAttempt.after.walk Action.reject) ++ [sampleRejection])
        sampleRejection.after := by
    rw [List.append_assoc]
    exact path_sampleRejection
  refine hnever _ _ 0 ⟨4, 1⟩ (.unsupportedClass .holdingRegister) hpath (mem_returned.mp ?_)
  decide +kernel

end Connection

end Fieldbus

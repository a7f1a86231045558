import Fieldbus.Proofs.Link.Requests

/-!
# Steps of a write

Everything that a step can do to a write whose plan has been accepted and that stays under way.  A
transaction of the write is seen where it ends, with its request and with what it has come to, and
a failure to open the transport is such an end as well.
-/

namespace Fieldbus

open Codec

/-- A transaction that has ended. -/
structure Transacted where
  request : Request
  result : Except RequestError Response

/-- The transaction of a call that ends with an action. -/
def Traffic.transacted? (c : Traffic) (id : Nat) (action : Action) : Option Transacted :=
  if c.linkLock.holder = some (.call id) then do
    return ⟨(← c.transaction).request, ← c.ending? action⟩
  else none

/-- The transactions of a call that end on a path, in their order. -/
def transactionsOf (id : Nat) (path : List Transition) : List Transacted :=
  path.filterMap fun transition => transition.before.traffic.transacted? id transition.action

theorem transactionsOf_cons (id : Nat) (first : Transition) (rest : List Transition) :
    transactionsOf id (first :: rest) =
      (first.before.traffic.transacted? id first.action).toList ++ transactionsOf id rest := by
  rw [transactionsOf, List.filterMap_cons, transactionsOf]
  cases first.before.traffic.transacted? id first.action <;> rfl

theorem transactionsOf_concat (id : Nat) (path : List Transition) (last : Transition) :
    transactionsOf id (path ++ [last]) =
      transactionsOf id path ++ (last.before.traffic.transacted? id last.action).toList := by
  rw [transactionsOf, List.filterMap_append, transactionsOf]
  cases hlast : last.before.traffic.transacted? id last.action <;> simp [hlast]

/-- The call takes its next step. -/
def Action.isStepOf (id : Nat) : Action → Bool
  | run (.call caller) => caller == id
  | elapse _ | start _ _ | cancel _ | dropHandle | receive | tick | run .scheduler | openDone _
  | exchangeDone _ | expire | deliver => false

namespace Action

variable {id : Nat} {action : Action}

theorem isStepOf_of_isAnswer (hanswer : action.isAnswer = true) : action.isStepOf id = false := by
  cases action <;> first | rfl | simp [isAnswer] at hanswer

theorem isStepOf_of_isInternal (hinternal : action.isInternal = true) :
    action.isStepOf id = false := by
  cases action with
  | run actor =>
      cases actor with
      | scheduler => rfl
      | call caller => simp [isInternal] at hinternal
  | elapse | start | cancel | dropHandle | receive | tick | openDone | exchangeDone | expire
  | deliver => rfl

end Action

namespace Traffic

variable {c : Traffic} {id : Nat} {action : Action}

theorem transacted?_of_silent (haction : action.isAnswer = false) :
    c.transacted? id action = none := by
  have hnone : c.ending? action = none := by
    refine Option.eq_none_iff_forall_ne_some.mpr fun result hends => ?_
    rw [isAnswer_of_ending? hends] at haction
    cases haction
  rw [transacted?, hnone]
  split
  · cases c.transaction <;> rfl
  · rfl

theorem transacted?_of_other {actor : Actor} (hheld : c.linkLock.holder = some actor)
    (hother : actor ≠ .call id) : c.transacted? id action = none := by
  rw [transacted?, if_neg]
  rw [hheld]
  exact fun hsame => hother (Option.some.inj hsame)

/-- A wait that leads to another one ends no transaction. -/
theorem transacted?_of_waiting {transaction : Transaction} {link : Link} {events : List Event}
    {stage : Stage} (htransaction : c.transaction = some transaction)
    (hturn : c.link.Turn c.now transaction action (link, events, .waiting stage)) :
    c.transacted? id action = none := by
  rw [transacted?, htransaction, hturn.ending?_eq htransaction]
  split <;> rfl

theorem transacted?_of_ending {transaction : Transaction} {link : Link} {events : List Event}
    {result : Except RequestError Response} (hheld : c.linkLock.holder = some (.call id))
    (htransaction : c.transaction = some transaction)
    (hturn : c.link.Turn c.now transaction action (link, events, .finished result)) :
    c.transacted? id action = some ⟨transaction.request, result⟩ := by
  rw [transacted?, if_pos hheld, htransaction, hturn.ending?_eq htransaction]
  rfl

theorem transacted?_of_verdict {request : Request} {result : Except RequestError Response}
    (hheld : c.linkLock.holder = some (.call id))
    (hverdict : c.verdict? action = some (request, result)) :
    c.transacted? id action = some ⟨request, result⟩ := by
  obtain ⟨since, htransaction⟩ := transaction_of_verdict hverdict
  rw [transacted?, if_pos hheld, htransaction, ending?_of_verdict hverdict]
  rfl

end Traffic

theorem WriteCommand.response_of_read {command : WriteCommand}
    {answer : Except RequestError Response} {response : Response}
    (hverdict : (Request.read command.readRequest).verdict answer = .ok response) :
    ∃ current, response = .registers [current] := by
  cases answer with
  | error error => cases hverdict
  | ok shown =>
      cases shown with
      | bits values => cases hverdict
      | written => cases hverdict
      | registers values =>
          have hone : values.length = 1 ∧ Response.registers values = response := by
            simp only [Request.verdict, Response.check, readRequest, RegisterClass.isBit, bind,
              Except.bind, Bool.false_eq_true, if_false] at hverdict
            by_cases hlength : values.length = 1
            · simp only [hlength, UInt16.toNat_one, ne_eq, not_true_eq_false, if_false] at hverdict
              exact ⟨hlength, Except.ok.inj hverdict⟩
            · simp only [UInt16.toNat_one, ne_eq, hlength, not_false_eq_true, if_true] at hverdict
              cases hverdict
          obtain ⟨hlength, rfl⟩ := hone
          obtain ⟨current, rfl⟩ := List.length_eq_one_iff.mp hlength
          exact ⟨current, rfl⟩

/-- The register of a bit field is read alone. -/
theorem Traffic.registers_of_verdict {c : Traffic} {action : Action} {command : WriteCommand}
    {response : Response}
    (hverdict : c.verdict? action = some (.read command.readRequest, .ok response)) :
    ∃ current, response = .registers [current] := by
  obtain ⟨since, htransaction⟩ := transaction_of_verdict hverdict
  rw [verdict?, htransaction] at hverdict
  obtain ⟨answer, -, hpair⟩ := Option.map_eq_some_iff.mp hverdict
  exact WriteCommand.response_of_read (Prod.mk.inj hpair).2

/-- What a step does to a write that stays under way, with the transaction of the write that
ends. -/
inductive WriteStep (c after : Traffic) (action : Action) (id limit : Nat) :
    CallPhase → CallPhase → Option Transacted → Prop where
  /-- It is a step of somebody else, or the transaction of the write goes on. -/
  | keep {phase : CallPhase} (haction : action.isStepOf id = false) :
      WriteStep c after action id limit phase phase none
  | announce {device : DeviceId} {commands : List WriteCommand} :
      WriteStep c after action id limit (.announcing device commands)
        (.awaitingSection device commands) none
  | enter {device : DeviceId} {commands : List WriteCommand} :
      WriteStep c after action id limit (.awaitingSection device commands)
        (.attempting { commands }) none
  | seek {job : WriteJob} (hjob : job.commands ≠ []) :
      WriteStep c after action id limit (.attempting job) (.awaitingLink job) none
  | finish {job : WriteJob} {phase : CallPhase} (hjob : job.commands = [])
      (hphase : phase = .attempting job ∨ phase = .awaitingLink job) :
      WriteStep c after action id limit phase (.finishing (.ok ())) none
  | begin {job : WriteJob} {command : WriteCommand} {rest : List WriteCommand} {stage : Stage}
      (hjob : job.commands = command :: rest)
      (hafter : after.transaction = some ⟨command.firstRequest, stage⟩) :
      WriteStep c after action id limit (.awaitingLink job) (.transacting job) none
  | store {job : WriteJob} {command : WriteCommand} {rest : List WriteCommand}
      {stored : WriteRequest} {stage : Stage} {response : Response}
      (haction : action.isStepOf id = false) (hjob : job.commands = command :: rest)
      (htransaction : c.transaction = some ⟨.write stored, stage⟩) :
      WriteStep c after action id limit (.transacting job) (.attempting { commands := rest })
        (some ⟨.write stored, .ok response⟩)
  | fail {job : WriteJob} {command : WriteCommand} {rest : List WriteCommand}
      {transaction : Transaction} {error : RequestError} (haction : action.isStepOf id = false)
      (hjob : job.commands = command :: rest) (htransaction : c.transaction = some transaction) :
      WriteStep c after action id limit (.transacting job) (job.afterFailure limit command error)
        (some ⟨transaction.request, .error error⟩)
  /-- The register of a bit field has been read, and its new value goes back into it. -/
  | writeBack {job : WriteJob} {command : WriteCommand} {rest : List WriteCommand}
      {point : Point} {value : PointValue} {current : UInt16} {values : WireValues}
      {stage next : Stage} (haction : action.isStepOf id = false)
      (hjob : job.commands = command :: rest) (hfield : command.field = some (point, value))
      (hencode : c.codec.encode point value (some current) = .ok values)
      (htransaction : c.transaction = some ⟨.read command.readRequest, stage⟩)
      (hafter : after.transaction = some ⟨.write (command.writeRequest values), next⟩) :
      WriteStep c after action id limit (.transacting job) (.transacting job)
        (some ⟨.read command.readRequest, .ok (.registers [current])⟩)

namespace Move

variable {c after : Traffic} {action : Action} {events : List Event} {id : Nat}

/-- The read that a call is in belongs to the first of its commands. -/
theorem readRequest_of_transacting (horderly : c.Orderly) {job : WriteJob}
    {command : WriteCommand} {rest : List WriteCommand} {read : ReadRequest} {stage : Stage}
    (htransaction : c.transaction = some ⟨.read read, stage⟩)
    (hphase : Calls.phase? c.calls id = some (.transacting job))
    (hjob : job.commands = command :: rest) : read = command.readRequest := by
  obtain ⟨first, others, hcommands, hsends⟩ := (horderly.errand _ htransaction).2 id job hphase
  obtain ⟨rfl, -⟩ := List.cons.inj (hjob.symm.trans hcommands)
  rw [WriteCommand.Sends] at hsends
  split at hsends
  · cases hsends
  · rcases hsends with hread | ⟨current, values, -, hwrite⟩
    · exact Request.read.inj hread
    · cases hwrite

/-- An attempt at a proper command fails only with its transaction: the register of a bit field
answers alone, and the request that stores a new value is valid. -/
theorem error_of_fails {maxSpan : Nat} {named : List Point} {job : WriteJob}
    {command : WriteCommand} {rest : List WriteCommand} {transaction : Transaction} {link : Link}
    {result : Except RequestError Response} {error : RequestError} (horderly : c.Orderly)
    (hcodec : c.codec = registerCodec) (hspan : maxSpan < UInt16.size)
    (hserves : command.Serves maxSpan named) (htransaction : c.transaction = some transaction)
    (hphase : Calls.phase? c.calls id = some (.transacting job))
    (hjob : job.commands = command :: rest)
    (hturn : c.link.Turn c.now transaction action (link, events, .finished result))
    (hfails : command.Fails c.codec transaction.request result error) : result = .error error := by
  obtain ⟨request, stage⟩ := transaction
  cases hfails with
  | transaction hresult => exact hresult
  | answer hread hresult hunlike =>
      obtain rfl : request = .read _ := hread
      obtain rfl := readRequest_of_transacting horderly htransaction hphase hjob
      subst hresult
      obtain ⟨current, rfl⟩ := Traffic.registers_of_verdict (hturn.verdict_ok htransaction)
      exact absurd rfl (hunlike current [])
  | store hread hfield hresult hencode hinvalid =>
      rw [hcodec] at hencode
      rw [(hserves.writeBack hspan hfield hencode).proper.valid] at hinvalid
      cases hinvalid

variable {old new : CallPhase}

/-- A step that ends no wait: the write goes on by its own steps only. -/
theorem write_step_of_silent (hmove : Move c action events after)
    (hsilent : action.isAnswer = false) (hopen : c.closing = false)
    (hvalid : ∀ command ∈ old.commands, command.firstRequest.validate = .ok ())
    (hold : Calls.phase? c.calls id = some old) (hwrite : old.isWrite = true)
    (hnew : Calls.phase? after.calls id = some new) :
    WriteStep c after action id (1 + c.settings.link.retry.toNat) old new none := by
  have hkeep (hsame : new = old) (haction : action.isStepOf id = false) :
      WriteStep c after action id (1 + c.settings.link.retry.toNat) old new none := by
    rw [hsame]
    exact .keep haction
  have hothers {caller : Nat} (hcaller : caller ≠ id) (hsame : new = old)
      (haction : action = .run (.call caller)) :=
    hkeep hsame (by rw [haction]; exact beq_false_of_ne hcaller)
  have hunchanged (hnew : Calls.phase? c.calls id = some new) : new = old :=
    Option.some.inj (hnew.symm.trans hold)
  have hstill : ¬c.closing = true := by simp [hopen]
  cases hmove with
  | elapse | clear | seekLink | seekShutdown | leaveLink | endScheduler | poll | refuse =>
      exact hkeep (hunchanged hnew) rfl
  | stay haction | stroll haction | seekSetting haction =>
      exact hkeep (hunchanged hnew) (Action.isStepOf_of_isInternal haction)
  | startWrite hfresh | startPosting hfresh => exact hkeep (Calls.add_cases hfresh hold hnew) rfl
  | endSetting | callShutdown | «return» =>
      obtain ⟨hcaller, hsame⟩ := Calls.remove_cases hold hnew
      exact hothers hcaller hsame rfl
  | cancel => exact hkeep (Calls.remove_cases hold hnew).2 rfl
  | postClose hphase | callSeekShutdown hphase =>
      rcases Calls.set_cases hphase hold hnew with ⟨hcaller, hsame⟩ | ⟨rfl, rfl, rfl⟩
      · exact hothers hcaller hsame rfl
      · cases hwrite
  | announce hphase =>
      rcases Calls.set_cases hphase hold hnew with ⟨hcaller, hsame⟩ | ⟨rfl, rfl, rfl⟩
      · exact hothers hcaller hsame rfl
      · exact .announce
  | enterSection hphase =>
      rcases Calls.set_cases hphase hold hnew with ⟨hcaller, hsame⟩ | ⟨rfl, rfl, rfl⟩
      · exact hothers hcaller hsame rfl
      · exact .enter
  | callSeekLink hphase hjob =>
      rcases Calls.set_cases hphase hold hnew with ⟨hcaller, hsame⟩ | ⟨rfl, rfl, rfl⟩
      · exact hothers hcaller hsame rfl
      · exact .seek hjob
  | finish hphase hresult =>
      rcases Calls.set_cases hphase hold hnew with ⟨hcaller, hsame⟩ | ⟨rfl, rfl, rfl⟩
      · exact hothers hcaller hsame rfl
      · rcases hresult with ⟨hjob, rfl⟩ | ⟨hclosing, -⟩
        · exact .finish hjob (.inl rfl)
        · exact absurd hclosing hstill
  | callLeaveLink hphase hheld hresult =>
      rcases Calls.set_cases hphase hold hnew with ⟨hcaller, hsame⟩ | ⟨rfl, rfl, rfl⟩
      · exact hothers hcaller hsame rfl
      · rcases hresult with ⟨hjob, rfl⟩ | ⟨hclosing, -⟩
        · exact .finish hjob (.inr rfl)
        · exact absurd hclosing hstill
  | attempt hphase hheld hstays hjob hbegin =>
      rcases Calls.set_cases hphase hold hnew with ⟨hcaller, hsame⟩ | ⟨rfl, rfl, rfl⟩
      · exact hothers hcaller hsame rfl
      · exact .begin hjob rfl
  | refuseAttempt hphase hheld hstays hjob hinvalid =>
      rcases Calls.set_cases hphase hold hnew with ⟨hcaller, hsame⟩ | ⟨rfl, rfl, rfl⟩
      · exact hothers hcaller hsame rfl
      · rw [hvalid _ (by simp [CallPhase.commands, hjob])] at hinvalid
        cases hinvalid
  | proceed _ hturn | endPoll _ _ hturn | store _ _ _ hturn | fail _ _ _ hturn | misfit _ _ hturn
  | writeBack _ _ _ _ hturn => simp [hturn.isAnswer] at hsilent

/-- The end of a wait: the write is in the transaction only if it holds the link. -/
theorem write_step_of_answer {maxSpan : Nat} {named : List Point}
    (hmove : Move c action events after) (hanswer : action.isAnswer = true)
    (horderly : c.Orderly) (hcodec : c.codec = registerCodec) (hspan : maxSpan < UInt16.size)
    (hserves : ∀ command ∈ old.commands, command.Serves maxSpan named)
    (hold : Calls.phase? c.calls id = some old)
    (hnew : Calls.phase? after.calls id = some new) :
    WriteStep c after action id (1 + c.settings.link.retry.toNat) old new
      (c.transacted? id action) := by
  have hown : action.isStepOf id = false := Action.isStepOf_of_isAnswer hanswer
  have hkeep (hsame : new = old) (hnone : c.transacted? id action = none) :
      WriteStep c after action id (1 + c.settings.link.retry.toNat) old new
        (c.transacted? id action) := by
    rw [hsame, hnone]
    exact .keep hown
  have hforeign {caller : Nat} {job : WriteJob} (hcaller : caller ≠ id) (hsame : new = old)
      (hphase : Calls.phase? c.calls caller = some (.transacting job)) :=
    hkeep hsame (Traffic.transacted?_of_other (horderly.held_of_transacting hphase)
      fun heq => hcaller (Actor.call.inj heq))
  have hunchanged (hnew : Calls.phase? c.calls id = some new) : new = old :=
    Option.some.inj (hnew.symm.trans hold)
  cases hmove with
  | proceed htransaction hturn =>
      exact hkeep (hunchanged hnew) (Traffic.transacted?_of_waiting htransaction hturn)
  | endPoll htransaction hphase hturn =>
      have hheld := horderly.link.holder_of_inside .scheduler (Traffic.stance_polling hphase)
      exact hkeep (hunchanged hnew) (Traffic.transacted?_of_other hheld (by simp))
  | store htransaction hphase hjob hturn =>
      rcases Calls.set_cases hphase hold hnew with ⟨hcaller, hsame⟩ | ⟨rfl, rfl, rfl⟩
      · exact hforeign hcaller hsame hphase
      · rw [Traffic.transacted?_of_ending (horderly.held_of_transacting hphase) htransaction hturn]
        exact .store hown hjob htransaction
  | @fail _ _ _ _ _ _ _ _ command _ _ htransaction hphase hjob hturn hfails =>
      rcases Calls.set_cases hphase hold hnew with ⟨hcaller, hsame⟩ | ⟨rfl, rfl, rfl⟩
      · exact hforeign hcaller hsame hphase
      · have hcommand := hserves command (by simp [CallPhase.commands, hjob])
        obtain rfl := error_of_fails horderly hcodec hspan hcommand htransaction hphase hjob hturn
          hfails
        rw [Traffic.transacted?_of_ending (horderly.held_of_transacting hphase) htransaction hturn]
        exact .fail hown hjob htransaction
  | @misfit _ _ _ _ _ _ _ _ command _ point value current _ htransaction hphase hturn hjob hfield
      hencode =>
      rcases Calls.set_cases hphase hold hnew with ⟨hcaller, hsame⟩ | ⟨rfl, rfl, rfl⟩
      · exact hforeign hcaller hsame hphase
      · have hcommand := hserves command (by simp [CallPhase.commands, hjob])
        obtain ⟨field, number, -, -, hencodes⟩ := (hcommand.sound.field point value hfield).encodes
        obtain ⟨word, hword, -⟩ := hencodes current
        rw [hcodec] at hencode
        cases hencode.symm.trans hword
  | @writeBack caller _ _ _ _ _ _ _ _ _ others _ _ _ _ _ _ htransaction hphase hjob hfield hturn
      hencode hbegin =>
      by_cases hcaller : caller = id
      · subst hcaller
        obtain rfl := Option.some.inj (hphase.symm.trans hold)
        obtain rfl := Option.some.inj (hphase.symm.trans hnew)
        obtain rfl := readRequest_of_transacting horderly htransaction hphase hjob
        obtain ⟨current, hone⟩ := Traffic.registers_of_verdict (hturn.verdict_ok htransaction)
        obtain ⟨rfl, rfl⟩ := List.cons.inj (Response.registers.inj hone)
        rw [Traffic.transacted?_of_ending (horderly.held_of_transacting hphase) htransaction hturn]
        exact .writeBack hown hjob hfield hencode htransaction rfl
      · exact hforeign hcaller (hunchanged hnew) hphase
  | stay hinternal | stroll hinternal | seekSetting hinternal =>
      simp [Action.isAnswer_of_isInternal hinternal] at hanswer
  | elapse | clear | seekLink | seekShutdown | leaveLink | endScheduler | poll | refuse
  | startWrite | startPosting | postClose | endSetting | callSeekShutdown | callShutdown
  | announce | enterSection | finish | callSeekLink | callLeaveLink | «return» | cancel
  | attempt | refuseAttempt => simp [Action.isAnswer] at hanswer

/-- The one inversion for a write.  Its commands are proper, so none of its requests is refused and
no value fails to be encoded. -/
theorem write_step {maxSpan : Nat} {named : List Point} (hmove : Move c action events after)
    (horderly : c.Orderly) (hopen : c.closing = false) (hcodec : c.codec = registerCodec)
    (hspan : maxSpan < UInt16.size)
    (hserves : ∀ command ∈ old.commands, command.Serves maxSpan named)
    (hold : Calls.phase? c.calls id = some old) (hwrite : old.isWrite = true)
    (hnew : Calls.phase? after.calls id = some new) :
    WriteStep c after action id (1 + c.settings.link.retry.toNat) old new
      (c.transacted? id action) := by
  cases hanswer : action.isAnswer with
  | true => exact hmove.write_step_of_answer hanswer horderly hcodec hspan hserves hold hnew
  | false =>
      rw [Traffic.transacted?_of_silent hanswer]
      exact hmove.write_step_of_silent hanswer hopen
        (fun command hcommand => ((hserves command hcommand).firstRequest hspan).1.valid) hold
        hwrite hnew

end Move

/-- The request of a transaction stays the same for as long as it lasts. -/
theorem Move.request_of_transacting {c : Connection} {after : Traffic} {action : Action}
    {events : List Event} {id : Nat} {job : WriteJob} {transaction : Transaction}
    (hmove : Move c.traffic action events after) (horderly : c.traffic.Orderly)
    (hphase : Calls.phase? c.calls id = some (.transacting job))
    (hafter : Calls.phase? after.calls id = some (.transacting job))
    (hnone : c.traffic.transacted? id action = none)
    (htransaction : c.transaction = some transaction) :
    ∃ next, after.transaction = some ⟨transaction.request, next⟩ := by
  have hheld : c.linkLock.holder = some (.call id) := horderly.held_of_transacting hphase
  have hbusy : after.transaction ≠ none :=
    (hmove.orderly horderly).busy.mpr ⟨_, Traffic.stance_call hafter⟩
  obtain ⟨⟨request, next⟩, hnext⟩ := Option.ne_none_iff_exists'.mp hbusy
  rcases hmove.transaction_origin hnext with ⟨old, hold⟩ | ⟨actor, hhands⟩
  · obtain rfl := Option.some.inj (hold.symm.trans htransaction)
    exact ⟨next, hnext⟩
  · -- Nobody else has the link, and the call itself can only go on by a transaction that ends.
    exfalso
    cases hhands with
    | poll _ hother =>
        rw [hheld] at hother
        cases hother
    | attempt hwaiting hother =>
        obtain rfl := Actor.call.inj (Option.some.inj (hheld.symm.trans hother))
        cases hphase.symm.trans hwaiting
    | writeBack hother _ _ hverdict =>
        obtain ⟨rfl, -⟩ := horderly.transacting_unique hphase hother
        rw [Traffic.transacted?_of_verdict (c := c.traffic) hheld hverdict] at hnone
        cases hnone

end Fieldbus

import Fieldbus.Proofs.Write.Device

/-!
# Sessions in the write section

A call that has obtained the write section keeps it until it returns, and only then does another
one get in.  So the acknowledged commands of all calls fall into sessions, one for each call that
got in, and the sessions follow each other.
-/

namespace Fieldbus

/-- The commands that a call inside the write section has still to make. -/
def CallPhase.todo? : CallPhase → Option (List WriteCommand)
  | attempting job | awaitingLink job | transacting job => some job.commands
  | finishing _ => some []
  | posting _ | stopping | awaitingShutdown | announcing _ _ | awaitingSection _ _ => none

namespace Traffic

def todo? (c : Traffic) (id : Nat) : Option (List WriteCommand) :=
  (Calls.phase? c.calls id).bind CallPhase.todo?

/-- A call obtains the write section, with all its commands still to make. -/
def entered? (c : Traffic) : Action → Option (Nat × List WriteCommand)
  | .run (.call id) =>
    match Calls.phase? c.calls id with
    | some (.awaitingSection _ commands) => some (id, commands)
    | _ => none
  | _ => none

/-- What a step means to the write section. -/
inductive SectionStep (c : Traffic) (action : Action) (events : List Event)
    (after : Traffic) : Prop where
  | keep (htodo : after.todo? = c.todo?) (hentered : c.entered? action = none)
      (hdone : c.done? action = none)
  | enter (id : Nat) (commands : List WriteCommand)
      (hheld : c.writeSection.holder = some (.call id))
      (htodo : after.todo? = Function.update c.todo? id (some commands))
      (hentered : c.entered? action = some (id, commands)) (hdone : c.done? action = none)
  | done (id : Nat) (command : WriteCommand) (rest : List WriteCommand)
      (hinside : c.todo? id = some (command :: rest))
      (htodo : after.todo? = Function.update c.todo? id (some rest))
      (hentered : c.entered? action = none) (hdone : c.done? action = some (id, command))
  /-- Whatever commands are left are not made any more. -/
  | drop (id : Nat) (commands : List WriteCommand) (hinside : c.todo? id = some commands)
      (htodo : after.todo? = Function.update c.todo? id (some []))
      (hentered : c.entered? action = none) (hdone : c.done? action = none)
      (hfails : ∃ error, Calls.phase? after.calls id = some (.finishing (.error error)))
  | leave (id : Nat) (result : Except WriteError Unit) (hinside : c.todo? id = some [])
      (htodo : after.todo? = Function.update c.todo? id none)
      (hentered : c.entered? action = none) (hdone : c.done? action = none)
      (hreturns : .callReturns id (.write result) ∈ events)
      (hgone : Calls.phase? after.calls id = none)

variable {c after : Traffic} {action : Action} {id other : Nat} {old new : CallPhase}

theorem todo?_of_phase (hphase : Calls.phase? c.calls id = some old) :
    c.todo? id = old.todo? := by
  rw [todo?, hphase]
  rfl

theorem todo?_of_set {commands : Option (List WriteCommand)}
    (hcalls : after.calls = Calls.set id new c.calls)
    (hold : Calls.phase? c.calls id = some old) (hnew : new.todo? = commands) :
    after.todo? = Function.update c.todo? id commands := by
  funext other
  rw [todo?, hcalls, Calls.phase?_set (by simp [hold])]
  by_cases hother : other = id
  · simp [hother, hnew]
  · simp [hother, todo?]

theorem todo?_of_set_self (hcalls : after.calls = Calls.set id new c.calls)
    (hold : Calls.phase? c.calls id = some old) (hsame : new.todo? = old.todo?) :
    after.todo? = c.todo? := by
  rw [todo?_of_set hcalls hold hsame, ← todo?_of_phase hold]
  exact Function.update_eq_self id c.todo?

theorem todo?_of_remove (hcalls : after.calls = Calls.remove id c.calls) :
    after.todo? = Function.update c.todo? id none := by
  funext other
  rw [todo?, hcalls, Calls.phase?_remove]
  by_cases hother : other = id
  · simp [hother]
  · simp [hother, todo?]

theorem todo?_of_remove_self (hcalls : after.calls = Calls.remove id c.calls)
    (hnone : c.todo? id = none) : after.todo? = c.todo? := by
  rw [todo?_of_remove hcalls, ← hnone]
  exact Function.update_eq_self id c.todo?

theorem todo?_of_add (hcalls : after.calls = Calls.add id new c.calls)
    (hnone : Calls.phase? c.calls id = none) (hnew : new.todo? = none) :
    after.todo? = c.todo? := by
  funext other
  rw [todo?, hcalls, Calls.phase?_add hnone]
  by_cases hother : other = id
  · simp [hother, todo?, hnone, hnew]
  · simp [hother, todo?]

/-- A call that fails makes none of its commands any more. -/
theorem SectionStep.of_failure {events : List Event} {commands : List WriteCommand}
    {error : WriteError} (hcalls : after.calls = Calls.set id (.finishing (.error error)) c.calls)
    (hold : Calls.phase? c.calls id = some old) (htodo : old.todo? = some commands)
    (hentered : c.entered? action = none) (hdone : c.done? action = none) :
    c.SectionStep action events after := by
  refine .drop id commands ?_ (todo?_of_set hcalls hold rfl) hentered hdone ⟨error, ?_⟩
  · rw [todo?_of_phase hold, htodo]
  · rw [hcalls, Calls.phase?_set (by simp [hold]), Function.update_self]

/-- After a failed attempt all commands are still to be made, or none any more. -/
theorem SectionStep.of_afterFailure {events : List Event} {attempts : Nat}
    {command : WriteCommand} {error : RequestError} {job : WriteJob}
    (hcalls : after.calls = Calls.set id (job.afterFailure attempts command error) c.calls)
    (hold : Calls.phase? c.calls id = some old) (htodo : old.todo? = some job.commands)
    (hentered : c.entered? action = none) (hdone : c.done? action = none) :
    c.SectionStep action events after := by
  rcases job.afterFailure_cases attempts command error with hnext | ⟨failure, hnext, -⟩
  · rw [hnext] at hcalls
    exact .keep (todo?_of_set_self hcalls hold htodo.symm) hentered hdone
  · rw [hnext] at hcalls
    exact .of_failure hcalls hold htodo hentered hdone

theorem done?_eq_none (haction : action.isAnswer = false) (c : Traffic) :
    c.done? action = none := by
  rw [done?, verdict?_eq_none haction]

theorem entered?_of_phase (hphase : Calls.phase? c.calls id = some old)
    (hold : ∀ device commands, old ≠ .awaitingSection device commands) :
    c.entered? (.run (.call id)) = none := by
  simp only [entered?, hphase]
  split
  · next device commands heq => exact absurd (Option.some.inj heq) (hold device commands)
  · rfl

theorem phase?_of_entered {commands : List WriteCommand}
    (hentered : c.entered? action = some (id, commands)) :
    ∃ device, Calls.phase? c.calls id = some (.awaitingSection device commands) := by
  simp only [entered?] at hentered
  split at hentered
  · split at hentered
    · next caller device listed hphase =>
        obtain ⟨rfl, rfl⟩ := Prod.mk.inj (Option.some.inj hentered)
        exact ⟨device, hphase⟩
    · simp at hentered
  · simp at hentered

theorem entered?_of_internal (haction : action.isInternal = true) (c : Traffic) :
    c.entered? action = none := by
  cases action with
  | run actor =>
      cases actor with
      | scheduler => rfl
      | call id => simp [Action.isInternal] at haction
  | elapse | start | cancel | dropHandle | receive | tick | openDone | exchangeDone | expire
  | deliver => rfl

theorem entered?_of_answer (haction : action.isAnswer = true) (c : Traffic) :
    c.entered? action = none := by
  cases action <;> first | rfl | simp [Action.isAnswer] at haction

end Traffic

namespace Move

variable {c after : Traffic} {action : Action} {events : List Event} {id : Nat}

theorem done?_of_read {read : ReadRequest} {stage : Stage}
    (htransaction : c.transaction = some ⟨.read read, stage⟩) (action : Action) :
    c.done? action = none := by
  refine Option.eq_none_iff_forall_ne_some.mpr fun ⟨id, command⟩ hdone => ?_
  obtain ⟨stored, response, -, -, hverdict, -, -⟩ := Traffic.done?_eq_some hdone
  obtain ⟨since, hwrite⟩ := Traffic.transaction_of_verdict hverdict
  simp [htransaction] at hwrite

theorem done?_of_error {transaction : Transaction} {link : Link} {error : RequestError}
    (htransaction : c.transaction = some transaction)
    (hturn : c.link.Turn c.now transaction action (link, events, .finished (.error error))) :
    c.done? action = none := by
  rcases hturn.verdict htransaction with hverdict | ⟨hverdict, -⟩
  · simp [Traffic.done?, hverdict]
  · simp [Traffic.done?, hverdict]

/-- An attempt that fails completes no command. -/
theorem done?_of_fails {transaction : Transaction} {link : Link} {command : WriteCommand}
    {result : Except RequestError Response} {error : RequestError}
    (htransaction : c.transaction = some transaction)
    (hturn : c.link.Turn c.now transaction action (link, events, .finished result))
    (hfails : command.Fails c.codec transaction.request result error) : c.done? action = none := by
  obtain ⟨request, stage⟩ := transaction
  cases hfails with
  | transaction hresult =>
      subst hresult
      exact done?_of_error htransaction hturn
  | answer hread | store hread =>
      obtain rfl : request = .read _ := hread
      exact done?_of_read htransaction action

/-- Every step is one of the five for the write section, unless it cancels a call inside. -/
theorem section_step (hmove : Move c action events after) (horderly : c.Orderly)
    (hkept : ∀ id, action = .cancel id → c.todo? id = none) :
    c.SectionStep action events after := by
  cases hmove with
  | elapse => exact .keep rfl rfl (Traffic.done?_eq_none rfl c)
  | stay haction | stroll haction | seekSetting haction =>
      exact .keep rfl (Traffic.entered?_of_internal haction c)
        (Traffic.done?_eq_none (Action.isAnswer_of_isInternal haction) c)
  | clear | seekLink | seekShutdown | leaveLink | endScheduler | poll =>
      exact .keep rfl rfl (Traffic.done?_eq_none rfl c)
  | refuse hnew => exact .keep rfl rfl (Traffic.done?_eq_none rfl c)
  | startWrite hnew | startPosting hnew =>
      exact .keep (Traffic.todo?_of_add rfl hnew rfl) rfl (Traffic.done?_eq_none rfl c)
  | postClose hphase | callSeekShutdown hphase | announce hphase | callSeekLink hphase
  | attempt hphase =>
      exact .keep (Traffic.todo?_of_set_self rfl hphase rfl)
        (Traffic.entered?_of_phase hphase (by simp)) (Traffic.done?_eq_none rfl c)
  | @enterSection id _ device commands hphase hheld hquiet =>
      refine .enter id commands hheld (Traffic.todo?_of_set rfl hphase rfl) ?_
        (Traffic.done?_eq_none rfl c)
      simp only [Traffic.entered?, hphase]
  | finish hphase hresult | callLeaveLink hphase hheld hresult =>
      have hentered := Traffic.entered?_of_phase hphase (by simp)
      rcases hresult with ⟨hempty, rfl⟩ | ⟨-, rfl⟩
      · exact .keep (Traffic.todo?_of_set_self rfl hphase (congrArg some hempty.symm)) hentered
          (Traffic.done?_eq_none rfl c)
      · exact .of_failure rfl hphase rfl hentered (Traffic.done?_eq_none rfl c)
  | refuseAttempt hphase =>
      exact .of_afterFailure rfl hphase rfl (Traffic.entered?_of_phase hphase (by simp))
        (Traffic.done?_eq_none rfl c)
  | endSetting hphase | callShutdown hphase =>
      exact .keep (Traffic.todo?_of_remove_self rfl (Traffic.todo?_of_phase hphase))
        (Traffic.entered?_of_phase hphase (by simp)) (Traffic.done?_eq_none rfl c)
  | @«return» id result hphase =>
      exact .leave id result (Traffic.todo?_of_phase hphase) (Traffic.todo?_of_remove rfl)
        (Traffic.entered?_of_phase hphase (by simp)) (Traffic.done?_eq_none rfl c) (by simp)
        (by rw [Calls.phase?_remove, Function.update_self])
  | cancel hphase =>
      exact .keep (Traffic.todo?_of_remove_self rfl (hkept _ rfl)) rfl
        (Traffic.done?_eq_none rfl c)
  | proceed htransaction hturn =>
      refine .keep rfl (Traffic.entered?_of_answer hturn.isAnswer c) ?_
      rw [Traffic.done?, Traffic.verdict?_of_stage htransaction hturn.not_exchanging]
  | @endPoll _ _ _ transaction _ _ tick _ htransaction hphase hturn hnext hquiet =>
      obtain ⟨request, stage⟩ := transaction
      obtain ⟨read, -, rfl⟩ := (horderly.errand _ htransaction).1 tick hphase
      exact .keep rfl (Traffic.entered?_of_answer hturn.isAnswer c)
        (done?_of_read htransaction action)
  | @store id _ _ _ _ _ _ job command rest htransaction hphase hjob hturn =>
      refine .done id command rest ?_ (Traffic.todo?_of_set rfl hphase rfl)
        (Traffic.entered?_of_answer hturn.isAnswer c) ?_
      · rw [Traffic.todo?_of_phase hphase, ← hjob]
        rfl
      · simp [Traffic.done?, hturn.verdict_ok htransaction,
          horderly.held_of_transacting hphase, hphase, hjob]
  | fail htransaction hphase hjob hturn hfails =>
      exact .of_afterFailure rfl hphase rfl (Traffic.entered?_of_answer hturn.isAnswer c)
        (done?_of_fails htransaction hturn hfails)
  | misfit htransaction hphase hturn =>
      exact .of_failure rfl hphase rfl (Traffic.entered?_of_answer hturn.isAnswer c)
        (done?_of_read htransaction action)
  | writeBack htransaction hphase hjob hfield hturn hencode hbegin =>
      exact .keep rfl (Traffic.entered?_of_answer hturn.isAnswer c)
        (done?_of_read htransaction action)

end Move

namespace Traffic.Orderly

variable {c : Traffic} {id other : Nat}

theorem held_of_todo (horderly : c.Orderly) (hinside : c.todo? id ≠ none) :
    c.writeSection.holder = some (.call id) := by
  apply horderly.writes.holder_of_inside
  cases hphase : Calls.phase? c.calls id with
  | none => simp [Traffic.todo?, hphase] at hinside
  | some phase =>
      rw [Traffic.todo?_of_phase hphase] at hinside
      refine (stances_call hphase).trans ?_
      cases phase <;> first | rfl | simp [CallPhase.todo?] at hinside

/-- At most one call is inside the write section. -/
theorem todo_unique (horderly : c.Orderly) (hinside : c.todo? id ≠ none)
    (hother : c.todo? other ≠ none) : other = id := by
  have hheld := (horderly.held_of_todo hother).symm.trans (horderly.held_of_todo hinside)
  simpa using hheld

/-- Nobody is inside when a call gets in. -/
theorem todo_eq_none_of_entered {action : Action} {commands : List WriteCommand}
    (horderly : c.Orderly) (hheld : c.writeSection.holder = some (.call id))
    (hentered : c.entered? action = some (id, commands)) (other : Nat) :
    c.todo? other = none := by
  by_contra hinside
  have hholder := hheld.symm.trans (horderly.held_of_todo hinside)
  obtain rfl : id = other := by simpa using hholder
  obtain ⟨device, hphase⟩ := phase?_of_entered hentered
  exact hinside (Traffic.todo?_of_phase hphase)

end Traffic.Orderly

/-! ## Sessions -/

/-- The stay of a call in the write section. -/
structure Session where
  call : Nat
  commands : List WriteCommand
  /-- The commands that were acknowledged, in their order. -/
  acknowledged : List WriteCommand

namespace Connection

/-- The commands of a call that are acknowledged before it leaves the write section. -/
def acknowledgedBy (id : Nat) : List Transition → List WriteCommand
  | [] => []
  | transition :: rest =>
    ((transition.before.traffic.done? transition.action).filter (·.1 = id)).toList.map (·.2) ++
      if (transition.after.traffic.todo? id).isNone then [] else acknowledgedBy id rest

/-- The sessions that begin on a path, in the order in which the calls got in. -/
def sessions : List Transition → List Session
  | [] => []
  | transition :: rest =>
    match transition.before.traffic.entered? transition.action with
    | some (id, commands) => ⟨id, commands, acknowledgedBy id rest⟩ :: sessions rest
    | none => sessions rest

/-- No call is cancelled inside the write section. -/
def KeepsWrites (path : List Transition) : Prop :=
  ∀ transition ∈ path, ∀ id, transition.action = .cancel id →
    transition.before.traffic.todo? id = none

variable {start final : Connection} {path : List Transition} {id : Nat}

theorem KeepsWrites.tail {transition : Transition}
    (hkeeps : KeepsWrites (transition :: path)) : KeepsWrites path :=
  fun other hother => hkeeps other (List.mem_cons_of_mem _ hother)

/-- What a call gets acknowledged is the beginning of what it has still to make. -/
theorem Path.acknowledgedBy_prefix {commands : List WriteCommand}
    (hpath : Path start path final) (horderly : start.traffic.Orderly)
    (hkeeps : KeepsWrites path) (htodo : start.traffic.todo? id = some commands) :
    acknowledgedBy id path <+: commands := by
  induction hpath generalizing commands with
  | nil => exact List.nil_prefix
  | @cons before after _ action events rest hstep _ ih =>
      have hmove := move_of_step horderly hstep
      have hrest := fun {more} => @ih more (hmove.orderly horderly) hkeeps.tail
      have hinside : before.traffic.todo? id ≠ none := by simp [htodo]
      rw [acknowledgedBy]
      cases hmove.section_step horderly (hkeeps _ List.mem_cons_self) with
      | keep hsame hentered hdone =>
          have hafter : after.traffic.todo? id = some commands := hsame ▸ htodo
          simpa [hdone, hafter] using hrest hafter
      | enter other listed hheld hset hentered hdone =>
          exact absurd (horderly.todo_eq_none_of_entered hheld hentered id) hinside
      | done other command more hmore hset hentered hdone =>
          obtain rfl : other = id := horderly.todo_unique hinside (by simp [hmore])
          obtain rfl := Option.some.inj (htodo.symm.trans hmore)
          have hafter : after.traffic.todo? other = some more := by simp [hset]
          simpa [hdone, hafter, Option.filter_some] using hrest hafter
      | drop other listed hlisted hset hentered hdone =>
          obtain rfl : other = id := horderly.todo_unique hinside (by simp [hlisted])
          have hafter : after.traffic.todo? other = some [] := by simp [hset]
          have hnone := List.prefix_nil.mp (hrest hafter)
          simp [hdone, hafter, hnone]
      | leave other result hlast hset hentered hdone hreturns =>
          obtain rfl : other = id := horderly.todo_unique hinside (by simp [hlast])
          have hafter : after.traffic.todo? other = none := by simp [hset]
          simp [hdone, hafter]

/-- The acknowledged commands of a path are those of the session that is under way, and then those
of the sessions that begin on it. -/
theorem Path.allDone_eq (hpath : Path start path final) (horderly : start.traffic.Orderly)
    (hkeeps : KeepsWrites path) :
    ((∀ id, start.traffic.todo? id = none) →
        (allDone path).map (·.2) = (sessions path).flatMap (·.acknowledged)) ∧
      ∀ id, start.traffic.todo? id ≠ none → (allDone path).map (·.2) =
        acknowledgedBy id path ++ (sessions path).flatMap (·.acknowledged) := by
  induction hpath with
  | nil => simp [allDone, sessions, acknowledgedBy]
  | @cons before after _ action events rest hstep _ ih =>
      have hmove := move_of_step horderly hstep
      obtain ⟨houtside, hunderway⟩ := ih (hmove.orderly horderly) hkeeps.tail
      have hcommands : (allDone (⟨before, action, after, events⟩ :: rest)).map (·.2) =
          (before.traffic.done? action).toList.map (·.2) ++ (allDone rest).map (·.2) := by
        rw [allDone, List.filterMap_cons]
        cases before.traffic.done? action <;> rfl
      rw [hcommands]
      cases hmove.section_step horderly (hkeeps _ List.mem_cons_self) with
      | keep hsame hentered hdone =>
          simp only [sessions, acknowledgedBy, hentered, hdone, hsame] at houtside hunderway ⊢
          refine ⟨houtside, fun id hinside => ?_⟩
          simpa [hinside] using hunderway id hinside
      | enter other listed hheld hset hentered hdone =>
          have hnone := horderly.todo_eq_none_of_entered hheld hentered
          refine ⟨fun _ => ?_, fun id hinside => absurd (hnone id) hinside⟩
          have hafter : after.traffic.todo? other ≠ none := by simp [hset]
          simpa [sessions, hentered, hdone] using hunderway other hafter
      | done other command more hmore hset hentered hdone =>
          have hother : before.traffic.todo? other ≠ none := by simp [hmore]
          refine ⟨fun hnone => absurd (hnone other) hother, fun id hinside => ?_⟩
          obtain rfl : other = id := horderly.todo_unique hinside hother
          have hafter : after.traffic.todo? other ≠ none := by simp [hset]
          simpa [sessions, acknowledgedBy, hentered, hdone, hafter, Option.filter_some]
            using hunderway other hafter
      | drop other listed hlisted hset hentered hdone =>
          have hother : before.traffic.todo? other ≠ none := by simp [hlisted]
          refine ⟨fun hnone => absurd (hnone other) hother, fun id hinside => ?_⟩
          obtain rfl : other = id := horderly.todo_unique hinside hother
          have hafter : after.traffic.todo? other ≠ none := by simp [hset]
          simpa [sessions, acknowledgedBy, hentered, hdone, hafter] using hunderway other hafter
      | leave other result hlast hset hentered hdone hreturns =>
          have hother : before.traffic.todo? other ≠ none := by simp [hlast]
          refine ⟨fun hnone => absurd (hnone other) hother, fun id hinside => ?_⟩
          obtain rfl : other = id := horderly.todo_unique hinside hother
          have hafter : ∀ id, after.traffic.todo? id = none := by
            intro id
            rw [hset]
            by_cases hid : id = other
            · simp [hid]
            · rw [Function.update_of_ne hid]
              by_contra hpresent
              exact hid (horderly.todo_unique hother hpresent)
          simpa [sessions, acknowledgedBy, hentered, hdone, hafter] using houtside hafter

/-- Each session has acknowledged the beginning of its commands. -/
theorem Path.acknowledged_prefix (hpath : Path start path final)
    (horderly : start.traffic.Orderly) (hkeeps : KeepsWrites path) :
    ∀ session ∈ sessions path, session.acknowledged <+: session.commands := by
  induction hpath with
  | nil => simp [sessions]
  | @cons before after _ action events rest hstep hrest ih =>
      have hmove := move_of_step horderly hstep
      have hafter := hmove.orderly horderly
      have hlater := ih hafter hkeeps.tail
      rw [sessions]
      cases hmove.section_step horderly (hkeeps _ List.mem_cons_self) with
      | keep hsame hentered => simpa [hentered] using hlater
      | done other command more hmore hset hentered => simpa [hentered] using hlater
      | drop other listed hlisted hset hentered => simpa [hentered] using hlater
      | leave other result hlast hset hentered => simpa [hentered] using hlater
      | enter other listed hheld hset hentered hdone =>
          have htodo : after.traffic.todo? other = some listed := by simp [hset]
          have hfirst := hrest.acknowledgedBy_prefix hafter hkeeps.tail htodo
          simp only [hentered]
          intro session hsession
          rcases List.mem_cons.mp hsession with rfl | hmem
          · exact hfirst
          · exact hlater session hmem

/-- The write of a call returns on a path. -/
def Returns (id : Nat) (path : List Transition) : Prop :=
  ∃ transition ∈ path, ∃ result, .callReturns id (.write result) ∈ transition.events

theorem Returns.cons (transition : Transition) (hreturns : Returns id path) :
    Returns id (transition :: path) := by
  obtain ⟨other, hmem, hevent⟩ := hreturns
  exact ⟨other, List.mem_cons_of_mem transition hmem, hevent⟩

/-- A call stays inside until it returns. -/
theorem Path.inside_or_returns (hpath : Path start path final)
    (horderly : start.traffic.Orderly) (hkeeps : KeepsWrites path)
    (hinside : start.traffic.todo? id ≠ none) :
    final.traffic.todo? id ≠ none ∨ Returns id path := by
  induction hpath with
  | nil => exact .inl hinside
  | @cons before after _ action events rest hstep _ ih =>
      have hmove := move_of_step horderly hstep
      have hgoes := fun hstill => (ih (hmove.orderly horderly) hkeeps.tail hstill).imp_right
        (Returns.cons ⟨before, action, after, events⟩)
      cases hmove.section_step horderly (hkeeps _ List.mem_cons_self) with
      | keep hsame => exact hgoes (hsame ▸ hinside)
      | enter other listed hheld hset hentered =>
          exact absurd (horderly.todo_eq_none_of_entered hheld hentered id) hinside
      | done other command more hmore hset =>
          obtain rfl : other = id := horderly.todo_unique hinside (by simp [hmore])
          exact hgoes (by simp [hset])
      | drop other listed hlisted hset =>
          obtain rfl : other = id := horderly.todo_unique hinside (by simp [hlisted])
          exact hgoes (by simp [hset])
      | leave other result hlast hset hentered hdone hreturns =>
          obtain rfl : other = id := horderly.todo_unique hinside (by simp [hlast])
          exact .inr ⟨_, List.mem_cons_self, result, hreturns⟩

/-- A user of the link that starts an exchange is inside the write section, if it is a call. -/
theorem todo?_of_exchangesOf {transition : Transition}
    (horderly : transition.before.traffic.Orderly)
    (hmove : Move transition.before.traffic transition.action transition.events
      transition.after.traffic)
    (hstarts : transition.exchangesOf (.call id) ≠ []) :
    transition.after.traffic.todo? id ≠ none := by
  obtain ⟨request, hrequest⟩ := List.exists_mem_of_ne_nil _ hstarts
  obtain ⟨hheld, hmem⟩ := Transition.mem_exchangesOf.mp hrequest
  obtain ⟨-, ⟨since, htransaction⟩, -⟩ := hmove.start hmem
  obtain ⟨job, hphase⟩ := (hmove.orderly horderly).transacting_of_held htransaction hheld
  simp [Traffic.todo?_of_phase hphase, CallPhase.todo?]

/-- Between the exchanges of two calls the first one returns. -/
theorem Path.returns_between {earlier between later : List Transition} {first second : Transition}
    {other : Nat} (hpath : Path start (earlier ++ first :: (between ++ second :: later)) final)
    (horderly : start.traffic.Orderly)
    (hkeeps : KeepsWrites (earlier ++ first :: (between ++ second :: later)))
    (hfirst : first.exchangesOf (.call id) ≠ []) (hsecond : second.exchangesOf (.call other) ≠ [])
    (hother : other ≠ id) : Returns id between := by
  obtain ⟨hearlier, hstep, hrest⟩ := hpath.split
  obtain ⟨hbetween, hlast, -⟩ := hrest.split
  have hbefore := hearlier.orderly horderly
  have hmove := move_of_step hbefore hstep
  have hafter := hmove.orderly hbefore
  have hready := hbetween.orderly hafter
  have hmoves := move_of_step hready hlast
  have hinside := todo?_of_exchangesOf hready hmoves hsecond
  have hquiet : KeepsWrites between := fun transition hmem => hkeeps transition (by simp [hmem])
  rcases hbetween.inside_or_returns hafter hquiet (todo?_of_exchangesOf hbefore hmove hfirst) with
    hstill | hreturns
  · -- The second call could only get in by the step that starts its exchange.
    exfalso
    have hstays : second.after.traffic.todo? id ≠ none → id = other :=
      (hmoves.orderly hready).todo_unique hinside
    cases hmoves.section_step hready (hkeeps second (by simp)) with
    | keep hsame =>
        rw [hsame] at hinside
        exact hother (hready.todo_unique hstill hinside)
    | enter listed commands hheld hset hentered =>
        exact hstill (hready.todo_eq_none_of_entered hheld hentered id)
    | done listed command rest hmore hset =>
        obtain rfl : listed = id := hready.todo_unique hstill (by simp [hmore])
        exact hother (hstays (by simp [hset])).symm
    | drop listed commands hlisted hset =>
        obtain rfl : listed = id := hready.todo_unique hstill (by simp [hlisted])
        exact hother (hstays (by simp [hset])).symm
    | leave listed result hlisted hset =>
        obtain rfl : listed = id := hready.todo_unique hstill (by simp [hlisted])
        rw [hset, Function.update_of_ne hother] at hinside
        exact hother (hready.todo_unique hstill hinside)
  · exact hreturns

end Connection

end Fieldbus

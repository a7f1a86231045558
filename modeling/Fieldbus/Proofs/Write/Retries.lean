import Fieldbus.Proofs.Write.Outcome
import Fieldbus.Proofs.Write.Steps

/-!
# Retries

A write attempts its commands one after the other.  It goes on to the next command once one has been
acknowledged, attempts a command again after an error of the transport until its attempts are used
up, and returns the last error of the first command that it gives up.
-/

namespace Fieldbus

open Codec

namespace WriteCommand

/-- The next request of an attempt at a command, after the transactions of the attempt that have
ended. -/
inductive Asks (codec : ValueCodec) (command : WriteCommand) :
    List Transacted → Request → Prop where
  | first : Asks codec command [] command.firstRequest
  | writeBack {point : Point} {value : PointValue} {current : UInt16} {values : WireValues}
      (hfield : command.field = some (point, value))
      (hencode : codec.encode point value (some current) = .ok values) :
      Asks codec command [⟨.read command.readRequest, .ok (.registers [current])⟩]
        (.write (command.writeRequest values))

theorem Asks.eq_nil_of_read {codec : ValueCodec} {command : WriteCommand} {part : List Transacted}
    {request : Request} {read : ReadRequest} (hasks : command.Asks codec part request)
    (hread : request = .read read) : part = [] := by
  cases hasks with
  | first => rfl
  | writeBack => cases hread

/-- The transactions of an attempt at a command, and how the attempt has ended. -/
inductive Attempt (codec : ValueCodec) (command : WriteCommand) :
    List Transacted → Except RequestError Unit → Prop where
  | fails {part : List Transacted} {request : Request} {error : RequestError}
      (hasks : command.Asks codec part request) :
      Attempt codec command (part ++ [⟨request, .error error⟩]) (.error error)
  | stores {part : List Transacted} {stored : WriteRequest} {response : Response}
      (hasks : command.Asks codec part (.write stored)) :
      Attempt codec command (part ++ [⟨.write stored, .ok response⟩]) (.ok ())

end WriteCommand

/-- How far a plan has come after some transactions: the commands that are not acknowledged yet, and
how many attempts at the first of them have failed. -/
inductive WriteCourse (codec : ValueCodec) (limit : Nat) (plan : List WriteCommand) :
    List Transacted → List WriteCommand → Nat → Prop where
  | begins : WriteCourse codec limit plan [] plan 0
  | acknowledged {past part : List Transacted} {command : WriteCommand}
      {rest : List WriteCommand} {failures : Nat}
      (hcourse : WriteCourse codec limit plan past (command :: rest) failures)
      (hattempt : command.Attempt codec part (.ok ())) :
      WriteCourse codec limit plan (past ++ part) rest 0
  | retried {past part : List Transacted} {command : WriteCommand} {rest : List WriteCommand}
      {failures : Nat} {error : RequestError}
      (hcourse : WriteCourse codec limit plan past (command :: rest) failures)
      (hattempt : command.Attempt codec part (.error error))
      (htransport : error.isTransport = true) (hmore : failures + 1 < limit) :
      WriteCourse codec limit plan (past ++ part) (command :: rest) (failures + 1)

/-- What a write returns after its transactions. -/
inductive ComesTo (codec : ValueCodec) (limit : Nat) (plan : List WriteCommand) :
    List Transacted → Except WriteError Unit → Prop where
  | success {past : List Transacted} (hcourse : WriteCourse codec limit plan past [] 0) :
      ComesTo codec limit plan past (.ok ())
  | failure {past part : List Transacted} {command : WriteCommand} {rest : List WriteCommand}
      {failures : Nat} {error : RequestError}
      (hcourse : WriteCourse codec limit plan past (command :: rest) failures)
      (hattempt : command.Attempt codec part (.error error))
      (hlast : error.isTransport = true → failures + 1 = limit) :
      ComesTo codec limit plan (past ++ part)
        (.error (if error.isEnding then .closed else .request command.range error))

namespace WriteCourse

variable {codec : ValueCodec} {limit failures : Nat} {plan rest : List WriteCommand}
variable {past part : List Transacted} {command : WriteCommand}

/-- The acknowledged commands are the beginning of the plan. -/
theorem exists_made (hcourse : WriteCourse codec limit plan past rest failures) :
    ∃ made, plan = made ++ rest := by
  induction hcourse with
  | begins => exact ⟨[], rfl⟩
  | @acknowledged _ _ command _ _ _ _ ih =>
      obtain ⟨made, rfl⟩ := ih
      exact ⟨made ++ [command], by simp⟩
  | retried _ _ _ _ ih => exact ih

theorem lt_limit (hcourse : WriteCourse codec limit plan past rest failures) (hlimit : 0 < limit) :
    failures < limit := by
  cases hcourse with
  | begins | acknowledged => exact hlimit
  | retried _ _ _ hmore => exact hmore

/-- The last transaction of a plan that is acknowledged as a whole has succeeded. -/
theorem getLast?_of_nil (hcourse : WriteCourse codec limit plan past [] failures)
    (hplan : plan ≠ []) :
    ∃ request response, past.getLast? = some ⟨request, .ok response⟩ := by
  cases hcourse with
  | begins => exact absurd rfl hplan
  | acknowledged hbefore hattempt =>
      cases hattempt with
      | stores => exact ⟨_, _, by rw [← List.append_assoc, List.getLast?_concat]⟩

end WriteCourse

/-- A write returns no error exactly if all its commands have been acknowledged. -/
theorem ComesTo.eq_ok_iff {codec : ValueCodec} {limit : Nat} {plan : List WriteCommand}
    {past : List Transacted} {result : Except WriteError Unit}
    (hcomes : ComesTo codec limit plan past result) :
    result = .ok () ↔ WriteCourse codec limit plan past [] 0 := by
  cases hcomes with
  | success hcourse => exact iff_of_true rfl hcourse
  | failure hcourse hattempt =>
      refine iff_of_false (by simp) fun hall => ?_
      have hplan : plan ≠ [] := by
        obtain ⟨made, rfl⟩ := hcourse.exists_made
        simp
      obtain ⟨request, response, hlast⟩ := hall.getLast?_of_nil hplan
      cases hattempt with
      | fails =>
          rw [← List.append_assoc, List.getLast?_concat] at hlast
          simp at hlast

/-! ## Where a write stands -/

namespace CallPhase

/-- The phase of a write tells how far it has come with its plan. -/
inductive Follows (codec : ValueCodec) (limit : Nat) (plan : List WriteCommand) :
    List Transacted → Option Transaction → CallPhase → Prop where
  | announcing (device : DeviceId) (transaction : Option Transaction) :
      Follows codec limit plan [] transaction (.announcing device plan)
  | awaitingSection (device : DeviceId) (transaction : Option Transaction) :
      Follows codec limit plan [] transaction (.awaitingSection device plan)
  | attempting {past : List Transacted} {rest : List WriteCommand} {failures : Nat}
      (transaction : Option Transaction)
      (hcourse : WriteCourse codec limit plan past rest failures) :
      Follows codec limit plan past transaction (.attempting ⟨rest, failures + 1⟩)
  | awaitingLink {past : List Transacted} {command : WriteCommand} {rest : List WriteCommand}
      {failures : Nat} (transaction : Option Transaction)
      (hcourse : WriteCourse codec limit plan past (command :: rest) failures) :
      Follows codec limit plan past transaction (.awaitingLink ⟨command :: rest, failures + 1⟩)
  | transacting {past part : List Transacted} {command : WriteCommand}
      {rest : List WriteCommand} {failures : Nat} {request : Request} {stage : Stage}
      (hcourse : WriteCourse codec limit plan past (command :: rest) failures)
      (hasks : command.Asks codec part request) :
      Follows codec limit plan (past ++ part) (some ⟨request, stage⟩)
        (.transacting ⟨command :: rest, failures + 1⟩)
  | finishing {past : List Transacted} {result : Except WriteError Unit}
      (transaction : Option Transaction) (hcomes : ComesTo codec limit plan past result) :
      Follows codec limit plan past transaction (.finishing result)

/-- The steps of its own that a write has left at most.  An attempt takes two of them. -/
def stepsLeft (limit : Nat) : CallPhase → Nat
  | announcing _ commands => 2 * (limit * commands.length) + 4
  | awaitingSection _ commands => 2 * (limit * commands.length) + 3
  | attempting job => 2 * (limit * job.commands.length + 1 - job.attempt) + 2
  | awaitingLink job => 2 * (limit * job.commands.length + 1 - job.attempt) + 1
  | transacting job => 2 * (limit * job.commands.length - job.attempt) + 2
  | finishing _ => 1
  | posting _ | stopping | awaitingShutdown => 0

namespace Follows

variable {codec : ValueCodec} {limit : Nat} {plan : List WriteCommand} {past : List Transacted}
variable {transaction : Option Transaction} {phase : CallPhase}

theorem isWrite (hfollows : phase.Follows codec limit plan past transaction) :
    phase.isWrite = true := by
  cases hfollows <;> rfl

theorem stepsLeft_pos (hfollows : phase.Follows codec limit plan past transaction) :
    0 < phase.stepsLeft limit := by
  cases hfollows <;> exact Nat.succ_pos _

theorem commands_subset (hfollows : phase.Follows codec limit plan past transaction) :
    phase.commands ⊆ plan := by
  cases hfollows with
  | announcing | awaitingSection => exact List.Subset.refl _
  | attempting _ hcourse | awaitingLink _ hcourse | transacting hcourse =>
      obtain ⟨made, rfl⟩ := hcourse.exists_made
      exact List.subset_append_right _ _
  | finishing => exact List.nil_subset _

/-- While it is not in a transaction, a write is not concerned with any. -/
theorem of_not_transacting (hfollows : phase.Follows codec limit plan past transaction)
    (hphase : phase.isTransacting = false) (other : Option Transaction) :
    phase.Follows codec limit plan past other := by
  cases hfollows with
  | announcing device => exact .announcing device other
  | awaitingSection device => exact .awaitingSection device other
  | attempting _ hcourse => exact .attempting other hcourse
  | awaitingLink _ hcourse => exact .awaitingLink other hcourse
  | transacting => cases hphase
  | finishing _ hcomes => exact .finishing other hcomes

/-- What becomes of a write whose attempt fails. -/
theorem of_failure {command : WriteCommand} {rest : List WriteCommand} {failures : Nat}
    {part : List Transacted} {error : RequestError}
    (hcourse : WriteCourse codec limit plan past (command :: rest) failures)
    (hattempt : command.Attempt codec part (.error error)) (hlimit : 0 < limit)
    (transaction : Option Transaction) :
    (WriteJob.afterFailure limit command error ⟨command :: rest, failures + 1⟩).Follows codec limit
      plan (past ++ part) transaction := by
  have hlt := hcourse.lt_limit hlimit
  rw [WriteJob.afterFailure]
  split
  · next hending =>
      have hcomes := ComesTo.failure hcourse hattempt fun htransport => by
        cases error <;> cases hending <;> cases htransport
      rw [if_pos hending] at hcomes
      exact .finishing transaction hcomes
  · next hending =>
      split
      · next hretry =>
          simp only [Bool.and_eq_true, decide_eq_true_eq] at hretry
          exact .attempting transaction (.retried hcourse hattempt hretry.1 hretry.2)
      · next hgiven =>
          have hcomes := ComesTo.failure hcourse hattempt fun htransport => by
            simp only [htransport, Bool.true_and, decide_eq_true_eq] at hgiven
            omega
          rw [if_neg hending] at hcomes
          exact .finishing transaction hcomes

end Follows

end CallPhase

namespace WriteStep

open CallPhase

variable {c after : Traffic} {action : Action} {id limit : Nat} {old new : CallPhase}
variable {shown : Option Transacted} {codec : ValueCodec} {plan : List WriteCommand}
variable {past : List Transacted}

/-- Every step keeps the account of a write. -/
theorem follows (hstep : WriteStep c after action id limit old new shown)
    (hcodec : c.codec = codec) (hlimit : 0 < limit)
    (hgoes : ∀ job transaction, new = .transacting job → shown = none →
      c.transaction = some transaction → old = new →
        ∃ next, after.transaction = some ⟨transaction.request, next⟩)
    (hfollows : old.Follows codec limit plan past c.transaction) :
    new.Follows codec limit plan (past ++ shown.toList) after.transaction := by
  generalize htransaction : c.transaction = transaction at hfollows
  cases hstep with
  | keep haction =>
      rw [Option.toList_none, List.append_nil]
      cases hphase : old.isTransacting with
      | false => exact hfollows.of_not_transacting hphase _
      | true =>
          cases hfollows with
          | transacting hcourse hasks =>
              obtain ⟨next, hnext⟩ := hgoes _ _ rfl rfl htransaction rfl
              rw [hnext]
              exact .transacting hcourse hasks
          | announcing | awaitingSection | attempting | awaitingLink | finishing => cases hphase
  | @announce device =>
      cases hfollows with
      | announcing => exact .awaitingSection device _
  | enter =>
      cases hfollows with
      | awaitingSection => exact .attempting _ .begins
  | seek hjob =>
      cases hfollows with
      | @attempting _ rest _ _ hcourse =>
          cases rest with
          | nil => exact absurd rfl hjob
          | cons command rest =>
              rw [Option.toList_none, List.append_nil]
              exact .awaitingLink _ hcourse
  | finish hjob hphase =>
      rw [Option.toList_none, List.append_nil]
      rcases hphase with rfl | rfl
      · cases hfollows with
        | attempting _ hcourse =>
            obtain rfl := hjob
            have hnone : WriteCourse codec limit plan past [] 0 := by
              cases hcourse with
              | begins => exact .begins
              | acknowledged hbefore hattempt => exact .acknowledged hbefore hattempt
            exact .finishing _ (.success hnone)
      · cases hfollows with
        | awaitingLink _ hcourse => cases hjob
  | begin hjob hafter =>
      cases hfollows with
      | awaitingLink _ hcourse =>
          obtain ⟨rfl, rfl⟩ := List.cons.inj hjob
          rw [hafter]
          exact .transacting hcourse .first
  | store haction hjob hnow =>
      cases hfollows with
      | transacting hcourse hasks =>
          obtain ⟨rfl, rfl⟩ := List.cons.inj hjob
          obtain ⟨rfl, rfl⟩ := Transaction.mk.inj (Option.some.inj (hnow.symm.trans htransaction))
          rw [List.append_assoc]
          exact .attempting _ (.acknowledged hcourse (.stores hasks))
  | fail haction hjob hnow =>
      cases hfollows with
      | transacting hcourse hasks =>
          obtain ⟨rfl, rfl⟩ := List.cons.inj hjob
          obtain rfl := Option.some.inj (hnow.symm.trans htransaction)
          rw [List.append_assoc]
          exact .of_failure hcourse (.fails hasks) hlimit _
  | writeBack haction hjob hfield hencode hnow hafter =>
      cases hfollows with
      | transacting hcourse hasks =>
          obtain ⟨rfl, rfl⟩ := List.cons.inj hjob
          obtain ⟨rfl, rfl⟩ := Transaction.mk.inj (Option.some.inj (hnow.symm.trans htransaction))
          obtain rfl := hasks.eq_nil_of_read rfl
          subst hcodec
          rw [List.append_nil, hafter]
          exact .transacting hcourse (.writeBack hfield hencode)

/-- An own step of a write brings it closer to its return, and nothing else takes it back. -/
theorem stepsLeft_le (hstep : WriteStep c after action id limit old new shown)
    (hlimit : 0 < limit) (hfollows : old.Follows codec limit plan past c.transaction) :
    new.stepsLeft limit + (action.isStepOf id).toNat ≤ old.stepsLeft limit := by
  have hown := (action.isStepOf id).toNat_le
  generalize htransaction : c.transaction = transaction at hfollows
  cases hstep with
  | keep haction =>
      rw [haction]
      exact Nat.le_refl _
  | announce =>
      simp only [stepsLeft]
      omega
  | enter =>
      simp only [stepsLeft]
      omega
  | seek =>
      simp only [stepsLeft]
      omega
  | finish hjob hphase =>
      rcases hphase with rfl | rfl
      · simp only [stepsLeft]
        omega
      · cases hfollows with
        | awaitingLink => cases hjob
  | begin =>
      cases hfollows with
      | @awaitingLink _ _ rest failures _ hcourse =>
          have hlt := hcourse.lt_limit hlimit
          simp only [stepsLeft, List.length_cons, Nat.mul_succ]
          omega
  | store haction hjob =>
      cases hfollows with
      | transacting hcourse =>
          obtain ⟨rfl, rfl⟩ := List.cons.inj hjob
          have hlt := hcourse.lt_limit hlimit
          rw [haction]
          simp only [stepsLeft, List.length_cons, Nat.mul_succ, Bool.toNat_false]
          omega
  | fail haction hjob =>
      rw [haction, WriteJob.afterFailure]
      split
      · simp only [stepsLeft, Bool.toNat_false]
        omega
      · split
        · simp only [stepsLeft, Bool.toNat_false]
          omega
        · simp only [stepsLeft, Bool.toNat_false]
          omega
  | writeBack haction =>
      rw [haction]
      exact Nat.le_refl _

end WriteStep

namespace Connection

/-! ## The attempts of a call -/

/-- The call waits for a lock that somebody else has, or for its transaction to end. -/
def Waits (c : Connection) (id : Nat) : Prop :=
  ∃ phase, Calls.phase? c.calls id = some phase ∧
    (phase.sectionStance = .queued ∧ c.writeSection.holder ≠ some (.call id) ∨
      phase.linkStance = .queued ∧ c.linkLock.holder ≠ some (.call id) ∨
        phase.isTransacting = true ∧ c.transaction ≠ none)

/-- What a write does at a moment of its course, after the transactions that have ended by then. -/
structure Attempts (limit : Nat) (plan : List WriteCommand) (id : Nat) (during : List Transition)
    (transition : Transition) : Prop where
  /-- A request belongs to an attempt at the first command that is not acknowledged. -/
  requests : ∀ request, transition.before.Hands transition.action (.call id) request →
    ∃ past part command rest failures,
      transactionsOf id (during ++ [transition]) = past ++ part ∧
        WriteCourse registerCodec limit plan past (command :: rest) failures ∧
          failures < limit ∧ command.Asks registerCodec part request
  result : ∀ result, .callReturns id (.write result) ∈ transition.events →
    ComesTo registerCodec limit plan (transactionsOf id during) result ∧
      (result = .ok () ↔ WriteCourse registerCodec limit plan (transactionsOf id during) [] 0)
  /-- Unless it waits, the write can go on, and it does not do so for ever. -/
  goesOn : (transition.before.step (.run (.call id))).isSome = true ∨ transition.before.Waits id
  bounded : (during.countP fun earlier => earlier.action.isStepOf id) <
    2 * (limit * plan.length) + 4

variable {start final c : Connection} {path : List Transition} {id limit maxSpan : Nat}
variable {plan : List WriteCommand} {past : List Transacted} {named : List Point}
variable {first last : CallPhase}

/-- A connection that is not closing has not been closing before. -/
theorem Path.closing_eq_false (hpath : Path start path final) (horderly : start.traffic.Orderly)
    (hopen : final.closing = false) : start.closing = false := by
  induction hpath with
  | nil => exact hopen
  | cons hstep _ ih =>
      have hmove := move_of_step horderly hstep
      have hafter := ih (hmove.orderly horderly) hopen
      by_contra hclosing
      have hstill := hmove.closing ((Bool.not_eq_false _).mp hclosing)
      exact Bool.false_ne_true (hafter.symm.trans hstill)

/-- The account of a write holds for as long as the call lasts. -/
theorem Path.follows (hpath : Path start path final) (horderly : start.traffic.Orderly)
    (hcodec : start.codec = registerCodec) (hlimit : limit = 1 + start.settings.link.retry.toNat)
    (hspan : maxSpan < UInt16.size) (hserves : ∀ command ∈ plan, command.Serves maxSpan named)
    (hsame : ∀ transition ∈ path, ∀ request, transition.action ≠ .start id request)
    (hopen : final.closing = false) (hfirst : Calls.phase? start.calls id = some first)
    (hlast : Calls.phase? final.calls id = some last)
    (hfollows : first.Follows registerCodec limit plan past start.transaction) :
    last.Follows registerCodec limit plan (past ++ transactionsOf id path) final.transaction ∧
      last.stepsLeft limit + path.countP (fun transition => transition.action.isStepOf id) ≤
        first.stepsLeft limit := by
  induction hpath generalizing past first with
  | nil =>
      obtain rfl := Option.some.inj (hfirst.symm.trans hlast)
      rw [transactionsOf, List.filterMap_nil, List.append_nil]
      exact ⟨hfollows, Nat.le_refl _⟩
  | @cons before after _ action events rest hstep hrest ih =>
      have hmove := move_of_step horderly hstep
      have hafter := hmove.orderly horderly
      have hrestSame := fun transition hmem => hsame transition (List.mem_cons_of_mem _ hmem)
      obtain ⟨middle, hmiddle⟩ := Option.ne_none_iff_exists'.mp
        (hrest.present hafter hrestSame (by simp [hlast]))
      have hpositive : 0 < limit := by omega
      have hwrite := hmove.write_step horderly
        ((Path.cons hstep hrest).closing_eq_false horderly hopen) hcodec hspan
        (fun command hcommand => hserves command (hfollows.commands_subset hcommand)) hfirst
        hfollows.isWrite hmiddle
      rw [show 1 + before.traffic.settings.link.retry.toNat = limit from hlimit.symm] at hwrite
      have hnow := hwrite.follows hcodec hpositive
        (fun job transaction hnew hnone htransaction hold =>
          hmove.request_of_transacting horderly (hold.trans hnew ▸ hfirst) (hnew ▸ hmiddle) hnone
            htransaction) hfollows
      have hless := hwrite.stepsLeft_le hpositive hfollows
      obtain ⟨hend, hsteps⟩ := ih hafter (hmove.codec_eq.trans hcodec)
        (by rw [show after.settings = before.settings from hmove.settings_eq, hlimit])
        hrestSame hopen hmiddle hlast hnow
      rw [transactionsOf_cons, ← List.append_assoc]
      refine ⟨hend, ?_⟩
      rw [List.countP_cons]
      cases hown : action.isStepOf id with
      | false =>
          rw [hown, Bool.toNat_false] at hless
          rw [if_neg Bool.false_ne_true]
          exact hsteps.trans hless
      | true =>
          rw [hown, Bool.toNat_true] at hless
          rw [if_pos rfl]
          omega

/-- A write that does not wait can take its next step. -/
theorem step_or_waits (horderly : c.traffic.Orderly) (hphase : Calls.phase? c.calls id = some last)
    (hwrite : last.isWrite = true) : (c.step (.run (.call id))).isSome = true ∨ c.Waits id := by
  have hcall := call?_eq_some hphase
  rw [step, hcall, Option.bind_some, runCall?]
  cases last with
  | posting | stopping | awaitingShutdown => cases hwrite
  | announcing | finishing => exact .inl rfl
  | attempting job =>
      dsimp only
      split
      · exact .inl rfl
      · split <;> exact .inl rfl
  | awaitingSection =>
      dsimp only
      split
      · exact .inl rfl
      · next hfree =>
          exact .inr ⟨_, hphase, .inl ⟨rfl, fun hheld => hfree (FairLock.isHeldBy_iff.mpr hheld)⟩⟩
  | awaitingLink =>
      dsimp only
      split
      · split <;> exact .inl rfl
      · next hfree =>
          exact .inr ⟨_, hphase,
            .inr (.inl ⟨rfl, fun hheld => hfree (FairLock.isHeldBy_iff.mpr hheld)⟩)⟩
  | transacting job =>
      exact .inr ⟨_, hphase,
        .inr (.inr ⟨rfl, horderly.busy.mpr ⟨_, Traffic.stance_call (c := c.traffic) hphase⟩⟩)⟩

/-- What a write hands to the link is the next request of its course. -/
theorem Hands.asks {action : Action} {request : Request} {phase : CallPhase}
    (hhands : c.Hands action (.call id) request) (horderly : c.traffic.Orderly)
    (hcodec : c.codec = registerCodec) (hphase : Calls.phase? c.calls id = some phase)
    (hfollows : phase.Follows registerCodec limit plan past c.transaction) :
    ∃ before part command rest failures,
      past ++ (c.traffic.transacted? id action).toList = before ++ part ∧
        WriteCourse registerCodec limit plan before (command :: rest) failures ∧
          command.Asks registerCodec part request := by
  generalize htransaction : c.transaction = transaction at hfollows
  cases hhands with
  | attempt hwaiting hheld hopen hjob =>
      obtain rfl := Option.some.inj (hphase.symm.trans hwaiting)
      cases hfollows with
      | awaitingLink _ hcourse =>
          obtain ⟨rfl, rfl⟩ := List.cons.inj hjob
          rw [Traffic.transacted?_of_silent rfl]
          exact ⟨_, [], _, _, _, rfl, hcourse, .first⟩
  | @writeBack _ _ _ _ _ _ _ _ _ others _ htransacting hjob hfield hverdict hencode =>
      obtain rfl := Option.some.inj (hphase.symm.trans htransacting)
      obtain ⟨since, hsome⟩ := Traffic.transaction_of_verdict hverdict
      have hheld := horderly.held_of_transacting htransacting
      rw [Traffic.transacted?_of_verdict hheld hverdict]
      cases hfollows with
      | transacting hcourse hasks =>
          obtain ⟨rfl, rfl⟩ := List.cons.inj hjob
          obtain ⟨rfl, -⟩ := Transaction.mk.inj (Option.some.inj (htransaction.symm.trans hsome))
          obtain rfl := hasks.eq_nil_of_read rfl
          obtain rfl := Move.readRequest_of_transacting horderly hsome htransacting rfl
          obtain ⟨current, hone⟩ := Traffic.registers_of_verdict hverdict
          obtain ⟨rfl, rfl⟩ := List.cons.inj (Response.registers.inj hone)
          rw [hcodec] at hencode
          rw [List.append_nil]
          exact ⟨_, _, _, _, _, rfl, hcourse, .writeBack hfield hencode⟩

variable {settings : ConnectionSettings} {declared : List Point} {device : DeviceId}
variable {writes : List PointWrite} {earlier during : List Transition}
variable {call transition : Transition}

/-- A write makes the attempts that its plan and the retry setting ask for, and no others, at every
moment until it returns what they have come to. -/
theorem write_attempts
    (hpath : Path (create settings registerCodec declared).1
      (earlier ++ call :: (during ++ [transition])) final)
    (hcall : call.action = .start id (.write device writes))
    (hsame : ∀ transition ∈ during, ∀ request, transition.action ≠ .start id request)
    (hpresent : Calls.phase? transition.before.calls id ≠ none)
    (hopen : transition.before.closing = false) :
    ∃ plan, (create settings registerCodec declared).1.plan device writes = .ok plan ∧
      Attempts (1 + settings.link.retry.toNat) plan id during transition := by
  have hcreate := create_orderly settings registerCodec declared
  obtain ⟨hearlier, hcallStep, hrest⟩ := hpath.split
  obtain ⟨hduring, hstep, -⟩ := hrest.split
  have hbefore := hearlier.orderly hcreate
  have hcallMove := move_of_step hbefore hcallStep
  have hafter := hcallMove.orderly hbefore
  have hready := hduring.orderly hafter
  have hnew : Calls.phase? call.before.calls id = none := by
    rw [hcall] at hcallStep
    exact phase?_of_start hcallStep
  obtain ⟨plan, hplan, hannouncing⟩ :=
    hcallMove.plan_of_start hcall hnew (hduring.present hafter hsame hpresent)
  have hplanned : call.before.plan device writes = .ok plan := hplan
  rw [hearlier.plan_eq hcreate] at hplanned
  have hcodec : call.after.codec = registerCodec :=
    hcallMove.codec_eq.trans (hearlier.codec_eq hcreate)
  have hsettings : call.after.settings = settings :=
    hcallMove.settings_eq.trans (hearlier.settings_eq hcreate)
  have hserves := PointWrite.plan_serves (create_valid settings registerCodec declared) hplanned
  obtain ⟨phase, hphase⟩ := Option.ne_none_iff_exists'.mp hpresent
  -- The account of the write at this moment has all that is to be shown.
  obtain ⟨hfollows, hsteps⟩ := hduring.follows hafter hcodec (by rw [hsettings])
    settings.link.maxWriteSpan.toNat_lt hserves hsame hopen hannouncing hphase
    (.announcing device call.after.transaction)
  rw [List.nil_append] at hfollows
  have hstill := (hduring.codec_eq hafter).trans hcodec
  have hpositive : 0 < 1 + settings.link.retry.toNat := by omega
  refine ⟨plan, hplanned, ?_, ?_, step_or_waits hready hphase hfollows.isWrite, ?_⟩
  · intro request hhands
    obtain ⟨past, part, command, rest, failures, hsplit, hcourse, hasks⟩ :=
      hhands.asks hready hstill hphase hfollows
    refine ⟨past, part, command, rest, failures, ?_, hcourse, hcourse.lt_limit hpositive, hasks⟩
    rw [transactionsOf_concat, hsplit]
  · intro result hreturns
    have hreturn := (move_of_step hready hstep).of_returns hreturns
    generalize transition.action = action at hreturn hstep
    cases hreturn with
    | refused => exact absurd (phase?_of_start hstep) hpresent
    | write hfinishing =>
        obtain rfl := Option.some.inj (hphase.symm.trans hfinishing)
        generalize transactionsOf id during = past, transition.before.transaction = transaction
          at hfollows ⊢
        cases hfollows with
        | finishing _ hcomes => exact ⟨hcomes, hcomes.eq_ok_iff⟩
  · have hleft := hfollows.stepsLeft_pos
    rw [CallPhase.stepsLeft] at hsteps
    omega

/-- The neighbours are stored by the second attempt.  The register of the bit field is read twice,
since the first value that is written to it is not acknowledged. -/
theorem sampleReturn_attempts :
    ∃ plan, sampleRegisters.plan ⟨"plant"⟩ PointWrite.sample = .ok plan ∧
      Attempts 4 plan 0 sampleDuring sampleReturn ∧
        (transactionsOf 0 sampleDuring).map (·.result.isOk) =
          [false, true, true, false, true, true, true] := by
  have hpath : Path sampleRegisters ([] ++ samplePath) sampleReturn.after := path_samplePath
  have hpresent : (Calls.phase? sampleReturn.before.calls 0).isSome = true := by decide +kernel
  obtain ⟨plan, hplan, hattempts⟩ := write_attempts hpath rfl sampleDuring_ne_start
    (Option.isSome_iff_ne_none.mp hpresent) (by decide +kernel)
  exact ⟨plan, hplan, hattempts, by decide +kernel⟩

end Connection

end Fieldbus

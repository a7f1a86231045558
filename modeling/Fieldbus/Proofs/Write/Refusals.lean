import Fieldbus.Proofs.Link.Requests
import Fieldbus.Proofs.Write.Outcome

/-!
# Refusals

A write is refused for what its caller has asked for before anything is done for it, so a refusal
leaves the connection as it was.  The value of a bit field is encoded once more when its register
has been read, and that is never a reason to refuse it any more.
-/

namespace Fieldbus

open Codec

/-- The error is about what the caller has asked for, and not about the link. -/
def WriteError.isRefusal : WriteError → Bool
  | empty | unknownPoint _ _ | notWritable _ | unsupportedRegisterClass _ | encoding _ => true
  | request _ _ | closed => false

theorem WriteJob.isRefusal_of_afterFailure {attempts : Nat} {command : WriteCommand}
    {cause : RequestError} {job : WriteJob} {error : WriteError}
    (hfinishing : job.afterFailure attempts command cause = .finishing (.error error)) :
    error.isRefusal = false := by
  rcases job.afterFailure_cases attempts command cause with hnext | ⟨failure, hnext, hfailure⟩
  · simp [hnext] at hfinishing
  · obtain rfl := Except.error.inj (CallPhase.finishing.inj (hnext.symm.trans hfinishing))
    rcases hfailure with rfl | rfl <;> rfl

/-- A write that has begun comes to a refusal only if the value of a bit field cannot be encoded
against its register. -/
theorem Move.refusal {c after : Traffic} {action : Action} {events : List Event} {id : Nat}
    {error : WriteError} (hmove : Move c action events after)
    (hphase : Calls.phase? after.calls id = some (.finishing (.error error)))
    (hrefusal : error.isRefusal = true) :
    Calls.phase? c.calls id = some (.finishing (.error error)) ∨
      ∃ job command rest point value current cause,
        Calls.phase? c.calls id = some (.transacting job) ∧ job.commands = command :: rest ∧
          command.field = some (point, value) ∧
            c.codec.encode point value (some current) = .error cause := by
  have hset {other : Nat} {new : CallPhase} (hcalls : after.calls = Calls.set other new c.calls)
      (hnew : new ≠ .finishing (.error error)) :
      Calls.phase? c.calls id = some (.finishing (.error error)) :=
    Calls.phase?_of_set hnew (hcalls ▸ hphase)
  have hresult {listed : Prop} {closing : Prop} {result : Except WriteError Unit}
      (hends : listed ∧ result = .ok () ∨ closing ∧ result = .error .closed) :
      CallPhase.finishing result ≠ .finishing (.error error) := by
    intro hsame
    obtain rfl := CallPhase.finishing.inj hsame
    rcases hends with ⟨-, hok⟩ | ⟨-, hclosed⟩
    · cases hok
    · obtain rfl := Except.error.inj hclosed
      cases hrefusal
  have hfailed {attempts : Nat} {command : WriteCommand} {cause : RequestError} {job : WriteJob} :
      job.afterFailure attempts command cause ≠ .finishing (.error error) := by
    intro hfinishing
    rw [WriteJob.isRefusal_of_afterFailure hfinishing] at hrefusal
    cases hrefusal
  cases hmove with
  | elapse | stay | stroll | clear | seekLink | seekSetting | seekShutdown | leaveLink
  | endScheduler | poll | refuse | proceed | endPoll | writeBack => exact .inl hphase
  | startWrite hnew | startPosting hnew => exact .inl (Calls.phase?_of_add hnew (by simp) hphase)
  | endSetting | callShutdown | «return» | cancel => exact .inl (Calls.phase?_of_remove hphase)
  | postClose | callSeekShutdown | announce | enterSection | callSeekLink | attempt | store =>
      exact .inl (hset rfl (by simp))
  | finish hbefore hends | callLeaveLink hbefore hheld hends =>
      exact .inl (hset rfl (hresult hends))
  | refuseAttempt => exact .inl (hset rfl hfailed)
  | fail => exact .inl (hset rfl hfailed)
  | misfit htransaction hbefore hturn hjob hfield hencode =>
      rw [Calls.phase?_set_apply] at hphase
      split at hphase
      · next hsame =>
          subst hsame
          exact .inr ⟨_, _, _, _, _, _, _, hbefore, hjob, hfield, hencode⟩
      · exact .inl hphase

namespace Connection

/-- A write is refused by the very step with which it is called for, for a reason that lies in its
plan, and nothing else happens. -/
structure Refuses (id : Nat) (error : WriteError) (transition : Transition) : Prop where
  call : ∃ device writes, transition.action = .start id (.write device writes) ∧
    transition.before.prepareWrite device writes = .error error
  fresh : Calls.phase? transition.before.calls id = none
  after_eq : transition.after = transition.before
  events_eq : transition.events = [.callReturns id (.write (.error error))]

variable {settings : ConnectionSettings} {declared : List Point}
variable {path earlier later : List Transition} {transition : Transition} {final : Connection}
variable {id : Nat} {error : WriteError}

/-- No write that has begun is ever refused.  The commands that a call has left come from its plan,
so every bit field among them can be written whatever its register holds. -/
theorem Path.isRefusal_of_finishing
    (hpath : Path (create settings registerCodec declared).1 path final)
    (hphase : Calls.phase? final.calls id = some (.finishing (.error error))) :
    error.isRefusal = false := by
  have hcreate := create_orderly settings registerCodec declared
  refine hpath.history (motive := fun _ state => ∀ id error,
    Calls.phase? state.calls id = some (.finishing (.error error)) → error.isRefusal = false)
    (fun id error hnew => by simp [create, Calls.phase?] at hnew) ?_ id error hphase
  intro past before action after events hpast hbefore hstep id error hafter
  by_contra hrefusal
  rw [Bool.not_eq_false] at hrefusal
  rcases (move_of_step (hpast.orderly hcreate) hstep).refusal hafter hrefusal with
    hsame | ⟨job, command, rest, point, value, current, cause, htransacting, hjob, hfield, hencode⟩
  · rw [hbefore id error hsame] at hrefusal
    cases hrefusal
  · obtain ⟨request, since, -, haccount⟩ := hpast.account htransacting
    obtain ⟨device, writes, planned, -, hplan, hlisted⟩ :=
      haccount.commands command (by rw [CallPhase.commands, hjob]; exact List.mem_cons_self)
    have hsound := PointWrite.plan_sound (create_valid settings registerCodec declared) hplan
      command hlisted
    obtain ⟨field, number, -, -, hencodes⟩ := (hsound.field point value hfield).encodes
    obtain ⟨new, hnew, -⟩ := hencodes current
    have hcodec : before.traffic.codec = registerCodec := hpast.codec_eq hcreate
    rw [hcodec] at hencode
    cases hencode.symm.trans hnew

/-- A refused write has done nothing, and it is refused before any transaction of it.  In particular
whether a value can be encoded does not depend on what a register holds. -/
theorem refusal_changes_nothing
    (hpath : Path (create settings registerCodec declared).1 (earlier ++ transition :: later)
      final)
    (hreturns : .callReturns id (.write (.error error)) ∈ transition.events)
    (hrefusal : error.isRefusal = true) :
    Refuses id error transition ∧
      ∀ point value old new cause, registerCodec.encode point value (some old) = .error cause ↔
        registerCodec.encode point value (some new) = .error cause := by
  refine ⟨?_, encode_eq_error_iff⟩
  obtain ⟨hearlier, hstep, -⟩ := hpath.split
  have horderly := hearlier.orderly (create_orderly settings registerCodec declared)
  have hreturn := (move_of_step horderly hstep).of_returns hreturns
  generalize haction : transition.action = action at hreturn hstep
  cases hreturn with
  | refused =>
      obtain ⟨hprepare, hafter, hevents⟩ := refused_of_start hstep hreturns
      exact ⟨⟨_, _, haction, hprepare⟩, phase?_of_start hstep, hafter, hevents⟩
  | write hphase =>
      rw [hearlier.isRefusal_of_finishing hphase] at hrefusal
      cases hrefusal

/-- The first point of the call could be written, but the value of the second one does not fit. -/
def sampleOverflow : Transition :=
  sampleRegisters.next (.start 0 (.write ⟨"plant"⟩ [⟨"last", .int 9⟩, ⟨"low", .int 256⟩]))

theorem sampleOverflow_refuses :
    Refuses 0 (.encoding (.bitFieldOverflow 256 8)) sampleOverflow := by
  have hpath : Path sampleRegisters ([] ++ [sampleOverflow]) sampleOverflow.after :=
    .cons_next (by decide +kernel) (.nil _)
  have hreturns : .callReturns 0 (.write (.error (.encoding (.bitFieldOverflow 256 8)))) ∈
      sampleOverflow.events := mem_returned.mp (by decide +kernel)
  exact (refusal_changes_nothing hpath hreturns rfl).1

end Connection

end Fieldbus

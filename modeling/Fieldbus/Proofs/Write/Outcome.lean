import Fieldbus.Proofs.Run.Phases
import Fieldbus.Proofs.Write.Plans
import Fieldbus.Proofs.Write.Section

/-!
# The outcome of a write

A write that is alone and succeeds leaves the memory as if its points had been written one after
the other, whatever attempts have failed before, and whether the device had made them or not.
-/

namespace Fieldbus

open Codec

/-- The device has made some commands, and perhaps the next one without being heard. -/
def Traffic.HasMade (before memory : Memory) (made rest : List WriteCommand) : Prop :=
  memory = WriteCommand.applyAll registerCodec made before ∨
    ∃ command, rest.head? = some command ∧
      memory = command.apply registerCodec (WriteCommand.applyAll registerCodec made before)

namespace Traffic

/-- The write has failed. -/
def Failed (c : Traffic) (id : Nat) : Prop :=
  ∃ error, Calls.phase? c.calls id = some (.finishing (.error error))

/-- What a write has done so far.  Outside the write section it has done nothing; inside, all
commands have been made that it does not have to make any more. -/
structure Outcome (c : Traffic) (id : Nat) (plan : List WriteCommand) (before memory : Memory) :
    Prop where
  planned : ∀ phase commands, Calls.phase? c.calls id = some phase →
    phase.planned? = some commands → commands = plan
  outside : c.todo? id = none → memory = before
  inside : ∀ rest, c.todo? id = some rest → ¬c.Failed id →
    ∃ made, plan = made ++ rest ∧ HasMade before memory made rest

variable {c after : Traffic} {action : Action} {events : List Event} {id : Nat}
variable {plan : List WriteCommand} {before memory next : Memory}

/-- A device changes only by the command of the call that is in a transaction. -/
theorem mayLose_cases (horderly : c.Orderly) (hprepared : c.Prepared memory)
    (hmay : memory.MayLose next (c.verdict? action)) :
    next = memory ∨ ∃ caller command rest, c.todo? caller = some (command :: rest) ∧
      next = command.apply c.codec memory := by
  cases hverdict : c.verdict? action with
  | none =>
      rw [hverdict] at hmay
      exact .inl hmay
  | some verdict =>
      obtain ⟨request, result⟩ := verdict
      rw [hverdict] at hmay
      have hanswered : next = memory ∨ next = (memory.answer request).1 := by
        cases result with
        | error error => exact hmay
        | ok response => exact .inr (Prod.mk.inj (show memory.answer request = _ from hmay)).1.symm
      rcases hanswered with hsame | hanswer
      · exact .inl hsame
      · cases request with
        | read read => exact .inl hanswer
        | write stored =>
            obtain ⟨since, htransaction⟩ := transaction_of_verdict hverdict
            obtain ⟨caller, job, command, rest, -, hphase, hjob⟩ :=
              horderly.exists_command htransaction
            refine .inr ⟨caller, command, rest, ?_, ?_⟩
            · rw [todo?_of_phase hphase, ← hjob]
              rfl
            · rw [hanswer]
              exact hprepared caller job command rest stored _ hphase hjob htransaction

/-- An acknowledged command has been made. -/
theorem eq_apply_of_done {command : WriteCommand} (hprepared : c.Prepared memory)
    (hmay : memory.MayLose next (c.verdict? action)) (hdone : c.done? action = some (id, command)) :
    next = command.apply c.codec memory := by
  obtain ⟨stored, response, job, rest, hverdict, hphase, hjob⟩ := done?_eq_some hdone
  obtain ⟨since, htransaction⟩ := transaction_of_verdict hverdict
  rw [hverdict] at hmay
  have hanswer : memory.answer (.write stored) = (next, response) := hmay
  rw [← hprepared id job command rest stored _ hphase hjob htransaction, hanswer]

/-- A call that has just been planned has done nothing, and nobody else is in a transaction. -/
theorem outcome_of_announcing {device : DeviceId}
    (hphase : Calls.phase? c.calls id = some (.announcing device plan))
    (halone : ∀ other, other ≠ id → c.todo? other = none) (memory : Memory) :
    c.Outcome id plan memory memory ∧ c.Prepared memory := by
  have htodo : c.todo? id = none := todo?_of_phase hphase
  constructor
  · refine ⟨fun phase commands hfound hcommands => ?_, fun _ => rfl, fun rest hrest => ?_⟩
    · obtain rfl := Option.some.inj (hphase.symm.trans hfound)
      exact (Option.some.inj hcommands).symm
    · simp [htodo] at hrest
  · intro other job command rest stored stage hother
    by_cases hid : other = id
    · subst hid
      have hsame := hphase.symm.trans hother
      simp at hsame
    · have hnone := halone other hid
      rw [todo?_of_phase hother] at hnone
      simp [CallPhase.todo?] at hnone

/-- All commands of a call have been made when it has succeeded. -/
theorem Outcome.eq_applyAll (houtcome : c.Outcome id plan before memory) (horderly : c.Orderly)
    (hprepared : c.Prepared memory) (halone : ∀ other, other ≠ id → c.todo? other = none)
    (hphase : Calls.phase? c.calls id = some (.finishing (.ok ())))
    (hmay : memory.MayLose next (c.verdict? action)) :
    next = WriteCommand.applyAll registerCodec plan before := by
  have htodo : c.todo? id = some [] := todo?_of_phase hphase
  have hlive : ¬c.Failed id := by
    rintro ⟨error, herror⟩
    have hsame := hphase.symm.trans herror
    simp at hsame
  obtain ⟨made, hsplit, hmade⟩ := houtcome.inside [] htodo hlive
  rw [List.append_nil] at hsplit
  have hmemory : memory = WriteCommand.applyAll registerCodec plan before := by
    rcases hmade with hall | ⟨command, hnext, -⟩
    · rw [hall, hsplit]
    · simp at hnext
  rcases mayLose_cases horderly hprepared hmay with hsame | ⟨caller, command, rest, hcaller, -⟩
  · exact hsame.trans hmemory
  · by_cases hid : caller = id
    · simp [hid, htodo] at hcaller
    · simp [halone caller hid] at hcaller

end Traffic

/-- A command that was made without being heard can be made again. -/
theorem Traffic.HasMade.apply {before memory : Memory} {made rest : List WriteCommand}
    {command : WriteCommand} (hmade : HasMade before memory made (command :: rest))
    (hsound : command.Sound) :
    command.apply registerCodec memory =
      command.apply registerCodec (WriteCommand.applyAll registerCodec made before) := by
  rcases hmade with rfl | ⟨first, hfirst, rfl⟩
  · rfl
  · obtain rfl := Option.some.inj hfirst
    exact hsound.apply_apply _

namespace Move

open Traffic

variable {c after : Traffic} {action : Action} {events : List Event} {id : Nat}
variable {plan : List WriteCommand} {before memory next : Memory}

/-- Every step keeps the account of a write that is alone. -/
theorem outcome (hmove : Move c action events after) (horderly : c.Orderly)
    (hcodec : c.codec = registerCodec) (hprepared : c.Prepared memory)
    (hsound : ∀ command ∈ plan, command.Sound)
    (halone : ∀ other, other ≠ id → c.todo? other = none)
    (hafterAlone : ∀ other, other ≠ id → after.todo? other = none)
    (hkept : ∀ other, action = .cancel other → c.todo? other = none)
    (hstart : ∀ request, action ≠ .start id request)
    (hpresent : Calls.phase? after.calls id ≠ none)
    (hmay : memory.MayLose next (c.verdict? action))
    (houtcome : c.Outcome id plan before memory) : after.Outcome id plan before next := by
  have hplanned : ∀ phase commands, Calls.phase? after.calls id = some phase →
      phase.planned? = some commands → commands = plan := by
    intro phase commands hphase hcommands
    rcases hmove.planned hphase hcommands with ⟨old, hold, hsame⟩ | ⟨device, writes, haction, -⟩
    · exact houtcome.planned old commands hold hsame
    · exact absurd haction (hstart _)
  have hself : ∀ other, c.todo? other ≠ none → other = id := by
    intro other hinside
    by_contra hother
    exact hinside (halone other hother)
  have hfailed : ¬after.Failed id → ¬c.Failed id := by
    rintro hnot ⟨error, herror⟩
    exact hnot ⟨error, hmove.finishing herror hpresent hstart⟩
  have hchange := mayLose_cases horderly hprepared hmay
  rw [hcodec] at hchange
  have hidle : c.todo? id = none → next = memory := by
    intro hnone
    rcases hchange with hsame | ⟨caller, command, rest, htodo, -⟩
    · exact hsame
    · obtain rfl := hself caller (by simp [htodo])
      simp [hnone] at htodo
  cases hmove.section_step horderly hkept with
  | keep hsame hentered hdone =>
      refine ⟨hplanned, fun hnone => ?_, fun rest hrest hlive => ?_⟩
      · rw [hsame] at hnone
        exact (hidle hnone).trans (houtcome.outside hnone)
      · rw [hsame] at hrest
        obtain ⟨made, hsplit, hmade⟩ := houtcome.inside rest hrest (hfailed hlive)
        refine ⟨made, hsplit, ?_⟩
        rcases hchange with rfl | ⟨caller, command, more, htodo, hnext⟩
        · exact hmade
        · obtain rfl := hself caller (by simp [htodo])
          obtain rfl := Option.some.inj (hrest.symm.trans htodo)
          refine .inr ⟨command, rfl, ?_⟩
          rw [hnext]
          exact hmade.apply (hsound command (by simp [hsplit]))
  | enter other commands hheld hset hentered hdone =>
      have hcaller : other = id := by
        by_contra hother
        simpa [hset] using hafterAlone other hother
      subst hcaller
      have hnone := horderly.todo_eq_none_of_entered hheld hentered other
      obtain ⟨device, hphase⟩ := phase?_of_entered hentered
      obtain rfl := houtcome.planned _ commands hphase rfl
      refine ⟨hplanned, fun hout => by simp [hset] at hout, fun rest hrest _ => ?_⟩
      obtain rfl : commands = rest := by simpa [hset] using hrest
      exact ⟨[], rfl, .inl ((hidle hnone).trans (houtcome.outside hnone))⟩
  | done other command more hinside hset hentered hdone =>
      obtain rfl := hself other (by simp [hinside])
      refine ⟨hplanned, fun hout => by simp [hset] at hout, fun rest hrest hlive => ?_⟩
      obtain rfl : more = rest := by simpa [hset] using hrest
      obtain ⟨made, hsplit, hmade⟩ := houtcome.inside _ hinside (hfailed hlive)
      refine ⟨made ++ [command], by simp [hsplit], .inl ?_⟩
      have hnext := eq_apply_of_done hprepared hmay hdone
      rw [hcodec] at hnext
      rw [hnext, WriteCommand.applyAll_append]
      exact hmade.apply (hsound command (by simp [hsplit]))
  | drop other commands hinside hset hentered hdone hfails =>
      obtain rfl := hself other (by simp [hinside])
      refine ⟨hplanned, fun hout => by simp [hset] at hout, fun rest hrest hlive => ?_⟩
      exact absurd hfails hlive
  | leave other result hinside hset hentered hdone hreturns hgone =>
      obtain rfl := hself other (by simp [hinside])
      exact absurd hgone hpresent

end Move

namespace Connection

/-- No other call is inside the write section. -/
def Alone (id : Nat) (path : List Transition) : Prop :=
  ∀ transition ∈ path, ∀ other, other ≠ id → transition.after.traffic.todo? other = none

variable {start final : Connection} {path : List Transition} {id : Nat}
variable {plan : List WriteCommand} {before memory last : Memory}

/-- The account of a write that is alone holds for as long as the call lasts. -/
theorem Path.outcome (hpath : Path start path final) (horderly : start.traffic.Orderly)
    (hcodec : start.codec = registerCodec) (hprepared : start.traffic.Prepared memory)
    (hsound : ∀ command ∈ plan, command.Sound)
    (halone : ∀ other, other ≠ id → start.traffic.todo? other = none)
    (hpathAlone : Alone id path)
    (hsame : ∀ transition ∈ path, ∀ request, transition.action ≠ .start id request)
    (hpresent : Calls.phase? final.calls id ≠ none)
    (hthreads : Threads Transition.MayStore memory path last)
    (houtcome : start.traffic.Outcome id plan before memory) :
    final.traffic.Outcome id plan before last ∧ final.traffic.Prepared last ∧
      ∀ other, other ≠ id → final.traffic.todo? other = none := by
  induction hpath generalizing memory with
  | nil =>
      cases hthreads
      exact ⟨houtcome, hprepared, halone⟩
  | @cons first second _ action events rest hstep hrest ih =>
      cases hthreads with
      | @cons _ next _ _ _ hmay hlater =>
          have hmove := move_of_step horderly hstep
          have hsecond := hmove.orderly horderly
          have hrestSame := fun transition hmem =>
            hsame transition (List.mem_cons_of_mem _ hmem)
          have hstill := hrest.present hsecond hrestSame hpresent
          have hkept : ∀ other, action = .cancel other → first.traffic.todo? other = none := by
            rintro other rfl
            apply halone other
            rintro rfl
            exact hstill (phase?_of_cancel hstep)
          have hsecondAlone := hpathAlone _ List.mem_cons_self
          apply ih hsecond (hmove.codec_eq.trans hcodec) (hmove.prepared horderly hprepared hmay)
            hsecondAlone (fun transition hmem => hpathAlone transition
              (List.mem_cons_of_mem _ hmem)) hrestSame hpresent hlater
          exact hmove.outcome horderly hcodec hprepared hsound halone hsecondAlone hkept
            (hsame _ List.mem_cons_self) hstill hmay houtcome

variable {settings : ConnectionSettings} {declared : List Point} {device : DeviceId}
variable {writes : List PointWrite} {earlier during : List Transition} {call finish : Transition}

/-- A write that is alone and succeeds leaves the memory as if its points had been written one
after the other in the order of the caller. -/
theorem write_performs
    (hpath : Path (create settings registerCodec declared).1
      (earlier ++ call :: (during ++ [finish])) final)
    (hcall : call.action = .start id (.write device writes))
    (hsame : ∀ transition ∈ during, ∀ request, transition.action ≠ .start id request)
    (hreturns : .callReturns id (.write (.ok ())) ∈ finish.events)
    (halone : Alone id (call :: during))
    (hstarts : PointWrite.ShareStarts (create settings registerCodec declared).1.points device
      writes)
    (hdevice : Threads Transition.MayStore before (call :: (during ++ [finish])) last) :
    Threads (PointWrite.Performs (create settings registerCodec declared).1.points device) before
      writes last := by
  have hcreate := create_orderly settings registerCodec declared
  obtain ⟨hearlier, hcallStep, hrest⟩ := hpath.split
  obtain ⟨hduring, hfinishStep, -⟩ := hrest.split
  have hbefore := hearlier.orderly hcreate
  have hcallMove := move_of_step hbefore hcallStep
  have hafter := hcallMove.orderly hbefore
  have hready := hduring.orderly hafter
  have hfinishMove := move_of_step hready hfinishStep
  have hfinishing := hfinishMove.finishing_of_returns hreturns
  have hpresent : Calls.phase? finish.before.calls id ≠ none := by
    rw [show Calls.phase? finish.before.calls id = _ from hfinishing]
    simp
  have hnew : Calls.phase? call.before.calls id = none := by
    rw [hcall] at hcallStep
    exact phase?_of_start hcallStep
  -- The call carries the commands of its plan, and the device is as it was.
  obtain ⟨plan, hplan, hphase⟩ :=
    hcallMove.plan_of_start hcall hnew (hduring.present hafter hsame hpresent)
  have hstarted : call.before.plan device writes = .ok plan := hplan
  rw [hearlier.plan_eq hcreate] at hstarted
  have hcodec : call.after.codec = registerCodec :=
    hcallMove.codec_eq.trans (hearlier.codec_eq hcreate)
  have hvalid := create_valid settings registerCodec declared
  have hsound := PointWrite.plan_sound hvalid hstarted
  cases hdevice with
  | @cons _ started _ _ _ hfirst hlater =>
      have hunchanged : started = before := by
        rw [Transition.MayStore, Traffic.verdict?_eq_none (by rw [hcall]; rfl)] at hfirst
        exact hfirst
      subst hunchanged
      obtain ⟨middle, hmiddle, hend⟩ := hlater.exists_middle
      have hcallAlone := halone call List.mem_cons_self
      obtain ⟨houtcome, hprepared⟩ :=
        Traffic.outcome_of_announcing (c := call.after.traffic) hphase hcallAlone started
      obtain ⟨hfinal, hfinalPrepared, hfinalAlone⟩ := hduring.outcome hafter hcodec hprepared
        hsound hcallAlone (fun transition hmem => halone transition (List.mem_cons_of_mem _ hmem))
        hsame hpresent hmiddle houtcome
      cases hend with
      | cons hlast hnil =>
          cases hnil
          rw [hfinal.eq_applyAll hready hfinalPrepared hfinalAlone hfinishing hlast]
          exact PointWrite.plan_performs hvalid hstarts hstarted started

end Connection

/-- A register of the sample, or some of its bits. -/
def Point.sampleAt (name : String) (address : UInt16) (bits : Option BitField) : Point :=
  { sample with name, address, bits }

/-- A new connection to a device with three registers. -/
def Connection.sampleRegisters : Connection :=
  (create {} registerCodec [.sampleAt "first" 3 none, .sampleAt "level" 4 none,
    .sampleAt "low" 4 (some ⟨0, 8⟩), .sampleAt "last" 5 none]).1

/-- The points of one call.  Two of them are written as neighbours, and one is part of another. -/
def PointWrite.sample : List PointWrite :=
  [⟨"last", .int 9⟩, ⟨"level", .int 0x1234⟩, ⟨"first", .int 8⟩, ⟨"low", .int 7⟩]

/-- The commands of the call, one for each point. -/
def WriteCommand.sampleNamed : List WriteCommand :=
  [⟨⟨1⟩, .holdingRegister, 5, .words [9], ["last"], none⟩,
    ⟨⟨1⟩, .holdingRegister, 4, .words [0x1234], ["level"], none⟩,
    ⟨⟨1⟩, .holdingRegister, 3, .words [8], ["first"], none⟩,
    ⟨⟨1⟩, .holdingRegister, 4, .words [7], ["low"],
      some (.sampleAt "low" 4 (some ⟨0, 8⟩), .int 7)⟩]

/-- The plan of the call. -/
def WriteCommand.sample : List WriteCommand :=
  [⟨⟨1⟩, .holdingRegister, 3, .words [8, 0x1234], ["first", "level"], none⟩,
    ⟨⟨1⟩, .holdingRegister, 4, .words [7], ["low"],
      some (.sampleAt "low" 4 (some ⟨0, 8⟩), .int 7)⟩,
    ⟨⟨1⟩, .holdingRegister, 5, .words [9], ["last"], none⟩]

/-- The device stores the neighbours and then the field, but each time it is heard only after
another attempt. -/
def Action.writeUnheard : List Action :=
  [.run (.call 0), .run (.call 0), .run (.call 0), .run (.call 0), .openDone (.ok ()),
    .elapse second, .expire, .run (.call 0), .run (.call 0), .openDone (.ok ()),
    .elapse (100 * millisecond), .expire, .exchangeDone (.ok .written), .run (.call 0),
    .run (.call 0), .elapse (100 * millisecond), .expire,
    .exchangeDone (.ok (.registers [0x1234])), .elapse (100 * millisecond), .expire,
    .elapse second, .expire, .run (.call 0), .run (.call 0), .openDone (.ok ()),
    .elapse (100 * millisecond), .expire, .exchangeDone (.ok (.registers [0x1207])),
    .elapse (100 * millisecond), .expire, .exchangeDone (.ok .written), .run (.call 0),
    .run (.call 0), .elapse (100 * millisecond), .expire, .exchangeDone (.ok .written),
    .run (.call 0)]

namespace Connection

theorem plan_sample :
    sampleRegisters.plan ⟨"plant"⟩ PointWrite.sample = .ok WriteCommand.sample := by
  have hnamed : PointWrite.sample.mapM
      (PointWrite.toCommand registerCodec sampleRegisters.points ⟨"plant"⟩) =
      .ok WriteCommand.sampleNamed := by decide +kernel
  have hsorted : WriteCommand.sampleNamed.mergeSort WriteCommand.precedes =
      [⟨⟨1⟩, .holdingRegister, 3, .words [8], ["first"], none⟩,
        ⟨⟨1⟩, .holdingRegister, 4, .words [0x1234], ["level"], none⟩,
        ⟨⟨1⟩, .holdingRegister, 4, .words [7], ["low"],
          some (.sampleAt "low" 4 (some ⟨0, 8⟩), .int 7)⟩,
        ⟨⟨1⟩, .holdingRegister, 5, .words [9], ["last"], none⟩] := by
    simp [WriteCommand.sampleNamed, List.mergeSort, List.MergeSort.Internal.splitInTwo,
      WriteCommand.precedes_eq, WriteCommand.key, AddressRange.spaceSize]
  rw [plan, planWrite, show sampleRegisters.codec = registerCodec from rfl, hnamed]
  apply congrArg Except.ok
  rw [hsorted]
  decide +kernel

/-- The sample after its call. -/
def sampleCalled : Connection :=
  { sampleRegisters with calls := [⟨0, .announcing ⟨"plant"⟩ WriteCommand.sample⟩] }

theorem step_sample :
    sampleRegisters.step (.start 0 (.write ⟨"plant"⟩ PointWrite.sample)) =
      some (sampleCalled, []) := by
  have hprepared : sampleRegisters.prepareWrite ⟨"plant"⟩ PointWrite.sample =
      .ok WriteCommand.sample := plan_sample
  have hstarted : sampleRegisters.step (.start 0 (.write ⟨"plant"⟩ PointWrite.sample)) =
      some (sampleRegisters.startCall 0 (.write ⟨"plant"⟩ PointWrite.sample)) := rfl
  rw [hstarted, startCall, hprepared]
  rfl

/-- The steps of the sample after its call, up to the return. -/
def sampleDuring : List Transition := sampleCalled.walk Action.writeUnheard

def sampleReturn : Transition := (sampleCalled.stop Action.writeUnheard).next (.run (.call 0))

def samplePath : List Transition :=
  ⟨sampleRegisters, .start 0 (.write ⟨"plant"⟩ PointWrite.sample), sampleCalled, []⟩ ::
    (sampleDuring ++ [sampleReturn])

theorem path_samplePath : Path sampleRegisters samplePath sampleReturn.after := by
  have hduring : Path sampleCalled sampleDuring _ := path_walk (by decide +kernel)
  have hreturn : Path (sampleCalled.stop Action.writeUnheard) [sampleReturn] sampleReturn.after :=
    .cons_next (by decide +kernel) (.nil _)
  exact .cons step_sample (hduring.append hreturn)

theorem sampleDuring_ne_start :
    ∀ transition ∈ sampleDuring, ∀ request, transition.action ≠ .start 0 request := by
  intro transition hmem request heq
  have haction := action_mem_of_walk hmem
  simp [heq, Action.writeUnheard] at haction

theorem alone_of_calls {id : Nat} {path : List Transition}
    (hcalls : ∀ transition ∈ path, ∀ call ∈ transition.after.calls, call.id = id) :
    Alone id path := by
  intro transition htransition other hother
  have hnone : Calls.phase? transition.after.calls other = none := by
    apply Calls.phase?_eq_none_iff.mpr
    intro call hcall heq
    exact hother (heq.symm.trans (hcalls transition htransition call hcall))
  rw [Traffic.todo?, show Calls.phase? transition.after.traffic.calls other = none from hnone]
  rfl

/-- Whatever was stored before it was acknowledged, the registers hold what the caller wrote. -/
theorem sample_performs :
    Threads (PointWrite.Performs sampleRegisters.points ⟨"plant"⟩) .zero PointWrite.sample
        (samplePath.foldl Transition.obeyed .zero) ∧
      [3, 4, 5].map ((samplePath.foldl Transition.obeyed .zero).word ⟨1⟩ .holdingRegister) =
        [8, 0x1207, 9] := by
  have hreturns : .callReturns 0 (.write (.ok ())) ∈ sampleReturn.events :=
    mem_returned.mp (by decide +kernel)
  have halone : Alone 0 (⟨sampleRegisters, .start 0 (.write ⟨"plant"⟩ PointWrite.sample),
      sampleCalled, []⟩ :: sampleDuring) := alone_of_calls (by decide +kernel)
  have hstarts : PointWrite.ShareStarts sampleRegisters.points ⟨"plant"⟩ PointWrite.sample := by
    intro left hleft right hright first second hfirst hsecond hunit hclass hoverlap
    have hpoints : ∀ first ∈ sampleRegisters.points, ∀ second ∈ sampleRegisters.points,
        first.rangesOverlap second = true → first.address = second.address := by decide +kernel
    exact hpoints first (PointWrite.mem_of_findPoint? hfirst) second
      (PointWrite.mem_of_findPoint? hsecond) hoverlap
  have hdevice := threads_obeyed (show heardOf .zero samplePath = true by decide +kernel)
  have hpath : Path sampleRegisters ([] ++ samplePath) sampleReturn.after := path_samplePath
  exact ⟨write_performs hpath rfl sampleDuring_ne_start hreturns halone hstarts hdevice,
    by decide +kernel⟩

end Connection

end Fieldbus

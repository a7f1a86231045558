import Fieldbus.Bench.Memory
import Fieldbus.Proofs.Run.Starts

/-!
# Devices

A device is a memory that changes with the exchanges of a connection and in no other way.  What an
exchange that was not acknowledged has done to it depends on the device.  An exchange that was
acknowledged has done what its command asks for, also when the command is a bit field, whose
register has been read just before.
-/

namespace Fieldbus

/-- A state goes through a list, one item after the other. -/
inductive Threads {A S : Type} (relation : A → S → S → Prop) : S → List A → S → Prop where
  | nil (state : S) : Threads relation state [] state
  | cons {before after final : S} {item : A} {rest : List A} (hitem : relation item before after)
      (hrest : Threads relation after rest final) : Threads relation before (item :: rest) final

theorem Threads.exists_middle {A S : Type} {relation : A → S → S → Prop} {state final : S}
    {earlier later : List A} (hthreads : Threads relation state (earlier ++ later) final) :
    ∃ middle, Threads relation state earlier middle ∧ Threads relation middle later final := by
  induction earlier generalizing state with
  | nil => exact ⟨state, .nil state, hthreads⟩
  | cons item rest ih =>
      cases hthreads with
      | cons hitem hrest =>
          obtain ⟨middle, hearlier, hlater⟩ := ih hrest
          exact ⟨middle, .cons hitem hearlier, hlater⟩

/-- What is acknowledged has been done, and nothing else. -/
def Memory.Keeps (memory next : Memory) :
    Option (Request × Except RequestError Response) → Prop
  | some (request, .ok response) => memory.answer request = (next, response)
  | some (_, .error _) | none => next = memory

/-- What is acknowledged has been done, and what is not may have been done. -/
def Memory.MayLose (memory next : Memory) :
    Option (Request × Except RequestError Response) → Prop
  | some (request, .ok response) => memory.answer request = (next, response)
  | some (request, .error _) => next = memory ∨ next = (memory.answer request).1
  | none => next = memory

/-- The memory of a device that stores exactly what it acknowledges, over a step. -/
def Transition.Stores (transition : Transition) (memory next : Memory) : Prop :=
  memory.Keeps next (transition.before.traffic.verdict? transition.action)

/-- The memory of a device over a step, when acknowledgements may be lost. -/
def Transition.MayStore (transition : Transition) (memory next : Memory) : Prop :=
  memory.MayLose next (transition.before.traffic.verdict? transition.action)

theorem Memory.Keeps.mayLose {memory next : Memory}
    {verdict : Option (Request × Except RequestError Response)}
    (hkeeps : memory.Keeps next verdict) : memory.MayLose next verdict := by
  match verdict with
  | some (request, .ok response) => exact hkeeps
  | some (request, .error _) => exact .inl hkeeps
  | none => exact hkeeps

/-- The memory of a device that does all it is asked, over a step. -/
def Transition.obeyed (memory : Memory) (transition : Transition) : Memory :=
  match transition.before.traffic.verdict? transition.action with
  | some (request, _) => (memory.answer request).1
  | none => memory

/-- What is heard of such a device is what it answers. -/
def Connection.heardOf (memory : Memory) : List Transition → Bool
  | [] => true
  | transition :: rest =>
    (match transition.before.traffic.verdict? transition.action with
      | some (request, .ok response) => (memory.answer request).2 == response
      | some (_, .error _) | none => true) && heardOf (transition.obeyed memory) rest

/-- A device that does all it is asked, but may not be heard, is one whose acknowledgements may be
lost. -/
theorem Connection.threads_obeyed {memory : Memory} {path : List Transition}
    (hheard : heardOf memory path = true) :
    Threads Transition.MayStore memory path (path.foldl Transition.obeyed memory) := by
  induction path generalizing memory with
  | nil => exact .nil memory
  | cons transition rest ih =>
      rw [heardOf, Bool.and_eq_true] at hheard
      refine .cons ?_ (ih hheard.2)
      have hfirst := hheard.1
      rw [Transition.MayStore, Transition.obeyed]
      split at hfirst
      · next request response hverdict =>
          rw [hverdict]
          exact Prod.ext rfl (beq_iff_eq.mp hfirst)
      · next request error hverdict =>
          rw [hverdict]
          exact .inr rfl
      · next hverdict =>
          rw [hverdict]
          rfl

/-- What a command asks of a memory.  A bit field is merged into its register. -/
def WriteCommand.apply (codec : ValueCodec) (command : WriteCommand) (memory : Memory) : Memory :=
  match command.field with
  | none => memory.store command.unit command.registerClass command.start command.values
  | some (point, value) =>
    match codec.encode point value
        (some (memory.word command.unit .holdingRegister command.start)) with
    | .ok values => memory.store command.unit command.registerClass command.start values
    | .error _ => memory

/-- What a list of commands asks of a memory. -/
def WriteCommand.applyAll (codec : ValueCodec) (commands : List WriteCommand)
    (memory : Memory) : Memory :=
  commands.foldl (fun memory command => command.apply codec memory) memory

theorem WriteCommand.applyAll_append (codec : ValueCodec) (commands more : List WriteCommand)
    (memory : Memory) :
    applyAll codec (commands ++ more) memory =
      applyAll codec more (applyAll codec commands memory) :=
  List.foldl_append

/-- What is about to be stored is what the command asks for. -/
def Traffic.Prepared (c : Traffic) (memory : Memory) : Prop :=
  ∀ id job command rest stored stage, Calls.phase? c.calls id = some (.transacting job) →
    job.commands = command :: rest → c.transaction = some ⟨.write stored, stage⟩ →
      (memory.answer (.write stored)).1 = command.apply c.codec memory

theorem Memory.read_readRequest (memory : Memory) (command : WriteCommand) :
    memory.read command.readRequest =
      .registers [memory.word command.unit .holdingRegister command.start] := by
  simp [Memory.read, WriteCommand.readRequest, RegisterClass.isBit, Memory.addresses]

theorem WriteCommand.apply_of_field {command : WriteCommand} {point : Point}
    {value : PointValue} {codec : ValueCodec} {memory : Memory} {values : WireValues}
    (hfield : command.field = some (point, value))
    (hencode : codec.encode point value
      (some (memory.word command.unit .holdingRegister command.start)) = .ok values) :
    (memory.answer (.write (command.writeRequest values))).1 = command.apply codec memory := by
  rw [WriteCommand.apply, hfield]
  simp only [hencode]
  rfl

/-- An attempt that begins with a write asks for all of its command. -/
theorem WriteCommand.apply_of_firstRequest {command : WriteCommand} {stored : WriteRequest}
    (hfirst : command.firstRequest = .write stored) (codec : ValueCodec) (memory : Memory) :
    (memory.answer (.write stored)).1 = command.apply codec memory := by
  rw [WriteCommand.firstRequest] at hfirst
  rw [WriteCommand.apply]
  cases hfield : command.field with
  | none =>
      simp only [hfield] at hfirst
      rw [← hfirst]
      rfl
  | some field => simp [hfield] at hfirst

section Prepared

variable {c after : Traffic} {action : Action} {events : List Event} {memory next : Memory}

/-- The register that has been read for a bit field is the one in the memory. -/
theorem Traffic.Orderly.word_of_read {id : Nat} {job : WriteJob} {command : WriteCommand}
    {read : ReadRequest} {stage : Stage} {current : UInt16} {others : List UInt16}
    (horderly : c.Orderly) (hphase : Calls.phase? c.calls id = some (.transacting job))
    (hhead : job.commands.head? = some command) (hfield : command.field ≠ none)
    (hbefore : c.transaction = some ⟨.read read, stage⟩)
    (hread : memory.read read = .registers (current :: others)) :
    memory.word command.unit .holdingRegister command.start = current := by
  rw [horderly.read_of_errand hphase hhead hfield hbefore, Memory.read_readRequest] at hread
  exact (List.cons.inj (Response.registers.inj hread)).1

/-- What is about to be stored stays what the command asks for, whatever becomes of exchanges that
are not acknowledged. -/
theorem Move.prepared (hmove : Move c action events after) (horderly : c.Orderly)
    (hprepared : c.Prepared memory) (hmay : memory.MayLose next (c.verdict? action)) :
    after.Prepared next := by
  have hafter := hmove.orderly horderly
  have hunheard (hnone : c.verdict? action = none) : next = memory := by
    rwa [hnone] at hmay
  rw [Traffic.Prepared, hmove.codec_eq]
  intro id job command rest stored stage hphase hjob hsome
  cases hmove.transaction_step with
  | keep haction hsame hpolls hattempts =>
      rw [hunheard (Traffic.verdict?_eq_none haction c)]
      have hattempt := hattempts id job hphase
      exact hprepared id job command rest stored stage hattempt hjob (hsame _ hsome)
  | poll haction hwaits hheld hopen hread hbegin hpolling hnow => simp [hnow] at hsome
  | finish hnone => simp [hnone] at hsome
  | proceed hbefore hturn hstays hcalls hnow =>
      obtain ⟨rfl, rfl⟩ := Transaction.mk.inj (Option.some.inj (hnow.symm.trans hsome))
      rw [hunheard (Traffic.verdict?_of_stage hbefore hturn.not_exchanging action)]
      exact hprepared id job command rest stored _ (hcalls ▸ hphase) hjob hbefore
  | attempt haction hwaits hheld hopen hown hbegin hattempts hnow =>
      obtain ⟨rfl, rfl⟩ := hafter.transacting_unique hattempts hphase
      obtain ⟨rfl, rfl⟩ := List.cons.inj (hown.symm.trans hjob)
      obtain ⟨hfirst, -⟩ := Transaction.mk.inj (Option.some.inj (hnow.symm.trans hsome))
      exact WriteCommand.apply_of_firstRequest hfirst _ _
  | @writeBack _ _ _ _ point value _ _ _ _ _ _ _ _ hbefore hown hlisted hfield hturn hencode hcalls
      hnow =>
      obtain ⟨rfl, rfl⟩ := horderly.transacting_unique hown (hcalls ▸ hphase)
      obtain ⟨rfl, rfl⟩ := List.cons.inj (hlisted.symm.trans hjob)
      obtain ⟨hrequest, -⟩ := Transaction.mk.inj (Option.some.inj (hnow.symm.trans hsome))
      rw [← Request.write.inj hrequest]
      rw [hturn.verdict_ok hbefore] at hmay
      obtain ⟨rfl, hread⟩ : memory = next ∧ memory.read _ = _ := Prod.mk.inj hmay
      have hword := horderly.word_of_read hown (by rw [hlisted]; rfl) (by simp [hfield]) hbefore
        hread
      exact WriteCommand.apply_of_field hfield (by rw [hword, hencode])

end Prepared

/-- The command that an acknowledgement completes, with the number of its call. -/
def Traffic.done? (c : Traffic) (action : Action) : Option (Nat × WriteCommand) :=
  match c.verdict? action with
  | some (.write _, .ok _) =>
    match c.linkLock.holder with
    | some (.call id) =>
      match Calls.phase? c.calls id with
      | some (.transacting job) => job.commands.head?.map fun command => (id, command)
      | _ => none
    | _ => none
  | _ => none

theorem Traffic.done?_eq_some {c : Traffic} {action : Action} {id : Nat} {command : WriteCommand}
    (hdone : c.done? action = some (id, command)) :
    ∃ stored response job rest, c.verdict? action = some (.write stored, .ok response) ∧
      Calls.phase? c.calls id = some (.transacting job) ∧ job.commands = command :: rest := by
  rw [done?] at hdone
  split at hdone
  · next stored response hverdict =>
      split at hdone
      · next caller hheld =>
          split at hdone
          · next job hphase =>
              obtain ⟨first, hfirst, hpair⟩ := Option.map_eq_some_iff.mp hdone
              obtain ⟨rfl, rfl⟩ := Prod.mk.inj hpair
              obtain ⟨rest, hrest⟩ := List.head?_eq_some_iff.mp hfirst
              exact ⟨stored, response, job, rest, hverdict, hphase, hrest⟩
          · simp at hdone
      · simp at hdone
  · simp at hdone

/-- Values are only stored by an attempt at the first command of a call. -/
theorem Traffic.Orderly.exists_command {c : Traffic} {stored : WriteRequest} {stage : Stage}
    (horderly : c.Orderly) (htransaction : c.transaction = some ⟨.write stored, stage⟩) :
    ∃ id job command rest, c.linkLock.holder = some (.call id) ∧
      Calls.phase? c.calls id = some (.transacting job) ∧ job.commands = command :: rest := by
  obtain ⟨actor, -, hheld⟩ := horderly.exists_inside htransaction
  cases actor with
  | scheduler =>
      obtain ⟨tick, hphase⟩ := horderly.polling_of_held htransaction hheld
      obtain ⟨read, -, hread⟩ := (horderly.errand _ htransaction).1 tick hphase
      simp at hread
  | call id =>
      obtain ⟨job, hphase⟩ := horderly.transacting_of_held htransaction hheld
      obtain ⟨command, rest, hjob, -⟩ := (horderly.errand _ htransaction).2 id job hphase
      exact ⟨id, job, command, rest, hheld, hphase, hjob⟩

/-- A device that stores exactly what it acknowledges has done the command that is acknowledged,
and is unchanged otherwise. -/
theorem Traffic.eq_apply_done {c : Traffic} {action : Action} {memory next : Memory}
    (horderly : c.Orderly) (hprepared : c.Prepared memory)
    (hkeeps : memory.Keeps next (c.verdict? action)) :
    next = (c.done? action).elim memory fun done => done.2.apply c.codec memory := by
  cases hverdict : c.verdict? action with
  | none =>
      rw [hverdict] at hkeeps
      simp only [done?, hverdict]
      exact hkeeps
  | some verdict =>
      obtain ⟨request, result⟩ := verdict
      rw [hverdict] at hkeeps
      cases result with
      | error error =>
          simp only [done?, hverdict]
          exact hkeeps
      | ok response =>
          cases request with
          | read read =>
              simp only [done?, hverdict]
              exact (Prod.mk.inj hkeeps).1.symm
          | write stored =>
              obtain ⟨since, htransaction⟩ := transaction_of_verdict hverdict
              obtain ⟨id, job, command, rest, hheld, hphase, hjob⟩ :=
                horderly.exists_command htransaction
              have happly := hprepared id job command rest stored _ hphase hjob htransaction
              simp only [done?, hheld, hverdict, hphase, hjob, List.head?_cons, Option.map_some,
                Option.elim_some]
              rw [← happly, show memory.answer (.write stored) = (next, response) from hkeeps]

namespace Connection

/-- The commands that are acknowledged on a path, with the numbers of their calls. -/
def allDone (path : List Transition) : List (Nat × WriteCommand) :=
  path.filterMap fun transition => transition.before.traffic.done? transition.action

/-- A device that stores exactly what it acknowledges has done the acknowledged commands, in their
order and nothing between them. -/
theorem Path.eq_apply_allDone {start final : Connection} {path : List Transition}
    {memory last : Memory} (hpath : Path start path final) (horderly : start.traffic.Orderly)
    (hprepared : start.traffic.Prepared memory)
    (hthreads : Threads Transition.Stores memory path last) :
    last = (allDone path).foldl (fun memory done => done.2.apply start.codec memory) memory := by
  induction hpath generalizing memory with
  | nil =>
      cases hthreads
      rfl
  | @cons before after _ action events rest hstep _ ih =>
      cases hthreads with
      | @cons _ next _ _ _ hstores hrest =>
          have hmove := move_of_step horderly hstep
          have hnext : next = _ := Traffic.eq_apply_done horderly hprepared hstores
          have hready := hmove.prepared horderly hprepared hstores.mayLose
          have hlast := ih (hmove.orderly horderly) hready hrest
          have hcodec : after.codec = before.codec := hmove.codec_eq
          rw [hlast, hcodec, hnext, allDone, allDone, List.filterMap_cons]
          cases before.traffic.done? action <;> rfl

end Connection

end Fieldbus

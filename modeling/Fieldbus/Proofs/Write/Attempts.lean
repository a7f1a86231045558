import Fieldbus.Proofs.Run.Starts

/-!
# Attempts at bit fields

An attempt at a bit field reads its register and then writes it back.  The link is held from the
one exchange to the other, so no exchange of anybody comes between the two.
-/

namespace Fieldbus

/-- An exchange that reads has started, or one that writes is about to. -/
def Transaction.isBetween : Transaction → Bool
  | ⟨.read _, .exchanging _⟩ | ⟨.write _, .opening _⟩ | ⟨.write _, .spacing _⟩ => true
  | ⟨.write _, .exchanging _⟩ | ⟨.read _, .opening _⟩ | ⟨.read _, .spacing _⟩ => false

namespace Traffic

/-- A call has read the register of a bit field and has not written it back. -/
structure Between (c : Traffic) (id : Nat) (job : WriteJob) (command : WriteCommand) : Prop where
  phase : Calls.phase? c.calls id = some (.transacting job)
  head : job.commands.head? = some command
  field : command.field ≠ none
  transaction : ∃ transaction, c.transaction = some transaction ∧ transaction.isBetween

variable {c after : Traffic} {action : Action} {events : List Event} {id : Nat} {job : WriteJob}
variable {command : WriteCommand}

theorem Between.of_same (hbetween : after.Between id job command)
    (hcalls : Calls.phase? after.calls id = some (.transacting job) →
      Calls.phase? c.calls id = some (.transacting job))
    (htransaction : ∀ transaction, after.transaction = some transaction →
      c.transaction = some transaction) : c.Between id job command where
  phase := hcalls hbetween.phase
  head := hbetween.head
  field := hbetween.field
  transaction := hbetween.transaction.imp fun transaction => .imp_left (htransaction transaction)

theorem Between.false_of_none (hbetween : after.Between id job command)
    (hnone : after.transaction = none) : False := by
  obtain ⟨transaction, hsome, -⟩ := hbetween.transaction
  simp [hnone] at hsome

end Traffic

/-- A stage that no exchange leads to is before one. -/
theorem Progress.not_exchanging {request : Request} {stage : Stage}
    (hsilent : (Progress.waiting stage).started request = []) (since : Instant) :
    stage ≠ .exchanging since := by
  rintro rfl
  simp [started] at hsilent

theorem Transaction.isBetween_of_not_exchanging {request : Request} {stage : Stage}
    (hstage : ∀ since, stage ≠ .exchanging since) :
    (Transaction.mk request stage).isBetween = true ↔ ∃ stored, request = .write stored := by
  cases stage with
  | exchanging since => exact absurd rfl (hstage since)
  | opening since | spacing stop => cases request <;> simp [isBetween]

namespace Move

variable {c after : Traffic} {action : Action} {events : List Event} {id : Nat} {job : WriteJob}
variable {command : WriteCommand} {stored : WriteRequest}

/-- A step that starts no exchange does not bring a call between its exchanges. -/
theorem between (hmove : Move c action events after) (horderly : c.Orderly)
    (hsilent : started events = []) (hbetween : after.Between id job command) :
    c.Between id job command := by
  have hafter := hmove.orderly horderly
  obtain ⟨transaction, hsome, hbetweens⟩ := hbetween.transaction
  cases hmove.transaction_step with
  | keep haction hsame hpolls hattempts => exact hbetween.of_same (hattempts id job) hsame
  | finish hnone => simp [hnone] at hsome
  | poll haction hphase hheld hopen hread hbegin hpolling hnow =>
      rw [Link.started_begin hbegin] at hsilent
      obtain rfl := Option.some.inj (hnow.symm.trans hsome)
      rw [Transaction.isBetween_of_not_exchanging (Progress.not_exchanging hsilent)] at hbetweens
      simp at hbetweens
  | attempt haction hphase hheld hopen hjob hbegin hattempts hnow =>
      rw [Link.started_begin hbegin] at hsilent
      obtain rfl := Option.some.inj (hnow.symm.trans hsome)
      rw [Transaction.isBetween_of_not_exchanging (Progress.not_exchanging hsilent)] at hbetweens
      obtain ⟨rfl, rfl⟩ := hafter.transacting_unique hattempts hbetween.phase
      obtain rfl := Option.some.inj ((congrArg List.head? hjob).symm.trans hbetween.head)
      obtain ⟨field, hfield⟩ := Option.ne_none_iff_exists'.mp hbetween.field
      simp [WriteCommand.firstRequest, hfield] at hbetweens
  | proceed hbefore hturn hphase hcalls hnow =>
      rw [hturn.started_eq] at hsilent
      obtain rfl := Option.some.inj (hnow.symm.trans hsome)
      rw [Transaction.isBetween_of_not_exchanging (Progress.not_exchanging hsilent),
        ← Transaction.isBetween_of_not_exchanging hturn.not_exchanging] at hbetweens
      exact ⟨hcalls ▸ hbetween.phase, hbetween.head, hbetween.field, _, hbefore, hbetweens⟩
  | writeBack hbefore hphase hjob hfield hturn hencode hcalls hnow =>
      obtain ⟨since, rfl⟩ := hturn.exchanging_of_ok
      exact ⟨hcalls ▸ hbetween.phase, hbetween.head, hbetween.field, _, hbefore, rfl⟩

/-- The exchange that brings a call between its exchanges reads the register. -/
theorem read_of_between (hmove : Move c action events after) (horderly : c.Orderly)
    {request : Request} (hstarts : request ∈ started events)
    (hbetween : after.Between id job command) :
    after.linkLock.holder = some (.call id) ∧ started events = [.read command.readRequest] := by
  have hafter := hmove.orderly horderly
  obtain ⟨hone, ⟨since, htransaction⟩, -⟩ := hmove.start hstarts
  obtain ⟨transaction, hsome, hbetweens⟩ := hbetween.transaction
  obtain rfl := Option.some.inj (htransaction.symm.trans hsome)
  cases request with
  | write stored => simp [Transaction.isBetween] at hbetweens
  | read read =>
      obtain rfl := hafter.read_of_errand hbetween.phase hbetween.head hbetween.field htransaction
      exact ⟨hafter.held_of_transacting hbetween.phase, hone⟩

/-- A call writes a bit field only after it has read it. -/
theorem between_of_write (hmove : Move c action events after)
    (hstarts : .write stored ∈ started events) (hheld : after.linkLock.holder = some (.call id))
    (hphase : Calls.phase? after.calls id = some (.transacting job))
    (hhead : job.commands.head? = some command) (hfield : command.field ≠ none) :
    c.Between id job command := by
  obtain ⟨-, -, hstart⟩ := hmove.start hstarts
  cases hstart with
  | poll tick hwaiting hholds hpolling hlock =>
      rw [hlock, hholds] at hheld
      simp at hheld
  | attempt caller own first rest hwaiting hholds hown hrequest hnow hlock =>
      rw [hlock, hholds] at hheld
      obtain rfl : caller = id := by simpa using hheld
      obtain rfl := CallPhase.transacting.inj (Option.some.inj (hnow.symm.trans hphase))
      obtain rfl : first = command := by simpa [hown] using hhead
      obtain ⟨field, hsome⟩ := Option.ne_none_iff_exists'.mp hfield
      simp [WriteCommand.firstRequest, hsome] at hrequest
  | proceed stage htransaction hstage hsame hcalls hlock =>
      exact ⟨hcalls ▸ hphase, hhead, hfield, _, htransaction,
        (Transaction.isBetween_of_not_exchanging hstage).mpr ⟨stored, rfl⟩⟩
  | writeBack caller own read since htransaction hcaller hcalls hlock =>
      exact ⟨hcalls ▸ hphase, hhead, hfield, _, htransaction, rfl⟩

end Move

namespace Connection

/-- The read of an attempt at a bit field has started, the attempt has gone on ever since, and no
other exchange has started. -/
def ReadsFirst (id : Nat) (job : WriteJob) (command : WriteCommand) (past : List Transition) :
    Prop :=
  ∃ earlier read between, past = earlier ++ read :: between ∧
    read.exchangesOf (.call id) = [.read command.readRequest] ∧
      (∀ transition ∈ between, started transition.events = []) ∧
        ∀ transition ∈ read :: between,
          Calls.phase? transition.after.calls id = some (.transacting job)

variable {start final : Connection} {path : List Transition} {id : Nat} {job : WriteJob}
variable {command : WriteCommand}

theorem ReadsFirst.snoc {transition : Transition} (hreads : ReadsFirst id job command path)
    (hsilent : started transition.events = [])
    (hphase : Calls.phase? transition.after.calls id = some (.transacting job)) :
    ReadsFirst id job command (path ++ [transition]) := by
  obtain ⟨earlier, read, between, rfl, hread, hnone, hattempt⟩ := hreads
  refine ⟨earlier, read, between ++ [transition], by simp, hread, ?_, ?_⟩
  · intro other hother
    rcases List.mem_append.mp hother with hmem | hmem
    · exact hnone other hmem
    · rwa [List.mem_singleton.mp hmem]
  · rw [← List.cons_append]
    intro other hother
    rcases List.mem_append.mp hother with hmem | hmem
    · exact hattempt other hmem
    · rwa [List.mem_singleton.mp hmem]

/-- A call is between its exchanges only after the first of them. -/
theorem Path.readsFirst (hpath : Path start path final) (horderly : start.traffic.Orderly)
    (hidle : start.transaction = none) (hbetween : final.traffic.Between id job command) :
    ReadsFirst id job command path := by
  refine hpath.history (motive := fun path state => ∀ id job command,
    state.traffic.Between id job command → ReadsFirst id job command path)
    (fun id job command hnow => (hnow.false_of_none hidle).elim)
    (fun past before action after events hpast hbefore hstep id job command hafter => ?_)
    id job command hbetween
  have hready := hpast.orderly horderly
  have hmove := move_of_step hready hstep
  by_cases hsilent : started events = []
  · exact (hbefore id job command (hmove.between hready hsilent hafter)).snoc hsilent hafter.phase
  · obtain ⟨request, hstarts⟩ := List.exists_mem_of_ne_nil _ hsilent
    obtain ⟨hheld, hreads⟩ := hmove.read_of_between hready hstarts hafter
    refine ⟨past, _, [], rfl, ?_, by simp, ?_⟩
    · exact (Transition.exchangesOf_of_held hheld).trans hreads
    · intro transition hmem
      rw [List.mem_singleton.mp hmem]
      exact hafter.phase

/-- Between the read and the write of an attempt at a bit field no exchange starts. -/
theorem Path.readsFirst_of_write {earlier later : List Transition} {write : Transition}
    {stored : WriteRequest} (hpath : Path start (earlier ++ write :: later) final)
    (horderly : start.traffic.Orderly) (hidle : start.transaction = none)
    (hstarts : .write stored ∈ write.exchangesOf (.call id))
    (hphase : Calls.phase? write.after.calls id = some (.transacting job))
    (hhead : job.commands.head? = some command) (hfield : command.field ≠ none) :
    ReadsFirst id job command earlier := by
  obtain ⟨hearlier, hstep, -⟩ := hpath.split
  have hready := hearlier.orderly horderly
  obtain ⟨hheld, hmem⟩ := Transition.mem_exchangesOf.mp hstarts
  exact hearlier.readsFirst horderly hidle
    ((move_of_step hready hstep).between_of_write hmem hheld hphase hhead hfield)

end Connection

end Fieldbus

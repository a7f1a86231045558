import Fieldbus.Proofs.Write.Serial

/-!
# Closing

A connection that is being closed begins no transaction, with one exception.  An attempt at a bit
field asks whether the connection is closing before it reads its register, but not again before it
writes it back, so a close that comes during the read lets the write through.
-/

namespace Fieldbus

namespace Traffic

/-- The request of a transaction that begins.  None was under way before, or it has ended in the
same step. -/
def begins? (c : Traffic) (action : Action) (after : Traffic) : Option Request :=
  if c.transaction.isSome && (c.verdict? action).isNone then none
  else after.transaction.map (·.request)

/-- A call reads the register of a bit field that it is about to write. -/
structure ReadsBack (c : Traffic) (id : Nat) (command : WriteCommand) : Prop where
  phase : ∃ job rest, Calls.phase? c.calls id = some (.transacting job) ∧
    job.commands = command :: rest
  field : command.field ≠ none
  transaction : ∃ stage, c.transaction = some ⟨.read command.readRequest, stage⟩

variable {c after : Traffic} {action : Action} {id : Nat} {command : WriteCommand}

theorem begins?_of_ended (hended : after.transaction = none) :
    c.begins? action after = none := by
  simp [begins?, hended]

/-- A transaction that goes on does not begin. -/
theorem begins?_of_same (hverdict : c.verdict? action = none)
    (hsame : ∀ transaction, after.transaction = some transaction →
      ∃ stage, c.transaction = some ⟨transaction.request, stage⟩) :
    c.begins? action after = none := by
  cases htransaction : after.transaction with
  | none => exact begins?_of_ended htransaction
  | some transaction =>
      obtain ⟨stage, hbefore⟩ := hsame transaction htransaction
      simp [begins?, hbefore, hverdict]

theorem ReadsBack.of_same (hreads : after.ReadsBack id command)
    (hcalls : ∀ id job, Calls.phase? after.calls id = some (.transacting job) →
      Calls.phase? c.calls id = some (.transacting job))
    (hsame : ∀ transaction, after.transaction = some transaction →
      ∃ stage, c.transaction = some ⟨transaction.request, stage⟩) :
    c.ReadsBack id command where
  phase := by
    obtain ⟨job, rest, hphase, hjob⟩ := hreads.phase
    exact ⟨job, rest, hcalls id job hphase, hjob⟩
  field := hreads.field
  transaction := hreads.transaction.elim fun _ => hsame _

theorem ReadsBack.not_of_begins {stored : WriteRequest}
    (hbegins : c.begins? action after = some (.write stored)) : ¬after.ReadsBack id command := by
  intro hreads
  obtain ⟨stage, htransaction⟩ := hreads.transaction
  rw [begins?, htransaction] at hbegins
  split at hbegins <;> simp at hbegins

end Traffic

/-- In a connection that is being closed nothing begins but the second half of an attempt at a bit
field, and no first half of one. -/
theorem Move.of_closing {c after : Traffic} {action : Action} {events : List Event}
    (hmove : Move c action events after) (horderly : c.Orderly) (hclosing : c.closing = true) :
    (c.begins? action after = none ∧
        ∀ id command, after.ReadsBack id command → c.ReadsBack id command) ∨
      ∃ id command stored, c.ReadsBack id command ∧ command.Sends c.codec (.write stored) ∧
        c.begins? action after = some (.write stored) := by
  -- The step is about something else than the transaction.
  have hkeep (hanswer : action.isAnswer = false)
      (hsame : ∀ transaction, after.transaction = some transaction →
        c.transaction = some transaction)
      (hcalls : ∀ id job, Calls.phase? after.calls id = some (.transacting job) →
        Calls.phase? c.calls id = some (.transacting job)) :
      c.begins? action after = none ∧
        ∀ id command, after.ReadsBack id command → c.ReadsBack id command :=
    ⟨Traffic.begins?_of_same (Traffic.verdict?_eq_none hanswer c)
      fun _ hsome => ⟨_, hsame _ hsome⟩,
      fun _ _ hreads => hreads.of_same hcalls fun _ hsome => ⟨_, hsame _ hsome⟩⟩
  have hend (hended : after.transaction = none) :
      c.begins? action after = none ∧
        ∀ id command, after.ReadsBack id command → c.ReadsBack id command :=
    ⟨Traffic.begins?_of_ended hended, fun _ _ hreads => by
      obtain ⟨stage, hsome⟩ := hreads.transaction
      simp [hended] at hsome⟩
  cases hmove with
  | elapse => exact .inl (hkeep rfl (fun _ => id) fun _ _ => id)
  | stay haction | stroll haction | seekSetting haction =>
      exact .inl (hkeep (Action.isAnswer_of_isInternal haction) (fun _ => id) fun _ _ => id)
  | seekShutdown | leaveLink | endScheduler | refuse =>
      exact .inl (hkeep rfl (fun _ => id) fun _ _ => id)
  | startPosting hnew =>
      exact .inl (hkeep rfl (fun _ => id) fun _ _ => Calls.phase?_of_add hnew (by simp))
  | postClose | callSeekShutdown | announce | enterSection | finish | callLeaveLink =>
      exact .inl (hkeep rfl (fun _ => id) fun _ _ => Calls.phase?_of_set (by simp))
  | endSetting | callShutdown | «return» =>
      exact .inl (hkeep rfl (fun _ => id) fun _ _ => Calls.phase?_of_remove)
  | cancel =>
      refine .inl (hkeep rfl (fun transaction hsome => ?_) fun _ _ => Calls.phase?_of_remove)
      dsimp only at hsome
      split at hsome
      · simp at hsome
      · exact hsome
  | clear hphase hopen | seekLink hphase hopen => simp [hclosing] at hopen
  | startWrite hnew hwrites hopen => simp [hclosing] at hopen
  | callSeekLink hphase hjob hopen => simp [hclosing] at hopen
  | poll hphase hheld hopen | attempt hphase hheld hopen | refuseAttempt hphase hheld hopen =>
      simp [hclosing] at hopen
  | endPoll | store | fail | misfit => exact .inl (hend rfl)
  | proceed htransaction hturn =>
      have hverdict := Traffic.verdict?_of_stage htransaction hturn.not_exchanging action
      refine .inl ⟨Traffic.begins?_of_same hverdict ?_,
        fun _ _ hreads => hreads.of_same (fun _ _ => id) ?_⟩
      all_goals
        rintro _ ⟨⟩
        exact ⟨_, htransaction⟩
  | @writeBack id _ _ _ read stage _ _ _ current _ values job command rest point value htransaction
      hphase hjob hfield hturn hencode hbegin =>
      have hread : read = command.readRequest :=
        horderly.read_of_errand hphase (by simp [hjob]) (by simp [hfield]) htransaction
      refine .inr ⟨id, command, command.writeRequest values, ?_, ?_, ?_⟩
      · exact ⟨⟨job, rest, hphase, hjob⟩, by simp [hfield], stage, hread ▸ htransaction⟩
      · rw [WriteCommand.Sends, hfield]
        exact .inr ⟨current, values, hencode, rfl⟩
      · simp [Traffic.begins?, hturn.verdict_ok htransaction]

def Transition.begins? (transition : Transition) : Option Request :=
  transition.before.traffic.begins? transition.action transition.after.traffic

namespace Connection

/-- The transactions that begin on a path, by their requests. -/
def begun (path : List Transition) : List Request := path.filterMap Transition.begins?

variable {start final : Connection} {path earlier later : List Transition}

/-- In a connection that is being closed at most one transaction begins. -/
theorem Path.begun_of_closing (hpath : Path start path final) (horderly : start.traffic.Orderly)
    (hclosing : start.closing = true) :
    begun path = [] ∨ ∃ id command stored, start.traffic.ReadsBack id command ∧
      command.Sends start.codec (.write stored) ∧ begun path = [.write stored] := by
  induction hpath with
  | nil => exact .inl rfl
  | @cons before after _ action events rest hstep _ ih =>
      have hmove := move_of_step horderly hstep
      have hrest := ih (hmove.orderly horderly) (hmove.closing hclosing)
      rw [begun, List.filterMap_cons, ← begun]
      rcases hmove.of_closing horderly hclosing with
        ⟨hnone, hback⟩ | ⟨id, command, stored, hreads, hsends, hbegins⟩
      · have hfirst : Transition.begins? ⟨before, action, after, events⟩ = none := hnone
        have hcodec : after.codec = before.codec := hmove.codec_eq
        rw [hfirst]
        refine hrest.imp_right ?_
        rintro ⟨id, command, stored, hreads, hsends, hlater⟩
        exact ⟨id, command, stored, hback id command hreads, hcodec ▸ hsends, hlater⟩
      · have hfirst : Transition.begins? ⟨before, action, after, events⟩ = some (.write stored) :=
          hbegins
        have hlater : begun rest = [] := by
          refine hrest.resolve_right ?_
          rintro ⟨other, second, -, hagain, -⟩
          exact Traffic.ReadsBack.not_of_begins hbegins hagain
        rw [hfirst, hlater]
        exact .inr ⟨id, command, stored, hreads, hsends, rfl⟩

/-- After a close no transaction begins for a poll, for a command or for a retry.  The only one that
can begin writes a bit field back whose register was being read when the close came. -/
theorem begun_after_close {settings : ConnectionSettings} {codec : ValueCodec}
    {declared : List Point} {close : Transition} {caller : Nat}
    (hpath : Path (create settings codec declared).1 (earlier ++ close :: later) final)
    (hclose : close.action = .start caller .close) :
    begun later = [] ∨ ∃ id command stored, close.after.traffic.ReadsBack id command ∧
      command.Sends codec (.write stored) ∧ begun later = [.write stored] := by
  have hcreate := create_orderly settings codec declared
  obtain ⟨hearlier, hstep, hlater⟩ := hpath.split
  have hready := hearlier.orderly hcreate
  have hclosing : close.after.closing = true := by
    have hstart := startCall_of_step (hclose ▸ hstep)
    exact congrArg (·.1.closing) hstart
  have hmove := move_of_step hready hstep
  have hcodec : close.after.codec = codec := hmove.codec_eq.trans (hearlier.codec_eq hcreate)
  rw [← hcodec]
  exact hlater.begun_of_closing (hmove.orderly hready) hclosing

end Connection

/-- A call reads the register that its half is in, over a transport that has to be opened. -/
def Action.readHalf : List Action :=
  [.start 0 (.write ⟨"plant"⟩ [⟨"low", .int 3⟩]), .run (.call 0), .run (.call 0), .run (.call 0),
    .run (.call 0), .openDone (.ok ())]

/-- The register has been read, and it is written as soon as the minimum interval has passed. -/
def Action.writeHalf : List Action :=
  [.exchangeDone (.ok (.registers [0x500])), .elapse (100 * millisecond), .expire,
    .exchangeDone (.ok .written), .run (.call 0), .run (.call 0)]

namespace Connection

/-- The connection is closed while the register is read. -/
def sampleClose : Transition := (sampleHalves.stop Action.readHalf).next (.start 1 .close)

theorem path_sampleClose :
    Path sampleHalves (sampleHalves.walk Action.readHalf ++
      sampleClose :: sampleClose.after.walk Action.writeHalf)
        (sampleClose.after.stop Action.writeHalf) := by
  have hread := path_walk (show (sampleHalves.run Action.readHalf).isSome = true by decide +kernel)
  have hwrite := path_walk
    (show (sampleClose.after.run Action.writeHalf).isSome = true by decide +kernel)
  exact hread.append (.cons_next (by decide +kernel) hwrite)

/-- The half is written after the close. -/
theorem sampleClose_begun :
    begun (sampleClose.after.walk Action.writeHalf) =
        [.write ⟨⟨1⟩, .holdingRegister, 4, .words [0x503]⟩] ∧
      ∃ id command stored, sampleClose.after.traffic.ReadsBack id command ∧
        command.Sends Codec.registerCodec (.write stored) ∧
          begun (sampleClose.after.walk Action.writeHalf) = [.write stored] := by
  have hbegun : begun (sampleClose.after.walk Action.writeHalf) =
      [.write ⟨⟨1⟩, .holdingRegister, 4, .words [0x503]⟩] := by decide +kernel
  refine ⟨hbegun, (begun_after_close path_sampleClose rfl).resolve_left ?_⟩
  rw [hbegun]
  simp

/-- So it is not true that a close lets no transaction begin. -/
theorem not_begun_eq_nil_after_close :
    ¬∀ (earlier later : List Transition) (close : Transition) (caller : Nat) (final : Connection),
      Path sampleHalves (earlier ++ close :: later) final →
        close.action = .start caller .close → begun later = [] := by
  intro hnothing
  have hnone := hnothing _ _ _ 1 _ path_sampleClose rfl
  have hone : (begun (sampleClose.after.walk Action.writeHalf)).length = 1 := by decide +kernel
  simp [hnone] at hone

end Connection

end Fieldbus

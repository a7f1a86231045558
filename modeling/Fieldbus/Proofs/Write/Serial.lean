import Fieldbus.Proofs.Run.Phases
import Fieldbus.Proofs.Write.Attempts
import Fieldbus.Proofs.Write.Plans
import Fieldbus.Proofs.Write.Section

/-!
# Writes one after the other

Whatever calls, polls and failures come in between, what a device that stores exactly what it
acknowledges holds in the end is what the writes leave behind when they are run one after the
other, each as far as it got.
-/

namespace Fieldbus

/-- What the sessions of a list leave behind, one after the other. -/
def Session.runAll (codec : ValueCodec) (sessions : List Session) (memory : Memory) : Memory :=
  sessions.foldl
    (fun memory session => WriteCommand.applyAll codec session.acknowledged memory) memory

theorem Session.runAll_eq (codec : ValueCodec) (sessions : List Session) (memory : Memory) :
    runAll codec sessions memory =
      WriteCommand.applyAll codec (sessions.flatMap (·.acknowledged)) memory := by
  induction sessions generalizing memory with
  | nil => rfl
  | cons session rest ih =>
      rw [List.flatMap_cons, WriteCommand.applyAll_append]
      exact ih _

namespace Connection

/-- The writes of a path take turns. -/
structure TakeTurns (start : Connection) (path : List Transition) : Prop where
  /-- Between the exchanges of two calls the first of them returns. -/
  apart : ∀ earlier first between second later id other,
    path = earlier ++ first :: (between ++ second :: later) →
      first.exchangesOf (.call id) ≠ [] → second.exchangesOf (.call other) ≠ [] → other ≠ id →
        Returns id between
  /-- Between the read and the write of an attempt at a bit field no exchange starts. -/
  undivided : ∀ earlier write later id stored job command, path = earlier ++ write :: later →
    .write stored ∈ write.exchangesOf (.call id) →
      Calls.phase? write.after.calls id = some (.transacting job) →
        job.commands.head? = some command → command.field ≠ none →
          ReadsFirst id job command earlier
  /-- A session is that of a write that was called for, and makes its commands in their order. -/
  sessions : ∀ session ∈ sessions path, session.acknowledged <+: session.commands ∧
    ∃ transition ∈ path, ∃ device writes,
      transition.action = .start session.call (.write device writes) ∧
        start.plan device writes = .ok session.commands
  /-- A device that stores exactly what it acknowledges has seen the sessions in their order. -/
  serial : ∀ memory last, Threads Transition.Stores memory path last →
    last = Session.runAll start.codec (Connection.sessions path) memory
  /-- With the register codec no update of a bit field is lost: the field keeps its number until an
  acknowledged command writes to the same bits. -/
  kept : start.codec = Codec.registerCodec → ∀ memory last,
    Threads Transition.Stores memory path last → ∀ made command later,
      (Connection.sessions path).flatMap (·.acknowledged) = made ++ command :: later →
        ∀ point value field number, command.field = some (point, value) →
          point.bits = some field → Codec.fieldNumber point value = .ok (number : Nat) →
            (∀ other ∈ later, other.Spares command point field) →
              command.Keeps point field number last

variable {start final : Connection} {path : List Transition} {session : Session}

/-- A session begins when its call obtains the write section. -/
theorem exists_entered (hsession : session ∈ sessions path) :
    ∃ earlier transition later, path = earlier ++ transition :: later ∧
      transition.before.traffic.entered? transition.action =
        some (session.call, session.commands) := by
  induction path with
  | nil => simp [sessions] at hsession
  | cons transition rest ih =>
      have hlater : session ∈ sessions rest → ∃ earlier other later,
          transition :: rest = earlier ++ other :: later ∧
            other.before.traffic.entered? other.action =
              some (session.call, session.commands) := by
        intro hmem
        obtain ⟨earlier, other, later, rfl, hentered⟩ := ih hmem
        exact ⟨transition :: earlier, other, later, rfl, hentered⟩
      rw [sessions] at hsession
      split at hsession
      · next id commands hentered =>
          rcases List.mem_cons.mp hsession with rfl | hmem
          · exact ⟨[], transition, rest, rfl, hentered⟩
          · exact hlater hmem
      · exact hlater hsession

/-- In whatever order the calls and the scheduler go on and whatever the transport does, the writes
take turns, if none is cancelled inside the write section. -/
theorem takeTurns {settings : ConnectionSettings} {codec : ValueCodec} {declared : List Point}
    (hpath : Path (create settings codec declared).1 path final) (hkeeps : KeepsWrites path) :
    TakeTurns (create settings codec declared).1 path := by
  have hcreate := create_orderly settings codec declared
  have hprepared (memory : Memory) :
      (create settings codec declared).1.traffic.Prepared memory := by
    intro id job command rest stored stage hphase
    simp [create, traffic, Calls.phase?] at hphase
  have hsessions : ∀ session ∈ sessions path, session.acknowledged <+: session.commands ∧
      ∃ transition ∈ path, ∃ device writes,
        transition.action = .start session.call (.write device writes) ∧
          (create settings codec declared).1.plan device writes = .ok session.commands := by
    intro session hsession
    obtain ⟨earlier, transition, later, rfl, hentered⟩ := exists_entered hsession
    obtain ⟨device, hphase⟩ := Traffic.phase?_of_entered hentered
    obtain ⟨hearlier, -⟩ := hpath.split
    obtain ⟨start, hmem, hstarted⟩ := hearlier.exists_start hcreate rfl hphase rfl
    exact ⟨hpath.acknowledged_prefix hcreate hkeeps session hsession, start,
      List.mem_append_left _ hmem, hstarted⟩
  have hserial : ∀ memory last, Threads Transition.Stores memory path last →
      last = Session.runAll codec (sessions path) memory := by
    intro memory last hthreads
    obtain ⟨houtside, -⟩ := hpath.allDone_eq hcreate hkeeps
    calc last
      _ = (allDone path).foldl (fun memory done => done.2.apply codec memory) memory :=
          hpath.eq_apply_allDone hcreate (hprepared memory) hthreads
      _ = WriteCommand.applyAll codec ((allDone path).map (·.2)) memory := by
          rw [WriteCommand.applyAll, List.foldl_map]
      _ = Session.runAll codec (sessions path) memory := by
          rw [houtside fun _ => rfl, Session.runAll_eq]
  constructor
  · rintro earlier first between second later id other rfl hfirst hsecond hother
    exact hpath.returns_between hcreate hkeeps hfirst hsecond hother
  · rintro earlier write later id stored job command rfl hstarts hphase hhead hfield
    exact hpath.readsFirst_of_write hcreate rfl hstarts hphase hhead hfield
  · exact hsessions
  · exact hserial
  · intro hcodec memory last hthreads made command later hsplit point value field number hfield
      hbits hnumber hspares
    obtain rfl : codec = Codec.registerCodec := hcodec
    have hsound : ∀ other ∈ made ++ command :: later, other.Sound := by
      intro other hother
      rw [← hsplit] at hother
      obtain ⟨session, hsession, hmem⟩ := List.mem_flatMap.mp hother
      obtain ⟨hbeginning, -, -, device, writes, -, hplan⟩ := hsessions session hsession
      exact PointWrite.plan_sound (create_valid settings _ declared) hplan other
        (hbeginning.subset hmem)
    have hrewrites := (hsound command (by simp)).field point value hfield
    rw [hserial memory last hthreads, Session.runAll_eq, hsplit, WriteCommand.applyAll_append]
    apply hrewrites.keeps_applyAll hfield hbits hnumber _ hspares
    intro other hother
    exact hsound other (List.mem_append_right _ (List.mem_cons_of_mem _ hother))

end Connection

/-- One half of the register of the sample. -/
def Point.sampleHalf (name : String) (offset : UInt8) : Point :=
  { sample with name, bits := some ⟨offset, 8⟩ }

/-- A new connection to a device whose register holds two values. -/
def Connection.sampleHalves : Connection :=
  (create {} Codec.registerCodec [Point.sampleHalf "low" 0, Point.sampleHalf "high" 8]).1

/-- Two calls write the two halves at the same time, and the second one is faster. -/
def Action.writeHalves : List Action :=
  [.start 0 (.write ⟨"plant"⟩ [⟨"low", .int 3⟩]), .start 1 (.write ⟨"plant"⟩ [⟨"high", .int 5⟩]),
    .run (.call 1), .run (.call 0), .run (.call 1), .run (.call 1), .run (.call 1),
    .openDone (.ok ()), .exchangeDone (.ok (.registers [0])), .elapse (100 * millisecond),
    .expire, .exchangeDone (.ok .written), .run (.call 1), .run (.call 1), .run (.call 0),
    .run (.call 0), .run (.call 0), .elapse (100 * millisecond), .expire,
    .exchangeDone (.ok (.registers [0x500])), .elapse (100 * millisecond), .expire,
    .exchangeDone (.ok .written), .run (.call 0), .run (.call 0)]

namespace Connection

theorem keepsWrites_of_actions {path : List Transition}
    (hactions : ∀ id, Action.cancel id ∉ path.map (·.action)) : KeepsWrites path := by
  intro transition hmem id hcancel
  exact absurd (hcancel ▸ List.mem_map_of_mem hmem) (hactions id)

/-- Neither half is lost. -/
theorem sampleHalves_takeTurns :
    KeepsWrites (sampleHalves.walk Action.writeHalves) ∧
      TakeTurns sampleHalves (sampleHalves.walk Action.writeHalves) ∧
        (sessions (sampleHalves.walk Action.writeHalves)).map (·.call) = [1, 0] ∧
          (Session.runAll Codec.registerCodec (sessions (sampleHalves.walk Action.writeHalves))
            .zero).word ⟨1⟩ .holdingRegister 4 = 0x503 := by
  have hpath := path_walk
    (show (sampleHalves.run Action.writeHalves).isSome = true by decide +kernel)
  have hkeeps : KeepsWrites (sampleHalves.walk Action.writeHalves) := by
    apply keepsWrites_of_actions
    simp [Action.writeHalves, walk, next]
  exact ⟨hkeeps, takeTurns hpath hkeeps, by decide +kernel, by decide +kernel⟩

end Connection

end Fieldbus

import Fieldbus.Proofs.Link.Exchanges
import Fieldbus.Proofs.Run.Starts

/-!
# Abandoned exchanges

A caller can give a write up while its exchange is under way.  The link learns nothing of it: the
transport stays open, the interval is not kept from then on, and the next exchange of anybody
follows on the same transport.
-/

namespace Fieldbus

/-- The request of an exchange whose caller gives it up. -/
def Transition.abandoned? (transition : Transition) : Option Request :=
  match transition.action, transition.before.transaction with
  | .cancel id, some ⟨request, .exchanging _⟩ =>
    if transition.before.linkLock.isHeldBy (.call id) then some request else none
  | _, _ => none

theorem Transition.abandoned?_eq_some {transition : Transition} {request : Request}
    (horderly : transition.before.traffic.Orderly)
    (habandoned : transition.abandoned? = some request) :
    ∃ id job since, transition.action = .cancel id ∧
      Calls.phase? transition.before.calls id = some (.transacting job) ∧
        transition.before.transaction = some ⟨request, .exchanging since⟩ := by
  rw [abandoned?] at habandoned
  split at habandoned
  · next id own since haction htransaction =>
      split at habandoned
      · next hheld =>
          obtain rfl := Option.some.inj habandoned
          obtain ⟨job, hphase⟩ :=
            horderly.transacting_of_held htransaction (FairLock.isHeldBy_iff.mp hheld)
          exact ⟨id, job, since, haction, hphase, htransaction⟩
      · simp at habandoned
  · simp at habandoned

/-- The end of an exchange is heard, and its start is shown. -/
theorem not_mem_signs_of_ends (success : Bool) (events : List Event) :
    .ends success ∉ signs events := by
  intro hmem
  obtain ⟨event, -, hsign⟩ := List.mem_filterMap.mp hmem
  cases event <;> simp [Event.sign?] at hsign

theorem mem_started_iff {request : Request} {events : List Event} :
    request ∈ started events ↔ .starts request ∈ signs events := by
  rw [started_eq, List.mem_filterMap]
  constructor
  · rintro ⟨sign, hsign, hstarted⟩
    cases sign <;> simp [Sign.started?] at hstarted
    exact hstarted ▸ hsign
  · exact fun hmem => ⟨_, hmem, rfl⟩

theorem Traffic.not_mem_heard_of_starts (request : Request) (c : Traffic) (action : Action) :
    .starts request ∉ c.heard action := by
  cases htransaction : c.transaction with
  | none => simp [heard, htransaction]
  | some transaction =>
      obtain ⟨own, stage⟩ := transaction
      cases stage <;> simp [heard, htransaction, Transaction.heard]

namespace Transition

variable {transition : Transition} {request : Request}

theorem starts_mem_wire_iff :
    ⟨transition.before.now, .starts request⟩ ∈ transition.wire ↔
      request ∈ started transition.events := by
  rw [wire, List.mem_map, mem_started_iff]
  constructor
  · rintro ⟨sign, hsign, hentry⟩
    obtain rfl : sign = .starts request := (Entry.mk.inj hentry).2
    apply (List.mem_append.mp hsign).resolve_left
    exact transition.before.traffic.not_mem_heard_of_starts request transition.action
  · exact fun hmem => ⟨_, List.mem_append_right _ hmem, rfl⟩

theorem time_of_mem_wire {entry : Entry} (hmem : entry ∈ transition.wire) :
    entry.time = transition.before.now := by
  obtain ⟨sign, -, rfl⟩ := List.mem_map.mp hmem
  rfl

theorem not_starts (hsilent : started transition.events = []) :
    ∀ entry ∈ transition.wire, ∀ request, entry.sign ≠ .starts request := by
  rintro ⟨time, sign⟩ hmem request rfl
  obtain rfl : time = transition.before.now := time_of_mem_wire hmem
  have hstarts := starts_mem_wire_iff.mp hmem
  simp [hsilent] at hstarts

/-- A step in which an exchange starts before anything else does nothing else. -/
theorem wire_of_starts_cons {time : Instant} {rest : List Entry}
    (hwire : transition.wire = ⟨time, .starts request⟩ :: rest)
    (hnext : ∀ next later, rest = next :: later → ∃ success, next.sign = .ends success) :
    rest = [] := by
  -- Nothing has been heard, or it would stand before the start.
  have hheard : transition.before.traffic.heard transition.action = [] := by
    cases hheard : transition.before.traffic.heard transition.action with
    | nil => rfl
    | cons sign signs =>
        have hstarts := transition.before.traffic.not_mem_heard_of_starts request transition.action
        rw [wire, hheard] at hwire
        obtain ⟨-, rfl⟩ := Entry.mk.inj (List.cons.inj hwire).1
        simp [hheard] at hstarts
  cases rest with
  | nil => rfl
  | cons next later =>
      obtain ⟨success, hends⟩ := hnext next later rfl
      have hmem : next ∈ transition.wire := by simp [hwire]
      rw [wire, hheard, List.nil_append] at hmem
      obtain ⟨sign, hsign, rfl⟩ := List.mem_map.mp hmem
      obtain rfl : sign = .ends success := hends
      exact absurd hsign (not_mem_signs_of_ends success _)

end Transition

namespace Wire

variable {settings : LinkSettings} {start final : Wire} {log : List Entry}

/-- The transport is open with no exchange under way, or closed for good. -/
def IsSettled (wire : Wire) : Prop := wire.mode = .ready ∨ wire.mode = .shut

/-- A settled transport on which no exchange starts stays as it is, or is closed for good. -/
theorem Run.of_settled (hrun : Run settings start log final) (hsettled : start.IsSettled)
    (hnone : ∀ entry ∈ log, ∀ request, entry.sign ≠ .starts request) :
    log = [] ∧ final = start ∨ final.mode = .shut := by
  cases hrun with
  | nil => exact .inl ⟨rfl, rfl⟩
  | cons hstep hrest =>
      cases hstep with
      | shuts =>
          obtain rfl := hrest.of_shut rfl
          cases hrest
          exact .inr rfl
      | starts => exact absurd rfl (hnone _ List.mem_cons_self _)
      | opens | openEnds | ends | closes => simp [IsSettled] at hsettled

/-- On a settled transport an exchange is the first thing to come. -/
theorem Run.starts_of_settled {request : Request} {entry : Entry}
    (hrun : Run settings start log final) (hsettled : start.IsSettled) (hmem : entry ∈ log)
    (hsign : entry.sign = .starts request) :
    ∃ time first rest, log = ⟨time, .starts first⟩ :: rest ∧
      (∀ last, start.lastEnd = some last → last + settings.minInterval ≤ time) ∧
        ∀ next later, rest = next :: later → ∃ success, next.sign = .ends success := by
  cases hrun with
  | nil => simp at hmem
  | cons hstep hrest =>
      cases hstep with
      | starts hclock first hspaced =>
          refine ⟨_, first, _, rfl, hspaced, ?_⟩
          rintro next later rfl
          cases hrest with
          | cons hnext _ => exact hnext.of_busy rfl
      | shuts =>
          obtain rfl := hrest.of_shut rfl
          rw [List.mem_singleton.mp hmem] at hsign
          simp at hsign
      | opens | openEnds | ends | closes => simp [IsSettled] at hsettled

end Wire

/-- What is left of a wire when a transaction on it is given up: a settled one stays as it is. -/
structure Wire.Leaves (wire next : Wire) : Prop where
  clock : next.clock = wire.clock
  lastEnd : next.lastEnd = wire.lastEnd
  same : wire.IsSettled → next = wire

theorem Wire.Leaves.refl (wire : Wire) : wire.Leaves wire := ⟨rfl, rfl, fun _ => rfl⟩

namespace Wire.Takes

variable {settings : LinkSettings} {now : Instant} {start final : Wire} {signs : List Sign}
variable {entry : Entry} {success : Bool}

theorem remembers {time : Instant} (htakes : start.Takes settings now signs final)
    (hstart : start.Remembers time) : final.Remembers time :=
  Run.invariant (fun _ _ _ hbefore hstep => hstep.remembers hbefore) htakes hstart

theorem remembers_end (htakes : start.Takes settings now signs final)
    (hmem : entry ∈ signs.map (Entry.mk now)) (hends : entry.sign = .ends success) :
    final.Remembers entry.time := by
  obtain ⟨front, back, hsplit⟩ := List.append_of_mem hmem
  have hrun : Run settings start (front ++ entry :: back) final := hsplit ▸ htakes
  obtain ⟨before, after, -, hend, hback⟩ := hrun.split
  apply hback.invariant (fun _ _ _ hbefore hstep => hstep.remembers hbefore)
  rw [hend.of_ends hends]
  exact ⟨Nat.le_refl _, _, rfl, Nat.le_refl _⟩

end Wire.Takes

namespace Link.Shows

variable {settings : LinkSettings} {now : Instant} {closing : Bool} {link : Link} {wire : Wire}
variable {transaction : Option Transaction}

/-- A link that is open and has nothing to do shows an open transport. -/
theorem mode_of_open (hshows : link.Shows settings now closing none wire)
    (hopen : link.isOpen = true) : wire.mode = .ready := by
  cases hshows.fits with
  | ready hmode => exact hmode
  | closed _ hdown | shut _ hdown => simp [hopen] at hdown
  | opening _ _ _ _ hsome | spacing _ _ _ _ hsome | busy _ _ _ _ hsome => simp at hsome

theorem open_of_exchanging {request : Request} {since : Instant}
    (hshows : link.Shows settings now closing (some ⟨request, .exchanging since⟩) wire) :
    link.isOpen = true := by
  cases hshows.fits with
  | busy _ hup => exact hup
  | closed _ _ hidle | ready _ _ hidle | shut _ _ hidle => simp at hidle
  | opening _ _ _ _ hsome | spacing _ _ _ _ hsome => simp at hsome

/-- A transaction that is given up leaves the link as it is, with the last end that it knows. -/
theorem drop (hshows : link.Shows settings now closing transaction wire) :
    ∃ next, link.Shows settings now closing none next ∧ wire.Leaves next := by
  cases hshows.fits with
  | closed hmode hdown =>
      exact ⟨wire, { hshows with fits := .closed hmode hdown rfl }, .refl wire⟩
  | shut hmode hdown hidle hclosing =>
      exact ⟨wire, { hshows with fits := .shut hmode hdown rfl hclosing }, .refl wire⟩
  | ready hmode hup | spacing hmode hup =>
      exact ⟨wire, { hshows with fits := .ready hmode hup rfl }, .refl wire⟩
  | opening hmode hdown =>
      exact ⟨{ wire with mode := .closed }, { hshows with fits := .closed rfl hdown rfl },
        rfl, rfl, by simp [Wire.IsSettled, hmode]⟩
  | busy hmode hup =>
      exact ⟨{ wire with mode := .ready }, { hshows with fits := .ready rfl hup rfl },
        rfl, rfl, by simp [Wire.IsSettled, hmode]⟩

end Link.Shows

namespace Move

variable {settings : LinkSettings} {c after : Traffic} {action : Action} {events : List Event}
variable {wire : Wire}

/-- What is left of a transaction that its caller gives up. -/
theorem of_drop {id : Nat} {job : WriteJob} (hmove : Move c (.cancel id) events after)
    (hphase : Calls.phase? c.calls id = some (.transacting job)) :
    events = [] ∧ after.transaction = none ∧ after.link = c.link ∧ after.now = c.now ∧
      after.closing = c.closing := by
  cases hmove with
  | cancel hfound =>
      obtain rfl := Option.some.inj (hphase.symm.trans hfound)
      exact ⟨rfl, rfl, rfl, rfl, rfl⟩
  | stay haction | stroll haction | seekSetting haction => simp [Action.isInternal] at haction
  | proceed htransaction hturn | store htransaction hfound hjob hturn
  | misfit htransaction hfound hturn | endPoll htransaction hpolling hturn
  | fail htransaction hfound hjob hturn | writeBack htransaction hfound hjob hfield hturn =>
      have hanswer := hturn.isAnswer
      simp [Action.isAnswer] at hanswer

/-- A transaction that is given up leaves the wire to whoever comes next. -/
theorem drop {id : Nat} {job : WriteJob} (hmove : Move c (.cancel id) events after)
    (hphase : Calls.phase? c.calls id = some (.transacting job)) (hshows : c.Shows settings wire) :
    c.heard (.cancel id) ++ signs events = [] ∧
      ∃ next, after.Shows settings next ∧ wire.Leaves next := by
  obtain ⟨rfl, hnone, hlink, hnow, hclosing⟩ := hmove.of_drop hphase
  refine ⟨by rw [Traffic.heard_eq_nil rfl]; rfl, ?_⟩
  have hdropped := Link.Shows.drop hshows
  rwa [← hnone, ← hlink, ← hnow, ← hclosing] at hdropped

/-- An exchange that is given up leaves its transport open. -/
theorem ready_of_drop {id : Nat} {job : WriteJob} {request : Request} {since : Instant}
    {next : Wire} (hmove : Move c (.cancel id) events after)
    (hphase : Calls.phase? c.calls id = some (.transacting job))
    (htransaction : c.transaction = some ⟨request, .exchanging since⟩)
    (hshows : c.Shows settings wire) (hnext : after.Shows settings next) :
    next.mode = .ready := by
  obtain ⟨-, hnone, hlink, -, -⟩ := hmove.of_drop hphase
  have hopen : c.link.isOpen = true := by
    rw [Traffic.Shows, htransaction] at hshows
    exact hshows.open_of_exchanging
  rw [Traffic.Shows, hnone, hlink] at hnext
  exact hnext.mode_of_open hopen

/-- Every move keeps the wire in the state that the link takes it to be in, or it gives a
transaction up. -/
theorem shows_or_drops (hmove : Move c action events after) (horderly : c.Orderly)
    (hshows : c.Shows settings wire) :
    (∃ next, wire.Takes settings c.now (c.heard action ++ signs events) next ∧
        after.Shows settings next) ∨
      c.heard action ++ signs events = [] ∧ ∃ next, after.Shows settings next ∧
        wire.Leaves next := by
  by_cases hdrop : ∃ id job, action = .cancel id ∧
      Calls.phase? c.calls id = some (.transacting job)
  · obtain ⟨id, job, rfl, hphase⟩ := hdrop
    exact .inr (hmove.drop hphase hshows)
  · refine .inl (hmove.shows horderly (fun id job hcancel hphase => ?_) hshows)
    exact hdrop ⟨id, job, hcancel, hphase⟩

/-- Where no exchange is under way, the wire does not notice what is given up. -/
theorem shows_of_settled (hmove : Move c action events after) (horderly : c.Orderly)
    (hshows : c.Shows settings wire) (hsettled : wire.IsSettled) :
    ∃ next, wire.Takes settings c.now (c.heard action ++ signs events) next ∧
      after.Shows settings next := by
  rcases hmove.shows_or_drops horderly hshows with hkept | ⟨hsilent, next, hnext, hleaves⟩
  · exact hkept
  · rw [hsilent]
    exact ⟨wire, .nil wire, hleaves.same hsettled ▸ hnext⟩

end Move

/-! ## Paths -/

namespace Connection

variable {settings : LinkSettings} {start final : Connection} {path : List Transition}
variable {wire : Wire}

theorem wireLog_snoc (path : List Transition) (transition : Transition) :
    wireLog (path ++ [transition]) = wireLog path ++ transition.wire := by
  rw [wireLog, List.flatMap_append, List.flatMap_singleton, ← wireLog]

/-- Whatever is given up on the way, the link knows of an end at least as late as each that was
seen. -/
theorem Path.remembers (hpath : Path start path final) (horderly : start.traffic.Orderly)
    (hshows : start.traffic.Shows settings wire) :
    ∃ next, final.traffic.Shows settings next ∧
      ∀ entry ∈ wireLog path, ∀ success, entry.sign = .ends success →
        next.Remembers entry.time := by
  refine hpath.history (motive := fun path state => ∃ next, state.traffic.Shows settings next ∧
    ∀ entry ∈ wireLog path, ∀ success, entry.sign = .ends success → next.Remembers entry.time)
    ⟨wire, hshows, by simp [wireLog]⟩ ?_
  rintro past before action after events hpast ⟨middle, hmiddle, hremembers⟩ hstep
  have hready := hpast.orderly horderly
  have hmove := move_of_step hready hstep
  rcases hmove.shows_or_drops hready hmiddle with
    ⟨next, htakes, hnext⟩ | ⟨hsilent, next, hnext, hleaves⟩
  · refine ⟨next, hnext, fun entry hentry success hends => ?_⟩
    rw [wireLog_snoc] at hentry
    rcases List.mem_append.mp hentry with hpast | hnow
    · exact htakes.remembers (hremembers entry hpast success hends)
    · exact htakes.remembers_end hnow hends
  · refine ⟨next, hnext, fun entry hentry success hends => ?_⟩
    rw [wireLog_snoc, Transition.wire, hsilent, List.map_nil, List.append_nil] at hentry
    have hbefore := hremembers entry hentry success hends
    rwa [Wire.Remembers, ← hleaves.clock, ← hleaves.lastEnd] at hbefore

/-- On a settled transport nothing happens before the next exchange starts, unless it is closed for
good. -/
theorem Path.of_settled (hpath : Path start path final) (horderly : start.traffic.Orderly)
    (hshows : start.traffic.Shows settings wire) (hsettled : wire.IsSettled)
    (hnone : ∀ transition ∈ path, started transition.events = []) :
    ∃ next, final.traffic.Shows settings next ∧
      (wireLog path = [] ∧ next = wire ∨ next.mode = .shut) := by
  refine hpath.history (motive := fun path state =>
    (∀ transition ∈ path, started transition.events = []) → ∃ next,
      state.traffic.Shows settings next ∧ (wireLog path = [] ∧ next = wire ∨ next.mode = .shut))
    (fun _ => ⟨wire, hshows, .inl ⟨rfl, rfl⟩⟩) ?_ hnone
  intro past before action after events hpast hbefore hstep hsilent
  obtain ⟨middle, hmiddle, hsame⟩ :=
    hbefore fun transition hmem => hsilent transition (List.mem_append_left _ hmem)
  have hready := hpast.orderly horderly
  have hstill : middle.IsSettled := hsame.elim (fun heq => heq.2 ▸ hsettled) .inr
  obtain ⟨next, htakes, hnext⟩ :=
    (move_of_step hready hstep).shows_of_settled hready hmiddle hstill
  have hnow := Transition.not_starts (hsilent _ (List.mem_append_right _ List.mem_cons_self))
  refine ⟨next, hnext, ?_⟩
  rcases Wire.Run.of_settled htakes hstill hnow with ⟨hempty, rfl⟩ | hshut
  · refine hsame.imp_left fun ⟨hnothing, heq⟩ => ⟨?_, heq⟩
    rw [wireLog_snoc, hnothing]
    exact hempty
  · exact .inr hshut

/-- On a settled transport an exchange starts alone, as soon as the last end is long enough ago. -/
theorem wire_of_started {transition : Transition} {request : Request}
    (hstep : transition.before.step transition.action =
      some (transition.after, transition.events))
    (horderly : transition.before.traffic.Orderly)
    (hshows : transition.before.traffic.Shows settings wire) (hsettled : wire.IsSettled)
    (hstarts : request ∈ started transition.events) :
    transition.wire = [⟨transition.before.now, .starts request⟩] ∧ wire.mode ≠ .shut ∧
      ∀ last, wire.lastEnd = some last →
        last + settings.minInterval ≤ transition.before.now := by
  obtain ⟨next, htakes, -⟩ :=
    (move_of_step horderly hstep).shows_of_settled horderly hshows hsettled
  have hrun : Wire.Run settings wire transition.wire next := htakes
  have hmem := Transition.starts_mem_wire_iff.mpr hstarts
  obtain ⟨time, first, rest, hwire, hspaced, hends⟩ := hrun.starts_of_settled hsettled hmem rfl
  obtain rfl := Transition.wire_of_starts_cons hwire hends
  rw [hwire, List.mem_singleton] at hmem
  obtain ⟨rfl, hsign⟩ := Entry.mk.inj hmem
  obtain rfl := Sign.starts.inj hsign
  refine ⟨hwire, fun hshut => ?_, hspaced⟩
  simp [hrun.of_shut hshut] at hwire

/-- After an exchange is given up nothing is seen of it any more.  The transport is neither closed
nor opened before the next exchange starts on it, and only the ends of exchanges before the one that
was given up keep the next one waiting. -/
theorem start_after_abandoned {settings : ConnectionSettings} {codec : ValueCodec}
    {declared : List Point} {earlier between later : List Transition} {drop next : Transition}
    {abandoned request : Request}
    (hpath : Path (create settings codec declared).1
      (earlier ++ drop :: (between ++ next :: later)) final)
    (hdrop : drop.abandoned? = some abandoned)
    (hnone : ∀ transition ∈ between, started transition.events = [])
    (hnext : request ∈ started next.events) :
    wireLog (drop :: between) = [] ∧ next.wire = [⟨next.before.now, .starts request⟩] ∧
      ∀ entry ∈ wireLog earlier, ∀ success, entry.sign = .ends success →
        entry.time + settings.link.minInterval ≤ next.before.now := by
  have hcreate := create_orderly settings codec declared
  obtain ⟨hearlier, hstep, hrest⟩ := hpath.split
  obtain ⟨hbetween, hlast, -⟩ := hrest.split
  have hready := hearlier.orderly hcreate
  obtain ⟨wire, hshows, hremembers⟩ :=
    hearlier.remembers hcreate (create_shows settings codec declared)
  -- The drop leaves an open transport.
  obtain ⟨id, job, since, haction, hphase, htransaction⟩ :=
    Transition.abandoned?_eq_some hready hdrop
  have hmove := move_of_step hready hstep
  rw [haction] at hmove
  obtain ⟨hsilent, left, hleft, hleaves⟩ := hmove.drop hphase hshows
  have hmode : left.mode = .ready := hmove.ready_of_drop hphase htransaction hshows hleft
  have hdropped : drop.wire = [] := by rw [Transition.wire, haction, hsilent, List.map_nil]
  -- It stays open, or nothing could start on it.
  have hafter := hmove.orderly hready
  obtain ⟨waiting, hwaiting, hsame⟩ := hbetween.of_settled hafter hleft (.inl hmode) hnone
  have hsettled : waiting.IsSettled := hsame.elim (fun heq => .inl (heq.2 ▸ hmode)) .inr
  have horderly := hbetween.orderly hafter
  obtain ⟨hwire, hlive, hspaced⟩ := wire_of_started hlast horderly hwaiting hsettled hnext
  obtain ⟨hnothing, rfl⟩ := hsame.resolve_right hlive
  refine ⟨?_, hwire, fun entry hentry success hends => ?_⟩
  · rw [wireLog, List.flatMap_cons, hdropped, ← wireLog, hnothing]
    rfl
  · obtain ⟨-, last, hknown, hpast⟩ := hremembers entry hentry success hends
    have hkept := hspaced last (hleaves.lastEnd.trans hknown)
    exact Nat.le_trans (Nat.add_le_add_right hpast _) hkept

end Connection

/-- An exchange of a write is under way. -/
def Action.beginWrite : List Action :=
  [.start 0 (.write ⟨"plant"⟩ [⟨"level", .int 3⟩]), .run (.call 0), .run (.call 0),
    .run (.call 0), .run (.call 0), .openDone (.ok ())]

/-- Another write waits for the link. -/
def Action.seekLink : List Action :=
  [.start 1 (.write ⟨"plant"⟩ [⟨"level", .int 5⟩]), .run (.call 1), .run (.call 1),
    .run (.call 1)]

namespace Connection

/-- A write is given up. -/
def sampleDrop : Transition := (sample.stop Action.beginWrite).next (.cancel 0)

/-- The next write has got the link. -/
def sampleRestart : Transition := (sampleDrop.after.stop Action.seekLink).next (.run (.call 1))

theorem path_sampleDrop :
    Path sample (sample.walk Action.beginWrite ++
      sampleDrop :: (sampleDrop.after.walk Action.seekLink ++ [sampleRestart]))
        sampleRestart.after := by
  have hbegin := path_walk (show (sample.run Action.beginWrite).isSome = true by decide +kernel)
  have hseek := path_walk
    (show (sampleDrop.after.run Action.seekLink).isSome = true by decide +kernel)
  have hrestart : Path (sampleDrop.after.stop Action.seekLink) [sampleRestart] _ :=
    .cons_next (by decide +kernel) (.nil _)
  exact hbegin.append (.cons_next (by decide +kernel) (hseek.append hrestart))

/-- The next exchange starts at the time of the drop. -/
theorem sampleDrop_wire :
    (∃ abandoned, sampleDrop.abandoned? = some abandoned) ∧
      wireLog (sampleDrop :: sampleDrop.after.walk Action.seekLink) = [] ∧
        sampleRestart.wire = [⟨sampleDrop.before.now,
          .starts (.write ⟨⟨1⟩, .holdingRegister, 4, .words [5]⟩)⟩] := by
  have habandoned : sampleDrop.abandoned? =
      some (.write ⟨⟨1⟩, .holdingRegister, 4, .words [3]⟩) := by decide +kernel
  have hnone : ∀ transition ∈ sampleDrop.after.walk Action.seekLink,
      started transition.events = [] := by decide +kernel
  have hstarts : .write ⟨⟨1⟩, .holdingRegister, 4, .words [5]⟩ ∈ started sampleRestart.events := by
    decide +kernel
  have hnow : sampleRestart.before.now = sampleDrop.before.now := by decide +kernel
  obtain ⟨hsilent, hwire, -⟩ := start_after_abandoned path_sampleDrop habandoned hnone hstarts
  exact ⟨⟨_, habandoned⟩, hsilent, hnow ▸ hwire⟩

/-- So it is not true that the transport is closed after a drop, nor that the minimum interval is
kept from then on. -/
theorem not_closed_after_abandoned :
    ¬∀ (earlier between later : List Transition) (drop next : Transition)
      (abandoned request : Request) (final : Connection),
      Path sample (earlier ++ drop :: (between ++ next :: later)) final →
        drop.abandoned? = some abandoned →
          (∀ transition ∈ between, started transition.events = []) →
            request ∈ started next.events →
              (∃ entry ∈ wireLog (drop :: between ++ [next]), entry.sign = .closes) ∧
                drop.before.now + sample.settings.link.minInterval ≤ next.before.now := by
  intro hspaced
  have habandoned : sampleDrop.abandoned? =
      some (.write ⟨⟨1⟩, .holdingRegister, 4, .words [3]⟩) := by decide +kernel
  have hstarts : .write ⟨⟨1⟩, .holdingRegister, 4, .words [5]⟩ ∈ started sampleRestart.events := by
    decide +kernel
  obtain ⟨-, hlate⟩ :=
    hspaced _ _ _ _ _ _ _ _ path_sampleDrop habandoned (by decide +kernel) hstarts
  have hearly : sampleRestart.before.now < sampleDrop.before.now +
    sample.settings.link.minInterval := by decide +kernel
  exact absurd hlate (Nat.not_le_of_lt hearly)

end Connection

end Fieldbus

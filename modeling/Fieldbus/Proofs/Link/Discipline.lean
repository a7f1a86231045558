import Fieldbus.Proofs.Link.Wire
import Mathlib.Data.List.Induction

/-!
# The discipline of the wire

The state of a wire is what has been seen of a transport so far, and it decides what may come next.
Every log that obeys these rules is disciplined: the rules are local, and discipline is what they
amount to over a whole log.
-/

namespace Fieldbus

/-- A sign on the wire and the time at which it was seen. -/
structure Entry where
  time : Instant
  sign : Sign

/-- The rules of a link for everything that it puts on the wire. -/
structure Disciplined (settings : LinkSettings) (log : List Entry) : Prop where
  /-- Nothing happens between the start of an exchange and its end. -/
  alone : ∀ earlier start next later request, log = earlier ++ start :: next :: later →
    start.sign = .starts request → ∃ success, next.sign = .ends success
  /-- An exchange starts at least the minimum interval after the end of every earlier one. -/
  spaced : ∀ earlier start later request, log = earlier ++ start :: later →
    start.sign = .starts request → ∀ entry ∈ earlier, ∀ success, entry.sign = .ends success →
      entry.time + settings.minInterval ≤ start.time
  /-- An exchange starts after a successful open, with no close in between. -/
  opened : ∀ earlier start later request, log = earlier ++ start :: later →
    start.sign = .starts request → ∃ before opening done between,
      earlier = before ++ opening :: done :: between ∧ opening.sign = .opens ∧
        done.sign = .openEnds true ∧ ∀ entry ∈ between, entry.sign ≠ .closes
  /-- After an exchange whose transaction failed, and after every exchange if the transport is not
  to be kept open, the next thing is that it is closed, at the same time. -/
  closed : ∀ earlier stop later success, log = earlier ++ stop :: later →
    stop.sign = .ends success → (success && settings.keepAlive) = false →
      ∃ rest, later = ⟨stop.time, .closes⟩ :: rest
  /-- Such an exchange and a later one have a new open between them. -/
  reopened : ∀ earlier stop between start later success request,
    log = earlier ++ stop :: (between ++ start :: later) →
      stop.sign = .ends success → (success && settings.keepAlive) = false →
        start.sign = .starts request → ∃ before opening done after,
          between = before ++ opening :: done :: after ∧ opening.sign = .opens ∧
            done.sign = .openEnds true
  /-- A transport that is to be kept open is not closed between two consecutive exchanges, unless
  the transaction of the first one failed. -/
  kept : ∀ earlier stop between start later request,
    log = earlier ++ stop :: (between ++ start :: later) → settings.keepAlive = true →
      stop.sign = .ends true → start.sign = .starts request →
        (∀ entry ∈ between, ∀ other, entry.sign ≠ .starts other) →
          ∀ entry ∈ between, entry.sign ≠ .closes

inductive Mode where
  | closed
  | opening
  | ready
  | busy
  /-- The transport has to be closed before anything else, and before time goes on. -/
  | spent (since : Instant)
  /-- The transport has been closed for good. -/
  | shut

structure Wire where
  mode : Mode := .closed
  clock : Instant := 0
  /-- The end of the last exchange. -/
  lastEnd : Option Instant := none

namespace Wire

/-- What may come next on the wire. -/
inductive Step (settings : LinkSettings) : Wire → Entry → Wire → Prop where
  | opens {clock time : Instant} {lastEnd : Option Instant} (hclock : clock ≤ time) :
      Step settings ⟨.closed, clock, lastEnd⟩ ⟨time, .opens⟩ ⟨.opening, time, lastEnd⟩
  | openEnds {clock time : Instant} {lastEnd : Option Instant} (hclock : clock ≤ time)
      (success : Bool) :
      Step settings ⟨.opening, clock, lastEnd⟩ ⟨time, .openEnds success⟩
        ⟨if success then .ready else .spent time, time, lastEnd⟩
  | starts {clock time : Instant} {lastEnd : Option Instant} (hclock : clock ≤ time)
      (request : Request)
      (hspaced : ∀ last, lastEnd = some last → last + settings.minInterval ≤ time) :
      Step settings ⟨.ready, clock, lastEnd⟩ ⟨time, .starts request⟩ ⟨.busy, time, lastEnd⟩
  | ends {clock time : Instant} {lastEnd : Option Instant} (hclock : clock ≤ time)
      (success : Bool) :
      Step settings ⟨.busy, clock, lastEnd⟩ ⟨time, .ends success⟩
        ⟨if success && settings.keepAlive then .ready else .spent time, time, some time⟩
  | closes {clock : Instant} {lastEnd : Option Instant} :
      Step settings ⟨.spent clock, clock, lastEnd⟩ ⟨clock, .closes⟩ ⟨.closed, clock, lastEnd⟩
  | shuts {clock time : Instant} {lastEnd : Option Instant} (hclock : clock ≤ time) :
      Step settings ⟨.ready, clock, lastEnd⟩ ⟨time, .closes⟩ ⟨.shut, time, lastEnd⟩

inductive Run (settings : LinkSettings) : Wire → List Entry → Wire → Prop where
  | nil (wire : Wire) : Run settings wire [] wire
  | cons {before after final : Wire} {entry : Entry} {rest : List Entry}
      (hstep : Step settings before entry after) (hrest : Run settings after rest final) :
      Run settings before (entry :: rest) final

variable {settings : LinkSettings} {start middle final : Wire}
variable {log earlier later : List Entry} {entry : Entry} {request : Request} {success : Bool}

namespace Run

theorem append (hearlier : Run settings start earlier middle)
    (hlater : Run settings middle later final) : Run settings start (earlier ++ later) final := by
  induction hearlier with
  | nil => exact hlater
  | cons hstep _ ih => exact .cons hstep (ih hlater)

theorem append_iff :
    Run settings start (earlier ++ later) final ↔
      ∃ middle, Run settings start earlier middle ∧ Run settings middle later final := by
  constructor
  · intro hrun
    induction earlier generalizing start with
    | nil => exact ⟨start, .nil start, hrun⟩
    | cons head tail ih =>
        cases hrun with
        | cons hstep hrest =>
            obtain ⟨middle, hearlier, hlater⟩ := ih hrest
            exact ⟨middle, .cons hstep hearlier, hlater⟩
  · rintro ⟨middle, hearlier, hlater⟩
    exact hearlier.append hlater

/-- The states before an entry of a log and after it. -/
theorem split (hrun : Run settings start (earlier ++ entry :: later) final) :
    ∃ before after, Run settings start earlier before ∧ Step settings before entry after ∧
      Run settings after later final := by
  obtain ⟨before, hearlier, hrest⟩ := append_iff.mp hrun
  cases hrest with
  | cons hstep hlater => exact ⟨before, _, hearlier, hstep, hlater⟩

/-- What every step keeps is kept by a whole log. -/
theorem invariant {property : Wire → Prop}
    (hkeeps : ∀ before entry after, property before → Step settings before entry after →
      property after)
    (hrun : Run settings start log final) (hstart : property start) : property final := by
  induction hrun with
  | nil => exact hstart
  | cons hstep _ ih => exact ih (hkeeps _ _ _ hstart hstep)

end Run

theorem Step.of_starts (hstep : Step settings start entry final)
    (hsign : entry.sign = .starts request) :
    start.mode = .ready ∧ final.mode = .busy ∧
      ∀ last, start.lastEnd = some last → last + settings.minInterval ≤ entry.time := by
  cases hstep with
  | starts hclock request hspaced => exact ⟨rfl, rfl, hspaced⟩
  | opens | openEnds | ends | closes | shuts => simp at hsign

theorem Step.of_ends (hstep : Step settings start entry final)
    (hsign : entry.sign = .ends success) :
    final = ⟨if success && settings.keepAlive then .ready else .spent entry.time, entry.time,
      some entry.time⟩ := by
  cases hstep with
  | ends hclock success =>
      obtain rfl := Sign.ends.inj hsign
      rfl
  | opens | openEnds | starts | closes | shuts => simp at hsign

theorem Step.of_busy (hstep : Step settings start entry final) (hmode : start.mode = .busy) :
    ∃ success, entry.sign = .ends success := by
  cases hstep with
  | ends hclock success => exact ⟨success, rfl⟩
  | opens | openEnds | starts | closes | shuts => simp at hmode

theorem Step.of_spent {since : Instant} (hstep : Step settings start entry final)
    (hmode : start.mode = .spent since) : entry = ⟨since, .closes⟩ ∧ final.mode = .closed := by
  cases hstep with
  | closes =>
      obtain rfl := Mode.spent.inj hmode
      exact ⟨rfl, rfl⟩
  | opens | openEnds | starts | ends | shuts => simp at hmode

/-- An exchange leaves a transport that has to be closed if it fails, or if nothing is kept open. -/
theorem Step.spent_of_ends (hstep : Step settings start entry final)
    (hsign : entry.sign = .ends success) (hspent : (success && settings.keepAlive) = false) :
    final.mode = .spent entry.time := by
  rw [hstep.of_ends hsign, hspent]
  rfl

theorem Step.of_shut (hstep : Step settings start entry final) : start.mode ≠ .shut := by
  cases hstep <;> simp

/-- The transport is open. -/
def IsUp (wire : Wire) : Prop := wire.mode = .ready ∨ wire.mode = .busy

/-- The last thing on the wire but closes is a successful open, or an exchange that kept it. -/
theorem Run.exists_open (hrun : Run settings start log final) (hdown : start.mode = .closed) :
    (final.mode = .opening → ∃ before opening, log = before ++ [opening] ∧ opening.sign = .opens) ∧
      (final.IsUp → ∃ before opening done between, log = before ++ opening :: done :: between ∧
        opening.sign = .opens ∧ done.sign = .openEnds true ∧
          ∀ entry ∈ between, entry.sign ≠ .closes) := by
  induction log using List.reverseRecOn generalizing final with
  | nil =>
      cases hrun
      simp [IsUp, hdown]
  | append_singleton past last ih =>
      obtain ⟨before, after, hpast, hlast, hrest⟩ := hrun.split
      cases hrest
      obtain ⟨hopening, hup⟩ := ih hpast
      -- An entry that leaves an open transport open goes on the stretch since the open.
      have hextend : last.sign ≠ .closes → before.IsUp →
          ∃ earlier opening done between, past ++ [last] = earlier ++ opening :: done :: between ∧
            opening.sign = .opens ∧ done.sign = .openEnds true ∧
              ∀ entry ∈ between, entry.sign ≠ .closes := by
        intro hkeeps hbefore
        obtain ⟨earlier, opening, done, between, rfl, hsign, hdone, hbetween⟩ := hup hbefore
        refine ⟨earlier, opening, done, between ++ [last], by simp, hsign, hdone, ?_⟩
        intro entry hentry
        rcases List.mem_append.mp hentry with hentry | hentry
        · exact hbetween entry hentry
        · rwa [List.mem_singleton.mp hentry]
      cases hlast with
      | opens hclock => exact ⟨fun _ => ⟨past, _, rfl, rfl⟩, by simp [IsUp]⟩
      | @openEnds _ time _ hclock success =>
          cases success with
          | false => simp [IsUp]
          | true =>
              obtain ⟨earlier, opening, rfl, hsign⟩ := hopening rfl
              exact ⟨by simp, fun _ =>
                ⟨earlier, opening, ⟨time, .openEnds true⟩, [], by simp, hsign, rfl, by simp⟩⟩
      | starts hclock request hspaced =>
          exact ⟨by simp, fun _ => hextend (by simp) (.inl rfl)⟩
      | ends hclock success =>
          refine ⟨?_, fun _ => hextend (by simp) (.inr rfl)⟩
          cases success && settings.keepAlive <;> simp
      | closes => simp [IsUp]
      | shuts => simp [IsUp]

/-- The wire remembers an end at least as late as the given time, which is past. -/
def Remembers (time : Instant) (wire : Wire) : Prop :=
  time ≤ wire.clock ∧ ∃ last, wire.lastEnd = some last ∧ time ≤ last

theorem Step.remembers {time : Instant} (hstep : Step settings start entry final)
    (hstart : start.Remembers time) : final.Remembers time := by
  obtain ⟨hpast, last, hlast, htime⟩ := hstart
  cases hstep with
  | opens hclock | openEnds hclock | starts hclock | shuts hclock =>
      exact ⟨Nat.le_trans hpast hclock, last, hlast, htime⟩
  | ends hclock =>
      have hnow := Nat.le_trans hpast hclock
      exact ⟨hnow, _, rfl, hnow⟩
  | closes => exact ⟨hpast, last, hlast, htime⟩

/-- From a transport that is closed for good, nothing comes. -/
theorem Run.of_shut (hrun : Run settings start log final) (hmode : start.mode = .shut) :
    log = [] := by
  cases hrun with
  | nil => rfl
  | cons hstep _ => exact absurd hmode hstep.of_shut

/-- A transport that has to be closed is opened again before the next exchange. -/
theorem Run.reopened {since : Instant} (hrun : Run settings start (earlier ++ entry :: later) final)
    (hmode : start.mode = .spent since) (hsign : entry.sign = .starts request) :
    ∃ before opening done after, earlier = before ++ opening :: done :: after ∧
      opening.sign = .opens ∧ done.sign = .openEnds true := by
  cases earlier with
  | nil =>
      cases hrun with
      | cons hstep _ =>
          obtain ⟨rfl, -⟩ := hstep.of_spent hmode
          simp at hsign
  | cons closing rest =>
      cases hrun with
      | cons hstep hrest =>
          obtain ⟨before, after, hearlier, hstart, hlater⟩ := hrest.split
          obtain ⟨front, opening, done, back, rfl, hopening, hdone, -⟩ :=
            (hearlier.exists_open (hstep.of_spent hmode).2).2 (.inl (hstart.of_starts hsign).1)
          exact ⟨closing :: front, opening, done, back, rfl, hopening, hdone⟩

/-- An open transport starts the next exchange at once, or is closed for good. -/
theorem Run.of_ready (hrun : Run settings start (earlier ++ entry :: later) final)
    (hmode : start.mode = .ready) (hnone : ∀ entry ∈ earlier, ∀ other, entry.sign ≠ .starts other) :
    earlier = [] := by
  cases earlier with
  | nil => rfl
  | cons head rest =>
      cases hrun with
      | cons hstep hrest =>
          cases hstep with
          | starts => exact absurd rfl (hnone _ List.mem_cons_self _)
          | shuts =>
              have hempty := hrest.of_shut rfl
              simp at hempty
          | opens | openEnds | ends | closes => simp at hmode

theorem Run.disciplined (hrun : Run settings {} log final)
    (hsettled : ∀ since, final.mode ≠ .spent since) : Disciplined settings log where
  alone earlier first next later request hlog hfirst := by
    obtain ⟨before, after, hearlier, hstep, hrest⟩ := (hlog ▸ hrun).split
    cases hrest with
    | cons hnext _ => exact hnext.of_busy (hstep.of_starts hfirst).2.1
  spaced earlier first later request hlog hfirst entry hentry success hends := by
    obtain ⟨before, after, hearlier, hstep, hlater⟩ := (hlog ▸ hrun).split
    obtain ⟨front, back, rfl⟩ := List.append_of_mem hentry
    obtain ⟨ending, ended, hfront, hend, hback⟩ := hearlier.split
    have hremembers : ended.Remembers entry.time := by
      rw [hend.of_ends hends]
      exact ⟨Nat.le_refl _, _, rfl, Nat.le_refl _⟩
    obtain ⟨hpast, last, hlast, htime⟩ :=
      hback.invariant (fun _ _ _ hbefore hkeep => hkeep.remembers hbefore) hremembers
    have hspaced := (hstep.of_starts hfirst).2.2 last hlast
    exact Nat.le_trans (Nat.add_le_add_right htime _) hspaced
  opened earlier first later request hlog hfirst := by
    obtain ⟨before, after, hearlier, hstep, hlater⟩ := (hlog ▸ hrun).split
    exact (hearlier.exists_open rfl).2 (.inl (hstep.of_starts hfirst).1)
  closed earlier stop later success hlog hstop hspent := by
    obtain ⟨before, after, hearlier, hstep, hlater⟩ := (hlog ▸ hrun).split
    have hmode := hstep.spent_of_ends hstop hspent
    cases hlater with
    | nil => exact absurd hmode (hsettled _)
    | cons hnext _ =>
        obtain ⟨rfl, -⟩ := hnext.of_spent hmode
        exact ⟨_, rfl⟩
  reopened earlier stop between first later success request hlog hstop hspent hfirst := by
    obtain ⟨before, after, hearlier, hstep, hlater⟩ := (hlog ▸ hrun).split
    exact hlater.reopened (hstep.spent_of_ends hstop hspent) hfirst
  kept earlier stop between first later request hlog hkeep hstop hfirst hnone := by
    obtain ⟨before, after, hearlier, hstep, hlater⟩ := (hlog ▸ hrun).split
    have hmode : after.mode = .ready := by
      rw [hstep.of_ends hstop, hkeep]
      rfl
    rw [hlater.of_ready hmode hnone]
    simp

end Wire

end Fieldbus

import Fieldbus.Proofs.Polling.Completion
import Fieldbus.Proofs.Run.Phases

/-!
# Isolation of failures

The groups of a connection share its link, its clock and the ticks in which they are visited.  In a
calm tick one group still learns nothing of how the read of another ends: only a transport that does
not open stands in the way of the groups that follow.
-/

namespace Fieldbus

/-- The reply does not say that the transport could not be opened. -/
def Reached (reply : Except RequestError Response) : Prop :=
  ∀ error, reply = .error error → error.isOpenFailure = false

theorem reached_verdict {reply : Except RequestError Response} (hreached : Reached reply)
    (request : Request) : Reached (request.verdict reply) := by
  intro error herror
  cases reply with
  | error cause =>
      obtain rfl : cause = error := Except.error.inj herror
      exact hreached cause rfl
  | ok response =>
      simp only [Request.verdict, bind, Except.bind] at herror
      split at herror
      · simp [pure, Except.pure] at herror
      · obtain rfl := Except.error.inj herror
        rfl

namespace Conditions

/-- The same conditions with another reply to the read of one group. -/
def withReply (index : Nat) (reply : Except RequestError Response) (conditions : Conditions) :
    Conditions :=
  { conditions with replies := Function.update conditions.replies index reply }

variable {conditions : Conditions} {instant : Instant} {index : Nat}
variable {reply : Except RequestError Response}

theorem visit_withReply {place : Nat} (hplace : place ≠ index) (failure : Option RequestError)
    (group : PollGroup) :
    (conditions.withReply index reply).visit instant failure place group =
      conditions.visit instant failure place group := by
  simp only [visit, read, withReply, Function.update_of_ne hplace]

/-- A group whose read reaches the device leaves it open whether the transport fails to open. -/
theorem openFailure?_visit (hreached : Reached (conditions.replies index))
    (failure : Option RequestError) (group : PollGroup) :
    (conditions.visit instant failure index group).outcome.openFailure?.or failure = failure := by
  simp only [visit]
  split
  · cases failure with
    | some error => cases hopens : error.isOpenFailure <;> simp [PollOutcome.openFailure?, hopens]
    | none =>
        have hverdict := reached_verdict hreached
          (.read (group.asked conditions.ceiling).readRequest)
        simp only [read, PollGroup.report]
        split
        · rfl
        · next error herror => simp [PollOutcome.openFailure?, hverdict error herror]
  · rfl

/-- The visits to all other groups are the same. -/
theorem filter_visits_withReply (hreached : Reached (conditions.replies index))
    (hreply : Reached reply) (place : Nat) (failure : Option RequestError)
    (groups : List PollGroup) :
    ((conditions.withReply index reply).visits instant place failure groups).filter
        (·.index ≠ index) =
      (conditions.visits instant place failure groups).filter (·.index ≠ index) := by
  induction groups generalizing place failure with
  | nil => rfl
  | cons group rest ih =>
      simp only [visits]
      by_cases hplace : place = index
      · subst hplace
        have hreached' : Reached ((conditions.withReply place reply).replies place) := by
          simpa [withReply] using hreply
        rw [openFailure?_visit hreached, openFailure?_visit hreached',
          List.filter_cons_of_neg (by simp [index_visit]),
          List.filter_cons_of_neg (by simp [index_visit])]
        exact ih (place + 1) failure
      · rw [visit_withReply hplace, List.filter_cons_of_pos (by simp [index_visit, hplace]),
          List.filter_cons_of_pos (by simp [index_visit, hplace]), ih]

end Conditions

namespace Forecast

variable {index : Nat}

theorem filter_outcomes_ofReports (groups : List PollGroup) (reports : List VisitReport) :
    (ofReports groups [] reports).outcomes.filter (·.1 ≠ index) =
      (ofReports groups [] (reports.filter (·.index ≠ index))).outcomes := by
  simp only [ofReports, List.nil_append, List.filter_map]
  rfl

theorem filter_samples_ofReports (groups : List PollGroup) (reports : List VisitReport) :
    (ofReports groups [] reports).samples.filter (·.1 ≠ index) =
      (ofReports groups [] (reports.filter (·.index ≠ index))).samples := by
  simp only [ofReports]
  induction reports with
  | nil => rfl
  | cons report rest ih =>
      rw [List.flatMap_cons, List.filter_append, ih]
      by_cases hplace : report.index = index
      · rw [List.filter_cons_of_neg (by simp [hplace])]
        simp [List.filter_map, Function.comp_def, hplace]
      · rw [List.filter_cons_of_pos (by simp [hplace]), List.flatMap_cons]
        simp [List.filter_map, Function.comp_def, hplace]

/-- The visits to one group leave the others alone. -/
theorem getElem?_groups_ofReports {other : Nat} (hother : other ≠ index)
    (outcomes : List (Nat × PollOutcome)) (groups : List PollGroup)
    (reports : List VisitReport) :
    (ofReports groups outcomes reports).groups[other]? =
      (ofReports groups outcomes (reports.filter (·.index ≠ index))).groups[other]? := by
  simp only [ofReports]
  -- The lists differ at the place of the group only.
  suffices hagree : ∀ first second : List PollGroup,
      (∀ place ≠ index, first[place]? = second[place]?) →
        (reports.foldl (fun groups report => groups.set report.index report.kept) first)[other]? =
          ((reports.filter (·.index ≠ index)).foldl
            (fun groups report => groups.set report.index report.kept) second)[other]? from
    hagree groups groups fun _ _ => rfl
  induction reports with
  | nil => exact fun first second hsame => hsame other hother
  | cons report rest ih =>
      intro first second hsame
      rw [List.foldl_cons]
      by_cases hplace : report.index = index
      · rw [List.filter_cons_of_neg (by simp [hplace])]
        refine ih _ _ fun place hne => ?_
        rw [hplace, List.getElem?_set_ne (Ne.symm hne)]
        exact hsame place hne
      · rw [List.filter_cons_of_pos (by simp [hplace]), List.foldl_cons]
        refine ih _ _ fun place hne => ?_
        rw [List.getElem?_set', List.getElem?_set', hsame place hne]

theorem agree_of_filter {reports others : List VisitReport}
    (hsame : others.filter (·.index ≠ index) = reports.filter (·.index ≠ index))
    (groups : List PollGroup) :
    (ofReports groups [] others).outcomes.filter (·.1 ≠ index) =
        (ofReports groups [] reports).outcomes.filter (·.1 ≠ index) ∧
      (∀ other ≠ index,
        (ofReports groups [] others).groups[other]? =
          (ofReports groups [] reports).groups[other]?) ∧
        (ofReports groups [] others).samples.filter (·.1 ≠ index) =
          (ofReports groups [] reports).samples.filter (·.1 ≠ index) := by
  refine ⟨?_, fun other hother => ?_, ?_⟩
  · rw [filter_outcomes_ofReports, filter_outcomes_ofReports, hsame]
  · rw [getElem?_groups_ofReports hother, hsame, ← getElem?_groups_ofReports hother]
  · rw [filter_samples_ofReports, filter_samples_ofReports, hsame]

end Forecast

/-- The ticks differ in nothing but the visit to one group: the others come to the same outcomes in
the same order, their polls are recorded in the same way, and they pass on the same samples. -/
structure TickRun.AgreesBut (index : Nat) (run changed : TickRun) : Prop where
  outcomes : changed.outcomes.filter (·.1 ≠ index) = run.outcomes.filter (·.1 ≠ index)
  groups : ∀ other ≠ index, changed.final.group? other = run.final.group? other
  samples : changed.samples.filter (·.1 ≠ index) = run.samples.filter (·.1 ≠ index)

theorem CalmTick.forecast_eq {replies : Nat → Except RequestError Response} {start : Connection}
    {run : TickRun} {instant : Instant} (htick : CalmTick replies start run)
    (horderly : start.traffic.Orderly) (hphase : start.scheduler.phase = .visiting { instant }) :
    Forecast.ofReports start.scheduler.groups []
        ((start.conditions replies).following start.scheduler.enabled start.scheduler.groups
          { instant }) =
      ⟨run.final.scheduler.groups, run.outcomes, run.samples⟩ := by
  have hforecast := htick.path.forecast_eq horderly htick.undisturbed htick.ends
  simp only [Conditions.forecast, hphase] at hforecast
  exact hforecast

namespace Connection

variable {settings : ConnectionSettings} {codec : ValueCodec} {declared : List Point}

/-- In a tick during which nobody writes, commands or closes and every open of the transport
succeeds, another reply to the read of one group, be it values, an exception, a timeout or a bad
response, changes nothing for the other groups, in whatever order the users of the connection, its
link and the clock take their steps.  Unless everybody has gone away, the tick with the other reply
can be brought to its end as well. -/
theorem polls_isolated {past : List Transition} {start : Connection} {index : Nat}
    {replies : Nat → Except RequestError Response} {reply : Except RequestError Response}
    {run : TickRun} (hpast : Path (create settings codec declared).1 past start)
    (htick : CalmTick replies start run) (hreached : Reached (replies index))
    (hreply : Reached reply) :
    (∀ changed, CalmTick (Function.update replies index reply) start changed →
        run.AgreesBut index changed) ∧
      (start.isAbandoned = false →
        ∃ changed, CalmTick (Function.update replies index reply) start changed) := by
  have horderly := hpast.orderly (create_orderly settings codec declared)
  obtain ⟨instant, hphase⟩ := htick.begins
  have hrun := htick.forecast_eq horderly hphase
  constructor
  · intro changed hchanged
    have hother := hchanged.forecast_eq horderly hphase
    have hsame : ((start.conditions (Function.update replies index reply)).following
        start.scheduler.enabled start.scheduler.groups { instant }).filter (·.index ≠ index) =
          ((start.conditions replies).following start.scheduler.enabled start.scheduler.groups
            { instant }).filter (·.index ≠ index) := by
      have hconditions : start.conditions (Function.update replies index reply) =
          (start.conditions replies).withReply index reply := rfl
      rw [hconditions]
      simp only [Conditions.following]
      split
      · exact Conditions.filter_visits_withReply hreached hreply _ _ _
      · rfl
    obtain ⟨houtcomes, hgroups, hsamples⟩ :=
      Forecast.agree_of_filter hsame start.scheduler.groups
    rw [hother, hrun] at houtcomes hsamples
    simp only [hother, hrun] at hgroups
    exact ⟨houtcomes, hgroups, hsamples⟩
  · intro hattended
    obtain ⟨first, rest, hpath⟩ : ∃ first rest, run.path = first :: rest := by
      obtain ⟨last, hlast, -⟩ := htick.ends
      exact List.exists_cons_of_ne_nil fun hnil => by simp [hnil] at hlast
    have hcalm := (htick.undisturbed first (by simp [hpath])).calm
    obtain ⟨hbefore, -, -⟩ := (hpath ▸ htick.path).cons_inv
    exact exists_calmTick _ horderly (hbefore ▸ hcalm) hattended hphase

end Connection

deriving instance DecidableEq for Event

instance (replies : Nat → Except RequestError Response) (transition : Transition) :
    Decidable (transition.Undisturbed replies) :=
  decidable_of_iff
    ((transition.before.trace.shouldDefer transition.before.now
          transition.before.settings.link.minInterval = false ∧
        transition.before.mailbox.commands = [] ∧ transition.before.closing = false) ∧
      transition.before.scheduler.phase.tick? ≠ none ∧
      (∀ result ∈ transition.before.openEnd? transition.action, result = .ok ()) ∧
        ∀ reply ∈ transition.before.reply? transition.action, reply.2 = replies reply.1)
    ⟨fun ⟨⟨hrested, hcommands, hopen⟩, hwithin, hopens, hreplied⟩ =>
        ⟨⟨hrested, hcommands, hopen⟩, hwithin, hopens, hreplied⟩,
      fun ⟨⟨hrested, hcommands, hopen⟩, hwithin, hopens, hreplied⟩ =>
        ⟨⟨hrested, hcommands, hopen⟩, hwithin, hopens, hreplied⟩⟩

/-- A group is read, and its only sample is taken. -/
def Action.answer (value : UInt16) : List Action :=
  [.exchangeDone (.ok (.registers [value])), .run .scheduler, .deliver, .run .scheduler]

/-- The scheduler clears a group for a poll and begins to read it. -/
def Action.beginRead : List Action := [.run .scheduler, .run .scheduler, .run .scheduler]

/-- The minimum interval passes. -/
def Action.waitForInterval : List Action := [.elapse (100 * millisecond), .expire]

def Action.readPair : List Action :=
  beginRead ++ [.openDone (.ok ())] ++ answer 7 ++ beginRead ++ waitForInterval ++ answer 9

/-- The first group does not answer, and the transport is opened anew for the second one. -/
def Action.missFirst : List Action :=
  beginRead ++ [.openDone (.ok ()), .elapse second, .expire] ++ beginRead ++
    [.openDone (.ok ())] ++ waitForInterval ++ answer 9

def sampleReplies : Nat → Except RequestError Response
  | 0 => .ok (.registers [7])
  | _ => .ok (.registers [9])

namespace Connection

/-- A tick of the two groups has begun. -/
def samplePairTicking : Connection := samplePairBuilt.stop [.tick]

/-- What comes of such a tick. -/
def samplePairRun (actions : List Action) (outcomes : List (Nat × PollOutcome)) : TickRun where
  path := samplePairTicking.walk actions ++
    [(samplePairTicking.stop actions).next (.run .scheduler)]
  final := ((samplePairTicking.stop actions).next (.run .scheduler)).after
  outcomes

theorem path_samplePairRun {actions : List Action} (outcomes : List (Nat × PollOutcome))
    (hpossible : (samplePairTicking.run actions).isSome = true)
    (hends : ((samplePairTicking.stop actions).step (.run .scheduler)).isSome = true) :
    Path samplePairTicking (samplePairRun actions outcomes).path
      (samplePairRun actions outcomes).final :=
  (path_walk hpossible).append (.cons_next hends (.nil _))

def samplePairPolled : TickRun := samplePairRun Action.readPair [(0, .polled), (1, .polled)]

def samplePairMissed : TickRun :=
  samplePairRun Action.missFirst [(0, .failed .responseTimeout), (1, .polled)]

theorem samplePairPolled_calm : CalmTick sampleReplies samplePairTicking samplePairPolled where
  path := path_samplePairRun _ (by decide +kernel) (by decide +kernel)
  begins := ⟨0, by decide +kernel⟩
  undisturbed := by decide +kernel
  ends := ⟨_, List.getLast?_concat, by decide +kernel⟩

theorem samplePairMissed_calm :
    CalmTick (Function.update sampleReplies 0 (.error .responseTimeout)) samplePairTicking
      samplePairMissed where
  path := path_samplePairRun _ (by decide +kernel) (by decide +kernel)
  begins := ⟨0, by decide +kernel⟩
  undisturbed := by decide +kernel
  ends := ⟨_, List.getLast?_concat, by decide +kernel⟩

/-- The timeout of the first group delays the second one, but changes nothing for it. -/
theorem samplePairMissed_isolated :
    samplePairPolled.AgreesBut 0 samplePairMissed ∧
      samplePairMissed.samples.map (·.2.point) = ["inflow"] := by
  have hpast : Path samplePair (samplePairBuilt.walk [.tick]) samplePairTicking := by
    rw [samplePair_eq]
    exact path_walk (by decide +kernel)
  have hreached : Reached (sampleReplies 0) := fun error herror => by simp [sampleReplies] at herror
  have hreply : Reached (.error .responseTimeout) := fun error herror => by
    obtain rfl := Except.error.inj herror
    rfl
  obtain ⟨hagrees, -⟩ := polls_isolated hpast samplePairPolled_calm hreached hreply
  exact ⟨hagrees _ samplePairMissed_calm, by decide +kernel⟩

end Connection

end Fieldbus

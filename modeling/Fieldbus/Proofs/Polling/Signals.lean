import Fieldbus.Proofs.Polling.Layout
import Fieldbus.Proofs.Polling.Publication
import Fieldbus.Proofs.Polling.Rounds
import Fieldbus.Proofs.Write.Plans

/-!
# Signs of life

In a tick the scheduler says of each device at most once that it may be offline, for a failed poll
of one of its points or for a transport that fails to open.  A poll that is answered shows the
devices online of which it has brought a value.
-/

namespace Fieldbus

/-- The device may be offline. -/
def Event.offline? : Event → Option DeviceId
  | deviceOffline device => some device
  | _ => none

def Event.online? : Event → Option DeviceId
  | deviceOnline device => some device
  | _ => none

/-- The devices that are said to be offline, in this order. -/
def offline (path : List Transition) : List DeviceId :=
  path.flatMap fun transition => transition.events.filterMap Event.offline?

def online (path : List Transition) : List DeviceId :=
  path.flatMap fun transition => transition.events.filterMap Event.online?

theorem eraseDups_concat {A : Type} [DecidableEq A] (items : List A) (last : A) :
    (items ++ [last]).eraseDups =
      if last ∈ items then items.eraseDups else items.eraseDups ++ [last] := by
  rw [List.eraseDups_append]
  split
  · next hmem => simp [List.removeAll, hmem]
  · next hnew => simp [List.removeAll, hnew, List.eraseDups_cons]

theorem nodup_eraseDups {A : Type} [DecidableEq A] (items : List A) :
    items.eraseDups.Nodup := by
  induction items using List.reverseRecOn with
  | nil => simp
  | append_singleton items last ih =>
      rw [eraseDups_concat]
      split
      · exact ih
      · next hnew =>
          refine List.nodup_append.mpr ⟨ih, by simp, ?_⟩
          rintro item hitem other hother rfl
          exact hnew (List.mem_singleton.mp hother ▸ List.mem_eraseDups.mp hitem)

theorem filterMap_reports {A : Type} {told? : Event → Option A}
    (htold : ∀ event, event.isReport = false → told? event = none) (events : List Event) :
    (reports events).filterMap told? = events.filterMap told? := by
  rw [reports, List.filterMap_filter]
  refine List.filterMap_congr fun event _ => ?_
  cases hreport : event.isReport with
  | true => rfl
  | false => exact (htold event hreport).symm

theorem offline_concat (path : List Transition) (last : Transition) :
    offline (path ++ [last]) = offline path ++ (reports last.events).filterMap Event.offline? := by
  rw [filterMap_reports fun event _ => by cases event <;> simp_all [Event.isReport, Event.offline?]]
  simp [offline]

theorem online_concat (path : List Transition) (last : Transition) :
    online (path ++ [last]) = online path ++ (reports last.events).filterMap Event.online? := by
  rw [filterMap_reports fun event _ => by cases event <;> simp_all [Event.isReport, Event.online?]]
  simp [online]

/-- A poll whose transaction ends is over. -/
theorem Move.phase_of_ending? {c after : Traffic} {action : Action} {events : List Event}
    {tick : Tick} {result : Except RequestError Response} (hmove : Move c action events after)
    (horderly : c.Orderly) (hphase : c.phase = .polling tick)
    (hends : c.ending? action = some result) : after.phase.isFree = true := by
  have hanswer := c.isAnswer_of_ending? hends
  have hcall {id : Nat} {job : WriteJob}
      (hcaller : Calls.phase? c.calls id = some (.transacting job)) : False := by
    have hscheduler := horderly.link.holder_of_inside .scheduler (Traffic.stance_polling hphase)
    rw [horderly.held_of_transacting hcaller] at hscheduler
    simp at hscheduler
  cases hmove with
  | stay hinternal | stroll hinternal | seekSetting hinternal =>
      simp [Action.isAnswer_of_isInternal hinternal] at hanswer
  | proceed htransaction hturn =>
      simp [hturn.ending?_eq htransaction, Progress.result?] at hends
  | endPoll htransaction hpolling hturn hnext => exact hnext
  | store htransaction hcaller | misfit htransaction hcaller | fail htransaction hcaller
  | writeBack htransaction hcaller => exact (hcall hcaller).elim
  | elapse | clear | seekLink | seekShutdown | leaveLink | endScheduler | poll | refuse
  | startWrite | startPosting | postClose | endSetting | callSeekShutdown | callShutdown
  | announce | enterSection | finish | callSeekLink | callLeaveLink | «return» | cancel
  | attempt | refuseAttempt => simp [Action.isAnswer] at hanswer

/-- The end of the transaction of a poll. -/
structure PollAnswer where
  group : PollGroup
  result : Except RequestError Response

/-- The answer to a poll that comes with an action. -/
def Connection.answer? (action : Action) (connection : Connection) : Option PollAnswer :=
  match connection.scheduler.phase with
  | .polling tick => do
    return ⟨← connection.group? tick.next, ← connection.traffic.ending? action⟩
  | _ => none

/-- The answers to polls on a path, in their order. -/
def answers (path : List Transition) : List PollAnswer :=
  path.filterMap fun transition => transition.before.answer? transition.action

theorem answers_concat (path : List Transition) (last : Transition) :
    answers (path ++ [last]) = answers path ++ (last.before.answer? last.action).toList := by
  rw [answers, List.filterMap_append, answers]
  cases hanswer : last.before.answer? last.action <;> simp [hanswer]

namespace PollAnswer

/-- The devices that may be offline after this answer.  A transport that cannot be opened leads to
none of the devices, and a link that closes says nothing of them. -/
def suspects (all : List DeviceId) (answer : PollAnswer) : List DeviceId :=
  match answer.result with
  | .ok _ => []
  | .error error =>
    if error.isEnding then []
    else if error.isOpenFailure then all
    else answer.group.devices

/-- The point has a value in the answer to a poll of its group. -/
def shows (codec : ValueCodec) (group : PollGroup) (response : Response) (point : Point) : Bool :=
  let offset := point.address.toNat - group.range.start.toNat
  (codec.decode point (response.slice offset point.quantity.toNat)).isOk

/-- The devices of which the answer shows a value, each once. -/
def seen (codec : ValueCodec) (answer : PollAnswer) : List DeviceId :=
  match answer.result with
  | .ok response =>
    ((answer.group.points.filter (shows codec answer.group response)).map (·.device)).eraseDups
  | .error _ => []

end PollAnswer

variable {c : Connection} {action : Action} {group : PollGroup} {tick : Tick}
variable {result : Except RequestError Response}

theorem Connection.Hears.answer?_eq (hhears : c.Hears action tick group result) :
    c.answer? action = some ⟨group, result⟩ := by
  obtain ⟨stage, link, events, htransaction, hturn⟩ := hhears.turn
  have hends := Link.Turn.ending?_eq (c := c.traffic) htransaction hturn
  simp [answer?, hhears.phase, hhears.found, hends, Progress.result?]

theorem Connection.answer?_eq_none (hphase : ∀ tick, c.scheduler.phase ≠ .polling tick)
    (action : Action) : c.answer? action = none := by
  rw [answer?]
  split
  · next tick hpolling => exact absurd hpolling (hphase tick)
  · rfl

theorem Connection.answer?_of_attending {interrupted : Option Tick}
    (hphase : c.scheduler.phase = .attending interrupted) (action : Action) :
    c.answer? action = none :=
  answer?_eq_none (fun tick hpolling =>
    SchedulerPhase.polling_ne_attending tick interrupted (hpolling.symm.trans hphase)) action

/-- Without the end of a poll nothing is answered. -/
theorem Connection.answer?_of_going
    (hgoes : ∀ tick, c.scheduler.phase = .polling tick → c.answer? action = none) :
    c.answer? action = none := by
  by_cases hpolling : ∃ tick, c.scheduler.phase = .polling tick
  · obtain ⟨tick, hphase⟩ := hpolling
    exact hgoes tick hphase
  · exact answer?_eq_none (fun tick hphase => hpolling ⟨tick, hphase⟩) action

theorem Connection.exists_ending_of_answer? {answer : PollAnswer}
    (hanswer : c.answer? action = some answer) :
    ∃ tick, c.scheduler.phase = .polling tick ∧ c.group? tick.next = some answer.group ∧
      c.traffic.ending? action = some answer.result := by
  rw [answer?] at hanswer
  split at hanswer
  · next tick hphase =>
      simp only [Option.bind_eq_bind, Option.bind_eq_some_iff, Option.pure_def,
        Option.some.injEq] at hanswer
      obtain ⟨group, hgroup, result, hends, rfl⟩ := hanswer
      exact ⟨tick, hphase, hgroup, hends⟩
  · simp at hanswer

/-- A poll that goes on has not been answered. -/
theorem Connection.answer?_of_polling {after : Connection} {events : List Event}
    (horderly : c.traffic.Orderly) (hstep : c.step action = some (after, events)) {tick : Tick}
    (hphase : after.scheduler.phase = .polling tick) : c.answer? action = none := by
  cases hanswer : c.answer? action with
  | none => rfl
  | some answer =>
      obtain ⟨old, hpolling, -, hends⟩ := exists_ending_of_answer? hanswer
      have hfree := (move_of_step horderly hstep).phase_of_ending? horderly hpolling hends
      have hnow : after.traffic.phase = .polling tick := hphase
      simp [hnow, SchedulerPhase.isFree] at hfree

/-! ## Devices that may be offline -/

theorem filterMap_offline? (devices : List DeviceId) :
    (devices.map Event.deviceOffline).filterMap Event.offline? = devices := by
  rw [List.filterMap_map]
  exact List.filterMap_some

theorem filterMap_online? (devices : List DeviceId) :
    (devices.map Event.deviceOnline).filterMap Event.online? = devices := by
  rw [List.filterMap_map]
  exact List.filterMap_some

/-- The devices that an action makes suspect. -/
def Connection.suspected (action : Action) (connection : Connection) : List DeviceId :=
  (connection.answer? action).elim [] (·.suspects connection.devices)

/-- A step that nobody becomes suspect by names nobody.  One that makes devices suspect names those
of them that have not been named in the same tick. -/
theorem SchedulerStep.warning {shown : List Event} {next : Scheduler}
    (hstep : SchedulerStep c action shown next) (hsame : action ≠ .tick)
    (hgoes : ∀ tick, next.phase = .polling tick → c.answer? action = none) :
    c.suspected action = [] ∧ shown.filterMap Event.offline? = [] ∧
        (∀ tick, next.phase.tick? = some tick →
          ∃ old, c.scheduler.phase.tick? = some old ∧ tick.reported = old.reported) ∨
      ∃ tick fresh outcome, c.scheduler.phase.tick? = some tick ∧
        fresh = (c.suspected action).filter (!tick.reported.contains ·) ∧
          shown = fresh.map .deviceOffline ∧ next.phase = .visiting
            ({ tick with reported := tick.reported ++ fresh }.concluded outcome) := by
  have hnobody (hnone : c.answer? action = none) : c.suspected action = [] := by
    rw [Connection.suspected, hnone]
    rfl
  have hsilent (hphase : ∀ tick, c.scheduler.phase ≠ .polling tick) : c.suspected action = [] :=
    hnobody (Connection.answer?_eq_none hphase action)
  cases hstep with
  | keep =>
      have hnone := Connection.answer?_of_going hgoes
      exact .inl ⟨hnobody hnone, rfl, fun tick htick => ⟨tick, htick, rfl⟩⟩
  | switch haction hphase =>
      have hnone := Connection.answer?_of_attending hphase action
      exact .inl ⟨hnobody hnone, rfl, fun tick htick => ⟨tick, by rwa [hphase], rfl⟩⟩
  | seekSetting haction hphase =>
      have hnone := Connection.answer?_of_attending hphase action
      refine .inl ⟨hnobody hnone, rfl, fun tick htick => ⟨tick, ?_, rfl⟩⟩
      rwa [hphase, SchedulerPhase.tick?_attending]
  | applied hphase =>
      refine .inl ⟨hsilent (by simp [hphase]), rfl, fun tick htick => ⟨tick, ?_, rfl⟩⟩
      rw [hphase]
      exact (SchedulerPhase.tick?_attending _).symm.trans htick
  | halt haction hphase =>
      have hnone := Connection.answer?_of_attending hphase action
      exact .inl ⟨hnobody hnone, rfl, by simp [SchedulerPhase.tick?]⟩
  | seekShutdown hphase | endScheduler hphase =>
      exact .inl ⟨hsilent (by simp [hphase]), rfl, by simp [SchedulerPhase.tick?]⟩
  | endTick hphase =>
      refine .inl ⟨hsilent fun tick hpolling => ?_, rfl, by simp [SchedulerPhase.tick?]⟩
      simp [hpolling] at hphase
  | beginTick => exact absurd rfl hsame
  | notDue hvisits | skip hvisits | defer hvisits | clear hvisits =>
      refine .inl ⟨hsilent (by simp [hvisits.phase]), rfl, fun tick htick => ?_⟩
      obtain rfl := Option.some.inj htick
      exact ⟨_, congrArg _ hvisits.phase, rfl⟩
  | seekLink hphase | poll hphase | pass hphase | deliver hphase | sample hphase =>
      refine .inl ⟨hsilent (by simp [hphase]), rfl, fun tick htick => ⟨tick, ?_, rfl⟩⟩
      rwa [hphase]
  | giveUp hphase =>
      have htold : c.scheduler.phase.tick? = some _ :=
        hphase.elim (congrArg SchedulerPhase.tick?) (congrArg SchedulerPhase.tick?)
      refine .inl ⟨hsilent fun tick hpolling => ?_, rfl, fun tick htick => ⟨_, htold, ?_⟩⟩
      · simp [hpolling] at hphase
      · obtain rfl := Option.some.inj htick
        rfl
  | conclude hphase =>
      refine .inl ⟨hsilent (by simp [hphase]), ?_, fun tick htick => ⟨_, congrArg _ hphase, ?_⟩⟩
      · exact List.filterMap_eq_nil_iff.mpr (by simp [Event.offline?])
      · obtain rfl := Option.some.inj htick
        rfl
  | read hhears =>
      refine .inl ⟨by rw [Connection.suspected, hhears.answer?_eq]; rfl, rfl, fun tick htick => ?_⟩
      obtain rfl := Option.some.inj htick
      exact ⟨_, congrArg _ hhears.phase, rfl⟩
  | abort hhears hending =>
      refine .inl ⟨?_, rfl, fun tick htick => ⟨_, congrArg _ hhears.phase, ?_⟩⟩
      · rw [Connection.suspected, hhears.answer?_eq]
        simp [PollAnswer.suspects, hending]
      · obtain rfl := Option.some.inj htick
        rfl
  | fail hhears hcounts hfresh =>
      refine .inr ⟨_, _, _, congrArg _ hhears.phase, ?_, rfl, rfl⟩
      rw [hfresh, Connection.suspected, hhears.answer?_eq]
      simp [PollAnswer.suspects, hcounts, Connection.suspects]

/-- The devices named in a tick so far. -/
structure Connection.Tally (c : Connection) (path : List Transition) : Prop where
  reported : ∀ tick, c.scheduler.phase.tick? = some tick → tick.reported = offline path
  nodup : (offline path).Nodup
  mem_iff : ∀ device, device ∈ offline path ↔
    ∃ answer ∈ answers path, device ∈ answer.suspects c.devices

namespace PollAnswer

theorem nodup_suspects {all : List DeviceId} (hall : all.Nodup) (answer : PollAnswer) :
    (answer.suspects all).Nodup := by
  rw [suspects]
  split
  · exact List.nodup_nil
  · split
    · exact List.nodup_nil
    · split
      · exact hall
      · exact nodup_eraseDups _

theorem mem_suspects_iff {all : List DeviceId} {answer : PollAnswer} {device : DeviceId} :
    device ∈ answer.suspects all ↔ ∃ error, answer.result = .error error ∧
      error.isEnding = false ∧
        if error.isOpenFailure then device ∈ all
        else ∃ point ∈ answer.group.points, point.device = device := by
  rw [suspects]
  cases answer.result with
  | ok response => simp
  | error error =>
      cases hending : error.isEnding with
      | true => simp [hending]
      | false =>
          cases hopens : error.isOpenFailure <;>
            simp [hending, hopens, PollGroup.devices, List.mem_eraseDups]

end PollAnswer

namespace Connection

theorem devices_nodup (connection : Connection) : connection.devices.Nodup := nodup_eraseDups _

theorem Tally.step {path : List Transition} {after : Connection} {events : List Event}
    (htally : c.Tally path) (horderly : c.traffic.Orderly)
    (hstep : c.step action = some (after, events)) (hsame : action ≠ .tick) :
    after.Tally (path ++ [⟨c, action, after, events⟩]) := by
  have hmove := move_of_step horderly hstep
  have hdevices : after.devices = c.devices := by
    have hpoints : after.points = c.points := hmove.points_eq
    rw [devices, devices, hpoints]
  have hsuspected : ∀ device, device ∈ c.suspected action ↔
      ∃ answer ∈ (c.answer? action).toList, device ∈ answer.suspects c.devices := by
    intro device
    rw [suspected]
    cases c.answer? action <;> simp
  have hnodup : (c.suspected action).Nodup := by
    rw [suspected]
    cases c.answer? action with
    | none => exact List.nodup_nil
    | some answer => exact answer.nodup_suspects c.devices_nodup
  rcases (scheduler_of_step horderly hstep).warning hsame
    (fun _ => answer?_of_polling horderly hstep) with
    ⟨hnobody, hsilent, hticks⟩ | ⟨tick, fresh, outcome, htick, hfresh, hshown, hnext⟩
  · have hoffline : offline (path ++ [⟨c, action, after, events⟩]) = offline path := by
      rw [offline_concat, hsilent, List.append_nil]
    refine ⟨fun tick htick => ?_, by rw [hoffline]; exact htally.nodup, fun device => ?_⟩
    · obtain ⟨old, hold, hreported⟩ := hticks tick htick
      rw [hoffline, hreported]
      exact htally.reported old hold
    · rw [hoffline, htally.mem_iff, answers_concat, hdevices]
      simp only [List.mem_append, or_and_right, exists_or, ← hsuspected, hnobody,
        List.not_mem_nil, or_false]
  · have hreported := htally.reported tick htick
    have hoffline : offline (path ++ [⟨c, action, after, events⟩]) = offline path ++ fresh := by
      rw [offline_concat, hshown, filterMap_offline?]
    have hmem : ∀ device, device ∈ fresh ↔ device ∈ c.suspected action ∧ device ∉ offline path := by
      intro device
      rw [hfresh, hreported]
      simp
    refine ⟨fun other hother => ?_, ?_, fun device => ?_⟩
    · rw [hnext] at hother
      obtain rfl := Option.some.inj hother
      rw [hoffline, ← hreported]
      rfl
    · rw [hoffline, List.nodup_append]
      refine ⟨htally.nodup, hfresh ▸ hnodup.filter _, ?_⟩
      rintro device hnamed other hother rfl
      exact ((hmem device).mp hother).2 hnamed
    · rw [hoffline, List.mem_append, hmem, htally.mem_iff, answers_concat, hdevices]
      simp only [List.mem_append, or_and_right, exists_or, ← hsuspected, ← htally.mem_iff]
      tauto

end Connection

/-! ## Devices that are online -/

/-- The answer whose samples are being passed on. -/
def SchedulerPhase.publication? : SchedulerPhase → Option Publication
  | publishing _ publication | delivering _ publication _ => some publication
  | idle | visiting _ | requesting _ | awaitingLink _ | polling _ | applying _ _ | stopping
  | awaitingShutdown | ended => none

theorem SchedulerPhase.publication?_attending (interrupted : Option Tick) :
    (attending interrupted).publication? = none := by
  cases interrupted <;> rfl

/-- The samples of some members of the group have been passed on. -/
structure Publication.Follows (codec : ValueCodec) (group : PollGroup) (response : Response)
    (taken : List Point) (publication : Publication) : Prop where
  starts : publication.start = group.range.start
  answers : publication.response = response
  points : group.points = taken ++ publication.remaining
  shown : publication.online =
    ((taken.filter (PollAnswer.shows codec group response)).map (·.device)).eraseDups

/-- The devices named online are those of the answers whose samples have all been passed on. -/
inductive Tells (codec : ValueCodec) (heard : List PollAnswer) (named : List DeviceId) :
    SchedulerPhase → Prop where
  | settled {phase : SchedulerPhase} (hphase : phase.publication? = none)
      (hnamed : named = heard.flatMap (PollAnswer.seen codec)) : Tells codec heard named phase
  | publishing {earlier : List PollAnswer} {group : PollGroup} {response : Response}
      {taken : List Point} {tick : Tick} {publication : Publication}
      (hheard : heard = earlier ++ [⟨group, .ok response⟩])
      (hnamed : named = earlier.flatMap (PollAnswer.seen codec))
      (hfollows : publication.Follows codec group response taken) :
      Tells codec heard named (.publishing tick publication)
  | delivering {earlier : List PollAnswer} {group : PollGroup} {response : Response}
      {taken rest : List Point} {point : Point} {tick : Tick} {publication : Publication}
      {since : Instant} (hheard : heard = earlier ++ [⟨group, .ok response⟩])
      (hnamed : named = earlier.flatMap (PollAnswer.seen codec))
      (hfollows : publication.Follows codec group response taken)
      (hremaining : publication.remaining = point :: rest)
      (hshows : PollAnswer.shows codec group response point = true) :
      Tells codec heard named (.delivering tick publication since)

namespace Publication.Follows

variable {codec : ValueCodec} {response : Response} {taken rest : List Point} {point : Point}
variable {publication : Publication}

theorem isOk_decodePoint (hfollows : publication.Follows codec group response taken)
    (hcodec : c.codec = codec) (point : Point) :
    (c.decodePoint publication point).isOk = PollAnswer.shows codec group response point := by
  rw [Connection.decodePoint, PollAnswer.shows, hcodec, hfollows.starts, hfollows.answers]

/-- A point without a value is passed over. -/
theorem pass (hfollows : publication.Follows codec group response taken)
    (hremaining : publication.remaining = point :: rest)
    (hhides : PollAnswer.shows codec group response point = false) :
    { publication with remaining := rest }.Follows codec group response (taken ++ [point]) where
  starts := hfollows.starts
  answers := hfollows.answers
  points := by rw [hfollows.points, hremaining, List.append_cons]
  shown := by simp [hfollows.shown, List.filter_append, hhides]

theorem take (hfollows : publication.Follows codec group response taken)
    (hremaining : publication.remaining = point :: rest)
    (hshows : PollAnswer.shows codec group response point = true) :
    publication.taken.Follows codec group response (taken ++ [point]) := by
  rw [Publication.taken, hremaining]
  refine ⟨hfollows.starts, hfollows.answers, ?_, ?_⟩
  · rw [hfollows.points, hremaining, List.append_cons]
  · simp only [List.filter_append, List.filter_cons, hshows, if_true, List.filter_nil,
      List.map_append, List.map_cons, List.map_nil, eraseDups_concat, hfollows.shown,
      List.contains_iff_mem, List.mem_eraseDups]

/-- At its end a publication has shown all devices with a value. -/
theorem online_eq_seen (hfollows : publication.Follows codec group response taken)
    (hremaining : publication.remaining = []) :
    publication.online = PollAnswer.seen codec ⟨group, .ok response⟩ := by
  rw [hfollows.shown, PollAnswer.seen, hfollows.points, hremaining, List.append_nil]

end Publication.Follows

theorem Tells.named_eq {codec : ValueCodec} {heard : List PollAnswer} {named : List DeviceId}
    {phase : SchedulerPhase} (htells : Tells codec heard named phase)
    (hphase : phase.publication? = none) : named = heard.flatMap (PollAnswer.seen codec) := by
  cases htells with
  | settled _ hnamed => exact hnamed
  | publishing | delivering => simp [SchedulerPhase.publication?] at hphase

/-- What a step means to the samples that are passed on: the answers to polls that come with it,
what it shows, and the phase that it leads to. -/
inductive PublicationStep (c : Connection) :
    List PollAnswer → List Event → SchedulerPhase → Prop where
  | keep : PublicationStep c [] [] c.scheduler.phase
  /-- Neither before the step nor after it are there samples to pass on. -/
  | settled {heard : List PollAnswer} {shown : List Event} {next : SchedulerPhase}
      (hbefore : c.scheduler.phase.publication? = none) (hafter : next.publication? = none)
      (hunseen : ∀ codec, heard.flatMap (PollAnswer.seen codec) = [])
      (hsilent : shown.filterMap Event.online? = []) : PublicationStep c heard shown next
  | read {tick : Tick} {group : PollGroup} {response : Response}
      (hphase : c.scheduler.phase = .polling tick) :
      PublicationStep c [⟨group, .ok response⟩] []
        (.publishing tick { start := group.range.start, response, remaining := group.points })
  | sample {tick : Tick} {publication : Publication} {point : Point} {rest : List Point}
      {value : PointValue} {passed : PointSample}
      (hphase : c.scheduler.phase = .publishing tick publication)
      (hremaining : publication.remaining = point :: rest)
      (hvalue : c.decodePoint publication point = .ok value) :
      PublicationStep c [] [.sampled passed] (.delivering tick publication c.now)
  | pass {tick : Tick} {publication : Publication} {point : Point} {rest : List Point}
      {error : DecodeError} (hphase : c.scheduler.phase = .publishing tick publication)
      (hremaining : publication.remaining = point :: rest)
      (herror : c.decodePoint publication point = .error error) :
      PublicationStep c [] [] (.publishing tick { publication with remaining := rest })
  | deliver {tick : Tick} {publication : Publication} {since : Instant}
      (hphase : c.scheduler.phase = .delivering tick publication since) :
      PublicationStep c [] [] (.publishing tick publication.taken)
  | conclude {tick : Tick} {publication : Publication} {next : SchedulerPhase}
      (hphase : c.scheduler.phase = .publishing tick publication)
      (hremaining : publication.remaining = []) (hafter : next.publication? = none) :
      PublicationStep c [] (publication.online.map .deviceOnline) next

theorem SchedulerStep.publicationStep {shown : List Event} {next : Scheduler}
    (hstep : SchedulerStep c action shown next)
    (hgoes : ∀ tick, next.phase = .polling tick → c.answer? action = none) :
    PublicationStep c (c.answer? action).toList shown next.phase := by
  have hunheard (hphase : ∀ tick, c.scheduler.phase ≠ .polling tick) :
      (c.answer? action).toList = [] := by
    rw [Connection.answer?_eq_none hphase]
    rfl
  cases hstep with
  | keep =>
      rw [Connection.answer?_of_going hgoes]
      exact .keep
  | switch haction hphase | seekSetting haction hphase | halt haction hphase =>
      rw [Connection.answer?_of_attending hphase]
      refine .settled ?_ ?_ (fun _ => rfl) rfl
      · rw [hphase, SchedulerPhase.publication?_attending]
      · first | rfl | exact SchedulerPhase.publication?_attending _
  | applied hphase =>
      rw [hunheard (by simp [hphase])]
      exact .settled (by rw [hphase]; rfl) (SchedulerPhase.publication?_attending _) (fun _ => rfl)
        rfl
  | seekShutdown hphase | endScheduler hphase | beginTick hphase | seekLink hphase
  | poll hphase =>
      rw [hunheard (by simp [hphase])]
      exact .settled (by rw [hphase]; rfl) rfl (fun _ => rfl) rfl
  | endTick hphase =>
      rw [hunheard fun tick hpolling => by simp [hpolling] at hphase]
      refine .settled ?_ rfl (fun _ => rfl) rfl
      rcases hphase with hphase | ⟨hphase, -⟩ <;> rw [hphase] <;> rfl
  | giveUp hphase =>
      rw [hunheard fun tick hpolling => by simp [hpolling] at hphase]
      refine .settled ?_ rfl (fun _ => rfl) rfl
      rcases hphase with hphase | hphase <;> rw [hphase] <;> rfl
  | notDue hvisits | skip hvisits | defer hvisits | clear hvisits =>
      rw [hunheard (by simp [hvisits.phase])]
      exact .settled (by rw [hvisits.phase]; rfl) rfl (fun _ => rfl) rfl
  | fail hhears =>
      rw [hhears.answer?_eq]
      refine .settled (by rw [hhears.phase]; rfl) rfl (fun _ => rfl) ?_
      exact List.filterMap_eq_nil_iff.mpr (by simp [Event.online?])
  | abort hhears =>
      rw [hhears.answer?_eq]
      exact .settled (by rw [hhears.phase]; rfl) rfl (fun _ => rfl) rfl
  | read hhears =>
      rw [hhears.answer?_eq]
      exact .read hhears.phase
  | sample hphase hremaining hvalue =>
      rw [hunheard (by simp [hphase])]
      exact .sample hphase hremaining hvalue
  | pass hphase hremaining herror =>
      rw [hunheard (by simp [hphase])]
      exact .pass hphase hremaining herror
  | deliver hphase =>
      rw [hunheard (by simp [hphase])]
      exact .deliver hphase
  | conclude hphase hremaining =>
      rw [hunheard (by simp [hphase])]
      exact .conclude hphase hremaining rfl

section Tells

variable {codec : ValueCodec} {heard more : List PollAnswer} {named : List DeviceId}
variable {publication : Publication} {shown : List Event} {next : SchedulerPhase}

theorem Tells.exists_follows (htells : Tells codec heard named (.publishing tick publication)) :
    ∃ earlier group response taken, heard = earlier ++ [⟨group, .ok response⟩] ∧
      named = earlier.flatMap (PollAnswer.seen codec) ∧
        publication.Follows codec group response taken := by
  cases htells with
  | settled hsettled => simp [SchedulerPhase.publication?] at hsettled
  | publishing hheard hnamed hfollows => exact ⟨_, _, _, _, hheard, hnamed, hfollows⟩

theorem PublicationStep.tells (hstep : PublicationStep c more shown next)
    (hcodec : c.codec = codec) (htells : Tells codec heard named c.scheduler.phase) :
    Tells codec (heard ++ more) (named ++ shown.filterMap Event.online?) next := by
  cases hstep with
  | keep => simpa using htells
  | settled hbefore hafter hunseen hsilent =>
      refine .settled hafter ?_
      rw [hsilent, List.flatMap_append, hunseen, htells.named_eq hbefore]
  | read hphase =>
      rw [List.filterMap_nil, List.append_nil]
      exact .publishing rfl (htells.named_eq (by rw [hphase]; rfl))
        ⟨rfl, rfl, (List.nil_append _).symm, rfl⟩
  | sample hphase hremaining hvalue =>
      rw [hphase] at htells
      obtain ⟨_, _, _, _, hheard, hnamed, hfollows⟩ := htells.exists_follows
      rw [List.append_nil, List.filterMap_cons_none rfl, List.filterMap_nil, List.append_nil]
      refine .delivering hheard hnamed hfollows hremaining ?_
      rw [← hfollows.isOk_decodePoint hcodec, hvalue]
      rfl
  | pass hphase hremaining herror =>
      rw [hphase] at htells
      obtain ⟨_, _, _, _, hheard, hnamed, hfollows⟩ := htells.exists_follows
      rw [List.append_nil, List.filterMap_nil, List.append_nil]
      refine .publishing hheard hnamed (hfollows.pass hremaining ?_)
      rw [← hfollows.isOk_decodePoint hcodec, herror]
      rfl
  | deliver hphase =>
      rw [hphase] at htells
      rw [List.append_nil, List.filterMap_nil, List.append_nil]
      cases htells with
      | settled hsettled => simp [SchedulerPhase.publication?] at hsettled
      | delivering hheard hnamed hfollows hremaining hshows =>
          exact .publishing hheard hnamed (hfollows.take hremaining hshows)
  | conclude hphase hremaining hafter =>
      rw [hphase] at htells
      obtain ⟨earlier, group, response, taken, hheard, hnamed, hfollows⟩ := htells.exists_follows
      refine .settled hafter ?_
      rw [List.append_nil, filterMap_online?, hfollows.online_eq_seen hremaining, hheard, hnamed,
        List.flatMap_append]
      simp

end Tells

/-! ## The signs of a tick -/

namespace PollAnswer

theorem shows_iff {codec : ValueCodec} {response : Response} {point : Point} :
    shows codec group response point = true ↔
      ∃ value, codec.decode point (response.slice
        (point.address.toNat - group.range.start.toNat) point.quantity.toNat) = .ok value := by
  rw [shows]
  cases codec.decode point (response.slice
    (point.address.toNat - group.range.start.toNat) point.quantity.toNat) <;>
      simp [Except.isOk, Except.toBool]

theorem nodup_seen (codec : ValueCodec) (answer : PollAnswer) : (answer.seen codec).Nodup := by
  rw [seen]
  split
  · exact nodup_eraseDups _
  · exact List.nodup_nil

theorem mem_seen_iff {codec : ValueCodec} {answer : PollAnswer} {device : DeviceId} :
    device ∈ answer.seen codec ↔ ∃ response, answer.result = .ok response ∧
      ∃ point ∈ answer.group.points, point.device = device ∧
        ∃ value, codec.decode point (response.slice
          (point.address.toNat - answer.group.range.start.toNat) point.quantity.toNat) =
            .ok value := by
  rw [seen]
  cases answer.result with
  | error error => simp
  | ok response =>
      simp only [List.mem_eraseDups, List.mem_map, List.mem_filter, shows_iff, Except.ok.injEq,
        exists_eq_left']
      exact exists_congr fun point => by tauto

end PollAnswer

namespace Connection

/-- No device is lost with a point that is declared twice. -/
theorem exists_mem_register_iff {kept declared : List Point} {device : DeviceId} :
    (∃ point ∈ (register kept declared).1, point.device = device) ↔
      (∃ point ∈ kept, point.device = device) ∨
        ∃ point ∈ declared, point.Valid ∧ point.device = device := by
  induction declared generalizing kept with
  | nil => simp [register]
  | cons first rest ih =>
      rw [register]
      simp only [List.mem_cons, or_and_right, exists_or, exists_eq_left]
      split
      · next error hinvalid =>
          have hfirst : ¬first.Valid := by simp [Point.Valid, hinvalid]
          simpa [hfirst] using ih
      · next hvalid =>
          have hfirst : first.Valid := hvalid
          split
          · next hrepeated =>
              obtain ⟨other, hother⟩ := Option.isSome_iff_exists.mp hrepeated
              have hsame : other ∈ kept ∧ other.device = first.device := by
                have hfound := List.find?_some hother
                simp only [Bool.and_eq_true, beq_iff_eq] at hfound
                exact ⟨List.mem_of_find?_eq_some hother, hfound.1⟩
              rw [ih]
              constructor
              · exact Or.imp_right Or.inr
              · rintro (hkept | ⟨-, rfl⟩ | hrest)
                · exact .inl hkept
                · exact .inl ⟨other, hsame⟩
                · exact .inr hrest
          · rw [ih]
            simp only [List.mem_append, List.mem_singleton, or_and_right, exists_or,
              exists_eq_left, hfirst, true_and, or_assoc]

theorem mem_devices_create_iff {settings : ConnectionSettings} {codec : ValueCodec}
    {declared : List Point} {device : DeviceId} :
    device ∈ (create settings codec declared).1.devices ↔
      ∃ point ∈ declared, point.Valid ∧ point.device = device := by
  have hpoints : (create settings codec declared).1.points = (register [] declared).1 := rfl
  rw [devices, List.mem_eraseDups, List.mem_map, hpoints, exists_mem_register_iff]
  simp

variable {settings : ConnectionSettings} {codec : ValueCodec} {declared : List Point}
variable {start final : Connection} {path earlier during : List Transition} {begin : Transition}

/-- Only devices of the connection have members in its groups. -/
theorem device_mem_of_answer {answer : PollAnswer} {point : Point}
    (hpath : Path (create settings codec declared).1 path final)
    (hanswer : answer ∈ answers path) (hpoint : point ∈ answer.group.points) :
    point.device ∈ (create settings codec declared).1.devices := by
  have hcreate := create_orderly settings codec declared
  obtain ⟨reply, hreply, hheard⟩ := List.mem_filterMap.mp hanswer
  obtain ⟨past, later, rfl⟩ := List.append_of_mem hreply
  obtain ⟨hpast, -, -⟩ := hpath.split
  obtain ⟨tick, -, hgroup, -⟩ := exists_ending_of_answer? hheard
  have htasks := congrArg (fun tasks => tasks[tick.next]?) (hpast.tasks_eq hcreate)
  have hfound : reply.before.scheduler.groups[tick.next]? = some answer.group := hgroup
  simp only [List.getElem?_map, hfound, Option.map_some] at htasks
  obtain ⟨group, hbuilt, htask⟩ := Option.map_eq_some_iff.mp htasks.symm
  obtain ⟨-, hpoints, -⟩ := PollGroup.reads_eq_of_task htask
  have hmember : point ∈ PollGroup.members (buildGroups (create settings codec declared).1.points
      settings.link.maxBatchSpan) :=
    List.mem_flatMap.mpr ⟨group, List.mem_of_getElem? hbuilt, hpoints ▸ hpoint⟩
  have hpolled := (polled_buildGroups _ _).mem_iff.mp hmember
  rw [devices, List.mem_eraseDups]
  exact List.mem_map_of_mem (List.mem_filter.mp hpolled).1

theorem Path.devices_eq (hpath : Path start path final) (horderly : start.traffic.Orderly) :
    final.devices = start.devices := by
  rw [devices, devices, hpath.points_eq horderly]

theorem phase_of_tick {before after : Connection} {events : List Event}
    (hstep : before.step .tick = some (after, events)) :
    ∃ due, after.scheduler.phase = .visiting { instant := due } := by
  generalize houtcome : (after, events) = outcome at hstep
  obtain rfl : outcome.1 = after := by rw [← houtcome]
  cases turn_of_step hstep with
  | tick => exact ⟨_, rfl⟩
  | answer haction => cases haction

/-- A tick names the devices that its answers have made suspect. -/
theorem Path.tally (hpath : Path start path final) (horderly : start.traffic.Orderly)
    (hfresh : ∀ tick, start.scheduler.phase.tick? = some tick → tick.reported = [])
    (hsame : ∀ transition ∈ path, transition.action ≠ .tick) : final.Tally path := by
  refine hpath.history (motive := fun past state =>
    (∀ transition ∈ past, transition.action ≠ .tick) → state.Tally past) ?_ ?_ hsame
  · exact fun _ => ⟨hfresh, List.nodup_nil, by simp [offline, answers]⟩
  · intro past before action after events hpast hbefore hstep hsame
    have htally := hbefore fun transition hmem => hsame transition (List.mem_append_left _ hmem)
    exact htally.step (hpast.orderly horderly) hstep
      (hsame _ (List.mem_append_right _ List.mem_cons_self))

theorem Path.tells (hpath : Path start path final) (horderly : start.traffic.Orderly)
    (hquiet : start.scheduler.phase.publication? = none) :
    Tells start.codec (answers path) (online path) final.scheduler.phase := by
  refine hpath.history (motive := fun past state =>
    Tells start.codec (answers past) (online past) state.scheduler.phase) ?_ ?_
  · exact .settled hquiet rfl
  · intro past before action after events hpast htells hstep
    have hready := hpast.orderly horderly
    rw [answers_concat, online_concat]
    have hpublication := (scheduler_of_step hready hstep).publicationStep
      fun _ => answer?_of_polling hready hstep
    exact hpublication.tells (hpast.codec_eq horderly) htells

end Connection

/-- What a tick says of devices. -/
structure Signals (codec : ValueCodec) (declared : List Point) (during : List Transition)
    (final : Connection) : Prop where
  offline_nodup : (offline during).Nodup
  /-- The devices of a group whose poll has failed are offline, and every device of a valid point is
  offline when the transport has failed to open. -/
  mem_offline_iff : ∀ device, device ∈ offline during ↔
    (∃ group error, ⟨group, .error error⟩ ∈ answers during ∧ error.isEnding = false ∧
        ∃ point ∈ group.points, point.device = device) ∨
      ∃ group error, ⟨group, .error error⟩ ∈ answers during ∧ error.isOpenFailure = true ∧
        ∃ point ∈ declared, point.Valid ∧ point.device = device
  /-- Every answer is followed by its devices, once its samples have been passed on. -/
  online_eq : final.scheduler.phase.publication? = none →
    online during = (answers during).flatMap (PollAnswer.seen codec)
  online_open : final.scheduler.phase.publication? ≠ none → ∃ told last,
    answers during = told ++ [last] ∧ online during = told.flatMap (PollAnswer.seen codec)
  seen_nodup : ∀ answer ∈ answers during, (answer.seen codec).Nodup
  /-- They are the devices of members that decode. -/
  mem_seen_iff : ∀ answer ∈ answers during, ∀ device, device ∈ answer.seen codec ↔
    ∃ response, answer.result = .ok response ∧
      ∃ point ∈ answer.group.points, point.device = device ∧
        ∃ value, codec.decode point (response.slice
          (point.address.toNat - answer.group.range.start.toNat) point.quantity.toNat) =
            .ok value

namespace Connection

variable {settings : ConnectionSettings} {codec : ValueCodec} {declared : List Point}
variable {final : Connection} {earlier during : List Transition} {begin : Transition}

/-- Whatever the groups and however polls end, a tick names every device offline at most once, and
exactly those that its polls have not reached. -/
theorem signals_of_tick
    (hpath : Path (create settings codec declared).1 (earlier ++ begin :: during) final)
    (hbegin : begin.action = .tick) (hsame : ∀ transition ∈ during, transition.action ≠ .tick) :
    Signals codec declared during final := by
  have hcreate := create_orderly settings codec declared
  obtain ⟨hearlier, hstep, hduring⟩ := hpath.split
  have hready := hearlier.orderly hcreate
  have horderly := (move_of_step hready hstep).orderly hready
  have hupto := hearlier.append (.cons hstep (.nil _))
  obtain ⟨due, hphase⟩ := phase_of_tick (hbegin ▸ hstep)
  have hcodec : begin.after.codec = codec := hupto.codec_eq hcreate
  have hdevices : final.devices = (create settings codec declared).1.devices :=
    hpath.devices_eq hcreate
  have hmembers {answer : PollAnswer} {point : Point} (hanswer : answer ∈ answers during)
      (hpoint : point ∈ answer.group.points) :
      point.device ∈ (create settings codec declared).1.devices := by
    have hheard : answer ∈ answers (earlier ++ begin :: during) := by
      rw [answers, List.filterMap_append, ← List.singleton_append, List.filterMap_append]
      exact List.mem_append_right _ (List.mem_append_right _ hanswer)
    exact device_mem_of_answer hpath hheard hpoint
  have htally := hduring.tally horderly (fun tick htick => by
    rw [hphase] at htick
    obtain rfl := Option.some.inj htick
    rfl) hsame
  have htells := hduring.tells horderly (by rw [hphase]; rfl)
  rw [hcodec] at htells
  refine ⟨htally.nodup, fun device => ?_, htells.named_eq, fun hopen => ?_,
    fun answer _ => answer.nodup_seen codec, fun answer _ device => PollAnswer.mem_seen_iff⟩
  · rw [htally.mem_iff, hdevices]
    simp only [PollAnswer.mem_suspects_iff, mem_devices_create_iff]
    constructor
    · rintro ⟨⟨group, result⟩, hanswer, error, rfl, hcounts, hnamed⟩
      split at hnamed
      · next hopens => exact .inr ⟨group, error, hanswer, hopens, hnamed⟩
      · exact .inl ⟨group, error, hanswer, hcounts, hnamed⟩
    · rintro (⟨group, error, hanswer, hcounts, point, hpoint, rfl⟩ |
        ⟨group, error, hanswer, hopens, hdevice⟩)
      · refine ⟨_, hanswer, error, rfl, hcounts, ?_⟩
        split
        · exact mem_devices_create_iff.mp (hmembers hanswer hpoint)
        · exact ⟨point, hpoint, rfl⟩
      · refine ⟨_, hanswer, error, rfl, RequestError.not_isEnding_of_isOpenFailure hopens, ?_⟩
        rwa [if_pos hopens]
  · generalize hlast : final.scheduler.phase = phase at htells hopen
    cases htells with
    | settled hclosed => exact absurd hclosed hopen
    | publishing hheard hnamed | delivering hheard hnamed => exact ⟨_, _, hheard, hnamed⟩

end Connection

/-- A register of another device, which can only be written. -/
def Point.starter : Point :=
  { sample with device := ⟨"station"⟩, name := "starter", address := 9, access := .write }

/-- The scheduler reads one group, does not hear of the next one, and cannot open the transport for
the last one. -/
def Action.readAndFail : List Action :=
  [.run .scheduler, .run .scheduler, .run .scheduler, .openDone (.ok ()),
    .exchangeDone (.ok (.registers [7])), .run .scheduler, .deliver, .run .scheduler,
    .run .scheduler, .run .scheduler, .run .scheduler, .elapse (100 * millisecond), .expire,
    .exchangeDone (.error .responseTimeout),
    .run .scheduler, .run .scheduler, .run .scheduler, .openDone (.error (.openFailed .other))]

namespace Connection

/-- A connection that is polled in three groups. -/
def sampleStation : Connection :=
  (create {} Codec.registerCodec [Point.sample, Point.inflow, Point.pump, Point.starter]).1

/-- The same connection, with its groups written out. -/
def sampleStationBuilt : Connection :=
  sampleStation.withGroups
    [.single 0 Point.sample ⟨4, 1⟩, sampleInflow, .single 2 Point.pump ⟨4, 1⟩]

theorem sampleStation_eq : sampleStation = sampleStationBuilt := by
  have hsorted : Point.pollOrder [Point.sample, Point.inflow, Point.pump, Point.starter] =
      [(Point.sample, ⟨4, 1⟩), (Point.inflow, ⟨4, 1⟩), (Point.pump, ⟨4, 1⟩)] :=
    List.mergeSort_of_pairwise (by decide +kernel)
  have hgroups : sampleStation.scheduler.groups =
      [.single 0 Point.sample ⟨4, 1⟩, sampleInflow, .single 2 Point.pump ⟨4, 1⟩] := by
    have hbuilt : sampleStation.scheduler.groups = PollGroup.placeAll 32
        (Point.pollOrder [Point.sample, Point.inflow, Point.pump, Point.starter]) := rfl
    rw [hbuilt, hsorted]
    decide +kernel
  rw [sampleStationBuilt, withGroups, ← hgroups]

def sampleTick : Transition := sampleStationBuilt.next .tick

theorem path_sampleTick : Path sampleStation
    ([] ++ sampleTick :: sampleTick.after.walk Action.readAndFail)
      (sampleTick.after.stop Action.readAndFail) := by
  have hgoes := path_walk
    (show (sampleTick.after.run Action.readAndFail).isSome = true by decide +kernel)
  rw [sampleStation_eq]
  exact .cons_next (by decide +kernel) hgoes

/-- Both devices are named offline, one of them for its missing answer and the other one for the
transport, and the one that has answered before has been named online. -/
theorem sampleTick_signals :
    Signals Codec.registerCodec [Point.sample, Point.inflow, Point.pump, Point.starter]
        (sampleTick.after.walk Action.readAndFail) (sampleTick.after.stop Action.readAndFail) ∧
      offline (sampleTick.after.walk Action.readAndFail) = [⟨"plant"⟩, ⟨"station"⟩] ∧
        online (sampleTick.after.walk Action.readAndFail) = [⟨"plant"⟩] := by
  refine ⟨signals_of_tick path_sampleTick rfl fun transition hmem htick => ?_, by decide +kernel,
    by decide +kernel⟩
  have haction := action_mem_of_walk hmem
  simp [htick, Action.readAndFail] at haction

end Connection

end Fieldbus

import Fieldbus.Proofs.Polling.Members
import Fieldbus.Proofs.Polling.Scheduler
import Mathlib.Data.List.Forall2

/-!
# Publications

After a poll the scheduler passes on a sample of every member of the group, one at a time and in
their order, while calls and the link go their own ways.  Each sample shows what a read of the point
alone would have shown.
-/

namespace Fieldbus

def Event.sample? : Event → Option PointSample
  | sampled sample => some sample
  | _ => none

/-- The samples of a path, in the order in which they are passed on. -/
def published (path : List Transition) : List PointSample :=
  path.flatMap fun transition => transition.events.filterMap Event.sample?

/-- How often the scheduler, or the receiver of its samples, has taken a step. -/
def turns (path : List Transition) : Nat :=
  path.countP fun transition => transition.action.isScheduling

theorem sample?_reports (events : List Event) :
    (reports events).filterMap Event.sample? = events.filterMap Event.sample? := by
  rw [reports, List.filterMap_filter]
  congr 1
  funext event
  cases event <;> rfl

theorem published_append (path more : List Transition) :
    published (path ++ more) = published path ++ published more :=
  List.flatMap_append ..

theorem turns_append (path more : List Transition) :
    turns (path ++ more) = turns path + turns more :=
  List.countP_append ..

/-- The sample is what a read of the point alone shows. -/
structure Point.Shows (memory : Memory) (point : Point) (sample : PointSample) : Prop where
  device : sample.device = point.device
  name : sample.point = point.name
  rawType : sample.rawType = point.rawType
  value : Codec.decode point (memory.read point.readRequest).values = .ok sample.value

/-- A group without the record of its polls. -/
def PollGroup.task (group : PollGroup) : PollGroup :=
  { group with lastPollAt := none, failures := 0 }

theorem PollGroup.task_asked (ceiling : Nanoseconds) (group : PollGroup) :
    (group.asked ceiling).task = group.task := by
  rw [asked]
  split <;> rfl

theorem PollGroup.reads_eq_of_task {group kept : PollGroup} (htask : kept.task = group.task) :
    kept.range = group.range ∧ kept.points = group.points ∧
      kept.readRequest = group.readRequest := by
  have hrange : kept.task.range = group.task.range := by rw [htask]
  have hpoints : kept.task.points = group.task.points := by rw [htask]
  have hrequest : kept.task.readRequest = group.task.readRequest := by rw [htask]
  exact ⟨hrange, hpoints, hrequest⟩

theorem PollGroup.map_task_set {groups : List PollGroup} {index : Nat} {group kept : PollGroup}
    (hfound : groups[index]? = some group) (htask : kept.task = group.task) :
    (groups.set index kept).map task = groups.map task := by
  obtain ⟨hindex, rfl⟩ := List.getElem?_eq_some_iff.mp hfound
  apply List.ext_getElem
  · simp
  · intro place _ _
    rw [List.getElem_map, List.getElem_map, List.getElem_set]
    split
    · next hplace =>
        subst hplace
        exact htask
    · rfl

variable {c : Connection} {action : Action} {shown : List Event} {next : Scheduler} {tick : Tick}
variable {group : PollGroup}

/-- No step changes what a group reads. -/
theorem SchedulerStep.tasks (hstep : SchedulerStep c action shown next) :
    next.groups.map PollGroup.task = c.scheduler.groups.map PollGroup.task := by
  cases hstep with
  | notDue hvisits | defer hvisits | clear hvisits =>
      exact PollGroup.map_task_set hvisits.found (PollGroup.task_asked _ _)
  | skip hvisits => exact PollGroup.map_task_set hvisits.found (PollGroup.task_asked _ _)
  | read hhears | fail hhears => exact PollGroup.map_task_set hhears.found rfl
  | keep | switch | seekSetting | applied | halt | seekShutdown | endScheduler | beginTick
  | endTick | seekLink | giveUp | poll | abort | sample | pass | deliver | conclude => rfl

namespace Connection

variable {start final : Connection} {path : List Transition}

theorem Path.tasks_eq (hpath : Path start path final) (horderly : start.traffic.Orderly) :
    final.scheduler.groups.map PollGroup.task = start.scheduler.groups.map PollGroup.task := by
  induction hpath with
  | nil => rfl
  | cons hstep _ ih =>
      have hkept := (scheduler_of_step horderly hstep).tasks
      exact (ih ((move_of_step horderly hstep).orderly horderly)).trans hkept

/-- A group stays in its place with its points and its block. -/
theorem Path.exists_group (hpath : Path start path final) (horderly : start.traffic.Orderly)
    {index : Nat} (hfound : start.scheduler.groups[index]? = some group) :
    ∃ kept, final.group? index = some kept ∧ kept.task = group.task := by
  have htasks := congrArg (fun tasks => tasks[index]?) (hpath.tasks_eq horderly)
  simp only [List.getElem?_map, hfound, Option.map_some] at htasks
  exact Option.map_eq_some_iff.mp htasks

end Connection

/-- An accepted answer to a poll is passed on. -/
theorem SchedulerStep.of_verdict {response : Response}
    (hstep : SchedulerStep c action shown next) (hphase : c.scheduler.phase = .polling tick)
    (hfound : c.group? tick.next = some group)
    (hverdict : c.traffic.verdict? action = some (.read group.readRequest, .ok response)) :
    shown = [] ∧ next.phase = .publishing tick
      { start := group.range.start, response, remaining := group.points } := by
  have hheard {other : Tick} {found : PollGroup} {result : Except RequestError Response}
      (hhears : c.Hears action other found result) :
      other = tick ∧ found = group ∧ result = .ok response := by
    obtain rfl := SchedulerPhase.polling.inj (hhears.phase.symm.trans hphase)
    obtain ⟨stage, link, events, htransaction, hturn⟩ := hhears.turn
    have hresult := Link.Turn.verdict (c := c.traffic) htransaction hturn
    rw [hverdict] at hresult
    simp only [Option.some.injEq, Prod.mk.injEq, reduceCtorEq, false_and, or_false] at hresult
    exact ⟨rfl, Option.some.inj (hhears.found.symm.trans hfound), hresult.2.symm⟩
  cases hstep with
  | keep haction hgoes => simp [hgoes tick hphase] at hverdict
  | read hhears =>
      obtain ⟨rfl, rfl, hresponse⟩ := hheard hhears
      obtain rfl := Except.ok.inj hresponse
      exact ⟨rfl, rfl⟩
  | fail hhears | abort hhears =>
      obtain ⟨-, -, herror⟩ := hheard hhears
      simp at herror
  | switch _ hother | seekSetting _ hother | halt _ hother => simp [hphase] at hother
  | notDue hvisits | skip hvisits | defer hvisits | clear hvisits =>
      simp [hvisits.phase] at hphase
  | endTick hother | giveUp hother => simp [hphase] at hother
  | applied hother | seekShutdown hother | endScheduler hother | beginTick hother
  | seekLink hother | poll hother | sample hother | pass hother | deliver hother
  | conclude hother => simp [hphase] at hother

theorem Connection.verdict_of_answer {after : Connection} {events : List Event}
    {answer response : Response} (horderly : c.traffic.Orderly)
    (hstep : c.step (.exchangeDone (.ok answer)) = some (after, events))
    (hphase : c.scheduler.phase = .polling tick) (hfound : c.group? tick.next = some group)
    (hcheck : answer.check (.read group.readRequest) = .ok response) :
    c.traffic.verdict? (.exchangeDone (.ok answer)) =
      some (.read group.readRequest, .ok response) := by
  simp only [step] at hstep
  split at hstep
  · next request since htransaction =>
      obtain ⟨read, hread, rfl⟩ := (horderly.errand _ htransaction).1 tick hphase
      have hreads : c.traffic.reads tick.next = some group.readRequest := by
        simp [traffic, hfound]
      obtain rfl := Option.some.inj (hread.symm.trans hreads)
      have haccepted : (Request.read group.readRequest).verdict (.ok answer) = .ok response := by
        simp only [Request.verdict, bind, Except.bind, hcheck]
        rfl
      rw [Traffic.verdict?]
      simp [traffic, htransaction, Action.exchangeResult?, haccepted]
  · simp at hstep

/-! ## The course of a publication -/

/-- The publication passes on what a read of the group has shown. -/
structure Publication.Carries (publication : Publication) (memory : Memory)
    (group : PollGroup) : Prop where
  start : publication.start = group.range.start
  response : publication.response = memory.read group.readRequest

/-- How far a publication has come after some turns, with the samples so far. -/
inductive Publishes (memory : Memory) (tick : Tick) (group : PollGroup) :
    Nat → List PointSample → SchedulerPhase → Prop where
  | ready {taken : List Point} {emitted : List PointSample} {publication : Publication}
      (hcarries : publication.Carries memory group)
      (hpoints : group.points = taken ++ publication.remaining)
      (hshown : List.Forall₂ (Point.Shows memory) taken emitted) :
      Publishes memory tick group (2 * taken.length) emitted (.publishing tick publication)
  | awaiting {taken rest : List Point} {point : Point} {emitted : List PointSample}
      {publication : Publication} {since : Instant} (hcarries : publication.Carries memory group)
      (hpoints : group.points = taken ++ publication.remaining)
      (hremaining : publication.remaining = point :: rest)
      (hshown : List.Forall₂ (Point.Shows memory) (taken ++ [point]) emitted) :
      Publishes memory tick group (2 * taken.length + 1) emitted
        (.delivering tick publication since)
  | finished {emitted : List PointSample}
      (hshown : List.Forall₂ (Point.Shows memory) group.points emitted) :
      Publishes memory tick group (2 * group.points.length + 1) emitted
        (.visiting (tick.concluded .polled))

namespace Publishes

variable {memory : Memory} {count : Nat} {emitted : List PointSample} {phase : SchedulerPhase}

theorem ne_polling (hnow : Publishes memory tick group count emitted phase) (other : Tick) :
    phase ≠ .polling other := by
  cases hnow <;> simp

/-- The samples of the members come in their order, one for each. -/
theorem shows_take (hnow : Publishes memory tick group count emitted phase) :
    List.Forall₂ (Point.Shows memory) (group.points.take ((count + 1) / 2)) emitted := by
  cases hnow with
  | @ready taken _ publication hcarries hpoints hshown =>
      have hhalf : (2 * taken.length + 1) / 2 = taken.length := by omega
      rwa [hhalf, hpoints, List.take_left]
  | @awaiting taken rest point _ publication since hcarries hpoints hremaining hshown =>
      have hhalf : (2 * taken.length + 1 + 1) / 2 = (taken ++ [point]).length := by
        rw [List.length_append, List.length_singleton]
        omega
      have hmembers : group.points = (taken ++ [point]) ++ rest := by
        rw [hpoints, hremaining, List.append_assoc]
        rfl
      rwa [hhalf, hmembers, List.take_left]
  | finished hshown =>
      rwa [List.take_of_length_le (by omega)]

theorem phase_of_last (hnow : Publishes memory tick group count emitted phase)
    (hcount : count = 2 * group.points.length + 1) :
    phase = .visiting (tick.concluded .polled) := by
  cases hnow with
  | ready hcarries hpoints hshown => omega
  | awaiting hcarries hpoints hremaining hshown =>
      rw [hpoints, hremaining, List.length_append, List.length_cons] at hcount
      omega
  | finished hshown => rfl

/-- Until the publication is over, its next turn can be taken. -/
theorem exists_step (hnow : Publishes memory tick group count emitted c.scheduler.phase)
    (hcount : count < 2 * group.points.length + 1) :
    ∃ action : Action, action.isScheduling = true ∧ (c.step action).isSome = true := by
  generalize hphase : c.scheduler.phase = phase at hnow
  cases hnow with
  | ready =>
      refine ⟨.run .scheduler, rfl, ?_⟩
      simp [Connection.step, Connection.runScheduler?, hphase]
  | awaiting =>
      refine ⟨.deliver, rfl, ?_⟩
      simp [Connection.step, hphase]
  | finished => omega

end Publishes

/-- A point of the group decodes to what a read of the point alone shows. -/
theorem PollGroup.HasMember.exists_decodePoint {memory : Memory} {point : Point}
    {publication : Publication} (hmember : group.HasMember point)
    (hcodec : c.codec = Codec.registerCodec) (hcarries : publication.Carries memory group) :
    ∃ value, c.decodePoint publication point = .ok value ∧
      Codec.decode point (memory.read point.readRequest).values = .ok value := by
  obtain ⟨value, hvalue⟩ := hmember.decodes (memory.check_padded group.readRequest [])
  rw [memory.slice_read_of_member hmember] at hvalue
  refine ⟨value, ?_, hvalue⟩
  rw [Connection.decodePoint, hcodec, hcarries.start, hcarries.response,
    memory.slice_read_of_member hmember]
  exact hvalue

namespace SchedulerStep

variable {memory : Memory} {count : Nat} {emitted : List PointSample}

/-- Others leave the scheduler alone unless it is polling. -/
theorem of_not_scheduling (hstep : SchedulerStep c action shown next)
    (haction : action.isScheduling = false)
    (hphase : ∀ tick, c.scheduler.phase ≠ .polling tick) : next = c.scheduler ∧ shown = [] := by
  cases hstep with
  | keep => exact ⟨rfl, rfl⟩
  | read hhears | fail hhears | abort hhears => exact absurd hhears.phase (hphase _)
  | switch hother | seekSetting hother | halt hother => simp [haction] at hother
  | applied | seekShutdown | endScheduler | beginTick | endTick | notDue | skip | defer | clear
  | seekLink | giveUp | poll | sample | pass | deliver | conclude =>
      simp [Action.isScheduling] at haction

/-- The scheduler passes on the next point, leaves it out, or is done. -/
theorem of_publishing {publication : Publication} (hstep : SchedulerStep c action shown next)
    (haction : action.isScheduling = true)
    (hphase : c.scheduler.phase = .publishing tick publication) :
    (∃ point rest, publication.remaining = point :: rest ∧
      ((∃ value, c.decodePoint publication point = .ok value ∧
        shown = [.sampled
          { device := point.device, point := point.name, rawType := point.rawType, value }] ∧
            next.phase = .delivering tick publication c.now) ∨
        ∃ error, c.decodePoint publication point = .error error)) ∨
      publication.remaining = [] ∧ shown.filterMap Event.sample? = [] ∧
        next.phase = .visiting (tick.concluded .polled) := by
  cases hstep with
  | sample hother hremaining hvalue =>
      obtain ⟨rfl, rfl⟩ := SchedulerPhase.publishing.inj (hother.symm.trans hphase)
      exact .inl ⟨_, _, hremaining, .inl ⟨_, hvalue, rfl, rfl⟩⟩
  | pass hother hremaining herror =>
      obtain ⟨rfl, rfl⟩ := SchedulerPhase.publishing.inj (hother.symm.trans hphase)
      exact .inl ⟨_, _, hremaining, .inr ⟨_, herror⟩⟩
  | conclude hother hremaining =>
      obtain ⟨rfl, rfl⟩ := SchedulerPhase.publishing.inj (hother.symm.trans hphase)
      refine .inr ⟨hremaining, List.filterMap_eq_nil_iff.mpr ?_, rfl⟩
      intro event hevent
      obtain ⟨device, -, rfl⟩ := List.mem_map.mp hevent
      rfl
  | keep hother => simp [haction] at hother
  | switch _ hother | seekSetting _ hother | halt _ hother => simp [hphase] at hother
  | notDue hvisits | skip hvisits | defer hvisits | clear hvisits =>
      simp [hvisits.phase] at hphase
  | read hhears | fail hhears | abort hhears => simp [hhears.phase] at hphase
  | endTick hother | giveUp hother => simp [hphase] at hother
  | applied hother | seekShutdown hother | endScheduler hother | beginTick hother
  | seekLink hother | poll hother | deliver hother => simp [hphase] at hother

theorem of_delivering {publication : Publication} {since : Instant}
    (hstep : SchedulerStep c action shown next) (haction : action.isScheduling = true)
    (hphase : c.scheduler.phase = .delivering tick publication since) :
    shown = [] ∧ next.phase = .publishing tick publication.taken := by
  cases hstep with
  | deliver hother =>
      obtain ⟨rfl, rfl, rfl⟩ := SchedulerPhase.delivering.inj (hother.symm.trans hphase)
      exact ⟨rfl, rfl⟩
  | keep hother => simp [haction] at hother
  | switch _ hother | seekSetting _ hother | halt _ hother => simp [hphase] at hother
  | notDue hvisits | skip hvisits | defer hvisits | clear hvisits =>
      simp [hvisits.phase] at hphase
  | read hhears | fail hhears | abort hhears => simp [hhears.phase] at hphase
  | endTick hother | giveUp hother => simp [hphase] at hother
  | applied hother | seekShutdown hother | endScheduler hother | beginTick hother
  | seekLink hother | poll hother | sample hother | pass hother | conclude hother =>
      simp [hphase] at hother

/-- A turn passes on one more sample, has one taken, or ends the publication. -/
theorem publishes (hstep : SchedulerStep c action shown next)
    (hcodec : c.codec = Codec.registerCodec) (hcovers : group.Covers)
    (haction : action.isScheduling = true) (hcount : count < 2 * group.points.length + 1)
    (hnow : Publishes memory tick group count emitted c.scheduler.phase) :
    Publishes memory tick group (count + 1) (emitted ++ shown.filterMap Event.sample?)
      next.phase := by
  generalize hphase : c.scheduler.phase = phase at hnow
  cases hnow with
  | @ready taken _ publication hcarries hpoints hshown =>
      rcases hstep.of_publishing haction hphase with
        ⟨point, rest, hremaining, hpoint⟩ | ⟨hremaining, hsilent, hnext⟩
      · have hmem : point ∈ group.points := by simp [hpoints, hremaining]
        obtain ⟨value, hdecode, hvalue⟩ :=
          (hcovers.members point hmem).exists_decodePoint hcodec hcarries
        rcases hpoint with ⟨other, hother, rfl, hnext⟩ | ⟨error, herror⟩
        · obtain rfl := Except.ok.inj (hdecode.symm.trans hother)
          rw [hnext]
          exact .awaiting hcarries hpoints hremaining
            (List.rel_append hshown (.cons ⟨rfl, rfl, rfl, hvalue⟩ .nil))
        · simp [hdecode] at herror
      · have hall : group.points = taken := by rw [hpoints, hremaining, List.append_nil]
        rw [hsilent, hnext, List.append_nil, ← hall]
        exact .finished (hall ▸ hshown)
  | @awaiting taken rest point _ publication since hcarries hpoints hremaining hshown =>
      obtain ⟨rfl, hnext⟩ := hstep.of_delivering haction hphase
      have hcount : 2 * taken.length + 1 + 1 = 2 * (taken ++ [point]).length := by
        rw [List.length_append, List.length_singleton]
        omega
      rw [hnext, hcount, List.filterMap_nil, List.append_nil]
      refine .ready ⟨?_, ?_⟩ ?_ hshown
      · rw [← hcarries.start, Publication.taken, hremaining]
      · rw [← hcarries.response, Publication.taken, hremaining]
      · rw [hpoints, hremaining, Publication.taken, hremaining, List.append_cons]
  | finished => omega

end SchedulerStep

namespace Connection

variable {start final : Connection} {later : List Transition} {memory : Memory}

/-- A publication goes on with every turn, whatever happens in between. -/
theorem Path.publishes (hpath : Path start later final) (horderly : start.traffic.Orderly)
    (hcodec : start.codec = Codec.registerCodec) (hcovers : group.Covers)
    (hstart : Publishes memory tick group 0 [] start.scheduler.phase)
    (hturns : turns later ≤ 2 * group.points.length + 1) :
    Publishes memory tick group (turns later) (published later) final.scheduler.phase := by
  refine hpath.history (motive := fun path state =>
    turns path ≤ 2 * group.points.length + 1 →
      Publishes memory tick group (turns path) (published path) state.scheduler.phase)
    (fun _ => hstart) ?_ hturns
  intro past before action after events hpast hbefore hstep hturns
  have hnext := scheduler_of_step (hpast.orderly horderly) hstep
  have hsame : before.codec = Codec.registerCodec := (hpast.codec_eq horderly).trans hcodec
  rw [turns_append] at hturns ⊢
  rw [published_append]
  have hnow := hbefore (Nat.le_trans (Nat.le_add_right _ _) hturns)
  have hemitted : published [⟨before, action, after, events⟩] =
      (reports events).filterMap Event.sample? := by
    rw [sample?_reports]
    exact List.append_nil _
  rw [hemitted]
  -- A turn moves the publication on; everybody else leaves the scheduler alone.
  by_cases haction : action.isScheduling
  · have hturn : turns [⟨before, action, after, events⟩] = 1 := by simp [turns, haction]
    rw [hturn] at hturns ⊢
    exact hnext.publishes hsame hcovers haction hturns hnow
  · have hturn : turns [⟨before, action, after, events⟩] = 0 := by simp [turns, haction]
    obtain ⟨hscheduler, hsilent⟩ :=
      hnext.of_not_scheduling ((Bool.not_eq_true _).mp haction) hnow.ne_polling
    rw [hturn, hscheduler, hsilent, List.filterMap_nil, List.append_nil]
    exact hnow

/-- The answer to a poll starts the publication of its samples. -/
theorem Path.publishes_of_answer {earlier : List Transition} {reply : Transition}
    {padding : List Bool} (hpath : Path start (earlier ++ reply :: later) final)
    (horderly : start.traffic.Orderly) (hphase : reply.before.scheduler.phase = .polling tick)
    (hfound : start.scheduler.groups[tick.next]? = some group)
    (hanswer : reply.action =
      .exchangeDone (.ok ((memory.read group.readRequest).padded padding))) :
    published [reply] = [] ∧ Publishes memory tick group 0 [] reply.after.scheduler.phase := by
  obtain ⟨hearlier, hstep, -⟩ := hpath.split
  obtain ⟨kept, hkept, htask⟩ := hearlier.exists_group horderly hfound
  obtain ⟨hrange, hpoints, hrequest⟩ := PollGroup.reads_eq_of_task htask
  rw [hanswer, ← hrequest] at hstep
  have hverdict := verdict_of_answer (hearlier.orderly horderly) hstep hphase hkept
    (memory.check_padded kept.readRequest padding)
  have hscheduler := hpath.scheduler_step horderly
  rw [hanswer, ← hrequest] at hscheduler
  obtain ⟨hsilent, hnext⟩ := hscheduler.of_verdict hphase hkept hverdict
  constructor
  · rw [published, List.flatMap_cons, ← sample?_reports, hsilent]
    rfl
  · rw [hnext, hrange, hpoints, hrequest]
    exact .ready ⟨rfl, rfl⟩ rfl .nil

end Connection

/-! ## Reading in groups -/

/-- Reading points in groups shows what reading each of them alone shows. -/
structure Transparent (points : List Point) (maxSpan : UInt16) : Prop where
  /-- Every valid point that can be read is in a group. -/
  complete : ∀ point ∈ points, point.Valid → point.access.isReadable = true →
    ∃ group ∈ buildGroups points maxSpan, point ∈ group.points
  /-- No member starts before its group. -/
  starts : ∀ group ∈ buildGroups points maxSpan, ∀ point ∈ group.points,
    group.range.start ≤ point.address
  /-- No member fails to decode, whatever the accepted response. -/
  decodes : ∀ group ∈ buildGroups points maxSpan, ∀ response checked : Response,
    response.check (.read group.readRequest) = .ok checked → ∀ point ∈ group.points, ∃ value,
      Codec.decode point (checked.slice (point.address.toNat - group.range.start.toNat)
        point.quantity.toNat) = .ok value
  /-- After the answer of a device that shows its memory, with some padding, there comes one sample
  for each member in their order.  The publication takes two turns for each and a last one, and
  nothing keeps it from the next turn. -/
  shows : ∀ {settings : ConnectionSettings} {declared : List Point}
    {earlier later : List Transition} {reply : Transition} {final : Connection} {tick : Tick}
    {group : PollGroup} {memory : Memory} {padding : List Bool},
    Connection.Path ((Connection.create settings Codec.registerCodec declared).1.withGroups
        (buildGroups points maxSpan)) (earlier ++ reply :: later) final →
      reply.before.scheduler.phase = .polling tick →
      (buildGroups points maxSpan)[tick.next]? = some group →
      reply.action = .exchangeDone (.ok ((memory.read group.readRequest).padded padding)) →
      turns later ≤ 2 * group.points.length + 1 →
        List.Forall₂ (Point.Shows memory) (group.points.take ((turns later + 1) / 2))
          (published (reply :: later)) ∧
        (turns later = 2 * group.points.length + 1 →
          final.scheduler.phase = .visiting (tick.concluded .polled)) ∧
        (turns later < 2 * group.points.length + 1 →
          ∃ action : Action, action.isScheduling = true ∧ (final.step action).isSome = true)

/-- Whatever the points and the span, the samples do not tell how points have been put into
groups. -/
theorem transparent_buildGroups (points : List Point) (maxSpan : UInt16) :
    Transparent points maxSpan where
  complete point hpoint hvalid hreadable :=
    exists_group_of_readable maxSpan hpoint hvalid hreadable
  starts group hgroup point hpoint :=
    UInt16.le_iff_toNat_le.mpr
      ((covers_of_mem_buildGroups hgroup).members point hpoint).within.start_le
  decodes group hgroup response checked hcheck point hpoint :=
    ((covers_of_mem_buildGroups hgroup).members point hpoint).decodes hcheck
  shows {settings declared earlier later reply final tick group memory padding} hpath hphase hgroup
      hanswer hturns := by
    have horderly := Connection.orderly_withGroups (buildGroups points maxSpan)
      (Connection.create_orderly settings Codec.registerCodec declared) rfl
    obtain ⟨hearlier, hstep, hlater⟩ := hpath.split
    obtain ⟨hsilent, hstart⟩ := hpath.publishes_of_answer horderly hphase hgroup hanswer
    have hready := hearlier.orderly horderly
    have hmove := Connection.move_of_step hready hstep
    have hcodec : reply.after.codec = Codec.registerCodec :=
      hmove.codec_eq.trans (hearlier.codec_eq horderly)
    have hcovers := covers_of_mem_buildGroups (List.mem_of_getElem? hgroup)
    have hend := hlater.publishes (hmove.orderly hready) hcodec hcovers hstart hturns
    have hpublished : published (reply :: later) = published later := by
      rw [← List.singleton_append, published_append, hsilent, List.nil_append]
    rw [hpublished]
    exact ⟨hend.shows_take, hend.phase_of_last, hend.exists_step⟩

/-- The groups of a connection are such groups. -/
example (settings : ConnectionSettings) (codec : ValueCodec) (declared : List Point) :
    let connection := (Connection.create settings codec declared).1
    connection = connection.withGroups
      (buildGroups connection.points settings.link.maxBatchSpan) := rfl

def Point.pump : Point :=
  { sample with name := "pump", registerClass := .coil, rawType := .bool }

def Point.valve : Point := { pump with name := "valve", address := 6 }

/-- The transport is opened for a poll. -/
def Action.openAndPoll : List Action :=
  [.tick, .run .scheduler, .run .scheduler, .run .scheduler, .openDone (.ok ())]

/-- Two samples are passed on and taken. -/
def Action.publishPair : List Action :=
  [.run .scheduler, .deliver, .run .scheduler, .deliver, .run .scheduler]

/-- The block of both coils, with an address between them that belongs to nobody. -/
def PollGroup.coils : PollGroup :=
  (single 0 Point.pump ⟨4, 1⟩).extend Point.valve ⟨6, 1⟩

theorem buildGroups_coils : buildGroups [Point.pump, Point.valve] 32 = [PollGroup.coils] := by
  have hsorted : Point.pollOrder [Point.pump, Point.valve] =
      [(Point.pump, ⟨4, 1⟩), (Point.valve, ⟨6, 1⟩)] :=
    List.mergeSort_of_pairwise (by decide +kernel)
  rw [buildGroups, hsorted]
  decide +kernel

namespace Connection

/-- A connection that polls the two coils. -/
def sampleCoils : Connection := (create {} Codec.registerCodec []).1.withGroups [.coils]

/-- The pump and the valve are on. -/
def coilMemory : Memory := Memory.zero.store ⟨1⟩ .coil 4 (.bits [true, false, true])

/-- The device answers with a whole byte. -/
def coilAnswer : Response :=
  (coilMemory.read PollGroup.coils.readRequest).padded [true, false, true, true, false]

def sampleReply : Transition :=
  (sampleCoils.stop Action.openAndPoll).next (.exchangeDone (.ok coilAnswer))

theorem path_sampleReply : Path sampleCoils (sampleCoils.walk Action.openAndPoll ++
    sampleReply :: sampleReply.after.walk Action.publishPair)
      (sampleReply.after.stop Action.publishPair) := by
  have hopens := path_walk
    (show (sampleCoils.run Action.openAndPoll).isSome = true by decide +kernel)
  have hpublishes := path_walk
    (show (sampleReply.after.run Action.publishPair).isSome = true by decide +kernel)
  exact hopens.append (.cons_next (by decide +kernel) hpublishes)

/-- Both coils are shown as reads of each alone show them, and the group counts as polled. -/
theorem sampleReply_shows :
    List.Forall₂ (Point.Shows coilMemory) [Point.pump, Point.valve]
        (published (sampleReply :: sampleReply.after.walk Action.publishPair)) ∧
      (sampleReply.after.stop Action.publishPair).scheduler.phase =
        .visiting (Tick.concluded .polled { instant := 0 }) := by
  have htransparent := transparent_buildGroups [Point.pump, Point.valve] 32
  have hpath := path_sampleReply
  rw [sampleCoils, ← buildGroups_coils] at hpath
  have hphase : sampleReply.before.scheduler.phase = .polling { instant := 0 } := by
    decide +kernel
  have hgroup : (buildGroups [Point.pump, Point.valve] 32)[0]? = some PollGroup.coils := by
    rw [buildGroups_coils]
    rfl
  have hturns : turns (sampleReply.after.walk Action.publishPair) = 5 := by decide +kernel
  obtain ⟨hshown, hends, -⟩ := htransparent.shows hpath hphase hgroup rfl (Nat.le_of_eq hturns)
  rw [hturns] at hshown
  exact ⟨hshown, hends hturns⟩

end Connection

end Fieldbus

import Fieldbus.Proofs.Link.Wire
import Fieldbus.Proofs.Run.Step

/-!
# Starts of exchanges

An exchange starts in the step that begins its transaction, at the end of a wait before it, or
right after the read of a bit field.  No step starts more than one, and the exchange belongs to
whoever holds the link.
-/

namespace Fieldbus

/-- How the exchange of a request starts. -/
inductive Start (c : Traffic) (request : Request) (after : Traffic) : Prop where
  | poll (tick : Tick) (hphase : c.phase = .awaitingLink tick)
      (hheld : c.linkLock.holder = some .scheduler) (hafter : after.phase = .polling tick)
      (hlock : after.linkLock = c.linkLock)
  | attempt (id : Nat) (job : WriteJob) (command : WriteCommand) (rest : List WriteCommand)
      (hphase : Calls.phase? c.calls id = some (.awaitingLink job))
      (hheld : c.linkLock.holder = some (.call id)) (hjob : job.commands = command :: rest)
      (hrequest : request = command.firstRequest)
      (hafter : Calls.phase? after.calls id = some (.transacting job))
      (hlock : after.linkLock = c.linkLock)
  /-- The transport has opened, or the minimum interval has passed. -/
  | proceed (stage : Stage) (htransaction : c.transaction = some ⟨request, stage⟩)
      (hstage : ∀ since, stage ≠ .exchanging since) (hphase : after.phase = c.phase)
      (hcalls : after.calls = c.calls) (hlock : after.linkLock = c.linkLock)
  | writeBack (id : Nat) (job : WriteJob) (read : ReadRequest) (since : Instant)
      (htransaction : c.transaction = some ⟨.read read, .exchanging since⟩)
      (hphase : Calls.phase? c.calls id = some (.transacting job))
      (hcalls : after.calls = c.calls) (hlock : after.linkLock = c.linkLock)

theorem Progress.mem_started {request other : Request} {progress : Progress}
    (hstarts : request ∈ progress.started other) :
    request = other ∧ progress.started other = [request] ∧
      ∃ since, progress = .waiting (.exchanging since) := by
  cases progress with
  | finished result => simp [started] at hstarts
  | waiting stage =>
      cases stage with
      | exchanging since =>
          obtain rfl : request = other := by simpa [started] using hstarts
          exact ⟨rfl, rfl, since, rfl⟩
      | opening since | spacing stop => simp [started] at hstarts

namespace Move

variable {c after : Traffic} {action : Action} {events : List Event} {request : Request}

/-- A step starts at most one exchange, and it is then under way. -/
theorem start (hmove : Move c action events after) (hstarts : request ∈ started events) :
    started events = [request] ∧
      (∃ since, after.transaction = some ⟨request, .exchanging since⟩) ∧
        Start c request after := by
  have hsilent : started events = [] → False := by
    intro hnone
    rw [hnone] at hstarts
    simp at hstarts
  cases hmove with
  | stay haction hquiet => exact (hsilent hquiet.started_eq_nil).elim
  | stroll haction hphase hnext hquiet => exact (hsilent hquiet.started_eq_nil).elim
  | clear hphase hopen hrest hquiet | leaveLink hphase hheld hnext hquiet
  | enterSection hphase hheld hquiet => exact (hsilent hquiet.started_eq_nil).elim
  | refuseAttempt hphase hheld hopen hjob hinvalid hquiet =>
      exact (hsilent hquiet.started_eq_nil).elim
  | elapse | seekSetting | seekLink | seekShutdown | callSeekShutdown | refuse | startWrite
  | startPosting | postClose | endSetting | announce | finish | callSeekLink | callLeaveLink
  | «return» | cancel => exact (hsilent rfl).elim
  | endScheduler hphase hheld hquiet =>
      refine (hsilent ?_).elim
      rw [started_append, Link.started_shutdown, hquiet.started_eq_nil]
      rfl
  | callShutdown =>
      refine (hsilent ?_).elim
      rw [started_append, Link.started_shutdown]
      rfl
  | @poll _ tick _ _ _ hphase hheld hopen hread hbegin =>
      have hstarted := Link.started_begin hbegin
      rw [hstarted] at hstarts ⊢
      obtain ⟨rfl, hone, since, hstage⟩ := Progress.mem_started hstarts
      obtain rfl := Progress.waiting.inj hstage
      exact ⟨hone, ⟨since, rfl⟩, .poll tick hphase hheld rfl rfl⟩
  | @attempt id _ job command rest _ _ hphase hheld hopen hjob hbegin =>
      have hstarted := Link.started_begin hbegin
      rw [hstarted] at hstarts ⊢
      obtain ⟨rfl, hone, since, hstage⟩ := Progress.mem_started hstarts
      obtain rfl := Progress.waiting.inj hstage
      refine ⟨hone, ⟨since, rfl⟩, .attempt id job command rest hphase hheld hjob rfl ?_ rfl⟩
      rw [Calls.phase?_set (by simp [hphase]), Function.update_self]
  | @proceed _ _ _ stage next _ htransaction hturn =>
      rw [hturn.started_eq] at hstarts ⊢
      obtain ⟨rfl, hone, since, hstage⟩ := Progress.mem_started hstarts
      obtain rfl := Progress.waiting.inj hstage
      exact ⟨hone, ⟨since, rfl⟩, .proceed stage htransaction hturn.not_exchanging rfl rfl rfl⟩
  | endPoll htransaction hphase hturn hnext hquiet =>
      refine (hsilent ?_).elim
      rw [started_append, hturn.started_eq, hquiet.started_eq_nil]
      rfl
  | store htransaction hphase hjob hturn => exact (hsilent hturn.started_eq).elim
  | fail htransaction hphase hjob hturn hfails hquiet =>
      refine (hsilent ?_).elim
      rw [started_append, hturn.started_eq, hquiet.started_eq_nil]
      rfl
  | misfit htransaction hphase hturn => exact (hsilent hturn.started_eq).elim
  | @writeBack id _ _ _ read stage next _ _ _ _ _ job _ _ _ _ htransaction hphase hjob hfield
      hturn hencode hbegin =>
      have hread : started _ = [] := hturn.started_eq
      rw [started_append, hread, List.nil_append, Link.started_begin hbegin] at hstarts ⊢
      obtain ⟨rfl, hone, since, hstage⟩ := Progress.mem_started hstarts
      obtain rfl := Progress.waiting.inj hstage
      obtain ⟨at', rfl⟩ := hturn.exchanging_of_ok
      exact ⟨hone, ⟨since, rfl⟩, .writeBack id job read at' htransaction hphase rfl rfl⟩

end Move

/-- The exchanges that a step starts for a user of the link. -/
def Transition.exchangesOf (actor : Actor) (transition : Transition) : List Request :=
  if transition.after.linkLock.isHeldBy actor then started transition.events else []

theorem Transition.exchangesOf_of_held {transition : Transition} {actor : Actor}
    (hheld : transition.after.linkLock.holder = some actor) :
    transition.exchangesOf actor = started transition.events :=
  if_pos (FairLock.isHeldBy_iff.mpr hheld)

theorem Transition.mem_exchangesOf {transition : Transition} {actor : Actor} {request : Request} :
    request ∈ transition.exchangesOf actor ↔
      transition.after.linkLock.holder = some actor ∧ request ∈ started transition.events := by
  rw [exchangesOf]
  split
  · next hheld => simp [FairLock.isHeldBy_iff.mp hheld]
  · next hheld => simp [mt FairLock.isHeldBy_iff.mpr hheld]

end Fieldbus

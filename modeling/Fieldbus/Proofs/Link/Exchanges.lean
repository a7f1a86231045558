import Fieldbus.Proofs.Link.Discipline
import Fieldbus.Proofs.Run.Step

/-!
# What a connection puts on the wire

Whoever uses the link of a connection, and however its transport behaves, the wire stays in the
state in which the link takes it to be.  So the log of every path is disciplined, provided that no
transaction is abandoned in the middle.
-/

namespace Fieldbus

/-- What the link takes the wire to be. -/
inductive Mode.Fits (isOpen : Bool) (next? : Option Instant) (closing : Bool)
    (transaction : Option Transaction) (mode : Mode) : Prop where
  | closed (hmode : mode = .closed) (hdown : isOpen = false) (hidle : transaction = none)
  | opening (hmode : mode = .opening) (hdown : isOpen = false) (request : Request)
      (since : Instant) (htransaction : transaction = some ⟨request, .opening since⟩)
  | ready (hmode : mode = .ready) (hup : isOpen = true) (hidle : transaction = none)
  | spacing (hmode : mode = .ready) (hup : isOpen = true) (request : Request) (stop : Instant)
      (htransaction : transaction = some ⟨request, .spacing stop⟩) (hnext : next? = some stop)
  | busy (hmode : mode = .busy) (hup : isOpen = true) (request : Request) (since : Instant)
      (htransaction : transaction = some ⟨request, .exchanging since⟩)
  | shut (hmode : mode = .shut) (hdown : isOpen = false) (hidle : transaction = none)
      (hclosing : closing = true)

structure Link.Shows (settings : LinkSettings) (now : Instant) (closing : Bool)
    (transaction : Option Transaction) (link : Link) (wire : Wire) : Prop where
  clock : wire.clock ≤ now
  lastEnd : wire.lastEnd = link.lastExchangeEnd
  minInterval : link.minInterval = settings.minInterval
  keepAlive : link.keepAlive = settings.keepAlive
  fits : wire.mode.Fits link.isOpen link.nextExchangeAt? closing transaction

/-- The wire after more signs at one time. -/
def Wire.Takes (settings : LinkSettings) (now : Instant) (wire : Wire) (more : List Sign)
    (after : Wire) : Prop :=
  Run settings wire (more.map (Entry.mk now)) after

namespace Wire.Takes

variable {settings : LinkSettings} {now : Instant} {start middle final : Wire}
variable {earlier later : List Sign}

theorem nil (wire : Wire) : Takes settings now wire [] wire := Run.nil wire

theorem single {sign : Sign} (hstep : Step settings start ⟨now, sign⟩ final) :
    Takes settings now start [sign] final :=
  .cons hstep (.nil final)

theorem append (hearlier : Takes settings now start earlier middle)
    (hlater : Takes settings now middle later final) :
    Takes settings now start (earlier ++ later) final := by
  rw [Takes, List.map_append]
  exact Run.append hearlier hlater

end Wire.Takes

def Progress.transaction? (request : Request) : Progress → Option Transaction
  | waiting stage => some ⟨request, stage⟩
  | finished _ => none

namespace Link.Shows

variable {settings : LinkSettings} {now : Instant} {closing : Bool} {link after : Link}
variable {wire : Wire} {request : Request} {events : List Event}
variable {transaction : Option Transaction}

/-- An open transport without a transaction spaces its next exchange, or starts it. -/
theorem space {progress : Progress} (hshows : link.Shows settings now closing none wire)
    (hmode : wire.mode = .ready) (hup : link.isOpen = true)
    (hspace : link.space now request = (after, events, progress)) :
    ∃ next, wire.Takes settings now (signs events) next ∧
      after.Shows settings now closing (progress.transaction? request) next := by
  rcases link.space_cases now request with ⟨stop, hnext, hresult⟩ | ⟨sent, hresult, hsigns, hdue⟩
  · obtain ⟨rfl, rfl, rfl⟩ : link = after ∧ [] = events ∧ .waiting (.spacing stop) = progress := by
      simpa using hresult.symm.trans hspace
    exact ⟨wire, .nil wire, { hshows with fits := .spacing hmode hup request stop rfl hnext }⟩
  · obtain ⟨rfl, rfl, rfl⟩ :
        link = after ∧ sent = events ∧ .waiting (.exchanging now) = progress := by
      simpa using hresult.symm.trans hspace
    obtain ⟨mode, clock, lastEnd⟩ := wire
    obtain rfl : mode = .ready := hmode
    refine ⟨⟨.busy, now, lastEnd⟩, ?_, { hshows with
      clock := Nat.le_refl now, fits := .busy rfl hup request now rfl }⟩
    rw [hsigns]
    refine .single (.starts hshows.clock request fun last hlast => ?_)
    have hend : link.lastExchangeEnd = some last := hshows.lastEnd ▸ hlast
    have hnext : link.nextExchangeAt? = some (last + link.minInterval) := by
      simp [nextExchangeAt?, hend]
    exact hshows.minInterval ▸ hdue _ hnext

theorem begin {stage : Stage} (hshows : link.Shows settings now false none wire)
    (hbegin : link.begin now request = (after, events, .waiting stage)) :
    ∃ next, wire.Takes settings now (signs events) next ∧
      after.Shows settings now false (some ⟨request, stage⟩) next := by
  rcases begin_waiting hbegin with ⟨hup, hspace⟩ | ⟨hdown, rfl, rfl, rfl⟩
  · cases hshows.fits with
    | ready hmode => exact hshows.space hmode hup hspace
    | closed hmode hdown | shut hmode hdown => simp [hup] at hdown
    | opening _ _ _ _ hsome | spacing _ _ _ _ hsome | busy _ _ _ _ hsome => simp at hsome
  · cases hshows.fits with
    | closed hmode =>
        obtain ⟨mode, clock, lastEnd⟩ := wire
        obtain rfl : mode = .closed := hmode
        exact ⟨⟨.opening, now, lastEnd⟩, .single (.opens hshows.clock), { hshows with
          clock := Nat.le_refl now, fits := .opening rfl hdown request now rfl }⟩
    | shut hmode hdown hidle hclosing => simp at hclosing
    | ready hmode hup => simp [hdown] at hup
    | opening _ _ _ _ hsome | spacing _ _ _ _ hsome | busy _ _ _ _ hsome => simp at hsome

/-- The transport has opened, and the transaction goes on, or it has failed to and is closed. -/
theorem opened {since : Instant} {result : Except RequestError Unit} {progress : Progress}
    (hshows : link.Shows settings now closing (some ⟨request, .opening since⟩) wire)
    (hopened : link.opened now request result = (after, events, progress)) :
    ∃ next, wire.Takes settings now (.openEnds result.isOk :: signs events) next ∧
      after.Shows settings now closing (progress.transaction? request) next := by
  obtain ⟨mode, clock, lastEnd⟩ := wire
  obtain ⟨rfl, hdown⟩ : mode = .opening ∧ link.isOpen = false := by
    cases hshows.fits with
    | opening hmode hdown => exact ⟨hmode, hdown⟩
    | closed _ _ hidle | ready _ _ hidle | shut _ _ hidle => simp at hidle
    | spacing _ _ _ _ hsome | busy _ _ _ _ hsome => simp at hsome
  cases result with
  | error error =>
      obtain ⟨shown, cause, hresult, hsigns⟩ := opened_error now request error hdown
      obtain ⟨rfl, rfl, rfl⟩ : { link with state := .openFailed } = after ∧ shown = events ∧
          .finished (.error cause) = progress := by
        simpa using hresult.symm.trans hopened
      refine ⟨⟨.closed, now, lastEnd⟩, ?_, { hshows with
        clock := Nat.le_refl now, fits := .closed rfl hdown rfl }⟩
      rw [hsigns]
      exact .append (.single (.openEnds hshows.clock false)) (.single .closes)
  | ok _ =>
      obtain ⟨changing, hchanging, hresult⟩ := link.opened_ok now request
      rw [hresult] at hopened
      obtain ⟨rfl, rfl, rfl⟩ := hopened
      have hup : { link with isOpen := true, state := .opened }.Shows settings now closing none
          ⟨.ready, now, lastEnd⟩ := { hshows with
        clock := Nat.le_refl now, fits := .ready rfl rfl rfl }
      obtain ⟨next, htakes, hnext⟩ := hup.space rfl rfl rfl
      refine ⟨next, ?_, hnext⟩
      rw [signs_append, hchanging, List.nil_append]
      exact .append (.single (.openEnds hshows.clock true)) htakes

/-- The exchange has ended, and the transport is closed unless it may stay open. -/
theorem exchanged {since : Instant} {result : Except RequestError Response} {progress : Progress}
    (hshows : link.Shows settings now closing (some ⟨request, .exchanging since⟩) wire)
    (hexchanged : link.exchanged now request result = (after, events, progress)) :
    ∃ next,
      wire.Takes settings now (.ends (request.verdict result).isOk :: signs events) next ∧
        after.Shows settings now closing (progress.transaction? request) next := by
  obtain ⟨mode, clock, lastEnd⟩ := wire
  obtain ⟨rfl, hup⟩ : mode = .busy ∧ link.isOpen = true := by
    cases hshows.fits with
    | busy hmode hup => exact ⟨hmode, hup⟩
    | closed _ _ hidle | ready _ _ hidle | shut _ _ hidle => simp at hidle
    | opening _ _ _ _ hsome | spacing _ _ _ _ hsome => simp at hsome
  obtain ⟨shown, hresult, hsigns⟩ := link.exchanged_eq now request result
  rw [hexchanged] at hresult
  simp only [Prod.mk.injEq] at hresult
  obtain ⟨rfl, rfl, rfl⟩ := hresult
  have hends := @Wire.Step.ends settings clock now lastEnd hshows.clock
    (request.verdict result).isOk
  rw [hsigns, Link.signs_conclude, Link.conclude_fst]
  rw [← hshows.keepAlive] at hends
  cases hkept : (request.verdict result).isOk && link.keepAlive with
  | true =>
      rw [hkept] at hends
      exact ⟨_, .single hends, { hshows with
        clock := Nat.le_refl now, lastEnd := rfl, fits := .ready rfl hup rfl }⟩
  | false =>
      rw [hkept] at hends
      refine ⟨⟨.closed, now, some now⟩, ?_, ?_⟩
      · have hcloses : signs { link with lastExchangeEnd := some now }.close.2 = [.closes] := by
          rw [Link.signs_close, if_pos hup]
        simp only [Bool.false_eq_true, if_false, hcloses]
        exact .append (.single hends) (.single .closes)
      · constructor
        case clock => exact Nat.le_refl now
        case fits => exact .closed rfl (isOpen_close _) rfl
        all_goals simp [hshows.minInterval, hshows.keepAlive]

/-- The wait of a transaction ends. -/
theorem turn {transaction : Transaction} {action : Action} {progress : Progress}
    (hshows : link.Shows settings now closing (some transaction) wire)
    (hturn : link.Turn now transaction action (after, events, progress)) :
    ∃ next, wire.Takes settings now (transaction.heard action ++ signs events) next ∧
      after.Shows settings now closing (progress.transaction? transaction.request) next := by
  generalize houtcome : (after, events, progress) = outcome at hturn
  cases hturn with
  | @opens request since action result haction =>
      simp only [Transaction.heard, haction]
      exact hshows.opened houtcome.symm
  | @exchanges request since action result haction =>
      simp only [Transaction.heard, haction]
      exact hshows.exchanged houtcome.symm
  | @spaced request stop hdue =>
      obtain ⟨mode, clock, lastEnd⟩ := wire
      obtain ⟨rfl, hup, hnext⟩ :
          mode = .ready ∧ link.isOpen = true ∧ link.nextExchangeAt? = some stop := by
        cases hshows.fits with
        | spacing hmode hup request stop hsome hnext =>
            simp only [Option.some.injEq, Transaction.mk.injEq, Stage.spacing.injEq] at hsome
            exact ⟨hmode, hup, hsome.2 ▸ hnext⟩
        | closed _ _ hidle | ready _ _ hidle | shut _ _ hidle => simp at hidle
        | opening _ _ _ _ hsome | busy _ _ _ _ hsome => simp at hsome
      have hsigns := signs_beginExchange now request link
      rw [← houtcome] at hsigns
      simp only [beginExchange, Prod.mk.injEq] at houtcome
      obtain ⟨rfl, -, rfl⟩ := houtcome
      refine ⟨⟨.busy, now, lastEnd⟩, ?_, { hshows with
        clock := Nat.le_refl now, fits := .busy rfl hup request now rfl }⟩
      rw [hsigns]
      refine .single (.starts hshows.clock request fun last hlast => ?_)
      have hend : after.lastExchangeEnd = some last := hshows.lastEnd ▸ hlast
      simp only [nextExchangeAt?, hend, Option.map_some, Option.some.injEq] at hnext
      exact hshows.minInterval ▸ hnext ▸ hdue

/-- The link is closed for good. -/
theorem shutdown (hshows : link.Shows settings now true none wire) :
    ∃ next, wire.Takes settings now (signs link.shutdown.2) next ∧
      link.shutdown.1.Shows settings now true none next := by
  rw [signs_shutdown, signs_close, shutdown_fst]
  cases hshows.fits with
  | closed hmode hdown hidle =>
      rw [hdown, close_fst_of_down hdown]
      exact ⟨wire, .nil wire, { hshows with fits := .closed hmode hdown rfl }⟩
  | shut hmode hdown hidle =>
      rw [hdown, close_fst_of_down hdown]
      exact ⟨wire, .nil wire, { hshows with fits := .shut hmode hdown rfl rfl }⟩
  | ready hmode hup =>
      obtain ⟨mode, clock, lastEnd⟩ := wire
      obtain rfl : mode = .ready := hmode
      refine ⟨⟨.shut, now, lastEnd⟩, ?_, ?_⟩
      · rw [hup]
        exact .single (.shuts hshows.clock)
      · constructor
        case clock => exact Nat.le_refl now
        case lastEnd => exact hshows.lastEnd.trans (lastExchangeEnd_close link).symm
        case fits => exact .shut rfl (isOpen_close link) rfl rfl
        all_goals simp [hshows.minInterval, hshows.keepAlive]
  | opening _ _ _ _ hsome | spacing _ _ _ _ hsome | busy _ _ _ _ hsome => simp at hsome

/-- The warning that the link is about to be closed changes nothing. -/
theorem warn {warned : Bool} (hshows : link.Shows settings now closing transaction wire)
    (hwarned : closing = true → warned = true) :
    link.Shows settings now warned transaction wire where
  clock := hshows.clock
  lastEnd := hshows.lastEnd
  minInterval := hshows.minInterval
  keepAlive := hshows.keepAlive
  fits := by
    cases hshows.fits with
    | closed hmode hdown hidle => exact .closed hmode hdown hidle
    | opening hmode hdown request since hsome => exact .opening hmode hdown request since hsome
    | ready hmode hup hidle => exact .ready hmode hup hidle
    | spacing hmode hup request stop hsome hnext =>
        exact .spacing hmode hup request stop hsome hnext
    | busy hmode hup request since hsome => exact .busy hmode hup request since hsome
    | shut hmode hdown hidle hclosing => exact .shut hmode hdown hidle (hwarned hclosing)

/-- The link has not been closed for good as long as a transaction is under way. -/
theorem live (hshows : link.Shows settings now closing transaction wire)
    (hbusy : transaction ≠ none) : link.Shows settings now false transaction wire where
  clock := hshows.clock
  lastEnd := hshows.lastEnd
  minInterval := hshows.minInterval
  keepAlive := hshows.keepAlive
  fits := by
    cases hshows.fits with
    | opening hmode hdown request since hsome => exact .opening hmode hdown request since hsome
    | spacing hmode hup request stop hsome hnext =>
        exact .spacing hmode hup request stop hsome hnext
    | busy hmode hup request since hsome => exact .busy hmode hup request since hsome
    | closed _ _ hidle | ready _ _ hidle | shut _ _ hidle => exact absurd hidle hbusy

end Link.Shows

/-! ## Moves -/

def Traffic.Shows (settings : LinkSettings) (c : Traffic) (wire : Wire) : Prop :=
  c.link.Shows settings c.now c.closing c.transaction wire

/-- The end of an open or an exchange that an action brings. -/
def Traffic.heard (c : Traffic) (action : Action) : List Sign :=
  c.transaction.elim [] (·.heard action)

theorem Traffic.heard_eq_nil {action : Action} (haction : action.isAnswer = false) (c : Traffic) :
    c.heard action = [] := by
  cases htransaction : c.transaction with
  | none => simp [heard, htransaction]
  | some transaction =>
      obtain ⟨request, stage⟩ := transaction
      cases stage <;> cases action <;>
        simp [heard, htransaction, Transaction.heard, Action.openResult?, Action.exchangeResult?,
          Action.isAnswer] at haction ⊢

theorem Traffic.heard_of_none {c : Traffic} (hidle : c.transaction = none) (action : Action) :
    c.heard action = [] := by
  simp [heard, hidle]

theorem Traffic.heard_of_some {c : Traffic} {transaction : Transaction}
    (htransaction : c.transaction = some transaction) (action : Action) :
    c.heard action = transaction.heard action := by
  simp [heard, htransaction]

namespace Move

variable {settings : LinkSettings} {c after : Traffic} {action : Action} {events : List Event}
variable {wire : Wire}

/-- A move that says nothing leaves the wire as it is. -/
theorem takes_nothing (haction : action.isAnswer = false)
    (hsilent : signs events = []) (hafter : after.Shows settings wire) :
    ∃ next, wire.Takes settings c.now (c.heard action ++ signs events) next ∧
      after.Shows settings next := by
  rw [Traffic.heard_eq_nil haction, hsilent]
  exact ⟨wire, .nil wire, hafter⟩

/-- The wait of the transaction ends. -/
theorem takes_turn {transaction : Transaction} {link : Link} {more : List Event}
    {progress : Progress} (hshows : c.Shows settings wire)
    (htransaction : c.transaction = some transaction)
    (hturn : c.link.Turn c.now transaction action (link, events, progress))
    (hsilent : signs more = []) :
    ∃ next, wire.Takes settings c.now (c.heard action ++ signs (events ++ more)) next ∧
      link.Shows settings c.now c.closing (progress.transaction? transaction.request) next := by
  have hbusy : c.link.Shows settings c.now c.closing (some transaction) wire :=
    htransaction ▸ hshows
  rw [Traffic.heard_of_some htransaction, signs_append, hsilent, List.append_nil]
  exact hbusy.turn hturn

/-- A transaction begins. -/
theorem takes_begin {request : Request} {link : Link} {stage : Stage}
    (hshows : c.Shows settings wire) (hidle : c.transaction = none) (hopen : c.closing = false)
    (hbegin : c.link.begin c.now request = (link, events, .waiting stage)) :
    ∃ next, wire.Takes settings c.now (c.heard action ++ signs events) next ∧
      link.Shows settings c.now c.closing (some ⟨request, stage⟩) next := by
  have hready : c.link.Shows settings c.now false none wire := hidle ▸ hopen ▸ hshows
  obtain ⟨next, htakes, hnext⟩ := hready.begin hbegin
  rw [Traffic.heard_of_none hidle, List.nil_append]
  exact ⟨next, htakes, hnext.warn (by simp)⟩

/-- The link is closed for good. -/
theorem takes_shutdown {more : List Event} (hshows : c.Shows settings wire)
    (hidle : c.transaction = none) (hclosing : c.closing = true) (hsilent : signs more = []) :
    ∃ next, wire.Takes settings c.now (c.heard action ++ signs (c.link.shutdown.2 ++ more)) next ∧
      c.link.shutdown.1.Shows settings c.now c.closing c.transaction next := by
  have hready : c.link.Shows settings c.now true none wire := hidle ▸ hclosing ▸ hshows
  rw [Traffic.heard_of_none hidle, signs_append, hsilent, List.append_nil, hidle, hclosing]
  exact hready.shutdown

/-- Every move but the loss of a transaction keeps the wire in the state that the link takes it to
be in. -/
theorem shows (hmove : Move c action events after) (horderly : c.Orderly)
    (hkept : ∀ id job, action = .cancel id →
      Calls.phase? c.calls id ≠ some (.transacting job))
    (hshows : c.Shows settings wire) :
    ∃ next, wire.Takes settings c.now (c.heard action ++ signs events) next ∧
      after.Shows settings next := by
  cases hmove with
  | elapse duration =>
      exact takes_nothing rfl rfl { hshows with
        clock := Nat.le_trans hshows.clock (Nat.le_add_right _ _) }
  | stay haction hquiet =>
      exact takes_nothing (Action.isAnswer_of_isInternal haction) hquiet.signs_eq_nil hshows
  | stroll haction hphase hnext hquiet =>
      exact takes_nothing (Action.isAnswer_of_isInternal haction) hquiet.signs_eq_nil hshows
  | clear hphase hopen hrest hquiet | leaveLink hphase hheld hnext hquiet
  | enterSection hphase hheld hquiet =>
      exact takes_nothing rfl hquiet.signs_eq_nil { hshows with }
  | refuseAttempt hphase hheld hopen hjob hinvalid hquiet =>
      exact takes_nothing rfl hquiet.signs_eq_nil hshows
  | seekSetting haction hphase =>
      exact takes_nothing (Action.isAnswer_of_isInternal haction) rfl hshows
  | seekLink | refuse | startWrite | postClose | endSetting | announce | finish | callSeekLink
  | callLeaveLink | «return» => exact takes_nothing rfl rfl hshows
  | seekShutdown | callSeekShutdown =>
      exact takes_nothing rfl rfl (Link.Shows.warn hshows fun _ => rfl)
  | startPosting hnew hrequest hclosing =>
      exact takes_nothing rfl rfl (Link.Shows.warn hshows hclosing)
  | @cancel id phase hphase =>
      have hidle : phase.isTransacting = false := by
        cases phase <;> first | rfl | exact absurd hphase (hkept _ _ rfl)
      refine takes_nothing rfl rfl ?_
      simp only [hidle, Bool.false_eq_true, if_false]
      exact hshows
  | endScheduler hphase hheld hquiet =>
      have hidle := horderly.idle_of_scheduler hheld (by rw [hphase]; rfl)
      exact takes_shutdown hshows hidle (horderly.warned.1 hphase) hquiet.signs_eq_nil
  | callShutdown hphase hheld =>
      have hidle := horderly.idle_of_call hheld hphase rfl
      exact takes_shutdown hshows hidle (horderly.warned.2 _ hphase) rfl
  | poll hphase hheld hopen hread hbegin =>
      have hidle := horderly.idle_of_scheduler hheld (by rw [hphase]; rfl)
      exact takes_begin hshows hidle hopen hbegin
  | attempt hphase hheld hopen hjob hbegin =>
      have hidle := horderly.idle_of_call hheld hphase rfl
      exact takes_begin hshows hidle hopen hbegin
  | proceed htransaction hturn | store htransaction hphase hjob hturn
  | misfit htransaction hphase hturn =>
      have htakes := takes_turn hshows htransaction hturn (show signs [] = [] from rfl)
      rwa [List.append_nil] at htakes
  | endPoll htransaction hphase hturn hnext hquiet =>
      exact takes_turn hshows htransaction hturn hquiet.signs_eq_nil
  | fail htransaction hphase hjob hturn hfails hquiet =>
      exact takes_turn hshows htransaction hturn hquiet.signs_eq_nil
  | writeBack htransaction hphase hjob hfield hturn hencode hbegin =>
      have hlive : c.link.Shows settings c.now false (some _) wire :=
        htransaction ▸ Link.Shows.live hshows (by simp [htransaction])
      obtain ⟨middle, hread, hmiddle⟩ := hlive.turn hturn
      obtain ⟨next, hwrite, hnext⟩ := hmiddle.begin hbegin
      refine ⟨next, ?_, hnext.warn (by simp)⟩
      rw [Traffic.heard_of_some htransaction, signs_append, ← List.append_assoc]
      exact hread.append hwrite

end Move

/-- What a step shows on the wire. -/
def Transition.wire (transition : Transition) : List Entry :=
  (transition.before.traffic.heard transition.action ++ signs transition.events).map
    (Entry.mk transition.before.now)

namespace Connection

def wireLog (path : List Transition) : List Entry := path.flatMap Transition.wire

/-- No transaction is given up in the middle. -/
def Completes (path : List Transition) : Prop :=
  ∀ transition ∈ path, ∀ id job, transition.action = .cancel id →
    Calls.phase? transition.before.calls id ≠ some (.transacting job)

theorem completes_of_actions {path : List Transition}
    (hactions : ∀ id, Action.cancel id ∉ path.map (·.action)) : Completes path := by
  intro transition htransition id job hcancel
  exact absurd (hcancel ▸ List.mem_map_of_mem htransition) (hactions id)

variable {settings : LinkSettings} {start final : Connection} {path : List Transition}
variable {wire : Wire}

theorem Path.wire_run (hpath : Path start path final) (hcompletes : Completes path)
    (horderly : start.traffic.Orderly) (hshows : start.traffic.Shows settings wire) :
    ∃ next, Wire.Run settings wire (wireLog path) next ∧ final.traffic.Shows settings next := by
  induction hpath generalizing wire with
  | nil => exact ⟨wire, .nil wire, hshows⟩
  | cons hstep _ ih =>
      have hmove := move_of_step horderly hstep
      have hkept := hcompletes _ List.mem_cons_self
      obtain ⟨middle, hfirst, hmiddle⟩ := hmove.shows horderly hkept hshows
      have hrest := fun transition htransition =>
        hcompletes transition (List.mem_cons_of_mem _ htransition)
      obtain ⟨next, hmore, hnext⟩ := ih hrest (hmove.orderly horderly) hmiddle
      exact ⟨next, Wire.Run.append hfirst hmore, hnext⟩

theorem create_shows (settings : ConnectionSettings) (codec : ValueCodec)
    (declared : List Point) :
    (create settings codec declared).1.traffic.Shows settings.link {} where
  clock := Nat.le_refl 0
  lastEnd := rfl
  minInterval := rfl
  keepAlive := rfl
  fits := .closed rfl rfl rfl

/-- Whatever the scheduler and the calls do in whatever order, and however the transport behaves,
what a connection puts on the wire is disciplined. -/
theorem wireLog_disciplined {settings : ConnectionSettings} {codec : ValueCodec}
    {declared : List Point} (hpath : Path (create settings codec declared).1 path final)
    (hcompletes : Completes path) : Disciplined settings.link (wireLog path) := by
  obtain ⟨next, hrun, hnext⟩ := hpath.wire_run hcompletes
    (create_orderly settings codec declared) (create_shows settings codec declared)
  apply hrun.disciplined
  intro since hspent
  cases hnext.fits with
  | closed hmode | opening hmode | ready hmode | spacing hmode | busy hmode | shut hmode =>
      simp [hmode] at hspent

theorem sample_disciplined :
    (wireLog (sample.walk Action.pollAndWrite)).length = 6 ∧
      Completes (sample.walk Action.pollAndWrite) ∧
        Disciplined {} (wireLog (sample.walk Action.pollAndWrite)) := by
  have hpath := path_walk
    (show (sample.run Action.pollAndWrite).isSome = true by decide +kernel)
  have hcompletes : Completes (sample.walk Action.pollAndWrite) := by
    apply completes_of_actions
    simp [Action.pollAndWrite, walk, next]
  exact ⟨by decide +kernel, hcompletes, wireLog_disciplined hpath hcompletes⟩

end Connection

end Fieldbus

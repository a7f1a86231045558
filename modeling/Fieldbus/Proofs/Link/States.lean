import Fieldbus.Proofs.Link.Shutdown
import Mathlib.Data.List.Chain

/-!
# What observers know of a link

A link tells its observers of each change of its state.  Whatever the transport does, nobody hears
the same state twice in a row, and between two calls the last state that has been heard is the one
that the transport is in.
-/

namespace Fieldbus

/-- Whether the transport is open after a sign that changes it. -/
def Sign.connects? : Sign → Option Bool
  | openEnds success => some success
  | closes => some false
  | opens | starts _ | ends _ => none

/-- How an attempt to open the transport ends. -/
def Sign.attempt? : Sign → Option Bool
  | openEnds success => some success
  | opens | starts _ | ends _ | closes => none

def transportUp (log : List Sign) : Bool := ((log.filterMap Sign.connects?).getLast?).getD false

/-- How the most recent attempt to open the transport has ended. -/
def lastAttempt? (log : List Sign) : Option Bool := (log.filterMap Sign.attempt?).getLast?

section Transport

variable {log more : List Sign}

/-- Signs that do not change the transport. -/
theorem transportUp_append_neutral (hneutral : ∀ sign ∈ more, sign.connects? = none) :
    transportUp (log ++ more) = transportUp log := by
  rw [transportUp, List.filterMap_append, List.filterMap_eq_nil_iff.mpr hneutral,
    List.append_nil, transportUp]

theorem lastAttempt?_append_neutral (hneutral : ∀ sign ∈ more, sign.attempt? = none) :
    lastAttempt? (log ++ more) = lastAttempt? log := by
  rw [lastAttempt?, List.filterMap_append, List.filterMap_eq_nil_iff.mpr hneutral,
    List.append_nil, lastAttempt?]

end Transport

namespace Link

variable {link after : Link} {now : Instant} {request : Request} {events : List Event}
variable {log : List Sign} {states : List LinkState}

/-- The observers know the state of the link, and have never heard the same twice in a row.  At
first they take it to be closed. -/
structure Told (link : Link) (states : List LinkState) : Prop where
  distinct : (LinkState.closed :: states).IsChain (· ≠ ·)
  last : (LinkState.closed :: states).getLast? = some link.state

/-- The observers know a link, whose state is that of its transport. -/
structure Known (link : Link) (log : List Sign) (states : List LinkState) : Prop where
  told : link.Told states
  live : link.state ≠ .shutdown
  isOpen : link.isOpen = transportUp log
  opened : link.state = .opened ↔ link.isOpen = true
  failed : link.state = .openFailed ↔ lastAttempt? log = some false

theorem Told.changeState (htold : link.Told states) (state : LinkState) :
    (link.changeState state).1.Told (states ++ linkStates (link.changeState state).2) := by
  rw [Link.changeState]
  split
  · rw [show linkStates [] = [] from rfl, List.append_nil]
    exact htold
  · next hother =>
      have hheard : linkStates [.linkChanges state] = [state] := rfl
      rw [hheard]
      constructor
      · rw [← List.cons_append]
        apply htold.distinct.append (List.isChain_singleton state)
        intro last hlast first hfirst
        rw [htold.last] at hlast
        obtain rfl := Option.some.inj hlast
        obtain rfl := Option.some.inj hfirst
        exact hother
      · rw [← List.cons_append, List.getLast?_concat]

/-- Only the state of a link is told. -/
theorem Told.of_state (htold : link.Told states) (hstate : after.state = link.state) :
    after.Told states :=
  ⟨htold.distinct, hstate ▸ htold.last⟩

/-- A sign that does not change the transport is not told either. -/
theorem Known.append (hknown : link.Known log states) (more : List Sign)
    (hconnects : ∀ sign ∈ more, sign.connects? = none)
    (hattempt : ∀ sign ∈ more, sign.attempt? = none) (hevents : linkStates events = []) :
    link.Known (log ++ more) (states ++ linkStates events) where
  told := by
    rw [hevents, List.append_nil]
    exact hknown.told
  live := hknown.live
  isOpen := by rw [transportUp_append_neutral hconnects, hknown.isOpen]
  opened := hknown.opened
  failed := by rw [lastAttempt?_append_neutral hattempt, hknown.failed]

/-! ## Operations -/

/-- An operation of a link leaves its observers with all that there is to know. -/
def Informs (outcome : Link × List Event × Progress) (log : List Sign) (states : List LinkState) :
    Prop :=
  outcome.1.Known (log ++ signs outcome.2.1) (states ++ linkStates outcome.2.1)

/-- What is told first comes before what an operation tells. -/
theorem Informs.prepend {outcome : Link × List Event × Progress} {earlier : List Event}
    (hinforms : Informs outcome (log ++ signs earlier) (states ++ linkStates earlier)) :
    Informs (outcome.1, earlier ++ outcome.2.1, outcome.2.2) log states := by
  rw [Informs]
  dsimp only
  rw [signs_append, linkStates_append, ← List.append_assoc, ← List.append_assoc]
  exact hinforms

theorem Known.close (hknown : link.Known log states) :
    link.close.1.Known (log ++ signs link.close.2) (states ++ linkStates link.close.2) := by
  cases hopen : link.isOpen with
  | false =>
      rw [Link.close, hopen]
      exact hknown.append [] (by simp) (by simp) rfl
  | true =>
      have hopened : link.state = .opened := hknown.opened.mpr hopen
      have hfirst : ¬lastAttempt? log = some false := by
        rw [← hknown.failed, hopened]
        simp
      have htold : ({ link with isOpen := false } : Link).Told states :=
        hknown.told.of_state rfl
      rw [signs_close, hopen, if_pos rfl]
      simp only [Link.close, hopen, if_true]
      refine ⟨htold.changeState .closed, ?_, ?_, ?_, ?_⟩
      · simp [changeState_fst]
      · simp [changeState_fst, transportUp, Sign.connects?]
      · simp [changeState_fst]
      · rw [lastAttempt?_append_neutral (by simp [Sign.attempt?])]
        simp [changeState_fst, hfirst]

theorem Known.conclude (hknown : link.Known log states) (result : Except RequestError Response) :
    Informs (link.conclude result) log states := by
  cases result with
  | error error => exact hknown.close
  | ok response =>
      rw [Link.conclude, Informs]
      cases link.keepAlive with
      | false => exact hknown.close
      | true => exact hknown.append [] (by simp) (by simp) rfl

theorem Known.beginExchange (hknown : link.Known log states) (now : Instant)
    (request : Request) : Informs (link.beginExchange now request) log states := by
  have hevents : linkStates (link.beginExchange now request).2.1 = [] := by
    rw [Link.beginExchange]
    dsimp only
    split <;> rfl
  rw [Informs, signs_beginExchange]
  exact hknown.append [.starts request] (by simp [Sign.connects?]) (by simp [Sign.attempt?])
    hevents

theorem Known.space (hknown : link.Known log states) (now : Instant) (request : Request) :
    Informs (link.space now request) log states := by
  rw [Link.space]
  split
  · split
    · exact hknown.append [] (by simp) (by simp) rfl
    · exact hknown.beginExchange now request
  · exact hknown.beginExchange now request

theorem Known.begin (hknown : link.Known log states) (now : Instant) (request : Request) :
    Informs (link.begin now request) log states := by
  rw [Link.begin]
  split
  · exact hknown.append [] (by simp) (by simp) rfl
  · split
    · exact hknown.space now request
    · exact hknown.append [.opens] (by simp [Sign.connects?]) (by simp [Sign.attempt?]) rfl

theorem Known.opened_ok (hknown : link.Known log states) (now : Instant) (request : Request) :
    Informs (link.opened now request (.ok ())) (log ++ [.openEnds true]) states := by
  have hup : ({ link with isOpen := true } : Link).Told states := hknown.told.of_state rfl
  have hopened : ({ link with isOpen := true }.changeState .opened).1.Known
      (log ++ [Sign.openEnds true] ++ signs ({ link with isOpen := true }.changeState .opened).2)
        (states ++ linkStates ({ link with isOpen := true }.changeState .opened).2) := by
    rw [signs_changeState, List.append_nil]
    refine ⟨hup.changeState .opened, ?_, ?_, ?_, ?_⟩
    all_goals simp [changeState_fst, transportUp, Sign.connects?, lastAttempt?, Sign.attempt?]
  exact (hopened.space now request).prepend

theorem Known.opened_error (hknown : link.Known log states) (hdown : link.isOpen = false)
    (now : Instant) (request : Request) (error : RequestError) :
    Informs (link.opened now request (.error error)) (log ++ [.openEnds false]) states := by
  have hfailed : (link.changeState .openFailed).1.Known (log ++ [Sign.openEnds false] ++ [.closes])
      (states ++ linkStates (link.changeState .openFailed).2) := by
    refine ⟨hknown.told.changeState .openFailed, ?_, ?_, ?_, ?_⟩
    · simp [changeState_fst]
    · simp [changeState_fst, hdown, transportUp, Sign.connects?]
    · simp [changeState_fst, hdown]
    · rw [lastAttempt?_append_neutral (by simp [Sign.attempt?])]
      simp [changeState_fst, lastAttempt?, Sign.attempt?]
  obtain ⟨cause, noticing, hquiet, hresult⟩ := link.opened_failed now request error
  have hsigns : signs (.transportCloses :: (link.changeState .openFailed).2 ++ noticing) =
      [.closes] := by
    rw [signs_append, hquiet.signs_eq_nil, List.append_nil, ← List.singleton_append,
      signs_append, signs_changeState]
    rfl
  have hstates : linkStates (.transportCloses :: (link.changeState .openFailed).2 ++ noticing) =
      linkStates (link.changeState .openFailed).2 := by
    rw [linkStates_append, hquiet.linkStates_eq_nil, List.append_nil]
    rfl
  have hended := hfailed.conclude (.error cause)
  rw [← hsigns, ← hstates] at hended
  rw [hresult, ← conclude_progress (.error cause) (link.changeState .openFailed).1]
  exact hended.prepend

/-- The end of an exchange alone changes nothing. -/
theorem Known.exchanged (hknown : link.Known log states) (now : Instant) (request : Request)
    (result : Except RequestError Response) (success : Bool) :
    Informs (link.exchanged now request result) (log ++ [.ends success]) states := by
  have hended : ({ link with lastExchangeEnd := some now } : Link).Known
      (log ++ [Sign.ends success]) states := by
    have hneutral : link.Known (log ++ [Sign.ends success]) (states ++ linkStates []) :=
      hknown.append [.ends success] (by simp [Sign.connects?]) (by simp [Sign.attempt?]) rfl
    rw [show linkStates [] = [] from rfl, List.append_nil] at hneutral
    exact { hneutral with told := hneutral.told.of_state rfl }
  rw [Link.exchanged]
  dsimp only
  split
  · next response _ =>
      apply Informs.prepend
      split
      all_goals exact (hended.append [] (by simp) (by simp) rfl).conclude (.ok response)
  · next error _ => exact hended.conclude (.error error)

/-- Whatever answer a link has waited for. -/
theorem Known.turn (hknown : link.Known log states) {transaction : Transaction}
    {action : Action} {outcome : Link × List Event × Progress}
    (hturn : link.Turn now transaction action outcome)
    (hdown : ∀ since, transaction.stage = .opening since → link.isOpen = false) :
    Informs outcome (log ++ transaction.heard action) states := by
  cases hturn with
  | @opens request since action result haction =>
      have hheard : Transaction.heard ⟨request, .opening since⟩ action =
          [.openEnds result.isOk] := by
        simp [Transaction.heard, haction]
      rw [hheard]
      cases result with
      | ok _ => exact hknown.opened_ok now request
      | error error => exact hknown.opened_error (hdown since rfl) now request error
  | @spaced request stop hdue =>
      rw [Transaction.heard, List.append_nil]
      exact hknown.beginExchange now request
  | @exchanges request since action result haction =>
      have hheard : Transaction.heard ⟨request, .exchanging since⟩ action =
          [.ends (request.verdict result).isOk] := by
        simp [Transaction.heard, haction]
      rw [hheard]
      exact hknown.exchanged now request result _

theorem space_stage {stage : Stage}
    (hspace : link.space now request = (after, events, .waiting stage)) (since : Instant) :
    stage ≠ .opening since := by
  rcases link.space_cases now request with ⟨stop, -, hresult⟩ | ⟨sent, hresult, -, -⟩
  · rw [hresult] at hspace
    simp only [Prod.mk.injEq, Progress.waiting.injEq] at hspace
    simp [← hspace.2.2]
  · rw [hresult] at hspace
    simp only [Prod.mk.injEq, Progress.waiting.injEq] at hspace
    simp [← hspace.2.2]

/-- A link opens its transport only at the beginning of a transaction, and only if it is closed. -/
theorem isOpen_of_begin {since : Instant}
    (hbegin : link.begin now request = (after, events, .waiting (.opening since))) :
    after.isOpen = false := by
  rcases begin_waiting hbegin with ⟨-, hspace⟩ | ⟨hdown, rfl, -, -⟩
  · exact absurd rfl (space_stage hspace since)
  · exact hdown

theorem Turn.not_opening {transaction : Transaction} {action : Action} {next : Stage}
    (hturn : link.Turn now transaction action (after, events, .waiting next)) (since : Instant) :
    next ≠ .opening since := by
  generalize houtcome : (after, events, Progress.waiting next) = outcome at hturn
  cases hturn with
  | @opens request _ action result haction =>
      cases result with
      | error error =>
          obtain ⟨cause, noticing, -, hresult⟩ := link.opened_failed now request error
          simp [hresult] at houtcome
      | ok _ =>
          obtain ⟨changing, -, hresult⟩ := link.opened_ok now request
          simp only [hresult, Prod.mk.injEq] at houtcome
          exact space_stage (Prod.ext rfl (Prod.ext rfl houtcome.2.2.symm)) since
  | @spaced request stop hdue =>
      simp only [beginExchange, Prod.mk.injEq, Progress.waiting.injEq] at houtcome
      simp [houtcome.2.2]
  | @exchanges request _ action result haction =>
      obtain ⟨shown, hresult, -⟩ := link.exchanged_eq now request result
      simp [hresult] at houtcome

/-! ## Calls -/

/-- A transaction that waits goes on with the answers of its transport until it ends. -/
inductive Continues (request : Request) :
    Link → Stage → Link → List Sign → List LinkState → Prop
  | ends {link after : Link} {now : Instant} {stage : Stage} {action : Action}
      {events : List Event} {result : Except RequestError Response}
      (hturn : link.Turn now ⟨request, stage⟩ action (after, events, .finished result)) :
      Continues request link stage after
        (Transaction.heard ⟨request, stage⟩ action ++ signs events) (linkStates events)
  | waits {link middle after : Link} {now : Instant} {stage next : Stage} {action : Action}
      {events : List Event} {log : List Sign} {states : List LinkState}
      (hturn : link.Turn now ⟨request, stage⟩ action (middle, events, .waiting next))
      (hrest : Continues request middle next after log states) :
      Continues request link stage after
        (Transaction.heard ⟨request, stage⟩ action ++ signs events ++ log)
        (linkStates events ++ states)

/-- A call runs one transaction from its beginning to its end. -/
inductive Transacts (request : Request) (link : Link) :
    Link → List Sign → List LinkState → Prop
  | ends {after : Link} {now : Instant} {events : List Event}
      {result : Except RequestError Response}
      (hbegin : link.begin now request = (after, events, .finished result)) :
      Transacts request link after (signs events) (linkStates events)
  | waits {middle after : Link} {now : Instant} {stage : Stage} {events : List Event}
      {log : List Sign} {states : List LinkState}
      (hbegin : link.begin now request = (middle, events, .waiting stage))
      (hrest : Continues request middle stage after log states) :
      Transacts request link after (signs events ++ log) (linkStates events ++ states)

/-- A link that is called again and again, with what has passed between it and its transport and
with what its observers have heard. -/
inductive Serves (start : Link) : Link → List Sign → List LinkState → Prop
  | nil : Serves start start [] []
  | call {link after : Link} {request : Request} {log more : List Sign}
      {states heard : List LinkState} (hserves : Serves start link log states)
      (hcall : Transacts request link after more heard) :
      Serves start after (log ++ more) (states ++ heard)

theorem Continues.known {stage : Stage} {more : List Sign} {heard : List LinkState}
    (hcontinues : Continues request link stage after more heard)
    (hknown : link.Known log states)
    (hdown : ∀ since, stage = .opening since → link.isOpen = false) :
    after.Known (log ++ more) (states ++ heard) := by
  induction hcontinues generalizing log states with
  | ends hturn =>
      rw [← List.append_assoc]
      exact hknown.turn hturn hdown
  | @waits link middle after now stage next action events more heard hturn hrest ih =>
      have hmiddle : middle.Known (log ++ Transaction.heard ⟨request, stage⟩ action ++ signs events)
          (states ++ linkStates events) := hknown.turn hturn hdown
      rw [← List.append_assoc, ← List.append_assoc, ← List.append_assoc]
      exact ih hmiddle fun since hstage => absurd hstage (hturn.not_opening since)

theorem Transacts.known {more : List Sign} {heard : List LinkState}
    (htransacts : Transacts request link after more heard) (hknown : link.Known log states) :
    after.Known (log ++ more) (states ++ heard) := by
  cases htransacts with
  | @ends _ now events result hbegin =>
      have hended := hknown.begin now request
      rwa [hbegin] at hended
  | @waits middle _ now stage events more heard hbegin hrest =>
      have hmiddle := hknown.begin now request
      rw [hbegin] at hmiddle
      rw [← List.append_assoc, ← List.append_assoc]
      apply hrest.known hmiddle
      rintro since rfl
      exact isOpen_of_begin hbegin

theorem known_ofSettings (settings : LinkSettings) (decode : DecodeLevel) :
    (ofSettings settings decode).Known [] [] where
  told := ⟨List.isChain_singleton _, rfl⟩
  live := by simp [ofSettings]
  isOpen := rfl
  opened := by simp [ofSettings]
  failed := by simp [ofSettings, lastAttempt?]

theorem Serves.known {settings : LinkSettings} {decode : DecodeLevel}
    (hserves : Serves (ofSettings settings decode) link log states) : link.Known log states := by
  induction hserves with
  | nil => exact known_ofSettings settings decode
  | call hserves hcall ih => exact hcall.known ih

/-- What the observers of a link have heard between two calls, and what they hear if the link is
shut down then.  They take the link to be closed at first. -/
structure Tells (link : Link) (log : List Sign) (states : List LinkState) : Prop where
  /-- Nobody hears the same state twice in a row. -/
  distinct : (LinkState.closed :: states).IsChain (· ≠ ·)
  /-- The last state tells whether the transport is open, -/
  opened_iff : (LinkState.closed :: states).getLast? = some .opened ↔ transportUp log = true
  /-- whether it could not be opened the last time, -/
  openFailed_iff : (LinkState.closed :: states).getLast? = some .openFailed ↔
    lastAttempt? log = some false
  /-- or that it is neither. -/
  closed_iff : (LinkState.closed :: states).getLast? = some .closed ↔
    transportUp log = false ∧ lastAttempt? log ≠ some false
  shutdown_distinct :
    (LinkState.closed :: (states ++ linkStates link.shutdown.2)).IsChain (· ≠ ·)
  /-- The last that is heard of a link is that it is shut down. -/
  shutdown_last : (states ++ linkStates link.shutdown.2).getLast? = some .shutdown
  shutdown_down : transportUp (log ++ signs link.shutdown.2) = false

theorem Known.tells (hknown : link.Known log states) : link.Tells log states where
  distinct := hknown.told.distinct
  opened_iff := by
    rw [hknown.told.last, Option.some.injEq, hknown.opened, hknown.isOpen]
  openFailed_iff := by rw [hknown.told.last, Option.some.injEq, hknown.failed]
  closed_iff := by
    rw [hknown.told.last, Option.some.injEq, ← hknown.isOpen, ne_eq, ← hknown.failed,
      ← Bool.not_eq_true, ← hknown.opened]
    have hlive := hknown.live
    cases hstate : link.state with
    | closed | opened | openFailed => simp
    | shutdown => exact absurd hstate hlive
  shutdown_distinct := by
    have hshut := (hknown.close.told.changeState .shutdown).distinct
    rwa [List.append_assoc, ← linkStates_append] at hshut
  shutdown_last := by
    obtain ⟨before, hheard, -⟩ := linkStates_shutdown hknown.live
    rw [hheard, ← List.append_assoc, List.getLast?_concat]
  shutdown_down := by
    rw [signs_shutdown, ← hknown.close.isOpen, isOpen_close]

/-- Whatever calls are made and however the transport answers them, the observers of a link know
its transport. -/
theorem tells_of_serves {settings : LinkSettings} {decode : DecodeLevel}
    (hserves : Serves (ofSettings settings decode) link log states) : link.Tells log states :=
  hserves.known.tells

/-- The read of one register. -/
def sampleCall : Request := .read ⟨⟨1⟩, .holdingRegister, ⟨10, 1⟩⟩

def sampleFresh : Link := ofSettings {} {}

/-- The transport has been refused once. -/
def sampleRefused : Link := { sampleFresh with state := .openFailed }

def sampleUp : Link := { sampleFresh with isOpen := true, state := .opened }

/-- The answer of the next exchange has been lost. -/
def sampleLost : Link := { sampleFresh with lastExchangeEnd := some 2 }

theorem transacts_refused :
    Transacts sampleCall sampleFresh sampleRefused [.opens, .openEnds false, .closes]
      [.openFailed] := by
  have hbegin : sampleFresh.begin 0 sampleCall =
      (sampleFresh, [.transportOpens], .waiting (.opening 0)) := rfl
  have haction : Action.openResult? (.openDone (.error (.openFailed .connectionRefused))) =
      some (.error (.openFailed .connectionRefused)) := rfl
  have hturn : sampleFresh.Turn 0 ⟨sampleCall, .opening 0⟩
      (.openDone (.error (.openFailed .connectionRefused)))
        (sampleRefused, [.transportCloses, .linkChanges .openFailed,
          .noticed (.transactionFailed (.openFailed .connectionRefused))],
            .finished (.error (.openFailed .connectionRefused))) :=
    .opens haction
  exact .waits hbegin (.ends hturn)

theorem transacts_lost :
    Transacts sampleCall sampleRefused sampleLost
      [.opens, .openEnds true, .starts sampleCall, .ends false, .closes] [.opened, .closed] := by
  have hbegin : sampleRefused.begin 1 sampleCall =
      (sampleRefused, [.transportOpens], .waiting (.opening 1)) := rfl
  have hopenDone : Action.openResult? (.openDone (.ok ())) = some (.ok ()) := rfl
  have hopened : sampleRefused.Turn 1 ⟨sampleCall, .opening 1⟩ (.openDone (.ok ()))
      (sampleUp, [.linkChanges .opened, .exchangeStarts sampleCall],
        .waiting (.exchanging 1)) :=
    .opens hopenDone
  have hexchangeDone : Action.exchangeResult? (.exchangeDone (.error .responseTimeout)) =
      some (.error .responseTimeout) := rfl
  have hlost : sampleUp.Turn 2 ⟨sampleCall, .exchanging 1⟩
      (.exchangeDone (.error .responseTimeout))
        (sampleLost, [.noticed (.transactionFailed .responseTimeout), .transportCloses,
          .linkChanges .closed], .finished (.error .responseTimeout)) :=
    .exchanges hexchangeDone
  exact .waits hbegin (.waits hopened (.ends hlost))

theorem serves_refused_then_lost :
    Serves sampleFresh sampleLost
      [.opens, .openEnds false, .closes, .opens, .openEnds true, .starts sampleCall, .ends false,
        .closes]
      [.openFailed, .opened, .closed] :=
  .call (.call .nil transacts_refused) transacts_lost

/-- The observers hear of a failure, then of a success, and that the link has been closed. -/
theorem tells_refused_then_lost :
    sampleLost.Tells
      [.opens, .openEnds false, .closes, .opens, .openEnds true, .starts sampleCall, .ends false,
        .closes]
      [.openFailed, .opened, .closed] :=
  tells_of_serves serves_refused_then_lost

end Link

end Fieldbus

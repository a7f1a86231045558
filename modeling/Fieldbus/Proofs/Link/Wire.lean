import Fieldbus.Proofs.Run.Traffic
import Mathlib.Data.List.Basic

/-!
# The wire

What passes between a link and its transport: the calls to the transport, which a connection shows
as events, and the ends of those that take time, which come back to it as actions.  Here stands
what each operation of a link puts on the wire.
-/

namespace Fieldbus

inductive Sign where
  | opens
  | openEnds (success : Bool)
  | starts (request : Request)
  /-- The exchange is over.  It is a success if the response has been accepted as well. -/
  | ends (success : Bool)
  | closes

def Event.sign? : Event → Option Sign
  | transportOpens => some .opens
  | exchangeStarts request => some (.starts request)
  | transportCloses => some .closes
  | _ => none

def signs (events : List Event) : List Sign := events.filterMap Event.sign?

/-- What a transaction makes of the end of its exchange. -/
def Request.verdict (request : Request) (result : Except RequestError Response) :
    Except RequestError Response := do
  match (← result).check request with
  | .ok response => return response
  | .error error => throw (.badResponse error)

/-- The end of an open or an exchange that an action brings to a transaction. -/
def Transaction.heard (transaction : Transaction) (action : Action) : List Sign :=
  match transaction.stage with
  | .opening _ => (action.openResult?.map fun result => .openEnds result.isOk).toList
  | .spacing _ => []
  | .exchanging _ =>
    (action.exchangeResult?.map fun result =>
      .ends (transaction.request.verdict result).isOk).toList

theorem signs_append (events more : List Event) :
    signs (events ++ more) = signs events ++ signs more :=
  List.filterMap_append

theorem Quiet.signs_eq_nil {events : List Event} (hquiet : Quiet events) : signs events = [] := by
  apply List.filterMap_eq_nil_iff.mpr
  intro event hevent
  have hsilent := hquiet event hevent
  cases event <;> first | rfl | simp [Event.isQuiet] at hsilent

def Event.started? : Event → Option Request
  | exchangeStarts request => some request
  | _ => none

/-- The requests whose exchanges start. -/
def started (events : List Event) : List Request := events.filterMap Event.started?

def Sign.started? : Sign → Option Request
  | starts request => some request
  | _ => none

/-- The exchange that starts on the way to a stage. -/
def Progress.started (request : Request) : Progress → List Request
  | waiting (.exchanging _) => [request]
  | waiting (.opening _) | waiting (.spacing _) | finished _ => []

theorem started_append (events more : List Event) :
    started (events ++ more) = started events ++ started more :=
  List.filterMap_append

theorem started_eq (events : List Event) :
    started events = (signs events).filterMap Sign.started? := by
  rw [started, signs, List.filterMap_filterMap]
  congr 1
  funext event
  cases event <;> rfl

theorem Quiet.started_eq_nil {events : List Event} (hquiet : Quiet events) :
    started events = [] := by
  rw [started_eq, hquiet.signs_eq_nil]
  rfl

namespace Link

variable {link after : Link} {now : Instant} {request : Request} {events : List Event}

theorem changeState_fst (state : LinkState) (link : Link) :
    (link.changeState state).1 = { link with state } := by
  rw [changeState]
  split
  · next hsame => rw [← hsame]
  · rfl

theorem signs_changeState (state : LinkState) (link : Link) :
    signs (link.changeState state).2 = [] := by
  rw [changeState]
  split <;> rfl

theorem close_fst_of_down (hdown : link.isOpen = false) : link.close.1 = link := by
  rw [close, hdown]
  rfl

@[simp] theorem isOpen_close (link : Link) : link.close.1.isOpen = false := by
  rw [close]
  split
  · rw [changeState_fst]
  · next hclosed => exact (Bool.not_eq_true _).mp hclosed

@[simp] theorem lastExchangeEnd_close (link : Link) :
    link.close.1.lastExchangeEnd = link.lastExchangeEnd := by
  rw [close]
  split
  · rw [changeState_fst]
  · rfl

@[simp] theorem minInterval_close (link : Link) :
    link.close.1.minInterval = link.minInterval := by
  rw [close]
  split
  · rw [changeState_fst]
  · rfl

@[simp] theorem keepAlive_close (link : Link) : link.close.1.keepAlive = link.keepAlive := by
  rw [close]
  split
  · rw [changeState_fst]
  · rfl

theorem signs_close (link : Link) :
    signs link.close.2 = if link.isOpen then [.closes] else [] := by
  rw [close]
  split
  · next hopen =>
      have hchange := signs_changeState .closed { link with isOpen := false }
      simpa [signs, Event.sign?] using hchange
  · rfl

theorem shutdown_fst (link : Link) :
    link.shutdown.1 = { link.close.1 with state := .shutdown } := by
  simp only [shutdown, changeState_fst]

theorem signs_shutdown (link : Link) : signs link.shutdown.2 = signs link.close.2 := by
  simp only [shutdown, signs_append, signs_changeState, List.append_nil]

theorem signs_beginExchange (now : Instant) (request : Request) (link : Link) :
    signs (link.beginExchange now request).2.1 = [.starts request] := by
  simp only [beginExchange, signs_append]
  split <;> rfl

/-! ## The end of a transaction -/

/-- The transport stays open after a success, if it is to be kept. -/
theorem conclude_fst (result : Except RequestError Response) (link : Link) :
    (link.conclude result).1 = if result.isOk && link.keepAlive then link else link.close.1 := by
  cases result with
  | error error => rfl
  | ok response =>
      cases hkeep : link.keepAlive <;> simp [conclude, hkeep, Except.isOk, Except.toBool]

theorem conclude_progress (result : Except RequestError Response) (link : Link) :
    (link.conclude result).2.2 = .finished result := by
  cases result <;> rfl

theorem signs_conclude (result : Except RequestError Response) (link : Link) :
    signs (link.conclude result).2.1 =
      if result.isOk && link.keepAlive then [] else signs link.close.2 := by
  cases result with
  | error error => rfl
  | ok response =>
      cases hkeep : link.keepAlive <;>
        simp [conclude, hkeep, Except.isOk, Except.toBool, signs]

/-- The end of an exchange is the end of its transaction. -/
theorem exchanged_eq (now : Instant) (request : Request) (result : Except RequestError Response)
    (link : Link) :
    ∃ events, link.exchanged now request result =
        (({ link with lastExchangeEnd := some now }.conclude (request.verdict result)).1, events,
          .finished (request.verdict result)) ∧
      signs events = signs
        ({ link with lastExchangeEnd := some now }.conclude (request.verdict result)).2.1 := by
  rw [exchanged, Request.verdict]
  cases result with
  | error error => exact ⟨_, rfl, rfl⟩
  | ok answer =>
      dsimp only [bind, Except.bind]
      cases answer.check request with
      | error error => exact ⟨_, rfl, rfl⟩
      | ok response =>
          refine ⟨_, rfl, ?_⟩
          rw [signs_append]
          split <;> rfl

theorem opened_failed (now : Instant) (request : Request) (error : RequestError)
    (link : Link) :
    ∃ cause noticing, Quiet noticing ∧
      link.opened now request (.error error) =
        let failed := link.changeState .openFailed
        ((failed.1.conclude (.error cause)).1,
          .transportCloses :: failed.2 ++ noticing ++ (failed.1.conclude (.error cause)).2.1,
          .finished (.error cause)) := by
  cases hfailure : error.isOpenFailure with
  | true => exact ⟨error, [], .nil, by simp [opened, hfailure, conclude_progress]⟩
  | false =>
      exact ⟨.openFailed .other, [.noticed (.strangeOpenError error)], .noticed _, by
        simp [opened, hfailure, conclude_progress]⟩

/-- A transport that failed to open is closed. -/
theorem opened_error (now : Instant) (request : Request) (error : RequestError)
    (hdown : link.isOpen = false) :
    ∃ events cause, link.opened now request (.error error) =
        ({ link with state := .openFailed }, events, .finished (.error cause)) ∧
      signs events = [.closes] := by
  obtain ⟨cause, noticing, hquiet, hresult⟩ := link.opened_failed now request error
  have hfailed : (link.changeState .openFailed).1.isOpen = false := by
    rw [changeState_fst]
    exact hdown
  refine ⟨.transportCloses :: (link.changeState .openFailed).2 ++ noticing ++
    ((link.changeState .openFailed).1.conclude (.error cause)).2.1, cause, ?_, ?_⟩
  · have hconclude : ((link.changeState .openFailed).1.conclude (.error cause)).1 =
        { link with state := .openFailed } := by
      rw [← changeState_fst, conclude_fst]
      exact close_fst_of_down hfailed
    rw [hresult]
    simp only [hconclude]
  · rw [signs_append, signs_append, hquiet.signs_eq_nil, signs_conclude]
    simp only [Except.isOk, Except.toBool, Bool.false_and, Bool.false_eq_true, if_false,
      signs_close, hfailed, List.append_nil]
    rw [← List.singleton_append, signs_append, signs_changeState]
    rfl

/-- The link waits for its minimum interval, or the exchange starts. -/
theorem space_cases (now : Instant) (request : Request) (link : Link) :
    (∃ stop, link.nextExchangeAt? = some stop ∧
        link.space now request = (link, [], .waiting (.spacing stop))) ∨
      ∃ events, link.space now request = (link, events, .waiting (.exchanging now)) ∧
        signs events = [.starts request] ∧
          ∀ next, link.nextExchangeAt? = some next → next ≤ now := by
  have hsigns := signs_beginExchange now request link
  simp only [space]
  cases hnext : link.nextExchangeAt? with
  | none => exact .inr ⟨_, rfl, hsigns, by simp⟩
  | some next =>
      dsimp only
      split
      · exact .inl ⟨next, rfl, rfl⟩
      · next hdue =>
          refine .inr ⟨_, rfl, hsigns, fun other hother => ?_⟩
          rw [← Option.some.inj hother]
          exact Nat.le_of_not_lt hdue

theorem opened_ok (now : Instant) (request : Request) (link : Link) :
    ∃ changing, signs changing = [] ∧
      link.opened now request (.ok ()) =
        let opened := { link with isOpen := true, state := .opened }
        ((opened.space now request).1, changing ++ (opened.space now request).2.1,
          (opened.space now request).2.2) := by
  refine ⟨({ link with isOpen := true }.changeState .opened).2, signs_changeState .opened _, ?_⟩
  simp only [opened, changeState_fst]

theorem begin_waiting {stage : Stage}
    (hbegin : link.begin now request = (after, events, .waiting stage)) :
    link.isOpen = true ∧ link.space now request = (after, events, .waiting stage) ∨
      link.isOpen = false ∧ after = link ∧ events = [.transportOpens] ∧ stage = .opening now := by
  simp only [begin] at hbegin
  split at hbegin
  · simp at hbegin
  · split at hbegin
    · next hopen => exact .inl ⟨hopen, hbegin⟩
    · next hclosed =>
        simp only [Prod.mk.injEq, Progress.waiting.injEq] at hbegin
        obtain ⟨rfl, rfl, rfl⟩ := hbegin
        exact .inr ⟨(Bool.not_eq_true _).mp hclosed, rfl, rfl, rfl⟩

/-! ## Starts of exchanges -/

theorem started_close (link : Link) : started link.close.2 = [] := by
  rw [started_eq, signs_close]
  split <;> rfl

theorem started_shutdown (link : Link) : started link.shutdown.2 = [] := by
  rw [started_eq, signs_shutdown, ← started_eq, started_close]

theorem started_conclude (result : Except RequestError Response) (link : Link) :
    started (link.conclude result).2.1 = [] := by
  rw [started_eq, signs_conclude]
  split
  · rfl
  · rw [← started_eq, started_close]

theorem started_space (now : Instant) (request : Request) (link : Link) :
    started (link.space now request).2.1 = (link.space now request).2.2.started request := by
  rcases link.space_cases now request with ⟨stop, -, hresult⟩ | ⟨sent, hresult, hsigns, -⟩
  · rw [hresult]
    rfl
  · rw [hresult, started_eq, hsigns]
    rfl

theorem started_begin {stage : Stage}
    (hbegin : link.begin now request = (after, events, .waiting stage)) :
    started events = (Progress.waiting stage).started request := by
  rcases begin_waiting hbegin with ⟨-, hspace⟩ | ⟨-, -, rfl, rfl⟩
  · have hstarted := started_space now request link
    rwa [hspace] at hstarted
  · rfl

theorem started_opened (now : Instant) (request : Request) (result : Except RequestError Unit)
    (link : Link) :
    started (link.opened now request result).2.1 =
      (link.opened now request result).2.2.started request := by
  cases result with
  | error error =>
      obtain ⟨cause, noticing, hquiet, hresult⟩ := link.opened_failed now request error
      have hchange : started (link.changeState .openFailed).2 = [] := by
        rw [started_eq, signs_changeState]
        rfl
      rw [hresult]
      dsimp only
      rw [started_append, started_append, hquiet.started_eq_nil, started_conclude,
        ← List.singleton_append, started_append, hchange]
      rfl
  | ok _ =>
      obtain ⟨changing, hchanging, hresult⟩ := link.opened_ok now request
      have hsilent : started changing = [] := by
        rw [started_eq, hchanging]
        rfl
      simp only [hresult, started_append, hsilent, List.nil_append]
      exact started_space now request _

/-- The end of a wait starts an exchange exactly if it leads to the stage of one. -/
theorem Turn.started_eq {transaction : Transaction} {action : Action} {progress : Progress}
    (hturn : link.Turn now transaction action (after, events, progress)) :
    started events = progress.started transaction.request := by
  generalize houtcome : (after, events, progress) = outcome at hturn
  cases hturn with
  | @opens request since action result haction =>
      have hstarted := started_opened now request result link
      rwa [← houtcome] at hstarted
  | @spaced request stop hdue =>
      have hsigns := signs_beginExchange now request link
      simp only [beginExchange, Prod.mk.injEq] at houtcome
      obtain ⟨-, hevents, rfl⟩ := houtcome
      rw [Fieldbus.started_eq, hevents]
      exact congrArg _ hsigns
  | @exchanges request since action result haction =>
      obtain ⟨shown, hresult, hsigns⟩ := link.exchanged_eq now request result
      rw [hresult] at houtcome
      simp only [Prod.mk.injEq] at houtcome
      obtain ⟨-, rfl, rfl⟩ := houtcome
      rw [Fieldbus.started_eq, hsigns, ← Fieldbus.started_eq, started_conclude]
      rfl

/-- A transaction that ends has failed to open, or its exchange has ended with the verdict. -/
theorem Turn.finished {transaction : Transaction} {action : Action}
    {result : Except RequestError Response}
    (hturn : link.Turn now transaction action (after, events, .finished result)) :
    (∃ since failure error, transaction.stage = .opening since ∧
        action.openResult? = some (.error failure) ∧ result = .error error) ∨
      ∃ since answer, transaction.stage = .exchanging since ∧
        action.exchangeResult? = some answer ∧ result = transaction.request.verdict answer := by
  generalize houtcome : (after, events, Progress.finished result) = outcome at hturn
  cases hturn with
  | @opens request since action opened haction =>
      cases opened with
      | error error =>
          obtain ⟨cause, noticing, -, hresult⟩ := link.opened_failed now request error
          rw [hresult] at houtcome
          simp only [Prod.mk.injEq, Progress.finished.injEq] at houtcome
          exact .inl ⟨since, error, cause, rfl, haction, houtcome.2.2⟩
      | ok _ =>
          obtain ⟨changing, -, hresult⟩ := link.opened_ok now request
          rw [hresult] at houtcome
          simp only [Prod.mk.injEq] at houtcome
          rcases space_cases now request { link with isOpen := true, state := .opened } with
            ⟨stop, -, hspace⟩ | ⟨sent, hspace, -, -⟩
          · simp [hspace] at houtcome
          · simp [hspace] at houtcome
  | spaced hdue => simp [beginExchange] at houtcome
  | @exchanges request since action answer haction =>
      obtain ⟨shown, hresult, -⟩ := link.exchanged_eq now request answer
      rw [hresult] at houtcome
      simp only [Prod.mk.injEq, Progress.finished.injEq] at houtcome
      exact .inr ⟨since, answer, rfl, haction, houtcome.2.2⟩

theorem Turn.exchanging_of_ok {action : Action} {stage : Stage} {response : Response}
    (hturn : link.Turn now ⟨request, stage⟩ action (after, events, .finished (.ok response))) :
    ∃ since, stage = .exchanging since := by
  rcases hturn.finished with ⟨-, -, error, -, -, herror⟩ | ⟨since, -, hstage, -⟩
  · simp at herror
  · exact ⟨since, hstage⟩

/-- No transaction goes on after its exchange. -/
theorem Turn.not_exchanging {action : Action} {stage next : Stage}
    (hturn : link.Turn now ⟨request, stage⟩ action (after, events, .waiting next))
    (since : Instant) : stage ≠ .exchanging since := by
  rintro rfl
  generalize houtcome : (after, events, Progress.waiting next) = outcome at hturn
  cases hturn with
  | @exchanges _ _ _ result haction =>
      obtain ⟨shown, hresult, -⟩ := link.exchanged_eq now request result
      rw [hresult] at houtcome
      simp at houtcome

end Link

/-- The request of an exchange that ends, and what its transaction makes of the end. -/
def Traffic.verdict? (c : Traffic) (action : Action) :
    Option (Request × Except RequestError Response) :=
  match c.transaction with
  | some ⟨request, .exchanging _⟩ =>
    action.exchangeResult?.map fun result => (request, request.verdict result)
  | _ => none

theorem Traffic.verdict?_eq_none {action : Action} (haction : action.isAnswer = false)
    (c : Traffic) : c.verdict? action = none := by
  have hnone : action.exchangeResult? = none := by
    cases action <;> first | rfl | simp [Action.isAnswer] at haction
  rw [verdict?, hnone]
  split <;> rfl

theorem Traffic.verdict?_of_stage {c : Traffic} {request : Request} {stage : Stage}
    (htransaction : c.transaction = some ⟨request, stage⟩)
    (hstage : ∀ since, stage ≠ .exchanging since) (action : Action) :
    c.verdict? action = none := by
  rw [verdict?, htransaction]
  cases stage with
  | exchanging since => exact absurd rfl (hstage since)
  | opening | spacing => rfl

/-- A transaction ends with the verdict on its exchange, or without an exchange. -/
theorem Link.Turn.verdict {c : Traffic} {transaction : Transaction} {action : Action}
    {link : Link} {events : List Event} {result : Except RequestError Response}
    (htransaction : c.transaction = some transaction)
    (hturn : c.link.Turn c.now transaction action (link, events, .finished result)) :
    c.verdict? action = some (transaction.request, result) ∨
      c.verdict? action = none ∧ ∃ error, result = .error error := by
  obtain ⟨request, stage⟩ := transaction
  rcases hturn.finished with ⟨since, -, error, rfl, -, herror⟩ | ⟨since, answer, rfl, hanswer, rfl⟩
  · exact .inr ⟨Traffic.verdict?_of_stage htransaction (by simp) action, error, herror⟩
  · exact .inl (by simp [Traffic.verdict?, htransaction, hanswer])

theorem Link.Turn.verdict_ok {c : Traffic} {transaction : Transaction} {action : Action}
    {link : Link} {events : List Event} {response : Response}
    (htransaction : c.transaction = some transaction)
    (hturn : c.link.Turn c.now transaction action (link, events, .finished (.ok response))) :
    c.verdict? action = some (transaction.request, .ok response) := by
  rcases hturn.verdict htransaction with hverdict | ⟨-, error, herror⟩
  · exact hverdict
  · simp at herror

theorem Traffic.transaction_of_verdict {c : Traffic} {action : Action} {request : Request}
    {result : Except RequestError Response}
    (hverdict : c.verdict? action = some (request, result)) :
    ∃ since, c.transaction = some ⟨request, .exchanging since⟩ := by
  rw [verdict?] at hverdict
  split at hverdict
  · next other since htransaction =>
      obtain ⟨answer, -, hpair⟩ := Option.map_eq_some_iff.mp hverdict
      obtain ⟨rfl, -⟩ := Prod.mk.inj hpair
      exact ⟨since, htransaction⟩
  · simp at hverdict

def Progress.result? : Progress → Option (Except RequestError Response)
  | waiting _ => none
  | finished result => some result

/-- How the transaction under way ends with an action, in an exchange or before it. -/
def Traffic.ending? (c : Traffic) (action : Action) : Option (Except RequestError Response) :=
  match c.transaction with
  | some ⟨request, .opening _⟩ =>
    action.openResult?.bind fun result => (c.link.opened c.now request result).2.2.result?
  | some ⟨request, .exchanging _⟩ =>
    action.exchangeResult?.bind fun result => (c.link.exchanged c.now request result).2.2.result?
  | some ⟨_, .spacing _⟩ | none => none

theorem Link.Turn.ending?_eq {c : Traffic} {transaction : Transaction} {action : Action}
    {outcome : Link × List Event × Progress} (htransaction : c.transaction = some transaction)
    (hturn : c.link.Turn c.now transaction action outcome) :
    c.ending? action = outcome.2.2.result? := by
  cases hturn with
  | opens haction | exchanges haction => simp [Traffic.ending?, htransaction, haction]
  | spaced => simp [Traffic.ending?, htransaction, beginExchange, Progress.result?]

theorem Traffic.isAnswer_of_ending? {c : Traffic} {action : Action}
    {result : Except RequestError Response} (hends : c.ending? action = some result) :
    action.isAnswer = true := by
  rw [ending?] at hends
  cases action with
  | openDone | exchangeDone | expire => rfl
  | elapse | start | cancel | dropHandle | receive | tick | run | deliver =>
      split at hends <;> simp [Action.openResult?, Action.exchangeResult?] at hends

/-- The verdict on an exchange is how its transaction ends. -/
theorem Traffic.ending?_of_verdict {c : Traffic} {action : Action} {request : Request}
    {result : Except RequestError Response}
    (hverdict : c.verdict? action = some (request, result)) : c.ending? action = some result := by
  obtain ⟨since, htransaction⟩ := transaction_of_verdict hverdict
  rw [verdict?, htransaction] at hverdict
  obtain ⟨answer, hanswer, hpair⟩ := Option.map_eq_some_iff.mp hverdict
  obtain ⟨-, rfl⟩ := Prod.mk.inj hpair
  obtain ⟨shown, hended, -⟩ := c.link.exchanged_eq c.now request answer
  rw [ending?, htransaction]
  simp only [hanswer, Option.bind_some, hended, Progress.result?]

end Fieldbus

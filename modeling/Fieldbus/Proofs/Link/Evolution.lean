import Fieldbus.Proofs.Link.Wire

/-!
# What the operations of a link change

Short of shutting it down, every operation of a link is a chain of changes of four kinds: it shows
an event, it marks its transport as up or down, it stamps the end of an exchange, or it comes to a
new state and tells its observers.  Whatever these keep is kept by every turn of a transaction.
-/

namespace Fieldbus

/-- The event shows nothing of the scheduler or of the end of a call. -/
def Event.isOfLink : Event → Bool
  | transportOpens | exchangeStarts _ | transportCloses | linkChanges _ | noticed _ => true
  | sampled _ | deviceOnline _ | deviceOffline _ | tickEnds _ | schedulerEnds
  | callReturns _ _ => false

def OfLink (events : List Event) : Prop := ∀ event ∈ events, event.isOfLink

namespace Link

/-- What an operation of a link other than its shutdown does to it at an instant, and what it
shows. -/
inductive Evolves (now : Instant) : Link → Link → List Event → Prop where
  | refl (link : Link) : Evolves now link link []
  | shows {link after : Link} {event : Event} {events : List Event} (hlink : event.isOfLink)
      (hstate : ∀ state, event ≠ .linkChanges state) (hrest : Evolves now link after events) :
      Evolves now link after (event :: events)
  | marks {link after : Link} {events : List Event} {isOpen : Bool}
      (hrest : Evolves now { link with isOpen } after events) : Evolves now link after events
  | stamps {link after : Link} {events : List Event}
      (hrest : Evolves now { link with lastExchangeEnd := some now } after events) :
      Evolves now link after events
  | changes {link after : Link} {events : List Event} {state : LinkState}
      (hlive : state ≠ .shutdown) (hrest : Evolves now { link with state } after events) :
      Evolves now link after (.linkChanges state :: events)

variable {link middle after : Link} {now : Instant} {request : Request}
variable {events more : List Event}

theorem Evolves.trans (hfirst : Evolves now link middle events)
    (hsecond : Evolves now middle after more) : Evolves now link after (events ++ more) := by
  induction hfirst with
  | refl => exact hsecond
  | shows hlink hstate hrest ih => exact .shows hlink hstate (ih hsecond)
  | marks hrest ih => exact .marks (ih hsecond)
  | stamps hrest ih => exact .stamps (ih hsecond)
  | changes hlive hrest ih => exact .changes hlive (ih hsecond)

theorem evolves_changeState {state : LinkState} (hlive : state ≠ .shutdown) (now : Instant)
    (link : Link) : Evolves now link (link.changeState state).1 (link.changeState state).2 := by
  rw [changeState]
  split
  · exact .refl link
  · exact .changes hlive (.refl _)

theorem evolves_close (now : Instant) (link : Link) :
    Evolves now link link.close.1 link.close.2 := by
  rw [close]
  split
  · have hchange := evolves_changeState (show LinkState.closed ≠ .shutdown by simp) now
      { link with isOpen := false }
    exact .shows rfl (by simp) (.marks hchange)
  · exact .refl link

theorem evolves_conclude (now : Instant) (result : Except RequestError Response) (link : Link) :
    Evolves now link (link.conclude result).1 (link.conclude result).2.1 := by
  cases result with
  | error error => exact .shows rfl (by simp) (link.evolves_close now)
  | ok response =>
      rw [conclude]
      dsimp only
      split
      · exact .refl link
      · exact link.evolves_close now

theorem evolves_beginExchange (now : Instant) (request : Request) (link : Link) :
    Evolves now link (link.beginExchange now request).1 (link.beginExchange now request).2.1 := by
  have hstarts : Evolves now link link [.exchangeStarts request] :=
    .shows rfl (by simp) (.refl link)
  rw [beginExchange]
  dsimp only
  split
  · exact .shows rfl (by simp) hstarts
  · exact hstarts

theorem evolves_space (now : Instant) (request : Request) (link : Link) :
    Evolves now link (link.space now request).1 (link.space now request).2.1 := by
  rw [space]
  split
  · split
    · exact .refl link
    · exact link.evolves_beginExchange now request
  · exact link.evolves_beginExchange now request

theorem evolves_begin {progress : Progress}
    (hbegin : link.begin now request = (after, events, progress)) :
    Evolves now link after events := by
  have hevolves :
      Evolves now link (link.begin now request).1 (link.begin now request).2.1 := by
    rw [begin]
    split
    · exact .refl link
    · split
      · exact link.evolves_space now request
      · exact .shows rfl (by simp) (.refl link)
  rwa [hbegin] at hevolves

theorem evolves_opened (now : Instant) (request : Request) (result : Except RequestError Unit)
    (link : Link) :
    Evolves now link (link.opened now request result).1 (link.opened now request result).2.1 := by
  cases result with
  | ok _ =>
      have hchange := evolves_changeState (show LinkState.opened ≠ .shutdown by simp) now
        { link with isOpen := true }
      exact .marks (hchange.trans (evolves_space now request _))
  | error error =>
      have hchange := evolves_changeState (show LinkState.openFailed ≠ .shutdown by simp) now link
      have hcloses : Evolves now link (link.changeState .openFailed).1
          (.transportCloses :: (link.changeState .openFailed).2) := .shows rfl (by simp) hchange
      rw [opened]
      dsimp only
      split
      · exact (hcloses.trans (.refl _)).trans (evolves_conclude now _ _)
      · exact (hcloses.trans (.shows rfl (by simp) (.refl _))).trans (evolves_conclude now _ _)

theorem evolves_exchanged (now : Instant) (request : Request)
    (result : Except RequestError Response) (link : Link) :
    Evolves now link (link.exchanged now request result).1
      (link.exchanged now request result).2.1 := by
  have hconclude := fun checked => evolves_conclude now checked
    { link with lastExchangeEnd := some now }
  rw [exchanged]
  dsimp only
  apply Evolves.stamps
  split
  · next response _ =>
      refine Evolves.trans ?_ (hconclude (.ok response))
      split
      · exact .shows rfl (by simp) (.refl _)
      · exact .refl _
  · next error _ => exact hconclude (.error error)

theorem Turn.evolves {transaction : Transaction} {action : Action} {progress : Progress}
    (hturn : link.Turn now transaction action (after, events, progress)) :
    Evolves now link after events := by
  generalize houtcome : (after, events, progress) = outcome at hturn
  cases hturn with
  | @opens request since action result haction =>
      have hevolves := link.evolves_opened now request result
      rwa [← houtcome] at hevolves
  | @spaced request stop hdue =>
      have hevolves := link.evolves_beginExchange now request
      rwa [← houtcome] at hevolves
  | @exchanges request since action result haction =>
      have hevolves := link.evolves_exchanged now request result
      rwa [← houtcome] at hevolves

/-- A link shows nothing of the scheduler or of the end of a call. -/
theorem Evolves.ofLink (hevolves : Evolves now link after events) : OfLink events := by
  induction hevolves with
  | refl => simp [OfLink]
  | shows hlink hstate hrest ih => exact List.forall_mem_cons.mpr ⟨hlink, ih⟩
  | marks hrest ih | stamps hrest ih => exact ih
  | changes hlive hrest ih => exact List.forall_mem_cons.mpr ⟨rfl, ih⟩

theorem ofLink_shutdown (link : Link) : OfLink link.shutdown.2 := by
  have hchange (closed : Link) : OfLink (closed.changeState .shutdown).2 := by
    rw [changeState]
    split
    · exact List.forall_mem_nil _
    · exact List.forall_mem_singleton.mpr rfl
  exact List.forall_mem_append.mpr ⟨(link.evolves_close 0).ofLink, hchange _⟩

end Link

end Fieldbus

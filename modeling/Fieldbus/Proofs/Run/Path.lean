import Mathlib.Data.List.Induction
import Fieldbus.Connection.Step

/-!
# Paths

A path is a run of a connection together with every state on the way.  Statements about the order
of things, such as which exchange comes before which, are statements about how a path can be cut
into parts.
-/

namespace Fieldbus

/-- An item of a list that is not in its end is in its beginning. -/
theorem exists_of_append_eq {α : Type} {left right before after : List α} {item : α}
    (hsplit : left ++ right = before ++ item :: after) (hitem : item ∉ right) :
    ∃ rest, left = before ++ item :: rest ∧ after = rest ++ right := by
  rcases List.append_eq_append_iff.mp hsplit with ⟨more, -, hright⟩ | ⟨more, hleft, hafter⟩
  · exact (hitem (by simp [hright])).elim
  · cases more with
    | nil =>
        have hright : item :: after = right := hafter
        exact (hitem (hright ▸ List.mem_cons_self)).elim
    | cons head rest =>
        obtain ⟨rfl, rfl⟩ := List.cons.inj hafter
        exact ⟨rest, hleft, rfl⟩

/-- One step of a connection, with the states before and after it. -/
structure Transition where
  before : Connection
  action : Action
  after : Connection
  events : List Event

namespace Connection

/-- The transitions are steps that lead from the first state to the last. -/
inductive Path : Connection → List Transition → Connection → Prop where
  | nil (connection : Connection) : Path connection [] connection
  | cons {before after final : Connection} {action : Action} {events : List Event}
      {rest : List Transition} (hstep : before.step action = some (after, events))
      (hrest : Path after rest final) :
      Path before (⟨before, action, after, events⟩ :: rest) final

namespace Path

variable {start middle final : Connection} {path earlier later : List Transition}
variable {transition : Transition}

theorem eq_of_nil (hpath : Path start [] final) : final = start := by
  cases hpath
  rfl

theorem cons_inv (hpath : Path start (transition :: later) final) :
    transition.before = start ∧
      start.step transition.action = some (transition.after, transition.events) ∧
      Path transition.after later final := by
  cases hpath with
  | cons hstep hrest => exact ⟨rfl, hstep, hrest⟩

theorem append (hearlier : Path start earlier middle) (hlater : Path middle later final) :
    Path start (earlier ++ later) final := by
  induction hearlier with
  | nil => exact hlater
  | cons hstep _ ih => exact .cons hstep (ih hlater)

/-- A path can be cut at every place. -/
theorem append_iff :
    Path start (earlier ++ later) final ↔
      ∃ middle, Path start earlier middle ∧ Path middle later final := by
  constructor
  · intro hpath
    induction earlier generalizing start with
    | nil => exact ⟨start, .nil start, hpath⟩
    | cons head tail ih =>
        cases hpath with
        | cons hstep hrest =>
            obtain ⟨middle, hearlier, hlater⟩ := ih hrest
            exact ⟨middle, .cons hstep hearlier, hlater⟩
  · rintro ⟨middle, hearlier, hlater⟩
    exact hearlier.append hlater

/-- The path up to a transition, the transition itself and the path after it. -/
theorem split (hpath : Path start (earlier ++ transition :: later) final) :
    Path start earlier transition.before ∧
      transition.before.step transition.action = some (transition.after, transition.events) ∧
      Path transition.after later final := by
  obtain ⟨middle, hearlier, hlater⟩ := append_iff.mp hpath
  obtain ⟨hbefore, hstep, hrest⟩ := hlater.cons_inv
  subst hbefore
  exact ⟨hearlier, hstep, hrest⟩

/-- What holds of a state with its past, holds after every further step, holds at the end. -/
theorem history {motive : List Transition → Connection → Prop} (hstart : motive [] start)
    (hstep : ∀ past before action after events, Path start past before → motive past before →
      before.step action = some (after, events) →
      motive (past ++ [⟨before, action, after, events⟩]) after)
    (hpath : Path start path final) : motive path final := by
  induction path using List.reverseRecOn generalizing final with
  | nil => exact hpath.eq_of_nil ▸ hstart
  | append_singleton past last ih =>
      obtain ⟨hpast, hlast, hrest⟩ := hpath.split
      have hafter := hstep past _ _ _ _ hpast (ih hpast) hlast
      rw [hrest.eq_of_nil]
      exact hafter

/-- What every step keeps holds at the end of a path. -/
theorem invariant {property : Connection → Prop}
    (hkeeps : ∀ before action after events, property before →
      before.step action = some (after, events) → property after)
    (hpath : Path start path final) (hstart : property start) : property final := by
  induction hpath with
  | nil => exact hstart
  | cons hstep _ ih => exact ih (hkeeps _ _ _ _ hstart hstep)

end Path

/-- Running a list of actions walks along a path. -/
theorem run_eq_some_iff {start final : Connection} {actions : List Action}
    {events : List Event} :
    start.run actions = some (final, events) ↔
      ∃ path, Path start path final ∧ path.map (·.action) = actions ∧
        path.flatMap (·.events) = events := by
  induction actions generalizing start events with
  | nil =>
      constructor
      · intro hrun
        simp only [run, Option.some.injEq, Prod.mk.injEq] at hrun
        obtain ⟨rfl, rfl⟩ := hrun
        exact ⟨[], .nil start, rfl, rfl⟩
      · rintro ⟨path, hpath, hactions, rfl⟩
        obtain rfl := List.map_eq_nil_iff.mp hactions
        rw [hpath.eq_of_nil]
        rfl
  | cons action rest ih =>
      constructor
      · intro hrun
        simp only [run, Option.bind_eq_bind, Option.bind_eq_some_iff, Option.pure_def,
          Option.some.injEq, Prod.mk.injEq] at hrun
        obtain ⟨⟨after, first⟩, hstep, ⟨last, more⟩, hrest, rfl, rfl⟩ := hrun
        obtain ⟨path, hpath, rfl, rfl⟩ := ih.mp hrest
        exact ⟨_, .cons hstep hpath, rfl, rfl⟩
      · rintro ⟨path, hpath, hactions, rfl⟩
        cases hpath with
        | nil => simp at hactions
        | cons hstep hrest =>
            simp only [List.map_cons, List.cons.injEq] at hactions
            obtain ⟨rfl, rfl⟩ := hactions
            simp [run, hstep, ih.mpr ⟨_, hrest, rfl, rfl⟩]

/-- The step that an action leads to, which changes nothing if the action is not possible. -/
def next (action : Action) (connection : Connection) : Transition :=
  let outcome := (connection.step action).getD (connection, [])
  ⟨connection, action, outcome.1, outcome.2⟩

def walk (connection : Connection) : List Action → List Transition
  | [] => []
  | action :: rest => connection.next action :: walk (connection.next action).after rest

theorem map_action_walk (connection : Connection) (actions : List Action) :
    (connection.walk actions).map (·.action) = actions := by
  induction actions generalizing connection with
  | nil => rfl
  | cons action rest ih => rw [walk, List.map_cons, ih, next]

theorem action_mem_of_walk {connection : Connection} {actions : List Action}
    {transition : Transition} (hmem : transition ∈ connection.walk actions) :
    transition.action ∈ actions :=
  map_action_walk connection actions ▸ List.mem_map_of_mem hmem

/-- Where a walk ends. -/
def stop (connection : Connection) (actions : List Action) : Connection :=
  actions.foldl (fun state action => (state.next action).after) connection

theorem step_eq_next {connection : Connection} {action : Action}
    (hpossible : (connection.step action).isSome = true) :
    connection.step action =
      some ((connection.next action).after, (connection.next action).events) := by
  obtain ⟨outcome, hstep⟩ := Option.isSome_iff_exists.mp hpossible
  simp [next, hstep]

theorem Path.cons_next {connection final : Connection} {action : Action}
    {rest : List Transition} (hpossible : (connection.step action).isSome = true)
    (hrest : Path (connection.next action).after rest final) :
    Path connection (connection.next action :: rest) final :=
  .cons (step_eq_next hpossible) hrest

/-- A walk whose actions are all possible is a path. -/
theorem path_walk {connection : Connection} {actions : List Action}
    (hpossible : (connection.run actions).isSome = true) :
    Path connection (connection.walk actions) (connection.stop actions) := by
  induction actions generalizing connection with
  | nil => exact .nil connection
  | cons action rest ih =>
      obtain ⟨outcome, hrun⟩ := Option.isSome_iff_exists.mp hpossible
      simp only [run, Option.bind_eq_bind, Option.bind_eq_some_iff] at hrun
      obtain ⟨⟨after, events⟩, hstep, ⟨final, more⟩, hrest, -⟩ := hrun
      have hnext : connection.next action = ⟨connection, action, after, events⟩ := by
        simp [next, hstep]
      rw [walk, hnext]
      refine .cons hstep ?_
      rw [stop, List.foldl_cons, hnext]
      exact ih (by simp [hrest])

end Connection

/-- A register that can be read and written. -/
def Point.sample : Point where
  device := ⟨"plant"⟩
  name := "level"
  unit := ⟨1⟩
  registerClass := .holdingRegister
  address := 4
  rawType := .uint16
  byteSwap := false
  wordSwap := false
  bits := none
  scale := none
  period := second
  access := .readWrite

/-- A new connection to a device with one register, for runs that can be followed by hand. -/
def Connection.sample : Connection := (create {} Codec.registerCodec [Point.sample]).1

/-- The sample is polled over a transport that has to be opened, and then its register is written
as soon as the minimum interval has passed. -/
def Action.pollAndWrite : List Action :=
  [.tick, .run .scheduler, .run .scheduler, .run .scheduler, .openDone (.ok ()),
    .exchangeDone (.ok (.registers [7])), .start 0 (.write ⟨"plant"⟩ [⟨"level", .int 3⟩]),
    .run (.call 0), .run (.call 0), .run (.call 0), .run (.call 0), .elapse (100 * millisecond),
    .expire, .exchangeDone (.ok .written), .run (.call 0), .run (.call 0)]

end Fieldbus

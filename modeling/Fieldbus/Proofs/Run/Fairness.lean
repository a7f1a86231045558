import Fieldbus.Proofs.Run.Path
import Mathlib.Order.RelClasses

/-!
# Fair executions

An execution is a run without an end.  It is fair to the users of the connection if none of them
could go on from some time on and yet never takes a step.  Whatever a user that can go on brings
closer, step by step, comes about in a fair execution.
-/

namespace Fieldbus

namespace Connection

/-- A run without an end. -/
structure Execution where
  state : Nat → Connection
  action : Nat → Action
  events : Nat → List Event
  step : ∀ time, (state time).step (action time) = some (state (time + 1), events time)

namespace Execution

/-- The step at a time. -/
def transition (execution : Execution) (time : Nat) : Transition :=
  ⟨execution.state time, execution.action time, execution.state (time + 1), execution.events time⟩

/-- The steps up to a time. -/
def steps (execution : Execution) (time : Nat) : List Transition :=
  (List.range time).map execution.transition

theorem steps_succ (execution : Execution) (time : Nat) :
    execution.steps (time + 1) = execution.steps time ++ [execution.transition time] := by
  rw [steps, List.range_succ, List.map_append, List.map_singleton, steps]

/-- The beginnings of an execution are paths. -/
theorem path (execution : Execution) (time : Nat) :
    Path (execution.state 0) (execution.steps time) (execution.state time) := by
  induction time with
  | zero => exact .nil _
  | succ time ih =>
      rw [steps_succ]
      exact ih.append (.cons (execution.step time) (.nil _))

/-- Again and again, every user either takes a step or has to wait. -/
def Fair (execution : Execution) : Prop :=
  ∀ actor time, ∃ later, time ≤ later ∧
    (execution.action later = .run actor ∨ (execution.state later).step (.run actor) = none)

/-- Nothing happens any more. -/
def idle (connection : Connection) : Execution where
  state _ := connection
  action _ := .elapse 0
  events _ := []
  step _ := rfl

/-- A step before everything else. -/
def cons {before after : Connection} {action : Action} {events : List Event}
    (hstep : before.step action = some (after, events)) (rest : Execution)
    (hrest : rest.state 0 = after) : Execution where
  state | 0 => before | time + 1 => rest.state time
  action | 0 => action | time + 1 => rest.action time
  events | 0 => events | time + 1 => rest.events time
  step time := by
    cases time with
    | zero => rw [← hrest] at hstep; exact hstep
    | succ time => exact rest.step time

/-- A path to where nobody can go on is the beginning of a fair execution. -/
theorem exists_fair {start final : Connection} {path : List Transition}
    (hpath : Path start path final) (hrest : ∀ actor, final.step (.run actor) = none) :
    ∃ execution : Execution, execution.state 0 = start ∧ execution.Fair ∧
      ∀ time, execution.action time ∈ path.map (·.action) ∨ execution.action time = .elapse 0 := by
  induction hpath with
  | nil connection =>
      refine ⟨idle connection, rfl, fun actor time => ?_, fun _ => .inr rfl⟩
      exact ⟨time, Nat.le_refl time, .inr (hrest actor)⟩
  | cons hstep _ ih =>
      obtain ⟨rest, hstart, hfair, hactions⟩ := ih hrest
      refine ⟨cons hstep rest hstart, rfl, fun actor time => ?_, fun time => ?_⟩
      · obtain ⟨later, hlater, hruns⟩ := hfair actor time
        exact ⟨later + 1, Nat.le_succ_of_le hlater, hruns⟩
      · cases time with
        | zero => exact .inl List.mem_cons_self
        | succ time => exact (hactions time).imp (List.mem_cons_of_mem _) id

/-- The goal is reached at some time, and up to then everything is safe. -/
def Reaches (goal safe : Nat → Prop) (time : Nat) : Prop :=
  ∃ last, time ≤ last ∧ goal last ∧ ∀ between, time ≤ between → between < last → safe between

theorem reaches_of_goal {goal safe : Nat → Prop} {time : Nat} (hgoal : goal time) :
    Reaches goal safe time :=
  ⟨time, Nat.le_refl time, hgoal, fun _ hfrom hto => absurd hto (Nat.not_lt.mpr hfrom)⟩

theorem Reaches.of_next {goal safe : Nat → Prop} {time : Nat} (hsafe : safe time)
    (hnext : Reaches goal safe (time + 1)) : Reaches goal safe time := by
  obtain ⟨last, hlast, hgoal, hbetween⟩ := hnext
  refine ⟨last, by omega, hgoal, fun between hfrom hto => ?_⟩
  rcases Nat.eq_or_lt_of_le hfrom with rfl | hafter
  · exact hsafe
  · exact hbetween between hafter hto

/-- What is pending comes about in a fair execution, if there is always a user that can bring it
closer, by its rank, while the steps of others leave it as close as it is. -/
theorem Fair.reaches {Rank : Type} [LT Rank] [WellFoundedLT Rank] {execution : Execution}
    {pending : Connection → Actor → Rank → Prop} {goal safe : Nat → Prop} (hfair : execution.Fair)
    (hready : ∀ time actor rank, pending (execution.state time) actor rank →
      (execution.state time).step (.run actor) ≠ none)
    (hstep : ∀ time actor rank, pending (execution.state time) actor rank → goal time ∨
      safe time ∧ ((∃ helper less, less < rank ∧
          pending (execution.state (time + 1)) helper less) ∨
        execution.action time ≠ .run actor ∧ pending (execution.state (time + 1)) actor rank))
    {time : Nat} {actor : Actor} {rank : Rank}
    (hpending : pending (execution.state time) actor rank) :
    Reaches goal safe time := by
  induction rank using WellFoundedLT.induction generalizing time actor with
  | ind rank closer =>
      obtain ⟨later, hlater, hruns⟩ := hfair actor time
      -- Up to the step of the user the rank falls, or everything stays as it is.
      obtain ⟨distance, rfl⟩ := Nat.exists_eq_add_of_le hlater
      induction distance generalizing time with
      | zero =>
          rcases hstep time actor rank hpending with
            hgoal | ⟨hsafe, ⟨helper, less, hless, hnext⟩ | ⟨hother, -⟩⟩
          · exact reaches_of_goal hgoal
          · exact (closer less hless hnext).of_next hsafe
          · rcases hruns with hruns | hwaits
            · exact absurd hruns hother
            · exact absurd hwaits (hready time actor rank hpending)
      | succ distance ih =>
          rcases hstep time actor rank hpending with
            hgoal | ⟨hsafe, ⟨helper, less, hless, hnext⟩ | ⟨-, hnext⟩⟩
          · exact reaches_of_goal hgoal
          · exact (closer less hless hnext).of_next hsafe
          · refine (ih hnext (by omega) ?_).of_next hsafe
            rwa [Nat.add_right_comm]

end Execution

end Connection

end Fieldbus

import Fieldbus.Proofs.Run.Fairness
import Fieldbus.Proofs.Write.Dismissal
import Fieldbus.Proofs.Write.Plans

/-!
# After the end

Once a call to close a connection has returned, or its scheduler has ended, nothing passes over the
transport any more.  Later writes are refused, and those that still wait return that the connection
is closed, in every execution in which whoever can go on does so sometime.
-/

namespace Fieldbus

namespace Connection

variable {settings : ConnectionSettings} {codec : ValueCodec} {declared : List Point}
variable {start final : Connection} {path earlier later : List Transition} {ending : Transition}
variable {id : Nat} {phase : CallPhase}

/-- The first return of a call on a path. -/
def FirstReturn (id : Nat) (result : CallResult) (path : List Transition) : Prop :=
  ∃ before returning after, path = before ++ returning :: after ∧
    (∀ transition ∈ before, ∀ other, .callReturns id other ∉ transition.events) ∧
      .callReturns id result ∈ returning.events

/-- The plans of the writes outside the section are not empty. -/
theorem Path.planned_ne_nil {commands : List WriteCommand} (hpath : Path start path final)
    (horderly : start.traffic.Orderly) (hfresh : start.calls = [])
    (hphase : Calls.phase? final.calls id = some phase)
    (hplanned : phase.planned? = some commands) : commands ≠ [] := by
  refine hpath.history (motive := fun _ state => ∀ phase,
    Calls.phase? state.calls id = some phase → phase.planned? = some commands → commands ≠ [])
    (fun phase hnew => by simp [hfresh, Calls.phase?] at hnew)
    (fun past before action after events hpast hbefore hstep phase hafter hlisted => ?_)
    phase hphase hplanned
  cases (move_of_step (hpast.orderly horderly) hstep).call_step id with
  | keep hsame => exact hbefore phase (hsame ▸ hafter) hlisted
  | write device writes planned haction hwrites hplan hnow =>
      obtain rfl := Option.some.inj (hafter.symm.trans hnow)
      obtain rfl := Option.some.inj hlisted
      exact PointWrite.plan_ne_nil hplan hwrites
  | post request command haction hrequest hnow =>
      obtain rfl := Option.some.inj (hafter.symm.trans hnow)
      simp [CallPhase.planned?] at hlisted
  | advance old new hold hnow hlive hsame =>
      obtain rfl := Option.some.inj (hafter.symm.trans hnow)
      cases hsame with
      | inl hnone => simp [hnone] at hlisted
      | inr hsame => exact hbefore old hold (hsame ▸ hlisted)
  | leave hnone => exact absurd (hafter.symm.trans hnone) (by simp)

/-- Until it returns, a doomed write stays so. -/
theorem Path.doomed (hpath : Path start path final) (horderly : start.traffic.Orderly)
    (hdown : start.traffic.Down) (hkept : ∀ id, Action.cancel id ∉ path.map (·.action))
    (hsilent : ∀ transition ∈ path, ∀ other, .callReturns id other ∉ transition.events)
    (hphase : Calls.phase? start.calls id = some phase) (hdoomed : phase.IsDoomed) :
    ∃ next, Calls.phase? final.calls id = some next ∧ next.IsDoomed := by
  induction hpath generalizing phase with
  | nil => exact ⟨phase, hphase, hdoomed⟩
  | cons hstep _ ih =>
      have hafter : Aftermath _ _ _ _ := ⟨horderly, hdown, hstep, fun id haction =>
        hkept id (List.mem_cons.mpr (.inl haction.symm))⟩
      obtain hreturns | ⟨-, next, hnext, hstays⟩ := hafter.doomed hphase hdoomed
      · exact absurd hreturns (hsilent _ List.mem_cons_self _)
      · exact ih hafter.orderly_after hafter.down_after
          (fun id hmem => hkept id (List.mem_cons_of_mem _ hmem))
          (fun transition hmem => hsilent transition (List.mem_cons_of_mem _ hmem)) hnext hstays

/-- A write that waits when its connection has been shut down returns nothing else but that. -/
theorem Path.eq_closed {result : CallResult} (hpath : Path start path final)
    (horderly : start.traffic.Orderly) (hdown : start.traffic.Down)
    (hkept : ∀ id, Action.cancel id ∉ path.map (·.action))
    (hphase : Calls.phase? start.calls id = some phase) (hdoomed : phase.IsDoomed)
    (hreturn : FirstReturn id result path) : result = .write (.error .closed) := by
  obtain ⟨before, returning, rest, rfl, hsilent, hreturns⟩ := hreturn
  obtain ⟨hbefore, hstep, -⟩ := hpath.split
  have hactions : ∀ id, Action.cancel id ∉ before.map (·.action) := fun id hmem =>
    hkept id (by rw [List.map_append]; exact List.mem_append_left _ hmem)
  obtain ⟨next, hnext, hstays⟩ := hbefore.doomed horderly hdown hactions hsilent hphase hdoomed
  have hafter : Aftermath _ _ _ _ :=
    ⟨hbefore.orderly horderly, (hbefore.of_down horderly hdown).2.1, hstep, fun id haction =>
      hkept id (List.mem_map.mpr ⟨returning, by simp, haction⟩)⟩
  exact hafter.eq_closed hnext hstays hreturns

/-- In a fair execution every doomed write returns that the connection is closed. -/
theorem Execution.Fair.dismisses {execution : Execution} (hfair : execution.Fair)
    (hkept : ∀ time id, execution.action time ≠ .cancel id)
    (horderly : (execution.state 0).traffic.Orderly) (hdown : (execution.state 0).traffic.Down)
    (hphase : Calls.phase? (execution.state 0).calls id = some phase) (hdoomed : phase.IsDoomed) :
    ∃ time, FirstReturn id (.write (.error .closed)) (execution.steps time) := by
  obtain ⟨actor, rank, hreturning⟩ := exists_returning horderly hdown hphase hdoomed
  have hreaches : Execution.Reaches
      (fun time => .callReturns id (.write (.error .closed)) ∈ execution.events time)
      (fun time => ∀ other, .callReturns id other ∉ execution.events time) 0 :=
    hfair.reaches
      (fun _ _ _ hnow => hnow.pending.ready hnow.orderly hnow.down)
      (fun time _ _ hnow =>
        hnow.step ⟨hnow.orderly, hnow.down, execution.step time, hkept time⟩) hreturning
  obtain ⟨last, -, hreturns, hsilent⟩ := hreaches
  refine ⟨last + 1, execution.steps last, execution.transition last, [],
    execution.steps_succ last, fun transition hmem other => ?_, hreturns⟩
  obtain ⟨time, htime, rfl⟩ := List.mem_map.mp hmem
  exact hsilent time (Nat.zero_le time) (List.mem_range.mp htime) other

/-- After its end a connection does not use its transport any more, which is closed, and it has told
its observers so once.  Later writes are refused, and a write that still waits can only return that
the connection is closed, which it does if everybody that can go on does so sometime. -/
theorem closed_after_end
    (hpath : Path (create settings codec declared).1 (earlier ++ ending :: later) final)
    (hkept : ∀ id, Action.cancel id ∉ (earlier ++ ending :: later).map (·.action))
    (hends : ending.Ends) :
    ShutDown earlier ending later ∧
      (∀ id phase result, Calls.phase? ending.after.calls id = some phase → phase.isPending →
        FirstReturn id result later → result = .write (.error .closed)) ∧
      ∀ execution : Execution, execution.state 0 = final →
        (∀ time id, execution.action time ≠ .cancel id) → execution.Fair →
          ∀ id phase, Calls.phase? final.calls id = some phase → phase.isPending →
            ∃ time, FirstReturn id (.write (.error .closed)) (execution.steps time) := by
  have hcreate := create_orderly settings codec declared
  obtain ⟨hdown, hshut⟩ := hpath.shutDown hkept hends
  obtain ⟨hearlier, hstep, hlater⟩ := hpath.split
  have hended : Path (create settings codec declared).1 (earlier ++ [ending]) ending.after :=
    hearlier.append (.cons hstep (.nil _))
  have hready := hended.orderly hcreate
  refine ⟨hshut, fun id phase result hphase hpending hreturn => ?_,
    fun execution hstart hcalls hfair id phase hphase hpending => ?_⟩
  · have hdoomed := CallPhase.isDoomed_of_isPending hpending fun commands hplanned =>
      hended.planned_ne_nil hcreate rfl hphase hplanned
    have hactions : ∀ id, Action.cancel id ∉ later.map (·.action) := fun id hmem =>
      hkept id (by
        rw [List.map_append, List.map_cons]
        exact List.mem_append_right _ (List.mem_cons_of_mem _ hmem))
    exact hlater.eq_closed hready hdown hactions hphase hdoomed hreturn
  · have hdoomed := CallPhase.isDoomed_of_isPending hpending fun commands hplanned =>
      hpath.planned_ne_nil hcreate rfl hphase hplanned
    subst hstart
    exact hfair.dismisses hcalls (hpath.orderly hcreate) (hlater.of_down hready hdown).2.1 hphase
      hdoomed

end Connection

/-- The transport has been opened for a poll, and a write waits for the section while another caller
closes the connection. -/
def Action.closeOverWrite : List Action :=
  [.tick, .run .scheduler, .run .scheduler, .run .scheduler, .openDone (.ok ()),
    .exchangeDone (.ok (.registers [7])), .start 0 (.write ⟨"plant"⟩ [⟨"level", .int 3⟩]),
    .run (.call 0), .start 1 .close, .run (.call 1), .run (.call 1)]

/-- A write that comes too late. -/
def Action.writeAgain : List Action := [.start 2 (.write ⟨"plant"⟩ [⟨"level", .int 4⟩])]

/-- Everybody goes on until nobody can. -/
def Action.windUp : List Action :=
  [.run (.call 0), .run (.call 0), .run (.call 0), .run .scheduler, .deliver, .run .scheduler,
    .run .scheduler, .receive, .run .scheduler, .run .scheduler]

namespace Connection

/-- The call that closes the connection returns. -/
def sampleEnd : Transition := (sample.stop Action.closeOverWrite).next (.run (.call 1))

/-- The end of the connection and the write that comes after it. -/
def sampleRefusal : Connection := sampleEnd.after.stop Action.writeAgain

theorem path_sampleEnd :
    Path sample (sample.walk Action.closeOverWrite ++
      sampleEnd :: sampleEnd.after.walk Action.writeAgain) sampleRefusal := by
  have hclose := path_walk (show (sample.run Action.closeOverWrite).isSome = true by decide +kernel)
  have hwrite := path_walk
    (show (sampleEnd.after.run Action.writeAgain).isSome = true by decide +kernel)
  exact hclose.append (.cons_next (by decide +kernel) hwrite)

/-- There is a fair execution in which everybody comes to an end. -/
theorem exists_fair_sample :
    ∃ execution : Execution, execution.state 0 = sampleRefusal ∧ execution.Fair ∧
      ∀ time id, execution.action time ≠ .cancel id := by
  have hpath := path_walk (show (sampleRefusal.run Action.windUp).isSome = true by decide +kernel)
  have hended : (sampleRefusal.stop Action.windUp).scheduler.phase = .ended := by decide +kernel
  have hgone : (sampleRefusal.stop Action.windUp).calls.isEmpty = true := by decide +kernel
  obtain ⟨execution, hstart, hfair, hactions⟩ := Execution.exists_fair hpath fun actor => by
    cases actor with
    | scheduler => rw [step, runScheduler?, hended]
    | call id => rw [step, call?, List.isEmpty_iff.mp hgone]; rfl
  refine ⟨execution, hstart, hfair, fun time id hcancel => ?_⟩
  have haction := hactions time
  rw [hcancel, map_action_walk] at haction
  simp [Action.windUp] at haction

theorem sampleEnd_closed :
    heardStates (sample.walk Action.closeOverWrite ++
        sampleEnd :: sampleEnd.after.walk Action.writeAgain) = [.opened, .closed, .shutdown] ∧
      ShutDown (sample.walk Action.closeOverWrite) sampleEnd
        (sampleEnd.after.walk Action.writeAgain) ∧
      ∃ execution : Execution, execution.state 0 = sampleRefusal ∧ execution.Fair ∧
        ∃ time, FirstReturn 0 (.write (.error .closed)) (execution.steps time) := by
  have hkept : ∀ id, Action.cancel id ∉ (sample.walk Action.closeOverWrite ++
      sampleEnd :: sampleEnd.after.walk Action.writeAgain).map (·.action) := by
    intro id
    rw [List.map_append, List.map_cons, map_action_walk, map_action_walk]
    simp [Action.closeOverWrite, Action.writeAgain, sampleEnd, next]
  have hends : sampleEnd.Ends := .inl ⟨1, mem_returned.mp (by decide +kernel)⟩
  obtain ⟨hshut, -, hdismisses⟩ := closed_after_end path_sampleEnd hkept hends
  obtain ⟨execution, hstart, hfair, hcalls⟩ := exists_fair_sample
  have hwaits : (Calls.phase? sampleRefusal.calls 0).any (·.isPending) = true := by decide +kernel
  obtain ⟨phase, hphase, hpending⟩ := (Option.any_eq_true _ _).mp hwaits
  exact ⟨by decide +kernel, hshut, execution, hstart, hfair,
    hdismisses execution hstart hcalls hfair 0 phase hphase hpending⟩

end Connection

end Fieldbus

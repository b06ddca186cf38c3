import BlindSig.DemoSession

set_option autoImplicit false

namespace BlindSig.Demo

open Clocked

/-- The Run button or an input field is disabled. -/
def State.Locked (p : State) : Prop := p.btnRunDisabled = true ∨ p.inputsDisabled = true

/-- The timer is live, or the circuit is strictly between start and completion. -/
def State.UnderWay (p : State) : Prop :=
  p.timer.isSome = true ∨ 1 ≤ p.sim.simCycles ∧ p.sim.simCycles ≤ 32

/-- What takes the computation on: its timer, else Step. -/
def State.onward (p : State) : Handler := if p.timer.isSome then .tick else .step

/-- Whatever the fields hold meanwhile, the computation gets to `finish`. -/
def State.Completes (p : State) : Prop :=
  ∀ fields : ℕ → Fields, ∃ n, ((panel p).trace p (fun j => ⟨p.onward, fields j⟩) n).finishes.length =
    p.finishes.length + 1

/-- What the panel owes to its user: a disabled control belongs to a computation
that will reach `finish`, and an idle panel has none. -/
structure Responsive (p : State) : Prop where
  underWay : p.Locked → p.UnderWay
  completes : p.Locked → p.Completes
  idle : p.stateWord = .stby ∨ p.stateWord = .done → ¬p.Locked

variable {k : ℕ} {p : State} {f : Fields}

theorem Runs.bounds (runs : Runs k p) (underWay : p.UnderWay) :
    k ≤ 32 ∧ (p.timer = none → 0 < k) := by
  have inside := runs.inside
  rcases underWay with live | counted
  · obtain ⟨o, timer⟩ := Option.isSome_iff_exists.mp live
    exact ⟨(runs.timer o timer).2, fun stopped => by rw [stopped] at timer; cases timer⟩
  · rw [runs.simCycles] at counted
    have positive : 1 ≤ k := by bv_omega
    exact ⟨by bv_omega, fun _ => positive⟩

/-- Between start and completion, as the step counter shows it. -/
theorem Runs.underWay (runs : Runs k p) (started : 0 < k) (more : k ≤ 32) : p.UnderWay := by
  refine Or.inr ?_
  rw [runs.simCycles]
  constructor
  · bv_omega
  · bv_omega

theorem on_onward (runs : Runs k p) (underWay : p.UnderWay) :
    p.on ⟨p.onward, f⟩ = p.advance k := by
  obtain ⟨more, started⟩ := runs.bounds underWay
  cases timer : p.timer with
  | none =>
      have stopped : p.stop = p := by rw [State.stop, ← timer]
      have step : p.onward = .step := by rw [State.onward, timer]; rfl
      rw [step]
      exact (stepOne_continue runs (started timer) more).trans (by rw [stopped])
  | some o =>
      have tick : p.onward = .tick := by rw [State.onward, timer]; rfl
      rw [tick]
      exact tick_eq runs timer

/-- By induction on the steps that are left after the next one. -/
theorem completes_of_left {left : ℕ} (runs : Runs k p) (underWay : p.UnderWay)
    (rest : k + left = 32) : p.Completes := by
  induction left generalizing k p with
  | zero =>
      intro fields
      refine ⟨1, ?_⟩
      change (p.on ⟨p.onward, fields 0⟩).finishes.length = _
      rw [on_onward runs underWay, State.advance, if_pos (by omega)]
      exact List.length_append
  | succ left ih =>
      intro fields
      have next : p.on ⟨p.onward, fields 0⟩ = p.advance k := on_onward runs underWay
      have advanced := runs.advance (by omega)
      rw [State.advance, if_neg (by omega)] at next advanced
      obtain ⟨n, completed⟩ :=
        ih advanced (advanced.underWay (Nat.succ_pos k) (by omega)) (by omega)
          fun j => fields (j + 1)
      refine ⟨1 + n, ?_⟩
      rw [Machine.trace_add]
      simp only [Nat.add_comm 1]
      change ((panel p).trace (p.on ⟨p.onward, fields 0⟩) _ n).finishes.length = _
      rw [next, Machine.trace_congr (M := panel p)
        (N := panel { p with sim := Harness.after p.operands (k + 1) }) rfl]
      exact completed

theorem Responsive.of_underWay (runs : Runs k p) (underWay : p.Locked → p.UnderWay)
    (idle : p.stateWord = .stby ∨ p.stateWord = .done → ¬p.Locked) : Responsive p where
  underWay := underWay
  completes locked := by
    have more := (runs.bounds (underWay locked)).1
    exact completes_of_left runs (underWay locked) (Nat.add_sub_of_le more)
  idle := idle

theorem Responsive.of_unlocked (free : ¬p.Locked) : Responsive p :=
  ⟨fun locked => absurd locked free, fun locked => absurd locked free, fun _ => free⟩

theorem finished_unlocked : ¬p.finished.Locked := by
  simp [State.Locked, State.finished]

theorem Responsive.advance (idle : p.stateWord = .stby ∨ p.stateWord = .done → ¬p.Locked)
    (runs : Runs k p) (more : k ≤ 32) : Responsive (p.advance k) := by
  have advanced := runs.advance more
  by_cases last : k = 32
  · rw [State.advance, if_pos last]
    exact .of_unlocked finished_unlocked
  · have underWay := advanced.underWay (Nat.succ_pos k) (by omega)
    rw [State.advance, if_neg last] at advanced underWay ⊢
    exact .of_underWay advanced (fun _ => underWay) idle

theorem run_responsive : Responsive (p.run f) := by
  refine .of_underWay run_runs (fun _ => Or.inl rfl) fun idle => ?_
  simp [State.run, State.arm, State.setRunning] at idle

theorem resetPanel_responsive : Responsive (p.resetPanel f) :=
  .of_unlocked (by simp [State.Locked, State.resetPanel, State.setRunning])

/-- `prove` is the only handler that has to find the controls enabled. -/
theorem Effect.responsive {e : Event} {q : State} (effect : Effect k p e q) (runs : Runs k p)
    (responsive : Responsive p) (guard : Proves p e → ¬p.Locked) : Responsive q := by
  cases effect with
  | nothing => exact responsive
  | run => exact run_responsive
  | resetPanel => exact resetPanel_responsive
  | prove pending proves => exact .of_unlocked fun locked => guard proves locked
  | tick live more => exact .advance responsive.idle runs more
  | carryOn started more => exact .advance (p := p.stop) responsive.idle runs.stop more
  | afresh =>
      refine .advance (p := p.begin e.fields) (fun idle => ?_) begin_runs (Nat.zero_le 32)
      simp [State.begin, State.arm, State.setRunning] at idle

variable (sim : Harness) (reducedMotion : Bool) (f : Fields) (events : ℕ → Event)

theorem boot_responsive : Responsive (boot sim reducedMotion f) := by
  cases reducedMotion with
  | true => exact resetPanel_responsive
  | false => exact run_responsive

/-- A demonstration that starts while a control is disabled leaves an idle panel
with that control disabled. -/
theorem stuck_of_prove {e : Event} (proves : Proves p e) (locked : p.Locked) :
    ¬Responsive (p.on e) := by
  intro responsive
  obtain ⟨pending, same⟩ := on_proves proves
  rw [same] at responsive
  -- `prove` shows STANDBY and leaves both flags as they are.
  exact responsive.idle (Or.inl rfl) locked

/-- Nothing else does: up to any moment of any session the panel keeps its
promise if and only if no demonstration has started under a disabled control. -/
theorem responsive_iff (n : ℕ) :
    (∀ j ≤ n, Responsive (session sim reducedMotion f events j)) ↔
      ∀ j < n, Proves (session sim reducedMotion f events j) (events j) →
        ¬(session sim reducedMotion f events j).Locked := by
  constructor
  · intro responsive j earlier proves locked
    exact stuck_of_prove proves locked (responsive (j + 1) earlier)
  · intro guard j within
    induction j with
    | zero => exact boot_responsive sim reducedMotion f
    | succ j ih =>
        obtain ⟨k, runs⟩ := session_runs sim reducedMotion f events j
        exact (on_effect runs (events j)).responsive runs (ih (by omega)) (guard j within)

/-- The page as it comes up, and a click on Prove one tick into its first run. -/
def proveDuringRun : ℕ → Event
  | 0 => ⟨.tick, pageFields⟩
  | _ => ⟨.prove, pageFields⟩

theorem proveDuringRun_stuck :
    ¬Responsive (session .initial false pageFields proveDuringRun 2) := by
  have ticked : ((page .initial).run pageFields).tick = ((page .initial).run pageFields).advance 0 :=
    tick_eq run_runs rfl
  apply stuck_of_prove (e := proveDuringRun 1)
  · exact Or.inl rfl
  · left
    change ((page .initial).run pageFields).tick.btnRunDisabled = true
    rw [ticked]
    rfl

end BlindSig.Demo

import BlindSig.DemoPanel

set_option autoImplicit false

namespace BlindSig.Demo

open Clocked

/-- The circuit is `k` steps into the operands that the panel keeps, and a live
timer will report the same ones. -/
structure Runs (k : ℕ) (p : State) : Prop where
  sim : p.sim = Harness.after p.operands k
  within : p.operands.a.toNat < p.operands.m.toNat
  inside : k ≤ 33
  timer : ∀ o, p.timer = some o → o = p.operands ∧ k ≤ 32

/-- The event calls `prove`. -/
def Proves (p : State) (e : Event) : Prop :=
  e.handler = .prove ∨ e.handler = .autoProve ∧ p.pending ≠ 0

namespace State

/-- A run ends: `finish` has been called with the operands of the panel. -/
def finished (p : State) : State :=
  { p with
    sim := Harness.after p.operands 33
    timer := none
    stateWord := .done
    finishes := p.finishes ++ [⟨p.operands, 33, p.reducedA, Harness.after p.operands 33⟩]
    btnRunDisabled := false
    inputsDisabled := false
    proved := true
    pending := if p.proved then p.pending else p.pending + 1 }

/-- One step of the circuit after `k` earlier ones. -/
def advance (k : ℕ) (p : State) : State :=
  if k = 32 then p.finished else { p with sim := Harness.after p.operands (k + 1) }

/-- A Step on a circuit that is not under way loads the fields first. -/
def begin (p : State) (f : Fields) : State := ((p.stop.reload f).arm).setRunning true true

end State

variable {k : ℕ} {p : State} {f : Fields}

/-- Only the circuit, the operands and the timer count. -/
theorem Runs.frame {q : State} (runs : Runs k p) (sim : q.sim = p.sim)
    (operands : q.operands = p.operands)
    (timer : ∀ o, q.timer = some o → o = q.operands ∧ k ≤ 32) : Runs k q where
  sim := by rw [sim, operands, runs.sim]
  within := by rw [operands]; exact runs.within
  inside := runs.inside
  timer := timer

theorem reload_runs : Runs 0 (p.stop.reload f) where
  sim := Harness.simLoad_simReset _ _
  within := (readInputs_within f).2
  inside := Nat.zero_le 33
  timer _ live := by cases live

theorem run_runs : Runs 0 (p.run f) :=
  reload_runs.frame (p := p.stop.reload f) rfl rfl
    fun _ live => ⟨(Option.some.inj live).symm, Nat.zero_le 32⟩

theorem resetPanel_runs : Runs 0 (p.resetPanel f) :=
  reload_runs.frame (p := p.stop.reload f) rfl rfl fun _ live => by cases live

theorem begin_runs : Runs 0 (p.begin f) :=
  reload_runs.frame (p := p.stop.reload f) rfl rfl fun _ live => by cases live

theorem prove_runs : Runs 0 (p.prove f) :=
  reload_runs.frame (p := p.stop.reload f) rfl rfl fun _ live => by cases live

theorem Runs.advance (runs : Runs k p) (more : k ≤ 32) : Runs (k + 1) (p.advance k) := by
  by_cases last : k = 32
  · rw [State.advance, if_pos last]
    exact ⟨by rw [last]; rfl, runs.within, by omega, fun o live => by cases live⟩
  · rw [State.advance, if_neg last]
    exact ⟨rfl, runs.within, by omega, fun o live => ⟨(runs.timer o live).1, by omega⟩⟩

/-- On the result of the circuit `finish` agrees with the reference. -/
theorem finish_eq {o : Operands} (circuit : p.sim = Harness.after o 33)
    (within : o.a.toNat < o.m.toNat) : p.finish o.a o.b o.m 33 =
      { p with
        stateWord := .done
        finishes := p.finishes ++ [⟨o, 33, p.reducedA, p.sim⟩]
        btnRunDisabled := false
        inputsDisabled := false
        proved := true
        pending := if p.proved then p.pending else p.pending + 1 } := by
  have ok : (p.sim.simResult.toNat == bigMulMod o.a o.b o.m) = true := by
    rw [circuit, Harness.simResult_after o within, beq_self_eq_true]
  rw [State.finish]
  simp only [ok, ↓reduceIte, Bool.true_and]
  cases proved : p.proved <;> simp [State.setRunning]

theorem tick_eq (runs : Runs k p) {o : Operands} (live : p.timer = some o) :
    p.tick = p.advance k := by
  obtain ⟨rfl, more⟩ := runs.timer o live
  simp only [State.tick, live, runs.sim, Harness.simStep_after p.operands more, State.advance,
    decide_eq_true_eq, Harness.simCycles_after]
  by_cases last : k = 32
  · subst last
    rw [if_pos rfl, if_pos rfl]
    exact finish_eq (p := { p with sim := Harness.after p.operands 33 }.stop) rfl runs.within
  · rw [if_neg last, if_neg last]

theorem stepLoaded_eq (runs : Runs k p) (more : k ≤ 32) (stopped : p.timer = none) :
    p.stepLoaded = p.advance k := by
  simp only [State.stepLoaded, runs.sim, Harness.simStep_after p.operands more, State.advance,
    decide_eq_true_eq, Harness.simCycles_after]
  by_cases last : k = 32
  · subst last
    rw [if_pos rfl, if_pos rfl]
    exact (finish_eq (p := { p with sim := Harness.after p.operands 33 }) rfl runs.within).trans
      (by rw [State.finished, stopped])
  · rw [if_neg last, if_neg last]

theorem Runs.stop (runs : Runs k p) : Runs k p.stop :=
  runs.frame rfl rfl fun _ live => by cases live

theorem Runs.simCycles (runs : Runs k p) : p.sim.simCycles = BitVec.ofNat 32 k := by
  rw [runs.sim, Harness.simCycles_after]

theorem stepOne_continue (runs : Runs k p) (started : 0 < k) (more : k ≤ 32) :
    p.stepOne f = p.stop.advance k := by
  have working : ¬(p.stop.sim.simCycles = 0 ∨ 33 ≤ p.stop.sim.simCycles) := by
    rw [runs.stop.simCycles]
    bv_omega
  exact (if_neg working).trans (stepLoaded_eq runs.stop more rfl)

theorem stepOne_afresh (runs : Runs k p) (idle : k = 0 ∨ k = 33) :
    p.stepOne f = (p.begin f).advance 0 := by
  have resting : p.stop.sim.simCycles = 0 ∨ 33 ≤ p.stop.sim.simCycles := by
    rw [runs.stop.simCycles]
    bv_omega
  exact (if_pos resting).trans (stepLoaded_eq begin_runs (Nat.zero_le 32) rfl)

/-- All that an event can do to a panel `k` steps into its operands. -/
inductive Effect (k : ℕ) (p : State) (e : Event) : State → Prop
  | nothing : Effect k p e p
  | run : Effect k p e (p.run e.fields)
  | resetPanel : Effect k p e (p.resetPanel e.fields)
  | prove (pending : ℕ) (proves : Proves p e) :
      Effect k p e ({ p with pending := pending }.prove e.fields)
  | tick (live : p.timer.isSome = true) (more : k ≤ 32) : Effect k p e (p.advance k)
  | carryOn (started : 0 < k) (more : k ≤ 32) : Effect k p e (p.stop.advance k)
  | afresh : Effect k p e ((p.begin e.fields).advance 0)

theorem on_proves {e : Event} (proves : Proves p e) :
    ∃ pending, p.on e = { p with pending := pending }.prove e.fields := by
  rcases proves with clicked | ⟨due, scheduled⟩
  · exact ⟨p.pending, by rw [State.on, clicked]⟩
  · exact ⟨p.pending - 1, by rw [State.on, due]; exact if_neg scheduled⟩

theorem on_effect (runs : Runs k p) (e : Event) : Effect k p e (p.on e) := by
  cases handler : e.handler with
  | run => rw [State.on, handler]; exact .run
  | reset => rw [State.on, handler]; exact .resetPanel
  | prove =>
      have proves : Proves p e := Or.inl handler
      obtain ⟨pending, same⟩ := on_proves proves
      exact same ▸ .prove pending proves
  | autoProve =>
      by_cases scheduled : p.pending = 0
      · rw [State.on, handler]
        simp only [scheduled, ↓reduceIte]
        exact .nothing
      · have proves : Proves p e := Or.inr ⟨handler, scheduled⟩
        obtain ⟨pending, same⟩ := on_proves proves
        exact same ▸ .prove pending proves
  | step =>
      rw [State.on, handler]
      rcases Nat.eq_zero_or_pos k with zero | started
      · exact stepOne_afresh runs (Or.inl zero) ▸ .afresh
      · by_cases more : k ≤ 32
        · exact stepOne_continue runs started more ▸ .carryOn started more
        · have inside := runs.inside
          exact stepOne_afresh runs (Or.inr (by omega)) ▸ .afresh
  | tick =>
      rw [State.on, handler]
      cases timer : p.timer with
      | none =>
          simp only [State.tick, timer]
          exact .nothing
      | some o =>
          have live : p.timer.isSome = true := by rw [timer]; rfl
          exact tick_eq runs timer ▸ .tick live (runs.timer o timer).2

theorem Effect.runs {e : Event} {q : State} (effect : Effect k p e q) (runs : Runs k p) :
    ∃ j, Runs j q := by
  cases effect with
  | nothing => exact ⟨k, runs⟩
  | run => exact ⟨0, run_runs⟩
  | resetPanel => exact ⟨0, resetPanel_runs⟩
  | prove => exact ⟨0, prove_runs⟩
  | tick live more => exact ⟨k + 1, runs.advance more⟩
  | carryOn started more => exact ⟨k + 1, runs.stop.advance more⟩
  | afresh => exact ⟨0 + 1, begin_runs.advance (Nat.zero_le 32)⟩

/-- A call of `finish` with the operands that the circuit has run on. -/
structure Finish.Faithful (call : Finish) : Prop where
  circuit : call.sim = Harness.after call.operands 33
  latched : call.sim.top.aReg = call.operands.a ∧ call.sim.top.mReg = call.operands.m
  cycles : call.cycles = 33
  result : call.sim.simResult.toNat =
    bigMulMod call.operands.a call.operands.b call.operands.m

/-- A demonstration that finds what it claims. -/
structure Verdict.Holds (v : Verdict) : Prop where
  four : v.rows.length = 4
  rows : ∀ row ∈ v.rows,
    row.res.toNat = bigMulMod row.operands.a row.operands.b row.operands.m ∧ row.cyc = 33 ∧
      row.ok = true
  conclusion : v.refCyc = some 33 ∧ v.allSame = true ∧ v.allOk = true

structure Truthful (p : State) : Prop where
  finishes : ∀ call ∈ p.finishes, call.Faithful
  verdicts : ∀ v ∈ p.verdicts, v.Holds
  noFault : p.stateWord ≠ .fault

theorem faithful_after {o : Operands} (within : o.a.toNat < o.m.toNat) (reducedA : Bool) :
    Finish.Faithful ⟨o, 33, reducedA, Harness.after o 33⟩ where
  circuit := rfl
  latched := by
    obtain ⟨a, -, m⟩ := Harness.after_latched o (Nat.le_refl 32)
    exact ⟨a, m⟩
  cycles := rfl
  result := Harness.simResult_after o within

/-- The row of a case whose operands meet the precondition. -/
def provenRow (a m b : U32) : Row :=
  ⟨⟨a, b, m⟩, (Harness.after ⟨a, b, m⟩ 33).simResult, 33, true⟩

theorem proveCase_eq {a m : U32} (within : a.toNat < m.toNat) (sim : Harness) (v : Verdict)
    (b : U32) : proveCase a m (sim, v) b = (Harness.after ⟨a, b, m⟩ 33,
      { v with
        rows := v.rows ++ [provenRow a m b]
        refCyc := some (v.refCyc.getD 33)
        allSame := if v.refCyc.getD 33 = 33 then v.allSame else false }) := by
  have circuit : (sim.simReset.simLoad a b m).stepUntilDone 100 = Harness.after ⟨a, b, m⟩ 33 := by
    rw [Harness.simLoad_simReset ⟨a, b, m⟩ sim]
    exact Harness.stepUntilDone_after _ (Nat.zero_le 32) (by decide)
  have result := Harness.simResult_after ⟨a, b, m⟩ within
  have counted : (Harness.after ⟨a, b, m⟩ 33).simCycles = 33 := Harness.simCycles_after _ 33
  simp only [proveCase, circuit, result, counted, beq_self_eq_true, ↓reduceIte, provenRow]

/-- However many cases there are, each one is right and takes 33 cycles. -/
theorem foldl_proveCase {a m : U32} (within : a.toNat < m.toNat) (bs : List U32) (sim : Harness)
    (v : Verdict) (ref : v.refCyc = none ∨ v.refCyc = some 33) :
    (bs.foldl (proveCase a m) (sim, v)).2 =
      { v with
        rows := v.rows ++ bs.map (provenRow a m)
        refCyc := if bs = [] then v.refCyc else some 33 } := by
  induction bs generalizing sim v with
  | nil => simp
  | cons b rest ih =>
      have same : v.refCyc.getD 33 = 33 := by
        rcases ref with unset | set
        · rw [unset]
          rfl
        · rw [set]
          rfl
      rw [List.foldl_cons, proveCase_eq within, same, ih _ _ (Or.inr rfl)]
      simp

theorem proveCases_holds {m : U32} (large : 2 ≤ m.toNat) (sim : Harness) :
    (proveCases sim m).2.Holds := by
  have within : (m - 1).toNat < m.toNat := by bv_omega
  have shape := foldl_proveCase within [0, 0xFFFFFFFF, 0xDEADBEEF, m - 1] sim
    ⟨[], none, true, true⟩ (Or.inl rfl)
  rw [proveCases, shape]
  refine ⟨rfl, fun row listed => ?_, rfl, rfl, rfl⟩
  rw [List.nil_append] at listed
  obtain ⟨b, -, rfl⟩ := List.mem_map.mp listed
  exact ⟨Harness.simResult_after ⟨m - 1, b, m⟩ within, rfl, rfl⟩

theorem Truthful.advance (truthful : Truthful p) (within : p.operands.a.toNat < p.operands.m.toNat) :
    Truthful (p.advance k) := by
  by_cases last : k = 32
  · rw [State.advance, if_pos last]
    refine ⟨fun call listed => ?_, truthful.verdicts, by simp [State.finished]⟩
    rcases List.mem_append.mp listed with earlier | now
    · exact truthful.finishes call earlier
    · rw [List.mem_singleton.mp now]
      exact faithful_after within p.reducedA
  · rw [State.advance, if_neg last]
    exact ⟨truthful.finishes, truthful.verdicts, truthful.noFault⟩

theorem Truthful.run (truthful : Truthful p) : Truthful (p.run f) :=
  ⟨truthful.finishes, truthful.verdicts, by simp [State.run, State.arm, State.setRunning]⟩

theorem Truthful.resetPanel (truthful : Truthful p) : Truthful (p.resetPanel f) :=
  ⟨truthful.finishes, truthful.verdicts, by simp [State.resetPanel, State.setRunning]⟩

theorem Truthful.begin (truthful : Truthful p) : Truthful (p.begin f) :=
  ⟨truthful.finishes, truthful.verdicts, by simp [State.begin, State.arm, State.setRunning]⟩

theorem Truthful.prove (truthful : Truthful p) : Truthful (p.prove f) := by
  refine ⟨truthful.finishes, fun v listed => ?_, by simp [State.prove]⟩
  rcases List.mem_append.mp listed with earlier | now
  · exact truthful.verdicts v earlier
  · rw [List.mem_singleton.mp now]
    exact proveCases_holds (readInputs_within f).1 p.stop.sim

theorem Effect.truthful {e : Event} {q : State} (effect : Effect k p e q) (runs : Runs k p)
    (truthful : Truthful p) : Truthful q := by
  cases effect with
  | nothing => exact truthful
  | run => exact truthful.run
  | resetPanel => exact truthful.resetPanel
  | prove pending =>
      exact Truthful.prove ⟨truthful.finishes, truthful.verdicts, truthful.noFault⟩
  | tick live more => exact truthful.advance runs.within
  | carryOn started more =>
      exact Truthful.advance (p := p.stop)
        ⟨truthful.finishes, truthful.verdicts, truthful.noFault⟩ runs.within
  | afresh => exact truthful.begin.advance begin_runs.within

variable (sim : Harness) (reducedMotion : Bool) (f : Fields) (events : ℕ → Event)

theorem boot_runs : Runs 0 (boot sim reducedMotion f) := by
  cases reducedMotion with
  | true => exact resetPanel_runs
  | false => exact run_runs

theorem boot_truthful : Truthful (boot sim reducedMotion f) := by
  have blank : Truthful (page sim) :=
    ⟨fun _ listed => (List.not_mem_nil listed).elim,
      fun _ listed => (List.not_mem_nil listed).elim, StateWord.noConfusion⟩
  cases reducedMotion with
  | true => exact blank.resetPanel
  | false => exact blank.run

/-- Both invariants at once; the second one needs the first. -/
theorem session_sound (n : ℕ) : (∃ k, Runs k (session sim reducedMotion f events n)) ∧
    Truthful (session sim reducedMotion f events n) := by
  have reached : (panel (boot sim reducedMotion f)).Reachable
      (session sim reducedMotion f events n) := Machine.Reachable.reset.trace events n
  apply reached.invariant (fun p => (∃ k, Runs k p) ∧ Truthful p)
  · exact ⟨⟨0, boot_runs sim reducedMotion f⟩, boot_truthful sim reducedMotion f⟩
  · rintro p e ⟨⟨k, runs⟩, truthful⟩
    have effect := on_effect runs e
    exact ⟨effect.runs runs, effect.truthful runs truthful⟩

theorem session_runs (n : ℕ) : ∃ k, Runs k (session sim reducedMotion f events n) :=
  (session_sound sim reducedMotion f events n).1

/-- In every session, whatever happens in whatever order and whatever the
fields hold at each moment. -/
theorem session_truthful (n : ℕ) : Truthful (session sim reducedMotion f events n) :=
  (session_sound sim reducedMotion f events n).2

end BlindSig.Demo

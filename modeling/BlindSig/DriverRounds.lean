import BlindSig.DriverCompute

set_option autoImplicit false

/- Rounds without a reset in between: a finished peripheral takes no START. -/
namespace BlindSig.Driver

open Clocked Accel

variable {x m v : Word}

/-- The operand and the modulus after one load. -/
def Load.apply (registers : Word × Word) : Load → Word × Word
  | .modulus word => (registers.1, word)
  | .operand word => (word, registers.2)

/-- Every round answers for itself. -/
def independentRounds : Word × Word → List (List Load) → List (Except Unit ℕ)
  | _, [] => []
  | registers, loads :: more =>
      let registers := loads.foldl Load.apply registers
      square registers.1 registers.2 :: independentRounds registers more

/-- Rounds answer for themselves up to the first nonzero modulus; its answer
stands in all later rounds. -/
def stickyRounds : Word × Word → List (List Load) → List (Except Unit ℕ)
  | _, [] => []
  | registers, loads :: more =>
      let registers := loads.foldl Load.apply registers
      square registers.1 registers.2 ::
        if registers.2.toNat = 0 then stickyRounds registers more
        else more.map fun _ => square registers.1 registers.2

theorem triple_load (call : Load) : bus.Triple (Loaded x m) (load call)
    fun _ => Loaded (call.apply (x, m)).1 (call.apply (x, m)).2 := by
  cases call with
  | modulus word => exact triple_loadModulusWord word
  | operand word => exact triple_loadOperandWord word

theorem triple_loads (loads : List Load) : bus.Triple (Loaded x m) (loads.forM load)
    fun _ => Loaded (loads.foldl Load.apply (x, m)).1 (loads.foldl Load.apply (x, m)).2 := by
  induction loads generalizing x m with
  | nil => exact Bus.triple_pure fun s loaded => loaded
  | cons call loads ih => exact Bus.triple_bind (triple_load call) fun _ => ih

theorem triple_write_finished {offset : BitVec 5} {value : Word}
    (calm : ¬(busWrite offset value).resetWrite) :
    bus.Triple (Finished v) (mmioWrite offset value) fun _ => Finished v :=
  triple_mmioWrite stable_finished fun _ finished => finished.edge rfl calm

theorem not_resetWrite_of_data {offset : BitVec 5} {value : Word} (data : offset ≠ addrCtrl) :
    ¬(busWrite offset value).resetWrite :=
  fun written => data written.2.1.2

theorem triple_load_finished (call : Load) :
    bus.Triple (Finished v) (load call) fun _ => Finished v := by
  cases call with
  | modulus word =>
      refine Bus.triple_bind (triple_write_finished (by decide)) fun _ => ?_
      exact triple_write_finished (not_resetWrite_of_data (by decide))
  | operand word =>
      refine Bus.triple_bind (triple_write_finished (by decide)) fun _ => ?_
      exact triple_write_finished (not_resetWrite_of_data (by decide))

theorem triple_loads_finished (loads : List Load) :
    bus.Triple (Finished v) (loads.forM load) fun _ => Finished v := by
  induction loads with
  | nil => exact Bus.triple_pure fun s finished => finished
  | cons call loads ih => exact Bus.triple_bind (triple_load_finished call) fun _ => ih

/-- A START over a finished operation is ignored. -/
theorem triple_rounds_finished {polls : ℕ} (enough : 0 < polls) (more : List (List Load)) :
    bus.Triple (Finished v) (rounds polls more)
      fun outcomes _ => outcomes.map answer = more.map fun _ => some (.ok v.toNat) := by
  induction more with
  | nil => exact Bus.triple_pure fun s _ => rfl
  | cons loads more ih =>
      refine Bus.triple_bind (triple_loads_finished loads) fun _ => ?_
      refine Bus.triple_bind (triple_write_finished (by decide)) fun _ => ?_
      refine Bus.triple_bind (triple_wait_finished enough) fun outcome => ?_
      refine Bus.triple_bind (Q := fun outcomes _ => outcome = some (.ok v) ∧
        outcomes.map answer = more.map fun _ => some (.ok v.toNat)) ?_ fun outcomes => ?_
      · intro gap k s now
        exact ⟨now.1, ih gap k s now.2⟩
      · apply Bus.triple_pure
        rintro s ⟨rfl, later⟩
        rw [List.map_cons, List.map_cons, later]
        rfl

theorem triple_rounds {polls : ℕ} (enough : 69 ≤ polls) (more : List (List Load)) :
    bus.Triple (Loaded x m) (rounds polls more)
      fun outcomes _ => outcomes.map answer = (stickyRounds (x, m) more).map some := by
  induction more generalizing x m with
  | nil => exact Bus.triple_pure fun s _ => rfl
  | cons loads more ih =>
      refine Bus.triple_bind (triple_loads loads) fun _ => ?_
      rw [stickyRounds]
      generalize loads.foldl Load.apply (x, m) = registers
      obtain ⟨x', m'⟩ := registers
      refine Bus.triple_bind triple_start fun _ => ?_
      refine Bus.triple_bind (triple_wait enough) fun outcome => ?_
      refine Bus.triple_bind (Q := fun outcomes _ => answer outcome = some (square x' m') ∧
        outcomes.map answer = (if m'.toNat = 0 then stickyRounds (x', m') more
          else more.map fun _ => square x' m').map some) ?_ fun outcomes => ?_
      · intro gap k s answered
        refine ⟨answered.answer, ?_⟩
        have read := answered.answer
        unfold Answered at answered
        split at answered
        · -- refused: the next round starts from what has been loaded
          rename_i zero
          subst zero
          exact ih gap k s answered.2.loaded
        · rename_i nonzero
          have positive : ¬m'.toNat = 0 := fun zero => nonzero (BitVec.eq_of_toNat_eq zero)
          have stands : square x' m' = .ok (squareValue x' m').toNat := by
            rw [square, if_neg positive, squareValue_toNat nonzero, Nat.pow_two]
          rw [if_neg positive, stands, List.map_map]
          exact triple_rounds_finished (by omega) more gap k s answered.2
      · apply Bus.triple_pure
        rintro s ⟨now, later⟩
        rw [List.map_cons, List.map_cons, now, later]

/-- Without a reset between rounds each round answers for its own loads up to
and including the first one with a nonzero modulus, whose answer then stands. -/
theorem rounds_sticky (polls : ℕ) (enough : 69 ≤ polls) (gap : ℕ → List Idle)
    (more : List (List Load)) :
    (bus.run gap (rounds polls more) 0 .reset).value.map answer =
      (stickyRounds (0, 0) more).map some :=
  triple_rounds enough more gap 0 .reset loaded_reset

theorem rounds_sticky_three :
    (bus.run (fun _ => []) (rounds 69 [[.operand 10], [.modulus 7], [.modulus 13, .operand 15]]) 0
      .reset).value.map answer = [some (.error ()), some (.ok 2), some (.ok 2)] :=
  rounds_sticky 69 (Nat.le_refl 69) (fun _ => [])
    [[.operand 10], [.modulus 7], [.modulus 13, .operand 15]]

/-- 10 squared modulo 7 is read twice, although the second round has loaded 15
and 13. -/
theorem rounds_not_independent :
    ¬∀ polls, 69 ≤ polls → ∀ gap more,
      (bus.run gap (rounds polls more) 0 .reset).value.map answer =
        (independentRounds (0, 0) more).map some := by
  intro independent
  have claimed := independent 69 (Nat.le_refl 69) (fun _ => [])
    [[.modulus 7, .operand 10], [.modulus 13, .operand 15]]
  rw [triple_rounds (Nat.le_refl 69) _ (fun _ => []) 0 .reset loaded_reset] at claimed
  exact absurd claimed (by decide)

end BlindSig.Driver

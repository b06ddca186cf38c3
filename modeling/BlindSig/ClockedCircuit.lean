import Mathlib.Data.Nat.Log
import BlindSig.ClockedSerial

set_option autoImplicit false

namespace Clocked

variable {σ ι κ α ρ : Type*} {w c : ℕ}

/-- A counter of `$clog2(w) + 1` bits holds `w`. -/
theorem lt_two_pow_clog (w : ℕ) : w < 2 ^ (Nat.clog 2 w + 1) := by
  have covers := Nat.le_pow_clog (by decide : 1 < 2) w
  have positive := Nat.two_pow_pos (Nat.clog 2 w)
  rw [Nat.pow_succ]
  omega

/-- While `up` holds an edge of the circuit is one of the unit that `unit` shows of
it; any other edge resets it. -/
structure SerialCircuit (M : Machine σ ι) (D : Datapath κ α ρ) (w c : ℕ) where
  unit : σ → SerialUnit κ α ρ w c
  launch : ι → Launch κ w
  up : ι → Prop
  room : w < 2 ^ c
  fresh : (unit M.reset).Quiet
  held : ∀ s i, ¬up i → M.edge s i = M.reset
  runs : ∀ s i, up i → unit (M.edge s i) = (unit s).edge D (launch i)

namespace SerialCircuit

variable {M : Machine σ ι} {D : Datapath κ α ρ} (C : SerialCircuit M D w c) {s : σ} {i : ι}

include C in
theorem fits_edge (positive : 0 < w) (i : ι) (fits : (C.unit s).Fits) :
    (C.unit (M.edge s i)).Fits := by
  by_cases up : C.up i
  · rw [C.runs s i up]
    exact fits.edge positive C.room (C.launch i)
  · rw [C.held s i up]
    exact C.fresh.fits

theorem fits_of_reachable (positive : 0 < w) (reached : M.Reachable s) : (C.unit s).Fits :=
  reached.invariant (fun s => (C.unit s).Fits) C.fresh.fits
    fun _ i fits => C.fits_edge positive i fits

/-- An accepted start makes the value of the run due after `w` edges. -/
theorem due_start (positive : 0 < w) (up : C.up i) (idle : (C.unit s).running = false)
    (start : (C.launch i).start = true) :
    (C.unit (M.edge s i)).Due D (D.value (C.launch i).latch (C.launch i).bits) w := by
  rw [C.runs s i up]
  exact SerialUnit.Due.start positive C.room idle start

/-- The last round, or a reset in its place, ends a run. -/
theorem idle_edge {P : α → Prop} {latch : κ} (working : SerialUnit.Working P latch 1 (C.unit s)) :
    (C.unit (M.edge s i)).running = false := by
  by_cases up : C.up i
  · rw [C.runs s i up]
    exact working.last (C.launch i)
  · rw [C.held s i up]
    exact C.fresh.idle

section Run

variable {ins : ℕ → ι}

theorem unit_trace (up : ∀ n, C.up (ins n)) (n : ℕ) : C.unit (M.trace s ins n) =
    (SerialUnit.machine D (C.unit M.reset)).trace (C.unit s) (fun k => C.launch (ins k)) n := by
  induction n with
  | zero => rfl
  | succ n ih =>
      rw [Machine.trace_succ, Machine.trace_succ, ← ih]
      exact C.runs _ (ins n) (up n)

/-- What every round keeps holds in each round of a run. -/
theorem working_trace (P : α → Prop) (latch : κ)
    (rounds : ∀ bit acc, P acc → P (D.round latch bit acc)) (clear : P D.clear)
    (idle : (C.unit s).running = false) (start : (C.launch (ins 0)).start = true)
    (latches : (C.launch (ins 0)).latch = latch) (k : ℕ) (inside : k < w)
    (up : ∀ j ≤ k, C.up (ins j)) :
    SerialUnit.Working P latch (w - k) (C.unit (M.trace s ins (k + 1))) := by
  induction k with
  | zero =>
      rw [Machine.trace_succ, C.runs _ _ (up 0 (Nat.le_refl 0)), ← latches]
      exact SerialUnit.Working.start C.room clear idle start
  | succ k ih =>
      have before := ih (by omega) fun j earlier => up j (by omega)
      rw [show w - k = w - (k + 2) + 2 by omega] at before
      rw [Machine.trace_succ, C.runs _ _ (up (k + 1) (Nat.le_refl _)),
        show w - (k + 1) = w - (k + 2) + 1 by omega]
      exact before.edge rounds (C.launch (ins (k + 1)))

/-- A run is over after `w` edges, or sooner for a reset behind its rounds. -/
theorem idle_trace (positive : 0 < w) (idle : (C.unit s).running = false)
    (start : (C.launch (ins 0)).start = true) (up : ∀ j < w, C.up (ins j)) :
    (C.unit (M.trace s ins (w + 1))).running = false := by
  have working := C.working_trace (fun _ => True) _ (fun _ _ _ => trivial) trivial idle start rfl
    (w - 1) (by omega) fun j earlier => up j (by omega)
  rw [Nat.sub_add_cancel positive, Nat.sub_sub_self positive] at working
  exact C.idle_edge working

/-- The contract of the unit, over a run of the circuit from a reachable state. -/
theorem delivers (positive : 0 < w) (reached : M.Reachable s) (up : ∀ n, C.up (ins n)) :
    (∀ t, (C.unit (M.trace s ins t)).running = false → (C.launch (ins t)).start = true →
      (∀ k < w, (C.unit (M.trace s ins (t + 1 + k))).running = true ∧
        (C.unit (M.trace s ins (t + 1 + k))).done = false) ∧
      (C.unit (M.trace s ins (t + 1 + w))).running = false ∧
      (C.unit (M.trace s ins (t + 1 + w))).done = true ∧
      ∀ n, t + 1 + w ≤ n →
        (∀ k, t + 1 + w < k → k ≤ n → (C.unit (M.trace s ins k)).done = false) →
        (C.unit (M.trace s ins n)).result =
          D.value (C.launch (ins t)).latch (C.launch (ins t)).bits) ∧
    ∀ n, (C.unit (M.trace s ins (n + 1 + w))).done = true ↔
      (C.unit (M.trace s ins n)).running = false ∧ (C.launch (ins n)).start = true := by
  have contract := SerialUnit.trace_delivers (D := D) positive C.room (C.unit M.reset)
    (fun k => C.launch (ins k)) (C.fits_of_reachable positive reached)
  simpa only [← C.unit_trace up] using contract

end Run

end SerialCircuit
end Clocked

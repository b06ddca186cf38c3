import Mathlib.Tactic.TypeStar
import Mathlib.Tactic.Common

set_option autoImplicit false

namespace Clocked

variable {σ ι ε : Type*} (edge : σ → ι → σ) (safe : σ → Prop) (emit : σ → List ε)

/-- With `past` behind it, every run from a state meets `Q`, and is safe until then. -/
inductive Leads (Q : List ε → σ → Prop) : List ε → σ → Prop
  | done {past : List ε} {s : σ} (here : Q past s) : Leads Q past s
  | step {past : List ε} {s : σ} (now : safe s)
      (next : ∀ i, Leads Q (past ++ emit s) (edge s i)) : Leads Q past s

/-- The output of the first `n` cycles. -/
def emitted (run : ℕ → σ) (n : ℕ) : List ε := (List.range n).flatMap fun k => emit (run k)

theorem emitted_succ (run : ℕ → σ) (n : ℕ) :
    emitted emit run (n + 1) = emit (run 0) ++ emitted emit (fun k => run (k + 1)) n := by
  rw [emitted, List.range_succ_eq_map, List.flatMap_cons, List.flatMap_map]
  rfl

variable {edge safe emit} {Q R : List ε → σ → Prop} {past : List ε} {s : σ}

namespace Leads

theorem trans (first : Leads edge safe emit Q past s)
    (second : ∀ past s, Q past s → Leads edge safe emit R past s) :
    Leads edge safe emit R past s := by
  induction first with
  | done here => exact second _ _ here
  | step now next ih => exact .step now ih

/-- A cycle without output. -/
theorem quiet (now : safe s) (silent : emit s = [])
    (next : ∀ i, Leads edge safe emit Q past (edge s i)) : Leads edge safe emit Q past s := by
  refine .step now fun i => ?_
  rw [silent, List.append_nil]
  exact next i

/-- In a given run there is a cycle for it. -/
theorem reached (run : ℕ → σ) (runs : ∀ n, ∃ i, run (n + 1) = edge (run n) i)
    (leads : Leads edge safe emit Q past (run 0)) :
    ∃ n, Q (past ++ emitted emit run n) (run n) ∧ ∀ k < n, safe (run k) := by
  generalize start : run 0 = s at leads
  induction leads generalizing run with
  | done here =>
      refine ⟨0, ?_, fun k before => absurd before (Nat.not_lt_zero k)⟩
      rw [start]
      simpa [emitted] using here
  | step now next ih =>
      obtain ⟨i, first⟩ := runs 0
      obtain ⟨n, later, passed⟩ := ih i (fun k => run (k + 1)) (fun n => runs (n + 1))
        (by rw [first, start])
      refine ⟨n + 1, ?_, fun k before => ?_⟩
      · rw [emitted_succ, start, ← List.append_assoc]
        exact later
      · cases k with
        | zero => exact start ▸ now
        | succ k => exact passed k (Nat.lt_of_succ_lt_succ before)

end Leads

end Clocked

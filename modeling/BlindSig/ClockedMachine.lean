import Mathlib.Tactic.TypeStar
import Mathlib.Tactic.Common

set_option autoImplicit false

/- Synchronous circuits: one state, one transition for each rising clock edge.
A run is driven by an infinite stream of inputs, one for each cycle. -/
namespace Clocked

variable {σ τ ι κ ο : Type*}

/-- The state a hardware reset leaves, and the state after one clock edge. -/
structure Machine (σ ι : Type*) where
  reset : σ
  edge : σ → ι → σ

namespace Machine

/-- The state in cycle `n`. Input `n` is the one sampled by the edge ending
cycle `n`. -/
def trace (M : Machine σ ι) (s : σ) (ins : ℕ → ι) : ℕ → σ
  | 0 => s
  | n + 1 => M.edge (trace M s ins n) (ins n)

/-- States of the runs that start at the hardware reset. -/
inductive Reachable (M : Machine σ ι) : σ → Prop
  | reset : Reachable M M.reset
  | edge {s : σ} (reached : Reachable M s) (i : ι) : Reachable M (M.edge s i)

variable (M : Machine σ ι)

@[simp] theorem trace_zero (s : σ) (ins : ℕ → ι) : M.trace s ins 0 = s := rfl

theorem trace_succ (s : σ) (ins : ℕ → ι) (n : ℕ) :
    M.trace s ins (n + 1) = M.edge (M.trace s ins n) (ins n) := rfl

/-- A run can be cut at any cycle and continued from the state there. -/
theorem trace_add (s : σ) (ins : ℕ → ι) (m n : ℕ) :
    M.trace s ins (m + n) = M.trace (M.trace s ins m) (fun k => ins (m + k)) n := by
  induction n with
  | zero => rfl
  | succ n ih => rw [← Nat.add_assoc, trace_succ, trace_succ, ih]

/-- A run from a given state does not look at the reset state. -/
theorem trace_congr {M N : Machine σ ι} (same : M.edge = N.edge) (s : σ) (ins : ℕ → ι) (n : ℕ) :
    M.trace s ins n = N.trace s ins n := by
  induction n with
  | zero => rfl
  | succ n ih => rw [trace_succ, trace_succ, ih, same]

/-- A run does not look at the inputs after its end. -/
theorem trace_agree (s : σ) {ins ins' : ℕ → ι} (n : ℕ) (agree : ∀ k < n, ins k = ins' k) :
    M.trace s ins n = M.trace s ins' n := by
  induction n with
  | zero => rfl
  | succ n ih =>
      rw [trace_succ, trace_succ, ih fun k early => agree k (by omega),
        agree n (Nat.lt_succ_self n)]

theorem Reachable.trace {M : Machine σ ι} {s : σ} (reached : M.Reachable s)
    (ins : ℕ → ι) (n : ℕ) : M.Reachable (M.trace s ins n) := by
  induction n with
  | zero => exact reached
  | succ n ih => exact ih.edge (ins n)

theorem Reachable.invariant {M : Machine σ ι} {s : σ} (reached : M.Reachable s)
    (Inv : σ → Prop) (init : Inv M.reset) (step : ∀ s i, Inv s → Inv (M.edge s i)) : Inv s := by
  induction reached with
  | reset => exact init
  | edge _ i ih => exact step _ i ih

/-- An invariant that a guard on the state and the input keeps, along a run
whose steps all pass the guard. -/
theorem trace_guarded (Inv : σ → Prop) {Guard : σ → ι → Prop}
    (step : ∀ s i, Inv s → Guard s i → Inv (M.edge s i)) {s : σ} (start : Inv s)
    {ins : ℕ → ι} (guarded : ∀ n, Guard (M.trace s ins n) (ins n)) (n : ℕ) :
    Inv (M.trace s ins n) := by
  induction n with
  | zero => exact start
  | succ n ih => exact step _ _ ih (guarded n)

/-- Two runs whose inputs agree stay related. -/
theorem trace_related {N : Machine τ κ} (Rel : σ → τ → Prop) {Agree : ι → κ → Prop}
    (step : ∀ s t i j, Rel s t → Agree i j → Rel (M.edge s i) (N.edge t j))
    {s : σ} {t : τ} (start : Rel s t) {ins : ℕ → ι} {ins' : ℕ → κ}
    (agree : ∀ n, Agree (ins n) (ins' n)) (n : ℕ) :
    Rel (M.trace s ins n) (N.trace t ins' n) := by
  induction n with
  | zero => exact start
  | succ n ih => exact step _ _ _ _ ih (agree n)

/-- One input in front of a stream. -/
def feed (i : ι) (ins : ℕ → ι) : ℕ → ι
  | 0 => i
  | n + 1 => ins n

@[simp] theorem feed_zero (i : ι) (ins : ℕ → ι) : feed i ins 0 = i := rfl

@[simp] theorem feed_succ (i : ι) (ins : ℕ → ι) (n : ℕ) : feed i ins (n + 1) = ins n := rfl

theorem trace_feed (s : σ) (i : ι) (ins : ℕ → ι) (n : ℕ) :
    M.trace s (feed i ins) (n + 1) = M.trace (M.edge s i) ins n := by
  rw [Nat.add_comm, trace_add]
  simp only [Nat.add_comm 1, feed_succ, trace_succ, trace_zero, feed_zero]

/-- No stream of inputs tells the two states apart at the output `out`, which
may depend combinationally on the input of its cycle. -/
def Indist (out : σ → ι → ο) (s t : σ) : Prop :=
  ∀ ins n, out (M.trace s ins n) (ins n) = out (M.trace t ins n) (ins n)

variable {M}

theorem Indist.output {out : σ → ι → ο} {s t : σ} (same : M.Indist out s t) (i : ι) :
    out s i = out t i := same (fun _ => i) 0

theorem Indist.edge {out : σ → ι → ο} {s t : σ} (same : M.Indist out s t) (i : ι) :
    M.Indist out (M.edge s i) (M.edge t i) := by
  intro ins n
  have later := same (feed i ins) (n + 1)
  simpa only [trace_feed, feed_succ] using later

/-- Bisimilar states cannot be told apart. -/
theorem Indist.of_bisim {out : σ → ι → ο} (Rel : σ → σ → Prop)
    (step : ∀ s t i, Rel s t → Rel (M.edge s i) (M.edge t i))
    (output : ∀ s t i, Rel s t → out s i = out t i) {s t : σ} (start : Rel s t) :
    M.Indist out s t := by
  intro ins n
  apply output
  exact trace_related M Rel (fun s t i j rel (same : i = j) => same ▸ step s t i rel)
    start (fun _ => rfl) n

/-- The machine with a monitor beside it, which sees the state and the input of
every cycle and changes nothing. -/
def monitored {μ : Type*} (M : Machine σ ι) (init : μ) (watch : μ → σ → ι → μ) :
    Machine (σ × μ) ι where
  reset := (M.reset, init)
  edge s i := (M.edge s.1 i, watch s.2 s.1 i)

end Machine

/-- A phase whose rank drops with every cycle spent in it ends within its rank. -/
theorem exists_leave (Phase : ℕ → Prop) (rank : ℕ → ℕ)
    (drops : ∀ n, Phase n → Phase (n + 1) → rank (n + 1) < rank n)
    (positive : ∀ n, Phase n → 0 < rank n) (n : ℕ) : ∃ k ≤ rank n, ¬Phase (n + k) := by
  induction bound : rank n using Nat.strongRecOn generalizing n with
  | ind r ih =>
      by_cases now : Phase n
      · by_cases next : Phase (n + 1)
        · have less := drops n now next
          obtain ⟨k, within, left⟩ := ih (rank (n + 1)) (by omega) (n + 1) rfl
          exact ⟨k + 1, by omega, by rwa [← Nat.add_assoc, Nat.add_right_comm]⟩
        · exact ⟨1, bound ▸ positive n now, next⟩
      · exact ⟨0, Nat.zero_le _, now⟩

end Clocked

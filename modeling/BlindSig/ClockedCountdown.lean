import BlindSig.ClockedMachine

set_option autoImplicit false

namespace Clocked

/-- Cycles of work left (none when idle) and the completion pulse. -/
structure Countdown where
  left : ℕ
  done : Bool
deriving DecidableEq

namespace Countdown

/-- A start is accepted when idle and ignored at work. -/
def edge (span : ℕ) (c : Countdown) (start : Bool) : Countdown :=
  if c.left = 0 then ⟨if start then span else 0, false⟩
  else ⟨c.left - 1, decide (c.left = 1)⟩

def machine (span : ℕ) : Machine Countdown Bool := ⟨⟨0, false⟩, edge span⟩

/-- Never more work than one run, and no pulse while at work. -/
structure Fits (span : ℕ) (c : Countdown) : Prop where
  within : c.left ≤ span
  resting : c.done = true → c.left = 0

def Accepts (c : Countdown) (start : Bool) : Prop := c.left = 0 ∧ start = true

instance (c : Countdown) (start : Bool) : Decidable (c.Accepts start) :=
  inferInstanceAs (Decidable (_ ∧ _))

variable {span : ℕ} {c : Countdown} {start : Bool}

theorem Accepts.edge (accepted : c.Accepts start) : c.edge span start = ⟨span, false⟩ := by
  simp only [Countdown.edge, accepted.1, accepted.2, ↓reduceIte]

theorem edge_refused (idle : c.left = 0) (quiet : start = false) :
    c.edge span start = ⟨0, false⟩ := by
  simp [Countdown.edge, idle, quiet]

theorem edge_working (working : 0 < c.left) :
    c.edge span start = ⟨c.left - 1, decide (c.left = 1)⟩ := by
  simp only [Countdown.edge, Nat.ne_of_gt working, ↓reduceIte]

theorem Fits.edge (fits : Fits span c) (start : Bool) : Fits span (c.edge span start) := by
  have within := fits.within
  by_cases idle : c.left = 0
  · cases start with
    | false => rw [edge_refused idle rfl]; exact ⟨Nat.zero_le _, fun _ => rfl⟩
    | true =>
        rw [Accepts.edge ⟨idle, rfl⟩]
        exact ⟨Nat.le_refl _, fun pulse => by simp at pulse⟩
  · rw [edge_working (Nat.pos_of_ne_zero idle)]
    refine ⟨by simp only; omega, fun pulse => ?_⟩
    simp only [decide_eq_true_eq] at pulse ⊢
    omega

variable {starts : ℕ → Bool}

theorem Fits.trace (fits : Fits span c) (starts : ℕ → Bool) (n : ℕ) :
    Fits span ((machine span).trace c starts n) := by
  induction n with
  | zero => exact fits
  | succ n ih => exact ih.edge (starts n)

/-- Whatever the start input does meanwhile, an accepted start takes `span`
cycles of work. -/
theorem trace_working {t : ℕ}
    (accepted : ((machine span).trace c starts t).Accepts (starts t)) (k : ℕ) (inside : k < span) :
    (machine span).trace c starts (t + 1 + k) = ⟨span - k, false⟩ := by
  induction k with
  | zero => exact accepted.edge
  | succ k ih =>
      have before := ih (by omega)
      rw [← Nat.add_assoc, Machine.trace_succ, before]
      change edge span ⟨span - k, false⟩ _ = _
      rw [edge_working (by simp only; omega)]
      have more : span - k ≠ 1 := by omega
      simp only [more, decide_false, Nat.sub_sub]

/-- The pulse comes exactly `span` edges after the accepting one. -/
theorem trace_done {t : ℕ} (positive : 0 < span)
    (accepted : ((machine span).trace c starts t).Accepts (starts t)) :
    (machine span).trace c starts (t + 1 + span) = ⟨0, true⟩ := by
  obtain ⟨last, rfl⟩ : ∃ last, span = last + 1 := ⟨span - 1, by omega⟩
  have before := trace_working accepted last (Nat.lt_succ_self last)
  rw [← Nat.add_assoc, Machine.trace_succ, before]
  change edge (last + 1) ⟨last + 1 - last, false⟩ _ = _
  rw [edge_working (by simp only; omega)]
  simp

/-- Work in progress was accepted as many cycles ago as have been worked. -/
theorem accepted_of_left (fits : Fits span c) (n : ℕ) (worked : ℕ)
    (working : 0 < ((machine span).trace c starts (n + 1 + worked)).left)
    (left : ((machine span).trace c starts (n + 1 + worked)).left + worked = span) :
    ((machine span).trace c starts n).Accepts (starts n) := by
  induction worked with
  | zero =>
      have within := (fits.trace starts n).within
      by_cases idle : ((machine span).trace c starts n).left = 0
      · refine ⟨idle, ?_⟩
        by_contra quiet
        have stays : (machine span).trace c starts (n + 1) = ⟨0, false⟩ :=
          edge_refused idle (by simpa using quiet)
        simp [stays] at working
      · have down : (machine span).trace c starts (n + 1) = _ :=
          edge_working (Nat.pos_of_ne_zero idle)
        simp only [Nat.add_zero, down] at left
        omega
  | succ worked ih =>
      have next : (machine span).trace c starts (n + 1 + (worked + 1)) =
          edge span ((machine span).trace c starts (n + 1 + worked)) (starts (n + 1 + worked)) :=
        rfl
      rw [next] at working left
      by_cases idle : ((machine span).trace c starts (n + 1 + worked)).left = 0
      · cases start : starts (n + 1 + worked) with
        | false =>
            rw [edge_refused idle start] at working
            exact absurd working (Nat.lt_irrefl 0)
        | true =>
            rw [Accepts.edge ⟨idle, start⟩] at left
            simp only at left
            omega
      · rw [edge_working (Nat.pos_of_ne_zero idle)] at left
        simp only at left
        exact ih (Nat.pos_of_ne_zero idle) (by omega)

/-- Pulses and accepted starts correspond one to one, `span + 1` cycles apart. -/
theorem done_iff (positive : 0 < span) (fits : Fits span c) (n : ℕ) :
    ((machine span).trace c starts (n + 1 + span)).done = true ↔
      ((machine span).trace c starts n).Accepts (starts n) := by
  constructor
  · intro pulse
    obtain ⟨last, rfl⟩ : ∃ last, span = last + 1 := ⟨span - 1, by omega⟩
    rw [← Nat.add_assoc, Machine.trace_succ] at pulse
    change (edge (last + 1) _ _).done = true at pulse
    have one : ((machine (last + 1)).trace c starts (n + 1 + last)).left = 1 := by
      by_cases idle : ((machine (last + 1)).trace c starts (n + 1 + last)).left = 0
      · simp [Countdown.edge, idle] at pulse
      · rw [edge_working (Nat.pos_of_ne_zero idle)] at pulse
        simpa using pulse
    exact accepted_of_left fits n last (by omega) (by omega)
  · intro accepted
    rw [trace_done positive accepted]

end Countdown
end Clocked

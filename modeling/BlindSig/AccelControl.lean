import BlindSig.AccelStep

set_option autoImplicit false

namespace BlindSig.Accel

open Clocked

def State.inFlight (s : State) : Prop := s.cstate = .cReduce ∨ s.cstate = .cMul

instance (s : State) : Decidable s.inFlight := inferInstanceAs (Decidable (_ ∨ _))

/-- A waiting control always has a pulse coming, and the flags tell the outcome. -/
structure Control (s : State) : Prop where
  redmodFits : s.uRedmod.toSerial.Fits
  mulmodFits : s.uMulmod.toSerial.Fits
  reducing : s.cstate = .cReduce → s.flagBusy = true ∧
    (s.redmodStart = true ∨ s.uRedmod.busy = true ∨ s.uRedmod.done = true)
  multiplying : s.cstate = .cMul →
    s.mulmodStart = true ∨ s.uMulmod.busy = true ∨ s.uMulmod.done = true
  requested : s.redmodStart = true →
    s.cstate = .cReduce ∧ s.modulus ≠ 0 ∧ s.loadOpArmed = false ∧ s.loadModArmed = false
  handed : s.mulmodStart = true → s.cstate = .cMul
  busy : s.flagBusy = true → s.inFlight ∧ s.flagDone = false
  error : s.flagError = true → s.cstate = .cIdle ∧ s.flagDone = true
  finished : s.cstate = .cDone ↔ s.flagDone = true ∧ s.flagError = false
  blank : s.cstate ≠ .cDone → s.result = 0

theorem control_reset : Control .reset where
  redmodFits := (Redmod.circuit 32).fresh.fits
  mulmodFits := (Mulmod.circuit 32).fresh.fits
  reducing := by simp [State.reset]
  multiplying := by simp [State.reset]
  requested := by simp [State.reset]
  handed := by simp [State.reset]
  busy := by simp [State.reset]
  error := by simp [State.reset]
  finished := by simp [State.reset]
  blank := by simp [State.reset]

variable {s : State} {i : Pins}

theorem redmod_alive (released : i.rstN = true)
    (alive : s.redmodStart = true ∨ s.uRedmod.busy = true) :
    (s.edge i).uRedmod.busy = true ∨ (s.edge i).uRedmod.done = true := by
  have next := SerialUnit.edge_alive (D := Redmod.datapath 32) (u := s.uRedmod.toSerial)
    (i := ⟨s.redmodStart, s.modulus, s.operand⟩) (by decide) alive.symm
  rwa [← edge_redmod released] at next

theorem mulmod_alive (released : i.rstN = true)
    (alive : s.mulmodStart = true ∨ s.uMulmod.busy = true) :
    (s.edge i).uMulmod.busy = true ∨ (s.edge i).uMulmod.done = true := by
  have next := SerialUnit.edge_alive (D := Mulmod.datapath 32) (u := s.uMulmod.toSerial)
    (i := ⟨s.mulmodStart, (s.aReduced, s.modulus), s.aReduced⟩) (by decide) alive.symm
  rwa [← edge_mulmod released] at next

theorem requested_edge (released : i.rstN = true)
    (requested : (s.edge i).redmodStart = true) :
    (s.edge i).cstate = .cReduce ∧ (s.edge i).modulus ≠ 0 ∧ (s.edge i).loadOpArmed = false ∧
      (s.edge i).loadModArmed = false := by
  rw [edge_redmodStart released] at requested
  rcases obey_cases s i with order | order | order | keeps
  · simp [order, State.obey, State.reset] at requested
  · obtain ⟨idle, nonzero⟩ := command_start order
    have hands := not_handsOver (s := s) (by simp [idle])
    have completes := not_completes (s := s) (by simp [idle])
    rw [edge_cstate released, edge_modulus released, edge_loadOpArmed released,
      edge_loadModArmed released, hands, completes, order]
    exact ⟨rfl, nonzero, rfl, rfl⟩
  · simp [order, State.obey] at requested
  · simp [keeps.redmodStart] at requested

section Edge

variable (control : Control s) (released : i.rstN = true)

include control released

theorem reducing_edge (phase : (s.edge i).cstate = .cReduce) : (s.edge i).flagBusy = true ∧
    ((s.edge i).redmodStart = true ∨ (s.edge i).uRedmod.busy = true ∨
      (s.edge i).uRedmod.done = true) := by
  obtain ⟨handsOver, started | ⟨phase, kept⟩⟩ := reducing_edge_inv released phase
  · have completes := not_completes (s := s) (by simp [(command_start started).1])
    rw [edge_flagBusy released, edge_redmodStart released, completes, started]
    exact ⟨rfl, Or.inl rfl⟩
  · have completes := not_completes (s := s) (by simp [phase])
    have low : s.uRedmod.done = false := by simpa [State.handsOver, phase] using handsOver
    obtain ⟨busy, alive⟩ := control.reducing phase
    have keeps := obey_keeps (i := i) (by simp [phase]) kept
    refine ⟨?_, Or.inr (redmod_alive released (by simpa [low] using alive))⟩
    rw [edge_flagBusy released, completes, keeps.flagBusy, busy]
    rfl

theorem multiplying_edge (phase : (s.edge i).cstate = .cMul) :
    (s.edge i).mulmodStart = true ∨ (s.edge i).uMulmod.busy = true ∨
      (s.edge i).uMulmod.done = true := by
  rcases multiplying_edge_inv released phase with handsOver | ⟨phase, waiting, -⟩
  · left
    rw [edge_mulmodStart released, handsOver]
  · have low : s.uMulmod.done = false := by simpa [State.completes, phase] using waiting
    exact Or.inr (mulmod_alive released (by simpa [low] using control.multiplying phase))

theorem busy_edge (raised : (s.edge i).flagBusy = true) :
    (s.edge i).inFlight ∧ (s.edge i).flagDone = false := by
  rw [edge_flagBusy released, Bool.and_eq_true, Bool.not_eq_true'] at raised
  obtain ⟨completes, raised⟩ := raised
  unfold State.inFlight
  rw [edge_cstate released, edge_flagDone released, completes]
  rcases obey_cases s i with order | order | order | keeps
  · simp [order, State.obey, State.reset] at raised
  · rw [not_handsOver (by simp [(command_start order).1]), order]
    exact ⟨Or.inl rfl, rfl⟩
  · simp [order, State.obey] at raised
  · rw [keeps.flagBusy] at raised
    obtain ⟨flight, done⟩ := control.busy raised
    rw [keeps.cstate, keeps.flagDone, done]
    refine ⟨?_, rfl⟩
    cases s.handsOver with
    | true => exact Or.inr rfl
    | false => exact flight

theorem error_edge (raised : (s.edge i).flagError = true) :
    (s.edge i).cstate = .cIdle ∧ (s.edge i).flagDone = true := by
  rw [edge_flagError released] at raised
  have idle : s.cstate = .cIdle := by
    rcases obey_cases s i with order | order | order | keeps
    · simp [order, State.obey, State.reset] at raised
    · exact (command_start order).1
    · exact (command_refuse order).1
    · exact (control.error (keeps.flagError.symm.trans raised)).1
  rw [edge_cstate released, edge_flagDone released, not_handsOver (by simp [idle]),
    not_completes (by simp [idle])]
  rcases obey_cases s i with order | order | order | keeps
  · simp [order, State.obey, State.reset] at raised
  · simp [order, State.obey] at raised
  · rw [order]
    exact ⟨idle, rfl⟩
  · obtain ⟨-, done⟩ := control.error (keeps.flagError.symm.trans raised)
    exact ⟨keeps.cstate.trans idle, by rw [keeps.flagDone, done]; rfl⟩

/-- DONE without ERROR is exactly the state C_DONE, because a completion finds
ERROR low and a hand-over finds DONE low. -/
theorem finished_edge : (s.edge i).cstate = .cDone ↔
    (s.edge i).flagDone = true ∧ (s.edge i).flagError = false := by
  rw [edge_cstate released, edge_flagDone released, edge_flagError released]
  cases hands : s.handsOver with
  | true =>
      have phase := (handsOver_iff.mp hands).1
      have completes := not_completes (s := s) (by simp [phase])
      have low := (control.busy (control.reducing phase).1).2
      rw [completes]
      rcases obey_cases s i with order | order | order | keeps
      · simp [order, State.obey, State.reset]
      · simp [order, State.obey]
      · simp [(command_refuse order).1] at phase
      · simp [keeps.flagDone, low]
  | false =>
      cases completes : s.completes with
      | true =>
          have phase := (completes_iff.mp completes).1
          have low : s.flagError = false := by
            apply eq_false_of_ne_true
            intro raised
            simp [(control.error raised).1] at phase
          rcases obey_cases s i with order | order | order | keeps
          · simp [order, State.obey, State.reset]
          · simp [order, State.obey]
          · simp [(command_refuse order).1] at phase
          · simp [keeps.flagError, low]
      | false =>
          rcases obey_cases s i with order | order | order | keeps
          · simp [order, State.obey, State.reset]
          · simp [order, State.obey]
          · simp [order, State.obey, (command_refuse order).1]
          · simpa [keeps.cstate, keeps.flagDone, keeps.flagError] using control.finished

theorem blank_edge (unfinished : (s.edge i).cstate ≠ .cDone) : (s.edge i).result = 0 := by
  rw [edge_cstate released] at unfinished
  rw [edge_result released]
  cases completes : s.completes with
  | true =>
      have hands := not_handsOver (s := s) (by simp [(completes_iff.mp completes).1])
      simp [hands, completes] at unfinished
  | false =>
      have fresh : s.cstate ≠ .cDone → s.result = 0 := control.blank
      rcases obey_cases s i with order | order | order | keeps
      · rw [order]; rfl
      · rw [order]; exact fresh (by simp [(command_start order).1])
      · rw [order]; exact fresh (by simp [(command_refuse order).1])
      · have rest : s.cstate ≠ .cDone := by
          intro phase
          have hands := not_handsOver (s := s) (by simp [phase])
          simp [hands, completes, keeps.cstate, phase] at unfinished
        exact keeps.result.trans (fresh rest)

end Edge

theorem control_edge (control : Control s) (i : Pins) : Control (s.edge i) := by
  cases released : i.rstN with
  | false => rw [edge_held released]; exact control_reset
  | true => exact {
      redmodFits := (Redmod.circuit 32).fits_edge (by decide) _ control.redmodFits
      mulmodFits := (Mulmod.circuit 32).fits_edge (by decide) _ control.mulmodFits
      reducing := reducing_edge control released
      multiplying := multiplying_edge control released
      requested := requested_edge released
      handed := by
        intro handed
        rw [edge_mulmodStart released] at handed
        rw [edge_cstate released, handed, if_pos rfl]
      busy := busy_edge control released
      error := error_edge control released
      finished := finished_edge control released
      blank := blank_edge control released }

end BlindSig.Accel

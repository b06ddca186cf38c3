import BlindSig.AccelControl

set_option autoImplicit false

/- RESET and the completion of an operation in one cycle: DONE comes up, of an
operation that lies before the RESET. -/
namespace BlindSig.Accel

open Clocked

/-- What the cycles so far say about the last RESET. -/
structure History where
  /-- An operation has completed since. -/
  completed : Bool
  /-- It was sampled in the cycle of a completion. -/
  late : Bool

def History.fresh : History := ⟨false, false⟩

def History.watch (h : History) (s : State) (i : Pins) : History :=
  if i.rstN = false then .fresh
  else if i.resetWrite then ⟨false, s.completes⟩
  else ⟨h.completed || s.completes, h.late⟩

/-- An outcome is shown for an operation after the last RESET, or else that RESET
was late. -/
structure Traced (t : State × History) : Prop where
  control : Control t.1
  completed : t.2.completed = true ↔ t.1.cstate = .cDone ∧ t.2.late = false
  late : t.2.late = true → t.1.cstate = .cDone

theorem traced_reset : Traced (.reset, .fresh) :=
  ⟨control_reset, by simp [History.fresh, State.reset], by simp [History.fresh]⟩

variable {s : State} {h : History} {i : Pins}

theorem watch_quiet (released : i.rstN = true) (calm : ¬i.resetWrite) :
    h.watch s i = ⟨h.completed || s.completes, h.late⟩ := by
  rw [History.watch, if_neg (by simp [released]), if_neg calm]

/-- Without a RESET the control leaves C_DONE for no command, and enters it by a
completion only. -/
theorem edge_done_iff (released : i.rstN = true) (calm : ¬i.resetWrite)
    (completes : s.completes = false) : (s.edge i).cstate = .cDone ↔ s.cstate = .cDone := by
  rw [edge_cstate released, completes]
  cases hands : s.handsOver with
  | true => simp [(handsOver_iff.mp hands).1]
  | false =>
      rcases obey_cases s i with order | order | order | keeps
      · exact absurd (resetWrite_of_command released order) calm
      · simp [order, State.obey, (command_start order).1]
      · simp [order, State.obey, (command_refuse order).1]
      · simp [keeps.cstate]

theorem Traced.edge_written (traced : Traced (s, h)) (released : i.rstN = true)
    (written : i.resetWrite) : Traced (s.edge i, h.watch s i) := by
  have watched : h.watch s i = ⟨false, s.completes⟩ := by
    rw [History.watch, if_neg (by simp [released]), if_pos written]
  have phase : (s.edge i).cstate = .cDone ↔ s.completes = true := by
    rw [edge_cstate released, command_reset written]
    cases completes : s.completes with
    | true => simp [not_handsOver (s := s) (by simp [(completes_iff.mp completes).1])]
    | false => cases s.handsOver <;> simp [State.obey, State.reset]
  refine ⟨control_edge traced.control i, ?_, ?_⟩
  · simp [watched, phase]
  · simp [watched, phase]

theorem Traced.edge_calm (traced : Traced (s, h)) (released : i.rstN = true)
    (calm : ¬i.resetWrite) : Traced (s.edge i, h.watch s i) := by
  rw [watch_quiet released calm]
  refine ⟨control_edge traced.control i, ?_, ?_⟩
  · cases completes : s.completes with
    | true =>
        have phase : s.cstate = .cMul := (completes_iff.mp completes).1
        have timely : h.late = false := by
          apply eq_false_of_ne_true
          intro late
          simpa [phase] using traced.late late
        have done : (s.edge i).cstate = .cDone := by
          rw [edge_cstate released, not_handsOver (by simp [phase]), completes]
          rfl
        simp [timely, done]
    | false =>
        rw [Bool.or_false, edge_done_iff released calm completes]
        exact traced.completed
  · intro late
    have done : s.cstate = .cDone := traced.late late
    exact (edge_done_iff released calm (not_completes (by simp [done]))).mpr done

theorem Traced.edge (traced : Traced (s, h)) (i : Pins) : Traced (s.edge i, h.watch s i) := by
  cases released : i.rstN with
  | false =>
      rw [edge_held released, History.watch, if_pos released]
      exact traced_reset
  | true =>
      by_cases written : i.resetWrite
      · exact traced.edge_written released written
      · exact traced.edge_calm released written

/-- The peripheral with its history. -/
def audited : Machine (State × History) Pins := machine.monitored .fresh History.watch

theorem Traced.of_reachable {t : State × History} (reached : audited.Reachable t) : Traced t := by
  induction reached with
  | reset => exact traced_reset
  | edge _ i ih => exact ih.edge i

end BlindSig.Accel

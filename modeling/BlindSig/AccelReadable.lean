import BlindSig.AccelBusy

set_option autoImplicit false

namespace BlindSig.Accel

open Clocked

/-- The values of STATUS that are ever shown. -/
def statusIdle : Word := 0b000

def statusBusyOnly : Word := 0b001

def statusDoneOnly : Word := 0b010

def statusFailed : Word := 0b110

/-- The registers agree on what has happened. -/
structure Readable (s : State) : Prop where
  status : s.rdata addrStatus = statusIdle ∨ s.rdata addrStatus = statusBusyOnly ∨
    s.rdata addrStatus = statusDoneOnly ∨ s.rdata addrStatus = statusFailed
  error : s.rdata addrStatus = statusFailed → s.cstate = .cIdle ∧ s.rdata addrResult = 0
  finished : s.rdata addrStatus = statusDoneOnly ↔ s.cstate = .cDone
  result : s.rdata addrResult ≠ 0 → s.rdata addrStatus = statusDoneOnly

variable {s : State} {i : Pins}

@[simp] theorem rdata_status (s : State) : s.rdata addrStatus = s.status := rfl

/-- The three bits of STATUS determine the three flags. -/
theorem status_eq_iff (s : State) (busy done error : Bool) :
    s.status = 0#29 ++ BitVec.ofBool error ++ BitVec.ofBool done ++ BitVec.ofBool busy ↔
      s.flagBusy = busy ∧ s.flagDone = done ∧ s.flagError = error := by
  unfold State.status
  revert busy done error
  cases s.flagBusy <;> cases s.flagDone <;> cases s.flagError <;> decide

theorem status_failed_iff (s : State) :
    s.status = statusFailed ↔ s.flagBusy = false ∧ s.flagDone = true ∧ s.flagError = true :=
  status_eq_iff s false true true

theorem status_done_iff (s : State) :
    s.status = statusDoneOnly ↔ s.flagBusy = false ∧ s.flagDone = true ∧ s.flagError = false :=
  status_eq_iff s false true false

theorem status_busy_iff (s : State) :
    s.status = statusBusyOnly ↔ s.flagBusy = true ∧ s.flagDone = false ∧ s.flagError = false :=
  status_eq_iff s true false false

theorem status_idle_iff (s : State) :
    s.status = statusIdle ↔ s.flagBusy = false ∧ s.flagDone = false ∧ s.flagError = false :=
  status_eq_iff s false false false

/-- BUSY excludes the other two flags. -/
theorem Control.busy_alone (control : Control s) (busy : s.flagBusy = true) :
    s.flagDone = false ∧ s.flagError = false := by
  obtain ⟨-, done⟩ := control.busy busy
  refine ⟨done, eq_false_of_ne_true fun raised => ?_⟩
  have done' := (control.error raised).2
  rw [done] at done'
  cases done'

theorem Control.status (control : Control s) : s.status = statusIdle ∨
    s.status = statusBusyOnly ∨ s.status = statusDoneOnly ∨ s.status = statusFailed := by
  rw [status_idle_iff, status_busy_iff, status_done_iff, status_failed_iff]
  cases busy : s.flagBusy with
  | true =>
      obtain ⟨done, error⟩ := control.busy_alone busy
      exact Or.inr (Or.inl ⟨rfl, done, error⟩)
  | false =>
      cases error : s.flagError with
      | true => exact Or.inr (Or.inr (Or.inr ⟨rfl, (control.error error).2, rfl⟩))
      | false =>
          cases s.flagDone with
          | true => exact Or.inr (Or.inr (Or.inl ⟨rfl, rfl, rfl⟩))
          | false => exact Or.inl ⟨rfl, rfl, rfl⟩

theorem Control.status_done (control : Control s) : s.status = statusDoneOnly ↔ s.cstate = .cDone := by
  rw [status_done_iff, control.finished]
  constructor
  · exact fun flags => flags.2
  · intro flags
    refine ⟨eq_false_of_ne_true fun busy => ?_, flags⟩
    have done := (control.busy_alone busy).1
    rw [flags.1] at done
    cases done

theorem readable_of_control (control : Control s) : Readable s := by
  refine ⟨control.status, ?_, control.status_done, ?_⟩
  · intro failed
    rw [rdata_status, status_failed_iff] at failed
    have idle := (control.error failed.2.2).1
    exact ⟨idle, control.blank (by simp [idle])⟩
  · intro shown
    rw [rdata_status, control.status_done]
    by_contra unfinished
    exact shown (control.blank unfinished)

/-- A finished operation outlasts every command but RESET. -/
theorem done_edge (phase : s.cstate = .cDone) (released : i.rstN = true) (calm : ¬i.resetWrite) :
    (s.edge i).cstate = .cDone ∧ (s.edge i).status = s.status ∧ (s.edge i).result = s.result := by
  have active : s.cstate ≠ .cIdle := by simp [phase]
  have kept : s.command i ≠ .reset := fun order => calm (resetWrite_of_command released order)
  have keeps := obey_keeps active kept
  rw [edge_resting released (by simp [phase]) (by simp [phase])]
  refine ⟨keeps.cstate.trans phase, ?_, keeps.result⟩
  simp only [State.status, keeps.flagBusy, keeps.flagDone, keeps.flagError]

theorem done_trace (phase : s.cstate = .cDone) (ins : ℕ → Pins) (n : ℕ)
    (kept : ∀ k < n, (ins k).rstN = true ∧ ¬(ins k).resetWrite) :
    (machine.trace s ins n).cstate = .cDone ∧ (machine.trace s ins n).status = s.status ∧
      (machine.trace s ins n).result = s.result := by
  induction n with
  | zero => exact ⟨phase, rfl, rfl⟩
  | succ n ih =>
      obtain ⟨phase', status, result⟩ := ih fun k earlier => kept k (by omega)
      obtain ⟨released, calm⟩ := kept n (Nat.lt_succ_self n)
      obtain ⟨phase'', status', result'⟩ := done_edge phase' released calm
      exact ⟨phase'', status'.trans status, result'.trans result⟩

/-- In every reachable state STATUS and RESULT tell one consistent story, and
what they tell of a finished operation stays until a reset. -/
theorem readable_of_reachable (reached : machine.Reachable s) :
    Readable s ∧ (s.rdata addrStatus = statusDoneOnly → ∀ ins n,
      (∀ k < n, (ins k).rstN = true ∧ ¬(ins k).resetWrite) →
      (machine.trace s ins n).rdata addrStatus = s.rdata addrStatus ∧
        (machine.trace s ins n).rdata addrResult = s.rdata addrResult) := by
  have control := Control.of_reachable reached
  refine ⟨readable_of_control control, fun done ins n kept => ?_⟩
  have phase := control.status_done.mp done
  obtain ⟨-, status, result⟩ := done_trace phase ins n kept
  exact ⟨status, result⟩

/-- 10 squared modulo 7, finished. -/
def squaredTen : State := machine.trace .reset (script [busWrite addrCtrl 8, busWrite addrModulus 7,
  busWrite addrCtrl 4, busWrite addrOperand 10, busWrite addrCtrl 1]) 73

/-- The outcome outlasts another START and a LOAD_OP. -/
theorem readable_squaredTen :
    (machine.trace squaredTen (script [busWrite addrCtrl 1, busWrite addrCtrl 4]) 2).rdata addrResult =
      2 := by
  obtain ⟨-, stays⟩ := readable_of_reachable (s := squaredTen) (Machine.Reachable.reset.trace _ 73)
  obtain ⟨-, result⟩ := stays (by decide +kernel) (script [busWrite addrCtrl 1, busWrite addrCtrl 4]) 2
    (by decide)
  rw [result]
  decide +kernel

end BlindSig.Accel

import BlindSig.AccelFlight
import BlindSig.AccelBusy

set_option autoImplicit false

/- The soft reset against the hardware reset. The RESET command reaches neither
redmod nor mulmod, and the pipeline can override it. -/
namespace BlindSig.Accel

open Clocked

/-- Everything a cycle of the bus can read. -/
def readMux (s : State) (i : Pins) : BitVec 5 → Word := (s.settle i).rdata

/-- No report is consumed in the cycle of the RESET, redmod is not about to
latch, and what it works on is over before a new START can be accepted. -/
structure CleanReset (s : State) : Prop where
  noHandOver : s.handsOver = false
  noCompletion : s.completes = false
  noRequest : s.redmodStart = true → s.uRedmod.state ≠ .sIdle
  nearlyDone : s.uRedmod.state = .sRun → s.uRedmod.cnt.toNat ≤ 3

variable {s : State} {i : Pins} {r : Redmod.State 32} {m : Mulmod.State 32}

/-- Edges before an accepted START at the earliest: a modulus must be armed and
loaded first. -/
def State.spare (s : State) : ℕ :=
  if s.modulus ≠ 0 then 0 else if s.loadModArmed then 1 else 2

/-- The instances `r` and `m` in place of those of `s` cannot be told from them:
each agrees, or rests while the one of `s` ends an abandoned run in time. -/
structure Shadows (s : State) (r : Redmod.State 32) (m : Mulmod.State 32) : Prop where
  fits : r.toSerial.Fits
  redmod : SerialUnit.Same s.uRedmod.toSerial r.toSerial ∨
    s.cstate = .cIdle ∧ s.redmodStart = false ∧
      SerialUnit.Abandoned s.spare s.uRedmod.toSerial r.toSerial
  mulmod : SerialUnit.Same s.uMulmod.toSerial m.toSerial ∨
    s.cstate ≠ .cMul ∧ s.mulmodStart = false ∧
      SerialUnit.Abandoned r.toSerial.nearest s.uMulmod.toSerial m.toSerial

/-- The peripheral with other instances behind the same registers. -/
def State.withUnits (s : State) (r : Redmod.State 32) (m : Mulmod.State 32) : State :=
  { s with uRedmod := r, uMulmod := m }

theorem Shadows.handsOver (shadows : Shadows s r m) :
    (s.withUnits r m).handsOver = s.handsOver ∧
      (s.handsOver = true → r.result = s.uRedmod.result) := by
  rcases shadows.redmod with same | ⟨idle, -, -⟩
  · have done : s.uRedmod.done = r.done := same.done
    refine ⟨?_, fun hands => (same.result (handsOver_iff.mp hands).2).symm⟩
    rw [State.handsOver, State.handsOver, done]
    rfl
  · have waiting := not_handsOver (s := s) (by simp [idle])
    have waiting' := not_handsOver (s := s.withUnits r m) (by simp [State.withUnits, idle])
    rw [waiting, waiting']
    exact ⟨rfl, by simp⟩

theorem Shadows.completes (shadows : Shadows s r m) :
    (s.withUnits r m).completes = s.completes ∧
      (s.completes = true → m.result = s.uMulmod.result) := by
  rcases shadows.mulmod with same | ⟨other, -, -⟩
  · have done : s.uMulmod.done = m.done := same.done
    refine ⟨?_, fun completes => (same.result (completes_iff.mp completes).2).symm⟩
    rw [State.completes, State.completes, done]
    rfl
  · have pending := not_completes other
    have pending' := not_completes (s := s.withUnits r m) other
    rw [pending, pending']
    exact ⟨rfl, by simp⟩

/-- The registers move alike over both pairs of instances. -/
theorem Shadows.edge_withUnits (shadows : Shadows s r m) (released : i.rstN = true) :
    (s.withUnits r m).edge i =
      (s.edge i).withUnits (r.edge (s.redmodInput i)) (m.edge (s.mulmodInput i)) := by
  obtain ⟨hands, handed⟩ := shadows.handsOver
  obtain ⟨completes, completed⟩ := shadows.completes
  have obeyed : (s.withUnits r m).obey ((s.withUnits r m).command i) =
      (s.obey (s.command i)).withUnits r m := by
    change (s.withUnits r m).obey (s.command i) = _
    cases s.command i <;> rfl
  rw [edge_eq released, edge_eq released, hands, completes, obeyed]
  cases handsOver : s.handsOver <;> cases finishes : s.completes <;>
    simp_all [State.withUnits, State.redmodInput, State.mulmodInput]

/-- The control leaves its idle state through an accepted START only. -/
theorem idle_edge (released : i.rstN = true) (idle : s.cstate = .cIdle)
    (refused : s.command i ≠ .start) :
    (s.edge i).cstate = .cIdle ∧ (s.edge i).redmodStart = false := by
  rw [edge_resting released (by simp [idle]) (by simp [idle])]
  rcases obey_cases s i with order | order | order | keeps
  · rw [order]; exact ⟨rfl, rfl⟩
  · exact absurd order refused
  · rw [order]; exact ⟨idle, rfl⟩
  · exact ⟨keeps.cstate.trans idle, keeps.redmodStart⟩

theorem spare_le : s.spare ≤ 2 := by
  unfold State.spare
  split
  · omega
  · split <;> omega

theorem spare_unloaded (zero : s.modulus = 0) (unarmed : s.loadModArmed = false) :
    s.spare = 2 := by
  simp [State.spare, zero, unarmed]

/-- Loading a modulus takes an edge for each edge that it saves. -/
theorem spare_edge (released : i.rstN = true) : s.spare ≤ (s.edge i).spare + 1 := by
  have few := spare_le (s := s)
  have modulus := edge_modulus (s := s) released
  have armed := edge_loadModArmed (s := s) released
  cases order : s.command i with
  | reset =>
      rw [order] at modulus armed
      rw [spare_unloaded modulus armed]
      omega
  | refuse =>
      rw [order] at modulus armed
      rw [spare_unloaded (modulus.trans (command_refuse order).2) armed]
      omega
  | start =>
      rw [State.spare, if_pos (command_start order).2]
      exact Nat.zero_le _
  | modulus value =>
      rw [State.spare, command_modulus order]
      split <;> simp
  | loadMod =>
      rw [order] at modulus armed
      rw [State.spare, State.spare, modulus, armed]
      simp only [State.obey, ↓reduceIte]
      split
      · exact Nat.zero_le _
      · split <;> omega
  | quiet => rw [State.spare, State.spare, modulus, armed, order]; exact Nat.le_succ _
  | loadOp => rw [State.spare, State.spare, modulus, armed, order]; exact Nat.le_succ _
  | operand value => rw [State.spare, State.spare, modulus, armed, order]; exact Nat.le_succ _

theorem Shadows.redmod_edge (shadows : Shadows s r m) (released : i.rstN = true) :
    SerialUnit.Same (s.edge i).uRedmod.toSerial (r.edge (s.redmodInput i)).toSerial ∨
      (s.edge i).cstate = .cIdle ∧ (s.edge i).redmodStart = false ∧
        SerialUnit.Abandoned (s.edge i).spare (s.edge i).uRedmod.toSerial
          (r.edge (s.redmodInput i)).toSerial := by
  rw [edge_redmod released, Redmod.toSerial_edge r (s.redmodInput i) released]
  rcases shadows.redmod with same | ⟨idle, low, stale⟩
  · exact Or.inl (same.edge _)
  · by_cases started : s.command i = .start
    · -- the modulus is loaded by now, so the abandoned run is over
      have ended : s.spare = 0 := if_pos (command_start started).2
      rw [ended] at stale
      exact Or.inl (stale.same_edge low)
    · obtain ⟨idle', low'⟩ := idle_edge released idle started
      exact Or.inr ⟨idle', low', stale.edge (by decide) (by decide) low (spare_edge released)⟩

theorem Shadows.mulmod_edge (shadows : Shadows s r m) (released : i.rstN = true) :
    SerialUnit.Same (s.edge i).uMulmod.toSerial (m.edge (s.mulmodInput i)).toSerial ∨
      (s.edge i).cstate ≠ .cMul ∧ (s.edge i).mulmodStart = false ∧
        SerialUnit.Abandoned (r.edge (s.redmodInput i)).toSerial.nearest
          (s.edge i).uMulmod.toSerial (m.edge (s.mulmodInput i)).toSerial := by
  rw [edge_mulmod released, Mulmod.toSerial_edge m (s.mulmodInput i) released]
  rcases shadows.mulmod with same | ⟨other, low, stale⟩
  · exact Or.inl (same.edge _)
  · cases hands : s.handsOver with
    | true =>
        -- a report of redmod comes after the abandoned run of mulmod
        have pulse : r.toSerial.done = true := by
          have done := (handsOver_iff (s := s.withUnits r m)).mp (shadows.handsOver.1.trans hands)
          exact done.2
        rw [SerialUnit.nearest_of_done shadows.fits pulse] at stale
        exact Or.inl (stale.same_edge low)
    | false =>
        right
        refine ⟨?_, ?_, ?_⟩
        · intro phase'
          rcases multiplying_edge_inv released phase' with hands' | ⟨phase, -⟩
          · simp [hands] at hands'
          · exact other phase
        · rw [edge_mulmodStart released, hands]
        · apply stale.edge (by decide) (by decide) low
          rw [Redmod.toSerial_edge r (s.redmodInput i) released]
          exact SerialUnit.nearest_edge (by decide) shadows.fits _

/-- What the runs after a clean soft reset and after a hardware reset keep. -/
def ShadowedBy (s t : State) : Prop := ∃ r m, t = s.withUnits r m ∧ Shadows s r m

theorem shadowedBy_refl (fits : s.uRedmod.toSerial.Fits) : ShadowedBy s s :=
  ⟨s.uRedmod, s.uMulmod, rfl, fits, Or.inl (SerialUnit.Same.refl _),
    Or.inl (SerialUnit.Same.refl _)⟩

theorem ShadowedBy.edge {t : State} (shadowed : ShadowedBy s t) (i : Pins) :
    ShadowedBy (s.edge i) (t.edge i) := by
  obtain ⟨r, m, rfl, shadows⟩ := shadowed
  cases released : i.rstN with
  | false =>
      rw [edge_held released, edge_held released]
      exact shadowedBy_refl control_reset.redmodFits
  | true =>
      refine ⟨_, _, shadows.edge_withUnits released, ?_, ?_, ?_⟩
      · exact (Redmod.circuit 32).fits_edge (by decide) _ shadows.fits
      · exact shadows.redmod_edge released
      · exact shadows.mulmod_edge released

theorem ShadowedBy.readMux {t : State} (shadowed : ShadowedBy s t) (i : Pins) :
    Accel.readMux s i = Accel.readMux t i := by
  obtain ⟨r, m, rfl, -⟩ := shadowed
  unfold Accel.readMux State.settle
  split <;> rfl

section Reset

variable (control : Control s) (written : i.resetWrite)

include control written

theorem shadowedBy_reset (clean : CleanReset s) : ShadowedBy (s.edge i) .reset := by
  have released := written.1
  have order := command_reset (s := s) written
  have registers : (s.edge i).withUnits .reset .reset = .reset := by
    rw [edge_eq released, order, clean.noHandOver, clean.noCompletion]
    rfl
  have spare : (s.edge i).spare = 2 := by
    apply spare_unloaded
    · rw [edge_modulus released, order]; rfl
    · rw [edge_loadModArmed released, order]; rfl
  have fits := control_edge control i
  refine ⟨.reset, .reset, registers.symm, control_reset.redmodFits, ?_, ?_⟩
  · have quiet : (Redmod.State.reset : Redmod.State 32).toSerial.Quiet := ⟨rfl, rfl⟩
    cases running : s.uRedmod.busy with
    | false =>
        have low : s.redmodStart = false := by
          apply eq_false_of_ne_true
          intro start
          exact clean.noRequest start ((Redmod.busy_eq_false _).mp running)
        left
        rw [edge_redmod released, SerialUnit.edge_idle running low]
        exact SerialUnit.Quiet.same ⟨running, rfl⟩ quiet
    | true =>
        have phase : s.uRedmod.state = .sRun := by simpa [Redmod.State.busy] using running
        have few : s.uRedmod.toSerial.cnt.toNat ≤ 3 := clean.nearlyDone phase
        right
        refine ⟨?_, ?_, fits.redmodFits, ?_, quiet⟩
        · rw [edge_cstate released, clean.noHandOver, clean.noCompletion, order]; rfl
        · rw [edge_redmodStart released, order]; rfl
        · have due := control.redmodFits.due (D := Redmod.datapath 32) running
          have working := control.redmodFits.working running
          obtain ⟨n, count⟩ : ∃ n, s.uRedmod.toSerial.cnt.toNat = n + 1 :=
            ⟨s.uRedmod.toSerial.cnt.toNat - 1, by omega⟩
          rw [count] at due
          rw [spare, edge_redmod released]
          have next := due.edge ⟨s.redmodStart, s.modulus, s.operand⟩
          have left := next.left
          omega
  · right
    refine ⟨?_, ?_, fits.mulmodFits, ?_, ⟨rfl, rfl⟩⟩
    · rw [edge_cstate released, clean.noHandOver, clean.noCompletion, order]
      simp [State.obey, State.reset]
    · rw [edge_mulmodStart released, clean.noHandOver]
    · exact fits.mulmodFits.timer.within

theorem indist_of_clean (clean : CleanReset s) : machine.Indist readMux (s.edge i) .reset :=
  Machine.Indist.of_bisim ShadowedBy (fun _ _ i shadowed => shadowed.edge i)
    (fun _ _ i shadowed => shadowed.readMux i) (shadowedBy_reset control written clean)

end Reset

theorem status_bits (s : State) : s.status.getLsbD 0 = s.flagBusy ∧
    s.status.getLsbD 1 = s.flagDone ∧ s.status.getLsbD 2 = s.flagError := by
  unfold State.status
  cases s.flagBusy <;> cases s.flagDone <;> cases s.flagError <;> decide

/-- States that reads cannot tell apart show the same flags in every later cycle. -/
theorem flags_of_indist {t : State} (same : machine.Indist readMux s t) (ins : ℕ → Pins) {n : ℕ}
    (released : (ins n).rstN = true) :
    (machine.trace s ins n).flagBusy = (machine.trace t ins n).flagBusy ∧
      (machine.trace s ins n).flagDone = (machine.trace t ins n).flagDone := by
  have read := congrFun (same ins n) addrStatus
  have status : (machine.trace s ins n).status = (machine.trace t ins n).status := by
    simpa [readMux, State.settle, released, State.rdata] using read
  have bits := status_bits (machine.trace s ins n)
  have bits' := status_bits (machine.trace t ins n)
  rw [← bits.1, ← bits.2.1, ← bits'.1, ← bits'.2.1, status]
  exact ⟨rfl, rfl⟩

theorem trace_reset_silent (n : ℕ) : machine.trace .reset (fun _ => busIdle) n = .reset := by
  induction n with
  | zero => rfl
  | succ n ih =>
      rw [Machine.trace_succ, ih]
      decide +kernel

/-- A multiplication without BUSY raises DONE although the bus is silent. -/
theorem not_indist_of_multiplying (control : Control s) (phase : s.cstate = .cMul) :
    ¬machine.Indist readMux s .reset := by
  intro same
  have silent : ∀ n, (machine.trace s (fun _ => busIdle) n).flagDone = false := by
    intro n
    have flags := (flags_of_indist same (fun _ => busIdle) (n := n) rfl).2
    rw [flags, trace_reset_silent]
    rfl
  have pending : ∀ n, (machine.trace s (fun _ => busIdle) n).completes = false := by
    intro n
    have next := silent (n + 1)
    apply eq_false_of_ne_true
    intro completes
    rw [Machine.trace_succ] at next
    change ((machine.trace s _ n).edge busIdle).flagDone = false at next
    rw [edge_flagDone rfl, completes] at next
    cases next
  have stays : ∀ n, (machine.trace s (fun _ => busIdle) n).cstate = .cMul := by
    intro n
    induction n with
    | zero => exact phase
    | succ n ih =>
        change ((machine.trace s _ n).edge busIdle).cstate = .cMul
        rw [edge_cstate rfl, pending n, not_handsOver (by simp [ih]), command_quiet rfl]
        exact ih
  obtain ⟨k, -, left⟩ := exists_leave
    (fun n => (machine.trace s (fun _ => busIdle) n).cstate = .cMul)
    (fun n => (machine.trace s (fun _ => busIdle) n).uMulmod.toSerial.wait)
    (fun n now _ => by
      have low : (machine.trace s (fun _ => busIdle) n).uMulmod.done = false := by
        have waiting := pending n
        rw [State.completes, now] at waiting
        exact waiting
      have nearer := mulmod_wait_edge (control.trace _ n) (i := busIdle) rfl now low
      rw [← nearer]
      exact Nat.lt_succ_self _)
    (fun n _ => SerialUnit.wait_positive) 0
  exact left (stays _)

theorem redmod_due_trace {ins : ℕ → Pins} (released : ∀ n, (ins n).rstN = true) {v : Word} {n : ℕ}
    (due : s.uRedmod.toSerial.Due (Redmod.datapath 32) v n) (k : ℕ) (inside : k ≤ n) :
    (machine.trace s ins k).uRedmod.toSerial.Due (Redmod.datapath 32) v (n - k) := by
  induction k with
  | zero => exact due
  | succ k ih =>
      have now := ih (by omega)
      rw [show n - k = n - (k + 1) + 1 by omega] at now
      rw [Machine.trace_succ]
      change ((machine.trace s ins k).edge (ins k)).uRedmod.toSerial.Due _ _ _
      rw [edge_redmod (released k)]
      exact now.edge _

/-- The shortest way to an accepted START: the modulus 1, the operand untouched. -/
def quickStart : ℕ → Pins :=
  script [busWrite addrCtrl 8, busWrite addrModulus 1, busWrite addrCtrl 1]

theorem quickStart_silent {n : ℕ} (past : 3 ≤ n) : quickStart n = busIdle :=
  script_silent _ past

theorem quickStart_released (n : ℕ) : (quickStart n).rstN = true := by
  match n with
  | 0 => rfl
  | 1 => rfl
  | 2 => rfl
  | n + 3 => rw [quickStart_silent (by omega)]; rfl

theorem quickStart_busy (n : ℕ) (above : 3 ≤ n) (below : n ≤ 70) :
    (machine.trace .reset quickStart n).flagBusy = true := by
  have ready : Ready (machine.trace .reset quickStart 2) :=
    ⟨by decide +kernel, by decide +kernel, by decide +kernel,
      ⟨by decide +kernel, by decide +kernel⟩, ⟨by decide +kernel, by decide +kernel⟩⟩
  have calm : CalmAfterStart (fun k => quickStart (2 + k)) := by
    intro k positive
    dsimp only
    rw [quickStart_silent (by omega)]
    decide
  have busy := (trace_flight ready (by decide +kernel) (by decide) calm).1 (n - 2) (by omega)
    (by omega)
  rw [← Machine.trace_add, show 2 + (n - 2) = n by omega] at busy
  exact busy.flagBusy

/-- With three or more rounds left a stale reduction reports into the next
operation, which ends too early. -/
theorem not_indist_of_stale (control : Control s) {v : Word} {n : ℕ} (many : 3 ≤ n) (few : n ≤ 32)
    (due : s.uRedmod.toSerial.Due (Redmod.datapath 32) v n) :
    ¬machine.Indist readMux s .reset := by
  intro same
  have now := redmod_due_trace quickStart_released due 3 many
  have later := control.trace quickStart 3
  have short : (machine.trace s quickStart 3).rank ≤ 64 := by
    have redmod := now.wait_le
    have mulmod := later.mulmodFits.wait_le
    unfold State.rank
    split <;> omega
  obtain ⟨k, within, idle⟩ := later.exists_idle fun k => quickStart (3 + k)
  rw [← Machine.trace_add] at idle
  have busy := quickStart_busy (3 + k) (by omega) (by omega)
  have flags := (flags_of_indist same quickStart (quickStart_released (3 + k))).1
  rw [idle, busy] at flags
  cases flags

/-- A soft reset is as good as a hardware reset exactly when it is clean. -/
theorem indist_reset_iff (reached : machine.Reachable s) (written : i.resetWrite) :
    machine.Indist readMux (s.edge i) .reset ↔ CleanReset s := by
  have control := Control.of_reachable reached
  have control' := control_edge control i
  have released := written.1
  have order := command_reset (s := s) written
  refine ⟨fun same => ?_, indist_of_clean control written⟩
  constructor
  · apply eq_false_of_ne_true
    intro hands
    have phase : (s.edge i).cstate = .cMul := by rw [edge_cstate released, hands, if_pos rfl]
    exact not_indist_of_multiplying control' phase same
  · apply eq_false_of_ne_true
    intro completes
    have flags := (flags_of_indist same (fun _ => busIdle) (n := 0) rfl).2
    change (s.edge i).flagDone = false at flags
    rw [edge_flagDone released, completes] at flags
    cases flags
  · intro start idle
    have due := redmod_due (s := s) released ((Redmod.busy_eq_false _).mpr idle) start
    exact not_indist_of_stale control' (by omega) (Nat.le_refl 32) due same
  · intro phase
    apply Nat.le_of_not_lt
    intro many
    have running : s.uRedmod.toSerial.running = true := decide_eq_true phase
    have within := control.redmodFits.within running
    have due := control.redmodFits.due (D := Redmod.datapath 32) running
    change SerialUnit.Due _ _ s.uRedmod.cnt.toNat _ at due
    change s.uRedmod.cnt.toNat ≤ 32 at within
    rw [show s.uRedmod.cnt.toNat = s.uRedmod.cnt.toNat - 1 + 1 by omega] at due
    have next := due.edge ⟨s.redmodStart, s.modulus, s.operand⟩
    rw [← edge_redmod released] at next
    exact not_indist_of_stale control' (by omega) (by omega) next same

end BlindSig.Accel

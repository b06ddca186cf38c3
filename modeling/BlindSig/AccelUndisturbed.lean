import BlindSig.AccelFlight
import BlindSig.AccelTiming

set_option autoImplicit false

/- What later bus traffic can do to an accepted operation: mulmod latches the
modulus register 35 edges after redmod did. -/
namespace BlindSig.Accel

open Clocked

/-- BUSY alone up to edge 68, then DONE alone with the square of the operand
held at the START modulo the modulus held at the START. -/
structure Undisturbed (ins : ℕ → Pins) (s : State) : Prop where
  busy : ∀ n, 0 < n → n ≤ 68 → BusyOnly (machine.trace s ins n)
  idle : (machine.trace s ins 69).flagBusy = false
  done : (machine.trace s ins 69).flagDone = true
  error : (machine.trace s ins 69).flagError = false
  result : (machine.trace s ins 69).result.toNat = s.operand.toNat ^ 2 % s.modulus.toNat

/-- A CTRL write that arms the modulus while no START can be taken. -/
def Pins.loadMod (i : Pins) : Prop :=
  i.ctrlWrite ∧ i.wdata.getLsbD ctrlReset = false ∧ i.wdata.getLsbD ctrlLoadOp = false ∧
    i.wdata.getLsbD ctrlLoadMod = true

def Pins.modulusWrite (i : Pins) : Prop := i.wen = true ∧ i.addr = addrModulus

instance (i : Pins) : Decidable i.loadMod := inferInstanceAs (Decidable (_ ∧ _))

instance (i : Pins) : Decidable i.modulusWrite := inferInstanceAs (Decidable (_ ∧ _))

/-- The modulus register with its arm flag. -/
structure ModulusPort where
  armed : Bool
  modulus : Word
deriving DecidableEq

def State.modulusPort (s : State) : ModulusPort := ⟨s.loadModArmed, s.modulus⟩

/-- How the bus moves the port of an operation in flight. -/
def ModulusPort.edge (p : ModulusPort) (i : Pins) : ModulusPort :=
  if i.loadMod then { p with armed := true }
  else if i.modulusWrite ∧ p.armed = true then ⟨false, i.wdata⟩
  else p

def modulusPorts : Machine ModulusPort Pins := ⟨⟨false, 0⟩, ModulusPort.edge⟩

/-- The modulus register as mulmod latches it, read off the bus alone. -/
def heldModulus (m : Word) (ins : ℕ → Pins) : Word :=
  (modulusPorts.trace ⟨false, m⟩ (fun n => ins (n + 1)) 34).modulus

variable {s : State} {i : Pins} {ins : ℕ → Pins} {a v : Word} {n t : ℕ}

theorem active_edge (released : i.rstN = true) (calm : ¬i.resetWrite) (active : s.cstate ≠ .cIdle) :
    (s.edge i).cstate ≠ .cIdle := by
  obtain ⟨cstate, -⟩ := obey_in_flight released calm active
  rw [edge_cstate released, cstate]
  split
  · simp
  · split
    · simp
    · exact active

/-- In flight a START falls through to the LOAD bits. -/
theorem command_loadMod_iff (calm : ¬i.resetWrite) (released : i.rstN = true)
    (active : s.cstate ≠ .cIdle) : s.command i = .loadMod ↔ i.loadMod := by
  unfold Pins.resetWrite at calm
  unfold State.command Pins.loadMod
  unfold Pins.ctrlWrite at *
  grind

theorem command_modulus_iff :
    s.command i = .modulus v ↔ (i.modulusWrite ∧ s.loadModArmed = true) ∧ i.wdata = v := by
  have notCtrl : addrModulus ≠ addrCtrl := by decide
  have notOperand : addrModulus ≠ addrOperand := by decide
  unfold State.command Pins.modulusWrite
  grind

theorem modulusPort_edge (released : i.rstN = true) (calm : ¬i.resetWrite)
    (active : s.cstate ≠ .cIdle) : (s.edge i).modulusPort = s.modulusPort.edge i := by
  have loads := command_loadMod_iff calm released active
  have writes := @command_modulus_iff s i
  rw [State.modulusPort, edge_loadModArmed released, edge_modulus released, ModulusPort.edge]
  rcases command_in_flight released calm active with
    order | order | order | ⟨value, order⟩ | ⟨value, order⟩ <;> rw [order] at loads ⊢
  case inr.inr.inl => rw [if_pos (loads.mp rfl)]; rfl
  case inr.inr.inr.inr =>
    obtain ⟨write, data⟩ := writes.mp order
    rw [if_neg (fun load => nomatch loads.mpr load), ← data]
    exact (if_pos write).symm
  all_goals
    have keeps : ¬(i.modulusWrite ∧ s.loadModArmed = true) := by
      intro write
      have other := writes.mpr ⟨write, rfl⟩
      simp [order] at other
    rw [if_neg (fun load => nomatch loads.mpr load)]
    exact (if_neg keeps).symm

section Run

variable (ready : Ready s) (nonzero : s.modulus ≠ 0) (start : (ins 0).startWrite)
  (calm : CalmAfterStart ins)

include ready nonzero start calm

theorem trace_modulusPort (n : ℕ) :
    (machine.trace s ins (n + 1)).cstate ≠ .cIdle ∧
      (machine.trace s ins (n + 1)).modulusPort =
        modulusPorts.trace ⟨false, s.modulus⟩ (fun k => ins (k + 1)) n := by
  induction n with
  | zero =>
      have stage := ready.edge_start start nonzero
      refine ⟨?_, ?_⟩
      · change (s.edge (ins 0)).cstate ≠ .cIdle
        simp [stage.cstate]
      · change (s.edge (ins 0)).modulusPort = ⟨false, s.modulus⟩
        rw [State.modulusPort, stage.unarmed, stage.modulus]
  | succ n ih =>
      obtain ⟨active, port⟩ := ih
      obtain ⟨released, quiet⟩ := calm (n + 1) (by omega)
      refine ⟨active_edge released quiet active, ?_⟩
      apply (modulusPort_edge released quiet active).trans
      rw [port]
      rfl

theorem trace_finished :
    (∀ n, 0 < n → n ≤ 68 → BusyOnly (machine.trace s ins n)) ∧
      Finished (Mulmod.value (Redmod.value s.operand s.modulus) (Redmod.value s.operand s.modulus)
        (heldModulus s.modulus ins)) (machine.trace s ins 69) := by
  have held : (machine.trace s ins 35).modulus = heldModulus s.modulus ins :=
    congrArg ModulusPort.modulus (trace_modulusPort ready nonzero start calm 34).2
  rw [← held]
  exact trace_flight ready nonzero start calm

theorem undisturbed_iff_result : Undisturbed ins s ↔
    (Mulmod.value (Redmod.value s.operand s.modulus) (Redmod.value s.operand s.modulus)
      (heldModulus s.modulus ins)).toNat = s.operand.toNat ^ 2 % s.modulus.toNat := by
  obtain ⟨busy, finished⟩ := trace_finished ready nonzero start calm
  constructor
  · intro undisturbed
    rw [← undisturbed.result, finished.result]
  · intro square
    refine ⟨busy, finished.flagBusy, finished.flagDone, finished.flagError, ?_⟩
    rw [finished.result]
    exact square

end Run

/-- Squaring the remainder `x mod m` under the modulus `m'` still gives the
square of `x` modulo `m`. Over a modulus that does not exceed the remainder
mulmod runs out of its precondition. -/
def KeepsSquare (x m m' : Word) : Prop :=
  if m' = 0 then (x.toNat % m.toNat) ^ 2 % 2 ^ 32 = x.toNat ^ 2 % m.toNat
  else if x.toNat % m.toNat < m'.toNat then
    (x.toNat % m.toNat) ^ 2 % m'.toNat = x.toNat ^ 2 % m.toNat
  else (Mulmod.value (x % m) (x % m) m').toNat = x.toNat ^ 2 % m.toNat

instance (x m m' : Word) : Decidable (KeepsSquare x m m') := by
  unfold KeepsSquare
  infer_instance

theorem keepsSquare_iff {x m : Word} (nonzero : m ≠ 0) (m' : Word) :
    KeepsSquare x m m' ↔
      (Mulmod.value (Redmod.value x m) (Redmod.value x m) m').toNat = x.toNat ^ 2 % m.toNat := by
  have positive : 0 < m.toNat := Nat.pos_of_ne_zero fun zero => nonzero (BitVec.eq_of_toNat_eq zero)
  have remainder : (Redmod.value x m).toNat = x.toNat % m.toNat := Redmod.value_toNat x m positive
  unfold KeepsSquare
  split
  · rename_i zero
    rw [zero]
    change _ ↔ (Mulmod.value _ _ 0#32).toNat = _
    rw [Mulmod.value_zero_modulus, remainder, Nat.pow_two]
  · split
    · rename_i within
      rw [Mulmod.value_toNat _ _ m' (by rwa [remainder]), remainder, Nat.pow_two]
    · have same : Redmod.value x m = x % m := by
        apply BitVec.eq_of_toNat_eq
        rw [remainder, BitVec.toNat_umod]
      rw [same]

theorem keepsSquare_self {x m : Word} (nonzero : m ≠ 0) : KeepsSquare x m m := by
  have positive : 0 < m.toNat := Nat.pos_of_ne_zero fun zero => nonzero (BitVec.eq_of_toNat_eq zero)
  rw [KeepsSquare, if_neg nonzero, if_pos (Nat.mod_lt _ positive), ← Nat.pow_mod]

/-- An accepted operation goes undisturbed exactly when the modulus that later
traffic leaves for mulmod gives the same square. -/
theorem undisturbed_iff_keepsSquare (ready : Ready s) (nonzero : s.modulus ≠ 0)
    (start : (ins 0).startWrite) (calm : CalmAfterStart ins) :
    Undisturbed ins s ↔ KeepsSquare s.operand s.modulus (heldModulus s.modulus ins) := by
  rw [undisturbed_iff_result ready nonzero start calm, keepsSquare_iff nonzero]

/-- The START edge cleared the arm, so only a later LOAD_MOD can have set it. -/
theorem loadMod_of_armed {m : Word} (armed : (modulusPorts.trace ⟨false, m⟩ ins n).armed = true) :
    ∃ j < n, (ins j).loadMod := by
  induction n with
  | zero => simp at armed
  | succ n ih =>
      by_cases load : (ins n).loadMod
      · exact ⟨n, Nat.lt_succ_self n, load⟩
      · rw [Machine.trace_succ] at armed
        change (ModulusPort.edge _ _).armed = true at armed
        rw [ModulusPort.edge, if_neg load] at armed
        split at armed
        · simp at armed
        · obtain ⟨j, before, load⟩ := ih armed
          exact ⟨j, by omega, load⟩

/-- A LOAD_MOD command and a later MODULUS write that both land before mulmod
latches the register. -/
def Reloads (ins : ℕ → Pins) : Prop :=
  ∃ j k, 0 < j ∧ j < k ∧ k ≤ 34 ∧ (ins j).loadMod ∧ (ins k).modulusWrite

theorem heldModulus_of_not_reloads (m : Word) (kept : ¬Reloads ins) : heldModulus m ins = m := by
  have steady : ∀ n ≤ 34, (modulusPorts.trace ⟨false, m⟩ (fun k => ins (k + 1)) n).modulus = m := by
    intro n
    induction n with
    | zero => intro _; rfl
    | succ n ih =>
        intro inside
        have before := ih (by omega)
        rw [Machine.trace_succ]
        change (ModulusPort.edge _ _).modulus = m
        unfold ModulusPort.edge
        split
        · exact before
        · split
          · rename_i write
            obtain ⟨j, earlier, load⟩ := loadMod_of_armed write.2
            exact absurd ⟨j + 1, n + 1, by omega, by omega, inside, load, write.1⟩ kept
          · exact before
  exact steady 34 (Nat.le_refl 34)

/-- A MODULUS write that goes through brings its datum, and nothing else moves
the register. -/
theorem ModulusPort.edge_keeps {P : Word → Prop} {p : ModulusPort}
    (datum : i.modulusWrite → P i.wdata) (holds : P p.modulus) : P (p.edge i).modulus := by
  unfold ModulusPort.edge
  split
  · exact holds
  · split
    · rename_i write
      exact datum write.1
    · exact holds

theorem ModulusPort.edge_settled {P : Word → Prop} {p : ModulusPort}
    (datum : i.modulusWrite → P i.wdata) (settled : p.armed = true ∨ P p.modulus) :
    (p.edge i).armed = true ∨ P (p.edge i).modulus := by
  unfold ModulusPort.edge
  split
  · exact Or.inl rfl
  · split
    · rename_i write
      exact Or.inr (datum write.1)
    · exact settled

/-- A write after the port is armed or the datum is there leaves the datum. -/
theorem ModulusPort.edge_write {P : Word → Prop} {p : ModulusPort} (write : i.modulusWrite)
    (datum : P i.wdata) (settled : p.armed = true ∨ P p.modulus) : P (p.edge i).modulus := by
  have notLoad : ¬i.loadMod := by
    intro load
    have clash : addrCtrl = addrModulus := load.1.2.symm.trans write.2
    exact absurd clash (by decide)
  rw [ModulusPort.edge, if_neg notLoad]
  split
  · exact datum
  · rename_i unarmed
    exact settled.resolve_left fun armed => unarmed ⟨write, armed⟩

/-- Whatever holds of every MODULUS datum holds of the register once a pair of
LOAD_MOD and MODULUS write has gone by. -/
theorem modulus_of_reload {P : Word → Prop} {p : ModulusPort} {j k : ℕ}
    (data : ∀ n, (ins n).modulusWrite → P (ins n).wdata) (load : (ins j).loadMod)
    (write : (ins k).modulusWrite) (order : j < k) (later : k < n) :
    P (modulusPorts.trace p ins n).modulus := by
  have settled : ∀ n, j < n → (modulusPorts.trace p ins n).armed = true ∨
      P (modulusPorts.trace p ins n).modulus := by
    intro n after
    induction n, after using Nat.le_induction with
    | base =>
        left
        change (ModulusPort.edge _ _).armed = true
        rw [ModulusPort.edge, if_pos load]
    | succ n after ih => exact ModulusPort.edge_settled (data n) ih
  induction n, later using Nat.le_induction with
  | base => exact ModulusPort.edge_write write (data k write) (settled k order)
  | succ n later ih => exact ModulusPort.edge_keeps (data n) ih

section Agree

variable {j : Pins} (agrees : i.AgreesPublicly j)

include agrees

theorem Pins.AgreesPublicly.ctrlWrite_iff : i.ctrlWrite ↔ j.ctrlWrite := by
  rw [Pins.ctrlWrite, Pins.ctrlWrite, agrees.wen, agrees.addr]

theorem Pins.AgreesPublicly.loadMod_iff : i.loadMod ↔ j.loadMod := by
  have ctrl := agrees.ctrlWrite_iff
  unfold Pins.loadMod
  by_cases write : i.ctrlWrite
  · rw [agrees.ctrl write, ctrl]
  · simp only [write, ctrl.not.mp write, false_and]

theorem Pins.AgreesPublicly.startWrite_iff : i.startWrite ↔ j.startWrite := by
  have ctrl := agrees.ctrlWrite_iff
  unfold Pins.startWrite
  by_cases write : i.ctrlWrite
  · rw [agrees.ctrl write, ctrl, agrees.rstN]
  · simp only [write, ctrl.not.mp write, false_and, and_false]

theorem Pins.AgreesPublicly.resetWrite_iff : i.resetWrite ↔ j.resetWrite := by
  have ctrl := agrees.ctrlWrite_iff
  unfold Pins.resetWrite
  by_cases write : i.ctrlWrite
  · rw [agrees.ctrl write, ctrl, agrees.rstN]
  · simp only [write, ctrl.not.mp write, false_and, and_false]

theorem Pins.AgreesPublicly.modulusWrite_iff : i.modulusWrite ↔ j.modulusWrite := by
  rw [Pins.modulusWrite, Pins.modulusWrite, agrees.wen, agrees.addr]

end Agree

theorem CalmAfterStart.agrees {ins' : ℕ → Pins} (calm : CalmAfterStart ins)
    (agree : ∀ n, (ins n).AgreesPublicly (ins' n)) : CalmAfterStart ins' := by
  intro n positive
  obtain ⟨released, quiet⟩ := calm n positive
  exact ⟨(agree n).rstN ▸ released, fun written => quiet ((agree n).resetWrite_iff.mpr written)⟩

theorem Reloads.agrees {ins' : ℕ → Pins} (agree : ∀ n, (ins n).AgreesPublicly (ins' n)) :
    Reloads ins ↔ Reloads ins' := by
  unfold Reloads
  simp only [fun n => (agree n).loadMod_iff, fun n => (agree n).modulusWrite_iff]

/-- Operand 2 and modulus 3 loaded after hardware reset. -/
def loaded : State := machine.trace .reset (script [busWrite addrCtrl 8, busWrite addrModulus 3,
  busWrite addrCtrl 4, busWrite addrOperand 2]) 4

theorem loaded_reachable : machine.Reachable loaded := Machine.Reachable.reset.trace _ 4

theorem loaded_ready : Ready loaded :=
  ⟨by decide +kernel, by decide +kernel, by decide +kernel,
    ⟨by decide +kernel, by decide +kernel⟩, ⟨by decide +kernel, by decide +kernel⟩⟩

/-- The same traffic with every nonzero MODULUS datum replaced by 5. -/
def Pins.offersFive (i : Pins) : Pins :=
  if i.modulusWrite ∧ i.wdata ≠ 0 then { i with wdata := 5 } else i

theorem agreesPublicly_offersFive (i : Pins) : i.AgreesPublicly i.offersFive := by
  unfold Pins.offersFive
  split
  · rename_i write
    have notCtrl : ¬addrModulus = addrCtrl := by decide
    refine ⟨rfl, rfl, rfl, rfl, fun ctrl => ?_, fun _ _ => ?_⟩
    · exact absurd (write.1.2.symm.trans ctrl.2) notCtrl
    · simpa using write.2
  · exact ⟨rfl, rfl, rfl, rfl, fun _ => rfl, fun _ _ => Iff.rfl⟩

theorem offersFive_wdata (written : i.offersFive.modulusWrite) :
    i.offersFive.wdata = 0 ∨ i.offersFive.wdata = 5 := by
  unfold Pins.offersFive at written ⊢
  split
  · exact Or.inr rfl
  · rename_i other
    rw [if_neg other] at written
    exact Or.inl (not_not.mp fun data => other ⟨written, data⟩)

/-- With the modulus 5, or 0, in place of 3 the square of 2 does not appear. -/
theorem offersFive_disturbs (start : (ins 0).startWrite) (calm : CalmAfterStart ins)
    (reloads : Reloads ins) : ¬Undisturbed (fun n => (ins n).offersFive) loaded := by
  intro undisturbed
  have agree : ∀ n, (ins n).AgreesPublicly (ins n).offersFive :=
    fun n => agreesPublicly_offersFive (ins n)
  have nonzero : loaded.modulus ≠ 0 := by decide +kernel
  have square := (undisturbed_iff_result loaded_ready nonzero ((agree 0).startWrite_iff.mp start)
    (calm.agrees agree)).mp undisturbed
  rw [← keepsSquare_iff nonzero] at square
  obtain ⟨j, k, positive, order, inside, load, write⟩ := (Reloads.agrees agree).mp reloads
  have held : heldModulus loaded.modulus (fun n => (ins n).offersFive) = 0 ∨
      heldModulus loaded.modulus (fun n => (ins n).offersFive) = 5 := by
    apply modulus_of_reload (P := fun m => m = 0 ∨ m = 5) (j := j - 1) (k := k - 1)
    · exact fun n written => offersFive_wdata written
    · rwa [Nat.sub_add_cancel positive]
    · rwa [Nat.sub_add_cancel (by omega)]
    · omega
    · omega
  rcases held with zero | five
  · rw [zero] at square
    exact absurd square (by decide +kernel)
  · rw [five] at square
    exact absurd square (by decide +kernel)

/-- The traffic after START leaves the operation alone, whatever the data, if
and only if it has no reload in the 34 cycles before mulmod latches. -/
theorem undisturbed_for_all_data_iff (start : (ins 0).startWrite) (calm : CalmAfterStart ins) :
    (∀ s ins', machine.Reachable s → Ready s → s.modulus ≠ 0 →
      (∀ n, (ins n).AgreesPublicly (ins' n)) → Undisturbed ins' s) ↔ ¬Reloads ins := by
  constructor
  · intro always reloads
    apply offersFive_disturbs start calm reloads
    exact always loaded _ loaded_reachable loaded_ready (by decide +kernel)
      fun n => agreesPublicly_offersFive (ins n)
  · intro kept s ins' _ ready nonzero agree
    have kept' : ¬Reloads ins' := (Reloads.agrees agree).not.mp kept
    rw [undisturbed_iff_result ready nonzero ((agree 0).startWrite_iff.mp start)
      (calm.agrees agree), ← keepsSquare_iff nonzero, heldModulus_of_not_reloads _ kept']
    exact keepsSquare_self nonzero

/-- Which traffic leaves the operation alone: over all data, the traffic without
a reload; over given data, the traffic whose modulus for mulmod keeps the square. -/
theorem undisturbed_iff (start : (ins 0).startWrite) (calm : CalmAfterStart ins) :
    ((∀ s ins', machine.Reachable s → Ready s → s.modulus ≠ 0 →
      (∀ n, (ins n).AgreesPublicly (ins' n)) → Undisturbed ins' s) ↔ ¬Reloads ins) ∧
    ∀ s, Ready s → s.modulus ≠ 0 →
      (Undisturbed ins s ↔ KeepsSquare s.operand s.modulus (heldModulus s.modulus ins)) := by
  constructor
  · exact undisturbed_for_all_data_iff start calm
  · intro s ready nonzero
    exact undisturbed_iff_keepsSquare ready nonzero start calm

/-- An OPERAND is loaded while the operation runs, and a MODULUS behind edge 34. -/
def lateReload : ℕ → Pins :=
  script ([busWrite addrCtrl 1, busIdle, busWrite addrCtrl 4, busWrite addrOperand 9] ++
    List.replicate 32 busIdle ++ [busWrite addrCtrl 8, busWrite addrModulus 5])

theorem undisturbed_lateReload : Undisturbed lateReload loaded := by
  have calm : CalmAfterStart lateReload := by
    intro n _
    by_cases inside : n < 38
    · have all : ∀ n < 38, (lateReload n).rstN = true ∧ ¬(lateReload n).resetWrite := by decide
      exact all n inside
    · rw [lateReload, script_silent _ (by simpa using inside)]
      decide
  have kept : ¬Reloads lateReload := by
    rintro ⟨j, k, -, -, inside, -, write⟩
    have none : ∀ k ≤ 34, ¬(lateReload k).modulusWrite := by decide
    exact none k inside write
  exact (undisturbed_iff (by decide) calm).1.mpr kept loaded lateReload loaded_reachable
    loaded_ready (by decide +kernel) fun n => ⟨rfl, rfl, rfl, rfl, fun _ => rfl, fun _ _ => Iff.rfl⟩

/-- The modulus 5 is loaded right after a START over 3. -/
def reloadInFlight : ℕ → Pins :=
  script [busWrite addrCtrl 1, busWrite addrCtrl 8, busWrite addrModulus 5]

theorem reloadInFlight_disturbs :
    ¬∀ s, machine.Reachable s → Ready s → s.modulus ≠ 0 → ∀ ins : ℕ → Pins, (ins 0).startWrite →
      CalmAfterStart ins → Undisturbed ins s := by
  intro always
  have calm : CalmAfterStart reloadInFlight := by
    intro n positive
    match n with
    | 1 => decide
    | 2 => decide
    | n + 3 =>
        rw [reloadInFlight, script_silent _ (by simp)]
        decide
  have undisturbed :=
    always loaded loaded_reachable loaded_ready (by decide +kernel) reloadInFlight (by decide) calm
  exact absurd undisturbed.result (by decide +kernel)

end BlindSig.Accel

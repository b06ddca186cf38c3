import BlindSig.MulmodProduct

set_option autoImplicit false

namespace BlindSig.Mulmod

open Clocked

variable {width : ℕ}

/-- The unit and the shadow registers of the harness. -/
structure Harness (width : ℕ) where
  unit : State width
  fPastValid : Bool
  fA : BitVec width
  fB : BitVec width
  fM : BitVec width
  fRunning : Bool

namespace Harness

/-- `state == S_IDLE && start` under a released reset. -/
def accepts (h : Harness width) (i : Input width) : Bool :=
  i.rstN && (h.unit.state == .sIdle && i.start)

def edge (h : Harness width) (i : Input width) : Harness width where
  unit := h.unit.edge i
  fPastValid := true
  fA := if h.accepts i then i.a else h.fA
  fB := if h.accepts i then i.b else h.fB
  fM := if h.accepts i then i.m else h.fM
  fRunning :=
    if !i.rstN then false
    else if h.accepts i then true
    else if h.unit.done then false
    else h.fRunning

def run (h : Harness width) (ins : ℕ → Input width) : ℕ → Harness width
  | 0 => h
  | n + 1 => (run h ins n).edge (ins n)

/-- The `assume` statements: a reset in the first cycle only, and the
preconditions of every operation that starts. -/
structure Assumes (h : Harness width) (i : Input width) : Prop where
  reset : i.rstN = h.fPastValid
  start : h.accepts i = true → 0 < i.m ∧ i.a < i.m

/-- The `assert` statements, those under `FORMAL_EQUIV` last. -/
structure Asserts (h : Harness width) (i : Input width) : Prop where
  invariant : h.fPastValid = true → i.rstN = true → h.unit.state = .sRun →
    h.unit.mReg ≠ 0 ∧ h.unit.aReg < h.unit.mReg ∧ h.unit.acc < mExt h.unit.mReg
  equiv : h.fPastValid = true → i.rstN = true → h.unit.done = true → h.fRunning = true →
    h.unit.result < h.fM ∧ h.unit.result.setWidth (width + width) =
      h.fA.setWidth (width + width) * h.fB.setWidth (width + width) %
        h.fM.setWidth (width + width)

/-- The shadow registers describe the operation in progress, or the one whose
result is up. -/
structure Shadows (h : Harness width) : Prop where
  fits : h.unit.toSerial.Fits
  running : h.fRunning = (h.unit.busy || h.unit.done)
  within : h.fRunning = true → h.fA.toNat < h.fM.toNat
  operands : h.unit.busy = true → h.unit.aReg = h.fA ∧ h.unit.mReg = h.fM
  reduced : h.unit.busy = true → h.unit.acc.toNat < h.fM.toNat
  outcome : h.fRunning = true →
    h.unit.toSerial.outcome (datapath width) = value h.fA h.fB h.fM

variable {h : Harness width} {i : Input width}

theorem accepts_idle (released : i.rstN = true) (idle : h.unit.busy = false) :
    h.accepts i = i.start := by
  have phase : h.unit.state = .sIdle := (busy_eq_false _).mp idle
  rw [accepts, released, phase]
  rfl

theorem accepts_busy (busy : h.unit.busy = true) : h.accepts i = false := by
  have phase : h.unit.state = .sRun := of_decide_eq_true busy
  rw [accepts, phase]
  exact Bool.and_false _

/-- Whatever the registers hold at power-up. -/
theorem shadows_reset (low : i.rstN = false) : (h.edge i).Shadows := by
  have cleared : (h.edge i).unit = .reset := by simp [edge, State.edge, low]
  have stopped : (h.edge i).fRunning = false := by simp [edge, low]
  constructor
  · rw [cleared]
    exact (circuit width).fresh.fits
  · rw [cleared, stopped]
    rfl
  · intro running
    rw [stopped] at running
    cases running
  · intro busy
    rw [cleared] at busy
    cases busy
  · intro busy
    rw [cleared] at busy
    cases busy
  · intro running
    rw [stopped] at running
    cases running

/-- A start loads the shadow registers together with the operands. -/
theorem shadows_start (wide : 2 ≤ width) (shadows : h.Shadows) (released : i.rstN = true)
    (idle : h.unit.busy = false) (start : i.start = true) (precondition : i.a < i.m) :
    (h.edge i).Shadows := by
  have positive : 0 < width := by omega
  have accepted : h.accepts i = true := by rw [accepts_idle released idle, start]
  have serial := toSerial_edge h.unit i released
  have due := (circuit width).due_start positive released idle start
  rw [SerialUnit.edge_start idle start] at serial
  have within : i.a.toNat < i.m.toNat := precondition
  have busy : (h.unit.edge i).busy = true := congrArg SerialUnit.running serial
  have shadowed : h.edge i = ⟨h.unit.edge i, true, i.a, i.b, i.m, true⟩ := by
    simp [edge, accepted, released]
  rw [shadowed]
  constructor
  · exact (circuit width).fits_edge positive i shadows.fits
  · rw [busy]
    rfl
  · exact fun _ => within
  · intro _
    have latched := congrArg SerialUnit.latched serial
    exact ⟨congrArg Prod.fst latched, congrArg Prod.snd latched⟩
  · intro _
    have clear : (h.unit.edge i).acc = 0 := congrArg SerialUnit.acc serial
    change (h.unit.edge i).acc.toNat < i.m.toNat
    rw [clear]
    exact Nat.lt_of_le_of_lt (Nat.zero_le _) within
  · exact fun _ => due.outcome

/-- A round keeps the accumulator below the modulus, and the result it leads to. -/
theorem shadows_round (wide : 2 ≤ width) (shadows : h.Shadows) (released : i.rstN = true)
    (busy : h.unit.busy = true) : (h.edge i).Shadows := by
  have positive : 0 < width := by omega
  have working : h.unit.toSerial.running = true := busy
  have running : h.fRunning = true := by rw [shadows.running, busy, Bool.true_or]
  have low : h.unit.done = false := by
    apply eq_false_of_ne_true
    intro pulse
    have idle : h.unit.busy = false := shadows.fits.resting pulse
    rw [busy] at idle
    cases idle
  have shadowed : h.edge i = { h with unit := h.unit.edge i, fPastValid := true } := by
    simp [edge, accepts_busy busy, released, low]
  obtain ⟨multiplicand, modulus⟩ := shadows.operands busy
  have within := shadows.within running
  have serial := toSerial_edge h.unit i released
  have kept := SerialUnit.outcome_edge (D := datapath width) shadows.fits busy i.launch
  have bits : 0 < cw width := Nat.succ_pos _
  rw [← serial] at kept
  rw [shadowed]
  constructor
  · exact (circuit width).fits_edge positive i shadows.fits
  · -- the last round raises the pulse when it ends the run
    rcases SerialUnit.edge_alive (D := datapath width) (i := i.launch) bits (Or.inl working) with
      still | pulse
    · rw [← serial] at still
      have busy' : (h.unit.edge i).busy = true := still
      rw [busy', Bool.true_or]
      exact running
    · rw [← serial] at pulse
      have done' : (h.unit.edge i).done = true := pulse
      rw [done', Bool.or_true]
      exact running
  · exact fun _ => within
  · intro _
    have latched : (h.unit.edge i).toSerial.latched = h.unit.toSerial.latched := by
      rw [serial, SerialUnit.edge, if_pos working]
    exact ⟨(congrArg Prod.fst latched).trans multiplicand,
      (congrArg Prod.snd latched).trans modulus⟩
  · intro _
    have advanced : (h.unit.edge i).acc = step h.unit.aReg h.unit.mReg h.unit.bReg.msb h.unit.acc := by
      have acc := congrArg SerialUnit.acc serial
      rw [SerialUnit.edge, if_pos working] at acc
      exact acc
    change (h.unit.edge i).acc.toNat < h.fM.toNat
    rw [advanced, multiplicand, modulus, step_toNat _ _ _ _ within (shadows.reduced busy)]
    exact Nat.mod_lt _ (Nat.zero_lt_of_lt within)
  · intro _
    exact kept.trans (shadows.outcome running)

/-- Without a start the pulse is over, and with it what the shadows stand for. -/
theorem shadows_rest (wide : 2 ≤ width) (shadows : h.Shadows) (released : i.rstN = true)
    (idle : h.unit.busy = false) (quiet : i.start = false) : (h.edge i).Shadows := by
  have positive : 0 < width := by omega
  have refused : h.accepts i = false := by rw [accepts_idle released idle, quiet]
  have serial := toSerial_edge h.unit i released
  rw [SerialUnit.edge_idle idle quiet] at serial
  have busy' : (h.unit.edge i).busy = false := (congrArg SerialUnit.running serial).trans idle
  have done' : (h.unit.edge i).done = false := congrArg SerialUnit.done serial
  have stopped : (h.edge i).fRunning = false := by
    have before := shadows.running
    rw [idle, Bool.false_or] at before
    simp [edge, refused, released, before]
  constructor
  · exact (circuit width).fits_edge positive i shadows.fits
  · change _ = ((h.unit.edge i).busy || (h.unit.edge i).done)
    rw [stopped, busy', done']
    rfl
  · intro running
    rw [stopped] at running
    cases running
  · intro busy
    change (h.unit.edge i).busy = true at busy
    rw [busy'] at busy
    cases busy
  · intro busy
    change (h.unit.edge i).busy = true at busy
    rw [busy'] at busy
    cases busy
  · intro running
    rw [stopped] at running
    cases running

theorem Shadows.edge (wide : 2 ≤ width) (shadows : h.Shadows) (assumed : h.Assumes i) :
    (h.edge i).Shadows := by
  cases released : i.rstN with
  | false => exact shadows_reset released
  | true =>
      cases busy : h.unit.busy with
      | true => exact shadows_round wide shadows released busy
      | false =>
          cases start : i.start with
          | true =>
              have accepted : h.accepts i = true := by rw [accepts_idle released busy, start]
              exact shadows_start wide shadows released busy start (assumed.start accepted).2
          | false => exact shadows_rest wide shadows released busy start

/-- The shadows meet every assertion. -/
theorem Shadows.asserts (shadows : h.Shadows) : h.Asserts i := by
  constructor
  · intro _ _ phase
    have busy : h.unit.busy = true := decide_eq_true phase
    have running : h.fRunning = true := by rw [shadows.running, busy, Bool.true_or]
    have within := shadows.within running
    have positive : 0 < h.fM.toNat := Nat.zero_lt_of_lt within
    have reduced := shadows.reduced busy
    obtain ⟨multiplicand, modulus⟩ := shadows.operands busy
    rw [multiplicand, modulus]
    refine ⟨?_, within, ?_⟩
    · intro zero
      rw [zero] at positive
      exact Nat.lt_irrefl 0 positive
    · rw [BitVec.lt_def, mExt_toNat]
      exact reduced
  · intro _ _ pulse running
    have within := shadows.within running
    have positive : 0 < h.fM.toNat := Nat.zero_lt_of_lt within
    have idle : h.unit.toSerial.running = false := shadows.fits.resting pulse
    have outcome := shadows.outcome running
    rw [SerialUnit.outcome, idle, if_neg Bool.false_ne_true] at outcome
    have result : h.unit.result = value h.fA h.fB h.fM := outcome
    have product := value_toNat h.fA h.fB h.fM within
    constructor
    · rw [BitVec.lt_def, result, product]
      exact Nat.mod_lt _ positive
    · -- the product of two words fits the doubled width
      have room : h.fA.toNat * h.fB.toNat < 2 ^ (width + width) := by
        rw [Nat.pow_add]
        exact Nat.mul_lt_mul'' h.fA.isLt h.fB.isLt
      have double : width ≤ width + width := Nat.le_add_right width width
      apply BitVec.eq_of_toNat_eq
      rw [BitVec.toNat_umod, BitVec.toNat_mul, BitVec.toNat_setWidth_of_le double,
        BitVec.toNat_setWidth_of_le double, BitVec.toNat_setWidth_of_le double,
        BitVec.toNat_setWidth_of_le double, Nat.mod_eq_of_lt room, result, product]

section Run

variable (wide : 2 ≤ width) (powerUp : h.fPastValid = false) (ins : ℕ → Input width)

include wide powerUp

theorem shadows_run (n : ℕ) (assumed : ∀ k ≤ n, (h.run ins k).Assumes (ins k)) :
    (h.run ins (n + 1)).Shadows := by
  induction n with
  | zero =>
      have first := (assumed 0 (Nat.le_refl 0)).reset
      rw [run, powerUp] at first
      exact shadows_reset first
  | succ n ih =>
      exact (ih fun k earlier => assumed k (by omega)).edge wide (assumed (n + 1) (Nat.le_refl _))

omit powerUp in
/-- An operation keeps its shadows until its result is up. -/
theorem run_accepted (n t : ℕ) (later : t + 1 + width = n)
    (assumed : ∀ k ≤ n, (h.run ins k).Assumes (ins k))
    (accepted : (h.run ins t).accepts (ins t) = true) (k : ℕ) (inside : k ≤ width) :
    (h.run ins (t + 1 + k)).unit.toSerial.Due (datapath width)
        (value (ins t).a (ins t).b (ins t).m) (width - k) ∧
      (h.run ins (t + 1 + k)).fA = (ins t).a ∧ (h.run ins (t + 1 + k)).fB = (ins t).b ∧
      (h.run ins (t + 1 + k)).fM = (ins t).m := by
  induction k with
  | zero =>
      have starts := Bool.and_eq_true_iff.mp accepted
      have idle := Bool.and_eq_true_iff.mp starts.2
      refine ⟨?_, if_pos accepted, if_pos accepted, if_pos accepted⟩
      apply (circuit width).due_start (by omega) starts.1 _ idle.2
      exact (busy_eq_false _).mpr (eq_of_beq idle.1)
  | succ k ih =>
      obtain ⟨due, a, b, m⟩ := ih (by omega)
      have released : (ins (t + 1 + k)).rstN = true := by
        rw [(assumed (t + 1 + k) (by omega)).reset, Nat.add_right_comm]
        rfl
      rw [show width - k = width - (k + 1) + 1 by omega] at due
      have refused : ¬(h.run ins (t + 1 + k)).accepts (ins (t + 1 + k)) = true := by
        rw [accepts_busy due.1]
        exact Bool.false_ne_true
      refine ⟨?_, (if_neg refused).trans a, (if_neg refused).trans b, (if_neg refused).trans m⟩
      change ((h.run ins (t + 1 + k)).unit.edge (ins (t + 1 + k))).toSerial.Due _ _ _
      rw [toSerial_edge _ _ released]
      exact due.edge _

/-- The assertions hold in every cycle of every run that has met the assumptions
so far, and each operation that starts reaches the check of its own product. -/
theorem formal_holds (n : ℕ) (assumed : ∀ k ≤ n, (h.run ins k).Assumes (ins k)) :
    (h.run ins n).Asserts (ins n) ∧
      ∀ t, t + 1 + width = n → (h.run ins t).accepts (ins t) = true →
        (h.run ins n).unit.done = true ∧ (h.run ins n).fRunning = true ∧
          (h.run ins n).fA = (ins t).a ∧ (h.run ins n).fB = (ins t).b ∧
          (h.run ins n).fM = (ins t).m := by
  constructor
  · cases n with
    | zero =>
        constructor <;> intro valid <;> rw [run, powerUp] at valid <;> cases valid
    | succ n =>
        exact (shadows_run wide powerUp ins n fun k earlier => assumed k (by omega)).asserts
  · intro t later accepted
    obtain ⟨due, operands⟩ :=
      run_accepted wide ins n t later assumed accepted width (Nat.le_refl width)
    have shadows := shadows_run wide powerUp ins (t + width) fun k earlier => assumed k (by omega)
    rw [show t + width + 1 = t + 1 + width by omega] at shadows
    rw [Nat.sub_self] at due
    rw [later] at due operands shadows
    refine ⟨due.2.1, ?_, operands⟩
    have pulse : (h.run ins n).unit.done = true := due.2.1
    rw [shadows.running, pulse, Bool.or_true]

end Run

/-- One cycle of reset, then start held high over 3 * 6 mod 5. -/
def threeTimesSix (n : ℕ) : Input 3 := ⟨n != 0, true, 3, 6, 5⟩

def unknown : Harness 3 := ⟨⟨.sRun, 7, 2, 5, 9, 1, 4, true⟩, false, 1, 2, 0, true⟩

theorem formal_holds_three : (unknown.run threeTimesSix 5).Asserts (threeTimesSix 5) ∧
    (unknown.run threeTimesSix 5).unit.done = true ∧ (unknown.run threeTimesSix 5).fA = 3 := by
  have three : (0 : BitVec 3) < 5 ∧ (3 : BitVec 3) < 5 := by decide
  have held := formal_holds (by decide) rfl threeTimesSix 5 fun k _ =>
    show (unknown.run threeTimesSix k).Assumes (threeTimesSix k) from
      ⟨by cases k <;> rfl, fun _ => three⟩
  obtain ⟨done, -, a, -⟩ := held.2 1 rfl (by decide +kernel)
  exact ⟨held.1, done, a⟩

end Harness
end BlindSig.Mulmod

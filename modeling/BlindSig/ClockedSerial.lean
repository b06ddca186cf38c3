import BlindSig.BitSerial
import BlindSig.ClockedCountdown

set_option autoImplicit false

/- A bit-serial unit: an accepted start latches the operands, one round is run
for each bit of a shift register, then the result is stored with a pulse. -/
namespace Clocked

variable {σ ι κ α ρ : Type*} {w c : ℕ}

/-- What the unit computes: one round under the latched operands, the cleared
accumulator, and the bits of the accumulator that are stored. -/
structure Datapath (κ α ρ : Type*) where
  round : κ → Bool → α → α
  clear : α
  out : α → ρ

/-- The value of a whole run. -/
def Datapath.value (D : Datapath κ α ρ) (latch : κ) (bits : BitVec w) : ρ :=
  D.out (BitSerial.serial (D.round latch) w bits D.clear)

structure Launch (κ : Type*) (w : ℕ) where
  start : Bool
  latch : κ
  bits : BitVec w

/-- The registers, with a counter of `c` bits for a shift register of `w`. -/
structure SerialUnit (κ α ρ : Type*) (w c : ℕ) where
  running : Bool
  latched : κ
  shift : BitVec w
  acc : α
  cnt : BitVec c
  result : ρ
  done : Bool

namespace SerialUnit

def edge (D : Datapath κ α ρ) (u : SerialUnit κ α ρ w c) (i : Launch κ w) :
    SerialUnit κ α ρ w c :=
  if u.running then
    { u with
      running := u.cnt != 1#c
      acc := D.round u.latched u.shift.msb u.acc
      shift := u.shift <<< 1
      cnt := u.cnt - 1#c
      result := if u.cnt = 1#c then D.out (D.round u.latched u.shift.msb u.acc) else u.result
      done := u.cnt == 1#c }
  else if i.start then
    { u with
      running := true
      latched := i.latch
      shift := i.bits
      acc := D.clear
      cnt := BitVec.ofNat c w
      done := false }
  else { u with done := false }

/-- Edges until the pulse, or none when idle. -/
def left (u : SerialUnit κ α ρ w c) : ℕ := if u.running then u.cnt.toNat else 0

def timer (u : SerialUnit κ α ρ w c) : Countdown := ⟨u.left, u.done⟩

/-- The counter of a reachable unit: positive while running, at most `w`. -/
structure Fits (u : SerialUnit κ α ρ w c) : Prop where
  working : u.running = true → 0 < u.cnt.toNat
  within : u.running = true → u.cnt.toNat ≤ w
  resting : u.done = true → u.running = false

theorem Fits.timer {u : SerialUnit κ α ρ w c} (inv : u.Fits) : u.timer.Fits w := by
  cases running : u.running with
  | false => exact ⟨by simp [SerialUnit.timer, left, running], by simp [SerialUnit.timer, left, running]⟩
  | true =>
      refine ⟨by simpa [SerialUnit.timer, left, running] using inv.within running, fun pulse => ?_⟩
      exact absurd (inv.resting pulse) (by simp [running])

/-- Idle, with no pulse. -/
structure Quiet (u : SerialUnit κ α ρ w c) : Prop where
  idle : u.running = false
  low : u.done = false

theorem Quiet.fits {u : SerialUnit κ α ρ w c} (quiet : u.Quiet) : u.Fits where
  working running := absurd running (by simp [quiet.idle])
  within running := absurd running (by simp [quiet.idle])
  resting _ := quiet.idle

/-- The value a run in progress will store. -/
def finish (D : Datapath κ α ρ) (u : SerialUnit κ α ρ w c) : ρ :=
  D.out (BitSerial.serial (D.round u.latched) u.cnt.toNat u.shift u.acc)

/-- The pulse is `n` edges away and comes with the value `v`. -/
def Due (D : Datapath κ α ρ) (v : ρ) : ℕ → SerialUnit κ α ρ w c → Prop
  | 0, u => u.running = false ∧ u.done = true ∧ u.result = v
  | n + 1, u => u.running = true ∧ u.cnt.toNat = n + 1 ∧ u.done = false ∧ u.finish D = v

/-- What the result register holds, or will hold once the run in progress ends. -/
def outcome (D : Datapath κ α ρ) (u : SerialUnit κ α ρ w c) : ρ :=
  if u.running then u.finish D else u.result

/-- Nothing that can still be observed tells the two units apart. -/
structure Same (u u' : SerialUnit κ α ρ w c) : Prop where
  running : u.running = u'.running
  done : u.done = u'.done
  result : u.done = true → u.result = u'.result
  work : u.running = true →
    u.latched = u'.latched ∧ u.shift = u'.shift ∧ u.acc = u'.acc ∧ u.cnt = u'.cnt

variable {D : Datapath κ α ρ} {u u' : SerialUnit κ α ρ w c} {i : Launch κ w} {v : ρ}

@[simp] theorem left_of_idle (idle : u.running = false) : u.left = 0 := by
  simp [left, idle]

theorem left_of_running (running : u.running = true) : u.left = u.cnt.toNat := by
  simp [left, running]

theorem edge_idle (idle : u.running = false) (quiet : i.start = false) :
    u.edge D i = { u with done := false } := by
  simp [edge, idle, quiet]

theorem edge_start (idle : u.running = false) (start : i.start = true) :
    u.edge D i = { u with
      running := true, latched := i.latch, shift := i.bits, acc := D.clear,
      cnt := BitVec.ofNat c w, done := false } := by
  simp [edge, idle, start]

private theorem cnt_eq_one_iff (positive : 0 < c) (cnt : BitVec c) :
    cnt = 1#c ↔ cnt.toNat = 1 := by
  have one : (1#c).toNat = 1 := by
    simp [Nat.mod_eq_of_lt (Nat.one_lt_two_pow (Nat.ne_of_gt positive))]
  rw [← BitVec.toNat_inj, one]

private theorem cnt_pred (cnt : BitVec c) (working : 0 < cnt.toNat) :
    (cnt - 1#c).toNat = cnt.toNat - 1 := by
  have bound := cnt.isLt
  have room : 1 < 2 ^ c := by omega
  have one : (1#c).toNat = 1 := by simp [Nat.mod_eq_of_lt room]
  rw [BitVec.toNat_sub_of_le (BitVec.le_def.mpr (by omega)), one]

private theorem bits_positive {cnt : BitVec c} (working : 0 < cnt.toNat) : 0 < c := by
  apply Nat.pos_of_ne_zero
  intro none
  subst none
  have bound := cnt.isLt
  omega

/-- A round that is not the last one. -/
theorem edge_round (positive : 0 < c) (running : u.running = true) (more : u.cnt.toNat ≠ 1) :
    u.edge D i = { u with
      acc := D.round u.latched u.shift.msb u.acc, shift := u.shift <<< 1,
      cnt := u.cnt - 1#c, done := false } := by
  have notLast : u.cnt ≠ 1#c := fun last => more ((cnt_eq_one_iff positive _).mp last)
  simp [edge, running, notLast]

/-- The last round stores the value and pulses. -/
theorem edge_last (positive : 0 < c) (running : u.running = true) (last : u.cnt.toNat = 1) :
    u.edge D i = { u with
      running := false, acc := D.round u.latched u.shift.msb u.acc, shift := u.shift <<< 1,
      cnt := u.cnt - 1#c, result := u.finish D, done := true } := by
  have equal : u.cnt = 1#c := (cnt_eq_one_iff positive _).mpr last
  simp only [edge, running, ↓reduceIte, finish, last, BitSerial.serial]
  simp [equal]

section Width

variable (positive : 0 < w) (fits : w < 2 ^ c)

include fits in
private theorem counter_positive (positive : 0 < w) : 0 < c := by
  rcases Nat.eq_zero_or_pos c with zero | bits
  · simp [zero] at fits
    omega
  · exact bits

include positive fits

theorem Fits.edge (inv : u.Fits) (i : Launch κ w) : (u.edge D i).Fits := by
  have bits := counter_positive fits positive
  have loaded : (BitVec.ofNat c w).toNat = w := by simp [Nat.mod_eq_of_lt fits]
  cases running : u.running with
  | false =>
      cases start : i.start with
      | false => rw [edge_idle running start]; exact ⟨by simp [running], by simp [running], by simp⟩
      | true =>
          rw [edge_start running start]
          exact ⟨fun _ => Nat.lt_of_lt_of_eq positive loaded.symm, fun _ => Nat.le_of_eq loaded, by simp⟩
  | true =>
      have working := inv.working running
      have within := inv.within running
      by_cases last : u.cnt.toNat = 1
      · rw [edge_last bits running last]
        exact ⟨by simp, by simp, by simp⟩
      · rw [edge_round bits running last]
        have pred := cnt_pred u.cnt working
        exact ⟨fun _ => by simp only [pred]; omega, fun _ => by simp only [pred]; omega, by simp⟩

/-- The unit keeps time like the countdown of span `w`. -/
theorem timer_edge (inv : u.Fits) (i : Launch κ w) :
    (u.edge D i).timer = u.timer.edge w i.start := by
  have bits := counter_positive fits positive
  have loaded : (BitVec.ofNat c w).toNat = w := by simp [Nat.mod_eq_of_lt fits]
  cases running : u.running with
  | false =>
      cases start : i.start with
      | false => simp [edge_idle running start, timer, left, running, Countdown.edge]
      | true => simp [edge_start running start, timer, left, running, loaded, Countdown.edge]
  | true =>
      have working := inv.working running
      have pred := cnt_pred u.cnt working
      have idle : u.timer.left ≠ 0 := by simp only [timer, left_of_running running]; omega
      by_cases last : u.cnt.toNat = 1
      · rw [edge_last bits running last]
        simp [timer, left, running, last, Countdown.edge]
      · rw [edge_round bits running last]
        simp [timer, left, running, pred, last, Countdown.edge, Nat.ne_of_gt working]

theorem Due.start (idle : u.running = false) (start : i.start = true) :
    Due D (D.value i.latch i.bits) w (u.edge D i) := by
  obtain ⟨rounds, rfl⟩ : ∃ rounds, w = rounds + 1 := ⟨w - 1, by omega⟩
  have loaded : (BitVec.ofNat c (rounds + 1)).toNat = rounds + 1 := by
    simp [Nat.mod_eq_of_lt fits]
  rw [edge_start idle start]
  exact ⟨rfl, loaded, rfl, by simp only [finish, loaded, Datapath.value]⟩

end Width

/-- Work in progress advances whatever is offered meanwhile. -/
theorem Due.edge {n : ℕ} (due : Due D v (n + 1) u) (i : Launch κ w) : Due D v n (u.edge D i) := by
  obtain ⟨running, count, low, value⟩ := due
  have bits : 0 < c := by
    rcases Nat.eq_zero_or_pos c with rfl | bits
    · have bound := u.cnt.isLt
      omega
    · exact bits
  have pred := cnt_pred u.cnt (by omega)
  cases n with
  | zero =>
      rw [edge_last bits running count]
      exact ⟨rfl, rfl, value⟩
  | succ n =>
      rw [edge_round bits running (by omega)]
      refine ⟨running, by simp only [pred]; omega, rfl, ?_⟩
      rw [← value]
      simp only [finish, pred, count, Nat.add_sub_cancel, BitSerial.serial]

theorem Due.quiet (due : Due D v 0 u) (quiet : i.start = false) : (u.edge D i).Quiet := by
  rw [edge_idle due.1 quiet]
  exact ⟨due.1, rfl⟩

theorem Quiet.edge (idle : u.Quiet) (quiet : i.start = false) : (u.edge D i).Quiet := by
  rw [edge_idle idle.idle quiet]
  exact ⟨idle.idle, rfl⟩

theorem Due.outcome {n : ℕ} (due : Due D v n u) : u.outcome D = v := by
  unfold SerialUnit.outcome
  cases n with
  | zero => rw [due.1]; exact due.2.2
  | succ n => rw [due.1]; exact due.2.2.2

theorem Due.left {n : ℕ} (due : Due D v n u) : u.left = n := by
  cases n with
  | zero => exact left_of_idle due.1
  | succ n => rw [left_of_running due.1]; exact due.2.1

theorem Fits.due (inv : u.Fits) (running : u.running = true) :
    Due D (u.finish D) u.cnt.toNat u := by
  have working := inv.working running
  obtain ⟨n, count⟩ : ∃ n, u.cnt.toNat = n + 1 := ⟨u.cnt.toNat - 1, by omega⟩
  have low : u.done = false := by
    apply eq_false_of_ne_true
    intro pulse
    simp [inv.resting pulse] at running
  rw [count]
  exact ⟨running, count, low, rfl⟩

/-- The outcome of a run is settled when it starts. -/
theorem outcome_edge (inv : u.Fits) (running : u.running = true) (i : Launch κ w) :
    (u.edge D i).outcome D = u.outcome D := by
  have working := inv.working running
  obtain ⟨n, count⟩ : ∃ n, u.cnt.toNat = n + 1 := ⟨u.cnt.toNat - 1, by omega⟩
  have due : Due D (u.finish D) u.cnt.toNat u := inv.due running
  rw [count] at due
  rw [due.outcome, (due.edge i).outcome]

/-- Edges until a waiting control has consumed the pulse; an idle unit is taken
to have its start pending. -/
def wait (u : SerialUnit κ α ρ w c) : ℕ :=
  if u.done then 1 else if u.running then u.cnt.toNat + 1 else w + 2

theorem wait_positive : 0 < u.wait := by
  unfold wait
  split
  · exact Nat.one_pos
  · split <;> omega

theorem Fits.wait_le (inv : u.Fits) : u.wait ≤ w + 2 := by
  unfold wait
  split
  · omega
  · split
    · rename_i running
      have within := inv.within running
      omega
    · exact Nat.le_refl _

theorem Due.wait_le {n : ℕ} (due : Due D v n u) : u.wait ≤ n + 1 := by
  unfold wait
  cases n with
  | zero => rw [if_pos due.2.1]
  | succ n => rw [due.2.2.1, if_neg Bool.false_ne_true, if_pos due.1, due.2.1]

/-- A unit at work or started is at work or pulses after the edge. -/
theorem edge_alive (positive : 0 < c) (alive : u.running = true ∨ i.start = true) :
    (u.edge D i).running = true ∨ (u.edge D i).done = true := by
  cases running : u.running with
  | false =>
      rw [edge_start running (by simpa [running] using alive)]
      exact Or.inl rfl
  | true =>
      by_cases last : u.cnt.toNat = 1
      · rw [edge_last positive running last]
        exact Or.inr rfl
      · rw [edge_round positive running last]
        exact Or.inl running

/-- Each edge brings the pulse nearer by exactly one. -/
theorem wait_edge (positive : 0 < c) (fits : w < 2 ^ c) (inv : u.Fits) (low : u.done = false)
    (alive : u.running = true ∨ i.start = true) : (u.edge D i).wait + 1 = u.wait := by
  cases running : u.running with
  | false =>
      have loaded : (BitVec.ofNat c w).toNat = w := by simp [Nat.mod_eq_of_lt fits]
      rw [edge_start running (by simpa [running] using alive)]
      simp [wait, low, running, loaded]
  | true =>
      have working := inv.working running
      have pred := cnt_pred u.cnt working
      by_cases last : u.cnt.toNat = 1
      · rw [edge_last positive running last]
        simp [wait, low, running, last]
      · rw [edge_round positive running last]
        simp only [wait, low, running, pred, Bool.false_eq_true, ↓reduceIte]
        omega

/-- Edges before a pulse at the earliest; none when it is up. -/
def nearest (u : SerialUnit κ α ρ w c) : ℕ :=
  if u.running then u.cnt.toNat else if u.done then 0 else w

theorem nearest_of_done (inv : u.Fits) (pulse : u.done = true) : u.nearest = 0 := by
  simp [nearest, inv.resting pulse, pulse]

theorem nearest_edge (room : w < 2 ^ c) (inv : u.Fits) (i : Launch κ w) :
    u.nearest ≤ (u.edge D i).nearest + 1 := by
  have loaded : (BitVec.ofNat c w).toNat = w := by simp [Nat.mod_eq_of_lt room]
  cases running : u.running with
  | true =>
      have working := inv.working running
      have due : Due D (u.finish D) u.cnt.toNat u := inv.due running
      obtain ⟨n, count⟩ : ∃ n, u.cnt.toNat = n + 1 := ⟨u.cnt.toNat - 1, by omega⟩
      rw [count] at due
      have next := due.edge i
      rw [nearest, if_pos running, count]
      cases n with
      | zero => omega
      | succ n => rw [nearest, if_pos next.1, next.2.1]
  | false =>
      have rested : u.nearest ≤ w := by
        rw [nearest, running]
        split
        · contradiction
        · split
          · exact Nat.zero_le w
          · exact Nat.le_refl w
      have full : (u.edge D i).nearest = w := by
        cases start : i.start with
        | false => rw [edge_idle running start]; simp [nearest, running]
        | true => rw [edge_start running start]; simp [nearest, loaded]
      omega

theorem Same.edge (same : Same u u') (i : Launch κ w) : Same (u.edge D i) (u'.edge D i) := by
  obtain ⟨running, done, result, work⟩ := same
  cases busy : u.running with
  | true =>
      obtain ⟨latched, shift, acc, cnt⟩ := work busy
      have busy' := running ▸ busy
      by_cases last : u.cnt = 1#c
      · constructor <;> simp [SerialUnit.edge, busy, busy', ← latched, ← shift, ← acc, ← cnt, last]
      · constructor <;> simp [SerialUnit.edge, busy, busy', ← latched, ← shift, ← acc, ← cnt, last]
  | false =>
      have busy' := running ▸ busy
      cases start : i.start with
      | false => rw [edge_idle busy start, edge_idle busy' start]; constructor <;> simp [busy, busy']
      | true => rw [edge_start busy start, edge_start busy' start]; constructor <;> simp

theorem Same.refl (u : SerialUnit κ α ρ w c) : Same u u :=
  ⟨rfl, rfl, fun _ => rfl, fun _ => ⟨rfl, rfl, rfl, rfl⟩⟩

theorem Quiet.same (quiet : u.Quiet) (quiet' : u'.Quiet) : Same u u' where
  running := quiet.idle.trans quiet'.idle.symm
  done := quiet.low.trans quiet'.low.symm
  result pulse := by simp [quiet.low] at pulse
  work running := by simp [quiet.idle] at running

/-- While `u'` rests, `u` is at most `n` edges from the end of a run that
nobody waits for. -/
structure Abandoned (n : ℕ) (u u' : SerialUnit κ α ρ w c) : Prop where
  fits : u.Fits
  left : u.left ≤ n
  quiet : u'.Quiet

theorem Fits.running_of_left (inv : u.Fits) (left : u.left = 0) : u.running = false := by
  apply eq_false_of_ne_true
  intro running
  have working := inv.working running
  rw [left_of_running running] at left
  omega

/-- Once the abandoned run is over, an edge without a start removes its pulse
and with it the difference. -/
theorem Abandoned.same_edge (stale : Abandoned 0 u u') (silent : i.start = false) :
    Same (u.edge D i) (u'.edge D i) := by
  have idle := stale.fits.running_of_left (Nat.le_zero.mp stale.left)
  have rests : (u.edge D i).Quiet := by
    rw [edge_idle idle silent]
    exact ⟨idle, rfl⟩
  exact rests.same (stale.quiet.edge silent)

theorem Abandoned.edge {n m : ℕ} (positive : 0 < w) (room : w < 2 ^ c) (stale : Abandoned n u u')
    (silent : i.start = false) (next : n ≤ m + 1) :
    Abandoned m (u.edge D i) (u'.edge D i) := by
  refine ⟨stale.fits.edge positive room i, ?_, stale.quiet.edge silent⟩
  have timing := congrArg Countdown.left (timer_edge (D := D) positive room stale.fits i)
  have within := stale.left
  rw [silent] at timing
  have less : (u.edge D i).left ≤ u.left - 1 := by
    change (u.edge D i).timer.left ≤ u.timer.left - 1
    rw [timing]
    unfold Countdown.edge
    split
    · simp
    · exact Nat.le_refl _
  omega

/-- A run over `latch` with `n` rounds left, whose accumulator has `P`. -/
structure Working (P : α → Prop) (latch : κ) (n : ℕ) (u : SerialUnit κ α ρ w c) : Prop where
  running : u.running = true
  latched : u.latched = latch
  count : u.cnt.toNat = n
  acc : P u.acc

section Working

variable {P : α → Prop} {latch : κ}

theorem Working.start (room : w < 2 ^ c) (clear : P D.clear) (idle : u.running = false)
    (start : i.start = true) : Working P i.latch w (u.edge D i) := by
  have loaded : (BitVec.ofNat c w).toNat = w := by simp [Nat.mod_eq_of_lt room]
  rw [edge_start idle start]
  exact ⟨rfl, rfl, loaded, clear⟩

/-- A property that every round keeps holds in every round of a run. -/
theorem Working.edge (rounds : ∀ bit acc, P acc → P (D.round latch bit acc)) {n : ℕ}
    (working : Working P latch (n + 2) u) (i : Launch κ w) :
    Working P latch (n + 1) (u.edge D i) := by
  obtain ⟨running, latched, count, acc⟩ := working
  have positive : 0 < u.cnt.toNat := by omega
  have pred := cnt_pred u.cnt positive
  rw [edge_round (bits_positive positive) running (by omega)]
  exact ⟨running, latched, by simp only [pred]; omega, latched ▸ rounds _ _ acc⟩

/-- The last round of a run. -/
theorem Working.last (working : Working P latch 1 u) (i : Launch κ w) :
    (u.edge D i).running = false := by
  have count := working.count
  have positive : 0 < u.cnt.toNat := by omega
  rw [edge_last (bits_positive positive) working.running count]

end Working

/-- The two units are at the same point of their work, on whatever operands. -/
structure InStep (u u' : SerialUnit κ α ρ w c) : Prop where
  running : u.running = u'.running
  cnt : u.cnt = u'.cnt
  done : u.done = u'.done

/-- Time does not depend on data. -/
theorem InStep.edge (inStep : InStep u u') {i' : Launch κ w} (start : i.start = i'.start) :
    InStep (u.edge D i) (u'.edge D i') := by
  obtain ⟨running, cnt, done⟩ := inStep
  cases busy : u.running with
  | true =>
      have busy' := running ▸ busy
      constructor <;> simp [SerialUnit.edge, busy, busy', ← cnt]
  | false =>
      have busy' := running ▸ busy
      cases launch : i.start with
      | false =>
          rw [edge_idle busy launch, edge_idle busy' (start ▸ launch)]
          exact ⟨running, cnt, rfl⟩
      | true =>
          rw [edge_start busy launch, edge_start busy' (start ▸ launch)]
          exact ⟨rfl, rfl, rfl⟩

theorem edge_result (low : (u.edge D i).done = false) : (u.edge D i).result = u.result := by
  unfold SerialUnit.edge at low ⊢
  split
  · rename_i running
    simp only [running, ↓reduceIte, beq_eq_false_iff_ne] at low
    simp only [low, ↓reduceIte]
  · split <;> rfl

/-- The unit as a machine; `reset` is whatever its hardware reset leaves. -/
def machine (D : Datapath κ α ρ) (reset : SerialUnit κ α ρ w c) :
    Machine (SerialUnit κ α ρ w c) (Launch κ w) := ⟨reset, edge D⟩

section Run

variable {reset : SerialUnit κ α ρ w c} {ins : ℕ → Launch κ w}

/-- The stored value changes only with a pulse. -/
theorem trace_result {m n : ℕ} (later : m ≤ n)
    (low : ∀ k, m < k → k ≤ n → ((machine D reset).trace u ins k).done = false) :
    ((machine D reset).trace u ins n).result = ((machine D reset).trace u ins m).result := by
  induction n, later using Nat.le_induction with
  | base => rfl
  | succ n later ih =>
      rw [← ih (fun k above below => low k above (by omega))]
      exact edge_result (low (n + 1) (by omega) (Nat.le_refl _))

variable (positive : 0 < w) (fits : w < 2 ^ c)

include positive fits

theorem Fits.trace (inv : u.Fits) (n : ℕ) : ((machine D reset).trace u ins n).Fits := by
  induction n with
  | zero => exact inv
  | succ n ih => exact ih.edge positive fits (ins n)

theorem timer_trace (inv : u.Fits) (n : ℕ) :
    ((machine D reset).trace u ins n).timer =
      (Countdown.machine w).trace u.timer (fun k => (ins k).start) n := by
  induction n with
  | zero => rfl
  | succ n ih =>
      rw [Machine.trace_succ, Machine.trace_succ, ← ih]
      exact timer_edge positive fits (Fits.trace positive fits inv n) (ins n)

/-- From the accepting edge on the result draws nearer with every cycle. -/
theorem trace_due {t : ℕ} (idle : ((machine D reset).trace u ins t).running = false)
    (start : (ins t).start = true) (k : ℕ) (inside : k ≤ w) :
    Due D (D.value (ins t).latch (ins t).bits) (w - k)
      ((machine D reset).trace u ins (t + 1 + k)) := by
  induction k with
  | zero => exact Due.start positive fits idle start
  | succ k ih =>
      have due := ih (by omega)
      rw [show w - k = w - (k + 1) + 1 by omega] at due
      exact due.edge (ins (t + 1 + k))

/-- Every pulse is answered for by one accepted start, and conversely. -/
theorem trace_done_iff (inv : u.Fits) (n : ℕ) :
    ((machine D reset).trace u ins (n + 1 + w)).done = true ↔
      ((machine D reset).trace u ins n).running = false ∧ (ins n).start = true := by
  let unit := (machine D reset).trace u ins
  have timing : ∀ m, (unit m).timer =
      (Countdown.machine w).trace u.timer (fun k => (ins k).start) m :=
    timer_trace positive fits inv
  have pulses : ((Countdown.machine w).trace u.timer (fun k => (ins k).start) (n + 1 + w)).done =
      true ↔ _ := Countdown.done_iff positive inv.timer n
  rw [← timing, ← timing] at pulses
  refine pulses.trans (and_congr_left fun _ => ?_)
  have now : (unit n).Fits := Fits.trace positive fits inv n
  change (unit n).left = 0 ↔ (unit n).running = false
  cases running : (unit n).running with
  | false => simp [left_of_idle running]
  | true =>
      have working := now.working running
      rw [left_of_running running]
      simp only [Bool.true_eq_false, iff_false]
      omega

/-- The contract of the unit over a run, from any state in working order. -/
theorem trace_delivers (reset : SerialUnit κ α ρ w c) (ins : ℕ → Launch κ w) (inv : u.Fits) :
    (∀ t, ((machine D reset).trace u ins t).running = false → (ins t).start = true →
      (∀ k < w, ((machine D reset).trace u ins (t + 1 + k)).running = true ∧
        ((machine D reset).trace u ins (t + 1 + k)).done = false) ∧
      ((machine D reset).trace u ins (t + 1 + w)).running = false ∧
      ((machine D reset).trace u ins (t + 1 + w)).done = true ∧
      ∀ n, t + 1 + w ≤ n →
        (∀ k, t + 1 + w < k → k ≤ n → ((machine D reset).trace u ins k).done = false) →
        ((machine D reset).trace u ins n).result = D.value (ins t).latch (ins t).bits) ∧
    ∀ n, ((machine D reset).trace u ins (n + 1 + w)).done = true ↔
      ((machine D reset).trace u ins n).running = false ∧ (ins n).start = true := by
  refine ⟨fun t idle start => ?_, trace_done_iff positive fits inv⟩
  have due := trace_due positive fits idle start
  have last := due w (Nat.le_refl w)
  rw [Nat.sub_self] at last
  refine ⟨fun k inside => ?_, last.1, last.2.1, fun n later low => ?_⟩
  · have now := due k (Nat.le_of_lt inside)
    rw [show w - k = w - k - 1 + 1 by omega] at now
    exact ⟨now.1, now.2.2.1⟩
  · rw [trace_result later low]
    exact last.2.2

end Run

end SerialUnit
end Clocked

import BlindSig.DemoSession

set_option autoImplicit false

namespace BlindSig.Demo

open Clocked BitSerial

namespace Harness

/-- The low 32 of the 33 bits. -/
def simAcc (h : Harness) : U32 := h.top.acc.setWidth 32

def simBbit (h : Harness) : Bool := h.top.bReg.getLsbD 31

def simBreg (h : Harness) : U32 := h.top.bReg

end Harness

inductive Stage where
  | dbl | red1 | add | red2 | mux
deriving DecidableEq

/-- The stages that glow, given the bit that was active before the step. -/
def showActive (cyc : U32) (bit : Bool) : List Stage :=
  if cyc < 2 then []
  else if bit then [.dbl, .red1, .add, .red2, .mux]
  else [.dbl, .red1, .mux]

/-- The loop of `popcount`. -/
def popcount (x : U32) : ℕ :=
  if x = 0 then 0 else (x &&& 1).toNat + popcount (x >>> 1)
termination_by x.toNat
decreasing_by
  rename_i nonzero
  rw [BitVec.toNat_ushiftRight, Nat.shiftRight_eq_div_pow]
  have positive : x.toNat ≠ 0 := fun zero => nonzero (BitVec.eq_of_toNat_eq zero)
  omega

/-- What a callback leaves on the panel. -/
structure Frame where
  cyc : U32
  accv : U32
  breg : U32
  active : List Stage

/-- The lines that the callback of `run` and `stepOne` share; `finish` puts the
lights out in the same callback. -/
def Harness.frame (h : Harness) : Frame :=
  let bit := h.simBbit
  let (h, done) := h.simStep
  let cyc := h.simCycles
  { cyc := cyc
    accv := h.simAcc
    breg := h.simBreg
    active := if done then [] else showActive cyc bit }

/-- The frames of a complete run. -/
def frames (o : Operands) : List Frame := (List.range 33).map fun k => (Harness.after o k).frame

/-- The frame that an event paints, if it steps the circuit. -/
def State.painted (p : State) (e : Event) : Option Frame :=
  match e.handler with
  | .tick => p.timer.map fun _ => p.sim.frame
  | .step =>
      if p.sim.simCycles = 0 ∨ 33 ≤ p.sim.simCycles then some (p.begin e.fields).sim.frame
      else some p.sim.frame
  | _ => none

/-- The frame of the step that consumes the bit `k` of `b` from the top; the
first one, `k = 0`, only latches the operands. -/
structure Frame.Shows (o : Operands) (k : ℕ) (frame : Frame) : Prop where
  cyc : frame.cyc = BitVec.ofNat 32 (k + 1)
  accv : frame.accv.toNat = o.a.toNat * top o.b k % o.m.toNat
  breg : frame.breg = o.b <<< k
  active : frame.active = if k = 0 ∨ k = 32 then [] else showActive 2 (o.b.getLsbD (32 - k))

/-- A run is about to begin: the interval is set on a circuit just loaded, or the
next Step loads it. -/
def State.Begins (p : State) (h : Handler) : Prop :=
  h = .tick ∧ p.timer.isSome = true ∧ p.sim.simCycles = 0 ∨
    h = .step ∧ (p.sim.simCycles = 0 ∨ 33 ≤ p.sim.simCycles)

variable {o : Operands} {p : State} {k : ℕ}

/-- The leading `k + 1` bits are the leading `k` and one more. -/
theorem top_next (b : U32) (inside : k < 32) :
    top b (k + 1) = 2 * top b k + (b.getLsbD (31 - k)).toNat := by
  rw [top, top, BitVec.getLsbD, Nat.toNat_testBit, show 32 - (k + 1) = 31 - k by omega,
    show 32 - k = 31 - k + 1 by omega, Nat.pow_succ, ← Nat.div_div_eq_div_mul]
  omega

theorem bbit_eq (b : U32) (inside : k < 32) : (b <<< k).getLsbD 31 = b.getLsbD (31 - k) := by
  rw [BitVec.getLsbD_shiftLeft]
  simp [Nat.not_lt_of_le (Nat.le_of_lt_succ inside)]

theorem after_zero (o : Operands) : (Harness.after o 0).top = .reset := by
  rw [← Harness.simLoad_simReset o Harness.initial]
  rfl

/-- The accumulator is the product of `a` with the bits consumed so far. -/
theorem after_acc (within : o.a.toNat < o.m.toNat) {k : ℕ} (inside : k ≤ 32) :
    (Harness.after o (k + 1)).top.acc.toNat = o.a.toNat * top o.b k % o.m.toNat := by
  have positive : 0 < o.m.toNat := Nat.zero_lt_of_lt within
  induction k with
  | zero =>
      rw [Harness.after_top, after_zero, top_zero, Nat.mul_zero, Nat.zero_mod]
      rfl
  | succ k ih =>
      have before := ih (by omega)
      obtain ⟨a, b, m⟩ := Harness.after_latched o (k := k) (by omega)
      have due := Harness.after_due o (k := k) (by omega)
      rw [show 32 - k = 32 - (k + 1) + 1 by omega] at due
      have reduced : (Harness.after o (k + 1)).top.acc.toNat < o.m.toNat := by
        rw [before]
        exact Nat.mod_lt _ positive
      have acc : (Harness.after o (k + 2)).top.acc =
          Mulmod.step o.a o.m (o.b <<< k).msb (Harness.after o (k + 1)).top.acc := by
        have serial := congrArg SerialUnit.acc (Mulmod.toSerial_edge
          (Harness.after o (k + 1)).top ⟨true, k + 1 == 0, o.a, o.b, o.m⟩ rfl)
        rw [SerialUnit.edge, if_pos due.1] at serial
        rw [← a, ← b, ← m, Harness.after_top]
        exact serial
      have bit : (o.b <<< k).msb = o.b.getLsbD (31 - k) := by
        rw [BitVec.msb_eq_getLsbD_last]
        exact bbit_eq o.b (by omega)
      rw [acc, Mulmod.step_toNat _ _ _ _ within reduced, before, bit, top_next o.b (by omega),
        Nat.add_mod, Nat.mul_mod, Nat.mod_mod, ← Nat.mul_mod, ← Nat.add_mod]
      congr 1
      ring

theorem showActive_later (bit : Bool) (later : 0 < k) (inside : k ≤ 32) :
    showActive (BitVec.ofNat 32 (k + 1)) bit = showActive 2 bit := by
  have high : ¬BitVec.ofNat 32 (k + 1) < 2 := by
    rw [BitVec.lt_def, BitVec.toNat_ofNat, Nat.mod_eq_of_lt (by omega)]
    change ¬k + 1 < 2
    omega
  rw [showActive, if_neg high]
  rfl

/-- The bit that the step after `k` others consumes. -/
theorem simBbit_after (later : 0 < k) (inside : k ≤ 32) :
    (Harness.after o k).simBbit = o.b.getLsbD (32 - k) := by
  obtain ⟨j, rfl⟩ : ∃ j, k = j + 1 := ⟨k - 1, by omega⟩
  obtain ⟨-, shift, -⟩ := Harness.after_latched o (k := j) (by omega)
  rw [Harness.simBbit, shift, bbit_eq o.b (by omega), show 32 - (j + 1) = 31 - j by omega]

/-- The frame that the step after `k` others paints. -/
theorem frame_shows (within : o.a.toNat < o.m.toNat) (inside : k ≤ 32) :
    (Harness.after o k).frame.Shows o k := by
  obtain ⟨-, shift, -⟩ := Harness.after_latched o inside
  have acc := after_acc within inside
  have small : o.a.toNat * top o.b k % o.m.toNat < 2 ^ 32 :=
    Nat.lt_trans (Nat.mod_lt _ (Nat.zero_lt_of_lt within)) o.m.isLt
  simp only [Harness.frame, Harness.simStep_after o inside]
  constructor
  · exact Harness.simCycles_after o (k + 1)
  · change ((Harness.after o (k + 1)).top.acc.setWidth 32).toNat = _
    rw [BitVec.toNat_setWidth, acc, Nat.mod_eq_of_lt small]
  · exact shift
  · rw [Harness.simCycles_after]
    rcases Nat.eq_zero_or_pos k with zero | later
    · subst zero
      rfl
    · rcases Nat.lt_or_eq_of_le inside with earlier | last
      · rw [if_neg (by simpa using Nat.ne_of_lt earlier), if_neg (by omega),
          showActive_later _ later inside, simBbit_after later inside]
      · rw [if_pos (decide_eq_true last), if_pos (Or.inr last)]

theorem advance_operands : (p.advance k).operands = p.operands := by
  rw [State.advance]
  split <;> rfl

theorem painted_tick (runs : Runs k p) {e : Event} (handler : e.handler = .tick)
    (live : p.timer.isSome = true) :
    p.painted e = some (Harness.after p.operands k).frame ∧ p.on e = p.advance k := by
  obtain ⟨o, timer⟩ := Option.isSome_iff_exists.mp live
  constructor
  · rw [State.painted, handler, runs.sim, timer]
    rfl
  · rw [State.on, handler]
    exact tick_eq runs timer

theorem painted_continue (runs : Runs k p) {e : Event} (handler : e.handler = .step)
    (started : 0 < k) (more : k ≤ 32) :
    p.painted e = some (Harness.after p.operands k).frame ∧ p.on e = p.stop.advance k := by
  have working : ¬(BitVec.ofNat 32 k = 0 ∨ 33 ≤ BitVec.ofNat 32 k) := by bv_omega
  constructor
  · rw [State.painted, handler, runs.simCycles]
    dsimp only
    rw [if_neg working, runs.sim]
  · rw [State.on, handler]
    exact stepOne_continue runs started more

theorem painted_afresh (runs : Runs k p) {e : Event} (handler : e.handler = .step)
    (idle : k = 0 ∨ k = 33) :
    p.painted e = some (Harness.after (p.begin e.fields).operands 0).frame ∧
      p.on e = (p.begin e.fields).advance 0 := by
  have resting : BitVec.ofNat 32 k = 0 ∨ 33 ≤ BitVec.ofNat 32 k := by bv_omega
  have fresh : Runs 0 (p.begin e.fields) := begin_runs
  constructor
  · rw [State.painted, handler, runs.simCycles]
    dsimp only
    rw [if_pos resting, fresh.sim]
  · rw [State.on, handler]
    exact stepOne_afresh runs idle

/-- Whatever steps the circuit paints the frame of the step it makes. -/
theorem painted_shows (runs : Runs k p) {e : Event} {frame : Frame}
    (painted : p.painted e = some frame) :
    ∃ k ≤ 32, frame.Shows (p.on e).operands k := by
  cases handler : e.handler with
  | tick =>
      have live : p.timer.isSome = true := by
        rw [State.painted, handler] at painted
        obtain ⟨o, timer, -⟩ := Option.map_eq_some_iff.mp painted
        rw [timer]
        rfl
      obtain ⟨o, timer⟩ := Option.isSome_iff_exists.mp live
      have more := (runs.timer o timer).2
      obtain ⟨same, stepped⟩ := painted_tick runs handler live
      obtain rfl := Option.some.inj (same.symm.trans painted)
      refine ⟨k, more, ?_⟩
      rw [stepped, advance_operands]
      exact frame_shows runs.within more
  | step =>
      by_cases idle : k = 0 ∨ k = 33
      · obtain ⟨same, stepped⟩ := painted_afresh runs handler idle
        obtain rfl := Option.some.inj (same.symm.trans painted)
        refine ⟨0, Nat.zero_le 32, ?_⟩
        rw [stepped, advance_operands]
        exact frame_shows begin_runs.within (Nat.zero_le 32)
      · have inside := runs.inside
        have more : k ≤ 32 := by omega
        obtain ⟨same, stepped⟩ := painted_continue runs handler (by omega) more
        obtain rfl := Option.some.inj (same.symm.trans painted)
        refine ⟨k, more, ?_⟩
        rw [stepped, advance_operands]
        exact frame_shows runs.within more
  | run | reset | prove | autoProve =>
      rw [State.painted, handler] at painted
      cases painted

/-- In the middle of a run on the operands `o`, by the interval or by Steps. -/
structure Playing (o : Operands) (h : Handler) (k : ℕ) (p : State) : Prop where
  runs : Runs k p
  operands : p.operands = o
  handler : h = .tick ∨ h = .step
  live : h = .tick → k ≤ 32 → p.timer.isSome = true

theorem advance_timer (earlier : k ≠ 32) : (p.advance k).timer = p.timer := by
  rw [State.advance, if_neg earlier]

/-- The first frame of a run. -/
theorem playing_begin {h : Handler} {e : Event} (runs : Runs k p) (begins : p.Begins h)
    (handler : e.handler = h) :
    p.painted e = some (Harness.after (p.on e).operands 0).frame ∧
      Playing (p.on e).operands h 1 (p.on e) := by
  have inside := runs.inside
  rcases begins with ⟨rfl, live, loaded⟩ | ⟨rfl, resting⟩
  · rw [runs.simCycles] at loaded
    obtain rfl : k = 0 := by bv_omega
    obtain ⟨painted, stepped⟩ := painted_tick runs handler live
    rw [stepped, advance_operands]
    refine ⟨painted, runs.advance (Nat.zero_le 32), advance_operands, Or.inl rfl, fun _ _ => ?_⟩
    rw [advance_timer (by decide)]
    exact live
  · rw [runs.simCycles] at resting
    have idle : k = 0 ∨ k = 33 := by bv_omega
    obtain ⟨painted, stepped⟩ := painted_afresh runs handler idle
    rw [stepped, advance_operands]
    exact ⟨painted, begin_runs.advance (Nat.zero_le 32), advance_operands, Or.inr rfl,
      fun ticks => by cases ticks⟩

/-- And every later one. -/
theorem Playing.next {h : Handler} {e : Event} (playing : Playing o h k p) (started : 0 < k)
    (more : k ≤ 32) (handler : e.handler = h) :
    p.painted e = some (Harness.after o k).frame ∧ Playing o h (k + 1) (p.on e) := by
  obtain ⟨runs, rfl, rfl | rfl, live⟩ := playing
  · obtain ⟨painted, stepped⟩ := painted_tick runs handler (live rfl more)
    rw [stepped]
    refine ⟨painted, runs.advance more, advance_operands, Or.inl rfl, fun _ later => ?_⟩
    rw [advance_timer (by omega)]
    exact live rfl more
  · obtain ⟨painted, stepped⟩ := painted_continue runs handler started more
    rw [stepped]
    exact ⟨painted, runs.stop.advance more, advance_operands, Or.inr rfl,
      fun ticks => by cases ticks⟩

section Session

variable (sim : Harness) (reducedMotion : Bool) (f : Fields) (events : ℕ → Event)

/-- A run that nothing comes between, from its first callback on. -/
theorem session_playing {n : ℕ} {h : Handler}
    (begins : (session sim reducedMotion f events n).Begins h)
    (alone : ∀ k < 33, (events (n + k)).handler = h) (k : ℕ) (inside : k ≤ 32) :
    Playing (session sim reducedMotion f events (n + 1)).operands h (k + 1)
      (session sim reducedMotion f events (n + k + 1)) := by
  induction k with
  | zero =>
      obtain ⟨j, runs⟩ := session_runs sim reducedMotion f events n
      exact (playing_begin runs begins (alone 0 (by decide))).2
  | succ k ih =>
      exact ((ih (by omega)).next (Nat.succ_pos k) inside (alone (k + 1) (by omega))).2

theorem session_painted {n : ℕ} {h : Handler}
    (begins : (session sim reducedMotion f events n).Begins h)
    (alone : ∀ k < 33, (events (n + k)).handler = h) (k : ℕ) (inside : k ≤ 32) :
    (session sim reducedMotion f events (n + k)).painted (events (n + k)) =
      some (Harness.after (session sim reducedMotion f events (n + 1)).operands k).frame := by
  cases k with
  | zero =>
      obtain ⟨j, runs⟩ := session_runs sim reducedMotion f events n
      exact (playing_begin runs begins (alone 0 (by decide))).1
  | succ k =>
      have playing := session_playing sim reducedMotion f events begins alone k (by omega)
      exact (playing.next (Nat.succ_pos k) inside (alone (k + 1) (by omega))).1

/-- Every frame that any session paints shows the arithmetic of the operands on
the panel: the partial product so far, what is left of `b`, and the stages its
next bit takes. A run that nothing comes between paints all 33 of them in order. -/
theorem session_frames :
    (∀ n frame, (session sim reducedMotion f events n).painted (events n) = some frame →
      ∃ k ≤ 32, frame.Shows (session sim reducedMotion f events (n + 1)).operands k) ∧
    ∀ n h, (session sim reducedMotion f events n).Begins h →
      (∀ k < 33, (events (n + k)).handler = h) →
      (List.range 33).map (fun k =>
          (session sim reducedMotion f events (n + k)).painted (events (n + k))) =
        (frames (session sim reducedMotion f events (n + 1)).operands).map some := by
  constructor
  · intro n frame painted
    obtain ⟨k, runs⟩ := session_runs sim reducedMotion f events n
    exact painted_shows runs painted
  · intro n h begins alone
    rw [frames, List.map_map]
    apply List.map_congr_left
    intro k listed
    have inside := List.mem_range.mp listed
    exact session_painted sim reducedMotion f events begins alone k (by omega)

end Session

/-- Thirty-three Steps on the page as it loads, and the tenth of them by itself. -/
theorem session_frames_ten :
    (∃ frame : Frame, (session .initial true pageFields (fun _ => ⟨.step, pageFields⟩) 9).painted
        ⟨.step, pageFields⟩ = some frame ∧
      ∃ k ≤ 32, frame.Shows
        (session .initial true pageFields (fun _ => ⟨.step, pageFields⟩) 10).operands k) ∧
    (List.range 33).map (fun k => (session .initial true pageFields
        (fun _ => ⟨.step, pageFields⟩) (0 + k)).painted ⟨.step, pageFields⟩) =
      (frames (session .initial true pageFields (fun _ => ⟨.step, pageFields⟩) 1).operands).map
        some := by
  obtain ⟨each, whole⟩ :=
    session_frames .initial true pageFields fun _ => ⟨.step, pageFields⟩
  constructor
  · obtain ⟨frame, painted⟩ : ∃ frame : Frame,
        (session .initial true pageFields (fun _ => ⟨.step, pageFields⟩) 9).painted
          ⟨.step, pageFields⟩ = some frame := by
      rw [State.painted]
      dsimp only
      split
      · exact ⟨_, rfl⟩
      · exact ⟨_, rfl⟩
    exact ⟨frame, painted, each 9 frame painted⟩
  · exact whole 0 .step (Or.inr ⟨rfl, Or.inl rfl⟩) fun _ _ => rfl

theorem shifted_bits (x : U32) :
    (fun i => x.getLsbD i) ∘ Nat.succ = fun i => (x >>> 1).getLsbD i := by
  funext i
  rw [BitVec.getLsbD_ushiftRight, Nat.add_comm]
  rfl

/-- The loop counts the bits set. -/
theorem popcount_eq (n : ℕ) (x : U32) (small : x.toNat < 2 ^ n) :
    popcount x = (List.range n).countP (fun i => x.getLsbD i) := by
  induction n generalizing x with
  | zero =>
      have zero : x = 0 := BitVec.eq_of_toNat_eq (Nat.lt_one_iff.mp small)
      rw [popcount, if_pos zero]
      rfl
  | succ n ih =>
      have bits : (List.range (n + 1)).countP (fun i => x.getLsbD i) =
          (x &&& 1).toNat + (List.range n).countP (fun i => (x >>> 1).getLsbD i) := by
        have low : (x &&& 1).toNat = if x.getLsbD 0 then 1 else 0 := by
          rw [BitVec.toNat_and, BitVec.getLsbD, Nat.testBit_zero]
          rcases Nat.mod_two_eq_zero_or_one x.toNat with even | odd
          · simp [even]
          · simp [odd]
        rw [List.range_succ_eq_map, List.countP_cons, List.countP_map, shifted_bits, low,
          Nat.add_comm]
      rw [bits, popcount]
      split
      · rename_i zero
        subst zero
        simp
      · congr 1
        apply ih
        rw [BitVec.toNat_ushiftRight, Nat.shiftRight_eq_div_pow]
        rw [Nat.pow_succ] at small
        omega

/-- The adder lights up once for each bit set in `b`, except that the frame of
the last bit never shows it. -/
theorem adds_shown (o : Operands) (within : o.a.toNat < o.m.toNat) :
    (frames o).countP (fun frame => .add ∈ frame.active) = popcount (o.b >>> 1) := by
  have lit : ∀ k ≤ 32, (Stage.add ∈ (Harness.after o k).frame.active ↔
      (k ≠ 0 ∧ k ≠ 32) ∧ o.b.getLsbD (32 - k) = true) := by
    intro k inside
    rw [(frame_shows within inside).active]
    by_cases dark : k = 0 ∨ k = 32
    · rw [if_pos dark]
      simp [← not_or, dark]
    · rw [if_neg dark]
      cases o.b.getLsbD (32 - k) <;> simp [showActive, ← not_or, dark]
  have split : List.range 33 = 0 :: ((List.range 31).map Nat.succ ++ [32]) := rfl
  have first : ¬Stage.add ∈ (Harness.after o 0).frame.active := by
    simp [lit 0 (Nat.zero_le 32)]
  have last : ¬Stage.add ∈ (Harness.after o 32).frame.active := by
    simp [lit 32 (Nat.le_refl 32)]
  have middle : (frames o).countP (fun frame => .add ∈ frame.active) =
      (List.range 31).countP (fun j => o.b.getLsbD (1 + 31 - 1 - j)) := by
    rw [frames, List.countP_map, split, List.countP_cons, List.countP_append, List.countP_map]
    simp only [Function.comp_apply, first, last, decide_false, Bool.false_eq_true, ↓reduceIte,
      List.countP_singleton, Nat.add_zero]
    apply List.countP_congr
    intro j listed
    have inside := List.mem_range.mp listed
    rw [Function.comp_apply, Function.comp_apply, decide_eq_true_iff, lit _ (by omega),
      show 32 - j.succ = 1 + 31 - 1 - j by omega]
    exact and_iff_right ⟨by omega, by omega⟩
  have reversed : (List.range 31).countP (fun j => o.b.getLsbD (1 + 31 - 1 - j)) =
      ((List.range 31).map Nat.succ).countP (fun i => o.b.getLsbD i) := by
    have ascending : (List.range 31).map Nat.succ = List.range' 1 31 := rfl
    calc (List.range 31).countP (fun j => o.b.getLsbD (1 + 31 - 1 - j))
        = (List.range' 1 31).reverse.countP (fun i => o.b.getLsbD i) := by
          rw [List.reverse_range', List.countP_map]
          rfl
      _ = ((List.range 31).map Nat.succ).countP (fun i => o.b.getLsbD i) := by
          rw [List.countP_reverse, ascending]
  have small : (o.b >>> 1).toNat < 2 ^ 31 := by
    rw [BitVec.toNat_ushiftRight, Nat.shiftRight_eq_div_pow]
    omega
  rw [middle, reversed, List.countP_map, shifted_bits, popcount_eq 31 _ small]

theorem adds_shown_seven : (frames ⟨3, 7, 10⟩).countP (fun frame => .add ∈ frame.active) = 2 := by
  rw [adds_shown ⟨3, 7, 10⟩ (by decide)]
  simp [popcount]

end BlindSig.Demo

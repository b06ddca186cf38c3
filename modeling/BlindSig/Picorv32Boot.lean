import Mathlib.Data.List.Basic
import BlindSig.Picorv32Refines
import BlindSig.SocMaster

set_option autoImplicit false

namespace BlindSig.Picorv32

open Clocked ByteLanes Soc Rv32i

/-- `r` cycles of reset, with the firmware in the RAM, the register file at zero
and no request at power-up. -/
structure Boots (image : BitVec 12 → Word) (t : SocTop) (resetn : ℕ → Bool) (r : ℕ) : Prop where
  resets : 0 < r
  low : ∀ n < r, resetn n = false
  released : ∀ n, r ≤ n → resetn n = true
  silent : t.cpu.mem.memValid = false
  zero : t.cpu.main.cpuregs = fun _ => 0
  powerUp : PowerUp image t.soc

/-- The processor has come to the instruction at `s.pc`, and launches it in this
cycle. -/
structure Stands (t : SocTop) (s : Hart.State) : Prop where
  state : t.cpu.main.cpuState = .fetch
  running : t.cpu.main.trap = false
  triggered : t.cpu.main.decoderTrigger = true
  pc : t.cpu.main.currentPc = s.pc
  regs : t.cpu.main.cpuregsNext true = s.regs
  mem : bytesOf t.soc.ram = s.mem

theorem Launch.stands {t : SocTop} {s : Hart.State} (launch : Launch t s) : Stands t s :=
  ⟨launch.state, launch.running, launch.triggered, launch.next, launch.regs, launch.ram⟩

/-- What the fabric is given in cycle `n`. -/
def SocTop.pins (t : SocTop) (resetn : ℕ → Bool) (x : ℕ → Unknown) (n : ℕ) : Soc.Pins :=
  (t.run resetn x n).mem.pins ((t.run resetn x n).input (resetn n))

variable {image : BitVec 12 → Word} {t : SocTop} {resetn : ℕ → Bool} {x : ℕ → Unknown} {r : ℕ}

section Reset

/-- What a cycle of reset leaves in the main state machine. -/
theorem reset_main (t : SocTop) (y : Unknown) : (t.edge false y).cpu.main =
    { t.cpu.main.defaults t.cpu.decoder false false y with
      regPc := 0
      regNextPc := 0
      regOut := 0x4000
      latched := ⟨true, false, false, false, false, false, 2⟩
      cpuState := .fetch
      req := noRequests } := by
  rfl

/-- And on the bus. -/
theorem reset_calm (t : SocTop) (y : Unknown) : Calm (t.edge false y).mem := by
  refine ⟨rfl, ?_, ?_, ?_, ?_⟩
  · change (t.cpu.mem.edge false t.cpu.main.wires _ _).memValid = false
    simp [Memory.edge]
  · change (t.soc.edge _).ramReadyR = false
    simp [State.edge, MemSys.pins, SocTop.input]
  · change (t.soc.edge _).simioReadyR = false
    simp [State.edge, MemSys.pins, SocTop.input]
  · change (t.soc.accelWrap.edge _).busReady = false
    rw [BusWrap.State.edge]
    rfl

theorem Boots.low_run (boots : Boots image t resetn r) (n : ℕ) (inside : n ≤ r) :
    (t.run resetn x n).cpu.mem.memValid = false ∧
      (t.run resetn x n).cpu.main.cpuregs = (fun _ => 0) ∧ (t.run resetn x n).soc.ram = image := by
  induction n with
  | zero => exact ⟨boots.silent, boots.zero, boots.powerUp.ram⟩
  | succ n ih =>
      obtain ⟨silent, zero, ram⟩ := ih (by omega)
      rw [SocTop.run, boots.low n (by omega)]
      refine ⟨(reset_calm (t.run resetn x n) (x n)).silent, ?_, ?_⟩
      · rw [reset_main]
        exact zero
      · rw [← ram]
        exact (edge_silent (s := (t.run resetn x n).soc) (by exact silent)).1

/-- The first fetch begins with the first cycle after the reset. -/
theorem Boots.fetching (boots : Boots image t resetn r) :
    Fetching (t.run resetn x r) 0 (Hart.boot (bytesOf image)).regs (bytesOf image) ∧
      (t.run resetn x r).cpu.main.req = noRequests ∧ Calm (t.run resetn x r).mem := by
  obtain ⟨n, rfl⟩ : ∃ n, r = n + 1 := ⟨r - 1, by have := boots.resets; omega⟩
  obtain ⟨-, zero, ram⟩ := boots.low_run (x := x) (n + 1) (Nat.le_refl _)
  rw [SocTop.run, boots.low n (Nat.lt_succ_self n)] at zero ram ⊢
  have main := reset_main (t.run resetn x n) (x n)
  refine ⟨⟨⟨?_, ?_, ?_, ?_, ?_, ?_, ?_, congrArg bytesOf ram⟩, by decide⟩, ?_, reset_calm _ _⟩
  · rw [main]
  · rw [main]
    rfl
  · rw [main]
    exact Bool.and_false _
  · rw [main]
    exact ⟨rfl, rfl⟩
  · rw [main]
    rfl
  · rw [cpuregsNext_write (by rw [main]; rfl), zero, main]
    rfl
  · rw [main]
    rfl
  · rw [main]

end Reset

/-- `k` instructions from a launch on, if the program does not get stuck before. -/
theorem Launch.leads_run {s : Hart.State} (launch : Launch t s) (k : ℕ) :
    Meets (fun events t' => ∃ j u, j ≤ k ∧ Hart.Run s j events u ∧ Launch t' u ∧ (j = k ∨ u.Stuck))
      [] t := by
  induction k with
  | zero => exact .done ⟨0, s, Nat.le_refl 0, .start s, launch, Or.inl rfl⟩
  | succ k ih =>
      refine ih.trans fun past t' ⟨j, u, within, earlier, now, ended⟩ => ?_
      by_cases stuck : u.Stuck
      · exact .done ⟨j, u, by omega, earlier, now, Or.inr stuck⟩
      · refine now.leads stuck fun answer events u' t'' step later => .done ?_
        have count : j = k := ended.resolve_right stuck
        exact ⟨k + 1, u', Nat.le_refl _, count ▸ earlier.next answer step, later, Or.inl rfl⟩

theorem Boots.leads (boots : Boots image t resetn r) (k : ℕ) :
    Meets (fun events t' => ∃ j u, j ≤ k ∧ Hart.Run (Hart.boot (bytesOf image)) j events u ∧
      Launch t' u ∧ (j = k ∨ u.Stuck)) [] (t.run resetn x r) := by
  obtain ⟨fetching, none, calm⟩ := boots.fetching (x := x)
  exact fetching.leads_fresh (fun t' launch => launch.leads_run k) none calm

section Bus

theorem run_soc (n : ℕ) : Soc.run t.soc (t.pins resetn x) n = (t.run resetn x n).soc := by
  induction n with
  | zero => rfl
  | succ n ih =>
      rw [Soc.run, ih]
      rfl

theorem Boots.waits (boots : Boots image t resetn r) (n : ℕ) : Waits (t.run resetn x n).cpu.mem := by
  induction n with
  | zero => exact fun valid => absurd valid (boots.silent ▸ Bool.false_ne_true)
  | succ n ih =>
      change Waits ((t.run resetn x n).cpu.mem.edge (resetn n) _ _ _)
      cases resetn n with
      | false => exact waits_reset
      | true => exact ih.edge

/-- The bus up to cycle `c`, and no request from there on. -/
def cut (ins : ℕ → Soc.Pins) (c n : ℕ) : Soc.Pins :=
  if n < c then ins n else ⟨true, false, 0, 0, 0⟩

theorem cut_before {ins : ℕ → Soc.Pins} {c n : ℕ} (before : n < c) : cut ins c n = ins n :=
  if_pos before

theorem run_cut {s : Soc.State} {ins : ℕ → Soc.Pins} {c n : ℕ} (inside : n ≤ c) :
    Soc.run s (cut ins c) n = Soc.run s ins n :=
  run_congr fun _ before => cut_before (Nat.lt_of_lt_of_le before inside)

/-- The accesses of a run, one cycle after the other. -/
theorem event_toList {s : Soc.State} {ins : ℕ → Soc.Pins}
    (answers : Handshake.Answers (requests ins r) (ready s ins r)) (n : ℕ) :
    (Soc.event s ins r n).toList = deviceEvents (shown s ins r n) (ins (r + n)) := by
  have opened : opens s ins r n = _ := Handshake.opens_eq answers n
  simp only [Soc.event, access, deviceEvents, opened, requests, ready, Pins.request]
  cases (ins (r + n)).transaction.selSimio || (ins (r + n)).transaction.selAccel with
  | false => rfl
  | true =>
      cases (ins (r + n)).transaction.isWrite with
      | false =>
          simp only [Bool.false_eq_true, ↓reduceIte]
          by_cases now : ((ins (r + n)).memValid && (shown s ins r n).memReady (ins (r + n))) = true
          · simp only [now, ↓reduceIte, Option.toList_some]
          · simp only [now, Bool.false_eq_true, ↓reduceIte, Option.toList_none]
      | true =>
          simp only [↓reduceIte]
          by_cases now : ((ins (r + n)).memValid && !(shown s ins r n).memReady (ins (r + n))) = true
          · simp only [now, ↓reduceIte, Option.toList_some]
          · simp only [now, Bool.false_eq_true, ↓reduceIte, Option.toList_none]

variable (boots : Boots image t resetn r) {n : ℕ}
  (within : ∀ k < n, (t.run resetn x (r + k)).InMap)
  (silent : (t.run resetn x (r + n)).cpu.mem.memValid = false)

include boots within silent

/-- Between two instructions the processor has kept to the rule of the fabric. -/
theorem Boots.compliant : Compliant t.soc (cut (t.pins resetn x) (r + n)) r := by
  refine ⟨boots.resets, fun k low => ?_, fun k late => ?_, fun k late valid => ?_,
    fun k valid waiting => ?_⟩
  · rw [cut_before (by omega)]
    exact ⟨boots.low k low, (boots.low_run k (Nat.le_of_lt low)).1⟩
  · unfold cut
    split
    · exact boots.released k late
    · rfl
  · by_cases before : k < r + n
    · obtain ⟨j, rfl⟩ := Nat.exists_eq_add_of_le late
      rw [cut_before before] at valid ⊢
      exact (within j (by omega) valid).imp (fun here => beq_iff_eq.mpr here)
        (Or.imp (fun here => beq_iff_eq.mpr here) fun here => beq_iff_eq.mpr here)
    · rw [cut, if_neg before] at valid
      cases valid
  · by_cases before : k < r + n
    · dsimp only at valid waiting ⊢
      rw [cut_before before] at valid waiting ⊢
      rw [run_cut (Nat.le_of_lt before), run_soc] at waiting
      have late : r ≤ k := by
        by_contra early
        have low := (boots.low_run (x := x) k (by omega)).1
        exact absurd valid (by simp [SocTop.pins, MemSys.pins, Pins.request, SocTop.mem, low])
      have held : (t.run resetn x (k + 1)).cpu.mem = (t.run resetn x k).cpu.mem := by
        change (t.run resetn x k).cpu.mem.edge (resetn k) _
          ((t.run resetn x k).soc.memReady (t.pins resetn x k)) _ = _
        rw [waiting, boots.released k late]
        exact (boots.waits k).held valid _
      by_cases last : k + 1 < r + n
      · rw [cut_before last]
        change Handshake.Request.mk (t.run resetn x (k + 1)).cpu.mem.memValid
          (t.run resetn x (k + 1)).cpu.mem.transaction = _
        rw [held]
        rfl
      · rw [show r + n = k + 1 by omega, held] at silent
        exact absurd (silent.symm.trans valid) Bool.false_ne_true
    · dsimp only at valid
      rw [cut, if_neg before] at valid
      cases valid

/-- So its accesses are those that each cycle makes by itself. -/
theorem Boots.events : Soc.events t.soc (t.pins resetn x) r n =
    emitted SocTop.events (fun k => t.run resetn x (r + k)) n := by
  have answers := answers_of_compliant (boots.compliant within silent)
  have same : ∀ k < r + n, t.pins resetn x k = cut (t.pins resetn x) (r + n) k :=
    fun k before => (cut_before before).symm
  rw [events_congr same, Soc.events, emitted, List.filterMap_eq_flatMap_toList]
  apply List.flatMap_congr
  intro k inside
  have before : r + k < r + n := Nat.add_lt_add_left (List.mem_range.mp inside) r
  rw [event_toList answers, cut_before before, shown, run_cut (Nat.le_of_lt before), run_soc,
    SocTop.pins, boots.released (r + k) (Nat.le_add_right r k)]
  rfl

end Bus

/-- What every run meets, seen on the bus of this one. -/
theorem Boots.reached (boots : Boots image t resetn r)
    {Q : List (Event (BitVec 32) Word) → SocTop → Prop} (meets : Meets Q [] (t.run resetn x r))
    (silent : ∀ events t', Q events t' → t'.cpu.mem.memValid = false) :
    ∃ n, Q (Soc.events t.soc (t.pins resetn x) r n) (t.run resetn x (r + n)) ∧
      Compliant t.soc (cut (t.pins resetn x) (r + n)) r := by
  have runs : ∀ n, ∃ y, t.run resetn x (r + (n + 1)) = (t.run resetn x (r + n)).step y := by
    intro n
    refine ⟨x (r + n), ?_⟩
    rw [← Nat.add_assoc, SocTop.run, boots.released (r + n) (Nat.le_add_right r n)]
    rfl
  obtain ⟨n, holds, within⟩ := meets.reached (fun n => t.run resetn x (r + n)) runs
  have calm := silent _ _ holds
  refine ⟨n, ?_, boots.compliant within calm⟩
  rw [boots.events within calm]
  exact holds

/-- The processor carries out the program in its RAM: `k` instructions of it, or
those up to the one it gets stuck at, with the device accesses they make. -/
theorem executes (boots : Boots image t resetn r) (x : ℕ → Unknown) (k : ℕ) :
    ∃ n j s, j ≤ k ∧
      Hart.Run (Hart.boot (bytesOf image)) j (Soc.events t.soc (t.pins resetn x) r n) s ∧
      Stands (t.run resetn x (r + n)) s ∧ (j = k ∨ s.Stuck) := by
  obtain ⟨n, ⟨j, s, upTo, ran, launch, ended⟩, -⟩ := boots.reached (boots.leads (x := x) k)
    fun _ _ ⟨_, _, _, _, launch, _⟩ => launch.calm.silent
  exact ⟨n, j, s, upTo, ran, launch.stands, ended⟩

/-- All registers at zero, and the firmware in the RAM. -/
def powerUp (image : BitVec 12 → Word) : SocTop :=
  let x : Unknown := ⟨0, 0, 0, 0, 0, false, 0⟩
  let first := First.ofWord 0
  { cpu :=
      { mem := ⟨0, false, false, 0, 0, 0, 0⟩
        decoder := ⟨first, Second.ofWord first 0 x, ⟨false, false, false, false, false, false⟩⟩
        main :=
          { cpuState := .fetch, trap := false, regPc := 0, regNextPc := 0, regOp1 := 0, regOp2 := 0
            regOut := 0, regSh := 0, decoderTrigger := false, decoderPseudoTrigger := false
            aluOutQ := 0, memWordsize := .word, latched := ⟨false, false, false, false, false, false, 0⟩
            req := noRequests, cpuregs := fun _ => 0 } }
    soc := { Soc.blank with ram := image } }

/-- One cycle of reset. -/
theorem boots_powerUp (image : BitVec 12 → Word) :
    Boots image (powerUp image) (fun n => decide (1 ≤ n)) 1 := by
  refine ⟨Nat.one_pos, fun n low => ?_, fun n late => ?_, rfl, rfl, rfl, rfl, rfl⟩
  · exact decide_eq_false (Nat.not_le.mpr low)
  · exact decide_eq_true late

/-- `lui x1, 0x10000`, `addi x3, x0, 0x41` and `sw x3, 0(x1)`, with NOPs after them. -/
def storing (a : BitVec 12) : Word :=
  [0x100000b7, 0x04100193, 0x0030a023].getD a.toNat 0x00000013

theorem executes_storing : ∃ n s, Hart.Run (Hart.boot (bytesOf storing)) 3
      [.wrote 0x10000000 0x41] s ∧
    Soc.events (powerUp storing).soc ((powerUp storing).pins (fun n => decide (1 ≤ n))
      fun _ => ⟨0, 0, 0, 0, 0, false, 0⟩) 1 n = [.wrote 0x10000000 0x41] ∧
    Stands ((powerUp storing).run (fun n => decide (1 ≤ n))
      (fun _ => ⟨0, 0, 0, 0, 0, false, 0⟩) (1 + n)) s := by
  obtain ⟨n, j, s, upTo, ran, stands, ended⟩ := executes (boots_powerUp storing)
    (fun _ => ⟨0, 0, 0, 0, 0, false, 0⟩) 3
  have whole := ran
  -- None of the three gets stuck, and none depends on an answer.
  obtain ⟨_, _, rfl, made, ran, ended⟩ := ran.goes (Hart.enter_write
    (show decode _ = some (.lui 1 0x10000000) by decide +kernel) (fun _ => rfl) (by decide)) ended
  obtain ⟨_, _, rfl, rfl, ran, ended⟩ := ran.goes (Hart.enter_write
    (show decode _ = some (.aluImm .add 3 0 0x41) by decide +kernel) (fun _ => rfl) (by decide)) ended
  obtain ⟨k, _, rfl, rfl, ran, -⟩ := ran.goes (Hart.enter_wrote
    (show decode _ = some (.store .word 1 3 0) by decide +kernel) (fun _ => rfl) (by decide)
    (by decide) (by decide)) ended
  obtain rfl : k = 0 := by omega
  cases ran
  rw [made] at whole
  exact ⟨n, _, whole, made, stands⟩

section Performs

variable {β : Type} {Q : β → Hart.State → Prop} {p : Prog (BitVec 32) Word β}

/-- A program that makes the accesses of `q` after those of the `past`. -/
theorem Launch.leads_performs {q : Prog (BitVec 32) Word β} {s : Hart.State}
    {past : List (Event (BitVec 32) Word)} (launch : Launch t s) (performs : Hart.Performs Q q s)
    (follows : p.follow past = some q) :
    Meets (fun events t' => ∃ value u, p.follow events = some (.pure value) ∧ Launch t' u ∧
      Q value u) past t := by
  induction performs generalizing t past with
  | @done value s here => exact .done ⟨value, s, follows, launch, here⟩
  | @step q s now next left steps first later ih =>
      have alive : ¬s.Stuck := fun stuck => by
        have none := stuck 0
        rw [steps] at none
        cases none
      refine launch.leads alive fun answer events s' t' step launch' => ?_
      rw [steps, Option.some.injEq, Prod.mk.injEq] at step
      obtain ⟨rfl, rfl⟩ := step
      refine ih answer launch' ?_
      rw [Prog.follow_append, follows, Option.bind_some, first]

/-- The program in the RAM, the processor, the fabric and the devices: what the
accesses of the program ensure of the devices comes true. -/
theorem Boots.achieves {P : Devices → Prop} {R : β → Devices → Prop}
    (boots : Boots image t resetn r) (x : ℕ → Unknown)
    (performs : Hart.Performs Q p (Hart.boot (bytesOf image))) (triple : devices.Triple P p R)
    (stable : ∀ value, devices.Stable (R value)) (start : P .reset) :
    ∃ n value s d, Stands (t.run resetn x (r + n)) s ∧ Q value s ∧
      Devices.In d (t.run resetn x (r + n)).soc ∧ R value d := by
  obtain ⟨fetching, none, calm⟩ := boots.fetching (x := x)
  obtain ⟨n, ⟨value, s, follows, launch, holds⟩, compliant⟩ := boots.reached
    (fetching.leads_fresh (fun t' launch => launch.leads_performs performs (Prog.follow_nil p))
      none calm) fun _ _ ⟨_, _, _, launch, _⟩ => launch.calm.silent
  have same : ∀ k < r + n, t.pins resetn x k = cut (t.pins resetn x) (r + n) k :=
    fun k before => (cut_before before).symm
  rw [events_congr same] at follows
  obtain ⟨d, agree, ensures⟩ := devices_of_follow triple stable start compliant boots.powerUp follows
  rw [shown, run_cut (Nat.le_refl _), run_soc] at agree
  exact ⟨n, value, s, d, launch.stands, holds, agree, ensures⟩

end Performs

end BlindSig.Picorv32

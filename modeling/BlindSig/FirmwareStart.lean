import BlindSig.FirmwareTest
import BlindSig.Picorv32Boot

set_option autoImplicit false

/- The code of start.S, which main.rs has too, on the machine of the SoC. -/
namespace BlindSig.FirmwareStart

open Clocked Rv32i Hart

def zero : Reg := 0
def ra : Reg := 1
def sp : Reg := 2
def a0 : Reg := 10
def a1 : Reg := 11

/-- `%pcrel_hi` and `%pcrel_lo`, the two parts of the distance that `la` adds to
its address. -/
def pcrelHi (distance : Word) : Word := (distance + 0x800) &&& 0xFFFFF000

def pcrelLo (distance : Word) : Word := distance - pcrelHi distance

/-- What follows the call of `main`, from 0x28 on. -/
def haltS : List Instr :=
  [ .lui a0 0x10000000,
    .aluImm .add a1 zero 0xFF,
    .store .word a0 a1 0,
    .jal zero 0 ]

/-- `_start`, assembled for address 0. The second argument of `la` is `_bss_start`
first, then `_bss_end`. -/
def startS (bssStart bssEnd main : Word) : List Instr :=
  [ .lui sp 0x4000,
    .auipc a0 (pcrelHi (bssStart - 0x04)),
    .aluImm .add a0 a0 (pcrelLo (bssStart - 0x04)),
    .auipc a1 (pcrelHi (bssEnd - 0x0c)),
    .aluImm .add a1 a1 (pcrelLo (bssEnd - 0x0c)),
    .branch .ge a0 a1 16,
    .store .word a0 zero 0,
    .aluImm .add a0 a0 4,
    .jal zero (-12),
    .jal ra (main - 0x24) ] ++ haltS

/-- The memory has the code from `base` on. -/
def Placed (M : Bytes 14) (base : Word) (code : List Instr) : Prop :=
  ∀ k i, code[k]? = some i → Code M (base + BitVec.ofNat 32 (4 * k)) i

/-- `n` words set to zero. -/
def cleared (M : Bytes 14) (start n : ℕ) : Bytes 14 := fun b =>
  if start ≤ b.toNat ∧ b.toNat < start + 4 * n then 0 else M b

/-- The words of `.bss`; the last one counts in full. -/
def bssWords (bssStart bssEnd : ℕ) : ℕ := (bssEnd - bssStart + 3) / 4

/-- `.bss` in the memory, after the code. The linker script aligns nothing, and an
empty `.bss` may begin anywhere; the loop stores words, so another one may not. -/
structure Bss (bssStart bssEnd : ℕ) : Prop where
  aligned : bssStart < bssEnd → bssStart % 4 = 0
  after : 0x38 ≤ bssStart
  inside : bssEnd ≤ 0x4000
  ordered : bssStart ≤ bssEnd

/-- `main` has returned, and what comes next is still there. -/
def Returned (s : State) : Prop :=
  ∃ regs M, s = enter 0x28 regs M ∧ Placed M 0x28 haltS

/-- The endless loop at the end. -/
def Hangs (s : State) : Prop := s.pc = 0x34 ∧ ∀ answer, s.step answer = some ([], s)

/-- The registers in front of `bss_loop`. -/
structure Looping (regs : Regs) (next bssEnd : ℕ) : Prop where
  a0 : regs.read a0 = BitVec.ofNat 32 next
  a1 : regs.read a1 = BitVec.ofNat 32 bssEnd
  sp : regs.read sp = 0x4000

section Clear

variable {M : Bytes 14} {bssStart bssEnd : ℕ}

/-- The code before `.bss` stays. -/
theorem word_cleared {pc : Word} (code : pc.toNat + 4 ≤ bssStart) (small : bssStart ≤ 0x4000) (n : ℕ) :
    (cleared M bssStart n).word (ramAddr pc) = M.word (ramAddr pc) := by
  apply Bytes.word_congr
  intro k inside
  apply if_neg
  rw [BitVec.toNat_add, ramAddr, BitVec.extractLsb'_toNat, BitVec.toNat_ofNat, Nat.shiftRight_zero]
  omega

theorem cleared_zero : cleared M bssStart 0 = M := by
  funext b
  exact if_neg (by omega)

theorem store_cleared {n : ℕ} (inside : bssStart + 4 * n + 4 ≤ 0x4000) :
    (cleared M bssStart n).store .word (BitVec.ofNat 14 (bssStart + 4 * n)) 0 =
      cleared M bssStart (n + 1) := by
  funext b
  have within := b.isLt
  have low : BitVec.extractLsb' (8 * (b - BitVec.ofNat 14 (bssStart + 4 * n)).toNat) 8 (0 : Word) = 0 := by
    simp
  unfold Bytes.store cleared
  rw [low, BitVec.toNat_sub, BitVec.toNat_ofNat, Size.bytes]
  split
  · rw [if_pos (by omega)]
  · split
    · rw [if_pos (by omega)]
    · rw [if_neg (by omega)]

end Clear

section Registers

variable (regs : Regs) {r k : Reg} (value : Word)

theorem read_write_same (nonzero : r ≠ 0) : (regs.write r value).read r = value := by
  simp only [Regs.read, Regs.write, nonzero, ne_eq, not_false_eq_true, and_self, ↓reduceIte]

theorem read_write_other (other : k ≠ r) : (regs.write r value).read k = regs.read k := by
  simp only [Regs.read, Regs.write, other, and_false, ↓reduceIte]

end Registers

/-- `la` at `pc`. -/
theorem pcrel (pc value : Word) : pc + pcrelHi (value - pc) + pcrelLo (value - pc) = value := by
  rw [pcrelLo, BitVec.add_assoc, BitVec.add_comm (pcrelHi _), BitVec.sub_add_cancel, BitVec.add_comm,
    BitVec.sub_add_cancel]

/-- The comparison of `bss_loop`. -/
theorem slt_ofNat {a b : ℕ} (small : a ≤ 0x4000 ∧ b ≤ 0x4000) :
    (BitVec.ofNat 32 a).slt (BitVec.ofNat 32 b) = decide (a < b) := by
  have value : ∀ n ≤ 0x4000, (BitVec.ofNat 32 n).toInt = n := by
    intro n small
    rw [BitVec.toInt_eq_toNat_of_lt (by rw [BitVec.toNat_ofNat]; omega), BitVec.toNat_ofNat]
    omega
  rw [BitVec.slt_eq_decide, value a small.1, value b small.2, decide_eq_decide]
  omega

theorem inRam_ofNat {n : ℕ} (small : n < 0x4000) : inRam (BitVec.ofNat 32 n) := by
  apply BitVec.eq_of_toNat_eq
  rw [BitVec.extractLsb'_toNat, BitVec.toNat_ofNat, Nat.shiftRight_eq_div_pow]
  change _ = 0
  omega

theorem ramAddr_ofNat (n : ℕ) : ramAddr (BitVec.ofNat 32 n) = BitVec.ofNat 14 n := by
  apply BitVec.eq_of_toNat_eq
  rw [ramAddr, BitVec.extractLsb'_toNat, BitVec.toNat_ofNat, BitVec.toNat_ofNat, Nat.shiftRight_zero]
  omega

section Start

variable {M : Bytes 14} {bssStart bssEnd : ℕ} {main : Word} {regs : Regs} {β : Type}
  {p : Prog (BitVec 32) Word β} {Q : β → State → Prop}
  (placed : Placed M 0 (startS (BitVec.ofNat 32 bssStart) (BitVec.ofNat 32 bssEnd) main))

include placed

/-- From the reset to `bss_loop`. -/
theorem performs_loads (later : ∀ regs, Looping regs bssStart bssEnd → Performs Q p (enter 0x14 regs M)) :
    Performs Q p (enter 0 regs M) := by
  refine .write (placed 0 _ rfl) sp 0x4000 4 (fun _ => rfl) (by decide) ?_
  refine .write (placed 1 _ rfl) a0 _ 8 (fun _ => rfl) (by decide) ?_
  refine .write (placed 2 _ rfl) a0 _ 0xc (fun _ => rfl) (by decide) ?_
  refine .write (placed 3 _ rfl) a1 _ 0x10 (fun _ => rfl) (by decide) ?_
  refine .write (placed 4 _ rfl) a1 _ 0x14 (fun _ => rfl) (by decide) (later _ ?_)
  simp only [Alu.eval, read_write_same _ _ (show a0 ≠ 0 by decide),
    read_write_same _ _ (show a1 ≠ 0 by decide)]
  refine ⟨?_, ?_, ?_⟩
  · rw [read_write_other _ _ (by decide), read_write_other _ _ (by decide),
      read_write_same _ _ (by decide)]
    exact pcrel 4 _
  · rw [read_write_same _ _ (by decide)]
    exact pcrel 0xc _
  · rw [read_write_other _ _ (by decide), read_write_other _ _ (by decide),
      read_write_other _ _ (by decide), read_write_other _ _ (by decide),
      read_write_same _ _ (by decide)]

variable (bss : Bss bssStart bssEnd)

include bss

/-- The loop does not clear itself. -/
theorem placed_cleared (n : ℕ) : Placed (cleared M bssStart n) 0
    (startS (BitVec.ofNat 32 bssStart) (BitVec.ofNat 32 bssEnd) main) := by
  intro k i listed
  have inside : k < 14 := (List.getElem?_eq_some_iff.mp listed).1
  have after := bss.after
  have small : bssStart ≤ 0x4000 := Nat.le_trans bss.ordered bss.inside
  rw [Code, word_cleared ?_ small n]
  · exact placed k i listed
  · rw [show 0 + BitVec.ofNat 32 (4 * k) = BitVec.ofNat 32 (4 * k) from BitVec.zero_add _,
      BitVec.toNat_ofNat]
    omega

/-- The loop with `left` words to go. -/
theorem performs_loop (left : ℕ) {done : ℕ} (total : done + left = bssWords bssStart bssEnd)
    (looping : Looping regs (bssStart + 4 * done) bssEnd)
    (later : ∀ regs, regs.read sp = 0x4000 →
      Performs Q p (enter 0x24 regs (cleared M bssStart (bssWords bssStart bssEnd)))) :
    Performs Q p (enter 0x14 regs (cleared M bssStart done)) := by
  have words : 4 * bssWords bssStart bssEnd ≤ bssEnd - bssStart + 3 ∧
      bssEnd - bssStart ≤ 4 * bssWords bssStart bssEnd := by
    unfold bssWords
    omega
  have code := placed_cleared placed bss
  obtain ⟨aligned, after, inside, ordered⟩ := bss
  have test : (BitVec.ofNat 32 (bssStart + 4 * done)).slt (BitVec.ofNat 32 bssEnd) =
      decide (bssStart + 4 * done < bssEnd) := slt_ofNat ⟨by omega, inside⟩
  induction left generalizing done regs with
  | zero =>
      have last : (Cond.ge.holds (regs.read a0) (regs.read a1)) = true := by
        rw [looping.a0, looping.a1, Cond.holds, test, decide_eq_false (by omega)]
        rfl
      have here := later regs looping.sp
      rw [← total] at here
      refine .write (code done 5 _ rfl) 0 0 0x24 (fun _ => ?_) (by decide) ?_
      · simp only [coreEffect, Instr.effect, last, ↓reduceIte]
        rfl
      · rw [Regs.write_zero]
        exact here
  | succ left ih =>
      have again : (Cond.ge.holds (regs.read a0) (regs.read a1)) = false := by
        rw [looping.a0, looping.a1, Cond.holds, test, decide_eq_true (by omega)]
        rfl
      refine .write (code done 5 _ rfl) 0 0 0x18 (fun _ => ?_) (by decide) ?_
      · simp only [coreEffect, Instr.effect, again, Bool.false_eq_true, ↓reduceIte]
        rfl
      rw [Regs.write_zero]
      have low : bssStart + 4 * done < 0x4000 := by omega
      have store : (cleared M bssStart done).store .word _ 0 = _ := store_cleared (by omega)
      rw [← ramAddr_ofNat] at store
      refine .stored (code done 6 _ rfl) .word (BitVec.ofNat 32 (bssStart + 4 * done)) 0
        (fun _ => ?_) ?_ (inRam_ofNat low) (by decide) ?_ ?_
      · simp only [coreEffect, Instr.effect]
        rw [looping.a0]
        exact congrArg (Effect.store .word · 0) (BitVec.add_zero _)
      · rw [Size.aligned, BitVec.toNat_ofNat]
        change _ % 4 = 0
        omega
      · rw [store, word_cleared (by simp; omega) (by omega), word_cleared (by simp; omega) (by omega)]
      rw [store]
      refine .write (code (done + 1) 7 _ rfl) a0 (BitVec.ofNat 32 (bssStart + 4 * (done + 1))) 0x20
        (fun _ => ?_) (by decide) ?_
      · simp only [coreEffect, Instr.effect, Alu.eval]
        rw [looping.a0, Nat.mul_succ, ← Nat.add_assoc]
        exact congrArg (Effect.write a0 · 0x20) (BitVec.ofNat_add _ 4).symm
      refine .write (code (done + 1) 8 _ rfl) 0 0x24 0x14 (fun _ => rfl) (by decide) ?_
      rw [Regs.write_zero]
      refine ih (by omega) ⟨?_, ?_, ?_⟩ (slt_ofNat ⟨by omega, inside⟩)
      · exact read_write_same _ _ (by decide)
      · rw [read_write_other _ _ (by decide)]
        exact looping.a1
      · rw [read_write_other _ _ (by decide)]
        exact looping.sp

end Start

section Halt

variable {M : Bytes 14} {regs : Regs}

/-- The code of `hang` repeats itself. -/
theorem hangs_enter (code : Code M 0x34 (.jal zero 0)) : Hangs (enter 0x34 regs M) := by
  refine ⟨rfl, fun answer => ?_⟩
  rw [enter_step code]
  change Option.map _ (State.goto (enter 0x34 regs M) 0x34 (regs.write 0 0x38) M) = _
  rw [Regs.write_zero, State.goto, if_pos (by decide)]
  rfl

/-- After the return: one write to the console, and the end. -/
theorem performs_halt (placed : Placed M 0x28 haltS) : Performs (fun ok s => ok = true ∧ Hangs s)
    (FirmwareTest.simio 0xFF >>= fun _ => pure true) (enter 0x28 regs M) := by
  refine .write (placed 0 _ rfl) a0 0x10000000 0x2c (fun _ => rfl) (by decide) ?_
  refine .write (placed 1 _ rfl) a1 0xFF 0x30 (fun _ => rfl) (by decide) ?_
  refine .wrote (placed 2 _ rfl) .word 0x10000000 0xFF (fun _ => ?_) (by decide) (by decide)
    (by decide) ?_
  · simp only [coreEffect, Instr.effect, read_write_same _ _ (show a1 ≠ 0 by decide)]
    rw [read_write_other _ _ (by decide), read_write_same _ _ (by decide)]
    rfl
  · exact .done ⟨rfl, hangs_enter (placed 3 _ rfl)⟩

end Halt

/-- The whole of start.S: `.bss` is zero and the stack is at the end of the memory
when `main` is called, and the halt follows the return of `main`. -/
theorem performs_start {M : Bytes 14} {bssStart bssEnd : ℕ} {main : Word}
    (placed : Placed M 0 (startS (BitVec.ofNat 32 bssStart) (BitVec.ofNat 32 bssEnd) main))
    (bss : Bss bssStart bssEnd) (entry : Fetchable main) {p : FirmwareTest.Io Bool}
    (called : ∀ regs : Regs, regs.read sp = 0x4000 → regs.read ra = 0x28 →
      Performs (fun ok s => ok = true ∧ Returned s) p
        (enter main regs (cleared M bssStart (bssWords bssStart bssEnd)))) :
    Performs (fun ok s => ok = true ∧ Hangs s) (FirmwareTest.boot p) (boot M) := by
  have code := placed_cleared placed bss (bssWords bssStart bssEnd)
  refine performs_loads placed fun regs looping => ?_
  have start := performs_loop (Q := fun ok s => ok = true ∧ Hangs s) placed bss
    (bssWords bssStart bssEnd) (Nat.zero_add _) looping (p := FirmwareTest.boot p)
  rw [cleared_zero] at start
  refine start fun regs stack => ?_
  refine .write (code 9 _ rfl) ra 0x28 main (fun _ => ?_) entry ?_
  · change Effect.write ra 0x28 (0x24 + (main - 0x24)) = _
    rw [BitVec.add_comm, BitVec.sub_add_cancel]
  · refine .bind ((called _ ?_ ?_).mono ?_)
    · rw [read_write_other _ _ (by decide)]
      exact stack
    · exact read_write_same _ _ (by decide)
    · rintro _ _ ⟨rfl, regs, M, rfl, halt⟩
      exact performs_halt halt

theorem placed_iff {M : Bytes 14} {base : Word} {code : List Instr} : Placed M base code ↔
    ∀ k : Fin code.length, Code M (base + BitVec.ofNat 32 (4 * k)) code[k] := by
  constructor
  · intro placed k
    exact placed k _ (List.getElem?_eq_getElem k.isLt)
  · intro all k i listed
    obtain ⟨inside, rfl⟩ := List.getElem?_eq_some_iff.mp listed
    exact all ⟨k, inside⟩

instance (M : Bytes 14) (pc : Word) (i : Instr) : Decidable (Code M pc i) :=
  inferInstanceAs (Decidable (_ = _))

instance (M : Bytes 14) (base : Word) (code : List Instr) : Decidable (Placed M base code) :=
  decidable_of_iff _ placed_iff.symm

section OnSoc

open Soc Accel FirmwareTest

variable {image : BitVec 12 → Word} {t : Picorv32.SocTop} {resetn : ℕ → Bool} {r : ℕ}
  {bssStart bssEnd : ℕ} {main : Word} {p : FirmwareTest.Io Bool} {Q : Accel.State → Prop}
  {text : List Byte}

/-- A `main` that prints "OK" and returns, for address 0x38. -/
def greet : List Instr :=
  [ .lui a0 0x10000000,
    .aluImm .add a1 zero 0x4F,
    .store .word a0 a1 0,
    .aluImm .add a1 zero 0x4B,
    .store .word a0 a1 0,
    .jalr zero ra 0 ]

/-- The words of start.S and of `greet`, and a `.bss` of two words. -/
def greeting : List Word :=
  [0x00004137, 0x00000517, 0x04c50513, 0x00000597, 0x04c58593, 0x00b55863, 0x00052023, 0x00450513,
    0xff5ff06f, 0x014000ef, 0x10000537, 0x0ff00593, 0x00b52023, 0x0000006f, 0x10000537, 0x04f00593,
    0x00b52023, 0x04b00593, 0x00b52023, 0x00008067, 0xdeadbeef, 0xdeadbeef]

def greetingImage (a : BitVec 12) : Word := greeting.getD a.toNat 0

theorem performs_greet {M : Bytes 14} {regs : Regs} (placed : Placed M 0x38 greet)
    (halt : Placed M 0x28 haltS) (back : regs.read ra = 0x28) :
    Performs (fun ok s => ok = true ∧ Returned s)
      (Rust.simPutAll (utf8 "OK") >>= fun _ => pure true) (enter 0x38 regs M) := by
  refine .write (placed 0 _ rfl) a0 0x10000000 0x3c (fun _ => rfl) (by decide) ?_
  refine .write (placed 1 _ rfl) a1 0x4F 0x40 (fun _ => rfl) (by decide) ?_
  refine .wrote (placed 2 _ rfl) .word 0x10000000 0x4F (fun _ => rfl) (by decide) (by decide)
    (by decide) ?_
  refine .write (placed 3 _ rfl) a1 0x4B 0x48 (fun _ => rfl) (by decide) ?_
  refine .wrote (placed 4 _ rfl) .word 0x10000000 0x4B (fun _ => rfl) (by decide) (by decide)
    (by decide) ?_
  refine .write (placed 5 _ rfl) 0 0x50 0x28 (fun _ => ?_) (by decide) (.done ⟨rfl, _, _, rfl, halt⟩)
  change Effect.write 0 0x50 ((regs.read ra + 0) &&& ~~~1) = _
  rw [back]
  rfl

end OnSoc

end BlindSig.FirmwareStart

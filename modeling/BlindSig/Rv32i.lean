import Mathlib.Tactic.Common

set_option autoImplicit false

/- The unprivileged RV32I instructions without CSR and environment calls: their
encoding, and what each one does, memory apart. -/
namespace Rv32i

abbrev Word := BitVec 32

abbrev Reg := BitVec 5

inductive Alu where
  | add | sub | sll | slt | sltu | xor | srl | sra | or | and
deriving DecidableEq

namespace Alu

def eval (op : Alu) (a b : Word) : Word :=
  match op with
  | add => a + b
  | sub => a - b
  | sll => a <<< (b.toNat % 32)
  | slt => if a.slt b then 1 else 0
  | sltu => if a < b then 1 else 0
  | xor => a ^^^ b
  | srl => a >>> (b.toNat % 32)
  | sra => a.sshiftRight (b.toNat % 32)
  | or => a ||| b
  | and => a &&& b

/-- The shifts, whose immediates are five bits wide. -/
def isShift (op : Alu) : Bool :=
  match op with
  | sll | srl | sra => true
  | _ => false

/-- A shift by any number of bits. -/
def shift (op : Alu) (a : Word) (k : ℕ) : Word :=
  match op with
  | sll => a <<< k
  | srl => a >>> k
  | sra => a.sshiftRight k
  | _ => a

theorem eval_shift {op : Alu} (shifts : op.isShift = true) (a b : Word) :
    op.eval a b = op.shift a (b.toNat % 32) := by
  cases op <;> first | rfl | cases shifts

theorem shift_zero (op : Alu) (a : Word) : op.shift a 0 = a := by
  cases op <;> simp [shift]

theorem shift_shift (op : Alu) (a : Word) (j k : ℕ) (shifts : op.isShift = true) :
    op.shift (op.shift a j) k = op.shift a (j + k) := by
  cases op with
  | sll => exact (BitVec.shiftLeft_add a j k).symm
  | srl => exact (BitVec.shiftRight_add a j k).symm
  | sra => exact BitVec.sshiftRight_add.symm
  | _ => cases shifts

end Alu

inductive Cond where
  | eq | ne | lt | ge | ltu | geu
deriving DecidableEq

def Cond.holds (cond : Cond) (a b : Word) : Bool :=
  match cond with
  | eq => a == b
  | ne => a != b
  | lt => a.slt b
  | ge => !a.slt b
  | ltu => a < b
  | geu => !(a < b)

inductive Size where
  | byte | half | word
deriving DecidableEq

def Size.bytes : Size → ℕ
  | byte => 1
  | half => 2
  | word => 4

inductive Load where
  | lb | lh | lw | lbu | lhu
deriving DecidableEq

namespace Load

def size (op : Load) : Size :=
  match op with
  | lb | lbu => .byte
  | lh | lhu => .half
  | lw => .word

/-- What the register gets of the loaded bytes, zero-extended to a word. -/
def extend (op : Load) (raw : Word) : Word :=
  match op with
  | lb => (raw.setWidth 8).signExtend 32
  | lh => (raw.setWidth 16).signExtend 32
  | lw | lbu | lhu => raw

end Load

inductive Instr where
  | lui (rd : Reg) (imm : Word)
  | auipc (rd : Reg) (imm : Word)
  | jal (rd : Reg) (offset : Word)
  | jalr (rd rs1 : Reg) (imm : Word)
  | branch (cond : Cond) (rs1 rs2 : Reg) (offset : Word)
  | load (op : Load) (rd rs1 : Reg) (imm : Word)
  | store (size : Size) (rs1 rs2 : Reg) (imm : Word)
  | aluImm (op : Alu) (rd rs1 : Reg) (imm : Word)
  | alu (op : Alu) (rd rs1 rs2 : Reg)
  | fence (rd : Reg)
deriving DecidableEq

section Fields

variable (w : Word)

def opcode : BitVec 7 := w.extractLsb' 0 7

def rd : Reg := w.extractLsb' 7 5

def funct3 : BitVec 3 := w.extractLsb' 12 3

def rs1 : Reg := w.extractLsb' 15 5

def rs2 : Reg := w.extractLsb' 20 5

def funct7 : BitVec 7 := w.extractLsb' 25 7

def immI : Word := (w.extractLsb' 20 12).signExtend 32

def immS : Word := (w.extractLsb' 25 7 ++ w.extractLsb' 7 5).signExtend 32

def immB : Word :=
  (w.extractLsb' 31 1 ++ w.extractLsb' 7 1 ++ w.extractLsb' 25 6 ++ w.extractLsb' 8 4 ++
    0#1).signExtend 32

def immU : Word := w.extractLsb' 12 20 ++ 0#12

def immJ : Word :=
  (w.extractLsb' 31 1 ++ w.extractLsb' 12 8 ++ w.extractLsb' 20 1 ++ w.extractLsb' 21 10 ++
    0#1).signExtend 32

end Fields

def cond? (f3 : BitVec 3) : Option Cond :=
  if f3 = 0b000 then some .eq
  else if f3 = 0b001 then some .ne
  else if f3 = 0b100 then some .lt
  else if f3 = 0b101 then some .ge
  else if f3 = 0b110 then some .ltu
  else if f3 = 0b111 then some .geu
  else none

def load? (f3 : BitVec 3) : Option Load :=
  if f3 = 0b000 then some .lb
  else if f3 = 0b001 then some .lh
  else if f3 = 0b010 then some .lw
  else if f3 = 0b100 then some .lbu
  else if f3 = 0b101 then some .lhu
  else none

def store? (f3 : BitVec 3) : Option Size :=
  if f3 = 0b000 then some .byte
  else if f3 = 0b001 then some .half
  else if f3 = 0b010 then some .word
  else none

def aluImm? (f3 : BitVec 3) (f7 : BitVec 7) : Option Alu :=
  if f3 = 0b000 then some .add
  else if f3 = 0b010 then some .slt
  else if f3 = 0b011 then some .sltu
  else if f3 = 0b100 then some .xor
  else if f3 = 0b110 then some .or
  else if f3 = 0b111 then some .and
  else if f3 = 0b001 then if f7 = 0b0000000 then some .sll else none
  else if f7 = 0b0000000 then some .srl
  else if f7 = 0b0100000 then some .sra
  else none

def alu? (f3 : BitVec 3) (f7 : BitVec 7) : Option Alu :=
  if f7 = 0b0000000 then
    if f3 = 0b000 then some .add
    else if f3 = 0b001 then some .sll
    else if f3 = 0b010 then some .slt
    else if f3 = 0b011 then some .sltu
    else if f3 = 0b100 then some .xor
    else if f3 = 0b101 then some .srl
    else if f3 = 0b110 then some .or
    else some .and
  else if f7 = 0b0100000 then
    if f3 = 0b000 then some .sub
    else if f3 = 0b101 then some .sra
    else none
  else none

def Cond.funct3 : Cond → BitVec 3
  | eq => 0b000
  | ne => 0b001
  | lt => 0b100
  | ge => 0b101
  | ltu => 0b110
  | geu => 0b111

def Load.funct3 : Load → BitVec 3
  | lb => 0b000
  | lh => 0b001
  | lw => 0b010
  | lbu => 0b100
  | lhu => 0b101

def Size.funct3 : Size → BitVec 3
  | byte => 0b000
  | half => 0b001
  | word => 0b010

def Alu.funct3 : Alu → BitVec 3
  | add | sub => 0b000
  | sll => 0b001
  | slt => 0b010
  | sltu => 0b011
  | xor => 0b100
  | srl | sra => 0b101
  | or => 0b110
  | and => 0b111

def Alu.funct7 : Alu → BitVec 7
  | sub | sra => 0b0100000
  | _ => 0b0000000

theorem cond?_some {f3 : BitVec 3} {cond : Cond} (here : cond? f3 = some cond) :
    f3 = cond.funct3 := by
  have all : ∀ f3, ∀ c ∈ cond? f3, f3 = c.funct3 := by decide
  exact all f3 cond here

theorem load?_some {f3 : BitVec 3} {op : Load} (here : load? f3 = some op) : f3 = op.funct3 := by
  have all : ∀ f3, ∀ op ∈ load? f3, f3 = op.funct3 := by decide
  exact all f3 op here

theorem store?_some {f3 : BitVec 3} {size : Size} (here : store? f3 = some size) :
    f3 = size.funct3 := by
  have all : ∀ f3, ∀ size ∈ store? f3, f3 = size.funct3 := by decide
  exact all f3 size here

/-- Only the shifts look at the upper bits of an immediate. -/
theorem aluImm?_some {f3 : BitVec 3} {f7 : BitVec 7} {op : Alu} (here : aluImm? f3 f7 = some op) :
    f3 = op.funct3 ∧ (op.isShift = true → f7 = op.funct7) ∧ op ≠ .sub := by
  have plain : ∀ f3 : BitVec 3, f3 ≠ 0b001 → f3 ≠ 0b101 → ∀ op ∈ aluImm? f3 0,
      f3 = op.funct3 ∧ op.isShift = false ∧ op ≠ .sub := by decide
  by_cases left : f3 = 0b001
  · subst left
    change (if f7 = 0b0000000 then some Alu.sll else none) = some op at here
    split at here
    · cases here
      exact ⟨rfl, fun _ => ‹_›, by decide⟩
    · cases here
  by_cases right : f3 = 0b101
  · subst right
    change (if f7 = 0b0000000 then some Alu.srl
      else if f7 = 0b0100000 then some Alu.sra else none) = some op at here
    split at here
    · cases here
      exact ⟨rfl, fun _ => ‹_›, by decide⟩
    · split at here
      · cases here
        exact ⟨rfl, fun _ => ‹_›, by decide⟩
      · cases here
  have same : aluImm? f3 f7 = aluImm? f3 0 := by
    have cases : ∀ f3 : BitVec 3, f3 ≠ 0b001 → f3 ≠ 0b101 → f3 = 0b000 ∨ f3 = 0b010 ∨
        f3 = 0b011 ∨ f3 = 0b100 ∨ f3 = 0b110 ∨ f3 = 0b111 := by decide
    rcases cases f3 left right with rfl | rfl | rfl | rfl | rfl | rfl <;> rfl
  rw [same] at here
  obtain ⟨field, shift, other⟩ := plain f3 left right op here
  exact ⟨field, fun is => absurd is (by rw [shift]; decide), other⟩

theorem alu?_some {f3 : BitVec 3} {f7 : BitVec 7} {op : Alu} (here : alu? f3 f7 = some op) :
    f3 = op.funct3 ∧ f7 = op.funct7 := by
  have low : ∀ f3, ∀ op ∈ alu? f3 0b0000000, f3 = op.funct3 ∧ 0b0000000 = op.funct7 := by decide
  have high : ∀ f3, ∀ op ∈ alu? f3 0b0100000, f3 = op.funct3 ∧ 0b0100000 = op.funct7 := by decide
  by_cases zero : f7 = 0b0000000
  · subst zero
    exact low f3 op here
  by_cases set : f7 = 0b0100000
  · subst set
    exact high f3 op here
  rw [alu?, if_neg zero, if_neg set] at here
  cases here

/-- The second operand of an immediate instruction. -/
def aluImmOperand (op : Alu) (w : Word) : Word :=
  if op.isShift then (rs2 w).setWidth 32 else immI w

def decode (w : Word) : Option Instr :=
  if opcode w = 0b0110111 then some (.lui (rd w) (immU w))
  else if opcode w = 0b0010111 then some (.auipc (rd w) (immU w))
  else if opcode w = 0b1101111 then some (.jal (rd w) (immJ w))
  else if opcode w = 0b1100111 then
    if funct3 w = 0b000 then some (.jalr (rd w) (rs1 w) (immI w)) else none
  else if opcode w = 0b1100011 then
    (cond? (funct3 w)).map fun cond => .branch cond (rs1 w) (rs2 w) (immB w)
  else if opcode w = 0b0000011 then
    (load? (funct3 w)).map fun op => .load op (rd w) (rs1 w) (immI w)
  else if opcode w = 0b0100011 then
    (store? (funct3 w)).map fun size => .store size (rs1 w) (rs2 w) (immS w)
  else if opcode w = 0b0010011 then
    (aluImm? (funct3 w) (funct7 w)).map fun op =>
      .aluImm op (rd w) (rs1 w) (aluImmOperand op w)
  else if opcode w = 0b0110011 then
    (alu? (funct3 w) (funct7 w)).map fun op => .alu op (rd w) (rs1 w) (rs2 w)
  else if opcode w = 0b0001111 then
    if funct3 w = 0b000 then some (.fence (rd w)) else none
  else none

/-- The fields that make a word this instruction. -/
def Instr.Encoded (w : Word) : Instr → Prop
  | .lui r imm => opcode w = 0b0110111 ∧ r = rd w ∧ imm = immU w
  | .auipc r imm => opcode w = 0b0010111 ∧ r = rd w ∧ imm = immU w
  | .jal r offset => opcode w = 0b1101111 ∧ r = rd w ∧ offset = immJ w
  | .jalr r s imm => opcode w = 0b1100111 ∧ funct3 w = 0b000 ∧ r = rd w ∧ s = rs1 w ∧ imm = immI w
  | .branch cond s t offset =>
      opcode w = 0b1100011 ∧ cond? (funct3 w) = some cond ∧ s = rs1 w ∧ t = rs2 w ∧ offset = immB w
  | .load op r s imm =>
      opcode w = 0b0000011 ∧ load? (funct3 w) = some op ∧ r = rd w ∧ s = rs1 w ∧ imm = immI w
  | .store size s t imm =>
      opcode w = 0b0100011 ∧ store? (funct3 w) = some size ∧ s = rs1 w ∧ t = rs2 w ∧ imm = immS w
  | .aluImm op r s imm => opcode w = 0b0010011 ∧ aluImm? (funct3 w) (funct7 w) = some op ∧
      r = rd w ∧ s = rs1 w ∧ imm = aluImmOperand op w
  | .alu op r s t => opcode w = 0b0110011 ∧ alu? (funct3 w) (funct7 w) = some op ∧
      r = rd w ∧ s = rs1 w ∧ t = rs2 w
  | .fence r => opcode w = 0b0001111 ∧ funct3 w = 0b000 ∧ r = rd w

theorem encoded_of_decode {w : Word} {i : Instr} (decoded : decode w = some i) : i.Encoded w := by
  unfold decode at decoded
  by_cases lui : opcode w = 0b0110111
  · rw [if_pos lui] at decoded
    cases decoded
    exact ⟨lui, rfl, rfl⟩
  rw [if_neg lui] at decoded
  by_cases auipc : opcode w = 0b0010111
  · rw [if_pos auipc] at decoded
    cases decoded
    exact ⟨auipc, rfl, rfl⟩
  rw [if_neg auipc] at decoded
  by_cases jal : opcode w = 0b1101111
  · rw [if_pos jal] at decoded
    cases decoded
    exact ⟨jal, rfl, rfl⟩
  rw [if_neg jal] at decoded
  by_cases jalr : opcode w = 0b1100111
  · rw [if_pos jalr] at decoded
    by_cases zero : funct3 w = 0b000
    · rw [if_pos zero] at decoded
      cases decoded
      exact ⟨jalr, zero, rfl, rfl, rfl⟩
    · rw [if_neg zero] at decoded
      cases decoded
  rw [if_neg jalr] at decoded
  by_cases branch : opcode w = 0b1100011
  · rw [if_pos branch] at decoded
    obtain ⟨cond, here, rfl⟩ := Option.map_eq_some_iff.mp decoded
    exact ⟨branch, here, rfl, rfl, rfl⟩
  rw [if_neg branch] at decoded
  by_cases load : opcode w = 0b0000011
  · rw [if_pos load] at decoded
    obtain ⟨op, here, rfl⟩ := Option.map_eq_some_iff.mp decoded
    exact ⟨load, here, rfl, rfl, rfl⟩
  rw [if_neg load] at decoded
  by_cases store : opcode w = 0b0100011
  · rw [if_pos store] at decoded
    obtain ⟨size, here, rfl⟩ := Option.map_eq_some_iff.mp decoded
    exact ⟨store, here, rfl, rfl, rfl⟩
  rw [if_neg store] at decoded
  by_cases aluImm : opcode w = 0b0010011
  · rw [if_pos aluImm] at decoded
    obtain ⟨op, here, rfl⟩ := Option.map_eq_some_iff.mp decoded
    exact ⟨aluImm, here, rfl, rfl, rfl⟩
  rw [if_neg aluImm] at decoded
  by_cases alu : opcode w = 0b0110011
  · rw [if_pos alu] at decoded
    obtain ⟨op, here, rfl⟩ := Option.map_eq_some_iff.mp decoded
    exact ⟨alu, here, rfl, rfl, rfl⟩
  rw [if_neg alu] at decoded
  by_cases fence : opcode w = 0b0001111
  · rw [if_pos fence] at decoded
    by_cases zero : funct3 w = 0b000
    · rw [if_pos zero] at decoded
      cases decoded
      exact ⟨fence, zero, rfl⟩
    · rw [if_neg zero] at decoded
      cases decoded
  rw [if_neg fence] at decoded
  cases decoded

/-- What an instruction does: a register and the next address, or an access to
memory after which the next instruction is the one that follows. -/
inductive Effect where
  | write (rd : Reg) (value next : Word)
  | load (op : Load) (rd : Reg) (addr : Word)
  | store (size : Size) (addr data : Word)

abbrev Regs := Reg → Word

/-- Register 0 reads as zero. -/
def Regs.read (regs : Regs) (r : Reg) : Word := if r = 0 then 0 else regs r

/-- A write to register 0 has no effect. -/
def Regs.write (regs : Regs) (r : Reg) (value : Word) : Regs := fun k =>
  if r ≠ 0 ∧ k = r then value else regs k

theorem Regs.write_zero (regs : Regs) (value : Word) : regs.write 0 value = regs := by
  funext k
  simp [write]

/-- An instruction at the address `pc`. -/
def Instr.effect (i : Instr) (pc : Word) (regs : Regs) : Effect :=
  match i with
  | .lui rd imm => .write rd imm (pc + 4)
  | .auipc rd imm => .write rd (pc + imm) (pc + 4)
  | .jal rd offset => .write rd (pc + 4) (pc + offset)
  | .jalr rd rs1 imm => .write rd (pc + 4) ((regs.read rs1 + imm) &&& ~~~1)
  | .branch cond rs1 rs2 offset =>
      .write 0 0 (if cond.holds (regs.read rs1) (regs.read rs2) then pc + offset else pc + 4)
  | .load op rd rs1 imm => .load op rd (regs.read rs1 + imm)
  | .store size rs1 rs2 imm => .store size (regs.read rs1 + imm) (regs.read rs2)
  | .aluImm op rd rs1 imm => .write rd (op.eval (regs.read rs1) imm) (pc + 4)
  | .alu op rd rs1 rs2 => .write rd (op.eval (regs.read rs1) (regs.read rs2)) (pc + 4)
  | .fence _ => .write 0 0 (pc + 4)

/-- A byte-addressed memory. -/
abbrev Bytes (n : ℕ) := BitVec n → BitVec 8

namespace Bytes

variable {n : ℕ} (M : Bytes n)

/-- The word at an address, the least significant byte first. -/
def word (a : BitVec n) : Word := M (a + 3) ++ M (a + 2) ++ M (a + 1) ++ M a

/-- The bytes of an access, zero-extended to a word. -/
def load (size : Size) (a : BitVec n) : Word := ((M.word a).setWidth (8 * size.bytes)).setWidth 32

/-- The low bytes of `data` stored from an address on. -/
def store (size : Size) (a : BitVec n) (data : Word) : Bytes n := fun b =>
  if (b - a).toNat < size.bytes then data.extractLsb' (8 * (b - a).toNat) 8 else M b

theorem getLsbD_word (a : BitVec n) {k : ℕ} (inside : k < 32) :
    (M.word a).getLsbD k = (M (a + BitVec.ofNat n (k / 8))).getLsbD (k % 8) := by
  have cases : k / 8 = 0 ∨ k / 8 = 1 ∨ k / 8 = 2 ∨ k / 8 = 3 := by omega
  rw [word, BitVec.getLsbD_append, BitVec.getLsbD_append, BitVec.getLsbD_append]
  rcases cases with byte | byte | byte | byte
  · rw [byte, if_pos (by omega), show k % 8 = k by omega, BitVec.add_zero]
  · rw [byte, if_neg (by omega), if_pos (by omega), show k % 8 = k - 8 by omega]
    rfl
  · rw [byte, if_neg (by omega), if_neg (by omega), if_pos (by omega),
      show k % 8 = k - 8 - 8 by omega]
    rfl
  · rw [byte, if_neg (by omega), if_neg (by omega), if_neg (by omega),
      show k % 8 = k - 8 - 8 - 8 by omega]
    rfl

theorem word_congr {M N : Bytes n} {a : BitVec n}
    (same : ∀ k < 4, M (a + BitVec.ofNat n k) = N (a + BitVec.ofNat n k)) : M.word a = N.word a := by
  apply BitVec.eq_of_getLsbD_eq
  intro k inside
  rw [getLsbD_word _ _ inside, getLsbD_word _ _ inside, same (k / 8) (by omega)]

theorem getLsbD_load (size : Size) (a : BitVec n) {k : ℕ} (inside : k < 32) :
    (M.load size a).getLsbD k =
      (decide (k < 8 * size.bytes) && (M (a + BitVec.ofNat n (k / 8))).getLsbD (k % 8)) := by
  rw [load, BitVec.getLsbD_setWidth, BitVec.getLsbD_setWidth, M.getLsbD_word a inside,
    decide_eq_true inside, Bool.true_and]

end Bytes

/-- An access to a multiple of its size. -/
def Size.aligned (size : Size) (a : Word) : Prop := a.toNat % size.bytes = 0

instance (size : Size) (a : Word) : Decidable (size.aligned a) := inferInstanceAs (Decidable (_ = _))

end Rv32i

import BlindSig.Picorv32Bytes
import BlindSig.Picorv32Core

set_option autoImplicit false

namespace BlindSig.Picorv32

open Rv32i

/-- Both stages have decoded the word `w`. -/
structure Fits (d : Decoder) (w : Word) : Prop where
  first : d.first = First.ofWord w
  second : ∃ x, d.second = Second.ofWord (First.ofWord w) w x

/-- The flags that the main state machine looks at. -/
structure Flags where
  instrTrap : Bool
  isLoad : Bool
  isSlliSrliSrai : Bool
  isImmediate : Bool
  isStore : Bool
  isSllSrlSra : Bool
  isBranch : Bool
  instrLui : Bool
  instrAuipc : Bool
  instrJal : Bool
  instrJalr : Bool
deriving DecidableEq

def Decoder.flags (d : Decoder) : Flags where
  instrTrap := d.instrTrap
  isLoad := d.first.isLbLhLwLbuLhu
  isSlliSrliSrai := d.second.isSlliSrliSrai
  isImmediate := d.second.isJalrAddiSltiSltiuXoriOriAndi
  isStore := d.first.isSbShSw
  isSllSrlSra := d.second.isSllSrlSra
  isBranch := d.first.isBeqBneBltBgeBltuBgeu
  instrLui := d.first.instrLui
  instrAuipc := d.first.instrAuipc
  instrJal := d.first.instrJal
  instrJalr := d.first.instrJalr

def noFlags : Flags := ⟨false, false, false, false, false, false, false, false, false, false, false⟩

def flagsOf : Instr → Flags
  | .lui _ _ => { noFlags with instrLui := true }
  | .auipc _ _ => { noFlags with instrAuipc := true }
  | .jal _ _ => { noFlags with instrJal := true }
  | .jalr _ _ _ => { noFlags with isImmediate := true, instrJalr := true }
  | .branch _ _ _ _ => { noFlags with isBranch := true }
  | .load _ _ _ _ => { noFlags with isLoad := true }
  | .store _ _ _ _ => { noFlags with isStore := true }
  | .aluImm op _ _ _ => { noFlags with isSlliSrliSrai := op.isShift, isImmediate := !op.isShift }
  | .alu op _ _ _ => { noFlags with isSllSrlSra := op.isShift }
  | .fence _ => noFlags

variable {d : Decoder} {w : Word}

theorem flags_eq {i : Instr} (fits : Fits d w) (encoded : i.Encoded w) : d.flags = flagsOf i := by
  obtain ⟨first, x, second⟩ := fits
  unfold Decoder.flags Decoder.instrTrap
  rw [first, second]
  unfold First.ofWord Second.ofWord
  cases i with
  | lui r imm =>
      have code : w.extractLsb' 0 7 = _ := encoded.1
      simp [code, flagsOf, noFlags]
  | auipc r imm =>
      have code : w.extractLsb' 0 7 = _ := encoded.1
      simp [code, flagsOf, noFlags]
  | jal r imm =>
      have code : w.extractLsb' 0 7 = _ := encoded.1
      simp [code, flagsOf, noFlags]
  | jalr r s imm =>
      have code : w.extractLsb' 0 7 = _ := encoded.1
      have f3 : w.extractLsb' 12 3 = _ := encoded.2.1
      simp [code, f3, flagsOf, noFlags]
  | branch cond s t offset =>
      have code : w.extractLsb' 0 7 = _ := encoded.1
      have f3 : w.extractLsb' 12 3 = _ := cond?_some encoded.2.1
      cases cond <;> simp [code, f3, Cond.funct3, flagsOf, noFlags]
  | load op r s imm =>
      have code : w.extractLsb' 0 7 = _ := encoded.1
      have f3 : w.extractLsb' 12 3 = _ := load?_some encoded.2.1
      cases op <;> simp [code, f3, Load.funct3, flagsOf, noFlags]
  | store size s t imm =>
      have code : w.extractLsb' 0 7 = _ := encoded.1
      have f3 : w.extractLsb' 12 3 = _ := store?_some encoded.2.1
      cases size <;> simp [code, f3, Size.funct3, flagsOf, noFlags]
  | aluImm op r s imm =>
      have code : w.extractLsb' 0 7 = _ := encoded.1
      obtain ⟨f3, f7, other⟩ := aluImm?_some encoded.2.1
      change w.extractLsb' 12 3 = _ at f3
      change _ → w.extractLsb' 25 7 = _ at f7
      cases op <;> simp_all [Alu.funct3, Alu.funct7, Alu.isShift, flagsOf, noFlags]
  | alu op r s t =>
      have code : w.extractLsb' 0 7 = _ := encoded.1
      obtain ⟨f3, f7⟩ := alu?_some encoded.2.1
      change w.extractLsb' 12 3 = _ at f3
      change w.extractLsb' 25 7 = _ at f7
      cases op <;> simp [code, f3, f7, Alu.funct3, Alu.funct7, Alu.isShift, flagsOf, noFlags]
  | fence r =>
      have code : w.extractLsb' 0 7 = _ := encoded.1
      have f3 : w.extractLsb' 12 3 = _ := encoded.2.1
      simp [code, f3, flagsOf, noFlags]

/-- No other word is taken for an instruction. -/
theorem illegal_flags (fits : Fits d w) (illegal : decode w = none) :
    d.instrTrap = true ∧ d.first.instrJal = false ∧ d.first.instrJalr = false := by
  obtain ⟨first, x, second⟩ := fits
  unfold Decoder.instrTrap
  rw [first, second]
  unfold First.ofWord Second.ofWord
  unfold decode opcode funct3 funct7 at illegal
  generalize w.extractLsb' 0 7 = code at illegal ⊢
  generalize w.extractLsb' 12 3 = f3 at illegal ⊢
  generalize w.extractLsb' 25 7 = f7 at illegal ⊢
  by_cases lui : code = 0b0110111
  · simp [lui] at illegal
  by_cases auipc : code = 0b0010111
  · simp [auipc] at illegal
  by_cases jal : code = 0b1101111
  · simp [jal] at illegal
  by_cases jalr : code = 0b1100111
  · simp [jalr] at illegal ⊢
    exact illegal
  by_cases branch : code = 0b1100011
  · simp [branch] at illegal ⊢
    revert f3
    decide
  by_cases load : code = 0b0000011
  · simp [load] at illegal ⊢
    revert f3
    decide
  by_cases store : code = 0b0100011
  · simp [store] at illegal ⊢
    revert f3
    decide
  by_cases aluImm : code = 0b0010011
  · simp [aluImm] at illegal ⊢
    revert f3 f7
    decide +kernel
  by_cases alu : code = 0b0110011
  · simp [alu] at illegal ⊢
    revert f3 f7
    decide +kernel
  by_cases fence : code = 0b0001111
  · simp [fence] at illegal ⊢
    exact illegal
  · simp only [beq_eq_false_iff_ne.mpr lui, beq_eq_false_iff_ne.mpr auipc, beq_eq_false_iff_ne.mpr jal,
      beq_eq_false_iff_ne.mpr jalr, beq_eq_false_iff_ne.mpr branch, beq_eq_false_iff_ne.mpr load,
      beq_eq_false_iff_ne.mpr store, beq_eq_false_iff_ne.mpr aluImm, beq_eq_false_iff_ne.mpr alu,
      beq_eq_false_iff_ne.mpr fence, Bool.false_and, Bool.or_self, Bool.not_false, and_self]

/-- The immediate of the main state machine. -/
def immediate : Instr → Option Word
  | .lui _ imm => some imm
  | .auipc _ imm => some imm
  | .jalr _ _ imm => some imm
  | .branch _ _ _ offset => some offset
  | .load _ _ _ imm => some imm
  | .store _ _ _ imm => some imm
  | .aluImm op _ _ imm => if op.isShift then none else some imm
  | _ => none

theorem decodedImm_eq {i : Instr} (fits : Fits d w) (encoded : i.Encoded w) :
    ∀ imm ∈ immediate i, d.second.decodedImm = imm := by
  obtain ⟨first, x, second⟩ := fits
  rw [second]
  unfold First.ofWord Second.ofWord
  intro imm here
  cases i with
  | lui r imm =>
      obtain ⟨code, -, rfl⟩ := encoded
      cases here
      change w.extractLsb' 0 7 = _ at code
      simp [code, immU]
  | auipc r imm =>
      obtain ⟨code, -, rfl⟩ := encoded
      cases here
      change w.extractLsb' 0 7 = _ at code
      simp [code, immU]
  | jalr r s imm =>
      obtain ⟨code, f3, -, -, rfl⟩ := encoded
      cases here
      change w.extractLsb' 0 7 = _ at code
      change w.extractLsb' 12 3 = _ at f3
      simp [code, f3, immI]
  | branch cond s t offset =>
      obtain ⟨code, -, -, -, rfl⟩ := encoded
      cases here
      change w.extractLsb' 0 7 = _ at code
      simp [code, immB]
  | load op r s imm =>
      obtain ⟨code, -, -, -, rfl⟩ := encoded
      cases here
      change w.extractLsb' 0 7 = _ at code
      simp [code, immI]
  | store size s t imm =>
      obtain ⟨code, -, -, -, rfl⟩ := encoded
      cases here
      change w.extractLsb' 0 7 = _ at code
      simp [code, immS]
  | aluImm op r s imm' =>
      obtain ⟨code, -, -, -, rfl⟩ := encoded
      change w.extractLsb' 0 7 = _ at code
      cases shift : op.isShift with
      | true => simp [immediate, shift] at here
      | false =>
          simp only [immediate, shift, Bool.false_eq_true, ↓reduceIte, Option.mem_def,
            Option.some.injEq, aluImmOperand] at here
          simp [code, ← here, immI]
  | jal r offset => cases here
  | alu op r s t => cases here
  | fence r => cases here

theorem fields_eq (fits : Fits d w) : d.first.decodedRd = rd w ∧ d.first.decodedRs1 = rs1 w ∧
    d.first.decodedRs2 = rs2 w ∧ d.first.decodedImmJ = immJ w := by
  rw [fits.first]
  exact ⟨rfl, rfl, rfl, rfl⟩

/-- A load decides over the size of its access and the extension of its data. -/
theorem load_eq {op : Load} {r s : Reg} {imm : Word} (fits : Fits d w)
    (encoded : (Instr.load op r s imm).Encoded w) (size : Wordsize) (raw value : Word) :
    (if d.second.instrLb || d.second.instrLbu then Wordsize.byte
      else if d.second.instrLh || d.second.instrLhu then .half
      else if d.second.instrLw then .word else size) = wordsize op.size ∧
    (if d.derive.isLbuLhuLw then raw
      else if d.second.instrLh then (raw.setWidth 16).signExtend 32
      else if d.second.instrLb then (raw.setWidth 8).signExtend 32 else value) = op.extend raw := by
  have code : w.extractLsb' 0 7 = _ := encoded.1
  have f3 : w.extractLsb' 12 3 = _ := load?_some encoded.2.1
  obtain ⟨first, x, second⟩ := fits
  unfold Decoder.derive
  rw [first, second]
  unfold First.ofWord Second.ofWord
  cases op <;> simp [code, f3, Load.funct3, Load.size, Load.extend, wordsize]

theorem store_eq {size : Size} {s t : Reg} {imm : Word} (fits : Fits d w)
    (encoded : (Instr.store size s t imm).Encoded w) (other : Wordsize) :
    (if d.second.instrSb then Wordsize.byte else if d.second.instrSh then .half
      else if d.second.instrSw then .word else other) = wordsize size := by
  have code : w.extractLsb' 0 7 = _ := encoded.1
  have f3 : w.extractLsb' 12 3 = _ := store?_some encoded.2.1
  obtain ⟨-, x, second⟩ := fits
  rw [second]
  unfold First.ofWord Second.ofWord
  cases size <;> simp [code, f3, Size.funct3, wordsize]

/-- The instruction is this shift, with either kind of second operand. -/
def Shifts (op : Alu) (w : Word) : Prop :=
  op.isShift = true ∧ ((∃ r s imm, (Instr.aluImm op r s imm).Encoded w) ∨
    ∃ r s t, (Instr.alu op r s t).Encoded w)

theorem shift_flags {op : Alu} (fits : Fits d w) (shifts : Shifts op w) :
    (d.second.instrSlli || d.second.instrSll) = (op == .sll) ∧
      (d.second.instrSrli || d.second.instrSrl) = (op == .srl) ∧
      (d.second.instrSrai || d.second.instrSra) = (op == .sra) := by
  obtain ⟨-, x, second⟩ := fits
  rw [second]
  unfold First.ofWord Second.ofWord
  obtain ⟨is, ⟨r, s, imm, encoded⟩ | ⟨r, s, t, encoded⟩⟩ := shifts
  · have code : w.extractLsb' 0 7 = _ := encoded.1
    obtain ⟨f3, f7, -⟩ := aluImm?_some encoded.2.1
    change w.extractLsb' 12 3 = _ at f3
    have f7 : w.extractLsb' 25 7 = _ := f7 is
    cases op <;> first | contradiction | simp [code, f3, f7, Alu.funct3, Alu.funct7]
  · have code : w.extractLsb' 0 7 = _ := encoded.1
    obtain ⟨f3, f7⟩ := alu?_some encoded.2.1
    change w.extractLsb' 12 3 = _ at f3
    change w.extractLsb' 25 7 = _ at f7
    cases op <;> first | contradiction | simp [code, f3, f7, Alu.funct3, Alu.funct7]

theorem shifted_eq {op : Alu} (fits : Fits d w) (shifts : Shifts op w) (m n : Main) (k : ℕ) :
    m.shifted d n k =
      { n with regOp1 := op.shift m.regOp1 k, regSh := m.regSh - BitVec.ofNat 5 k } := by
  obtain ⟨left, right, arithmetic⟩ := shift_flags fits shifts
  have is := shifts.1
  rw [Main.shifted, left, right, arithmetic]
  cases op <;> first | rfl | contradiction

section Results

theorem bit_word (bit : Bool) : (BitVec.ofBool bit).setWidth 32 = if bit then 1#32 else 0#32 := by
  cases bit <;> rfl

variable {m : Main} {x : Unknown} (derived : d.derived = d.derive) (fits : Fits d w)

include derived fits

theorem aluOut_add {i : Instr} (encoded : i.Encoded w) (adds : (flagsOf i).instrLui = true ∨
    (flagsOf i).instrAuipc = true ∨ (flagsOf i).instrJalr = true) :
    m.aluOut d x = m.regOp1 + m.regOp2 := by
  obtain ⟨first, y, second⟩ := fits
  unfold Main.aluOut Main.aluAddSub
  rw [derived]
  unfold Decoder.derive
  rw [first, second]
  unfold First.ofWord Second.ofWord
  cases i with
  | lui r imm =>
      have code : w.extractLsb' 0 7 = _ := encoded.1
      simp [code]
  | auipc r imm =>
      have code : w.extractLsb' 0 7 = _ := encoded.1
      simp [code]
  | jalr r s imm =>
      have code : w.extractLsb' 0 7 = _ := encoded.1
      have f3 : w.extractLsb' 12 3 = _ := encoded.2.1
      simp [code, f3]
  | _ => simp [flagsOf, noFlags] at adds

theorem aluOut_aluImm {op : Alu} {r s : Reg} {imm : Word}
    (encoded : (Instr.aluImm op r s imm).Encoded w) (plain : op.isShift = false) :
    m.aluOut d x = op.eval m.regOp1 m.regOp2 := by
  obtain ⟨first, y, second⟩ := fits
  have code : w.extractLsb' 0 7 = _ := encoded.1
  obtain ⟨f3, -, other⟩ := aluImm?_some encoded.2.1
  change w.extractLsb' 12 3 = _ at f3
  unfold Main.aluOut Main.aluOut0 Main.aluAddSub
  rw [derived]
  unfold Decoder.derive
  rw [first, second]
  unfold First.ofWord Second.ofWord
  cases op <;> first
    | contradiction
    | simp [code, f3, Alu.funct3, Alu.eval, bit_word]

theorem aluOut_alu {op : Alu} {r s t : Reg} (encoded : (Instr.alu op r s t).Encoded w)
    (plain : op.isShift = false) : m.aluOut d x = op.eval m.regOp1 m.regOp2 := by
  obtain ⟨first, y, second⟩ := fits
  have code : w.extractLsb' 0 7 = _ := encoded.1
  obtain ⟨f3, f7⟩ := alu?_some encoded.2.1
  change w.extractLsb' 12 3 = _ at f3
  change w.extractLsb' 25 7 = _ at f7
  unfold Main.aluOut Main.aluOut0 Main.aluAddSub
  rw [derived]
  unfold Decoder.derive
  rw [first, second]
  unfold First.ofWord Second.ofWord
  cases op <;> first
    | contradiction
    | simp [code, f3, f7, Alu.funct3, Alu.funct7, Alu.eval, bit_word]

theorem aluOut0_branch {cond : Cond} {s t : Reg} {offset : Word}
    (encoded : (Instr.branch cond s t offset).Encoded w) :
    m.aluOut0 d x = cond.holds m.regOp1 m.regOp2 := by
  obtain ⟨first, y, second⟩ := fits
  have code : w.extractLsb' 0 7 = _ := encoded.1
  have f3 : w.extractLsb' 12 3 = _ := cond?_some encoded.2.1
  unfold Main.aluOut0
  rw [derived]
  unfold Decoder.derive
  rw [second]
  unfold First.ofWord Second.ofWord
  cases cond <;> simp [code, f3, Cond.funct3, Cond.holds, bne]

end Results

end BlindSig.Picorv32

import BlindSig.Picorv32Launch

set_option autoImplicit false

namespace BlindSig.Picorv32

open Clocked ByteLanes Soc Rv32i

variable {t : SocTop} {s : Hart.State} {x : Unknown} {data : Word}

theorem and_even {a : Word} (even : a.toNat % 2 = 0) : a &&& ~~~1 = a := by
  have low : a.getLsbD 0 = false := by
    rw [BitVec.getLsbD, Nat.testBit_zero, even]
    rfl
  apply BitVec.eq_of_getLsbD_eq
  intro k inside
  rw [BitVec.getLsbD_and, BitVec.getLsbD_not, decide_eq_true inside, Bool.true_and]
  cases k with
  | zero => rw [low, Bool.false_and]
  | succ k => rw [show (1 : Word).getLsbD (k + 1) = false by simp, Bool.not_false, Bool.and_true]

/-- The offset of a branch is even. -/
theorem even_branch {pc : Word} (aligned : Size.word.aligned pc) (w : Word) :
    (pc + immB w) &&& ~~~1 = pc + immB w := by
  apply and_even
  have whole : pc.toNat % 4 = 0 := aligned
  have even : (immB w).toNat % 2 = 0 := by
    have low : (immB w).getLsbD 0 = false := by
      rw [immB, BitVec.getLsbD_signExtend, if_pos (by decide), BitVec.getLsbD_append]
      rfl
    rw [BitVec.getLsbD, Nat.testBit_zero, decide_eq_false_iff_not] at low
    omega
  rw [BitVec.toNat_add]
  omega

/-- The ALU has put out the result. -/
theorem Carrying.exec_main (carrying : Carrying t s .exec)
    (alone : t.cpu.main.req.memDoRdata = false ∧ t.cpu.main.req.memDoWdata = false)
    (other : t.cpu.decoder.first.isBeqBneBltBgeBltuBgeu = false) (waiting : t.memDone = false) :
    (t.step x).cpu.main =
      { t.cpu.main.defaults t.cpu.decoder true false x with
        regOut := t.cpu.main.regPc + t.cpu.decoder.second.decodedImm
        latched := { t.cpu.main.latched with
          branch := t.cpu.decoder.first.instrJalr, store := true, stalu := true }
        cpuState := .fetch } := by
  rw [step_main, edge_eq (aligned_of_pc alone carrying.whole), Main.stateCase, carrying.state, waiting]
  dsimp only
  rw [Main.execCase, other]
  simp only [Bool.false_eq_true, ↓reduceIte]
  rw [Main.finalRequests, Main.setMemDoRinst, Main.setMemDoRdata, Main.setMemDoWdata, other,
    carrying.state]
  rfl

/-- One cycle of the ALU, and the result is ready with the next instruction. -/
theorem Carrying.alu (carrying : Carrying t s .exec)
    (req : t.cpu.main.req = ⟨true, true, false, false⟩)
    (other : t.cpu.decoder.first.isBeqBneBltBgeBltuBgeu = false)
    (straight : t.cpu.decoder.first.instrJalr = false) (here : Hart.Fetchable (s.pc + 4))
    (asking : Asking t.mem 1 (readOf (s.pc + 4) data)) :
    Fetching (t.step x) (s.pc + 4)
        (s.regs.write (rd s.fetched) (t.cpu.main.aluOut t.cpu.decoder x)) s.mem ∧
      (t.step x).cpu.main.req.memDoRinst = true := by
  have waiting : t.memDone = false := asking.memDone (i := t.input true) (by decide)
  have main := carrying.exec_main (x := x) (by rw [req]; exact ⟨rfl, rfl⟩) other waiting
  rw [straight] at main
  refine ⟨⟨⟨?_, ?_, ?_, ?_, ?_, ?_, ?_, ?_⟩, here⟩, ?_⟩
  · rw [main]
  · rw [main]
    rfl
  · rw [main]
    exact Bool.and_false _
  · rw [main]
    simp only [Main.defaults, req, and_self]
  · rw [main]
    exact carrying.next
  · rw [cpuregsNext_write (by rw [main]; rfl), main]
    simp only [Main.cpuregsWrdata, Main.defaults, Bool.false_eq_true, ↓reduceIte]
    rw [cpuregsNext_keep (by rw [Main.cpuregsWrite, carrying.state]; rfl), carrying.regs,
      carrying.rd]
  · rw [main]
    exact carrying.whole
  · rw [fetch_ram asking.valid asking.carried]
    exact carrying.ram
  · rw [main]
    simp only [Main.defaults, req]

/-- An indirect jump has fetched nothing ahead. -/
theorem Carrying.jalr (carrying : Carrying t s .exec) (req : t.cpu.main.req = noRequests)
    (other : t.cpu.decoder.first.isBeqBneBltBgeBltuBgeu = false)
    (jumps : t.cpu.decoder.first.instrJalr = true) (calm : Calm t.mem) {target : Word}
    (sum : t.cpu.main.aluOut t.cpu.decoder x &&& ~~~1 = target) :
    Heading (t.step x) target (s.regs.write (rd s.fetched) (s.pc + 4)) s.mem ∧
      (t.step x).cpu.main.req = noRequests ∧ Calm (t.step x).mem := by
  have waiting : t.memDone = false := calm.memDone (i := t.input true)
  have main := carrying.exec_main (x := x) (by rw [req]; exact ⟨rfl, rfl⟩) other waiting
  rw [jumps] at main
  refine ⟨⟨?_, ?_, ?_, ?_, ?_, ?_, ?_, ?_⟩, ?_, ?_⟩
  · rw [main]
  · rw [main]
    rfl
  · rw [main]
    exact Bool.and_false _
  · rw [main]
    simp only [Main.defaults, req]
    exact ⟨rfl, rfl⟩
  · rw [main, ← sum]
    rfl
  · rw [cpuregsNext_write (by rw [main]; rfl), main]
    simp only [Main.cpuregsWrdata, Main.defaults, ↓reduceIte]
    rw [cpuregsNext_keep (by rw [Main.cpuregsWrite, carrying.state]; rfl), carrying.regs,
      carrying.rd, carrying.pc]
  · rw [main]
    exact carrying.whole
  · exact (calm_ram calm).trans carrying.ram
  · rw [main]
    exact req
  · exact rests_none calm carrying.running req

/-- A branch, in either of its cycles in the state `exec`. -/
structure Branching (t : SocTop) (s : Hart.State) (a b : Word) : Prop where
  state : t.cpu.main.cpuState = .exec
  running : t.cpu.main.trap = false
  untriggered : t.cpu.main.decoderTrigger = false
  req : t.cpu.main.req = ⟨true, true, false, false⟩
  pc : t.cpu.main.regPc = s.pc
  next : t.cpu.main.regNextPc = s.pc + 4
  direct : t.cpu.main.latched.stalu = false
  regs : t.cpu.main.cpuregs = s.regs
  fits : Fits t.cpu.decoder s.fetched
  derived : t.cpu.decoder.derived = t.cpu.decoder.derive
  ram : bytesOf t.soc.ram = s.mem
  here : Hart.Fetchable s.pc
  left : t.cpu.main.regOp1 = a
  right : t.cpu.main.regOp2 = b

theorem Branching.whole {a b : Word} (branching : Branching t s a b) :
    t.cpu.main.regPc.extractLsb' 0 2 = 0 := by
  rw [branching.pc]
  exact low_of_aligned branching.here.2.2

theorem Branching.done {a b : Word} (branching : Branching t s a b)
    (answering : Answering t.mem 1 (readOf (s.pc + 4) data)) (ahead : Hart.inRam (s.pc + 4)) :
    t.memDone = true ∧ Calm (t.step x).mem := by
  have mapped : mappedAddr (readOf (s.pc + 4) data).addr := mapped_fetch ahead
  constructor
  · have done := answering.memDone (i := t.input true) rfl mapped (by decide) (by decide)
    rw [SocTop.memDone, done]
    change (t.cpu.main.req.memDoRinst || _ || _) = true
    rw [branching.req]
    rfl
  · apply answering.taken (i := t.input true) rfl branching.running mapped
    change (t.cpu.main.req.memDoRinst || _) = true
    rw [branching.req]
    rfl

section Branch

variable {a b : Word} {cond : Cond} {p q : Reg} {offset : Word}
  (branching : Branching t s a b) (encoded : (Instr.branch cond p q offset).Encoded s.fetched)

include branching encoded

theorem Branching.main (done : Bool) (now : t.memDone = done) : (t.step x).cpu.main =
      { t.cpu.main.defaults t.cpu.decoder true done x with
        regOut := s.pc + offset
        latched := { t.cpu.main.latched with
          rd := 0, store := cond.holds a b, branch := cond.holds a b }
        cpuState := if done then .fetch else .exec
        decoderTrigger := if cond.holds a b then false else done
        req := if done then ⟨false, cond.holds a b, false, false⟩ else t.cpu.main.req } := by
  have aligned : t.cpu.main.misaligned = false := by
    refine aligned_of_pc ?_ branching.whole
    rw [branching.req]
    exact ⟨rfl, rfl⟩
  have branch : t.cpu.decoder.first.isBeqBneBltBgeBltuBgeu = true :=
    congrArg Flags.isBranch (flags_eq branching.fits encoded)
  have holds : t.cpu.main.aluOut0 t.cpu.decoder x = cond.holds a b := by
    rw [aluOut0_branch branching.derived branching.fits encoded, branching.left, branching.right]
  have imm : t.cpu.decoder.second.decodedImm = offset := decodedImm_eq branching.fits encoded _ rfl
  rw [step_main, edge_eq aligned, Main.stateCase, branching.state, now]
  dsimp only
  rw [Main.execCase, branch, imm, branching.pc, holds]
  simp only [↓reduceIte]
  rw [Main.finalRequests, Main.setMemDoRinst, Main.setMemDoRdata, Main.setMemDoWdata, branch,
    branching.state, holds]
  simp only [Main.defaults, branching.req, branching.state]
  cases done <;> cases cond.holds a b <;> rfl

/-- The fetch ahead goes on while the branch is decided. -/
theorem Branching.again (asking : Asking t.mem 1 (readOf (s.pc + 4) data)) :
    Branching (t.step x) s a b ∧ Answering (t.step x).mem 1 (readOf (s.pc + 4) data) := by
  have waiting : t.memDone = false := asking.memDone (i := t.input true) (by decide)
  have main := branching.main encoded (x := x) false waiting
  have decoder := decoder_still (x := x) branching.untriggered (by rw [waiting, Bool.and_false])
  have keeps : t.cpu.main.cpuregsNext true = s.regs := by
    rw [cpuregsNext_keep (by rw [Main.cpuregsWrite, branching.state]; rfl)]
    exact branching.regs
  refine ⟨⟨?_, ?_, ?_, ?_, ?_, ?_, ?_, ?_, ?_, ?_, ?_, branching.here, ?_, ?_⟩,
    asking.edge (i := t.input true) rfl branching.running (Or.inl rfl)⟩
  · rw [main]
    rfl
  · rw [main]
    rfl
  · rw [main]
    exact ite_self false
  · rw [main]
    exact branching.req
  · rw [main]
    exact branching.pc
  · rw [main]
    exact branching.next
  · rw [main]
    exact branching.direct
  · rw [main]
    exact keeps
  · rw [decoder]
    exact ⟨branching.fits.first, branching.fits.second⟩
  · rw [decoder]
    rfl
  · rw [fetch_ram asking.valid asking.carried]
    exact branching.ram
  · rw [main]
    exact branching.left
  · rw [main]
    exact branching.right

variable (answering : Answering t.mem 1 (readOf (s.pc + 4) data)) (ahead : Hart.inRam (s.pc + 4))

include answering ahead

/-- The word fetched ahead is the next instruction. -/
theorem Branching.not_taken (falls : cond.holds a b = false) (here : Hart.Fetchable (s.pc + 4)) :
    Launch (t.step x) ⟨s.pc + 4, s.regs, s.mem, s.mem.word (Hart.ramAddr (s.pc + 4))⟩ := by
  obtain ⟨done, calm⟩ := branching.done (x := x) answering ahead
  have main := branching.main encoded (x := x) true done
  rw [falls] at main
  have xfer : t.cpu.mem.memXfer (t.mem.memReady (t.input true)) = true :=
    Bool.and_eq_true_iff.mpr ⟨answering.valid, answering.answered (mapped_fetch ahead)⟩
  have word := fetched_word answering here.1 here.2.2
  rw [branching.ram] at word
  refine ⟨?_, ?_, ?_, calm, ?_, ?_, ?_, ?_, ?_, ?_, here⟩
  · rw [main]
    rfl
  · rw [main]
    rfl
  · rw [main]
    rfl
  · rw [main]
    rfl
  · rw [main]
    exact branching.next
  · rw [cpuregsNext_keep (by rw [main]; rfl), main]
    simp only [Main.defaults]
    rw [cpuregsNext_keep (by rw [Main.cpuregsWrite, branching.state]; rfl)]
    exact branching.regs
  · rw [step_decoder, branching.req, done, xfer, word]
    rfl
  · rw [main]
    have held := memRdataQ_edge (b := t.mem) (i := t.input true) branching.running rfl
    exact held.trans ((if_pos xfer).trans word)
  · rw [fetch_ram answering.valid answering.carried]
    exact branching.ram

/-- The word fetched ahead is dropped. -/
theorem Branching.taken (jumps : cond.holds a b = true) :
    Heading (t.step x) (s.pc + offset) s.regs s.mem ∧ (t.step x).cpu.main.req.memDoRinst = true ∧
      (t.step x).cpu.main.nextPc = s.pc + offset ∧ Calm (t.step x).mem := by
  obtain ⟨done, calm⟩ := branching.done (x := x) answering ahead
  have main := branching.main encoded (x := x) true done
  rw [jumps] at main
  have target : (s.pc + offset) &&& ~~~1 = s.pc + offset := by
    obtain ⟨-, -, -, -, rfl⟩ := encoded
    exact even_branch branching.here.2.2 _
  refine ⟨⟨?_, ?_, ?_, ?_, ?_, ?_, ?_, ?_⟩, ?_, ?_, calm⟩
  · rw [main]
    rfl
  · rw [main]
    rfl
  · rw [main]
    rfl
  · rw [main]
    exact ⟨rfl, rfl⟩
  · rw [main, Main.currentPc]
    simp only [↓reduceIte, branching.direct, Bool.false_eq_true]
    exact target
  · rw [cpuregsNext_write (by rw [main]; rfl), main]
    simp only [Main.defaults]
    rw [cpuregsNext_keep (by rw [Main.cpuregsWrite, branching.state]; rfl), branching.regs]
    exact Regs.write_zero _ _
  · rw [main]
    exact branching.whole
  · rw [fetch_ram answering.valid answering.carried]
    exact branching.ram
  · rw [main]
    rfl
  · rw [main]
    exact target

end Branch

section Shift

variable {op : Alu} (carrying : Carrying t s .shift)
  (req : t.cpu.main.req = ⟨true, false, false, false⟩)

include carrying req

theorem Carrying.shift_main (waiting : t.memDone = false) : (t.step x).cpu.main =
    t.cpu.main.shiftCase t.cpu.decoder (t.cpu.main.defaults t.cpu.decoder true false x) := by
  have aligned := aligned_of_pc (by rw [req]; exact ⟨rfl, rfl⟩) carrying.whole
  rw [step_main, edge_eq aligned, finalRequests_plain _ (Or.inr (Or.inr carrying.state)),
    Main.stateCase, carrying.state, waiting]
  rfl

/-- The shifter is done: the next instruction is asked for. -/
theorem Carrying.shift_done (waiting : t.memDone = false)
    (kept : (t.step x).soc.ram = t.soc.ram) (zero : t.cpu.main.regSh = 0)
    (here : Hart.Fetchable (s.pc + 4)) :
    Fetching (t.step x) (s.pc + 4) (s.regs.write (rd s.fetched) t.cpu.main.regOp1) s.mem ∧
      (t.step x).cpu.main.req.memDoRinst = true := by
  have main := carrying.shift_main req (x := x) waiting
  rw [Main.shiftCase, if_pos zero] at main
  refine ⟨⟨⟨?_, ?_, ?_, ?_, ?_, ?_, ?_, ?_⟩, here⟩, ?_⟩
  · rw [main]
  · rw [main]
    rfl
  · rw [main]
    exact Bool.and_false _
  · rw [main]
    simp only [Main.defaults, req, and_self]
  · rw [main]
    simp only [Main.currentPc, Main.defaults, carrying.straight, Bool.false_eq_true, ↓reduceIte]
    exact carrying.next
  · rw [cpuregsNext_write]
    · rw [main]
      simp only [Main.cpuregsWrdata, Main.defaults, carrying.straight, carrying.direct,
        Bool.false_eq_true, ↓reduceIte]
      rw [cpuregsNext_keep (by rw [Main.cpuregsWrite, carrying.state]; rfl), carrying.regs,
        carrying.rd]
    · rw [main]
      exact Bool.or_true _
  · rw [main]
    exact carrying.whole
  · rw [kept]
    exact carrying.ram
  · rw [main]
    simp only [req]

/-- Another turn of the shifter. -/
theorem Carrying.shift_turn (shifts : Shifts op s.fetched) (waiting : t.memDone = false)
    (kept : (t.step x).soc.ram = t.soc.ram) (more : t.cpu.main.regSh ≠ 0) :
    ∃ k, 0 < k ∧ k ≤ t.cpu.main.regSh.toNat ∧ Carrying (t.step x) s .shift ∧
      (t.step x).cpu.main.req = ⟨true, false, false, false⟩ ∧
      (t.step x).cpu.main.regOp1 = op.shift t.cpu.main.regOp1 k ∧
      (t.step x).cpu.main.regSh.toNat = t.cpu.main.regSh.toNat - k := by
  have positive : 0 < t.cpu.main.regSh.toNat := by
    apply Nat.pos_of_ne_zero
    exact fun zero => more (BitVec.eq_of_toNat_eq zero)
  have small := t.cpu.main.regSh.isLt
  obtain ⟨k, some, fits, main⟩ : ∃ k, 0 < k ∧ k ≤ t.cpu.main.regSh.toNat ∧ (t.step x).cpu.main =
      t.cpu.main.shifted t.cpu.decoder
        { t.cpu.main.defaults t.cpu.decoder true false x with
          latched := { t.cpu.main.latched with store := true } } k := by
    have main := carrying.shift_main req (x := x) waiting
    rw [Main.shiftCase, if_neg more] at main
    by_cases four : 4 ≤ t.cpu.main.regSh
    · rw [if_pos four] at main
      exact ⟨4, by decide, four, main⟩
    · rw [if_neg four] at main
      exact ⟨1, by decide, positive, main⟩
  rw [shifted_eq carrying.fits shifts] at main
  have keeps : Keeps t.cpu.main (t.step x).cpu.main := by
    rw [main]
    exact ⟨rfl, rfl, rfl, rfl, rfl, rfl, rfl⟩
  refine ⟨k, some, fits, carrying.toWorking.again keeps ?_ ?_ ?_ waiting ?_, ?_, ?_, ?_⟩
  · rw [Main.cpuregsWrite, carrying.state]
    rfl
  · rw [main]
    exact Bool.and_false _
  · rw [main]
    exact carrying.state
  · rw [kept]
  · rw [main]
    exact req
  · rw [main]
  · rw [main]
    change (t.cpu.main.regSh - BitVec.ofNat 5 k).toNat = _
    rw [BitVec.toNat_sub, BitVec.toNat_ofNat]
    omega

end Shift

/-- The shifter ends, and the next instruction has been fetched ahead. -/
theorem Carrying.leads_shift {op : Alu} {Q : List (Event (BitVec 32) Word) → SocTop → Prop}
    {past : List (Event (BitVec 32) Word)} {value : Word} (shifts : Shifts op s.fetched)
    (here : Hart.Fetchable (s.pc + 4))
    (next : ∀ t', Launch t' ⟨s.pc + 4, s.regs.write (rd s.fetched) value, s.mem,
      s.mem.word (Hart.ramAddr (s.pc + 4))⟩ → Meets Q past t')
    (left : ℕ) : ∀ t : SocTop, Carrying t s .shift →
      t.cpu.main.req = ⟨true, false, false, false⟩ →
      Ahead t (s.pc + 4) (s.mem.word (Hart.ramAddr (s.pc + 4))) →
      op.shift t.cpu.main.regOp1 t.cpu.main.regSh.toNat = value → t.cpu.main.regSh.toNat = left →
      Meets Q past t := by
  induction left using Nat.strongRecOn with
  | ind left ih =>
    intro t carrying req ahead result amount
    have step := fun x => ahead.step (x := x) carrying.running req here (by rw [carrying.ram])
    refine .step (ahead.inMap here.1) fun x => ?_
    obtain ⟨later, waiting, silent, kept⟩ := step x
    rw [silent, List.append_nil]
    by_cases zero : t.cpu.main.regSh = 0
    · obtain ⟨fetching, asks⟩ := carrying.shift_done req waiting kept zero here
      rw [zero, show (0 : BitVec 5).toNat = 0 from rfl, Alu.shift_zero] at result
      rw [result] at fetching
      exact fetching.leads_ahead next asks later
    · obtain ⟨k, some, fits, again, same, turned, rest⟩ :=
        carrying.shift_turn req shifts waiting kept zero
      refine ih (left - k) (by omega) (t.step x) again same later ?_ (by omega)
      rw [turned, rest, Alu.shift_shift _ _ _ _ shifts.1, Nat.add_sub_cancel' fits]
      exact result

end BlindSig.Picorv32

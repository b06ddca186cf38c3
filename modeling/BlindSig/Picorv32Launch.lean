import BlindSig.Picorv32Fetch

set_option autoImplicit false

namespace BlindSig.Picorv32

open Clocked ByteLanes Soc Rv32i

/-- What the core has of the instruction `s.fetched` from its second cycle on. -/
structure Steady (m : Main) (s : Hart.State) : Prop where
  running : m.trap = false
  pc : m.regPc = s.pc
  next : m.regNextPc = s.pc + 4
  rd : m.latched.rd = rd s.fetched
  straight : m.latched.branch = false
  direct : m.latched.stalu = false
  regs : m.cpuregs = s.regs

/-- The fields that the states between the launch and the result leave alone. -/
structure Keeps (m n : Main) : Prop where
  running : n.trap = false
  pc : n.regPc = m.regPc
  next : n.regNextPc = m.regNextPc
  rd : n.latched.rd = m.latched.rd
  straight : n.latched.branch = m.latched.branch
  direct : n.latched.stalu = m.latched.stalu
  regs : n.cpuregs = m.cpuregsNext true

/-- The instruction `s.fetched` is under way. -/
structure Working (t : SocTop) (s : Hart.State) : Prop extends Steady t.cpu.main s where
  untriggered : t.cpu.main.decoderTrigger = false
  fits : Fits t.cpu.decoder s.fetched
  ram : bytesOf t.soc.ram = s.mem
  here : Hart.Fetchable s.pc

theorem Working.whole {t : SocTop} {s : Hart.State} (working : Working t s) :
    t.cpu.main.regPc.extractLsb' 0 2 = 0 := by
  rw [working.pc]
  exact low_of_aligned working.here.2.2

/-- It is in its second cycle. -/
structure Decoded (t : SocTop) (s : Hart.State) : Prop extends Working t s where
  state : t.cpu.main.cpuState = .ldRs1
  look : t.cpu.decoder.derived.isLuiAuipcJal =
    (t.cpu.decoder.first.instrLui || t.cpu.decoder.first.instrAuipc || t.cpu.decoder.first.instrJal)
  calm : Calm t.mem
  req : t.cpu.main.req = ⟨!t.cpu.decoder.first.instrJalr, false, false, false⟩
  fresh : t.cpu.main.latched.store = false

variable {t : SocTop} {s : Hart.State} {x : Unknown}

/-- Between two instructions the decoder keeps what it has. -/
theorem decoder_still (untriggered : t.cpu.main.decoderTrigger = false)
    (none : (t.cpu.main.req.memDoRinst && t.memDone) = false) :
    (t.step x).cpu.decoder = { t.cpu.decoder with derived := t.cpu.decoder.derive } := by
  rw [step_decoder, none, untriggered]
  rfl

section Launch

variable (launch : Launch t s)

include launch

theorem Launch.memDone : t.memDone = false := launch.calm.memDone (i := t.input true)

theorem Launch.decoder : Fits (t.step x).cpu.decoder s.fetched ∧
    (t.step x).cpu.decoder.first = t.cpu.decoder.first ∧
    (t.step x).cpu.decoder.derived.isLuiAuipcJal = (t.cpu.decoder.first.instrLui ||
      t.cpu.decoder.first.instrAuipc || t.cpu.decoder.first.instrJal) := by
  have second := launch.second
  rw [step_decoder, launch.memDone, launch.triggered, launch.none]
  cases pseudo : t.cpu.main.decoderPseudoTrigger with
  | true =>
      rw [pseudo, if_pos rfl] at second
      exact ⟨⟨launch.first, second⟩, rfl, rfl⟩
  | false =>
      rw [pseudo, if_neg Bool.false_ne_true] at second
      refine ⟨⟨launch.first, x, ?_⟩, rfl, rfl⟩
      rw [← launch.first, ← second]
      rfl

theorem Launch.main : (t.step x).cpu.main = t.cpu.main.fetchCase t.cpu.decoder
    (t.cpu.main.defaults t.cpu.decoder true false x) := by
  have aligned : t.cpu.main.misaligned = false := by
    rw [Main.misaligned, launch.none]
    rfl
  rw [step_main, edge_eq aligned, finalRequests_plain _ (Or.inl launch.state), Main.stateCase,
    launch.state, launch.memDone]
  rfl

theorem Launch.rests : Calm (t.step x).mem := rests_none launch.calm launch.running launch.none

theorem Launch.kept : bytesOf (t.step x).soc.ram = s.mem := (calm_ram launch.calm).trans launch.ram

theorem Launch.decoded (other : t.cpu.decoder.first.instrJal = false) : Decoded (t.step x) s := by
  have main := launch.main (x := x)
  rw [Main.fetchCase, launch.triggered, launch.next] at main
  simp only [other, ↓reduceIte, Bool.false_eq_true] at main
  obtain ⟨fits, first, look⟩ := launch.decoder (x := x)
  refine ⟨⟨⟨?_, ?_, ?_, ?_, ?_, ?_, ?_⟩, ?_, fits, launch.kept, launch.here⟩, ?_, ?_, launch.rests, ?_,
    ?_⟩
  · rw [main]
    rfl
  · rw [main]
  · rw [main]
  · rw [main, launch.first]
    rfl
  · rw [main]
  · rw [main]
  · rw [main]
    exact launch.regs
  · rw [main]
    exact Bool.and_false _
  · rw [main]
  · rw [first]
    exact look
  · rw [main, first]
    simp only [Main.defaults, launch.none]
    rfl
  · rw [main]

end Launch

section Registers

variable {m : Main}

theorem cpuregsNext_write (writes : m.cpuregsWrite = true) :
    m.cpuregsNext true = Regs.write m.cpuregs m.latched.rd m.cpuregsWrdata := by
  rw [Main.cpuregsNext, writes]
  by_cases zero : m.latched.rd = 0#5
  · rw [zero]
    funext k
    simp [Regs.write]
  · funext k
    simp [Regs.write, zero]

theorem cpuregsNext_keep (keeps : m.cpuregsWrite = false) : m.cpuregsNext true = m.cpuregs := by
  rw [Main.cpuregsNext, keeps]
  rfl

theorem Steady.step {n : Main} (steady : Steady m s) (keeps : Keeps m n)
    (still : m.cpuregsWrite = false) : Steady n s := by
  refine ⟨keeps.running, keeps.pc.trans steady.pc, keeps.next.trans steady.next,
    keeps.rd.trans steady.rd, keeps.straight.trans steady.straight,
    keeps.direct.trans steady.direct, ?_⟩
  rw [keeps.regs, cpuregsNext_keep still, steady.regs]

theorem cpuregs_read {d : Decoder} {w : Word} (fits : Fits d w) :
    m.cpuregsRs1 d = Regs.read m.cpuregs (rs1 w) ∧ m.cpuregsRs2 d = Regs.read m.cpuregs (rs2 w) := by
  obtain ⟨-, one, two, -⟩ := fields_eq fits
  rw [Main.cpuregsRs1, Main.cpuregsRs2, one, two]
  exact ⟨rfl, rfl⟩

end Registers

/-- A jump is carried out by its launch. -/
theorem Launch.jal (launch : Launch t s) (jal : t.cpu.decoder.first.instrJal = true) :
    Heading (t.step x) (s.pc + immJ s.fetched) (s.regs.write (rd s.fetched) (s.pc + 4)) s.mem ∧
      (t.step x).cpu.main.req.memDoRinst = true ∧
      (t.step x).cpu.main.nextPc = s.pc + immJ s.fetched ∧ Calm (t.step x).mem := by
  have main := launch.main (x := x)
  rw [Main.fetchCase, launch.triggered, launch.next] at main
  simp only [jal, ↓reduceIte] at main
  have target : t.cpu.decoder.first.decodedImmJ = immJ s.fetched := by
    rw [launch.first]
    rfl
  rw [target] at main
  refine ⟨⟨?_, ?_, ?_, ?_, ?_, ?_, ?_, launch.kept⟩, ?_, ?_, launch.rests⟩
  · rw [main]
    exact launch.state
  · rw [main]
    rfl
  · rw [main]
    exact Bool.and_false _
  · rw [main]
    simp only [Main.defaults, launch.none]
    exact ⟨rfl, rfl⟩
  · rw [main]
    rfl
  · rw [cpuregsNext_write]
    · rw [main, launch.first]
      change Regs.write (t.cpu.main.cpuregsNext true) _ _ = _
      rw [launch.regs]
      rfl
    · rw [main]
      simp [Main.cpuregsWrite, Main.defaults, launch.state]
  · rw [main]
    exact low_of_aligned launch.here.2.2
  · rw [main]
  · rw [main]
    rfl

section LdRs1

/-- What the second cycle assigns: the operands, and whether the fetch ahead is
the fetch of the next instruction already. -/
def Main.reads (n : Main) (a b : Word) (sh : BitVec 5) (rinst : Bool) (next : CpuState) : Main :=
  { n with
    regOp1 := a
    regOp2 := b
    regSh := sh
    req := { n.req with memDoRinst := rinst }
    cpuState := next }

/-- The operands in the state `exec`. -/
def operands (i : Instr) (s : Hart.State) : Word × Word :=
  match i with
  | .lui _ imm => (0, imm)
  | .auipc _ imm => (s.pc, imm)
  | .jalr _ _ imm => (s.regs.read (rs1 s.fetched), imm)
  | .aluImm _ _ _ imm => (s.regs.read (rs1 s.fetched), imm)
  | _ => (s.regs.read (rs1 s.fetched), s.regs.read (rs2 s.fetched))

/-- Carried out by one cycle of the ALU, or two for a branch. -/
def inExec : Instr → Bool
  | .jal _ _ => false
  | .load _ _ _ _ => false
  | .store _ _ _ _ => false
  | .aluImm op _ _ _ => !op.isShift
  | .alu op _ _ _ => !op.isShift
  | _ => true

variable {i : Instr} {n : Main} (decoded : Decoded t s) (encoded : i.Encoded s.fetched)

include decoded encoded

theorem Decoded.flags : t.cpu.decoder.flags = flagsOf i := flags_eq decoded.fits encoded

theorem ldRs1_exec (exec : inExec i = true) : ∃ sh, t.cpu.main.ldRs1Case t.cpu.decoder x n =
    n.reads (operands i s).1 (operands i s).2 sh t.cpu.main.req.memDoPrefetch .exec := by
  have flags := decoded.flags encoded
  have imm := decodedImm_eq decoded.fits encoded
  obtain ⟨one, two⟩ := cpuregs_read (m := t.cpu.main) decoded.fits
  have look := decoded.look
  have pc := decoded.pc
  rw [decoded.regs] at one two
  cases i with
  | lui r imm' =>
      have imm := imm _ rfl
      simp only [Decoder.flags, flagsOf, noFlags, Flags.mk.injEq] at flags
      simp only [Main.ldRs1Case, look, flags, imm, operands, Bool.false_eq_true, ↓reduceIte,
        Bool.or_false]
      exact ⟨_, rfl⟩
  | auipc r imm' =>
      have imm := imm _ rfl
      simp only [Decoder.flags, flagsOf, noFlags, Flags.mk.injEq] at flags
      simp only [Main.ldRs1Case, look, flags, imm, pc, operands, Bool.false_eq_true, ↓reduceIte,
        Bool.or_false, Bool.or_true]
      exact ⟨_, rfl⟩
  | jalr r a imm' =>
      have imm := imm _ rfl
      simp only [Decoder.flags, flagsOf, noFlags, Flags.mk.injEq] at flags
      simp only [Main.ldRs1Case, look, flags, imm, one, operands, Bool.false_eq_true, ↓reduceIte,
        Bool.or_self, Bool.false_and]
      exact ⟨_, rfl⟩
  | aluImm op r a imm' =>
      have plain : op.isShift = false := by simpa [inExec] using exec
      have imm := imm imm' (by simp [immediate, plain])
      simp only [Decoder.flags, flagsOf, noFlags, Flags.mk.injEq, plain, Bool.not_false] at flags
      simp only [Main.ldRs1Case, look, flags, imm, one, operands, Bool.false_eq_true, ↓reduceIte,
        Bool.or_self, Bool.false_and]
      exact ⟨_, rfl⟩
  | branch cond a b offset =>
      simp only [Decoder.flags, flagsOf, noFlags, Flags.mk.injEq] at flags
      simp only [Main.ldRs1Case, look, flags, one, two, operands, Bool.false_eq_true, ↓reduceIte,
        Bool.or_self, Bool.false_and]
      exact ⟨_, rfl⟩
  | alu op r a b =>
      have plain : op.isShift = false := by simpa [inExec] using exec
      simp only [Decoder.flags, flagsOf, noFlags, Flags.mk.injEq, plain] at flags
      simp only [Main.ldRs1Case, look, flags, one, two, operands, Bool.false_eq_true, ↓reduceIte,
        Bool.or_self, Bool.false_and]
      exact ⟨_, rfl⟩
  | fence r =>
      simp only [Decoder.flags, flagsOf, noFlags, Flags.mk.injEq] at flags
      simp only [Main.ldRs1Case, look, flags, one, two, operands, Bool.false_eq_true, ↓reduceIte,
        Bool.or_self, Bool.false_and]
      exact ⟨_, rfl⟩
  | jal r offset => cases exec
  | load op r a imm => cases exec
  | store size a b imm => cases exec

omit encoded

theorem ldRs1_load {op : Load} {r a : Reg} {imm : Word}
    (encoded : (Instr.load op r a imm).Encoded s.fetched) :
    ∃ b sh, t.cpu.main.ldRs1Case t.cpu.decoder x n =
      n.reads (s.regs.read (rs1 s.fetched)) b sh true .ldmem := by
  have flags := decoded.flags encoded
  obtain ⟨one, -⟩ := cpuregs_read (m := t.cpu.main) decoded.fits
  have look := decoded.look
  rw [decoded.regs] at one
  simp only [Decoder.flags, flagsOf, noFlags, Flags.mk.injEq] at flags
  simp only [Main.ldRs1Case, look, flags, one, Bool.false_eq_true, ↓reduceIte, Bool.or_self,
    Bool.not_false, Bool.true_and]
  exact ⟨_, _, rfl⟩

theorem ldRs1_store {size : Size} {a b : Reg} {imm : Word}
    (encoded : (Instr.store size a b imm).Encoded s.fetched) :
    ∃ sh, t.cpu.main.ldRs1Case t.cpu.decoder x n =
      n.reads (s.regs.read (rs1 s.fetched)) (s.regs.read (rs2 s.fetched)) sh true .stmem := by
  have flags := decoded.flags encoded
  obtain ⟨one, two⟩ := cpuregs_read (m := t.cpu.main) decoded.fits
  have look := decoded.look
  rw [decoded.regs] at one two
  simp only [Decoder.flags, flagsOf, noFlags, Flags.mk.injEq] at flags
  simp only [Main.ldRs1Case, look, flags, one, two, Bool.false_eq_true, ↓reduceIte, Bool.or_self,
    Bool.false_and]
  exact ⟨_, rfl⟩

theorem ldRs1_shiftImm {op : Alu} {r a : Reg} {imm : Word}
    (encoded : (Instr.aluImm op r a imm).Encoded s.fetched) (shifts : op.isShift = true) :
    ∃ b, t.cpu.main.ldRs1Case t.cpu.decoder x n =
      n.reads (s.regs.read (rs1 s.fetched)) b (rs2 s.fetched) n.req.memDoRinst .shift := by
  have flags := decoded.flags encoded
  obtain ⟨one, -⟩ := cpuregs_read (m := t.cpu.main) decoded.fits
  obtain ⟨-, -, amount, -⟩ := fields_eq decoded.fits
  have look := decoded.look
  rw [decoded.regs] at one
  simp only [Decoder.flags, flagsOf, noFlags, Flags.mk.injEq, shifts, Bool.not_true] at flags
  simp only [Main.ldRs1Case, look, flags, one, amount, Bool.false_eq_true, ↓reduceIte, Bool.or_self,
    Bool.false_and]
  exact ⟨_, rfl⟩

theorem ldRs1_shift {op : Alu} {r a b : Reg} (encoded : (Instr.alu op r a b).Encoded s.fetched)
    (shifts : op.isShift = true) : t.cpu.main.ldRs1Case t.cpu.decoder x n =
      n.reads (s.regs.read (rs1 s.fetched)) (s.regs.read (rs2 s.fetched))
        ((s.regs.read (rs2 s.fetched)).setWidth 5) n.req.memDoRinst .shift := by
  have flags := decoded.flags encoded
  obtain ⟨one, two⟩ := cpuregs_read (m := t.cpu.main) decoded.fits
  have look := decoded.look
  rw [decoded.regs] at one two
  simp only [Decoder.flags, flagsOf, noFlags, Flags.mk.injEq, shifts] at flags
  simp only [Main.ldRs1Case, look, flags, one, two, Bool.false_eq_true, ↓reduceIte, Bool.or_self,
    Bool.false_and]
  rfl

end LdRs1

/-- The instruction is in the state that carries it out. -/
structure Carrying (t : SocTop) (s : Hart.State) (state : CpuState) : Prop extends Working t s where
  state : t.cpu.main.cpuState = state
  derived : t.cpu.decoder.derived = t.cpu.decoder.derive

/-- Another cycle of it, while nothing is fetched. -/
theorem Working.again {state : CpuState} (working : Working t s)
    (keeps : Keeps t.cpu.main (t.step x).cpu.main) (still : t.cpu.main.cpuregsWrite = false)
    (untriggered : (t.step x).cpu.main.decoderTrigger = false)
    (now : (t.step x).cpu.main.cpuState = state) (waiting : t.memDone = false)
    (kept : bytesOf (t.step x).soc.ram = bytesOf t.soc.ram) : Carrying (t.step x) s state := by
  have decoder := decoder_still (x := x) working.untriggered (by rw [waiting, Bool.and_false])
  refine ⟨⟨working.toSteady.step keeps still, untriggered, ?_, kept.trans working.ram,
    working.here⟩, now, ?_⟩
  · rw [decoder]
    exact ⟨working.fits.first, working.fits.second⟩
  · rw [decoder]
    rfl

/-- What the second cycle leaves. -/
theorem Decoded.carrying (decoded : Decoded t s) {a b : Word} {sh : BitVec 5} {rinst : Bool}
    {state : CpuState}
    (reads : t.cpu.main.ldRs1Case t.cpu.decoder x (t.cpu.main.defaults t.cpu.decoder true false x) =
      (t.cpu.main.defaults t.cpu.decoder true false x).reads a b sh rinst state) :
    Carrying (t.step x) s state ∧ (t.step x).cpu.main.regOp1 = a ∧ (t.step x).cpu.main.regOp2 = b ∧
      (t.step x).cpu.main.regSh = sh ∧
      (t.step x).cpu.main.req = ⟨!t.cpu.decoder.first.instrJalr, rinst, false, false⟩ ∧
      (t.step x).cpu.main.latched.store = false ∧
      (t.step x).cpu.decoder.first = t.cpu.decoder.first := by
  have waiting : t.memDone = false := decoded.calm.memDone (i := t.input true)
  have aligned : t.cpu.main.misaligned = false := by
    rw [Main.misaligned, decoded.req]
    rfl
  have main : (t.step x).cpu.main =
      (t.cpu.main.defaults t.cpu.decoder true false x).reads a b sh rinst state := by
    rw [step_main, edge_eq aligned, finalRequests_plain _ (Or.inr (Or.inl decoded.state)),
      Main.stateCase, decoded.state, waiting]
    dsimp only
    rw [reads]
    rfl
  have keeps : Keeps t.cpu.main (t.step x).cpu.main := by
    rw [main]
    exact ⟨rfl, rfl, rfl, rfl, rfl, rfl, rfl⟩
  refine ⟨decoded.toWorking.again keeps ?_ ?_ ?_ waiting (calm_ram decoded.calm),
    ?_, ?_, ?_, ?_, ?_, ?_⟩
  · rw [Main.cpuregsWrite, decoded.state]
    rfl
  · rw [main]
    exact Bool.and_false _
  · rw [main]
    rfl
  · rw [main]
    rfl
  · rw [main]
    rfl
  · rw [main]
    rfl
  · rw [main]
    change Requests.mk t.cpu.main.req.memDoPrefetch rinst t.cpu.main.req.memDoRdata
      t.cpu.main.req.memDoWdata = _
    rw [decoded.req]
  · rw [main]
    exact decoded.fresh
  · rw [decoder_still decoded.untriggered (by rw [waiting, Bool.and_false])]

/-- Meanwhile the fetch ahead begins. -/
theorem Decoded.asking (decoded : Decoded t s) (ahead : t.cpu.decoder.first.instrJalr = false) :
    Asking (t.step x).mem 1 (readOf (s.pc + 4) t.cpu.mem.memWdata) := by
  have req : t.cpu.main.req = ⟨true, false, false, false⟩ := by
    rw [decoded.req, ahead]
    rfl
  have target : t.cpu.main.nextPc = s.pc + 4 := by
    rw [Main.nextPc, decoded.straight, Bool.and_false]
    exact decoded.next
  have addr : t.cpu.main.wires.memLaAddr = wordAddr (s.pc + 4) := by
    rw [Core.memLaAddr]
    change (if t.cpu.main.req.memDoPrefetch || t.cpu.main.req.memDoRinst then
      wordAddr t.cpu.main.nextPc else _) = _
    rw [req, target]
    rfl
  have reads : t.cpu.main.wires.reads = true := by
    change (t.cpu.main.req.memDoPrefetch || _ || _) = true
    rw [req]
    rfl
  have alone : t.cpu.main.req.memDoWdata = false := by rw [req]
  rw [readOf, ← addr]
  exact decoded.calm.read (i := t.input true) rfl decoded.running reads alone

end BlindSig.Picorv32

import BlindSig.Picorv32Memory

set_option autoImplicit false

/- The decoder and the main state machine of picorv32.v at the parameters of
soc_top.v: no counters, no interrupts, no coprocessor, no compressed
instructions, illegal and misaligned accesses caught. -/
namespace BlindSig.Picorv32

/-- What is assigned `'bx` in a cycle. -/
structure Unknown where
  regOp1 : Word
  regOp2 : Word
  regOut : Word
  regSh : BitVec 5
  aluOut : Word
  aluOut0 : Bool
  decodedImm : Word

/-- The registers that the decoder sets when an instruction word arrives. -/
structure First where
  instrLui : Bool
  instrAuipc : Bool
  instrJal : Bool
  instrJalr : Bool
  isBeqBneBltBgeBltuBgeu : Bool
  isLbLhLwLbuLhu : Bool
  isSbShSw : Bool
  isAluRegImm : Bool
  isAluRegReg : Bool
  decodedImmJ : Word
  decodedRd : BitVec 5
  decodedRs1 : BitVec 5
  decodedRs2 : BitVec 5

/-- `mem_rdata_latched` in `w`. -/
def First.ofWord (w : Word) : First where
  instrLui := w.extractLsb' 0 7 == 0b0110111
  instrAuipc := w.extractLsb' 0 7 == 0b0010111
  instrJal := w.extractLsb' 0 7 == 0b1101111
  instrJalr := w.extractLsb' 0 7 == 0b1100111 && w.extractLsb' 12 3 == 0b000
  isBeqBneBltBgeBltuBgeu := w.extractLsb' 0 7 == 0b1100011
  isLbLhLwLbuLhu := w.extractLsb' 0 7 == 0b0000011
  isSbShSw := w.extractLsb' 0 7 == 0b0100011
  isAluRegImm := w.extractLsb' 0 7 == 0b0010011
  isAluRegReg := w.extractLsb' 0 7 == 0b0110011
  decodedImmJ :=
    (w.extractLsb' 31 1 ++ w.extractLsb' 12 8 ++ w.extractLsb' 20 1 ++ w.extractLsb' 21 10 ++
      0#1).signExtend 32
  decodedRd := w.extractLsb' 7 5
  decodedRs1 := w.extractLsb' 15 5
  decodedRs2 := w.extractLsb' 20 5

/-- The registers that the decoder sets one cycle later. -/
structure Second where
  instrBeq : Bool
  instrBne : Bool
  instrBlt : Bool
  instrBge : Bool
  instrBltu : Bool
  instrBgeu : Bool
  instrLb : Bool
  instrLh : Bool
  instrLw : Bool
  instrLbu : Bool
  instrLhu : Bool
  instrSb : Bool
  instrSh : Bool
  instrSw : Bool
  instrAddi : Bool
  instrSlti : Bool
  instrSltiu : Bool
  instrXori : Bool
  instrOri : Bool
  instrAndi : Bool
  instrSlli : Bool
  instrSrli : Bool
  instrSrai : Bool
  instrAdd : Bool
  instrSub : Bool
  instrSll : Bool
  instrSlt : Bool
  instrSltu : Bool
  instrXor : Bool
  instrSrl : Bool
  instrSra : Bool
  instrOr : Bool
  instrAnd : Bool
  instrFence : Bool
  isSlliSrliSrai : Bool
  isJalrAddiSltiSltiuXoriOriAndi : Bool
  isSllSrlSra : Bool
  decodedImm : Word

/-- The first registers in `f`, `mem_rdata_q` in `q`. -/
def Second.ofWord (f : First) (q : Word) (x : Unknown) : Second :=
  let f3 := q.extractLsb' 12 3
  let f7 := q.extractLsb' 25 7
  { instrBeq := f.isBeqBneBltBgeBltuBgeu && f3 == 0b000
    instrBne := f.isBeqBneBltBgeBltuBgeu && f3 == 0b001
    instrBlt := f.isBeqBneBltBgeBltuBgeu && f3 == 0b100
    instrBge := f.isBeqBneBltBgeBltuBgeu && f3 == 0b101
    instrBltu := f.isBeqBneBltBgeBltuBgeu && f3 == 0b110
    instrBgeu := f.isBeqBneBltBgeBltuBgeu && f3 == 0b111
    instrLb := f.isLbLhLwLbuLhu && f3 == 0b000
    instrLh := f.isLbLhLwLbuLhu && f3 == 0b001
    instrLw := f.isLbLhLwLbuLhu && f3 == 0b010
    instrLbu := f.isLbLhLwLbuLhu && f3 == 0b100
    instrLhu := f.isLbLhLwLbuLhu && f3 == 0b101
    instrSb := f.isSbShSw && f3 == 0b000
    instrSh := f.isSbShSw && f3 == 0b001
    instrSw := f.isSbShSw && f3 == 0b010
    instrAddi := f.isAluRegImm && f3 == 0b000
    instrSlti := f.isAluRegImm && f3 == 0b010
    instrSltiu := f.isAluRegImm && f3 == 0b011
    instrXori := f.isAluRegImm && f3 == 0b100
    instrOri := f.isAluRegImm && f3 == 0b110
    instrAndi := f.isAluRegImm && f3 == 0b111
    instrSlli := f.isAluRegImm && f3 == 0b001 && f7 == 0b0000000
    instrSrli := f.isAluRegImm && f3 == 0b101 && f7 == 0b0000000
    instrSrai := f.isAluRegImm && f3 == 0b101 && f7 == 0b0100000
    instrAdd := f.isAluRegReg && f3 == 0b000 && f7 == 0b0000000
    instrSub := f.isAluRegReg && f3 == 0b000 && f7 == 0b0100000
    instrSll := f.isAluRegReg && f3 == 0b001 && f7 == 0b0000000
    instrSlt := f.isAluRegReg && f3 == 0b010 && f7 == 0b0000000
    instrSltu := f.isAluRegReg && f3 == 0b011 && f7 == 0b0000000
    instrXor := f.isAluRegReg && f3 == 0b100 && f7 == 0b0000000
    instrSrl := f.isAluRegReg && f3 == 0b101 && f7 == 0b0000000
    instrSra := f.isAluRegReg && f3 == 0b101 && f7 == 0b0100000
    instrOr := f.isAluRegReg && f3 == 0b110 && f7 == 0b0000000
    instrAnd := f.isAluRegReg && f3 == 0b111 && f7 == 0b0000000
    instrFence := q.extractLsb' 0 7 == 0b0001111 && f3 == 0
    isSlliSrliSrai := f.isAluRegImm &&
      (f3 == 0b001 && f7 == 0b0000000 || f3 == 0b101 && f7 == 0b0000000 ||
        f3 == 0b101 && f7 == 0b0100000)
    isJalrAddiSltiSltiuXoriOriAndi := f.instrJalr || f.isAluRegImm &&
      (f3 == 0b000 || f3 == 0b010 || f3 == 0b011 || f3 == 0b100 || f3 == 0b110 || f3 == 0b111)
    isSllSrlSra := f.isAluRegReg &&
      (f3 == 0b001 && f7 == 0b0000000 || f3 == 0b101 && f7 == 0b0000000 ||
        f3 == 0b101 && f7 == 0b0100000)
    decodedImm :=
      if f.instrJal then f.decodedImmJ
      else if f.instrLui || f.instrAuipc then q.extractLsb' 12 20 ++ 0#12
      else if f.instrJalr || f.isLbLhLwLbuLhu || f.isAluRegImm then
        (q.extractLsb' 20 12).signExtend 32
      else if f.isBeqBneBltBgeBltuBgeu then
        (q.extractLsb' 31 1 ++ q.extractLsb' 7 1 ++ q.extractLsb' 25 6 ++ q.extractLsb' 8 4 ++
          0#1).signExtend 32
      else if f.isSbShSw then (q.extractLsb' 25 7 ++ q.extractLsb' 7 5).signExtend 32
      else x.decodedImm }

/-- The registers that the decoder sets in every cycle. -/
structure Derived where
  isLuiAuipcJal : Bool
  isLuiAuipcJalJalrAddiAddSub : Bool
  isSltiBltSlt : Bool
  isSltiuBltuSltu : Bool
  isLbuLhuLw : Bool
  isCompare : Bool

structure Decoder where
  first : First
  second : Second
  derived : Derived

namespace Decoder

variable (d : Decoder)

/-- `instr_trap`: none of the instructions. -/
def instrTrap : Bool :=
  let f := d.first
  let s := d.second
  !(f.instrLui || f.instrAuipc || f.instrJal || f.instrJalr ||
    s.instrBeq || s.instrBne || s.instrBlt || s.instrBge || s.instrBltu || s.instrBgeu ||
    s.instrLb || s.instrLh || s.instrLw || s.instrLbu || s.instrLhu ||
    s.instrSb || s.instrSh || s.instrSw ||
    s.instrAddi || s.instrSlti || s.instrSltiu || s.instrXori || s.instrOri || s.instrAndi ||
    s.instrSlli || s.instrSrli || s.instrSrai ||
    s.instrAdd || s.instrSub || s.instrSll || s.instrSlt || s.instrSltu || s.instrXor ||
    s.instrSrl || s.instrSra || s.instrOr || s.instrAnd || s.instrFence)

/-- The registers of every cycle, from those of the two stages. -/
def derive : Derived :=
  let f := d.first
  let s := d.second
  { isLuiAuipcJal := f.instrLui || f.instrAuipc || f.instrJal
    isLuiAuipcJalJalrAddiAddSub := f.instrLui || f.instrAuipc || f.instrJal || f.instrJalr ||
      s.instrAddi || s.instrAdd || s.instrSub
    isSltiBltSlt := s.instrSlti || s.instrBlt || s.instrSlt
    isSltiuBltuSltu := s.instrSltiu || s.instrBltu || s.instrSltu
    isLbuLhuLw := s.instrLbu || s.instrLhu || s.instrLw
    isCompare := f.isBeqBneBltBgeBltuBgeu || s.instrSlti || s.instrSlt || s.instrSltiu ||
      s.instrSltu }

/-- The assignments under `!resetn`. -/
def cleared : Decoder where
  first := { d.first with isBeqBneBltBgeBltuBgeu := false }
  second := { d.second with
    instrBeq := false, instrBne := false, instrBlt := false
    instrBge := false, instrBltu := false, instrBgeu := false
    instrAddi := false, instrSlti := false, instrSltiu := false
    instrXori := false, instrOri := false, instrAndi := false
    instrAdd := false, instrSub := false, instrSll := false, instrSlt := false, instrSltu := false
    instrXor := false, instrSrl := false, instrSra := false, instrOr := false, instrAnd := false
    instrFence := false }
  derived := { d.derived with isCompare := false }

/-- One clock edge. `arrives` is `mem_do_rinst && mem_done`, `trigger` is
`decoder_trigger && !decoder_pseudo_trigger`. -/
def edge (resetn arrives trigger : Bool) (latched q : Word) (x : Unknown) : Decoder :=
  let n : Decoder :=
    { first := if arrives then First.ofWord latched else d.first
      second := if trigger then Second.ofWord d.first q x else d.second
      derived :=
        if trigger then { d.derive with isLuiAuipcJalJalrAddiAddSub := false, isCompare := false }
        else d.derive }
  if resetn then n else n.cleared

end Decoder

inductive CpuState where
  | trap | fetch | ldRs1 | exec | shift | stmem | ldmem
deriving DecidableEq

/-- The requests to the memory interface. -/
structure Requests where
  memDoPrefetch : Bool
  memDoRinst : Bool
  memDoRdata : Bool
  memDoWdata : Bool
deriving DecidableEq

structure Latched where
  store : Bool
  stalu : Bool
  branch : Bool
  isLu : Bool
  isLh : Bool
  isLb : Bool
  rd : BitVec 5

structure Main where
  cpuState : CpuState
  trap : Bool
  regPc : Word
  regNextPc : Word
  regOp1 : Word
  regOp2 : Word
  regOut : Word
  regSh : BitVec 5
  decoderTrigger : Bool
  decoderPseudoTrigger : Bool
  aluOutQ : Word
  memWordsize : Wordsize
  latched : Latched
  req : Requests
  cpuregs : BitVec 5 → Word

def stackAddr : Word := 0x4000

def progAddrReset : Word := 0

namespace Main

variable (m : Main) (d : Decoder)

/-- `next_pc`. -/
def nextPc : Word :=
  if m.latched.store && m.latched.branch then m.regOut &&& ~~~1 else m.regNextPc

/-- `alu_add_sub`. -/
def aluAddSub : Word :=
  if d.second.instrSub then m.regOp1 - m.regOp2 else m.regOp1 + m.regOp2

/-- `alu_out_0`. -/
def aluOut0 (x : Unknown) : Bool :=
  if d.second.instrBeq then m.regOp1 == m.regOp2
  else if d.second.instrBne then !(m.regOp1 == m.regOp2)
  else if d.second.instrBge then !m.regOp1.slt m.regOp2
  else if d.second.instrBgeu then !(m.regOp1 < m.regOp2)
  else if d.derived.isSltiBltSlt then m.regOp1.slt m.regOp2
  else if d.derived.isSltiuBltuSltu then m.regOp1 < m.regOp2
  else x.aluOut0

/-- `alu_out`. -/
def aluOut (x : Unknown) : Word :=
  if d.derived.isLuiAuipcJalJalrAddiAddSub then m.aluAddSub d
  else if d.derived.isCompare then (BitVec.ofBool (m.aluOut0 d x)).setWidth 32
  else if d.second.instrXori || d.second.instrXor then m.regOp1 ^^^ m.regOp2
  else if d.second.instrOri || d.second.instrOr then m.regOp1 ||| m.regOp2
  else if d.second.instrAndi || d.second.instrAnd then m.regOp1 &&& m.regOp2
  else x.aluOut

def cpuregsRs1 : Word := if d.first.decodedRs1 = 0 then 0 else m.cpuregs d.first.decodedRs1

def cpuregsRs2 : Word := if d.first.decodedRs2 = 0 then 0 else m.cpuregs d.first.decodedRs2

/-- `cpuregs_write`. -/
def cpuregsWrite : Bool := m.cpuState == .fetch && (m.latched.branch || m.latched.store)

/-- `cpuregs_wrdata`, where it is written. -/
def cpuregsWrdata : Word :=
  if m.latched.branch then m.regPc + 4
  else if m.latched.stalu then m.aluOutQ
  else m.regOut

/-- The register file after the edge. -/
def cpuregsNext (resetn : Bool) : BitVec 5 → Word :=
  if resetn && m.cpuregsWrite && m.latched.rd != 0 then
    fun k => if k = m.latched.rd then m.cpuregsWrdata else m.cpuregs k
  else m.cpuregs

/-- `current_pc` in the state `fetch`. -/
def currentPc : Word :=
  if m.latched.branch then
    if m.latched.store then (if m.latched.stalu then m.aluOutQ else m.regOut) &&& ~~~1
    else m.regNextPc
  else m.regNextPc

/-- The assignments before the `case`: the defaults of the cycle. -/
def defaults (resetn memDone : Bool) (x : Unknown) : Main :=
  { m with
    trap := false
    regSh := x.regSh
    regOut := x.regOut
    aluOutQ := m.aluOut d x
    decoderTrigger := m.req.memDoRinst && memDone
    decoderPseudoTrigger := false
    cpuregs := m.cpuregsNext resetn }

/-- The assignments under `!resetn`. -/
def resetCase (n : Main) : Main :=
  { n with
    regPc := progAddrReset
    regNextPc := progAddrReset
    regOut := stackAddr
    latched := ⟨true, false, false, false, false, false, 2⟩
    cpuState := .fetch }

/-- `cpu_state_fetch`. Reads the registers in `m`, assigns into `n`, as the
other cases do. -/
def fetchCase (n : Main) : Main :=
  let n := { n with
    memWordsize := .word
    regPc := m.currentPc
    regNextPc := m.currentPc
    latched := ⟨false, false, false, false, false, false, d.first.decodedRd⟩
    req := { n.req with memDoRinst := !m.decoderTrigger } }
  if m.decoderTrigger then
    if d.first.instrJal then
      { n with
        regNextPc := m.currentPc + d.first.decodedImmJ
        latched := { n.latched with branch := true }
        req := { n.req with memDoRinst := true } }
    else
      { n with
        regNextPc := m.currentPc + 4
        req := { n.req with memDoRinst := false, memDoPrefetch := !d.first.instrJalr }
        cpuState := .ldRs1 }
  else n

/-- `cpu_state_ld_rs1`. -/
def ldRs1Case (x : Unknown) (n : Main) : Main :=
  let n := { n with regOp1 := x.regOp1, regOp2 := x.regOp2 }
  if d.instrTrap then { n with cpuState := .trap }
  else if d.derived.isLuiAuipcJal then
    { n with
      regOp1 := if d.first.instrLui then 0 else m.regPc
      regOp2 := d.second.decodedImm
      req := { n.req with memDoRinst := m.req.memDoPrefetch }
      cpuState := .exec }
  else if d.first.isLbLhLwLbuLhu && !d.instrTrap then
    { n with
      regOp1 := m.cpuregsRs1 d
      req := { n.req with memDoRinst := true }
      cpuState := .ldmem }
  else if d.second.isSlliSrliSrai then
    { n with
      regOp1 := m.cpuregsRs1 d
      regSh := d.first.decodedRs2
      cpuState := .shift }
  else if d.second.isJalrAddiSltiSltiuXoriOriAndi then
    { n with
      regOp1 := m.cpuregsRs1 d
      regOp2 := d.second.decodedImm
      req := { n.req with memDoRinst := m.req.memDoPrefetch }
      cpuState := .exec }
  else
    let n := { n with
      regOp1 := m.cpuregsRs1 d
      regSh := (m.cpuregsRs2 d).setWidth 5
      regOp2 := m.cpuregsRs2 d }
    if d.first.isSbShSw then
      { n with req := { n.req with memDoRinst := true }, cpuState := .stmem }
    else if d.second.isSllSrlSra then { n with cpuState := .shift }
    else { n with req := { n.req with memDoRinst := m.req.memDoPrefetch }, cpuState := .exec }

/-- `cpu_state_exec`. -/
def execCase (memDone : Bool) (x : Unknown) (n : Main) : Main :=
  let n := { n with regOut := m.regPc + d.second.decodedImm }
  if d.first.isBeqBneBltBgeBltuBgeu then
    { n with
      latched := { n.latched with rd := 0, store := m.aluOut0 d x, branch := m.aluOut0 d x }
      cpuState := if memDone then .fetch else n.cpuState
      decoderTrigger := if m.aluOut0 d x then false else n.decoderTrigger }
  else
    { n with
      latched := { n.latched with branch := d.first.instrJalr, store := true, stalu := true }
      cpuState := .fetch }

/-- One turn of the shifter, by `k` bits. -/
def shifted (n : Main) (k : ℕ) : Main :=
  { n with
    regOp1 :=
      if d.second.instrSlli || d.second.instrSll then m.regOp1 <<< k
      else if d.second.instrSrli || d.second.instrSrl then m.regOp1 >>> k
      else if d.second.instrSrai || d.second.instrSra then m.regOp1.sshiftRight k
      else n.regOp1
    regSh := m.regSh - BitVec.ofNat 5 k }

/-- `cpu_state_shift`. -/
def shiftCase (n : Main) : Main :=
  let n := { n with latched := { n.latched with store := true } }
  if m.regSh = 0 then
    { n with
      regOut := m.regOp1
      req := { n.req with memDoRinst := m.req.memDoPrefetch }
      cpuState := .fetch }
  else if 4 ≤ m.regSh then m.shifted d n 4
  else m.shifted d n 1

/-- `cpu_state_stmem`. -/
def stmemCase (memDone : Bool) (n : Main) : Main :=
  if !m.req.memDoPrefetch || memDone then
    let n :=
      if !m.req.memDoWdata then
        { n with
          memWordsize :=
            if d.second.instrSb then .byte
            else if d.second.instrSh then .half
            else if d.second.instrSw then .word
            else n.memWordsize
          regOp1 := m.regOp1 + d.second.decodedImm }
      else n
    if !m.req.memDoPrefetch && memDone then
      { n with cpuState := .fetch, decoderTrigger := true, decoderPseudoTrigger := true }
    else n
  else n

/-- `cpu_state_ldmem`. -/
def ldmemCase (memDone : Bool) (memRdataWord : Word) (n : Main) : Main :=
  let n := { n with latched := { n.latched with store := true } }
  if !m.req.memDoPrefetch || memDone then
    let n :=
      if !m.req.memDoRdata then
        { n with
          memWordsize :=
            if d.second.instrLb || d.second.instrLbu then .byte
            else if d.second.instrLh || d.second.instrLhu then .half
            else if d.second.instrLw then .word
            else n.memWordsize
          latched := { n.latched with
            isLu := d.derived.isLbuLhuLw, isLh := d.second.instrLh, isLb := d.second.instrLb }
          regOp1 := m.regOp1 + d.second.decodedImm }
      else n
    if !m.req.memDoPrefetch && memDone then
      { n with
        regOut :=
          if m.latched.isLu then memRdataWord
          else if m.latched.isLh then (memRdataWord.setWidth 16).signExtend 32
          else if m.latched.isLb then (memRdataWord.setWidth 8).signExtend 32
          else n.regOut
        decoderTrigger := true
        decoderPseudoTrigger := true
        cpuState := .fetch }
    else n
  else n

/-- The `case` over `cpu_state`. -/
def stateCase (memDone : Bool) (memRdataWord : Word) (x : Unknown) (n : Main) : Main :=
  match m.cpuState with
  | .trap => { n with trap := true }
  | .fetch => m.fetchCase d n
  | .ldRs1 => m.ldRs1Case d x n
  | .exec => m.execCase d memDone x n
  | .shift => m.shiftCase d n
  | .stmem => m.stmemCase d memDone n
  | .ldmem => m.ldmemCase d memDone memRdataWord n

/-- The conditions of `CATCH_MISALIGN`. -/
def misaligned : Bool :=
  (m.req.memDoRdata || m.req.memDoWdata) &&
      (m.memWordsize == .word && m.regOp1.extractLsb' 0 2 != 0 ||
        m.memWordsize == .half && m.regOp1.extractLsb' 0 1 != 0) ||
    m.req.memDoRinst && m.regPc.extractLsb' 0 2 != 0

/-- `set_mem_do_rinst`. -/
def setMemDoRinst (x : Unknown) : Bool :=
  m.cpuState == .exec && d.first.isBeqBneBltBgeBltuBgeu && m.aluOut0 d x

/-- `set_mem_do_rdata`. -/
def setMemDoRdata (memDone : Bool) : Bool :=
  m.cpuState == .ldmem && (!m.req.memDoPrefetch || memDone) && !m.req.memDoRdata

/-- `set_mem_do_wdata`. -/
def setMemDoWdata (memDone : Bool) : Bool :=
  m.cpuState == .stmem && (!m.req.memDoPrefetch || memDone) && !m.req.memDoWdata

/-- The requests in `n` with the last assignments of the process. -/
def finalRequests (resetn memDone : Bool) (x : Unknown) (n : Requests) : Requests :=
  let n := if !resetn || memDone then ⟨false, false, false, false⟩ else n
  { memDoPrefetch := n.memDoPrefetch
    memDoRinst := if resetn && m.setMemDoRinst d x then true else n.memDoRinst
    memDoRdata := if resetn && m.setMemDoRdata memDone then true else n.memDoRdata
    memDoWdata := if resetn && m.setMemDoWdata memDone then true else n.memDoWdata }

/-- One clock edge. -/
def edge (resetn memDone : Bool) (memRdataWord : Word) (x : Unknown) : Main :=
  let n := m.defaults d resetn memDone x
  let n := if resetn then m.stateCase d memDone memRdataWord x n else n.resetCase
  let n := if resetn && m.misaligned then { n with cpuState := .trap } else n
  { n with req := m.finalRequests d resetn memDone x n.req }

/-- What the memory interface reads. -/
def wires : Core where
  trap := m.trap
  memDoPrefetch := m.req.memDoPrefetch
  memDoRinst := m.req.memDoRinst
  memDoRdata := m.req.memDoRdata
  memDoWdata := m.req.memDoWdata
  memWordsize := m.memWordsize
  nextPc := m.nextPc
  regOp1 := m.regOp1
  regOp2 := m.regOp2

end Main

structure Cpu where
  mem : Memory
  decoder : Decoder
  main : Main

namespace Cpu

variable (c : Cpu)

/-- One clock edge, with `mem_ready` and `mem_rdata` from the outside. -/
def edge (resetn ready : Bool) (rdata : Word) (x : Unknown) : Cpu :=
  let w := c.main.wires
  let memDone := c.mem.memDone resetn w ready
  { mem := c.mem.edge resetn w ready rdata
    decoder := c.decoder.edge resetn (c.main.req.memDoRinst && memDone)
      (c.main.decoderTrigger && !c.main.decoderPseudoTrigger)
      (if c.mem.memXfer ready then rdata else c.mem.memRdataQ) c.mem.memRdataQ x
    main := c.main.edge c.decoder resetn memDone (w.memRdataWord rdata) x }

end Cpu

end BlindSig.Picorv32

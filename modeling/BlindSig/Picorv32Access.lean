import BlindSig.Picorv32Launch

set_option autoImplicit false

/- Loads and stores: the next instruction is fetched first, and launched when the
access is over. -/
namespace BlindSig.Picorv32

open Clocked ByteLanes Soc Rv32i

/-- The state of a load or of a store. -/
def accessState (load : Bool) : CpuState := if load then .ldmem else .stmem

/-- Its request to the memory interface. -/
def accessReq (load : Bool) : Requests :=
  if load then ⟨false, false, true, false⟩ else ⟨false, false, false, true⟩

variable {t : SocTop} {s : Hart.State} {x : Unknown} {load : Bool} {data : Word}

/-- Waiting for the fetch or for the access. -/
theorem access_wait (aligned : t.cpu.main.misaligned = false)
    (state : t.cpu.main.cpuState = accessState load) (waiting : t.memDone = false)
    (asked : t.cpu.main.req.memDoPrefetch = true ∨ t.cpu.main.req = accessReq load) :
    (t.step x).cpu.main =
      { t.cpu.main.defaults t.cpu.decoder true false x with
        latched := { t.cpu.main.latched with store := load || t.cpu.main.latched.store } } := by
  rw [step_main, edge_eq aligned, Main.stateCase, state, waiting]
  cases load with
  | true =>
      simp only [accessState, ↓reduceIte]
      rw [Main.finalRequests, Main.setMemDoRinst, Main.setMemDoRdata, Main.setMemDoWdata, state,
        Main.ldmemCase]
      rcases asked with ahead | req
      · rw [ahead]
        rfl
      · rw [req]
        simp only [Main.defaults, req]
        rfl
  | false =>
      simp only [accessState, Bool.false_eq_true, ↓reduceIte]
      rw [Main.finalRequests, Main.setMemDoRinst, Main.setMemDoRdata, Main.setMemDoWdata, state,
        Main.stmemCase]
      rcases asked with ahead | req
      · rw [ahead]
        rfl
      · rw [req]
        simp only [Main.defaults, req]
        rfl

section Fetch

variable (carrying : Carrying t s (accessState load))
  (req : t.cpu.main.req = ⟨true, true, false, false⟩)

include carrying req

theorem Carrying.aligned : t.cpu.main.misaligned = false :=
  aligned_of_pc (by rw [req]; exact ⟨rfl, rfl⟩) carrying.whole

/-- The fetch goes on. -/
theorem Carrying.access_again (asking : Asking t.mem 1 (readOf (s.pc + 4) data)) :
    Carrying (t.step x) s (accessState load) ∧
      (t.step x).cpu.main.req = ⟨true, true, false, false⟩ ∧
      (t.step x).cpu.main.regOp1 = t.cpu.main.regOp1 ∧
      (t.step x).cpu.main.regOp2 = t.cpu.main.regOp2 ∧
      (t.step x).cpu.main.latched.store = (load || t.cpu.main.latched.store) ∧
      Answering (t.step x).mem 1 (readOf (s.pc + 4) data) := by
  have waiting : t.memDone = false := asking.memDone (i := t.input true) (by decide)
  have main := access_wait (x := x) (carrying.aligned req) carrying.state waiting
    (Or.inl (by rw [req]))
  have keeps : Keeps t.cpu.main (t.step x).cpu.main := by
    rw [main]
    exact ⟨rfl, rfl, rfl, rfl, rfl, rfl, rfl⟩
  refine ⟨carrying.toWorking.again keeps ?_ ?_ ?_ waiting ?_, ?_, ?_, ?_, ?_,
    asking.edge (i := t.input true) rfl carrying.running (Or.inl rfl)⟩
  · rw [Main.cpuregsWrite, carrying.state]
    cases load <;> rfl
  · rw [main]
    exact Bool.and_false _
  · rw [main]
    exact carrying.state
  · rw [fetch_ram asking.valid asking.carried]
  · rw [main]
    exact req
  · rw [main]
    rfl
  · rw [main]
    rfl
  · rw [main]

end Fetch

/-- The access itself, with the next instruction `word` in the decoder. -/
structure Accessing (t : SocTop) (s : Hart.State) (load : Bool) (size : Size) (addr word : Word) :
    Prop extends Steady t.cpu.main s where
  state : t.cpu.main.cpuState = accessState load
  req : t.cpu.main.req = accessReq load
  store : t.cpu.main.latched.store = load
  operand : t.cpu.main.regOp1 = addr
  sized : t.cpu.main.memWordsize = wordsize size
  first : t.cpu.decoder.first = First.ofWord word

/-- The extension of the data that a load is set to. -/
def Extends (l : Latched) (op : Load) : Prop := ∀ raw value : Word,
  (if l.isLu then raw else if l.isLh then (raw.setWidth 16).signExtend 32
    else if l.isLb then (raw.setWidth 8).signExtend 32 else value) = op.extend raw

section Begin

variable (carrying : Carrying t s (accessState load))
  (req : t.cpu.main.req = ⟨true, true, false, false⟩)
  (answering : Answering t.mem 1 (readOf (s.pc + 4) data))

include carrying req answering

theorem Carrying.access_done : t.memDone = true ∧ Calm (t.step x).mem ∧
    (t.step x).cpu.decoder.first = First.ofWord (s.mem.word (Hart.ramAddr (s.pc + 4))) ∧
    (t.step x).cpu.mem.memRdataQ = s.mem.word (Hart.ramAddr (s.pc + 4)) := by
  have ahead : Hart.inRam (s.pc + 4) := carrying.here.2.1
  have mapped : mappedAddr (readOf (s.pc + 4) data).addr := mapped_fetch ahead
  have done : t.memDone = (t.cpu.main.req.memDoRinst || t.cpu.main.req.memDoRdata ||
      t.cpu.main.req.memDoWdata) :=
    answering.memDone (i := t.input true) rfl mapped (by decide) (by decide)
  have xfer : t.cpu.mem.memXfer (t.mem.memReady (t.input true)) = true :=
    Bool.and_eq_true_iff.mpr ⟨answering.valid, answering.answered mapped⟩
  have word := fetched_word answering ahead (aligned_next carrying.here.2.2)
  rw [carrying.ram] at word
  rw [req] at done
  refine ⟨done, ?_, ?_, ?_⟩
  · apply answering.taken (i := t.input true) rfl carrying.running mapped
    change (t.cpu.main.req.memDoRinst || _) = true
    rw [req]
    rfl
  · rw [step_decoder, req, done, xfer, word]
    rfl
  · have held := memRdataQ_edge (b := t.mem) (i := t.input true) carrying.running rfl
    exact held.trans ((if_pos xfer).trans word)

end Begin

/-- The load begins. -/
theorem Carrying.load_begins {op : Load} {r a : Reg} {imm : Word}
    (encoded : (Instr.load op r a imm).Encoded s.fetched) (carrying : Carrying t s .ldmem)
    (req : t.cpu.main.req = ⟨true, true, false, false⟩)
    (answering : Answering t.mem 1 (readOf (s.pc + 4) data)) :
    Accessing (t.step x) s true op.size (t.cpu.main.regOp1 + imm)
        (s.mem.word (Hart.ramAddr (s.pc + 4))) ∧
      Extends (t.step x).cpu.main.latched op ∧ (t.step x).cpu.main.decoderTrigger = true ∧
      (t.step x).cpu.main.decoderPseudoTrigger = false := by
  obtain ⟨done, -, first, -⟩ :=
    Carrying.access_done (x := x) (show Carrying t s (accessState true) from carrying) req answering
  have main : (t.step x).cpu.main =
      { t.cpu.main.defaults t.cpu.decoder true true x with
        memWordsize := wordsize op.size
        regOp1 := t.cpu.main.regOp1 + imm
        latched := { t.cpu.main.latched with
          store := true, isLu := t.cpu.decoder.derive.isLbuLhuLw
          isLh := t.cpu.decoder.second.instrLh, isLb := t.cpu.decoder.second.instrLb }
        req := accessReq true } := by
    have size := (load_eq carrying.fits encoded t.cpu.main.memWordsize 0 0).1
    have immediate : t.cpu.decoder.second.decodedImm = imm :=
      decodedImm_eq carrying.fits encoded _ rfl
    rw [step_main, edge_eq (Carrying.aligned (show Carrying t s (accessState true) from carrying) req), Main.stateCase,
      carrying.state, done]
    dsimp only
    rw [Main.finalRequests, Main.setMemDoRinst, Main.setMemDoRdata, Main.setMemDoWdata,
      carrying.state, Main.ldmemCase, req, immediate]
    simp only [Main.defaults, size, carrying.derived]
    rfl
  have keeps : Keeps t.cpu.main (t.step x).cpu.main := by
    rw [main]
    exact ⟨rfl, rfl, rfl, rfl, rfl, rfl, rfl⟩
  refine ⟨⟨carrying.toSteady.step keeps ?_, ?_, ?_, ?_, ?_, ?_, first⟩, ?_, ?_, ?_⟩
  · rw [Main.cpuregsWrite, carrying.state]
    rfl
  · rw [main]
    exact carrying.state
  · rw [main]
  · rw [main]
  · rw [main]
  · rw [main]
  · rw [main]
    exact fun raw value => (load_eq carrying.fits encoded .word raw value).2
  · rw [main]
    simp only [Main.defaults, req, Bool.and_self]
  · rw [main]
    rfl

/-- The store begins. -/
theorem Carrying.store_begins {size : Size} {a b : Reg} {imm : Word}
    (encoded : (Instr.store size a b imm).Encoded s.fetched) (carrying : Carrying t s .stmem)
    (req : t.cpu.main.req = ⟨true, true, false, false⟩) (fresh : t.cpu.main.latched.store = false)
    (answering : Answering t.mem 1 (readOf (s.pc + 4) data)) :
    Accessing (t.step x) s false size (t.cpu.main.regOp1 + imm)
        (s.mem.word (Hart.ramAddr (s.pc + 4))) ∧
      (t.step x).cpu.main.regOp2 = t.cpu.main.regOp2 ∧
      (t.step x).cpu.main.decoderTrigger = true ∧
      (t.step x).cpu.main.decoderPseudoTrigger = false := by
  obtain ⟨done, -, first, -⟩ :=
    Carrying.access_done (x := x) (show Carrying t s (accessState false) from carrying) req answering
  have main : (t.step x).cpu.main =
      { t.cpu.main.defaults t.cpu.decoder true true x with
        memWordsize := wordsize size
        regOp1 := t.cpu.main.regOp1 + imm
        req := accessReq false } := by
    have sized := store_eq carrying.fits encoded t.cpu.main.memWordsize
    have immediate : t.cpu.decoder.second.decodedImm = imm :=
      decodedImm_eq carrying.fits encoded _ rfl
    rw [step_main, edge_eq (Carrying.aligned (show Carrying t s (accessState false) from carrying) req), Main.stateCase,
      carrying.state, done]
    dsimp only
    rw [Main.finalRequests, Main.setMemDoRinst, Main.setMemDoRdata, Main.setMemDoWdata,
      carrying.state, Main.stmemCase, req, immediate]
    simp only [Main.defaults, sized]
    rfl
  have keeps : Keeps t.cpu.main (t.step x).cpu.main := by
    rw [main]
    exact ⟨rfl, rfl, rfl, rfl, rfl, rfl, rfl⟩
  refine ⟨⟨carrying.toSteady.step keeps ?_, ?_, ?_, ?_, ?_, ?_, first⟩, ?_, ?_, ?_⟩
  · rw [Main.cpuregsWrite, carrying.state]
    rfl
  · rw [main]
    exact carrying.state
  · rw [main]
  · rw [main]
    exact fresh
  · rw [main]
  · rw [main]
  · rw [main]
    rfl
  · rw [main]
    simp only [Main.defaults, req, Bool.and_self]
  · rw [main]
    rfl

section Access

variable {size : Size} {addr word : Word} (accessing : Accessing t s load size addr word)
  (whole : size.aligned addr)

include accessing whole

theorem Accessing.aligned : t.cpu.main.misaligned = false := by
  have rinst : t.cpu.main.req.memDoRinst = false := by
    rw [accessing.req]
    cases load <;> rfl
  rw [Main.misaligned, accessing.sized, accessing.operand, rinst]
  have low : addr.toNat % size.bytes = 0 := whole
  cases size with
  | byte => simp [wordsize]
  | half =>
      have zero : addr.extractLsb' 0 1 = 0 := by
        apply BitVec.eq_of_toNat_eq
        rw [BitVec.extractLsb'_toNat]
        exact low
      simp [wordsize, zero]
  | word =>
      have zero : addr.extractLsb' 0 2 = 0 := low_of_aligned whole
      simp [wordsize, zero]

/-- The next instruction is decoded while the access is on its way. -/
theorem Accessing.again (waiting : t.memDone = false) :
    Accessing (t.step x) s load size addr word ∧
      (∀ op, Extends t.cpu.main.latched op → Extends (t.step x).cpu.main.latched op) ∧
      (t.step x).cpu.main.regOp2 = t.cpu.main.regOp2 ∧
      (t.step x).cpu.main.decoderTrigger = false ∧
      (t.step x).cpu.decoder.second =
        if t.cpu.main.decoderTrigger && !t.cpu.main.decoderPseudoTrigger then
          Second.ofWord t.cpu.decoder.first t.cpu.mem.memRdataQ x
        else t.cpu.decoder.second := by
  have rinst : t.cpu.main.req.memDoRinst = false := by
    rw [accessing.req]
    cases load <;> rfl
  have main := access_wait (x := x) (accessing.aligned whole) accessing.state waiting
    (Or.inr accessing.req)
  have keeps : Keeps t.cpu.main (t.step x).cpu.main := by
    rw [main]
    exact ⟨rfl, rfl, rfl, rfl, rfl, rfl, rfl⟩
  refine ⟨⟨accessing.toSteady.step keeps ?_, ?_, ?_, ?_, ?_, ?_, ?_⟩, ?_, ?_, ?_, ?_⟩
  · rw [Main.cpuregsWrite, accessing.state]
    cases load <;> rfl
  · rw [main]
    exact accessing.state
  · rw [main]
    exact accessing.req
  · rw [main]
    dsimp only
    rw [accessing.store, Bool.or_self]
  · rw [main]
    exact accessing.operand
  · rw [main]
    exact accessing.sized
  · rw [step_decoder, rinst]
    exact accessing.first
  · intro op set
    rw [main]
    exact set
  · rw [main]
    rfl
  · rw [main]
    exact Bool.and_false _
  · rw [step_decoder]
    rfl

end Access

/-- What the decoder and the memory interface have of the next instruction. -/
structure Prepared (t : SocTop) (word : Word) : Prop where
  untriggered : t.cpu.main.decoderTrigger = false
  second : ∃ x, t.cpu.decoder.second = Second.ofWord (First.ofWord word) word x

section Ends

variable {size : Size} {addr word : Word}

/-- The data is there, and the next instruction is launched. -/
theorem Accessing.load_ends {op : Load} (accessing : Accessing t s true size addr word)
    (whole : size.aligned addr) (set : Extends t.cpu.main.latched op) (prepared : Prepared t word)
    (answering : Answering t.mem 1 (readOf addr data))
    (mapped : mappedAddr (readOf addr data).addr) (here : Hart.Fetchable (s.pc + 4))
    (ram : bytesOf t.soc.ram = s.mem) :
    Launch (t.step x) ⟨s.pc + 4, s.regs.write (rd s.fetched)
      (op.extend (t.cpu.main.wires.memRdataWord t.memRdata)), s.mem, word⟩ := by
  have done : t.memDone = true := by
    have done := answering.memDone (i := t.input true) rfl mapped (by decide) (by decide)
    rw [SocTop.memDone, done]
    change (t.cpu.main.req.memDoRinst || t.cpu.main.req.memDoRdata || _) = true
    rw [accessing.req]
    rfl
  have calm : Calm (t.step x).mem := by
    apply answering.taken (i := t.input true) rfl accessing.running mapped
    change (t.cpu.main.req.memDoRinst || t.cpu.main.req.memDoRdata) = true
    rw [accessing.req]
    rfl
  have main : (t.step x).cpu.main =
      { t.cpu.main.defaults t.cpu.decoder true true x with
        latched := { t.cpu.main.latched with store := true }
        regOut := op.extend (t.cpu.main.wires.memRdataWord t.memRdata)
        decoderTrigger := true
        decoderPseudoTrigger := true
        cpuState := .fetch
        req := noRequests } := by
    rw [step_main, edge_eq (accessing.aligned whole), Main.stateCase, accessing.state, done]
    simp only [accessState, ↓reduceIte]
    rw [Main.finalRequests, Main.setMemDoRinst, Main.setMemDoRdata, Main.setMemDoWdata,
      accessing.state, Main.ldmemCase, accessing.req]
    simp only [accessReq, accessState, ↓reduceIte, Bool.not_true, Bool.not_false, Bool.true_or,
      Bool.true_and, Bool.false_eq_true, Main.defaults]
    rw [set]
    rfl
  have keeps : t.cpu.main.cpuregsNext true = s.regs := by
    rw [cpuregsNext_keep (by rw [Main.cpuregsWrite, accessing.state]; rfl)]
    exact accessing.regs
  have decoder : (t.step x).cpu.decoder = { t.cpu.decoder with derived := t.cpu.decoder.derive } := by
    apply decoder_still prepared.untriggered
    rw [accessing.req]
    rfl
  refine ⟨?_, ?_, ?_, calm, ?_, ?_, ?_, ?_, ?_, ?_, here⟩
  · rw [main]
  · rw [main]
    rfl
  · rw [main]
  · rw [main]
  · rw [main]
    simp only [Main.currentPc, Main.defaults, accessing.straight, Bool.false_eq_true, ↓reduceIte]
    exact accessing.next
  · rw [cpuregsNext_write]
    · rw [main]
      simp only [Main.cpuregsWrdata, Main.defaults, accessing.straight, accessing.direct,
        Bool.false_eq_true, ↓reduceIte]
      rw [keeps, accessing.rd]
    · rw [main]
      exact Bool.or_true _
  · rw [decoder]
    exact accessing.first
  · rw [main, decoder]
    exact prepared.second
  · have kept := ram_valid (b := t.mem) (i := t.input true) answering.valid
    rw [answering.carried, stored_read rfl] at kept
    rw [← ram]
    exact congrArg bytesOf kept

/-- The store is over, and the next instruction is launched. -/
theorem Accessing.store_ends (accessing : Accessing t s false size addr word)
    (whole : size.aligned addr) (prepared : Prepared t word) {request : Transaction}
    (answering : Answering t.mem 2 request) (mapped : mappedAddr request.addr)
    (here : Hart.Fetchable (s.pc + 4)) :
    Launch (t.step x) ⟨s.pc + 4, s.regs, bytesOf t.soc.ram, word⟩ := by
  have done : t.memDone = true := by
    have done := answering.memDone (i := t.input true) rfl mapped (by decide) (by decide)
    rw [SocTop.memDone, done]
    change (_ || t.cpu.main.req.memDoWdata) = true
    rw [accessing.req]
    exact Bool.or_true _
  have calm : Calm (t.step x).mem :=
    answering.stored (i := t.input true) rfl accessing.running mapped
  have main : (t.step x).cpu.main =
      { t.cpu.main.defaults t.cpu.decoder true true x with
        decoderTrigger := true
        decoderPseudoTrigger := true
        cpuState := .fetch
        req := noRequests } := by
    rw [step_main, edge_eq (accessing.aligned whole), Main.stateCase, accessing.state, done]
    simp only [accessState, Bool.false_eq_true, ↓reduceIte]
    rw [Main.finalRequests, Main.setMemDoRinst, Main.setMemDoRdata, Main.setMemDoWdata,
      accessing.state, Main.stmemCase, accessing.req]
    simp only [accessReq, accessState, ↓reduceIte, Bool.not_true, Bool.not_false, Bool.true_or,
      Bool.true_and, Bool.false_eq_true, Main.defaults]
    rfl
  have keeps : t.cpu.main.cpuregsNext true = s.regs := by
    rw [cpuregsNext_keep (by rw [Main.cpuregsWrite, accessing.state]; rfl)]
    exact accessing.regs
  have decoder : (t.step x).cpu.decoder = { t.cpu.decoder with derived := t.cpu.decoder.derive } := by
    apply decoder_still prepared.untriggered
    rw [accessing.req]
    rfl
  refine ⟨?_, ?_, ?_, calm, ?_, ?_, ?_, ?_, ?_, ?_, here⟩
  · rw [main]
  · rw [main]
    rfl
  · rw [main]
  · rw [main]
  · rw [main]
    simp only [Main.currentPc, Main.defaults, accessing.straight, Bool.false_eq_true, ↓reduceIte]
    exact accessing.next
  · rw [cpuregsNext_keep]
    · rw [main]
      exact keeps
    · rw [main]
      simp only [Main.cpuregsWrite, Main.defaults, accessing.straight, accessing.store, Bool.or_self,
        Bool.and_false]
  · rw [decoder]
    exact accessing.first
  · rw [main, decoder]
    exact prepared.second
  · have kept := ram_valid (b := t.mem) (i := t.input true) answering.valid
    rw [answering.carried, answering.ready.written] at kept
    exact congrArg bytesOf kept

end Ends

theorem mapped_access {addr : Word} (region : Hart.inRam addr ∨ Hart.inDevices addr) :
    mappedAddr (wordAddr addr) := by
  rw [mappedAddr, (wordAddr_fields addr).1]
  exact region

theorem device_access {addr : Word} (device : Hart.inDevices addr) (wdata : Word) (wstrb : BitVec 4) :
    ((⟨wordAddr addr, wdata, wstrb⟩ : Transaction).selSimio ||
      (⟨wordAddr addr, wdata, wstrb⟩ : Transaction).selAccel) = true := by
  have region := (wordAddr_fields addr).1
  rw [Bool.or_eq_true]
  exact device.imp (fun here => beq_iff_eq.mpr (region.trans here))
    fun here => beq_iff_eq.mpr (region.trans here)

theorem ram_access {addr : Word} (inRam : Hart.inRam addr) (wdata : Word) (wstrb : BitVec 4) :
    (⟨wordAddr addr, wdata, wstrb⟩ : Transaction).selRam = true :=
  beq_iff_eq.mpr ((wordAddr_fields addr).1.trans inRam)

/-- In the first cycle of the access the next instruction is decoded. -/
theorem Accessing.prepares {size : Size} {addr word : Word}
    (accessing : Accessing t s load size addr word) (whole : size.aligned addr)
    (triggered : t.cpu.main.decoderTrigger = true)
    (fresh : t.cpu.main.decoderPseudoTrigger = false) (held : t.cpu.mem.memRdataQ = word)
    (waiting : t.memDone = false) : Prepared (t.step x) word := by
  obtain ⟨-, -, -, untriggered, second⟩ := accessing.again (x := x) whole waiting
  rw [triggered, fresh, accessing.first, held] at second
  exact ⟨untriggered, x, second⟩

theorem Prepared.again {size : Size} {addr word : Word} (prepared : Prepared t word)
    (accessing : Accessing t s load size addr word) (whole : size.aligned addr)
    (waiting : t.memDone = false) : Prepared (t.step x) word := by
  obtain ⟨-, -, -, untriggered, second⟩ := accessing.again (x := x) whole waiting
  rw [prepared.untriggered, Bool.false_and, if_neg Bool.false_ne_true] at second
  exact ⟨untriggered, second ▸ prepared.second⟩

/-- The request of an access. -/
theorem Accessing.memLaAddr {size : Size} {addr word : Word}
    (accessing : Accessing t s load size addr word) :
    t.cpu.main.wires.memLaAddr = wordAddr addr := by
  have none : (t.cpu.main.req.memDoPrefetch || t.cpu.main.req.memDoRinst) = false := by
    rw [accessing.req]
    cases load <;> rfl
  rw [Core.memLaAddr]
  change (if t.cpu.main.req.memDoPrefetch || t.cpu.main.req.memDoRinst then _ else
    wordAddr t.cpu.main.regOp1) = _
  rw [none, accessing.operand]
  rfl

/-- What the interface reads of a store. -/
def writer (size : Size) (addr value : Word) : Core :=
  ⟨false, false, false, false, true, wordsize size, 0, addr, value⟩

/-- The write of the word of an address. -/
def writeOf (size : Size) (addr value : Word) : Transaction :=
  ⟨wordAddr addr, (writer size addr value).memLaWdata, (writer size addr value).memLaWstrb⟩

theorem writeOf_isWrite (size : Size) (addr value : Word) :
    (writeOf size addr value).isWrite = true :=
  bne_iff_ne.mpr (memLaWstrb_write (c := writer size addr value) rfl)

/-- What it leaves in the memory. -/
theorem stored_writeOf {size : Size} {addr value : Word} {ram : BitVec 12 → Word}
    (whole : size.aligned addr) :
    bytesOf (stored ram (writeOf size addr value)) =
      if Hart.inRam addr then (bytesOf ram).store size (Hart.ramAddr addr) value
      else bytesOf ram := by
  by_cases inRam : Hart.inRam addr
  · rw [if_pos inRam]
    exact stored_store (c := writer size addr value) rfl whole inRam
  · have other : (writeOf size addr value).selRam = false := by
      apply beq_eq_false_iff_ne.mpr
      exact fun same => inRam ((wordAddr_fields addr).1.symm.trans same)
    rw [if_neg inRam, stored, other]
    rfl

/-- The first cycle of an access, which may be a misaligned one. -/
structure Begun (t : SocTop) (s : Hart.State) (load : Bool) (size : Size) (addr word : Word) : Prop
    extends Accessing t s load size addr word where
  triggered : t.cpu.main.decoderTrigger = true
  fresh : t.cpu.main.decoderPseudoTrigger = false
  held : t.cpu.mem.memRdataQ = word
  calm : Calm t.mem
  ram : bytesOf t.soc.ram = s.mem

section Begun

variable {size : Size} {addr word : Word}

/-- Its request goes out in the next cycle. -/
theorem Begun.asks_load (begun : Begun t s true size addr word) :
    Asking (t.step x).mem 1 (readOf addr t.cpu.mem.memWdata) := by
  have reads : t.cpu.main.wires.reads = true := by
    change (_ || t.cpu.main.req.memDoRdata) = true
    rw [begun.req]
    exact Bool.or_true _
  have alone : t.cpu.main.req.memDoWdata = false := by
    rw [begun.req]
    rfl
  rw [readOf, ← begun.memLaAddr]
  exact begun.calm.read (i := t.input true) rfl begun.running reads alone

theorem Begun.asks_store (begun : Begun t s false size addr word) :
    Asking (t.step x).mem 2 (writeOf size addr t.cpu.main.regOp2) := by
  have alone : t.cpu.main.wires.reads = false := by
    change (t.cpu.main.req.memDoPrefetch || t.cpu.main.req.memDoRinst ||
      t.cpu.main.req.memDoRdata) = false
    rw [begun.req]
    rfl
  have writes : t.cpu.main.req.memDoWdata = true := by
    rw [begun.req]
    rfl
  have sized : t.cpu.main.wires.memWordsize = wordsize size := begun.sized
  have one : t.cpu.main.wires.regOp1 = addr := begun.operand
  have strobes : t.cpu.main.wires.memLaWstrb = (writer size addr t.cpu.main.regOp2).memLaWstrb := by
    unfold Core.memLaWstrb
    rw [sized, one]
    rfl
  have lanes : t.cpu.main.wires.memLaWdata = (writer size addr t.cpu.main.regOp2).memLaWdata := by
    unfold Core.memLaWdata
    rw [sized]
    rfl
  rw [writeOf, ← begun.memLaAddr, ← strobes, ← lanes]
  exact begun.calm.write (i := t.input true) rfl begun.running writes alone

end Begun

section Leads

variable {Q : List (Event (BitVec 32) Word) → SocTop → Prop}
  {past : List (Event (BitVec 32) Word)} {op : Load} {size : Size} {addr word : Word}

/-- A load in the memory or in a device. -/
structure Loading (t : SocTop) (s : Hart.State) (op : Load) (addr word : Word) : Prop extends
    Accessing t s true op.size addr word where
  set : Extends t.cpu.main.latched op
  ram : bytesOf t.soc.ram = s.mem
  whole : op.size.aligned addr
  region : Hart.inRam addr ∨ Hart.inDevices addr
  here : Hart.Fetchable (s.pc + 4)

/-- What it leaves, and the access it has made. -/
def Loads (Q : List (Event (BitVec 32) Word) → SocTop → Prop) (past : List (Event (BitVec 32) Word))
    (s : Hart.State) (op : Load) (addr word : Word) : Prop :=
  ∀ t answer, Launch t ⟨s.pc + 4, s.regs.write (rd s.fetched)
    (op.extend (if Hart.inRam addr then s.mem.load op.size (Hart.ramAddr addr)
      else Hart.fromWord op.size addr answer)), s.mem, word⟩ →
    Meets Q
      (past ++ if Hart.inRam addr then [] else [.got (wordAddr addr) answer]) t

section Load

variable (loading : Loading t s op addr word) (next : Loads Q past s op addr word)

include loading

theorem Loading.again (waiting : t.memDone = false) (kept : (t.step x).soc.ram = t.soc.ram) :
    Loading (t.step x) s op addr word := by
  obtain ⟨accessing, set, -, -, -⟩ := loading.toAccessing.again (x := x) loading.whole waiting
  exact ⟨accessing, set op loading.set, kept ▸ loading.ram, loading.whole, loading.region,
    loading.here⟩

include next

theorem Loading.leads_answering (prepared : Prepared t word)
    (answering : Answering t.mem 1 (readOf addr data)) :
    Meets Q past t := by
  have mapped : mappedAddr (readOf addr data).addr := mapped_access loading.region
  have sized : t.cpu.main.wires.memWordsize = wordsize op.size := loading.sized
  have operand : t.cpu.main.wires.regOp1 = addr := loading.operand
  have aligned : op.size.aligned t.cpu.main.wires.regOp1 := operand ▸ loading.whole
  refine .step (inMap_of_carried answering.carried mapped) fun x => ?_
  have launch := loading.load_ends (x := x) loading.whole loading.set prepared answering mapped
    loading.here loading.ram
  by_cases inRam : Hart.inRam addr
  · have silent : t.events = [] :=
      events_ram (b := t.mem) (answering.carried ▸ ram_access inRam data 0)
    have word := answering.memRdata_ram (i := t.input true) rfl (ram_access inRam data 0)
    have value : t.cpu.main.wires.memRdataWord t.memRdata =
        s.mem.load op.size (Hart.ramAddr addr) := by
      rw [SocTop.memRdata, word, ← loading.ram]
      have load : t.cpu.main.wires.memRdataWord (t.soc.ram _) = _ := memRdataWord_load sized aligned
      rw [operand] at load
      rw [← load]
      exact congrArg (fun a => t.cpu.main.wires.memRdataWord (t.soc.ram a)) (wordAddr_fields addr).2
    have after := next (t.step x) 0
    rw [if_pos inRam, if_pos inRam] at after
    rw [silent]
    rw [value] at launch
    exact after launch
  · have device := loading.region.resolve_left inRam
    have access : t.events = [.got (wordAddr addr) t.memRdata] :=
      answering.events_read (i := t.input true) mapped rfl (device_access device data 0)
    have value : t.cpu.main.wires.memRdataWord t.memRdata =
        Hart.fromWord op.size addr t.memRdata := by
      rw [memRdataWord_fromWord sized aligned, operand]
    have after := next (t.step x) t.memRdata
    rw [if_neg inRam, if_neg inRam] at after
    rw [access]
    rw [value] at launch
    exact after launch

theorem Loading.leads_asking (prepared : Prepared t word)
    (asking : Asking t.mem 1 (readOf addr data)) : Meets Q past t := by
  have mapped : mappedAddr (readOf addr data).addr := mapped_access loading.region
  have waiting : t.memDone = false := asking.memDone (i := t.input true) (by decide)
  refine .quiet (inMap_of_carried asking.carried mapped)
    (asking.events_read (i := t.input true) rfl) fun x => ?_
  have kept := ram_valid (b := t.mem) (i := t.input true) asking.valid
  rw [asking.carried, stored_read rfl] at kept
  exact (loading.again waiting kept).leads_answering next
    (prepared.again loading.toAccessing loading.whole waiting)
    (asking.edge (i := t.input true) rfl loading.running (Or.inl rfl))

theorem Loading.leads (begun : Begun t s true op.size addr word) : Meets Q past t := by
  have waiting : t.memDone = false := begun.calm.memDone (i := t.input true)
  refine meets_silent begun.calm.silent fun x => ?_
  exact (loading.again waiting (ram_silent (b := t.mem) begun.calm.silent)).leads_asking next
    (loading.prepares loading.whole begun.triggered begun.fresh begun.held waiting) begun.asks_load

end Load

/-- Up to the access of a load: the fetch of the next instruction. -/
theorem Carrying.begins_load {r a : Reg} {imm : Word}
    (encoded : (Instr.load op r a imm).Encoded s.fetched) (carrying : Carrying t s .ldmem)
    (req : t.cpu.main.req = ⟨true, true, false, false⟩) (sum : t.cpu.main.regOp1 + imm = addr)
    (asking : Asking t.mem 1 (readOf (s.pc + 4) data))
    (next : ∀ t', Begun t' s true op.size addr (s.mem.word (Hart.ramAddr (s.pc + 4))) →
      Extends t'.cpu.main.latched op → Meets Q past t') :
    Meets Q past t := by
  have ahead : Hart.inRam (s.pc + 4) := carrying.here.2.1
  refine meets_fetch ahead asking.carried fun x => ?_
  obtain ⟨carrying', req', same, -, -, answering⟩ :=
    Carrying.access_again (x := x) (show Carrying t s (accessState true) from carrying) req asking
  refine meets_fetch ahead answering.carried fun y => ?_
  obtain ⟨accessing, set, triggered, fresh⟩ :=
    carrying'.load_begins (x := y) encoded req' answering
  obtain ⟨-, calm, -, held⟩ := Carrying.access_done (x := y)
    (show Carrying _ s (accessState true) from carrying') req' answering
  rw [same, sum] at accessing
  refine next _ ⟨accessing, triggered, fresh, held, calm, ?_⟩ set
  rw [fetch_ram answering.valid answering.carried]
  exact carrying'.ram

/-- A store to the memory or to a device. -/
structure Storing (t : SocTop) (s : Hart.State) (size : Size) (addr value word : Word) : Prop extends
    Accessing t s false size addr word where
  value : t.cpu.main.regOp2 = value
  whole : size.aligned addr
  region : Hart.inRam addr ∨ Hart.inDevices addr
  here : Hart.Fetchable (s.pc + 4)

/-- What it leaves, and the access it has made. -/
def Stores (Q : List (Event (BitVec 32) Word) → SocTop → Prop)
    (past : List (Event (BitVec 32) Word)) (s : Hart.State) (size : Size)
    (addr value word : Word) : Prop :=
  ∀ t, Launch t ⟨s.pc + 4, s.regs,
    if Hart.inRam addr then s.mem.store size (Hart.ramAddr addr) value else s.mem, word⟩ →
    Meets Q
      (past ++ if Hart.inRam addr then []
        else [.wrote (wordAddr addr) (Hart.toWord size value)]) t

section Store

variable {value : Word} (storing : Storing t s size addr value word)

include storing

theorem Storing.again (waiting : t.memDone = false) : Storing (t.step x) s size addr value word := by
  obtain ⟨accessing, -, same, -, -⟩ := storing.toAccessing.again (x := x) storing.whole waiting
  exact ⟨accessing, same.trans storing.value, storing.whole, storing.region, storing.here⟩

variable (next : Stores Q past s size addr value word)

include next

theorem Storing.leads_answering (prepared : Prepared t word)
    (answering : Answering t.mem 2 (writeOf size addr value))
    (ram : bytesOf t.soc.ram = if Hart.inRam addr then
      s.mem.store size (Hart.ramAddr addr) value else s.mem) :
    Meets Q (past ++ if Hart.inRam addr then []
      else [.wrote (wordAddr addr) (Hart.toWord size value)]) t := by
  have mapped : mappedAddr (writeOf size addr value).addr := mapped_access storing.region
  refine .quiet (inMap_of_carried answering.carried mapped)
    (answering.events_write (i := t.input true) mapped (writeOf_isWrite _ _ _)) fun x => next _ ?_
  rw [← ram]
  exact storing.store_ends storing.whole prepared answering mapped storing.here

theorem Storing.leads_asking (prepared : Prepared t word)
    (asking : Asking t.mem 2 (writeOf size addr value)) (ram : bytesOf t.soc.ram = s.mem) :
    Meets Q past t := by
  have waiting : t.memDone = false := asking.memDone (i := t.input true) (by decide)
  have events : t.events = if Hart.inRam addr then []
      else [.wrote (wordAddr addr) (Hart.toWord size value)] := by
    by_cases inRam : Hart.inRam addr
    · rw [if_pos inRam]
      exact events_ram (b := t.mem) (asking.carried ▸ ram_access inRam _ _)
    · have device := device_access (storing.region.resolve_left inRam)
      have wrote := asking.events_write (i := t.input true) (writeOf_isWrite _ _ _) (device _ _)
      have lanes : (writer size addr value).memLaWdata = Hart.toWord size value :=
        memLaWdata_toWord rfl
      rw [if_neg inRam, ← lanes]
      exact wrote
  have mapped : mappedAddr (writeOf size addr value).addr := mapped_access storing.region
  refine .step (inMap_of_carried asking.carried mapped) fun x => ?_
  rw [events]
  apply (storing.again waiting).leads_answering next
  · exact prepared.again storing.toAccessing storing.whole waiting
  · exact asking.edge (i := t.input true) rfl storing.running (Or.inr rfl)
  · have kept := ram_valid (b := t.mem) (i := t.input true) asking.valid
    rw [asking.carried] at kept
    rw [← ram, ← stored_writeOf storing.whole]
    exact congrArg bytesOf kept

theorem Storing.leads (begun : Begun t s false size addr word) : Meets Q past t := by
  have waiting : t.memDone = false := begun.calm.memDone (i := t.input true)
  refine meets_silent begun.calm.silent fun x => ?_
  apply (storing.again waiting).leads_asking next
  · exact storing.prepares storing.whole begun.triggered begun.fresh begun.held waiting
  · rw [← storing.value]
    exact begun.asks_store
  · exact (calm_ram begun.calm).trans begun.ram

end Store

/-- Up to the access of a store. -/
theorem Carrying.begins_store {a b : Reg} {imm value : Word}
    (encoded : (Instr.store size a b imm).Encoded s.fetched) (carrying : Carrying t s .stmem)
    (req : t.cpu.main.req = ⟨true, true, false, false⟩) (fresh : t.cpu.main.latched.store = false)
    (sum : t.cpu.main.regOp1 + imm = addr) (stores : t.cpu.main.regOp2 = value)
    (asking : Asking t.mem 1 (readOf (s.pc + 4) data))
    (next : ∀ t', Begun t' s false size addr (s.mem.word (Hart.ramAddr (s.pc + 4))) →
      t'.cpu.main.regOp2 = value → Meets Q past t') :
    Meets Q past t := by
  have ahead : Hart.inRam (s.pc + 4) := carrying.here.2.1
  refine meets_fetch ahead asking.carried fun x => ?_
  obtain ⟨carrying', req', one, two, fresh', answering⟩ :=
    Carrying.access_again (x := x) (show Carrying t s (accessState false) from carrying) req asking
  refine meets_fetch ahead answering.carried fun y => ?_
  obtain ⟨accessing, same, triggered, pseudo⟩ :=
    carrying'.store_begins (x := y) encoded req' (fresh'.trans fresh) answering
  obtain ⟨-, calm, -, held⟩ := Carrying.access_done (x := y)
    (show Carrying _ s (accessState false) from carrying') req' answering
  rw [one, sum] at accessing
  refine next _ ⟨accessing, triggered, pseudo, held, calm, ?_⟩ ((same.trans two).trans stores)
  rw [fetch_ram answering.valid answering.carried]
  exact carrying'.ram

end Leads

end BlindSig.Picorv32

import BlindSig.Picorv32Boot

set_option autoImplicit false

namespace BlindSig.Picorv32

open Clocked ByteLanes Soc Rv32i

/-- The processor has stopped, with nothing on the bus. -/
structure Trapped (t : SocTop) (regs : Regs) (M : Bytes 14) : Prop where
  state : t.cpu.main.cpuState = .trap
  raised : t.cpu.main.trap = true
  silent : t.cpu.mem.memValid = false
  regs : t.cpu.main.cpuregs = regs
  ram : bytesOf t.soc.ram = M

/-- It has just stopped. -/
structure Stopping (t : SocTop) (regs : Regs) : Prop where
  state : t.cpu.main.cpuState = .trap
  running : t.cpu.main.trap = false
  regs : t.cpu.main.cpuregs = regs

variable {t : SocTop} {s : Hart.State} {pc : Word} {regs : Regs} {M : Bytes 14} {x : Unknown}

/-- Another cycle in the state `trap`. -/
theorem trap_main (state : t.cpu.main.cpuState = .trap) : (t.step x).cpu.main.cpuState = .trap ∧
    (t.step x).cpu.main.trap = true ∧ (t.step x).cpu.main.cpuregs = t.cpu.main.cpuregs := by
  have keeps : t.cpu.main.cpuregsNext true = t.cpu.main.cpuregs :=
    cpuregsNext_keep (by rw [Main.cpuregsWrite, state]; rfl)
  rw [step_main, Main.edge, Main.stateCase, state, Main.defaults, keeps]
  cases t.cpu.main.misaligned with
  | true => exact ⟨rfl, rfl, rfl⟩
  | false => exact ⟨state, rfl, rfl⟩

/-- It stays stopped. -/
theorem Trapped.step (trapped : Trapped t regs M) : Trapped (t.step x) regs M := by
  obtain ⟨state, raised, kept⟩ := trap_main (x := x) trapped.state
  refine ⟨state, raised, ?_, kept.trans trapped.regs, ?_⟩
  · have mem := mem_edge (b := t.mem) (i := t.input true) rfl
    rw [edge_trapped (by exact trapped.raised)] at mem
    have silent : t.mem.mem.memValid = false := trapped.silent
    rw [silent, ite_self] at mem
    exact congrArg Memory.memValid mem
  · rw [← trapped.ram]
    exact congrArg bytesOf (ram_silent (b := t.mem) trapped.silent)

section Ends

variable {Q : List (Event (BitVec 32) Word) → SocTop → Prop}
  {past : List (Event (BitVec 32) Word)} {state : BitVec 2} {y : Transaction}

/-- The access of a transaction to a device. -/
def accessOf (y : Transaction) (answer : Word) : List (Event (BitVec 32) Word) :=
  if y.selSimio || y.selAccel then
    if y.isWrite then [.wrote y.addr y.wdata] else [.got y.addr answer]
  else []

theorem accessOf_ram {answer : Word} (ram : y.selRam = true) : accessOf y answer = [] := by
  rw [accessOf, selSimio_of_ram ram, selAccel_of_ram ram]
  rfl

theorem events_transaction {t' : SocTop} (asking : Asking t.mem state y)
    (answering : Answering t'.mem state y) (mapped : mappedAddr y.addr) :
    t.events ++ t'.events = accessOf y t'.memRdata := by
  unfold accessOf
  cases device : y.selSimio || y.selAccel with
  | false =>
      have none : ∀ u : SocTop, u.mem.mem.transaction = y → u.events = [] := by
        intro u carried
        rw [SocTop.events, MemSys.events, deviceEvents, pins_transaction, carried, device]
        rfl
      rw [none t asking.carried, none t' answering.carried]
      rfl
  | true =>
      cases write : y.isWrite with
      | true =>
          have first : t.events = _ := asking.events_write (i := t.input true) write device
          have second : t'.events = _ := answering.events_write (i := t'.input true) mapped write
          rw [first, second]
          rfl
      | false =>
          have first : t.events = _ := asking.events_read (i := t.input true) write
          have second : t'.events = _ :=
            answering.events_read (i := t'.input true) mapped write device
          rw [first, second]
          rfl

/-- The request that is on the bus then is still answered. -/
theorem Stopping.leads (stopping : Stopping t regs) (asking : Asking t.mem state y)
    (waits : state = 1 ∨ state = 2) (mapped : mappedAddr y.addr)
    (next : ∀ answer t', Trapped t' regs (bytesOf (stored t.soc.ram y)) →
      Meets Q (past ++ accessOf y answer) t') :
    Meets Q past t := by
  refine .step (inMap_of_carried asking.carried mapped) fun x => ?_
  -- The memory interface stops for `trap` only, which comes a cycle after the state.
  have answering : Answering (t.step x).mem state y :=
    asking.edge (i := t.input true) rfl stopping.running waits
  have ram : (t.step x).soc.ram = stored t.soc.ram y := by
    rw [← asking.carried]
    exact ram_valid (b := t.mem) (i := t.input true) asking.valid
  obtain ⟨trap, raised, kept⟩ := trap_main (x := x) stopping.state
  refine .step (inMap_of_carried answering.carried mapped) fun x' => ?_
  rw [List.append_assoc, events_transaction asking answering mapped]
  obtain ⟨trap', raised', kept'⟩ := trap_main (x := x') trap
  refine next _ _ ⟨trap', raised', ?_, kept'.trans (kept.trans stopping.regs), ?_⟩
  · have mem := mem_edge (b := (t.step x).mem) (i := (t.step x).input true) rfl
    rw [edge_trapped (by exact raised), answering.answered mapped] at mem
    exact congrArg Memory.memValid mem
  · have again := ram_valid (b := (t.step x).mem) (i := (t.step x).input true) answering.valid
    rw [answering.carried, answering.ready.written] at again
    rw [← ram]
    exact congrArg bytesOf again

section Fetch

variable {data : Word} (stopping : Stopping t regs) (inRam : Hart.inRam pc)
  (ram : bytesOf t.soc.ram = M) (next : ∀ t', Trapped t' regs M → Meets Q past t')

include stopping inRam ram next

/-- A fetch is still answered too. -/
theorem Stopping.leads_asking (asking : Asking t.mem 1 (readOf pc data)) : Meets Q past t := by
  refine stopping.leads asking (Or.inl rfl) (mapped_fetch inRam) fun answer t' trapped => ?_
  rw [stored_read rfl, ram] at trapped
  rw [accessOf_ram (selRam_fetch inRam data), List.append_nil]
  exact next t' trapped

theorem Stopping.leads_answering (answering : Answering t.mem 1 (readOf pc data)) :
    Meets Q past t := by
  have mapped : mappedAddr (readOf pc data).addr := mapped_fetch inRam
  refine meets_fetch inRam answering.carried fun x => next _ ?_
  obtain ⟨trap, raised, kept⟩ := trap_main (x := x) stopping.state
  refine ⟨trap, raised, ?_, kept.trans stopping.regs, ?_⟩
  · cases wants : t.cpu.main.req.memDoRinst || t.cpu.main.req.memDoRdata with
    | true =>
        exact (answering.taken (i := t.input true) rfl stopping.running mapped wants).silent
    | false =>
        exact (answering.held (i := t.input true) rfl stopping.running mapped wants).silent
  · rw [fetch_ram answering.valid answering.carried]
    exact ram

end Fetch

end Ends

section Illegal

variable (decoded : Decoded t s) (illegal : decode s.fetched = none)

include decoded illegal

theorem Decoded.stops : Stopping (t.step x) s.regs := by
  obtain ⟨trap, -, -⟩ := illegal_flags decoded.fits illegal
  have waiting : t.memDone = false := decoded.calm.memDone (i := t.input true)
  have aligned : t.cpu.main.misaligned = false := by
    rw [Main.misaligned, decoded.req]
    rfl
  have keeps : t.cpu.main.cpuregsNext true = s.regs := by
    rw [cpuregsNext_keep (by rw [Main.cpuregsWrite, decoded.state]; rfl)]
    exact decoded.regs
  have main := step_main (t := t) (x := x)
  rw [edge_eq aligned, finalRequests_plain _ (Or.inr (Or.inl decoded.state)), Main.stateCase,
    decoded.state, waiting] at main
  simp only [Main.ldRs1Case, trap, ↓reduceIte] at main
  refine ⟨?_, ?_, ?_⟩
  · rw [main]
  · rw [main]
    rfl
  · rw [main]
    exact keeps

end Illegal

theorem low_of_misaligned {a : Word} (odd : ¬Size.word.aligned a) : a.extractLsb' 0 2 ≠ 0#2 := by
  intro zero
  have value := congrArg BitVec.toNat zero
  rw [BitVec.extractLsb'_toNat] at value
  exact odd value

section Misaligned

variable {load : Bool} {size : Size} {addr word : Word} (begun : Begun t s load size addr word)
  (odd : ¬size.aligned addr)

include begun odd

theorem Begun.misaligned : t.cpu.main.misaligned = true := by
  have asks : (t.cpu.main.req.memDoRdata || t.cpu.main.req.memDoWdata) = true := by
    rw [begun.req]
    cases load <;> rfl
  rw [Main.misaligned, asks, begun.sized, begun.operand]
  have low : addr.toNat % size.bytes ≠ 0 := odd
  cases size with
  | byte => exact absurd (Nat.mod_one _) low
  | half =>
      have one : addr.extractLsb' 0 1 ≠ 0#1 := by
        intro zero
        have value := congrArg BitVec.toNat zero
        rw [BitVec.extractLsb'_toNat] at value
        exact low value
      simp [wordsize, one]
  | word =>
      simp [wordsize, low_of_misaligned odd]

theorem Begun.stops : Stopping (t.step x) s.regs := by
  have waiting : t.memDone = false := begun.calm.memDone (i := t.input true)
  have keeps : t.cpu.main.cpuregsNext true = s.regs := by
    rw [cpuregsNext_keep (by rw [Main.cpuregsWrite, begun.state]; cases load <;> rfl)]
    exact begun.regs
  have main := step_main (t := t) (x := x)
  rw [Main.edge, begun.misaligned odd, Main.stateCase, begun.state, waiting] at main
  cases load with
  | true =>
      simp only [accessState, ↓reduceIte, Main.ldmemCase, begun.req, accessReq, Bool.not_false,
        Bool.not_true, Bool.true_or, Bool.and_self, Bool.false_eq_true, Bool.and_false] at main
      refine ⟨?_, ?_, ?_⟩
      · rw [main]
      · rw [main]
        rfl
      · rw [main]
        exact keeps
  | false =>
      simp only [accessState, ↓reduceIte, Main.stmemCase, begun.req, accessReq, Bool.not_false,
        Bool.not_true, Bool.true_or, Bool.and_self, Bool.false_eq_true, Bool.and_false] at main
      refine ⟨?_, ?_, ?_⟩
      · rw [main]
      · rw [main]
        rfl
      · rw [main]
        exact keeps

end Misaligned

/-- The instruction at `pc` is asked for, which may be a misaligned address. -/
structure Misfetching (t : SocTop) (pc : Word) (regs : Regs) : Prop where
  state : t.cpu.main.cpuState = .fetch
  running : t.cpu.main.trap = false
  untriggered : t.cpu.main.decoderTrigger = false
  asks : t.cpu.main.req.memDoRinst = true
  pc : t.cpu.main.regPc = pc
  regs : t.cpu.main.cpuregsNext true = regs

theorem Heading.asks (heading : Heading t pc regs M) (waiting : t.memDone = false) :
    Misfetching (t.step x) pc regs ∧ (t.step x).cpu.main.req.memDoWdata = false ∧
      (t.step x).cpu.main.nextPc = pc := by
  have main := heading.main (x := x)
  rw [waiting] at main
  refine ⟨⟨?_, ?_, ?_, ?_, ?_, ?_⟩, ?_, ?_⟩
  · rw [main]
    exact heading.state
  · rw [main]
    rfl
  · rw [main]
    exact Bool.and_false _
  · rw [main]
    rfl
  · rw [main]
  · rw [main, Main.cpuregsNext, Main.cpuregsWrite]
    simp only [Bool.or_self, Bool.and_false, Bool.false_and, Bool.false_eq_true, ↓reduceIte]
    exact heading.regs
  · rw [main]
    exact heading.alone.2
  · rw [main]
    rfl

theorem Misfetching.stops (misfetching : Misfetching t pc regs) (odd : ¬Size.word.aligned pc)
    (waiting : t.memDone = false) : Stopping (t.step x) regs := by
  have misaligned : t.cpu.main.misaligned = true := by
    rw [Main.misaligned, misfetching.asks, misfetching.pc, Bool.true_and, Bool.or_eq_true]
    exact Or.inr (bne_iff_ne.mpr (low_of_misaligned odd))
  -- The state is overwritten at the end of the cycle, the request is not.
  have main := step_main (t := t) (x := x)
  rw [Main.edge, misaligned, Main.stateCase, misfetching.state, waiting] at main
  simp only [Main.fetchCase, misfetching.untriggered, Bool.false_eq_true, ↓reduceIte,
    Bool.and_self] at main
  refine ⟨?_, ?_, ?_⟩
  · rw [main]
  · rw [main]
    rfl
  · rw [main]
    exact misfetching.regs

section AlignDown

theorem toNat_alignDown (size : Size) (a : Word) :
    (Hart.alignDown size a).toNat = a.toNat / size.bytes * size.bytes := by
  have small := a.isLt
  have below := Nat.div_mul_le_self a.toNat size.bytes
  rw [Hart.alignDown, BitVec.toNat_ofNat, Nat.mod_eq_of_lt (by omega)]

theorem alignDown_aligned (size : Size) (a : Word) : size.aligned (Hart.alignDown size a) := by
  rw [Size.aligned, toNat_alignDown]
  exact Nat.mul_mod_left _ _

theorem wordAddr_alignDown (size : Size) (a : Word) :
    wordAddr (Hart.alignDown size a) = wordAddr a := by
  apply BitVec.eq_of_toNat_eq
  rw [toNat_wordAddr, toNat_wordAddr, toNat_alignDown]
  cases size <;> simp only [Size.bytes] <;> omega

theorem inRam_alignDown (size : Size) (a : Word) :
    Hart.inRam (Hart.alignDown size a) ↔ Hart.inRam a := by
  rw [Hart.inRam, Hart.inRam, ← (wordAddr_fields (Hart.alignDown size a)).1, wordAddr_alignDown,
    (wordAddr_fields a).1]

/-- The lowest bits of the address of a halfword or of a word do not matter. -/
theorem writeOf_alignDown (size : Size) (a value : Word) :
    writeOf size (Hart.alignDown size a) value = writeOf size a value := by
  have strobes : (writer size (Hart.alignDown size a) value).memLaWstrb =
      (writer size a value).memLaWstrb := by
    have low := toNat_alignDown size a
    cases size with
    | word => rfl
    | half =>
        have bit : (Hart.alignDown .half a).getLsbD 1 = a.getLsbD 1 := by
          rw [BitVec.getLsbD, BitVec.getLsbD, Nat.testBit_eq_decide_div_mod_eq,
            Nat.testBit_eq_decide_div_mod_eq, low]
          simp only [Size.bytes]
          congr 2
          omega
        change (if (Hart.alignDown .half a).getLsbD 1 then _ else _) = _
        rw [bit]
        rfl
    | byte =>
        have same : Hart.alignDown .byte a = a := by
          apply BitVec.eq_of_toNat_eq
          rw [low]
          simp only [Size.bytes]
          omega
        rw [same]
  rw [writeOf, writeOf, wordAddr_alignDown, strobes]
  rfl

end AlignDown

section Leads

variable {Q : List (Event (BitVec 32) Word) → SocTop → Prop}
  {past : List (Event (BitVec 32) Word)} {size : Size} {addr value word data answer : Word}

theorem accessOf_readOf (region : Hart.inRam addr ∨ Hart.inDevices addr) :
    accessOf (readOf addr data) answer =
      if Hart.inRam addr then [] else [.got (wordAddr addr) answer] := by
  by_cases inRam : Hart.inRam addr
  · rw [if_pos inRam]
    exact accessOf_ram (ram_access inRam _ _)
  · have device : ((readOf addr data).selSimio || (readOf addr data).selAccel) = true :=
      device_access (region.resolve_left inRam) _ _
    rw [if_neg inRam, accessOf, device]
    rfl

theorem accessOf_writeOf (region : Hart.inRam addr ∨ Hart.inDevices addr) :
    accessOf (writeOf size addr value) answer =
      if Hart.inRam addr then [] else [.wrote (wordAddr addr) (Hart.toWord size value)] := by
  by_cases inRam : Hart.inRam addr
  · rw [if_pos inRam]
    exact accessOf_ram (ram_access inRam _ _)
  · have device : ((writeOf size addr value).selSimio || (writeOf size addr value).selAccel) = true :=
      device_access (region.resolve_left inRam) _ _
    have lanes : (writer size addr value).memLaWdata = Hart.toWord size value := memLaWdata_toWord rfl
    rw [if_neg inRam, accessOf, device, writeOf_isWrite, ← lanes]
    rfl

/-- An illegal instruction, while the word after it is fetched. -/
theorem Launch.leads_illegal (launch : Launch t s) (illegal : decode s.fetched = .none)
    (next : ∀ t', Trapped t' s.regs s.mem → Meets Q past t') : Meets Q past t := by
  refine meets_silent launch.calm.silent fun x => ?_
  obtain ⟨fits, same, -⟩ := launch.decoder (x := x)
  obtain ⟨-, jal, jalr⟩ := illegal_flags fits illegal
  have decoded := launch.decoded (x := x) (same ▸ jal)
  refine meets_silent decoded.calm.silent fun y => ?_
  have ram : bytesOf ((t.step x).step y).soc.ram = s.mem := (calm_ram decoded.calm).trans decoded.ram
  exact (decoded.stops illegal).leads_asking decoded.here.2.1 ram next (decoded.asking jalr)

section Jump

variable (heading : Heading t pc regs M) (odd : ¬Size.word.aligned pc) (inRam : Hart.inRam pc)
  (next : ∀ t', Trapped t' regs M → Meets Q past t')

include heading odd inRam next

/-- A jump to a misaligned address: its word is fetched all the same. -/
theorem Heading.leads_asked (asks : t.cpu.main.req.memDoRinst = true)
    (target : t.cpu.main.nextPc = pc) (calm : Calm t.mem) : Meets Q past t := by
  refine meets_silent calm.silent fun x => ?_
  have waiting : t.memDone = false := calm.memDone (i := t.input true)
  obtain ⟨misfetching, -, -⟩ := heading.asks (x := x) waiting
  have asking := asks_fetch (x := x) calm heading.running asks heading.alone.2 target
  have waiting' : (t.step x).memDone = false :=
    asking.memDone (i := (t.step x).input true) (by decide)
  refine meets_fetch inRam asking.carried fun y => ?_
  have ram : bytesOf ((t.step x).step y).soc.ram = M := by
    rw [fetch_ram asking.valid asking.carried]
    exact (calm_ram calm).trans heading.ram
  exact (misfetching.stops odd waiting').leads_answering inRam ram next
    (asking.edge (i := (t.step x).input true) rfl misfetching.running (Or.inl rfl))

theorem Heading.leads_unasked (none : t.cpu.main.req = noRequests) (calm : Calm t.mem) :
    Meets Q past t := by
  refine meets_silent calm.silent fun x => ?_
  have waiting : t.memDone = false := calm.memDone (i := t.input true)
  obtain ⟨misfetching, alone, target⟩ := heading.asks (x := x) waiting
  have calm' : Calm (t.step x).mem := rests_none calm heading.running none
  have waiting' : (t.step x).memDone = false := calm'.memDone (i := (t.step x).input true)
  refine meets_silent calm'.silent fun y => ?_
  have ram : bytesOf ((t.step x).step y).soc.ram = M :=
    (calm_ram calm').trans ((calm_ram calm).trans heading.ram)
  exact (misfetching.stops odd waiting').leads_asking inRam ram next
    (asks_fetch calm' misfetching.running misfetching.asks alone target)

end Jump

variable (odd : ¬size.aligned addr) (region : Hart.inRam addr ∨ Hart.inDevices addr)

include odd region

/-- A misaligned load is on the bus before the core has seen that it is one. -/
theorem Begun.leads_load (begun : Begun t s true size addr word)
    (next : ∀ answer t', Trapped t' s.regs s.mem →
      Meets Q (past ++ if Hart.inRam addr then [] else [.got (wordAddr addr) answer]) t') :
    Meets Q past t := by
  refine meets_silent begun.calm.silent fun x => ?_
  refine (begun.stops odd).leads begun.asks_load (Or.inl rfl) (mapped_access region)
    fun answer t' trapped => ?_
  have ram : bytesOf (t.step x).soc.ram = s.mem := (calm_ram begun.calm).trans begun.ram
  rw [stored_read rfl, ram] at trapped
  rw [accessOf_readOf region]
  exact next answer t' trapped

theorem Begun.leads_store (begun : Begun t s false size addr word)
    (stores : t.cpu.main.regOp2 = value)
    (next : ∀ t', Trapped t' s.regs (if Hart.inRam addr then
        s.mem.store size (Hart.ramAddr (Hart.alignDown size addr)) value else s.mem) →
      Meets Q (past ++ if Hart.inRam addr then []
        else [.wrote (wordAddr addr) (Hart.toWord size value)]) t') :
    Meets Q past t := by
  refine meets_silent begun.calm.silent fun x => ?_
  have asks := begun.asks_store (x := x)
  rw [stores] at asks
  refine (begun.stops odd).leads asks (Or.inr rfl) (mapped_access region)
    fun answer t' trapped => ?_
  have ram : bytesOf (t.step x).soc.ram = s.mem := (calm_ram begun.calm).trans begun.ram
  have left : bytesOf (stored (t.step x).soc.ram (writeOf size (Hart.alignDown size addr) value)) =
      _ := stored_writeOf (alignDown_aligned size addr)
  rw [writeOf_alignDown, ram] at left
  simp only [inRam_alignDown] at left
  rw [left] at trapped
  rw [accessOf_writeOf region]
  exact next t' trapped

end Leads

section Leads

variable {Q : List (Event (BitVec 32) Word) → SocTop → Prop}
  {past : List (Event (BitVec 32) Word)} {i : Instr}

/-- Only jumps and branches go anywhere but to the next instruction. -/
theorem Launch.leads_misjump {r : Reg} {value target : Word} (launch : Launch t s)
    (encoded : i.Encoded s.fetched) (effect : i.effect s.pc s.regs = .write r value target)
    (odd : ¬Size.word.aligned target) (inRam : Hart.inRam target)
    (next : ∀ t', Trapped t' (s.regs.write r value) s.mem → Meets Q past t') :
    Meets Q past t := by
  have straight : target ≠ s.pc + 4 := fun same =>
    odd (same ▸ aligned_next launch.here.2.2)
  cases i with
  | jal r' offset =>
      obtain ⟨-, rfl, rfl⟩ := id encoded
      cases effect
      refine meets_silent launch.calm.silent fun x => ?_
      obtain ⟨heading, asks, there, calm⟩ := launch.jal (x := x) (launch.flag encoded)
      exact heading.leads_asked odd inRam next asks there calm
  | jalr r' a imm =>
      obtain ⟨-, -, rfl, rfl, -⟩ := id encoded
      cases effect
      exact launch.leads_decoded encoded rfl fun t' second =>
        second.leads_jalr encoded rfl fun t'' heading none calm =>
          heading.leads_unasked odd inRam next none calm
  | branch cond a b offset =>
      obtain ⟨-, -, rfl, rfl, -⟩ := id encoded
      -- One that is not taken goes to the next instruction, whatever its offset is.
      cases holds : cond.holds (s.regs.read (rs1 s.fetched)) (s.regs.read (rs2 s.fetched)) with
      | false =>
          rw [Instr.effect, holds] at effect
          cases effect
          exact absurd rfl straight
      | true =>
          rw [Instr.effect, holds] at effect
          cases effect
          rw [Regs.write_zero] at next
          refine launch.leads_decoded encoded rfl fun t' second =>
            second.leads_branching encoded fun u data branching answering => ?_
          have ahead : Hart.inRam (s.pc + 4) := launch.here.2.1
          refine meets_fetch ahead answering.carried fun x => ?_
          obtain ⟨heading, asks, there, calm⟩ :=
            branching.taken encoded (x := x) answering ahead holds
          exact heading.leads_asked odd inRam next asks there calm
  | load op r' a imm => cases effect
  | store size a b imm => cases effect
  | _ =>
      cases effect
      exact absurd rfl straight

/-- From the launch of what ends the program to the trap. -/
theorem Launch.leads_fault (launch : Launch t s) (faults : s.Faults)
    (next : ∀ answer now regs M t', s.fault answer = some (now, regs, M) → Trapped t' regs M →
      Meets Q (past ++ now) t') :
    Meets Q past t := by
  rcases Hart.fault_cases faults with illegal | ⟨i, decoded, ways⟩
  · refine launch.leads_illegal illegal fun t' trapped => ?_
    have stopped : s.fault 0 = some ([], s.regs, s.mem) := by rw [Hart.State.fault, illegal]
    have after := next 0 [] s.regs s.mem t' stopped trapped
    rwa [List.append_nil] at after
  have encoded := encoded_of_decode decoded
  rcases ways with ⟨r, value, target, effect, odd, inRam⟩ |
    ⟨op, r, addr, effect, odd, region⟩ | ⟨size, addr, data, effect, odd, region⟩
  · refine launch.leads_misjump encoded effect odd inRam fun t' trapped => ?_
    have after := next 0 [] _ s.mem t' (Hart.fault_write decoded effect odd inRam) trapped
    rwa [List.append_nil] at after
  · cases i with
    | load op' r' a imm =>
        obtain ⟨-, -, rfl, rfl, -⟩ := id encoded
        cases effect
        refine launch.leads_decoded encoded rfl fun t' second =>
          second.begins_load encoded fun t'' begun _ => ?_
        exact begun.leads_load odd region fun answer u trapped =>
          next answer _ _ _ u (Hart.fault_load decoded rfl odd region) trapped
    | _ => cases effect
  · cases i with
    | store size' a b imm =>
        obtain ⟨-, -, rfl, rfl, -⟩ := id encoded
        cases effect
        refine launch.leads_decoded encoded rfl fun t' second =>
          second.begins_store encoded fun t'' begun value => ?_
        exact begun.leads_store odd region value fun u trapped =>
          next 0 _ _ _ u (Hart.fault_store decoded rfl odd region) trapped
    | _ => cases effect

end Leads

section Boots

variable {image : BitVec 12 → Word} {resetn : ℕ → Bool} {r : ℕ}

theorem Boots.leads_end {y : ℕ → Unknown} (boots : Boots image t resetn r) (k : ℕ) :
    Meets (fun events t' => ∃ j before s, j ≤ k ∧ Hart.Run (Hart.boot (bytesOf image)) j before s ∧
        ((∃ answer now regs M, s.fault answer = some (now, regs, M) ∧ events = before ++ now ∧
            Trapped t' regs M) ∨
          ¬s.Faults ∧ (j = k ∨ s.Stuck) ∧ events = before ∧ Launch t' s))
      [] (t.run resetn y r) := by
  refine (boots.leads k).trans fun past t' ⟨j, s, upTo, ran, launch, ended⟩ => ?_
  by_cases faults : s.Faults
  · exact launch.leads_fault faults fun answer now regs M u stopped trapped =>
      .done ⟨j, past, s, upTo, ran, Or.inl ⟨answer, now, regs, M, stopped, rfl, trapped⟩⟩
  · exact .done ⟨j, past, s, upTo, ran, Or.inr ⟨faults, ended, rfl, launch⟩⟩

theorem event_silent {s : Soc.State} {ins : ℕ → Soc.Pins} {n : ℕ}
    (silent : (ins (r + n)).memValid = false) : Soc.event s ins r n = none := by
  have opened : opens s ins r n = false := by
    cases n with
    | zero => exact silent
    | succ n => exact (congrArg (· && _) silent).trans (Bool.false_and _)
  have request : (requests ins r n).valid = false := silent
  have idle : access s ins r n = .idle () := by
    rw [access, opened, request]
    simp
  rw [Soc.event, idle]

/-- Once stopped, it stays so, and makes no further access. -/
theorem Boots.trapped {y : ℕ → Unknown} (boots : Boots image t resetn r) {n m : ℕ}
    (trapped : Trapped (t.run resetn y (r + n)) regs M) (later : n ≤ m) :
    Trapped (t.run resetn y (r + m)) regs M ∧
      Soc.events t.soc (t.pins resetn y) r m = Soc.events t.soc (t.pins resetn y) r n := by
  induction m, later using Nat.le_induction with
  | base => exact ⟨trapped, rfl⟩
  | succ m later ih =>
      obtain ⟨still, same⟩ := ih
      constructor
      · rw [← Nat.add_assoc, SocTop.run, boots.released (r + m) (Nat.le_add_right r m)]
        exact still.step
      · have silent : (t.pins resetn y (r + m)).memValid = false := still.silent
        rw [events_succ, event_silent silent, same]
        exact List.append_nil _

/-- The processor carries out the program as far as it goes, and at a fault it
stops: with what the fault has done to the registers, the memory and the devices, and
from then on nothing on the bus. -/
theorem stops_at_faults (boots : Boots image t resetn r) (y : ℕ → Unknown) (k : ℕ) :
    ∃ n j before s, j ≤ k ∧ Hart.Run (Hart.boot (bytesOf image)) j before s ∧
      ((s.Stuck ∧ ∃ answer now regs M, s.fault answer = some (now, regs, M) ∧ ∀ m ≥ n,
          Trapped (t.run resetn y (r + m)) regs M ∧
            Soc.events t.soc (t.pins resetn y) r m = before ++ now) ∨
        ¬s.Faults ∧ (j = k ∨ s.Stuck) ∧ Stands (t.run resetn y (r + n)) s ∧
          Soc.events t.soc (t.pins resetn y) r n = before) := by
  obtain ⟨n, ⟨j, before, s, upTo, ran, outcome⟩, -⟩ := boots.reached (boots.leads_end (y := y) k)
    fun events t' ⟨_, _, _, _, _, outcome⟩ => by
      rcases outcome with ⟨_, _, _, _, _, _, trapped⟩ | ⟨_, _, _, launch⟩
      · exact trapped.silent
      · exact launch.calm.silent
  refine ⟨n, j, before, s, upTo, ran, ?_⟩
  rcases outcome with ⟨answer, now, regs, M, stopped, made, trapped⟩ | ⟨faultless, ended, made, launch⟩
  · have faults : s.Faults := ⟨answer, by rw [stopped]; exact Option.some_ne_none _⟩
    refine Or.inl ⟨faults.stuck, answer, now, regs, M, stopped, fun m later => ?_⟩
    rw [← made]
    exact boots.trapped trapped later
  · exact Or.inr ⟨faultless, ended, launch.stands, made⟩

/-- `sw zero, 2(zero)` in every word. -/
def misaligned : BitVec 12 → Word := fun _ => 0x00002123

theorem stops_at_faults_store : ∃ n, ∀ m ≥ n,
    Trapped ((powerUp misaligned).run (fun n => decide (1 ≤ n))
        (fun _ => ⟨0, 0, 0, 0, 0, false, 0⟩) (1 + m))
      (Hart.boot (bytesOf misaligned)).regs ((bytesOf misaligned).store .word 0 0) ∧
    Soc.events (powerUp misaligned).soc ((powerUp misaligned).pins (fun n => decide (1 ≤ n))
      fun _ => ⟨0, 0, 0, 0, 0, false, 0⟩) 1 m = [] := by
  obtain ⟨n, j, before, s, upTo, ran, outcome⟩ := stops_at_faults (boots_powerUp misaligned)
    (fun _ => ⟨0, 0, 0, 0, 0, false, 0⟩) 0
  obtain rfl : j = 0 := Nat.le_zero.mp upTo
  cases ran
  have stopped (answer : Word) : (Hart.boot (bytesOf misaligned)).fault answer =
      some ([], (Hart.boot (bytesOf misaligned)).regs, (bytesOf misaligned).store .word 0 0) :=
    Hart.fault_store (show decode _ = some (.store .word 0 0 2) by decide) rfl (by decide)
      (Or.inl (by decide))
  rcases outcome with ⟨-, answer, now, regs, M, fault, trapped⟩ | ⟨faultless, -⟩
  · rw [stopped] at fault
    cases fault
    exact ⟨n, trapped⟩
  · refine absurd ⟨0, ?_⟩ faultless
    rw [stopped]
    exact Option.some_ne_none _

end Boots

end BlindSig.Picorv32

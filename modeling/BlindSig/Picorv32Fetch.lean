import BlindSig.Picorv32Soc

set_option autoImplicit false

namespace BlindSig.Picorv32

open Clocked ByteLanes Soc Rv32i

/-- The instruction `s.fetched` of the program is launched in this cycle. -/
structure Launch (t : SocTop) (s : Hart.State) : Prop where
  state : t.cpu.main.cpuState = .fetch
  running : t.cpu.main.trap = false
  triggered : t.cpu.main.decoderTrigger = true
  calm : Calm t.mem
  none : t.cpu.main.req = noRequests
  next : t.cpu.main.currentPc = s.pc
  regs : t.cpu.main.cpuregsNext true = s.regs
  first : t.cpu.decoder.first = First.ofWord s.fetched
  second : if t.cpu.main.decoderPseudoTrigger then
      ∃ x, t.cpu.decoder.second = Second.ofWord (First.ofWord s.fetched) s.fetched x
    else t.cpu.mem.memRdataQ = s.fetched
  ram : bytesOf t.soc.ram = s.mem
  here : Hart.Fetchable s.pc

/-- The processor goes on at `pc`, with the registers and the memory as the
instruction before leaves them. -/
structure Heading (t : SocTop) (pc : Word) (regs : Regs) (M : Bytes 14) : Prop where
  state : t.cpu.main.cpuState = .fetch
  running : t.cpu.main.trap = false
  untriggered : t.cpu.main.decoderTrigger = false
  alone : t.cpu.main.req.memDoRdata = false ∧ t.cpu.main.req.memDoWdata = false
  next : t.cpu.main.currentPc = pc
  regs : t.cpu.main.cpuregsNext true = regs
  whole : t.cpu.main.regPc.extractLsb' 0 2 = 0
  ram : bytesOf t.soc.ram = M

/-- The instruction at `pc` is waited for. -/
structure Fetching (t : SocTop) (pc : Word) (regs : Regs) (M : Bytes 14) : Prop
    extends Heading t pc regs M where
  here : Hart.Fetchable pc

variable {t : SocTop} {pc : Word} {regs : Regs} {M : Bytes 14} {x : Unknown}

/-- Another cycle in the state `fetch`. -/
theorem Heading.main (heading : Heading t pc regs M) : (t.step x).cpu.main =
    { t.cpu.main.defaults t.cpu.decoder true t.memDone x with
      memWordsize := .word
      regPc := pc
      regNextPc := pc
      latched := ⟨false, false, false, false, false, false, t.cpu.decoder.first.decodedRd⟩
      req := if t.memDone then noRequests
        else { t.cpu.main.req with memDoRinst := true } } := by
  have aligned := aligned_of_pc heading.alone heading.whole
  rw [step_main, edge_eq aligned, finalRequests_plain _ (Or.inl heading.state), Main.stateCase,
    heading.state]
  dsimp only
  rw [Main.fetchCase, heading.untriggered, heading.next]
  rfl

/-- The read of the word of an address. -/
def readOf (addr data : Word) : Transaction := ⟨wordAddr addr, data, 0⟩

theorem selRam_fetch (inRam : Hart.inRam pc) (data : Word) : (readOf pc data).selRam = true :=
  beq_iff_eq.mpr ((wordAddr_fields pc).1.trans inRam)

theorem mapped_fetch (inRam : Hart.inRam pc) : mappedAddr (wordAddr pc) :=
  Or.inl ((wordAddr_fields pc).1.trans inRam)

theorem low_of_aligned {a : Word} (aligned : Size.word.aligned a) : a.extractLsb' 0 2 = 0 := by
  apply BitVec.eq_of_toNat_eq
  rw [BitVec.extractLsb'_toNat]
  exact aligned

theorem aligned_next {pc : Word} (whole : Size.word.aligned pc) : Size.word.aligned (pc + 4) := by
  have low : pc.toNat % 4 = 0 := whole
  change (pc + 4).toNat % 4 = 0
  rw [BitVec.toNat_add]
  change (pc.toNat + 4) % 2 ^ 32 % 4 = 0
  omega

/-- The answer to a fetch is the word of the memory. -/
theorem fetched_word {data : Word} (answering : Answering t.mem 1 (readOf pc data))
    (inRam : Hart.inRam pc) (whole : Size.word.aligned pc) :
    t.memRdata = (bytesOf t.soc.ram).word (Hart.ramAddr pc) := by
  rw [SocTop.memRdata, answering.memRdata_ram rfl (selRam_fetch inRam data), fetch_word whole]
  exact congrArg t.soc.ram (wordAddr_fields pc).2

section Wait

variable (fetching : Fetching t pc regs M)

include fetching

theorem Fetching.again (waiting : t.memDone = false) (kept : (t.step x).soc.ram = t.soc.ram) :
    Fetching (t.step x) pc regs M ∧
      (t.step x).cpu.main.req = { t.cpu.main.req with memDoRinst := true } ∧
      (t.step x).cpu.main.nextPc = pc := by
  have main := fetching.main (x := x)
  rw [waiting] at main
  refine ⟨?_, by rw [main]; rfl, by rw [main]; rfl⟩
  refine ⟨⟨?_, ?_, ?_, ?_, ?_, ?_, ?_, ?_⟩, fetching.here⟩
  · rw [main]
    exact fetching.state
  · rw [main]
    rfl
  · rw [main]
    exact Bool.and_false _
  · rw [main]
    exact fetching.alone
  · rw [main]
    rfl
  · rw [main, Main.cpuregsNext, Main.cpuregsWrite]
    simp only [Bool.or_self, Bool.and_false, Bool.false_and, Bool.false_eq_true, ↓reduceIte]
    exact fetching.regs
  · rw [main]
    exact low_of_aligned fetching.here.2.2
  · rw [kept]
    exact fetching.ram

/-- The instruction has arrived. -/
theorem Fetching.arrived {word : Word} (asks : t.cpu.main.req.memDoRinst = true)
    (done : t.memDone = true) (kept : (t.step x).soc.ram = t.soc.ram) (calm : Calm (t.step x).mem)
    (latched : (if t.cpu.mem.memXfer (t.mem.memReady (t.input true)) then t.memRdata
      else t.cpu.mem.memRdataQ) = word) (held : (t.step x).cpu.mem.memRdataQ = word)
    (fetched : word = M.word (Hart.ramAddr pc)) :
    Launch (t.step x) ⟨pc, regs, M, M.word (Hart.ramAddr pc)⟩ := by
  have main := fetching.main (x := x)
  rw [done] at main
  refine ⟨?_, ?_, ?_, calm, ?_, ?_, ?_, ?_, ?_, ?_, fetching.here⟩
  · rw [main]
    exact fetching.state
  · rw [main]
    rfl
  · rw [main]
    exact Bool.and_eq_true_iff.mpr ⟨asks, rfl⟩
  · rw [main]
    rfl
  · rw [main]
    rfl
  · rw [main, Main.cpuregsNext, Main.cpuregsWrite]
    simp only [Bool.or_self, Bool.and_false, Bool.false_and, Bool.false_eq_true, ↓reduceIte]
    exact fetching.regs
  · rw [step_decoder, asks, done, latched, ← fetched]
    rfl
  · rw [main]
    exact held.trans fetched
  · rw [kept]
    exact fetching.ram

end Wait

theorem calm_ram (calm : Calm t.mem) : bytesOf (t.step x).soc.ram = bytesOf t.soc.ram :=
  congrArg bytesOf (ram_silent (b := t.mem) calm.silent)

/-- Without a request the memory interface rests for another cycle. -/
theorem rests_none (calm : Calm t.mem) (running : t.cpu.main.trap = false)
    (none : t.cpu.main.req = noRequests) : Calm (t.step x).mem := by
  apply calm.rest (i := t.input true) rfl running
  change (t.cpu.main.req.memDoPrefetch || t.cpu.main.req.memDoRinst || t.cpu.main.req.memDoRdata
    || t.cpu.main.req.memDoWdata) = false
  rw [none]
  rfl

/-- The request of a fetch. -/
theorem asks_fetch (calm : Calm t.mem) (running : t.cpu.main.trap = false)
    (asks : t.cpu.main.req.memDoRinst = true) (alone : t.cpu.main.req.memDoWdata = false)
    (target : t.cpu.main.nextPc = pc) :
    Asking (t.step x).mem 1 (readOf pc t.cpu.mem.memWdata) := by
  have addr : t.cpu.main.wires.memLaAddr = wordAddr pc := by
    rw [Core.memLaAddr]
    change (if t.cpu.main.req.memDoPrefetch || t.cpu.main.req.memDoRinst then
      wordAddr t.cpu.main.nextPc else _) = _
    rw [asks, Bool.or_true, if_pos rfl, target]
  have reads : t.cpu.main.wires.reads = true := by
    change (_ || t.cpu.main.req.memDoRinst || _) = true
    rw [asks, Bool.or_true, Bool.true_or]
  rw [readOf, ← addr]
  exact calm.read (i := t.input true) rfl running reads alone

/-- A fetch makes no device access. -/
theorem fetch_events {data : Word} (inRam : Hart.inRam pc)
    (carried : t.cpu.mem.transaction = readOf pc data) : t.events = [] :=
  events_ram (b := t.mem) (carried ▸ selRam_fetch inRam data)

theorem meets_fetch {data : Word} {Q : List (Event (BitVec 32) Word) → SocTop → Prop}
    {past : List (Event (BitVec 32) Word)} (inRam : Hart.inRam pc)
    (carried : t.cpu.mem.transaction = readOf pc data) (next : ∀ x, Meets Q past (t.step x)) :
    Meets Q past t :=
  .quiet (inMap_of_carried carried (mapped_fetch inRam)) (fetch_events inRam carried) next

/-- A fetch leaves the memory alone. -/
theorem fetch_ram {data : Word} (valid : t.cpu.mem.memValid = true)
    (carried : t.cpu.mem.transaction = readOf pc data) : (t.step x).soc.ram = t.soc.ram := by
  have ram := ram_valid (b := t.mem) (i := t.input true) valid
  rw [show t.mem.mem.transaction = readOf pc data from carried, stored_read rfl] at ram
  exact ram

/-- A fetch that began ahead of its instruction. -/
def Ahead (t : SocTop) (pc word : Word) : Prop :=
  (∃ data, Asking t.mem 1 (readOf pc data)) ∨ (∃ data, Answering t.mem 1 (readOf pc data)) ∨
    Held t.mem word

theorem Ahead.inMap {word : Word} (ahead : Ahead t pc word) (inRam : Hart.inRam pc) : t.InMap := by
  rcases ahead with ⟨data, asking⟩ | ⟨data, answering⟩ | held
  · exact inMap_of_carried asking.carried (mapped_fetch inRam)
  · exact inMap_of_carried answering.carried (mapped_fetch inRam)
  · exact fun valid => absurd valid (held.silent ▸ Bool.false_ne_true)

/-- It goes on by itself until its word is there. -/
theorem Ahead.step {word : Word} (ahead : Ahead t pc word) (running : t.cpu.main.trap = false)
    (req : t.cpu.main.req = ⟨true, false, false, false⟩) (here : Hart.Fetchable pc)
    (fetched : (bytesOf t.soc.ram).word (Hart.ramAddr pc) = word) :
    Ahead (t.step x) pc word ∧ t.memDone = false ∧ t.events = [] ∧
      (t.step x).soc.ram = t.soc.ram := by
  have none : (t.cpu.main.req.memDoRinst || t.cpu.main.req.memDoRdata) = false := by
    rw [req]
    rfl
  rcases ahead with ⟨data, asking⟩ | ⟨data, answering⟩ | held
  · refine ⟨Or.inr (Or.inl ⟨data, ?_⟩), ?_, ?_, fetch_ram asking.valid asking.carried⟩
    · exact asking.edge (i := t.input true) rfl running (Or.inl rfl)
    · exact asking.memDone (i := t.input true) (by decide)
    · exact fetch_events here.1 asking.carried
  · have mapped : mappedAddr (readOf pc data).addr := mapped_fetch here.1
    refine ⟨Or.inr (Or.inr ?_), ?_, ?_, fetch_ram answering.valid answering.carried⟩
    · rw [← fetched, ← fetched_word answering here.1 here.2.2]
      exact answering.held (i := t.input true) rfl running mapped none
    · have done := answering.memDone (i := t.input true) rfl mapped (by decide) (by decide)
      rw [SocTop.memDone, done]
      change (t.cpu.main.req.memDoRinst || t.cpu.main.req.memDoRdata ||
        t.cpu.main.req.memDoWdata) = false
      rw [req]
      rfl
    · exact fetch_events here.1 answering.carried
  · have rinst : t.cpu.main.req.memDoRinst = false := (Bool.or_eq_false_iff.mp none).1
    refine ⟨Or.inr (Or.inr ?_), ?_, ?_, ?_⟩
    · exact held.edge (i := t.input true) rfl running rinst
    · exact (held.memDone (i := t.input true) rfl).trans rinst
    · exact events_silent (b := t.mem) held.silent
    · exact ram_silent (b := t.mem) held.silent

section Leads

variable {Q : List (Event (BitVec 32) Word) → SocTop → Prop}
  {past : List (Event (BitVec 32) Word)} {word data : Word} (fetching : Fetching t pc regs M)
  (next : ∀ t', Launch t' ⟨pc, regs, M, M.word (Hart.ramAddr pc)⟩ →
    Meets Q past t')

include fetching next

theorem Fetching.leads_answering (asks : t.cpu.main.req.memDoRinst = true)
    (answering : Answering t.mem 1 (readOf pc data)) : Meets Q past t := by
  have mapped : mappedAddr (readOf pc data).addr := mapped_fetch fetching.here.1
  have xfer : t.cpu.mem.memXfer (t.mem.memReady (t.input true)) = true :=
    Bool.and_eq_true_iff.mpr ⟨answering.valid, answering.answered mapped⟩
  have done : t.memDone = (t.cpu.main.req.memDoRinst || t.cpu.main.req.memDoRdata ||
      t.cpu.main.req.memDoWdata) :=
    answering.memDone (i := t.input true) rfl mapped (by decide) (by decide)
  have word := fetched_word answering fetching.here.1 fetching.here.2.2
  rw [fetching.ram] at word
  rw [asks] at done
  refine meets_fetch fetching.here.1 answering.carried fun x => next _ ?_
  refine fetching.arrived asks done (fetch_ram answering.valid answering.carried) ?_ rfl ?_ ?_
  · apply answering.taken (i := t.input true) rfl fetching.running mapped
    change (t.cpu.main.req.memDoRinst || _) = true
    rw [asks]
    rfl
  · exact memRdataQ_edge (b := t.mem) (i := t.input true) fetching.running rfl
  · rw [xfer]
    exact word

theorem Fetching.leads_held (asks : t.cpu.main.req.memDoRinst = true)
    (held : Held t.mem word) (fetched : word = M.word (Hart.ramAddr pc)) :
    Meets Q past t := by
  have idle : t.cpu.mem.memXfer (t.mem.memReady (t.input true)) = false := by
    rw [Memory.memXfer, show t.cpu.mem.memValid = false from held.silent, Bool.false_and]
  have done : t.memDone = t.cpu.main.req.memDoRinst := held.memDone (i := t.input true) rfl
  rw [asks] at done
  refine meets_silent held.silent fun x => next _ ?_
  refine fetching.arrived asks done (ram_silent (b := t.mem) held.silent) ?_ rfl ?_ ?_
  · exact held.taken (i := t.input true) rfl fetching.running asks
  · exact memRdataQ_edge (b := t.mem) (i := t.input true) fetching.running rfl
  · rw [idle]
    exact held.word.trans fetched

theorem Fetching.leads_asking (asking : Asking t.mem 1 (readOf pc data)) :
    Meets Q past t := by
  refine meets_fetch fetching.here.1 asking.carried fun x => ?_
  have waiting : t.memDone = false := asking.memDone (i := t.input true) (by decide)
  obtain ⟨later, req, -⟩ := fetching.again waiting
    (fetch_ram (x := x) asking.valid asking.carried)
  exact later.leads_answering next (by rw [req])
    (asking.edge (i := t.input true) rfl fetching.running (Or.inl rfl))

theorem Fetching.leads_ahead (asks : t.cpu.main.req.memDoRinst = true)
    (ahead : Ahead t pc (M.word (Hart.ramAddr pc))) : Meets Q past t := by
  rcases ahead with ⟨data, asking⟩ | ⟨data, answering⟩ | held
  · exact fetching.leads_asking next asking
  · exact fetching.leads_answering next asks answering
  · exact fetching.leads_held next asks held rfl

theorem Fetching.leads_calm (asks : t.cpu.main.req.memDoRinst = true) (calm : Calm t.mem)
    (target : t.cpu.main.nextPc = pc) : Meets Q past t := by
  refine meets_silent calm.silent fun x => ?_
  have waiting : t.memDone = false := calm.memDone (i := t.input true)
  obtain ⟨later, -, -⟩ := fetching.again waiting (ram_silent (b := t.mem) calm.silent) (x := x)
  exact later.leads_asking next
    (asks_fetch calm fetching.running asks fetching.alone.2 target)

/-- The fetch has not been asked for yet. -/
theorem Fetching.leads_fresh (none : t.cpu.main.req = noRequests) (calm : Calm t.mem) :
    Meets Q past t := by
  refine meets_silent calm.silent fun x => ?_
  have waiting : t.memDone = false := calm.memDone (i := t.input true)
  obtain ⟨later, req, target⟩ := fetching.again waiting
    (ram_silent (b := t.mem) calm.silent) (x := x)
  apply later.leads_calm next
  · rw [req]
  · exact rests_none calm fetching.running none
  · exact target

end Leads

end BlindSig.Picorv32

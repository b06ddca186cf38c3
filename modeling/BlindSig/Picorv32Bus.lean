import BlindSig.Picorv32Memory

set_option autoImplicit false

namespace BlindSig.Picorv32

open Clocked ByteLanes Soc

def Memory.transaction (m : Memory) : Transaction := ⟨m.memAddr, m.memWdata, m.memWstrb⟩

/-- The device access that a cycle makes, as `Soc.event` has it of a whole run. -/
def deviceEvents (s : Soc.State) (i : Soc.Pins) : List (Event (BitVec 32) Word) :=
  let x := i.transaction
  if x.selSimio || x.selAccel then
    if x.isWrite then if i.memValid && !s.memReady i then [.wrote x.addr x.wdata] else []
    else if i.memValid && s.memReady i then [.got x.addr (s.memRdata i)] else []
  else []

/-- No region is about to answer. -/
structure Quiet (s : Soc.State) : Prop where
  ram : s.ramReadyR = false
  simio : s.simioReadyR = false
  accel : s.accelWrap.busReady = false

/-- What a write leaves in the RAM. -/
def stored (ram : BitVec 12 → Word) (x : Transaction) : BitVec 12 → Word :=
  if x.selRam then fun a => if a = x.ramWordAddr then writeBytes (ram a) x else ram a else ram

/-- The region of the transaction answers, and the RAM has done its part. -/
structure Ready (s : Soc.State) (x : Transaction) : Prop where
  ram : s.ramReadyR = x.selRam
  simio : s.simioReadyR = x.selSimio
  accel : s.accelWrap.busReady = x.selAccel
  read : x.isWrite = false → s.ramRdata = s.ram x.ramWordAddr
  written : stored s.ram x = s.ram

/-- Nothing is under way. -/
structure Calm (b : MemSys) : Prop where
  idle : b.mem.memState = 0
  silent : b.mem.memValid = false
  quiet : Quiet b.soc

/-- The first cycle of a request. -/
structure Asking (b : MemSys) (state : BitVec 2) (x : Transaction) : Prop where
  state : b.mem.memState = state
  valid : b.mem.memValid = true
  carried : b.mem.transaction = x
  quiet : Quiet b.soc

/-- Its second one. -/
structure Answering (b : MemSys) (state : BitVec 2) (x : Transaction) : Prop where
  state : b.mem.memState = state
  valid : b.mem.memValid = true
  carried : b.mem.transaction = x
  ready : Ready b.soc x

/-- The prefetched word waits to be asked for. -/
structure Held (b : MemSys) (word : Word) : Prop where
  waiting : b.mem.memState = 3
  silent : b.mem.memValid = false
  quiet : Quiet b.soc
  word : b.mem.memRdataQ = word

section Fabric

variable {s : Soc.State} {i : Soc.Pins} {x : Transaction}

theorem Quiet.unanswered (quiet : Quiet s) : s.memReady i = false := by
  simp [State.memReady, quiet.ram, quiet.simio, quiet.accel]

theorem Ready.answered (ready : Ready s i.transaction) (mapped : mappedAddr i.memAddr) :
    s.memReady i = true := by
  have region : i.transaction.selRam = true ∨ i.transaction.selSimio = true ∨
      i.transaction.selAccel = true :=
    mapped.imp (fun here => beq_iff_eq.mpr here)
      (Or.imp (fun here => beq_iff_eq.mpr here) fun here => beq_iff_eq.mpr here)
  rw [State.memReady, ready.ram, ready.simio, ready.accel]
  rcases region with here | here | here <;> simp [here]

theorem deviceEvents_silent (silent : i.memValid = false) : deviceEvents s i = [] := by
  simp [deviceEvents, silent]

theorem ramNext_stored (valid : i.memValid = true) : s.ramNext i = stored s.ram i.transaction := by
  rw [State.ramNext, valid]
  rfl

theorem stored_read {ram : BitVec 12 → Word} (read : x.isWrite = false) : stored ram x = ram := by
  unfold stored
  split
  · funext a
    rw [writeBytes_read read, ite_self]
  · rfl

/-- A word is its four bytes. -/
theorem word_ext {v w : Word} (same : ∀ j < 4, lane v j = lane w j) : v = w := by
  apply BitVec.eq_of_getLsbD_eq
  intro k inside
  have byte := congrArg (BitVec.getLsbD · (k % 8)) (same (k / 8) (by omega))
  rw [getLsbD_lane _ _ (by omega), getLsbD_lane _ _ (by omega),
    show 8 * (k / 8) + k % 8 = k by omega] at byte
  exact byte

/-- Writing the same bytes once more changes nothing. -/
theorem stored_stored (ram : BitVec 12 → Word) (x : Transaction) :
    stored (stored ram x) x = stored ram x := by
  unfold stored
  split
  · funext a
    dsimp only
    split
    · apply word_ext
      intro j inside
      rw [lane_writeBytes _ _ inside, lane_writeBytes _ _ inside]
      split <;> rfl
    · rfl
  · rfl

variable (released : i.resetn = true)

include released

theorem busReady_edge : (s.edge i).accelWrap.busReady =
    (i.memValid && i.transaction.selAccel && !s.accelWrap.busReady) := by
  change (s.accelWrap.edge i.accelPins).busReady = _
  rw [BusWrap.State.edge]
  exact if_pos released

theorem quiet_silent (silent : i.memValid = false) : Quiet (s.edge i) := by
  refine ⟨?_, ?_, ?_⟩
  · simp [State.edge, released, silent]
  · simp [State.edge, released, silent]
  · rw [busReady_edge released, silent]
    rfl

theorem Quiet.asked (quiet : Quiet s) (valid : i.memValid = true) :
    Ready (s.edge i) i.transaction := by
  have ram : (s.edge i).ram = stored s.ram i.transaction := ramNext_stored valid
  refine ⟨?_, ?_, ?_, fun read => ?_, ?_⟩
  · simp [State.edge, released, valid, quiet.ram]
  · simp [State.edge, released, valid, quiet.simio]
  · rw [busReady_edge released, valid, quiet.accel]
    simp
  · rw [ram, stored_read read]
    rfl
  · rw [ram, stored_stored]

theorem Ready.over (ready : Ready s i.transaction) (valid : i.memValid = true) : Quiet (s.edge i) := by
  refine ⟨?_, ?_, ?_⟩
  · simp [State.edge, released, valid, ready.ram]
  · simp [State.edge, released, valid, ready.simio]
  · rw [busReady_edge released, valid, ready.accel]
    simp

end Fabric

variable {b : MemSys} {i : MemInput} {state : BitVec 2} {x : Transaction} {word : Word}

theorem pins_transaction (b : MemSys) (i : MemInput) : (b.pins i).transaction = b.mem.transaction := rfl

section Ready

theorem Asking.unanswered (asking : Asking b state x) : b.memReady i = false :=
  asking.quiet.unanswered

theorem Answering.answered (answering : Answering b state x) (mapped : mappedAddr x.addr) :
    b.memReady i = true := by
  have ready := answering.ready
  rw [← answering.carried] at ready mapped
  exact Ready.answered (i := b.pins i) ready mapped

end Ready

section Done

theorem Calm.memDone (calm : Calm b) : b.memDone i = false := by
  rw [MemSys.memDone, Memory.memDone, Memory.memXfer, calm.silent, calm.idle]
  simp

theorem Asking.memDone (asking : Asking b state x) (busy : state ≠ 3) : b.memDone i = false := by
  rw [MemSys.memDone, asking.unanswered, Memory.memDone, Memory.memXfer, Bool.and_false,
    asking.state, beq_eq_false_iff_ne.mpr busy]
  simp

variable (released : i.resetn = true)

include released

theorem Answering.memDone (answering : Answering b state x) (mapped : mappedAddr x.addr)
    (nonzero : state ≠ 0) (busy : state ≠ 3) :
    b.memDone i = (i.core.memDoRinst || i.core.memDoRdata || i.core.memDoWdata) := by
  rw [MemSys.memDone, answering.answered mapped, Memory.memDone, Memory.memXfer, answering.valid,
    released, answering.state, beq_eq_false_iff_ne.mpr busy, bne_iff_ne.mpr nonzero]
  simp

theorem Held.memDone (held : Held b word) : b.memDone i = i.core.memDoRinst := by
  rw [MemSys.memDone, Memory.memDone, Memory.memXfer, held.silent, released, held.waiting]
  simp

end Done

section Events

/-- The device access of the cycle. -/
def MemSys.events (b : MemSys) (i : MemInput) : List (Event (BitVec 32) Word) :=
  deviceEvents b.soc (b.pins i)

theorem events_silent (silent : b.mem.memValid = false) : b.events i = [] :=
  deviceEvents_silent silent

theorem events_ram (ram : b.mem.transaction.selRam = true) : b.events i = [] := by
  rw [MemSys.events, deviceEvents, pins_transaction, selSimio_of_ram ram, selAccel_of_ram ram]
  rfl

/-- A read is an access in its second cycle only. -/
theorem Asking.events_read (asking : Asking b state x) (read : x.isWrite = false) :
    b.events i = [] := by
  have none : b.soc.memReady (b.pins i) = false := asking.unanswered
  rw [MemSys.events, deviceEvents, pins_transaction, asking.carried, read, none, Bool.and_false]
  simp

theorem Answering.events_read (answering : Answering b state x) (mapped : mappedAddr x.addr)
    (read : x.isWrite = false) (device : (x.selSimio || x.selAccel) = true) :
    b.events i = [.got x.addr (b.memRdata i)] := by
  have up : (b.pins i).memValid = true := answering.valid
  have now : b.soc.memReady (b.pins i) = true := answering.answered mapped
  rw [MemSys.events, deviceEvents, pins_transaction, answering.carried, read, now, up]
  simp only [device, ↓reduceIte, Bool.false_eq_true, Bool.and_self]
  rfl

/-- A write is one in its first. -/
theorem Asking.events_write (asking : Asking b state x) (write : x.isWrite = true)
    (device : (x.selSimio || x.selAccel) = true) : b.events i = [.wrote x.addr x.wdata] := by
  have up : (b.pins i).memValid = true := asking.valid
  have none : b.soc.memReady (b.pins i) = false := asking.unanswered
  rw [MemSys.events, deviceEvents, pins_transaction, asking.carried, write, none, up]
  simp only [device, ↓reduceIte, Bool.not_false, Bool.and_self]

theorem Answering.events_write (answering : Answering b state x) (mapped : mappedAddr x.addr)
    (write : x.isWrite = true) : b.events i = [] := by
  have now : b.soc.memReady (b.pins i) = true := answering.answered mapped
  rw [MemSys.events, deviceEvents, pins_transaction, answering.carried, write, now]
  simp

/-- The RAM answers with its word. -/
theorem Answering.memRdata_ram (answering : Answering b state x) (read : x.isWrite = false)
    (ram : x.selRam = true) : b.memRdata i = b.soc.ram x.ramWordAddr := by
  rw [MemSys.memRdata, State.memRdata, pins_transaction, answering.carried, ram, if_pos rfl]
  exact answering.ready.read read

end Events

section Edges

theorem memRdataQ_edge (running : i.core.trap = false) (released : i.resetn = true) :
    (b.edge i).mem.memRdataQ =
      if b.mem.memXfer (b.memReady i) then b.memRdata i else b.mem.memRdataQ := by
  change (b.mem.edge i.resetn i.core (b.memReady i) (b.memRdata i)).memRdataQ = _
  rw [released]
  rcases memState_cases b.mem with idle | read | write | waiting
  · rw [edge_idle running idle]
  · rw [edge_read running read]
    split <;> rfl
  · rw [edge_write running write]
    split <;> rfl
  · rw [edge_prefetched running waiting]

theorem ram_silent (silent : b.mem.memValid = false) : (b.edge i).soc.ram = b.soc.ram :=
  (edge_silent (s := b.soc) (i := b.pins i) silent).1

theorem ram_valid (valid : b.mem.memValid = true) :
    (b.edge i).soc.ram = stored b.soc.ram b.mem.transaction :=
  ramNext_stored (s := b.soc) (i := b.pins i) valid

variable (released : i.resetn = true)

include released

theorem mem_edge : (b.edge i).mem = b.mem.edge true i.core (b.memReady i) (b.memRdata i) := by
  change b.mem.edge i.resetn i.core _ _ = _
  rw [released]

theorem Answering.over (answering : Answering b state x) : Quiet (b.edge i).soc := by
  have ready := answering.ready
  rw [← answering.carried] at ready
  exact Ready.over (i := b.pins i) released ready answering.valid

variable (running : i.core.trap = false)

include running

theorem Calm.rest (calm : Calm b) (none : i.core.memBusy = false) : Calm (b.edge i) := by
  rw [← busy_eq, Bool.or_eq_false_iff] at none
  have mem := mem_edge (b := b) released
  rw [edge_idle running calm.idle] at mem
  refine ⟨?_, ?_, quiet_silent (by exact released) (by exact calm.silent)⟩
  · simp [mem, none]
  · simp [mem, none, calm.silent]

theorem Calm.read (calm : Calm b) (reads : i.core.reads = true) (alone : i.core.memDoWdata = false) :
    Asking (b.edge i) 1 ⟨i.core.memLaAddr, b.mem.memWdata, 0⟩ := by
  have mem := mem_edge (b := b) released
  rw [edge_idle running calm.idle] at mem
  refine ⟨?_, ?_, ?_, quiet_silent (by exact released) (by exact calm.silent)⟩
  · simp [mem, reads, alone]
  · simp [mem, reads]
  · simp [mem, reads, alone, Memory.transaction]

theorem Calm.write (calm : Calm b) (writes : i.core.memDoWdata = true) (alone : i.core.reads = false) :
    Asking (b.edge i) 2 ⟨i.core.memLaAddr, i.core.memLaWdata, i.core.memLaWstrb⟩ := by
  have mem := mem_edge (b := b) released
  rw [edge_idle running calm.idle] at mem
  refine ⟨?_, ?_, ?_, quiet_silent (by exact released) (by exact calm.silent)⟩
  · simp [mem, writes]
  · simp [mem, writes]
  · simp [mem, writes, alone, Memory.transaction]

theorem Asking.edge (asking : Asking b state x) (waits : state = 1 ∨ state = 2) :
    Answering (b.edge i) state x := by
  have same : (b.edge i).mem = b.mem := by
    have none : b.mem.memXfer (b.memReady i) = false := by
      rw [asking.unanswered]
      exact Bool.and_false _
    rw [mem_edge released]
    rcases waits with rfl | rfl
    · rw [edge_read running asking.state, none]
      rfl
    · rw [edge_write running asking.state, none]
      rfl
  have ready := asking.quiet.asked (i := b.pins i) released asking.valid
  rw [pins_transaction, asking.carried] at ready
  exact ⟨same ▸ asking.state, same ▸ asking.valid, same ▸ asking.carried, ready⟩

variable (mapped : mappedAddr x.addr)

include mapped

theorem Answering.taken (answering : Answering b 1 x)
    (wants : (i.core.memDoRinst || i.core.memDoRdata) = true) : Calm (b.edge i) := by
  have mem := mem_edge (b := b) released
  rw [edge_read running answering.state, Memory.memXfer, answering.valid,
    answering.answered mapped, Bool.and_self, if_pos rfl, if_pos wants] at mem
  refine ⟨?_, ?_, answering.over released⟩
  · rw [mem]
  · rw [mem]

theorem Answering.held (answering : Answering b 1 x)
    (ahead : (i.core.memDoRinst || i.core.memDoRdata) = false) :
    Held (b.edge i) (b.memRdata i) := by
  have mem := mem_edge (b := b) released
  rw [edge_read running answering.state, Memory.memXfer, answering.valid,
    answering.answered mapped, Bool.and_self, if_pos rfl,
    if_neg (ahead ▸ Bool.false_ne_true)] at mem
  refine ⟨?_, ?_, answering.over released, ?_⟩
  · rw [mem]
  · rw [mem]
  · rw [mem]

theorem Answering.stored (answering : Answering b 2 x) : Calm (b.edge i) := by
  have mem := mem_edge (b := b) released
  rw [edge_write running answering.state, Memory.memXfer, answering.valid,
    answering.answered mapped, Bool.and_self, if_pos rfl] at mem
  refine ⟨?_, ?_, answering.over released⟩
  · rw [mem]
  · rw [mem]

omit mapped

theorem Held.edge (held : Held b word) (ahead : i.core.memDoRinst = false) : Held (b.edge i) word := by
  have mem := mem_edge (b := b) released
  rw [edge_prefetched running held.waiting, Memory.memXfer, held.silent, ahead] at mem
  refine ⟨?_, ?_, quiet_silent (by exact released) (by exact held.silent), ?_⟩
  · simp [mem]
  · simp [mem]
  · simp [mem, held.word]

theorem Held.taken (held : Held b word) (wants : i.core.memDoRinst = true) : Calm (b.edge i) := by
  have mem := mem_edge (b := b) released
  rw [edge_prefetched running held.waiting, wants] at mem
  refine ⟨?_, ?_, quiet_silent (by exact released) (by exact held.silent)⟩
  · simp [mem]
  · simp [mem, held.silent]

end Edges

end BlindSig.Picorv32

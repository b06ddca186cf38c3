import BlindSig.SocDirect

set_option autoImplicit false

/- The memory interface of picorv32.v at the parameters of soc_top.v (no
compressed instructions, no latched read data), and the SoC it drives. -/
namespace BlindSig.Picorv32

open Clocked ByteLanes Soc

/-- `mem_wordsize`: 0, 1 and 2. -/
inductive Wordsize where
  | word | half | byte
deriving DecidableEq

/-- What the interface reads of the rest of the core. -/
structure Core where
  trap : Bool
  memDoPrefetch : Bool
  memDoRinst : Bool
  memDoRdata : Bool
  memDoWdata : Bool
  memWordsize : Wordsize
  nextPc : Word
  regOp1 : Word
  regOp2 : Word

structure Memory where
  memState : BitVec 2
  memValid : Bool
  memInstr : Bool
  memAddr : BitVec 32
  memWdata : Word
  memWstrb : BitVec 4
  memRdataQ : Word

/-- `{a[31:2], 2'b00}`. -/
def wordAddr (a : BitVec 32) : BitVec 32 := a.extractLsb' 2 30 ++ 0#2

namespace Core

variable (c : Core)

/-- `mem_la_wdata`. -/
def memLaWdata : Word :=
  match c.memWordsize with
  | .word => c.regOp2
  | .half => c.regOp2.extractLsb' 0 16 ++ c.regOp2.extractLsb' 0 16
  | .byte => c.regOp2.extractLsb' 0 8 ++ c.regOp2.extractLsb' 0 8 ++ c.regOp2.extractLsb' 0 8 ++
      c.regOp2.extractLsb' 0 8

/-- `mem_la_wstrb`. -/
def memLaWstrb : BitVec 4 :=
  match c.memWordsize with
  | .word => 0b1111
  | .half => if c.regOp1.getLsbD 1 then 0b1100 else 0b0011
  | .byte => 0b0001#4 <<< c.regOp1.extractLsb' 0 2

/-- `mem_rdata_word`. -/
def memRdataWord (rdata : Word) : Word :=
  match c.memWordsize with
  | .word => rdata
  | .half => if c.regOp1.getLsbD 1 then (rdata.extractLsb' 16 16).setWidth 32
      else (rdata.extractLsb' 0 16).setWidth 32
  | .byte => (rdata.extractLsb' (8 * (c.regOp1.extractLsb' 0 2).toNat) 8).setWidth 32

/-- `mem_la_addr`. -/
def memLaAddr : BitVec 32 :=
  if c.memDoPrefetch || c.memDoRinst then wordAddr c.nextPc else wordAddr c.regOp1

end Core

namespace Memory

variable (m : Memory)

def memXfer (ready : Bool) : Bool := m.memValid && ready

def memDone (resetn : Bool) (c : Core) (ready : Bool) : Bool :=
  resetn && (m.memXfer ready && m.memState != 0 &&
      (c.memDoRinst || c.memDoRdata || c.memDoWdata) ||
    m.memState == 3 && c.memDoRinst)

def memLaWrite (resetn : Bool) (c : Core) : Bool := resetn && m.memState == 0 && c.memDoWdata

def memLaRead (resetn : Bool) (c : Core) : Bool :=
  resetn && m.memState == 0 && (c.memDoRinst || c.memDoPrefetch || c.memDoRdata)

/-- The look-ahead outputs are registered when a request begins. -/
def lookAhead (resetn : Bool) (c : Core) (n : Memory) : Memory :=
  let n :=
    if m.memLaRead resetn c || m.memLaWrite resetn c then
      { n with
        memAddr := c.memLaAddr
        memWstrb := if m.memLaWrite resetn c then c.memLaWstrb else 0 }
    else n
  if m.memLaWrite resetn c then { n with memWdata := c.memLaWdata } else n

/-- The `case` over `mem_state`. Reads the registers in `m`, assigns into `n`. -/
def stateCase (c : Core) (ready : Bool) (n : Memory) : Memory :=
  if m.memState = 0 then
    let n :=
      if c.memDoPrefetch || c.memDoRinst || c.memDoRdata then
        { n with
          memValid := true
          memInstr := c.memDoPrefetch || c.memDoRinst
          memWstrb := 0
          memState := 1 }
      else n
    if c.memDoWdata then { n with memValid := true, memInstr := false, memState := 2 } else n
  else if m.memState = 1 then
    if m.memXfer ready then
      { n with
        memValid := false
        memState := if c.memDoRinst || c.memDoRdata then 0 else 3 }
    else n
  else if m.memState = 2 then
    if m.memXfer ready then { n with memValid := false, memState := 0 } else n
  else
    if c.memDoRinst then { n with memState := 0 } else n

/-- One clock edge. The read data register has no reset. -/
def edge (resetn : Bool) (c : Core) (ready : Bool) (rdata : Word) : Memory :=
  let n := { m with memRdataQ := if m.memXfer ready then rdata else m.memRdataQ }
  if !resetn || c.trap then
    { n with
      memState := if !resetn then 0 else n.memState
      memValid := if !resetn || ready then false else n.memValid }
  else m.stateCase c ready (m.lookAhead resetn c n)

end Memory

/-- The SoC: the memory interface and the fabric it drives. -/
structure MemSys where
  mem : Memory
  soc : Soc.State

/-- What the environment and the rest of the core do in a cycle. -/
structure MemInput where
  resetn : Bool
  core : Core

namespace MemSys

def pins (t : MemSys) (i : MemInput) : Soc.Pins :=
  ⟨i.resetn, t.mem.memValid, t.mem.memAddr, t.mem.memWdata, t.mem.memWstrb⟩

def memReady (t : MemSys) (i : MemInput) : Bool := t.soc.memReady (t.pins i)

def memRdata (t : MemSys) (i : MemInput) : Word := t.soc.memRdata (t.pins i)

def memDone (t : MemSys) (i : MemInput) : Bool := t.mem.memDone i.resetn i.core (t.memReady i)

def edge (t : MemSys) (i : MemInput) : MemSys where
  mem := t.mem.edge i.resetn i.core (t.memReady i) (t.memRdata i)
  soc := t.soc.edge (t.pins i)

end MemSys

/-- One of the three regions answers at this address. -/
def mappedAddr (a : BitVec 32) : Prop :=
  a.extractLsb' 28 4 = 0 ∨ a.extractLsb' 28 4 = 1 ∨ a.extractLsb' 28 4 = 2

/-- `mem_busy`: the core asks for something. -/
def Core.memBusy (c : Core) : Bool :=
  c.memDoPrefetch || c.memDoRinst || c.memDoRdata || c.memDoWdata

variable {m : Memory} {c : Core}

/-- A read or a fetch is asked for. -/
def Core.reads (c : Core) : Bool := c.memDoPrefetch || c.memDoRinst || c.memDoRdata

/-- Outside state 0 nothing is registered. -/
theorem lookAhead_busy {n : Memory} (busy : m.memState ≠ 0) : m.lookAhead true c n = n := by
  have off : (m.memState == 0) = false := beq_eq_false_iff_ne.mpr busy
  have none : m.memLaRead true c = false ∧ m.memLaWrite true c = false := by
    rw [Memory.memLaRead, Memory.memLaWrite, off]
    exact ⟨rfl, rfl⟩
  rw [Memory.lookAhead, none.1, none.2]
  rfl

section Edge

variable {ready : Bool} {rdata : Word}

theorem edge_trapped (trapped : c.trap = true) : m.edge true c ready rdata =
    { m with
      memValid := if ready then false else m.memValid
      memRdataQ := if m.memXfer ready then rdata else m.memRdataQ } := by
  simp [Memory.edge, trapped]

variable (running : c.trap = false)

include running

theorem edge_running : m.edge true c ready rdata = m.stateCase c ready (m.lookAhead true c
    { m with memRdataQ := if m.memXfer ready then rdata else m.memRdataQ }) :=
  if_neg (by simp [running])

/-- In state 0 a request begins. -/
theorem edge_idle (idle : m.memState = 0) : m.edge true c ready rdata =
    { memState := if c.memDoWdata then 2 else if c.reads then 1 else 0
      memValid := c.memDoWdata || c.reads || m.memValid
      memInstr := if c.memDoWdata then false
        else if c.reads then c.memDoPrefetch || c.memDoRinst else m.memInstr
      memAddr := if c.memDoWdata || c.reads then c.memLaAddr else m.memAddr
      memWdata := if c.memDoWdata then c.memLaWdata else m.memWdata
      memWstrb := if c.reads then 0 else if c.memDoWdata then c.memLaWstrb else m.memWstrb
      memRdataQ := if m.memXfer ready then rdata else m.memRdataQ } := by
  have write : m.memLaWrite true c = c.memDoWdata := by
    rw [Memory.memLaWrite, idle]
    rfl
  have read : m.memLaRead true c = c.reads := by
    rw [Memory.memLaRead, idle, Core.reads, Bool.or_comm c.memDoRinst]
    rfl
  rw [edge_running running, Memory.stateCase, if_pos idle, Memory.lookAhead, read, write,
    show (c.memDoPrefetch || c.memDoRinst || c.memDoRdata) = c.reads from rfl]
  cases c.reads with
  | false =>
      cases c.memDoWdata with
      | false =>
          change Memory.mk m.memState _ _ _ _ _ _ = _
          rw [idle]
          rfl
      | true => rfl
  | true => cases c.memDoWdata <;> rfl

/-- In state 1 the answer ends a read, and the data of a prefetch waits in state 3. -/
theorem edge_read (reading : m.memState = 1) : m.edge true c ready rdata =
    if m.memXfer ready then
      { m with
        memState := if c.memDoRinst || c.memDoRdata then 0 else 3
        memValid := false
        memRdataQ := rdata }
    else m := by
  have busy : m.memState ≠ 0 := by simp [reading]
  rw [edge_running running, lookAhead_busy busy, Memory.stateCase, if_neg busy, if_pos reading]
  cases m.memXfer ready <;> rfl

/-- In state 2 the answer ends a write. -/
theorem edge_write (writing : m.memState = 2) : m.edge true c ready rdata =
    if m.memXfer ready then { m with memState := 0, memValid := false, memRdataQ := rdata }
    else m := by
  have busy : m.memState ≠ 0 := by simp [writing]
  rw [edge_running running, lookAhead_busy busy, Memory.stateCase, if_neg busy,
    if_neg (by simp [writing]), if_pos writing]
  cases m.memXfer ready <;> rfl

/-- In state 3 a fetch takes the prefetched word. -/
theorem edge_prefetched (waiting : m.memState = 3) : m.edge true c ready rdata =
    { m with
      memState := if c.memDoRinst then 0 else 3
      memRdataQ := if m.memXfer ready then rdata else m.memRdataQ } := by
  have busy : m.memState ≠ 0 := by simp [waiting]
  rw [edge_running running, lookAhead_busy busy, Memory.stateCase, if_neg busy,
    if_neg (by simp [waiting]), if_neg (by simp [waiting])]
  cases c.memDoRinst with
  | true => rfl
  | false =>
      change Memory.mk m.memState _ _ _ _ _ _ = _
      rw [waiting]
      rfl

end Edge

theorem memState_cases (m : Memory) :
    m.memState = 0 ∨ m.memState = 1 ∨ m.memState = 2 ∨ m.memState = 3 := by
  have all : ∀ v : BitVec 2, v = 0 ∨ v = 1 ∨ v = 2 ∨ v = 3 := by decide
  exact all m.memState

theorem busy_eq (c : Core) : (c.memDoWdata || c.reads) = c.memBusy := by
  rw [Core.memBusy, Core.reads, Bool.or_comm]

/-- A request is up only while the interface waits for its answer. -/
def Waits (m : Memory) : Prop := m.memValid = true → m.memState = 1 ∨ m.memState = 2

theorem waits_reset {rdata : Word} {ready : Bool} : Waits (m.edge false c ready rdata) := by
  intro valid
  simp [Memory.edge] at valid

/-- An unanswered request stands still, under a trap too. -/
theorem Waits.held (waits : Waits m) (valid : m.memValid = true) (rdata : Word) :
    m.edge true c false rdata = m := by
  have quiet : m.memXfer false = false := Bool.and_false _
  cases trapped : c.trap with
  | true =>
      rw [edge_trapped trapped, quiet]
      rfl
  | false =>
      rcases waits valid with read | write
      · rw [edge_read trapped read, quiet]
        rfl
      · rw [edge_write trapped write, quiet]
        rfl

theorem Waits.silent (waits : Waits m) (calm : m.memState = 0 ∨ m.memState = 3) :
    m.memValid = false := by
  apply eq_false_of_ne_true
  intro valid
  rcases waits valid with read | write <;> rcases calm with idle | waiting <;> simp_all

theorem Waits.edge (waits : Waits m) {ready : Bool} {rdata : Word} :
    Waits (m.edge true c ready rdata) := by
  cases trapped : c.trap with
  | true =>
      rw [edge_trapped trapped]
      cases ready with
      | true => exact fun valid => nomatch valid
      | false => exact waits
  | false =>
      rcases memState_cases m with idle | read | write | waiting
      · rw [edge_idle trapped idle, waits.silent (Or.inl idle), Bool.or_false]
        intro busy
        dsimp only at busy ⊢
        rw [Bool.or_eq_true] at busy
        split
        · exact Or.inr rfl
        · rename_i other
          rw [if_pos (busy.resolve_left other)]
          exact Or.inl rfl
      · rw [edge_read trapped read]
        split
        · exact fun valid => nomatch valid
        · exact waits
      · rw [edge_write trapped write]
        split
        · exact fun valid => nomatch valid
        · exact waits
      · have silent := waits.silent (Or.inr waiting)
        rw [edge_prefetched trapped waiting]
        intro valid
        rw [silent] at valid
        cases valid

end BlindSig.Picorv32

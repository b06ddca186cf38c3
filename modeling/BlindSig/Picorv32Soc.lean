import BlindSig.ClockedLeads
import BlindSig.Picorv32Decode

set_option autoImplicit false

namespace BlindSig.Picorv32

open Clocked Soc

structure SocTop where
  cpu : Cpu
  soc : Soc.State

namespace SocTop

variable (t : SocTop)

/-- The memory interface and the fabric. -/
def mem : MemSys := ⟨t.cpu.mem, t.soc⟩

def input (resetn : Bool) : MemInput := ⟨resetn, t.cpu.main.wires⟩

def edge (resetn : Bool) (x : Unknown) : SocTop where
  cpu := t.cpu.edge resetn (t.mem.memReady (t.input resetn)) (t.mem.memRdata (t.input resetn)) x
  soc := t.soc.edge (t.mem.pins (t.input resetn))

/-- Cycle `n` of a run from the power-up state. -/
def run (t : SocTop) (resetn : ℕ → Bool) (x : ℕ → Unknown) : ℕ → SocTop
  | 0 => t
  | n + 1 => (run t resetn x n).edge (resetn n) (x n)

/-- After the reset. -/
def step (t : SocTop) (x : Unknown) : SocTop := t.edge true x

def memDone : Bool := t.mem.memDone (t.input true)

def memRdata : Word := t.mem.memRdata (t.input true)

def events : List (Event (BitVec 32) Word) := t.mem.events (t.input true)

/-- The request, if there is one, stays within the three regions. -/
def InMap : Prop := t.cpu.mem.memValid = true → mappedAddr t.cpu.mem.memAddr

end SocTop

/-- Every run of the SoC from `t` on meets `Q`, with the device accesses up to
there behind it. -/
abbrev Meets (Q : List (Event (BitVec 32) Word) → SocTop → Prop)
    (past : List (Event (BitVec 32) Word)) (t : SocTop) : Prop :=
  Leads SocTop.step SocTop.InMap SocTop.events Q past t

variable {t : SocTop} {x : Unknown}

theorem step_main : (t.step x).cpu.main =
    t.cpu.main.edge t.cpu.decoder true t.memDone (t.cpu.main.wires.memRdataWord t.memRdata) x := rfl

theorem step_decoder : (t.step x).cpu.decoder =
    t.cpu.decoder.edge true (t.cpu.main.req.memDoRinst && t.memDone)
      (t.cpu.main.decoderTrigger && !t.cpu.main.decoderPseudoTrigger)
      (if t.cpu.mem.memXfer (t.mem.memReady (t.input true)) then t.memRdata else t.cpu.mem.memRdataQ)
      t.cpu.mem.memRdataQ x := rfl

section Meets

variable {Q : List (Event (BitVec 32) Word) → SocTop → Prop}
  {past : List (Event (BitVec 32) Word)}

/-- A cycle without a request. -/
theorem meets_silent (silent : t.cpu.mem.memValid = false) (next : ∀ x, Meets Q past (t.step x)) :
    Meets Q past t :=
  .quiet (fun valid => absurd valid (silent ▸ Bool.false_ne_true))
    (events_silent (b := t.mem) silent) next

/-- A cycle of a request in the map. -/
theorem inMap_of_carried {x : Transaction} (carried : t.cpu.mem.transaction = x)
    (mapped : mappedAddr x.addr) : t.InMap := by
  intro _
  rw [← carried] at mapped
  exact mapped

end Meets

def noRequests : Requests := ⟨false, false, false, false⟩

section Cycles

variable {m : Main} {d : Decoder} {done : Bool} {word : Word}

/-- A cycle that traps nothing. -/
theorem edge_eq (aligned : m.misaligned = false) : m.edge d true done word x =
    { m.stateCase d done word x (m.defaults d true done x) with
      req := m.finalRequests d true done x (m.stateCase d done word x (m.defaults d true done x)).req } := by
  rw [Main.edge, aligned]
  rfl

/-- In these states no request outlives the end of another one. -/
theorem finalRequests_plain (n : Requests)
    (plain : m.cpuState = .fetch ∨ m.cpuState = .ldRs1 ∨ m.cpuState = .shift) :
    m.finalRequests d true done x n = if done then noRequests else n := by
  rw [Main.finalRequests, Main.setMemDoRinst, Main.setMemDoRdata, Main.setMemDoWdata]
  rcases plain with state | state | state <;> rw [state] <;> cases done <;> rfl

/-- Without a request for data only the instruction address can be misaligned. -/
theorem aligned_of_pc (none : m.req.memDoRdata = false ∧ m.req.memDoWdata = false)
    (whole : m.regPc.extractLsb' 0 2 = 0) : m.misaligned = false := by
  simp [Main.misaligned, none, whole]

end Cycles

end BlindSig.Picorv32

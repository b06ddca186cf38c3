import BlindSig.Accel
import BlindSig.AccelStep
import BlindSig.ClockedHandshake

set_option autoImplicit false

/- blindsig_bus_wrap.v: the valid/ready adapter in front of the peripheral. -/
namespace BlindSig.BusWrap

open Clocked Accel

structure Transaction where
  addr : BitVec 5
  wdata : Word
  wstrb : BitVec 4
deriving DecidableEq

/-- `|bus_wstrb`. -/
def Transaction.isWrite (t : Transaction) : Bool := t.wstrb != 0

structure Pins where
  rstN : Bool
  busValid : Bool
  busAddr : BitVec 5
  busWdata : Word
  busWstrb : BitVec 4

def Pins.transaction (i : Pins) : Transaction := ⟨i.busAddr, i.busWdata, i.busWstrb⟩

def Pins.request (i : Pins) : Handshake.Request Transaction := ⟨i.busValid, i.transaction⟩

structure State where
  busReady : Bool
  accel : Accel.State

def State.accelWen (s : State) (i : Pins) : Bool := i.busValid && !s.busReady && i.busWstrb != 0

def State.accelRen (s : State) (i : Pins) : Bool := i.busValid && !s.busReady && i.busWstrb == 0

/-- The connections of the instance `accel`. -/
def State.accelPins (s : State) (i : Pins) : Accel.Pins :=
  ⟨i.rstN, i.busAddr, i.busWdata, s.accelWen i, s.accelRen i⟩

def State.busRdata (s : State) (i : Pins) : Word :=
  (s.accel.settle (s.accelPins i)).rdata i.busAddr

/-- `bus_ready` has a synchronous reset, the instance an asynchronous one. -/
def State.edge (s : State) (i : Pins) : State where
  busReady := if i.rstN then i.busValid && !s.busReady else false
  accel := s.accel.edge (s.accelPins i)

def State.reset : State := ⟨false, .reset⟩

def machine : Machine State Pins := ⟨.reset, State.edge⟩

/-- `r` cycles of reset after power-up, then a master that keeps to the rule. -/
structure Compliant (s : State) (ins : ℕ → Pins) (r : ℕ) : Prop where
  resets : 0 < r
  low : ∀ n < r, (ins n).rstN = false ∧ (ins n).busValid = false
  released : ∀ n, r ≤ n → (ins n).rstN = true
  holds : Handshake.Holds (fun n => (ins n).request) fun n => (machine.trace s ins n).busReady

/-- `bus_ready` in cycle `n` after the reset. -/
def ready (s : State) (ins : ℕ → Pins) (r n : ℕ) : Bool := (machine.trace s ins (r + n)).busReady

def requests (ins : ℕ → Pins) (r n : ℕ) : Handshake.Request Transaction := (ins (r + n)).request

/-- Cycle `n` after the reset is the first one of a transaction. -/
def opens (s : State) (ins : ℕ → Pins) (r n : ℕ) : Bool :=
  Handshake.opens (requests ins r) (ready s ins r) n

/-- The pins of the peripheral in cycle `n` after the reset. -/
def driven (s : State) (ins : ℕ → Pins) (r n : ℕ) : Accel.Pins :=
  (machine.trace s ins (r + n)).accelPins (ins (r + n))

/-- The single-cycle writes of a master without the adapter. -/
def direct (s : State) (ins : ℕ → Pins) (r n : ℕ) : Accel.Pins :=
  if opens s ins r n && (ins (r + n)).transaction.isWrite then
    busWrite (ins (r + n)).busAddr (ins (r + n)).busWdata
  else busIdle

/-- The adapter refines direct register access. -/
structure Refines (s : State) (ins : ℕ → Pins) (r : ℕ) : Prop where
  /-- A transaction is acknowledged in its second cycle, which is its last. -/
  acknowledged : ∀ n, opens s ins r n = true → ready s ins r n = false ∧
    ready s ins r (n + 1) = true ∧ requests ins r (n + 1) = requests ins r n ∧
    opens s ins r (n + 1) = false
  /-- Nothing else is acknowledged. -/
  answered : ready s ins r 0 = false ∧ ∀ n, ready s ins r (n + 1) = true → opens s ins r n = true
  /-- The first cycle of a write is the only one with `wen`. -/
  strobes : ∀ n, (driven s ins r n).wen = (opens s ins r n && (ins (r + n)).transaction.isWrite) ∧
    (driven s ins r n).addr = (ins (r + n)).busAddr ∧
    (driven s ins r n).wdata = (ins (r + n)).busWdata
  /-- No write is lost, doubled or overtaken. -/
  ordered : ∀ n, Handshake.record (fun k => (driven s ins r k).wen)
      (fun k => ((driven s ins r k).addr, (driven s ins r k).wdata)) n =
    ((Handshake.transactions (requests ins r) (ready s ins r) n).filter Transaction.isWrite).map
      fun t => (t.addr, t.wdata)
  states : ∀ n, (machine.trace s ins (r + n)).accel =
    Accel.machine.trace .reset (direct s ins r) n
  /-- The acknowledge cycle of a read shows the register of its address. -/
  reads : ∀ n, opens s ins r n = true → (ins (r + n)).transaction.isWrite = false →
    (machine.trace s ins (r + (n + 1))).busRdata (ins (r + (n + 1))) =
      (Accel.machine.trace .reset (direct s ins r) (n + 1)).rdata (ins (r + n)).busAddr

variable {s : State} {ins : ℕ → Pins} {r : ℕ}

/-- One cycle of reset is enough, whatever the power-up state. -/
theorem trace_reset (compliant : Compliant s ins r) : machine.trace s ins r = .reset := by
  obtain ⟨k, rfl⟩ : ∃ k, r = k + 1 := ⟨r - 1, by have := compliant.resets; omega⟩
  have low := (compliant.low k (Nat.lt_succ_self k)).1
  rw [Machine.trace_succ]
  change State.edge _ _ = _
  rw [State.edge, Accel.edge_held (by exact low), low]
  rfl

theorem answers_of_compliant (compliant : Compliant s ins r) :
    Handshake.Answers (requests ins r) (ready s ins r) := by
  constructor
  · rw [ready, Nat.add_zero, trace_reset compliant]
    rfl
  · intro n
    have released := compliant.released (r + n) (by omega)
    rw [ready, ← Nat.add_assoc, Machine.trace_succ]
    change (State.edge _ _).busReady = _
    rw [State.edge, released]
    rfl

/-- Address, data and `ren` of a cycle without a write do not matter. -/
theorem edge_of_silent {t : Accel.State} {i j : Accel.Pins} (released : i.rstN = j.rstN)
    (silent : i.wen = false) (silent' : j.wen = false) : t.edge i = t.edge j := by
  cases held : i.rstN with
  | false => rw [edge_held held, edge_held (released ▸ held)]
  | true =>
      have held' : j.rstN = true := released ▸ held
      rw [edge_eq held, edge_eq held', command_quiet silent, command_quiet silent']
      simp only [State.redmodInput, State.mulmodInput, held, held']

theorem wen_eq (compliant : Compliant s ins r) (n : ℕ) :
    (driven s ins r n).wen = (opens s ins r n && (ins (r + n)).transaction.isWrite) := by
  rw [opens, Handshake.opens_eq (answers_of_compliant compliant)]
  rfl

/-- In the first cycle of a write the adapter drives exactly that write. -/
theorem driven_write (compliant : Compliant s ins r) {n : ℕ} (opened : opens s ins r n = true)
    (write : (ins (r + n)).transaction.isWrite = true) :
    driven s ins r n = busWrite (ins (r + n)).busAddr (ins (r + n)).busWdata := by
  have released := compliant.released (r + n) (by omega)
  have wen : (machine.trace s ins (r + n)).accelWen (ins (r + n)) = true := by
    have strobe := wen_eq compliant n
    rw [opened, write] at strobe
    exact strobe
  have strobes : (ins (r + n)).busWstrb ≠ 0 := bne_iff_ne.mp write
  have ren : (machine.trace s ins (r + n)).accelRen (ins (r + n)) = false := by
    rw [State.accelRen, beq_eq_false_iff_ne.mpr strobes, Bool.and_false]
  rw [driven, State.accelPins, released, wen, ren]
  rfl

/-- The peripheral behind the adapter is in step with one that is driven directly. -/
theorem accel_eq (compliant : Compliant s ins r) (n : ℕ) :
    (machine.trace s ins (r + n)).accel = Accel.machine.trace .reset (direct s ins r) n := by
  induction n with
  | zero => rw [Nat.add_zero, trace_reset compliant]; rfl
  | succ n ih =>
      have released := compliant.released (r + n) (by omega)
      have strobe := wen_eq compliant n
      rw [← Nat.add_assoc, Machine.trace_succ, Machine.trace_succ, ← ih]
      change Accel.State.edge _ (driven s ins r n) = Accel.State.edge _ (direct s ins r n)
      unfold direct
      split
      · rename_i write
        rw [Bool.and_eq_true] at write
        rw [driven_write compliant write.1 write.2]
      · rename_i other
        rw [eq_false_of_ne_true other] at strobe
        exact edge_of_silent released strobe rfl

theorem holds_after_reset (compliant : Compliant s ins r) :
    Handshake.Holds (requests ins r) (ready s ins r) := by
  intro n valid waiting
  exact compliant.holds (r + n) valid waiting

theorem reads_register (compliant : Compliant s ins r) {n : ℕ} (opened : opens s ins r n = true) :
    (machine.trace s ins (r + (n + 1))).busRdata (ins (r + (n + 1))) =
      (Accel.machine.trace .reset (direct s ins r) (n + 1)).rdata (ins (r + n)).busAddr := by
  have released := compliant.released (r + (n + 1)) (by omega)
  have second : requests ins r (n + 1) = requests ins r n :=
    (holds_after_reset compliant).second (answers_of_compliant compliant) opened
  have addr : (ins (r + (n + 1))).busAddr = (ins (r + n)).busAddr :=
    congrArg (fun request => request.payload.addr) second
  rw [State.busRdata, State.settle, if_pos (by exact released), accel_eq compliant, addr]

/-- Every master that keeps to the rule, whatever its transactions and gaps,
reaches the registers as if it drove them directly. -/
theorem refines_of_compliant (compliant : Compliant s ins r) : Refines s ins r := by
  have answers := answers_of_compliant compliant
  refine ⟨?_, ⟨answers.init, ?_⟩, ?_, ?_, accel_eq compliant, ?_⟩
  · intro n opened
    refine ⟨Handshake.ready_of_opens answers opened, ?_,
      (holds_after_reset compliant).second answers opened, Handshake.opens_succ answers opened⟩
    rw [Handshake.ready_succ answers]
    exact opened
  · intro n acknowledged
    rwa [Handshake.ready_succ answers] at acknowledged
  · exact fun n => ⟨wen_eq compliant n, rfl, rfl⟩
  · exact Handshake.record_of_opens (wen_eq compliant) fun _ => rfl
  · exact fun n opened _ => reads_register compliant opened

/-- A write of 7 to MODULUS and, with `bus_valid` never dropping, a read of
STATUS, after one cycle of reset. -/
def writeThenRead : ℕ → Pins
  | 0 => ⟨false, false, 0, 0, 0⟩
  | 1 => ⟨true, true, addrModulus, 7, 15⟩
  | 2 => ⟨true, true, addrModulus, 7, 15⟩
  | 3 => ⟨true, true, addrStatus, 0, 0⟩
  | 4 => ⟨true, true, addrStatus, 0, 0⟩
  | _ => ⟨true, false, 0, 0, 0⟩

theorem writeThenRead_refines : Refines .reset writeThenRead 1 := by
  apply refines_of_compliant
  refine ⟨by decide, by decide, ?_, ?_⟩
  · intro n later
    match n with
    | 1 => rfl
    | 2 => rfl
    | 3 => rfl
    | 4 => rfl
    | _ + 5 => rfl
  · intro n valid waiting
    match n with
    | 0 => cases valid
    | 1 => rfl
    | 2 => exact absurd waiting (by decide +kernel)
    | 3 => rfl
    | 4 => exact absurd waiting (by decide +kernel)
    | _ + 5 => cases valid

end BlindSig.BusWrap

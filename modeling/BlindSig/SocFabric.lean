import BlindSig.BusWrap
import BlindSig.ByteLanes

set_option autoImplicit false

/- soc_top.v without the processor: address decode, RAM, sim I/O, the
accelerator behind its adapter, and the multiplexer of the answers. -/
namespace BlindSig.Soc

open Clocked ByteLanes

abbrev Byte := BitVec 8

structure Transaction where
  addr : BitVec 32
  wdata : Word
  wstrb : BitVec 4
deriving DecidableEq

/-- `mem_addr[31:28]`. -/
def Transaction.addrSel (t : Transaction) : BitVec 4 := t.addr.extractLsb' 28 4

def Transaction.selRam (t : Transaction) : Bool := t.addrSel == 0

def Transaction.selSimio (t : Transaction) : Bool := t.addrSel == 1

def Transaction.selAccel (t : Transaction) : Bool := t.addrSel == 2

/-- `mem_addr[13:2]`. -/
def Transaction.ramWordAddr (t : Transaction) : BitVec 12 := t.addr.extractLsb' 2 12

/-- `|mem_wstrb`. -/
def Transaction.isWrite (t : Transaction) : Bool := t.wstrb != 0

/-- `mem_wdata[7:0]`. -/
def Transaction.lowByte (t : Transaction) : Byte := t.wdata.setWidth 8

/-- What the processor drives in a cycle. -/
structure Pins where
  resetn : Bool
  memValid : Bool
  memAddr : BitVec 32
  memWdata : Word
  memWstrb : BitVec 4

def Pins.transaction (i : Pins) : Transaction := ⟨i.memAddr, i.memWdata, i.memWstrb⟩

def Pins.request (i : Pins) : Handshake.Request Transaction := ⟨i.memValid, i.transaction⟩

structure State where
  ram : BitVec 12 → Word
  ramRdata : Word
  ramReadyR : Bool
  simioReadyR : Bool
  simioHalt : Bool
  accelWrap : BusWrap.State
  /-- What `$write` has put out. -/
  printed : List Byte

/-- The four byte-wide assignments to the RAM word. -/
def writeBytes (word : Word) (t : Transaction) : Word :=
  (List.range 4).foldl (fun word j =>
    if t.wstrb.getLsbD j then setLane word j (lane t.wdata j) else word) word

/-- The connections of the instance `accel_wrap`. -/
def Pins.accelPins (i : Pins) : BusWrap.Pins :=
  ⟨i.resetn, i.memValid && i.transaction.selAccel, i.memAddr.extractLsb' 0 5, i.memWdata,
    i.memWstrb⟩

def State.ramNext (s : State) (i : Pins) : BitVec 12 → Word :=
  if i.memValid && i.transaction.selRam then
    fun a => if a = i.transaction.ramWordAddr then writeBytes (s.ram a) i.transaction else s.ram a
  else s.ram

/-- The condition of the sim I/O block. -/
def State.simioFires (s : State) (i : Pins) : Bool :=
  i.memValid && i.transaction.selSimio && i.transaction.isWrite && !s.simioReadyR

def State.edge (s : State) (i : Pins) : State where
  ram := s.ramNext i
  ramRdata := s.ram i.transaction.ramWordAddr
  ramReadyR := if i.resetn then i.memValid && i.transaction.selRam && !s.ramReadyR else false
  simioReadyR := if i.resetn then i.memValid && i.transaction.selSimio && !s.simioReadyR else false
  simioHalt :=
    if s.simioFires i then if i.transaction.lowByte = 0xFF then true else s.simioHalt
    else s.simioHalt
  accelWrap := s.accelWrap.edge i.accelPins
  printed :=
    if s.simioFires i then
      if i.transaction.lowByte = 0xFF then s.printed else s.printed ++ [i.transaction.lowByte]
    else s.printed

def State.memReady (s : State) (i : Pins) : Bool :=
  if i.transaction.selRam then s.ramReadyR
  else if i.transaction.selSimio then s.simioReadyR
  else if i.transaction.selAccel then s.accelWrap.busReady
  else false

def State.memRdata (s : State) (i : Pins) : Word :=
  if i.transaction.selRam then s.ramRdata
  else if i.transaction.selSimio then 0
  else if i.transaction.selAccel then s.accelWrap.busRdata i.accelPins
  else 0

/-- Cycle `n` of a run from the power-up state `s`. -/
def run (s : State) (ins : ℕ → Pins) : ℕ → State
  | 0 => s
  | n + 1 => (run s ins n).edge (ins n)

/-- The initial values: the firmware in the RAM and no halt. -/
structure PowerUp (image : BitVec 12 → Word) (s : State) : Prop where
  ram : s.ram = image
  simioHalt : s.simioHalt = false
  printed : s.printed = []

/-- `r` cycles of reset with valid low, then a master that keeps to the rule and
to the three regions. -/
structure Compliant (s : State) (ins : ℕ → Pins) (r : ℕ) : Prop where
  resets : 0 < r
  low : ∀ n < r, (ins n).resetn = false ∧ (ins n).memValid = false
  released : ∀ n, r ≤ n → (ins n).resetn = true
  mapped : ∀ n, r ≤ n → (ins n).memValid = true → (ins n).transaction.selRam = true ∨
    (ins n).transaction.selSimio = true ∨ (ins n).transaction.selAccel = true
  holds : Handshake.Holds (fun n => (ins n).request) fun n => (run s ins n).memReady (ins n)

/-- The fabric in cycle `n` after the reset. -/
def shown (s : State) (ins : ℕ → Pins) (r n : ℕ) : State := run s ins (r + n)

def requests (ins : ℕ → Pins) (r n : ℕ) : Handshake.Request Transaction := (ins (r + n)).request

def ready (s : State) (ins : ℕ → Pins) (r n : ℕ) : Bool := (shown s ins r n).memReady (ins (r + n))

/-- Cycle `n` after the reset is the first one of a transaction. -/
def opens (s : State) (ins : ℕ → Pins) (r n : ℕ) : Bool :=
  Handshake.opens (requests ins r) (ready s ins r) n

/-- The accelerator's write enable in cycle `n` after the reset. -/
def accelWen (s : State) (ins : ℕ → Pins) (r n : ℕ) : Bool :=
  (shown s ins r n).accelWrap.accelWen (ins (r + n)).accelPins

/-- The byte that a transaction writes to lane `j` of the RAM word `a`. -/
def Transaction.ramByte (a : BitVec 12) (j : ℕ) (t : Transaction) : Option Byte :=
  if t.selRam ∧ t.ramWordAddr = a ∧ t.wstrb.getLsbD j then some (lane t.wdata j) else none

def Transaction.writesSimio (t : Transaction) : Bool := t.selSimio && t.isWrite

def Transaction.prints (t : Transaction) : Bool := t.writesSimio && t.lowByte != 0xFF

def Transaction.halts (t : Transaction) : Bool := t.writesSimio && t.lowByte == 0xFF

variable {image : BitVec 12 → Word} {s : State} {ins : ℕ → Pins} {r : ℕ}

/-- An address is in one region at most. -/
theorem addrSel_exclusive {t : Transaction} {v w : BitVec 4} (selected : (t.addrSel == v) = true)
    (other : v ≠ w) : (t.addrSel == w) = false := by
  rw [beq_iff_eq.mp selected]
  exact beq_eq_false_iff_ne.mpr other

theorem selSimio_of_ram {t : Transaction} (ram : t.selRam = true) : t.selSimio = false :=
  addrSel_exclusive ram (by decide)

theorem selAccel_of_ram {t : Transaction} (ram : t.selRam = true) : t.selAccel = false :=
  addrSel_exclusive ram (by decide)

theorem selRam_of_simio {t : Transaction} (simio : t.selSimio = true) : t.selRam = false :=
  addrSel_exclusive simio (by decide)

theorem selAccel_of_simio {t : Transaction} (simio : t.selSimio = true) : t.selAccel = false :=
  addrSel_exclusive simio (by decide)

theorem selRam_of_accel {t : Transaction} (accel : t.selAccel = true) : t.selRam = false :=
  addrSel_exclusive accel (by decide)

theorem selSimio_of_accel {t : Transaction} (accel : t.selAccel = true) : t.selSimio = false :=
  addrSel_exclusive accel (by decide)

/-- A cycle without a request touches neither the memory nor the console. -/
theorem edge_silent {i : Pins} (silent : i.memValid = false) :
    (s.edge i).ram = s.ram ∧ (s.edge i).simioHalt = s.simioHalt ∧
      (s.edge i).printed = s.printed := by
  simp [State.edge, State.ramNext, State.simioFires, silent]

theorem run_low (compliant : Compliant s ins r) (powerUp : PowerUp image s) (n : ℕ) (inside : n ≤ r) :
    PowerUp image (run s ins n) := by
  induction n with
  | zero => exact powerUp
  | succ n ih =>
      obtain ⟨ram, halt, printed⟩ := ih (by omega)
      obtain ⟨ram', halt', printed'⟩ :=
        edge_silent (s := run s ins n) (compliant.low n (by omega)).2
      exact ⟨ram'.trans ram, halt'.trans halt, printed'.trans printed⟩

/-- One cycle of reset is enough for the ready registers and the accelerator. -/
theorem run_reset (compliant : Compliant s ins r) : (run s ins r).ramReadyR = false ∧
    (run s ins r).simioReadyR = false ∧ (run s ins r).accelWrap = .reset := by
  obtain ⟨k, rfl⟩ : ∃ k, r = k + 1 := ⟨r - 1, by have := compliant.resets; omega⟩
  have low := (compliant.low k (Nat.lt_succ_self k)).1
  change ((run s ins k).edge (ins k)).ramReadyR = false ∧
    ((run s ins k).edge (ins k)).simioReadyR = false ∧
    (run s ins k).accelWrap.edge (ins k).accelPins = .reset
  refine ⟨by simp [State.edge, low], by simp [State.edge, low], ?_⟩
  rw [BusWrap.State.edge, Accel.edge_held (by exact low)]
  simp [Pins.accelPins, low, BusWrap.State.reset]

/-- Each ready register is raised by an unanswered request to its own region. -/
theorem ready_registers (compliant : Compliant s ins r) (n : ℕ) :
    (shown s ins r (n + 1)).ramReadyR = ((requests ins r n).valid &&
      (requests ins r n).payload.selRam && !ready s ins r n) ∧
    (shown s ins r (n + 1)).simioReadyR = ((requests ins r n).valid &&
      (requests ins r n).payload.selSimio && !ready s ins r n) ∧
    (shown s ins r (n + 1)).accelWrap.busReady = ((requests ins r n).valid &&
      (requests ins r n).payload.selAccel && !ready s ins r n) := by
  have released := compliant.released (r + n) (by omega)
  change ((shown s ins r n).edge (ins (r + n))).ramReadyR = _ ∧
    ((shown s ins r n).edge (ins (r + n))).simioReadyR = _ ∧
    ((shown s ins r n).accelWrap.edge (ins (r + n)).accelPins).busReady = _
  have accel : ((shown s ins r n).accelWrap.edge (ins (r + n)).accelPins).busReady =
      ((ins (r + n)).memValid && (ins (r + n)).transaction.selAccel &&
        !(shown s ins r n).accelWrap.busReady) := by
    rw [BusWrap.State.edge]
    exact if_pos released
  rw [accel]
  simp only [State.edge, released, ↓reduceIte, requests, Pins.request, ready, State.memReady]
  cases ram : (ins (r + n)).transaction.selRam with
  | true =>
      rw [selSimio_of_ram ram, selAccel_of_ram ram]
      simp
  | false =>
      cases simio : (ins (r + n)).transaction.selSimio with
      | true =>
          rw [selAccel_of_simio simio]
          simp
      | false => cases (ins (r + n)).transaction.selAccel <;> simp

/-- Seen from the processor the fabric is one responder. -/
theorem answers_of_compliant (compliant : Compliant s ins r) :
    Handshake.Answers (requests ins r) (ready s ins r) := by
  constructor
  · obtain ⟨ram, simio, accel⟩ := run_reset compliant
    have low : (run s ins r).accelWrap.busReady = false := by rw [accel]; rfl
    simp [ready, shown, State.memReady, ram, simio, low]
  · intro n
    obtain ⟨ram, simio, accel⟩ := ready_registers compliant n
    cases request : (requests ins r n).valid && !ready s ins r n with
    | true =>
        rw [Bool.and_eq_true, Bool.not_eq_true'] at request
        obtain ⟨valid, waiting⟩ := request
        have held : (ins (r + (n + 1))).transaction = (ins (r + n)).transaction :=
          congrArg Handshake.Request.payload (compliant.holds (r + n) valid waiting)
        have region := compliant.mapped (r + n) (by omega) valid
        simp only [valid, waiting, Bool.true_and, Bool.not_false, Bool.and_true] at ram simio accel
        rw [ready, State.memReady, ram, simio, accel, held]
        simp only [requests, Pins.request]
        rcases region with selected | selected | selected
        · simp [selected]
        · simp [selected]
        · simp [selected]
    | false =>
        have low : ∀ selected : Bool,
            ((requests ins r n).valid && selected && !ready s ins r n) = false := by
          intro selected
          rw [Bool.and_right_comm, request, Bool.false_and]
        rw [low] at ram simio accel
        simp [ready, State.memReady, ram, simio, accel]

theorem holds_after_reset (compliant : Compliant s ins r) :
    Handshake.Holds (requests ins r) (ready s ins r) :=
  fun n valid waiting => compliant.holds (r + n) valid waiting

/-- What the fabric owes to every such master. -/
structure Serves (image : BitVec 12 → Word) (s : State) (ins : ℕ → Pins) (r : ℕ) : Prop where
  /-- A transaction is acknowledged in its second cycle, which is its last. -/
  acknowledged : ∀ n, opens s ins r n = true → ready s ins r n = false ∧
    ready s ins r (n + 1) = true ∧ requests ins r (n + 1) = requests ins r n ∧
    opens s ins r (n + 1) = false
  /-- Nothing else is acknowledged. -/
  answered : ready s ins r 0 = false ∧ ∀ n, ready s ins r (n + 1) = true → opens s ins r n = true
  /-- Each byte that a RAM read returns is the last one written there. -/
  reads : ∀ n, opens s ins r n = true → (requests ins r n).payload.selRam = true →
    (requests ins r n).payload.isWrite = false → ∀ j < 4,
      Handshake.LastPick (requests ins r) (ready s ins r)
        (Transaction.ramByte (requests ins r n).payload.ramWordAddr j)
        (lane (image (requests ins r n).payload.ramWordAddr) j) n
        (lane ((shown s ins r (n + 1)).memRdata (ins (r + (n + 1)))) j)
  /-- One character for each sim I/O write, in order, and no other. -/
  prints : ∀ n, (shown s ins r n).printed =
    ((Handshake.transactions (requests ins r) (ready s ins r) n).filter Transaction.prints).map
      Transaction.lowByte
  halts : ∀ n, (shown s ins r n).simioHalt =
    (Handshake.transactions (requests ins r) (ready s ins r) n).any Transaction.halts
  /-- A word of the RAM changes only under a RAM write to it. -/
  ramAlone : ∀ n a, (shown s ins r (n + 1)).ram a ≠ (shown s ins r n).ram a →
    (requests ins r n).valid = true ∧ (requests ins r n).payload.selRam = true ∧
      (requests ins r n).payload.isWrite = true ∧ (requests ins r n).payload.ramWordAddr = a
  /-- The accelerator sees the first cycle of each of its own writes. -/
  accelAlone : ∀ n, accelWen s ins r n = (opens s ins r n &&
    ((requests ins r n).payload.selAccel && (requests ins r n).payload.isWrite))

theorem lane_writeBytes (word : Word) (t : Transaction) {j : ℕ} (inside : j < 4) :
    lane (writeBytes word t) j = if t.wstrb.getLsbD j then lane t.wdata j else lane word j := by
  have listed : j ∈ List.range 4 := List.mem_range.mpr inside
  rw [writeBytes, lane_foldl_setLane (fun j => t.wstrb.getLsbD j) (lane t.wdata) (by omega)]
  simp only [listed, true_and]

theorem writeBytes_read {word : Word} {t : Transaction} (read : t.isWrite = false) :
    writeBytes word t = word := by
  have none : t.wstrb = 0 := by simpa [Transaction.isWrite] using read
  simp [writeBytes, none, List.range_succ]

theorem ramNext_apply (i : Pins) (a : BitVec 12) : s.ramNext i a =
    if i.memValid = true ∧ i.transaction.selRam = true ∧ i.transaction.ramWordAddr = a then
      writeBytes (s.ram a) i.transaction
    else s.ram a := by
  rw [State.ramNext]
  by_cases here : i.memValid = true ∧ i.transaction.selRam = true
  · rw [if_pos (Bool.and_eq_true_iff.mpr here)]
    simp only [here, true_and, eq_comm (a := a)]
  · rw [if_neg (fun both => here (Bool.and_eq_true_iff.mp both)),
      if_neg fun all => here ⟨all.1, all.2.1⟩]

/-- One edge, seen from one byte of the RAM. -/
theorem lane_ramNext (i : Pins) (a : BitVec 12) {j : ℕ} (inside : j < 4) :
    lane (s.ramNext i a) j =
      if i.memValid = true then (i.transaction.ramByte a j).getD (lane (s.ram a) j)
      else lane (s.ram a) j := by
  rw [ramNext_apply, Transaction.ramByte]
  by_cases valid : i.memValid = true
  · rw [if_pos valid]
    by_cases here : i.transaction.selRam = true ∧ i.transaction.ramWordAddr = a
    · rw [if_pos ⟨valid, here⟩, lane_writeBytes _ _ inside]
      by_cases strobe : i.transaction.wstrb.getLsbD j = true
      · rw [if_pos strobe, if_pos ⟨here.1, here.2, strobe⟩, Option.getD_some]
      · rw [if_neg strobe, if_neg fun all => strobe all.2.2, Option.getD_none]
    · rw [if_neg (fun all => here all.2), if_neg fun all => here ⟨all.1, all.2.1⟩,
        Option.getD_none]
  · rw [if_neg (fun all => valid all.1), if_neg valid]

/-- Both cycles of a RAM write do the same, so its bytes are those of the
last transaction. -/
theorem ram_last (compliant : Compliant s ins r) (powerUp : PowerUp image s) (a : BitVec 12) {j : ℕ}
    (inside : j < 4) (n : ℕ) :
    Handshake.LastPick (requests ins r) (ready s ins r) (Transaction.ramByte a j) (lane (image a) j)
      n (lane ((shown s ins r n).ram a) j) := by
  apply (holds_after_reset compliant).last_pick (answers_of_compliant compliant)
  · exact congrArg (fun ram => lane (ram a) j) (run_low compliant powerUp r (Nat.le_refl r)).ram
  · exact fun n => lane_ramNext (ins (r + n)) a inside

/-- The acknowledge cycle of a RAM read shows the word as it was when the
transaction began. -/
theorem memRdata_ram (compliant : Compliant s ins r) {n : ℕ} (opened : opens s ins r n = true)
    (ram : (requests ins r n).payload.selRam = true) :
    (shown s ins r (n + 1)).memRdata (ins (r + (n + 1))) =
      (shown s ins r n).ram (requests ins r n).payload.ramWordAddr := by
  have second : (ins (r + (n + 1))).transaction = (ins (r + n)).transaction :=
    congrArg Handshake.Request.payload
      ((holds_after_reset compliant).second (answers_of_compliant compliant) opened)
  rw [State.memRdata, second]
  exact if_pos ram

/-- The sim I/O block acts in the first cycle of each of its writes. -/
theorem simioFires_eq (compliant : Compliant s ins r) (n : ℕ) :
    (shown s ins r n).simioFires (ins (r + n)) =
      (opens s ins r n && (requests ins r n).payload.writesSimio) := by
  rw [opens, Handshake.opens_eq (answers_of_compliant compliant)]
  simp only [State.simioFires, requests, Pins.request, Transaction.writesSimio, ready,
    State.memReady]
  cases simio : (ins (r + n)).transaction.selSimio with
  | false => simp
  | true =>
      rw [if_neg (ne_true_of_eq_false (selRam_of_simio simio)), if_pos rfl, Bool.and_true,
        Bool.true_and, Bool.and_right_comm]

theorem printed_eq (compliant : Compliant s ins r) (powerUp : PowerUp image s) (n : ℕ) :
    (shown s ins r n).printed =
      ((Handshake.transactions (requests ins r) (ready s ins r) n).filter Transaction.prints).map
        Transaction.lowByte := by
  have fires : ∀ k, ((shown s ins r k).simioFires (ins (r + k)) &&
      (ins (r + k)).transaction.lowByte != 0xFF) =
        (opens s ins r k && (requests ins r k).payload.prints) := by
    intro k
    rw [simioFires_eq compliant, Bool.and_assoc]
    rfl
  rw [← Handshake.record_of_opens fires fun _ => rfl]
  induction n with
  | zero => exact (run_low compliant powerUp r (Nat.le_refl r)).printed
  | succ n ih =>
      rw [Handshake.record_succ, ← ih]
      change ((shown s ins r n).edge (ins (r + n))).printed = _
      rw [State.edge]
      cases (shown s ins r n).simioFires (ins (r + n)) with
      | false => simp
      | true =>
          by_cases stop : (ins (r + n)).transaction.lowByte = 255#8
          · simp [stop]
          · simp [stop, requests, Pins.request]

theorem simioHalt_eq (compliant : Compliant s ins r) (powerUp : PowerUp image s) (n : ℕ) :
    (shown s ins r n).simioHalt =
      (Handshake.transactions (requests ins r) (ready s ins r) n).any Transaction.halts := by
  induction n with
  | zero => exact (run_low compliant powerUp r (Nat.le_refl r)).simioHalt
  | succ n ih =>
      have fires := simioFires_eq compliant n
      rw [Handshake.transactions, Handshake.record_succ, List.any_append,
        ← Handshake.transactions, ← ih]
      change ((shown s ins r n).edge (ins (r + n))).simioHalt = _
      rw [State.edge, fires]
      cases opened : opens s ins r n with
      | false => simp [show Handshake.opens _ _ n = false from opened]
      | true =>
          simp only [show Handshake.opens _ _ n = true from opened, Transaction.halts,
            Bool.true_and, ↓reduceIte, List.any_cons, List.any_nil, Bool.or_false]
          cases (requests ins r n).payload.writesSimio with
          | false => simp
          | true =>
              by_cases stop : (ins (r + n)).transaction.lowByte = 255#8
              · simp [stop, requests, Pins.request]
              · simp [stop, requests, Pins.request, beq_eq_false_iff_ne.mpr stop]

theorem ram_changed {n : ℕ} {a : BitVec 12}
    (changed : (shown s ins r (n + 1)).ram a ≠ (shown s ins r n).ram a) :
    (requests ins r n).valid = true ∧ (requests ins r n).payload.selRam = true ∧
      (requests ins r n).payload.isWrite = true ∧
      (requests ins r n).payload.ramWordAddr = a := by
  change (shown s ins r n).ramNext (ins (r + n)) a ≠ _ at changed
  rw [ramNext_apply] at changed
  split at changed
  · rename_i here
    cases write : (ins (r + n)).transaction.isWrite with
    | false => exact absurd (writeBytes_read write) changed
    | true => exact ⟨here.1, here.2.1, write, here.2.2⟩
  · exact absurd rfl changed

theorem memReady_of_accel {i : Pins} (accel : i.transaction.selAccel = true) :
    s.memReady i = s.accelWrap.busReady := by
  simp [State.memReady, selRam_of_accel accel, selSimio_of_accel accel, accel]

theorem accelWen_eq (compliant : Compliant s ins r) (n : ℕ) :
    accelWen s ins r n = (opens s ins r n &&
      ((requests ins r n).payload.selAccel && (requests ins r n).payload.isWrite)) := by
  rw [opens, Handshake.opens_eq (answers_of_compliant compliant)]
  simp only [accelWen, BusWrap.State.accelWen, Pins.accelPins, requests, Pins.request, ready]
  cases accel : (ins (r + n)).transaction.selAccel with
  | false => simp
  | true =>
      rw [memReady_of_accel accel]
      simp [Transaction.isWrite, Pins.transaction]

theorem run_accelWrap (n : ℕ) : (run s ins n).accelWrap =
    BusWrap.machine.trace s.accelWrap (fun k => (ins k).accelPins) n := by
  induction n with
  | zero => rfl
  | succ n ih =>
      rw [Machine.trace_succ, ← ih]
      rfl

/-- The adapter in the fabric is driven by a master that keeps to its rule. -/
theorem accel_compliant (compliant : Compliant s ins r) :
    BusWrap.Compliant s.accelWrap (fun k => (ins k).accelPins) r := by
  refine ⟨compliant.resets, ?_, compliant.released, ?_⟩
  · intro n inside
    obtain ⟨low, silent⟩ := compliant.low n inside
    exact ⟨low, by simp [Pins.accelPins, silent]⟩
  · intro n valid waiting
    have requested : (ins n).memValid = true ∧ (ins n).transaction.selAccel = true :=
      Bool.and_eq_true_iff.mp valid
    have unanswered : (run s ins n).memReady (ins n) = false := by
      rw [memReady_of_accel requested.2, run_accelWrap]
      exact waiting
    have same : (ins (n + 1)).request = (ins n).request := compliant.holds n requested.1 unanswered
    have view : ∀ k, (ins k).accelPins.request =
        ⟨(ins k).request.valid && (ins k).request.payload.selAccel,
          (ins k).request.payload.addr.extractLsb' 0 5, (ins k).request.payload.wdata,
          (ins k).request.payload.wstrb⟩ := fun _ => rfl
    exact (view (n + 1)).trans (same ▸ (view n).symm)

/-- The accelerator in the fabric is in step with one whose registers the
processor drives directly. -/
theorem accel_in_step (compliant : Compliant s ins r) (n : ℕ) :
    (shown s ins r n).accelWrap.accel =
      Accel.machine.trace .reset (BusWrap.direct s.accelWrap (fun k => (ins k).accelPins) r) n := by
  rw [shown, run_accelWrap]
  exact BusWrap.accel_eq (accel_compliant compliant) n

/-- Every master that keeps to the rule sees byte-addressed memory, and causes
each side effect exactly once. -/
theorem serves_of_compliant (compliant : Compliant s ins r) (powerUp : PowerUp image s) :
    Serves image s ins r := by
  have answers := answers_of_compliant compliant
  refine ⟨?_, ⟨answers.init, ?_⟩, ?_, printed_eq compliant powerUp, simioHalt_eq compliant powerUp,
    fun n a changed => ram_changed changed, accelWen_eq compliant⟩
  · intro n opened
    refine ⟨Handshake.ready_of_opens answers opened, ?_,
      (holds_after_reset compliant).second answers opened, Handshake.opens_succ answers opened⟩
    rw [Handshake.ready_succ answers]
    exact opened
  · intro n acknowledged
    rwa [Handshake.ready_succ answers] at acknowledged
  · intro n opened ram _ j inside
    rw [memRdata_ram compliant opened ram]
    exact ram_last compliant powerUp _ inside n

/-- After one cycle of reset: two bytes written to the RAM and read back with
no gap, a character, and the halt. -/
def storeAndPrint : ℕ → Pins
  | 0 => ⟨false, false, 0, 0, 0⟩
  | 1 => ⟨true, true, 0x10, 0x44332211, 5⟩
  | 2 => ⟨true, true, 0x10, 0x44332211, 5⟩
  | 3 => ⟨true, true, 0x10, 0, 0⟩
  | 4 => ⟨true, true, 0x10, 0, 0⟩
  | 5 => ⟨true, true, 0x10000000, 0x41, 1⟩
  | 6 => ⟨true, true, 0x10000000, 0x41, 1⟩
  | 7 => ⟨true, true, 0x10000000, 0xFF, 1⟩
  | 8 => ⟨true, true, 0x10000000, 0xFF, 1⟩
  | _ => ⟨true, false, 0, 0, 0⟩

def blank : State := ⟨fun _ => 0, 0, true, true, false, .reset, []⟩

theorem storeAndPrint_serves : Serves (fun _ => 0) blank storeAndPrint 1 := by
  apply serves_of_compliant
  · refine ⟨by decide, by decide, ?_, ?_, ?_⟩
    · intro n later
      match n with
      | 1 | 2 | 3 | 4 | 5 | 6 | 7 | 8 => rfl
      | _ + 9 => rfl
    · intro n later valid
      match n with
      | 1 | 2 | 3 | 4 => exact Or.inl (by decide)
      | 5 | 6 | 7 | 8 => exact Or.inr (Or.inl (by decide))
      | _ + 9 => cases valid
    · intro n valid waiting
      match n with
      | 0 => cases valid
      | 1 | 3 | 5 | 7 => rfl
      | 2 | 4 | 6 | 8 => exact absurd waiting (by decide +kernel)
      | _ + 9 => cases valid
  · exact ⟨rfl, rfl, rfl⟩

end BlindSig.Soc

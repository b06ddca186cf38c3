import BlindSig.ClockedSchedule
import BlindSig.DriverCompute
import BlindSig.SocFabric

set_option autoImplicit false

/- What soc_top.v is for the program on its processor: an accelerator and a
console behind single accesses, whatever memory traffic lies between them. -/
namespace BlindSig.Soc

open Clocked Accel

def simioBase : BitVec 32 := 0x10000000#32

def accelBase : BitVec 32 := 0x20000000#32

/-- The devices without the fabric: the accelerator, and what has been written to
the console. -/
structure Devices where
  accel : Accel.State
  written : List Byte

def Devices.printed (s : Devices) : List Byte := s.written.filter (· != 0xFF)

def Devices.halted (s : Devices) : Bool := s.written.contains 0xFF

/-- The offset of an address in the accelerator's region. -/
def Transaction.offset (t : Transaction) : BitVec 5 := t.addr.extractLsb' 0 5

/-- The pins of the accelerator under an access. -/
def Transaction.accelPins (t : Transaction) : Accel.Pins :=
  if t.selAccel then if t.isWrite then busWrite t.offset t.wdata else busRead t.offset
  else busIdle

def Devices.edge (s : Devices) : Option Transaction → Devices
  | none => { s with accel := s.accel.edge busIdle }
  | some t =>
    { accel := s.accel.edge t.accelPins
      written := if t.writesSimio then s.written ++ [t.lowByte] else s.written }

def Devices.reset : Devices := ⟨.reset, []⟩

def Devices.rdata (s : Devices) : Option Transaction → Word
  | none => 0
  | some t => if t.selAccel then s.accel.rdata t.offset else 0

/-- The devices as a program reaches them. -/
def devices : Bus Devices (Option Transaction) (BitVec 32) Word Unit where
  device := ⟨.reset, Devices.edge⟩
  write addr data := some ⟨addr, data, 0xF⟩
  read addr := some ⟨addr, 0, 0⟩
  idle _ := none
  rdata := Devices.rdata

variable {image : BitVec 12 → Word} {s : State} {ins : ℕ → Pins} {r : ℕ}

/-- What cycle `n` after the reset does to a device: a write takes effect in the
first cycle of its transaction, a read in the second. -/
def access (s : State) (ins : ℕ → Pins) (r n : ℕ) : Cycle (BitVec 32) Word Unit :=
  let t := (requests ins r n).payload
  if t.selSimio || t.selAccel then
    if t.isWrite then if opens s ins r n then .write t.addr t.wdata else .idle ()
    else if (requests ins r n).valid && ready s ins r n then .read t.addr else .idle ()
  else .idle ()

def accesses (s : State) (ins : ℕ → Pins) (r n : ℕ) : List (Cycle (BitVec 32) Word Unit) :=
  (List.range n).map (access s ins r)

/-- The same with the data the processor is given. -/
def event (s : State) (ins : ℕ → Pins) (r n : ℕ) : Option (Event (BitVec 32) Word) :=
  match access s ins r n with
  | .write addr data => some (.wrote addr data)
  | .read addr => some (.got addr ((shown s ins r n).memRdata (ins (r + n))))
  | .idle _ => none

/-- The device accesses of the first `n` cycles after the reset, in order. -/
def events (s : State) (ins : ℕ → Pins) (r n : ℕ) : List (Event (BitVec 32) Word) :=
  (List.range n).filterMap (event s ins r)

/-- The devices as the fabric has them. -/
structure Devices.In (t : Devices) (s : State) : Prop where
  accel : s.accelWrap.accel = t.accel
  printed : s.printed = t.printed
  simioHalt : s.simioHalt = t.halted

theorem accesses_succ (n : ℕ) :
    accesses s ins r (n + 1) = accesses s ins r n ++ [access s ins r n] := by
  simp [accesses, List.range_succ]

theorem events_succ (n : ℕ) :
    events s ins r (n + 1) = events s ins r n ++ (event s ins r n).toList := by
  rw [events, List.range_succ, List.filterMap_append]
  cases fired : event s ins r n <;> simp [events, fired]

section Congr

variable {ins' : ℕ → Pins}

/-- Later cycles do not matter. -/
theorem run_congr {n : ℕ} (same : ∀ k < n, ins k = ins' k) : run s ins n = run s ins' n := by
  induction n with
  | zero => rfl
  | succ n ih =>
      rw [run, run, ih fun k before => same k (Nat.lt_succ_of_lt before), same n (Nat.lt_succ_self n)]

theorem ready_congr {n : ℕ} (same : ∀ k ≤ r + n, ins k = ins' k) :
    ready s ins r n = ready s ins' r n := by
  rw [ready, ready, shown, shown, run_congr fun k before => same k (Nat.le_of_lt before),
    same (r + n) (Nat.le_refl _)]

theorem opens_congr {n : ℕ} (same : ∀ k ≤ r + n, ins k = ins' k) :
    opens s ins r n = opens s ins' r n := by
  cases n with
  | zero =>
      change (ins r).memValid = (ins' r).memValid
      rw [same r (Nat.le_refl r)]
  | succ n =>
      have earlier : ∀ k ≤ r + n, ins k = ins' k := fun k before => same k (by omega)
      change ((ins (r + (n + 1))).memValid && !((ins (r + n)).memValid && !ready s ins r n)) =
        ((ins' (r + (n + 1))).memValid && !((ins' (r + n)).memValid && !ready s ins' r n))
      rw [same (r + (n + 1)) (Nat.le_refl _), same (r + n) (by omega), ready_congr earlier]

theorem event_congr {n : ℕ} (same : ∀ k ≤ r + n, ins k = ins' k) :
    event s ins r n = event s ins' r n := by
  have request : requests ins r n = requests ins' r n :=
    congrArg Pins.request (same (r + n) (Nat.le_refl _))
  have cycle : access s ins r n = access s ins' r n := by
    rw [access, access, request, opens_congr same, ready_congr same]
  rw [event, event, cycle, shown, shown, run_congr fun k before => same k (Nat.le_of_lt before),
    same (r + n) (Nat.le_refl _)]

theorem events_congr {n : ℕ} (same : ∀ k < r + n, ins k = ins' k) :
    events s ins r n = events s ins' r n := by
  induction n with
  | zero => rfl
  | succ n ih =>
      rw [events_succ, events_succ, ih fun k before => same k (by omega),
        event_congr fun k upTo => same k (by omega)]

end Congr

/-- A write enable of the adapter is a single-cycle write. -/
theorem accelPins_of_wen {w : BusWrap.State} {i : BusWrap.Pins} (released : i.rstN = true)
    (wen : w.accelWen i = true) : w.accelPins i = busWrite i.busAddr i.busWdata := by
  have strobes : i.busWstrb ≠ 0 := by
    rw [BusWrap.State.accelWen, Bool.and_eq_true] at wen
    exact bne_iff_ne.mp wen.2
  have ren : w.accelRen i = false := by
    rw [BusWrap.State.accelRen, beq_eq_false_iff_ne.mpr strobes, Bool.and_false]
  rw [BusWrap.State.accelPins, released, wen, ren]
  rfl

/-- The accelerator in the fabric takes the writes of its own transactions, each
in the first cycle. -/
theorem accel_edge (compliant : Compliant s ins r) (n : ℕ) (t : Accel.State) :
    t.edge ((shown s ins r n).accelWrap.accelPins (ins (r + n)).accelPins) =
      t.edge (if opens s ins r n && (requests ins r n).payload.isWrite then
        (requests ins r n).payload.accelPins else busIdle) := by
  have released := compliant.released (r + n) (by omega)
  have wen := accelWen_eq compliant n
  cases strobe : accelWen s ins r n with
  | true =>
      rw [strobe, eq_comm, Bool.and_eq_true, Bool.and_eq_true] at wen
      obtain ⟨opened, accel, write⟩ := wen
      rw [opened, write, Bool.true_and, if_pos rfl, Transaction.accelPins, accel, write, if_pos rfl,
        if_pos rfl, accelPins_of_wen released strobe]
      rfl
  | false =>
      rw [BusWrap.edge_of_silent (j := busIdle) released strobe rfl]
      rw [strobe] at wen
      split
      · rename_i written
        obtain ⟨opened, write⟩ := Bool.and_eq_true_iff.mp written
        rw [opened, write, Bool.true_and, Bool.and_true] at wen
        rw [Transaction.accelPins, ← wen, if_neg Bool.false_ne_true]
      · rfl

/-- A program's write carries the strobes of a whole word. -/
theorem whole_write {t : Transaction} (write : t.isWrite = true) :
    (⟨t.addr, t.wdata, 0xF⟩ : Transaction).accelPins = t.accelPins ∧
      (⟨t.addr, t.wdata, 0xF⟩ : Transaction).writesSimio = t.writesSimio := by
  have whole : (⟨t.addr, t.wdata, 0xF⟩ : Transaction).isWrite = true := rfl
  simp only [Transaction.accelPins, Transaction.writesSimio, whole, write]
  exact ⟨rfl, rfl⟩

/-- A read leaves the devices as an idle cycle does. -/
theorem edge_read (t : Devices) (addr : BitVec 32) :
    t.edge (devices.read addr) = t.edge none := by
  have quiet : t.accel.edge (⟨addr, 0, 0⟩ : Transaction).accelPins = t.accel.edge busIdle := by
    unfold Transaction.accelPins
    split
    · exact BusWrap.edge_of_silent rfl rfl rfl
    · rfl
  change Devices.mk _ _ = Devices.mk _ _
  rw [quiet]
  simp [Transaction.writesSimio, Transaction.isWrite]

/-- The console acts in the first cycle of each of its writes. -/
theorem console_edge (compliant : Compliant s ins r) (n : ℕ) :
    (shown s ins r (n + 1)).printed = (if opens s ins r n && (requests ins r n).payload.prints then
      (shown s ins r n).printed ++ [(requests ins r n).payload.lowByte]
      else (shown s ins r n).printed) ∧
    (shown s ins r (n + 1)).simioHalt =
      ((shown s ins r n).simioHalt || opens s ins r n && (requests ins r n).payload.halts) := by
  have fires := simioFires_eq compliant n
  change ((shown s ins r n).edge (ins (r + n))).printed = _ ∧
    ((shown s ins r n).edge (ins (r + n))).simioHalt = _
  rw [State.edge, fires]
  cases opens s ins r n with
  | false => simp
  | true =>
      rw [Bool.true_and, Transaction.prints, Transaction.halts]
      cases (requests ins r n).payload.writesSimio with
      | false => simp
      | true =>
          by_cases stop : (ins (r + n)).transaction.lowByte = 255#8
          · simp [stop, requests, Pins.request]
          · simp [stop, requests, Pins.request, beq_eq_false_iff_ne.mpr stop]

/-- What a write to the console adds to what it shows. -/
theorem written_edge (t : Devices) (x : Transaction) :
    (t.edge (some x)).printed = (if x.prints then t.printed ++ [x.lowByte] else t.printed) ∧
      (t.edge (some x)).halted = (t.halted || x.halts) := by
  change ((if x.writesSimio then t.written ++ [x.lowByte] else t.written).filter _) = _ ∧
    ((if x.writesSimio then t.written ++ [x.lowByte] else t.written).contains _) = _
  unfold Transaction.prints Transaction.halts Devices.printed Devices.halted
  cases x.writesSimio with
  | false => simp
  | true =>
      by_cases stop : x.lowByte = 255#8
      · simp [stop]
      · have other : ¬255#8 = x.lowByte := fun same => stop same.symm
        simp [stop, other]

/-- One cycle of the fabric is one of the devices. -/
theorem Devices.In.edge {t : Devices} (compliant : Compliant s ins r) {n : ℕ}
    (agree : t.In (shown s ins r n)) :
    (t.edge (devices.pins (access s ins r n))).In (shown s ins r (n + 1)) := by
  have accel : (shown s ins r (n + 1)).accelWrap.accel = t.accel.edge (if opens s ins r n &&
      (requests ins r n).payload.isWrite then (requests ins r n).payload.accelPins else busIdle) := by
    rw [← agree.accel, ← accel_edge compliant n]
    rfl
  obtain ⟨printed, halt⟩ := console_edge compliant n
  rw [agree.printed] at printed
  rw [agree.simioHalt] at halt
  cases write : (requests ins r n).payload.isWrite with
  | false =>
      have quiet : (requests ins r n).payload.prints = false ∧
          (requests ins r n).payload.halts = false := by
        simp [Transaction.prints, Transaction.halts, Transaction.writesSimio, write]
      have idle : t.edge (devices.pins (access s ins r n)) = t.edge none := by
        unfold access
        simp only [write, Bool.false_eq_true, ↓reduceIte]
        split
        · split
          · exact edge_read t _
          · rfl
        · rfl
      rw [write, Bool.and_false, if_neg Bool.false_ne_true] at accel
      rw [quiet.1, Bool.and_false, if_neg Bool.false_ne_true] at printed
      rw [quiet.2, Bool.and_false, Bool.or_false] at halt
      rw [idle]
      exact ⟨accel, printed, halt⟩
  | true =>
      rw [write, Bool.and_true] at accel
      cases opened : opens s ins r n with
      | false =>
          have idle : access s ins r n = .idle () := by
            simp [access, write, opened]
          rw [opened, if_neg Bool.false_ne_true] at accel
          rw [opened, Bool.false_and, if_neg Bool.false_ne_true] at printed
          rw [opened, Bool.false_and, Bool.or_false] at halt
          rw [idle]
          exact ⟨accel, printed, halt⟩
      | true =>
          rw [opened, if_pos rfl] at accel
          rw [opened, Bool.true_and] at printed halt
          cases device : (requests ins r n).payload.selSimio || (requests ins r n).payload.selAccel with
          | true =>
              obtain ⟨pins, writes⟩ := whole_write write
              have written : access s ins r n =
                  .write (requests ins r n).payload.addr (requests ins r n).payload.wdata := by
                simp only [access, device, write, opened, ↓reduceIte]
              have shows := written_edge t ⟨(requests ins r n).payload.addr,
                (requests ins r n).payload.wdata, 0xF⟩
              simp only [Transaction.prints, Transaction.halts, writes] at shows
              rw [written]
              refine ⟨?_, printed.trans shows.1.symm, halt.trans shows.2.symm⟩
              rw [accel, ← pins]
              rfl
          | false =>
              obtain ⟨simio, other⟩ := Bool.or_eq_false_iff.mp device
              have idle : access s ins r n = .idle () := by
                simp only [access, device, Bool.false_eq_true, ↓reduceIte]
              simp only [Transaction.accelPins, other, Bool.false_eq_true, ↓reduceIte] at accel
              simp only [Transaction.prints, Transaction.halts, Transaction.writesSimio, simio,
                Bool.false_and, Bool.false_eq_true, ↓reduceIte, Bool.or_false] at printed halt
              rw [idle]
              exact ⟨accel, printed, halt⟩

theorem access_read {n : ℕ} {addr : BitVec 32} (read : access s ins r n = .read addr) :
    addr = (requests ins r n).payload.addr ∧
      ((requests ins r n).payload.selSimio || (requests ins r n).payload.selAccel) = true := by
  unfold access at read
  dsimp only at read
  split at read
  · rename_i device
    split at read
    · split at read <;> cases read
    · split at read
      · cases read
        exact ⟨rfl, device⟩
      · cases read
  · cases read

/-- The data of a device read. -/
theorem memRdata_device {t : Devices} (compliant : Compliant s ins r) {n : ℕ}
    (agree : t.In (shown s ins r n))
    (device : ((requests ins r n).payload.selSimio || (requests ins r n).payload.selAccel) = true) :
    (shown s ins r n).memRdata (ins (r + n)) =
      t.rdata (devices.read (requests ins r n).payload.addr) := by
  have released := compliant.released (r + n) (by omega)
  change _ = if (ins (r + n)).transaction.selAccel then
    t.accel.rdata (ins (r + n)).transaction.offset else 0
  change ((ins (r + n)).transaction.selSimio || (ins (r + n)).transaction.selAccel) = true at device
  unfold State.memRdata
  cases accel : (ins (r + n)).transaction.selAccel with
  | true =>
      rw [selRam_of_accel accel, selSimio_of_accel accel]
      simp only [Bool.false_eq_true, ↓reduceIte, BusWrap.State.busRdata, Accel.State.settle]
      rw [if_pos (by exact released), agree.accel]
      rfl
  | false =>
      rw [accel, Bool.or_false] at device
      rw [selRam_of_simio device, device]
      rfl

/-- The cycle of a read shows the data the processor is given. -/
theorem event_eq {t : Devices} (compliant : Compliant s ins r) {n : ℕ}
    (agree : t.In (shown s ins r n)) :
    event s ins r n = devices.event t (access s ins r n) := by
  unfold event
  cases cycle : access s ins r n with
  | idle e => rfl
  | write addr data => rfl
  | read addr =>
      obtain ⟨rfl, device⟩ := access_read cycle
      exact congrArg (fun data => some (Event.got _ data)) (memRdata_device compliant agree device)

/-- The console never takes anything back. -/
theorem written_prefix (t : Devices) (cycles : List (Cycle (BitVec 32) Word Unit)) :
    t.written <+: (devices.play t cycles).written := by
  induction cycles generalizing t with
  | nil => exact List.prefix_rfl
  | cons c cycles ih =>
      refine List.IsPrefix.trans ?_ (ih (t.edge (devices.pins c)))
      cases devices.pins c with
      | none => exact List.prefix_rfl
      | some x =>
          change _ <+: if x.writesSimio then _ else _
          split
          · exact List.prefix_append _ _
          · exact List.prefix_rfl

/-- The fabric refines the devices: in step with them cycle by cycle, and with
the same data for every read. -/
theorem fabric_devices (compliant : Compliant s ins r) (powerUp : PowerUp image s) (n : ℕ) :
    (devices.play .reset (accesses s ins r n)).In (shown s ins r n) ∧
      devices.events .reset (accesses s ins r n) = events s ins r n := by
  induction n with
  | zero =>
      obtain ⟨-, -, accel⟩ := run_reset compliant
      obtain ⟨-, halt, printed⟩ := run_low compliant powerUp r (Nat.le_refl r)
      exact ⟨⟨congrArg BusWrap.State.accel accel, printed, halt⟩, rfl⟩
  | succ n ih =>
      obtain ⟨agree, trace⟩ := ih
      rw [accesses_succ, Bus.play_append, Bus.events_append, events_succ, trace,
        event_eq compliant agree]
      exact ⟨agree.edge compliant, by simp [Bus.events]⟩

/-- What a program ensures holds in the fabric once the processor has made the
accesses of that program. -/
theorem devices_of_follow {β : Type} {p : Prog (BitVec 32) Word β} {P : Devices → Prop}
    {Q : β → Devices → Prop} (triple : devices.Triple P p Q)
    (stable : ∀ value, devices.Stable (Q value)) (start : P .reset)
    (compliant : Compliant s ins r) (powerUp : PowerUp image s) {n : ℕ} {value : β}
    (follows : p.follow (events s ins r n) = some (.pure value)) :
    ∃ t : Devices, t.In (shown s ins r n) ∧ Q value t := by
  obtain ⟨agree, trace⟩ := fabric_devices compliant powerUp n
  refine ⟨_, agree, triple.of_follow stable start ?_⟩
  rw [trace]
  exact follows

/-- What the console shows before that is the beginning of what it will show. -/
theorem written_of_prefix {β : Type} {p q : Prog (BitVec 32) Word β} {P : Devices → Prop}
    {text : List Byte} (triple : devices.Triple P p fun _ s => s.written = text)
    (start : P .reset) (compliant : Compliant s ins r) (powerUp : PowerUp image s) {n : ℕ}
    (follows : p.follow (events s ins r n) = some q) :
    ∃ t : Devices, t.In (shown s ins r n) ∧ t.written <+: text := by
  obtain ⟨agree, trace⟩ := fabric_devices compliant powerUp n
  refine ⟨_, agree, ?_⟩
  rw [← trace] at follows
  obtain ⟨more, -, final⟩ := triple.of_prefix (fun _ _ _ now => now) start follows
  rw [← final]
  exact written_prefix _ more

/-- A store to the console. -/
theorem edge_simio (t : Devices) (data : Word) : t.edge (devices.write simioBase data) =
    ⟨t.accel.edge busIdle, t.written ++ [data.setWidth 8]⟩ := by
  have region : simioBase.extractLsb' 28 4 = 1 := by decide
  have here : (⟨simioBase, data, 0xF⟩ : Transaction).selAccel = false ∧
      (⟨simioBase, data, 0xF⟩ : Transaction).writesSimio = true := by
    rw [Transaction.selAccel, Transaction.writesSimio, Transaction.selSimio, Transaction.addrSel,
      region]
    exact ⟨rfl, rfl⟩
  change Devices.mk (t.accel.edge (Transaction.accelPins _)) (if Transaction.writesSimio _ then _ else _) = _
  rw [Transaction.accelPins, here.1, here.2]
  rfl

/-- The address of a register of the accelerator. -/
def register (offset : BitVec 5) : BitVec 32 := accelBase + offset.setWidth 32

theorem register_region : ∀ offset : BitVec 5, (register offset).extractLsb' 28 4 = 2 ∧
    (register offset).extractLsb' 0 5 = offset := by
  decide

/-- The console is no part of an access to the accelerator. -/
theorem selSimio_register (offset : BitVec 5) (data : Word) (strobes : BitVec 4) :
    (⟨register offset, data, strobes⟩ : Transaction).selAccel = true ∧
      (⟨register offset, data, strobes⟩ : Transaction).offset = offset ∧
      (⟨register offset, data, strobes⟩ : Transaction).selSimio = false := by
  obtain ⟨region, offset'⟩ := register_region offset
  refine ⟨?_, offset', ?_⟩
  · rw [Transaction.selAccel, Transaction.addrSel, region]
    rfl
  · rw [Transaction.selSimio, Transaction.addrSel, region]
    rfl

/-- The driver's peripheral is the accelerator among the devices. -/
theorem accel_part :
    Bus.Part devices Driver.bus Devices.accel register fun _ => (⟨0, 0, false⟩ : Driver.Idle) := by
  constructor
  · intro s offset data
    obtain ⟨accel, here, -⟩ := selSimio_register offset data 0xF
    change s.accel.edge (Transaction.accelPins _) = s.accel.edge (busWrite offset data)
    rw [Transaction.accelPins, accel, here]
    rfl
  · intro s offset
    obtain ⟨accel, here, -⟩ := selSimio_register offset 0 0
    change s.accel.edge (Transaction.accelPins _) = s.accel.edge (busRead offset)
    rw [Transaction.accelPins, accel, here]
    rfl
  · intro s offset
    obtain ⟨accel, here, -⟩ := selSimio_register offset 0 0
    change (if Transaction.selAccel _ then s.accel.rdata (Transaction.offset _) else 0) =
      s.accel.rdata offset
    rw [accel, here]
    rfl
  · intro s e
    rfl

/-- Exactly `text` has been written to the console. -/
def Wrote (text : List Byte) (s : Devices) : Prop := s.written = text

variable {text : List Byte}

/-- A console on its way to `text` and the halt shows a part of `text`, and all of
it once it has halted. -/
theorem printed_of_prefix {t : Devices} (clean : 0xFF ∉ text)
    (begun : t.written <+: text ++ [0xFF]) :
    t.printed <+: text ∧ (t.halted = true → t.printed = text) := by
  have kept : text.filter (· != 0xFF) = text := by
    apply List.filter_eq_self.mpr
    intro c inside
    exact bne_iff_ne.mpr fun stop => clean (stop ▸ inside)
  unfold Devices.printed Devices.halted
  rcases List.prefix_concat_iff.mp begun with complete | partly
  · have shown : (text ++ [0xFF]).filter (· != 0xFF) = text := by
      rw [List.filter_append, kept]
      exact List.append_nil text
    rw [complete, shown]
    exact ⟨List.prefix_rfl, fun _ => rfl⟩
  · refine ⟨kept ▸ partly.filter (· != 0xFF), fun halted => ?_⟩
    exact absurd (partly.subset (List.contains_iff_mem.mp halted)) clean

theorem stable_wrote : devices.Stable (Wrote text) :=
  fun _ _ wrote => wrote

theorem wrote_accel {x : Transaction} {t : Devices} (simio : x.selSimio = false)
    (wrote : Wrote text t) : Wrote text (t.edge (some x)) := by
  change (if x.writesSimio then _ else _) = _
  rw [Transaction.writesSimio, simio, Bool.false_and, if_neg Bool.false_ne_true]
  exact wrote

/-- The driver on the SoC: what it does to the accelerator, with the console as it was. -/
theorem triple_driver {β : Type} {p : Driver.Access β} {P : Accel.State → Prop}
    {Q : β → Accel.State → Prop} (triple : Driver.bus.Triple P p Q) :
    devices.Triple (fun s => P s.accel ∧ Wrote text s) (p.mapAddr register)
      fun value s => Q value s.accel ∧ Wrote text s :=
  accel_part.triple triple stable_wrote
    (fun _ offset data wrote => wrote_accel (selSimio_register offset data 0xF).2.2 wrote)
    (fun _ offset wrote => wrote_accel (selSimio_register offset 0 0).2.2 wrote)

end BlindSig.Soc

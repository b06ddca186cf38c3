import BlindSig.AccelReset
import BlindSig.DriverPolling
import BlindSig.DriverSuccess
import BlindSig.HexText
import BlindSig.SocMaster

set_option autoImplicit false

/- The two integration tests, test_accel.c and main.rs, with the halt that start.S
performs once main has returned. -/
namespace BlindSig.FirmwareTest

open Clocked Accel Soc

abbrev Io := Prog (BitVec 32) Word

/-- The bytes of a string literal. -/
def utf8 (s : String) : List Byte := (s.toList.flatMap String.utf8EncodeChar).map UInt8.toBitVec

/-- A store of a character to SIMIO. -/
def simio (c : Byte) : Io Unit := Prog.store simioBase (c.setWidth 32)

def regCtrl : BitVec 32 := accelBase + 0x00
def regStatus : BitVec 32 := accelBase + 0x04
def regOperand : BitVec 32 := accelBase + 0x08
def regResult : BitVec 32 := accelBase + 0x0C
def regModulus : BitVec 32 := accelBase + 0x10

/-- The characters before the terminating zero. -/
def printStr : List Byte → Io Unit
  | [] => return ()
  | c :: s => do
      if c = 0 then
        return ()
      else
        simio c
        printStr s

def hexDigit (nibble : Word) : Byte :=
  let nibble := nibble &&& 0xF
  if nibble < 10 then (0x30 + nibble).setWidth 8 else (0x61 + (nibble - 10)).setWidth 8

/-- The loop over the shifts `i`. -/
def printDigits (val : Word) : List ℕ → Io Unit
  | [] => return ()
  | i :: rest => do
      simio (hexDigit (val >>> i))
      printDigits val rest

def printHex (val : Word) : Io Unit := do
  printStr (utf8 "0x")
  printDigits val [28, 24, 20, 16, 12, 8, 4, 0]

/-- Steps 1 to 4. -/
def prepare (modulus operand : Word) : Io Unit := do
  Prog.store regCtrl Driver.ctrlReset
  Prog.store regCtrl Driver.ctrlLoadMod
  Prog.store regModulus modulus
  Prog.store regCtrl Driver.ctrlLoadOp
  Prog.store regOperand operand
  Prog.store regCtrl Driver.ctrlStart

/-- Step 5, cut off after `polls` reads of STATUS. -/
def waitWhileBusy : ℕ → Io Bool
  | 0 => return false
  | polls + 1 => do
      if (← Prog.load regStatus) &&& Driver.statusBusy != 0 then
        waitWhileBusy polls
      else
        return true

/-- Step 6. -/
def checkResult : Io Unit := do
  let status ← Prog.load regStatus
  if status &&& Driver.statusError != 0 then
    printStr (utf8 "FAIL: accelerator reported error\n")
  else if status &&& Driver.statusDone == 0 then
    printStr (utf8 "FAIL: not busy but not done either\n")
  else
    let result ← Prog.load regResult
    printStr (utf8 "result = ")
    printHex result
    printStr (utf8 "\n")
    if result = 2 then
      printStr (utf8 "PASS\n")
    else
      printStr (utf8 "FAIL: expected 2, got ")
      printHex result
      printStr (utf8 "\n")

/-- `main` of test_accel.c over any modulus and operand; `false` if the polls ran out. -/
def mainWith (polls : ℕ) (modulus operand : Word) : Io Bool := do
  printStr (utf8 "blindsig-soc: integration test\n")
  prepare modulus operand
  if ← waitWhileBusy polls then
    checkResult
    return true
  else
    return false

def main (polls : ℕ) : Io Bool := mainWith polls 7 10

/-- What start.S does around `main`: afterwards 0xFF goes to the sim I/O. -/
def boot (main : Io Bool) : Io Bool := do
  if ← main then
    simio 0xFF
    return true
  else
    return false

namespace Rust

def simPutc (c : Byte) : Io Unit := Prog.store simioBase (c.setWidth 32)

def simPutAll : List Byte → Io Unit
  | [] => return ()
  | b :: rest => do
      simPutc b
      simPutAll rest

def simPrintStr (s : String) : Io Unit := simPutAll (utf8 s)

/-- The character of one nibble. -/
def nibbleChar (val : Word) (i : ℕ) : Byte :=
  let nibble := val >>> (i * 4) &&& 0xF
  if nibble < 10 then 0x30 + nibble.setWidth 8 else 0x61 + (nibble.setWidth 8 - 10)

def simPrintHex (val : Word) : Io Unit := do
  simPrintStr "0x"
  simPutAll ((List.range 8).reverse.map (nibbleChar val))

def report : Except Unit Word → Io Unit
  | .ok result => do
      simPrintStr "result = "
      simPrintHex result
      simPrintStr "\n"
      if result = 2 then
        simPrintStr "PASS\n"
      else
        simPrintStr "FAIL: expected 2, got "
        simPrintHex result
        simPrintStr "\n"
  | .error () => simPrintStr "FAIL: accelerator reported error\n"

/-- `main` of main.rs over any slices. -/
def mainWith (polls : ℕ) (modulus operand : List Word) : Io Bool := do
  simPrintStr "blindsig-soc: rust integration test\n"
  match ← (Driver.compute polls modulus operand).mapAddr register with
  | some outcome =>
      report outcome
      return true
  | none => return false

def main (polls : ℕ) : Io Bool := mainWith polls [7] [10]

end Rust

/-- What both tests print about an outcome. -/
def hexText (val : Word) : List Byte :=
  utf8 "0x" ++ (HexText.format 8 val.toNat).map fun c => BitVec.ofNat 8 c.toNat

def verdict : Except Unit Word → List Byte
  | .ok result => utf8 "result = " ++ hexText result ++ utf8 "\n" ++
      if result = 2 then utf8 "PASS\n"
      else utf8 "FAIL: expected 2, got " ++ hexText result ++ utf8 "\n"
  | .error () => utf8 "FAIL: accelerator reported error\n"

/-- The modular square, or the refusal of a zero modulus. -/
def squareOutcome (x m : Word) : Except Unit Word :=
  if m = 0 then .error () else .ok (BitVec.ofNat 32 (x.toNat * x.toNat % m.toNat))

variable {P : Accel.State → Prop} {text : List Byte} {x m v : Word}

/-- A character goes to the console and leaves the accelerator to itself. -/
theorem triple_simio (stable : Driver.bus.Stable P) (c : Byte) :
    devices.Triple (fun s => P s.accel ∧ Wrote text s) (simio c)
      fun _ s => P s.accel ∧ Wrote (text ++ [c]) s := by
  refine Bus.triple_store (fun s e now => ⟨stable s.accel ⟨0, 0, false⟩ now.1, now.2⟩) ?_
  rintro s ⟨now, rfl⟩
  have byte : (c.setWidth 32).setWidth 8 = c := by
    rw [BitVec.setWidth_setWidth_of_le _ (by decide), BitVec.setWidth_eq]
  change P (s.edge (devices.write simioBase (c.setWidth 32))).accel ∧
    Wrote _ (s.edge (devices.write simioBase (c.setWidth 32)))
  rw [edge_simio, byte]
  exact ⟨stable s.accel ⟨0, 0, false⟩ now, rfl⟩

theorem triple_simPutAll (stable : Driver.bus.Stable P) (bytes : List Byte) :
    devices.Triple (fun t => P t.accel ∧ Wrote text t) (Rust.simPutAll bytes)
      fun _ t => P t.accel ∧ Wrote (text ++ bytes) t := by
  induction bytes generalizing text with
  | nil => exact Bus.triple_pure fun t now => by rwa [List.append_nil]
  | cons c bytes ih =>
      rw [List.append_cons]
      exact Bus.triple_bind (triple_simio stable c) fun _ => ih

/-- Up to the terminating zero the two languages print alike. -/
theorem printStr_eq {s : List Byte} (solid : 0 ∉ s) : printStr s = Rust.simPutAll s := by
  induction s with
  | nil => rfl
  | cons c s ih =>
      have other : c ≠ 0 := fun zero => solid (zero ▸ List.mem_cons_self)
      rw [printStr, if_neg other, ih fun inside => solid (List.mem_cons_of_mem c inside)]
      rfl

theorem printDigits_eq (val : Word) (shifts : List ℕ) :
    printDigits val shifts = Rust.simPutAll (shifts.map fun i => hexDigit (val >>> i)) := by
  induction shifts with
  | nil => rfl
  | cons i shifts ih =>
      rw [printDigits, ih]
      rfl

theorem nibble_eq (val : Word) (i : ℕ) :
    val >>> i &&& 0xF = BitVec.ofNat 32 (val.toNat / 2 ^ i % 16) := by
  have mask : ∀ n : ℕ, n &&& 15 = n % 16 := fun n => Nat.and_two_pow_sub_one_eq_mod n 4
  have low : (0xF : Word).toNat = 15 := rfl
  apply BitVec.eq_of_toNat_eq
  rw [BitVec.toNat_and, low, mask, BitVec.toNat_ushiftRight, BitVec.toNat_ofNat,
    Nat.shiftRight_eq_div_pow]
  omega

/-- Both ways to make the character of a nibble. -/
theorem digitChar_eq : ∀ digit < 16,
    (if BitVec.ofNat 32 digit < 10 then (0x30 + BitVec.ofNat 32 digit).setWidth 8
      else (0x61 + (BitVec.ofNat 32 digit - 10)).setWidth 8 : Byte) =
        BitVec.ofNat 8 (Nat.digitChar digit).toNat ∧
    (if BitVec.ofNat 32 digit < 10 then 0x30 + (BitVec.ofNat 32 digit).setWidth 8
      else 0x61 + ((BitVec.ofNat 32 digit).setWidth 8 - 10) : Byte) =
        BitVec.ofNat 8 (Nat.digitChar digit).toNat := by
  decide

theorem hexDigit_shift (val : Word) (i : ℕ) : hexDigit (val >>> i) =
    BitVec.ofNat 8 (Nat.digitChar (val.toNat / 2 ^ i % 16)).toNat := by
  rw [← (digitChar_eq _ (Nat.mod_lt _ (by decide))).1, hexDigit, nibble_eq]

theorem nibbleChar_eq (val : Word) (k : ℕ) : Rust.nibbleChar val k =
    BitVec.ofNat 8 (Nat.digitChar (val.toNat / 16 ^ k % 16)).toNat := by
  rw [← (digitChar_eq _ (Nat.mod_lt _ (by decide))).2, Rust.nibbleChar, nibble_eq, Nat.mul_comm,
    Nat.pow_mul]

/-- The loop over the shifts prints the digits from the highest to the lowest. -/
theorem digits_eq (val : Word) : [28, 24, 20, 16, 12, 8, 4, 0].map (fun i => hexDigit (val >>> i)) =
    (HexText.format 8 val.toNat).map fun c => BitVec.ofNat 8 c.toNat := by
  have shifts : [28, 24, 20, 16, 12, 8, 4, 0] = (List.range 8).reverse.map (4 * ·) := rfl
  rw [HexText.format_eq (by decide) val.isLt, shifts, List.map_map, List.map_map]
  apply List.map_congr_left
  intro k _
  rw [Function.comp_apply, Function.comp_apply, hexDigit_shift, Nat.pow_mul]

theorem nibbles_eq (val : Word) : (List.range 8).reverse.map (Rust.nibbleChar val) =
    (HexText.format 8 val.toNat).map fun c => BitVec.ofNat 8 c.toNat := by
  rw [HexText.format_eq (by decide) val.isLt, List.map_map]
  exact List.map_congr_left fun k _ => nibbleChar_eq val k

/-- The two hexadecimal printers are one. -/
theorem printHex_eq (val : Word) : printHex val = Rust.simPrintHex val := by
  rw [printHex, printStr_eq (by decide), printDigits_eq, digits_eq, ← nibbles_eq]
  rfl

/-- What test_accel.c prints about a result is what main.rs prints. -/
theorem printResult_eq (result : Word) : (do
      printStr (utf8 "result = ")
      printHex result
      printStr (utf8 "\n")
      if result = 2 then
        printStr (utf8 "PASS\n")
      else
        printStr (utf8 "FAIL: expected 2, got ")
        printHex result
        printStr (utf8 "\n")) = Rust.report (.ok result) := by
  simp only [Rust.report, printHex_eq]
  rw [printStr_eq (by decide), printStr_eq (by decide), printStr_eq (by decide),
    printStr_eq (by decide)]
  rfl

theorem triple_simPrintHex (stable : Driver.bus.Stable P) (val : Word) :
    devices.Triple (fun t => P t.accel ∧ Wrote text t) (Rust.simPrintHex val)
      fun _ t => P t.accel ∧ Wrote (text ++ hexText val) t := by
  rw [hexText, ← nibbles_eq, ← List.append_assoc]
  exact Bus.triple_bind (triple_simPutAll stable _) fun _ => triple_simPutAll stable _

/-- The report, whatever the outcome. -/
theorem triple_report (stable : Driver.bus.Stable P) (outcome : Except Unit Word) :
    devices.Triple (fun t => P t.accel ∧ Wrote text t) (Rust.report outcome)
      fun _ t => P t.accel ∧ Wrote (text ++ verdict outcome) t := by
  cases outcome with
  | error reason => exact triple_simPutAll stable _
  | ok result =>
      rw [verdict, ← List.append_assoc, ← List.append_assoc, ← List.append_assoc]
      refine Bus.triple_bind (triple_simPutAll stable _) fun _ => ?_
      refine Bus.triple_bind (triple_simPrintHex stable result) fun _ => ?_
      refine Bus.triple_bind (triple_simPutAll stable _) fun _ => ?_
      split
      · exact triple_simPutAll stable _
      · rw [← List.append_assoc, ← List.append_assoc]
        refine Bus.triple_bind (triple_simPutAll stable _) fun _ => ?_
        refine Bus.triple_bind (triple_simPrintHex stable result) fun _ => ?_
        exact triple_simPutAll stable _

/-- The polling loop of test_accel.c on the registers alone. -/
def waitIdle : ℕ → Driver.Access Bool
  | 0 => return false
  | polls + 1 => do
      if ← Driver.isBusy then
        waitIdle polls
      else
        return true

theorem waitWhileBusy_eq (polls : ℕ) : waitWhileBusy polls = (waitIdle polls).mapAddr register := by
  induction polls with
  | zero => rfl
  | succ polls ih =>
      rw [waitWhileBusy, ih]
      change Prog.read regStatus _ = Prog.read (register Driver.regStatus) _
      congr 1
      funext data
      change (if data &&& Driver.statusBusy != 0 then _ else _) =
        (if data &&& Driver.statusBusy != 0 then _ else _ : Driver.Access Bool).mapAddr register
      split <;> rfl

/-- An operation has ended. -/
def Settled (x m : Word) (s : Accel.State) : Prop :=
  if m = 0 then Refused x s else Finished (squareValue x m) s

theorem stable_settled : Driver.bus.Stable (Settled x m) := by
  unfold Settled
  split
  · exact Driver.stable_refused
  · exact Driver.stable_finished

/-- A poll in flight brings the outcome nearer. -/
theorem triple_isBusy_landing {n : ℕ} : Driver.bus.Triple (Driver.Landing x m n) Driver.isBusy
    fun busy s => if busy then 0 < n ∧ Driver.Landing x m (n - 1) s
      else Finished (squareValue x m) s := by
  refine Driver.triple_isBusy Driver.stable_landing ?_
  rintro s ⟨k, within, flight⟩
  rw [flight.flagBusy]
  rcases Nat.eq_zero_or_pos k with rfl | airborne
  · exact Driver.edge_read_finished flight.landed _
  · rw [if_pos (by simpa using Nat.ne_of_gt airborne)]
    exact ⟨by omega, k - 1, by omega, flight.edge rfl rfl⟩

theorem triple_waitIdle_landing {n polls : ℕ} (enough : n < polls) :
    Driver.bus.Triple (Driver.Landing x m n) (waitIdle polls)
      fun ended s => ended = true ∧ Finished (squareValue x m) s := by
  induction polls generalizing n with
  | zero => omega
  | succ polls ih =>
      refine Bus.triple_bind triple_isBusy_landing ?_
      rintro (_ | _)
      · exact Bus.triple_pure fun s now => ⟨rfl, now⟩
      · intro gap k s now
        have airborne : 0 < n := now.1
        exact ih (n := n - 1) (by omega) gap k s now.2

/-- The loop ends with the operation. -/
theorem triple_waitIdle {polls : ℕ} (enough : 69 ≤ polls) :
    Driver.bus.Triple (Driver.Started x m) (waitIdle polls)
      fun ended s => ended = true ∧ Settled x m s := by
  unfold Driver.Started Settled
  split
  · obtain ⟨more, rfl⟩ : ∃ more, polls = more + 1 := ⟨polls - 1, by omega⟩
    refine Bus.triple_bind (Q := fun busy s => busy = false ∧ Refused x s)
      (Driver.triple_isBusy Driver.stable_refused fun _ now =>
        ⟨now.loaded.flagBusy, Driver.edge_read_refused now _⟩) ?_
    rintro (_ | _)
    · exact Bus.triple_pure fun s now => ⟨rfl, now.2⟩
    · exact Bus.triple_absurd (by simp)
  · refine Bus.triple_pre ?_ (triple_waitIdle_landing enough)
    exact fun s flight => ⟨68, Nat.le_refl 68, flight⟩

theorem status_done (s : Accel.State) : (s.status &&& Driver.statusDone == 0) = !s.flagDone := by
  unfold State.status
  cases s.flagBusy <;> cases s.flagDone <;> cases s.flagError <;> decide

/-- A read of a register on the SoC. -/
theorem triple_load (stable : Driver.bus.Stable P) (offset : BitVec 5)
    {Q : Word → Accel.State → Prop}
    (step : ∀ s, P s → Q (s.rdata offset) (s.edge (busRead offset))) :
    devices.Triple (fun t => P t.accel ∧ Wrote text t) (Prog.load (register offset))
      fun data t => Q data t.accel ∧ Wrote text t :=
  triple_driver (Driver.triple_mmioRead stable step)

theorem triple_checkResult_finished : devices.Triple (fun t => Finished v t.accel ∧ Wrote text t)
    checkResult fun _ t => Finished v t.accel ∧ Wrote (text ++ verdict (.ok v)) t := by
  refine Bus.triple_bind (triple_load Driver.stable_finished Driver.regStatus
    (Q := fun status s => (status &&& Driver.statusError != 0) = false ∧
      (status &&& Driver.statusDone == 0) = false ∧ Finished v s) ?_) ?_
  · intro s finished
    change (s.status &&& Driver.statusError != 0) = false ∧ (s.status &&& Driver.statusDone == 0) = false ∧ _
    rw [Driver.status_error, status_done, finished.flagDone]
    exact ⟨finished.flagError, rfl, Driver.edge_read_finished finished _⟩
  · intro status
    cases failed : status &&& Driver.statusError != 0 with
    | true => exact Bus.triple_absurd (by simp)
    | false =>
        cases undone : status &&& Driver.statusDone == 0 with
        | true => exact Bus.triple_absurd (by simp)
        | false =>
            simp only [Bool.false_eq_true, ↓reduceIte]
            refine Bus.triple_pre (fun t now => ⟨now.1.2.2, now.2⟩)
              (Bus.triple_bind (triple_load Driver.stable_finished Driver.regResult
                (Q := fun result s => result = v ∧ Finished v s)
                fun s now => ⟨now.result, Driver.edge_read_finished now _⟩) ?_)
            intro result
            rw [printResult_eq]
            rintro gap k t ⟨⟨rfl, finished⟩, wrote⟩
            exact triple_report Driver.stable_finished (.ok result) gap k t ⟨finished, wrote⟩

theorem triple_checkResult_refused : devices.Triple (fun t => Refused x t.accel ∧ Wrote text t)
    checkResult fun _ t => Refused x t.accel ∧ Wrote (text ++ verdict (.error ())) t := by
  refine Bus.triple_bind (triple_load Driver.stable_refused Driver.regStatus
    (Q := fun status s => (status &&& Driver.statusError != 0) = true ∧ Refused x s) ?_) ?_
  · intro s refused
    change (s.status &&& Driver.statusError != 0) = true ∧ _
    rw [Driver.status_error]
    exact ⟨refused.flagError, Driver.edge_read_refused refused _⟩
  · intro status
    cases failed : status &&& Driver.statusError != 0 with
    | false => exact Bus.triple_absurd (by simp)
    | true =>
        simp only [↓reduceIte]
        rw [printStr_eq (by decide)]
        exact Bus.triple_pre (fun t now => ⟨now.1.2, now.2⟩)
          (triple_report Driver.stable_refused (.error ()))

theorem squareOutcome_eq (nonzero : m ≠ 0) : squareOutcome x m = .ok (squareValue x m) := by
  rw [squareOutcome, if_neg nonzero, ← Nat.pow_two, ← squareValue_toNat nonzero,
    BitVec.ofNat_toNat, BitVec.setWidth_eq]

/-- Step 6 prints the verdict on the operation that has ended. -/
theorem triple_checkResult : devices.Triple (fun t => Settled x m t.accel ∧ Wrote text t)
    checkResult fun _ t => Settled x m t.accel ∧ Wrote (text ++ verdict (squareOutcome x m)) t := by
  unfold Settled
  split
  · rename_i zero
    rw [squareOutcome, if_pos zero]
    exact triple_checkResult_refused
  · rename_i nonzero
    rw [squareOutcome_eq nonzero]
    exact triple_checkResult_finished

/-- Steps 1 to 4 from any state of rest. -/
theorem triple_prepare (modulus operand : Word) :
    devices.Triple (fun t => AtRest t.accel ∧ Wrote text t) (prepare modulus operand)
      fun _ t => Driver.Started operand modulus t.accel ∧ Wrote text t := by
  have same : prepare modulus operand = Prog.mapAddr register (do
      Driver.reset
      Driver.loadModulusWord modulus
      Driver.loadOperandWord operand
      Driver.start : Driver.Access Unit) := rfl
  rw [same]
  apply triple_driver
  refine Bus.triple_bind Driver.triple_reset fun _ => ?_
  refine Bus.triple_bind (Driver.triple_loadModulusWord modulus) fun _ => ?_
  exact Bus.triple_bind (Driver.triple_loadOperandWord operand) fun _ => Driver.triple_start

def banner : List Byte := utf8 "blindsig-soc: integration test\n"

theorem triple_main {polls : ℕ} (enough : 69 ≤ polls) (modulus operand : Word) :
    devices.Triple (fun t => AtRest t.accel ∧ Wrote text t) (mainWith polls modulus operand)
      fun ended t => (ended = true ∧ Settled operand modulus t.accel) ∧
        Wrote (text ++ banner ++ verdict (squareOutcome operand modulus)) t := by
  unfold mainWith
  rw [printStr_eq (by decide)]
  refine Bus.triple_bind (triple_simPutAll Driver.stable_atRest _) fun _ => ?_
  refine Bus.triple_bind (triple_prepare modulus operand) fun _ => ?_
  rw [waitWhileBusy_eq]
  refine Bus.triple_bind (triple_driver (triple_waitIdle enough)) ?_
  rintro (_ | _)
  · exact Bus.triple_absurd (by simp)
  · refine Bus.triple_pre (fun t now => ⟨now.1.2, now.2⟩) (Bus.triple_bind triple_checkResult ?_)
    exact fun _ => Bus.triple_pure fun t now => ⟨⟨rfl, now.1⟩, now.2⟩

theorem triple_boot {main : Io Bool} {Q : Accel.State → Prop} (stable : Driver.bus.Stable Q)
    (triple : devices.Triple (fun t => P t.accel ∧ Wrote [] t) main
      fun ended t => (ended = true ∧ Q t.accel) ∧ Wrote text t) :
    devices.Triple (fun t => P t.accel ∧ Wrote [] t) (boot main)
      fun _ t => Wrote (text ++ [0xFF]) t := by
  refine Bus.triple_bind triple ?_
  rintro (_ | _)
  · exact Bus.triple_absurd (by simp)
  · refine Bus.triple_pre (fun t now => ⟨now.1.2, now.2⟩)
      (Bus.triple_bind (triple_simio stable 0xFF) fun _ => Bus.triple_pure ?_)
    exact fun t now => now.2

theorem byte_clean {n : ℕ} (small : n < 255) : (UInt8.ofNat n).toBitVec ≠ 0xFF := by
  intro stop
  have value := congrArg BitVec.toNat stop
  rw [UInt8.toBitVec_ofNat', BitVec.toNat_ofNat] at value
  change n % 256 = 255 at value
  omega

/-- No text ends the simulation: UTF-8 has no byte 0xFF. -/
theorem utf8_clean (s : String) : 0xFF ∉ utf8 s := by
  have char : ∀ c : Char, ∀ b ∈ String.utf8EncodeChar c, b.toBitVec ≠ 0xFF := by
    intro c b inside
    unfold String.utf8EncodeChar at inside
    dsimp only at inside
    split at inside
    · simp only [List.mem_cons, List.not_mem_nil, or_false] at inside
      subst inside
      exact byte_clean (by omega)
    · split at inside
      · simp only [List.mem_cons, List.not_mem_nil, or_false] at inside
        rcases inside with rfl | rfl <;> exact byte_clean (by omega)
      · split at inside
        · simp only [List.mem_cons, List.not_mem_nil, or_false] at inside
          rcases inside with rfl | rfl | rfl <;> exact byte_clean (by omega)
        · simp only [List.mem_cons, List.not_mem_nil, or_false] at inside
          rcases inside with rfl | rfl | rfl | rfl <;> exact byte_clean (by omega)
  intro inside
  obtain ⟨b, listed, stop⟩ := List.mem_map.mp inside
  obtain ⟨c, -, encoded⟩ := List.mem_flatMap.mp listed
  exact char c b encoded stop

theorem hexText_clean (val : Word) : 0xFF ∉ hexText val := by
  have digit : ∀ digit < 16, BitVec.ofNat 8 (Nat.digitChar digit).toNat ≠ 255#8 := by decide
  intro inside
  rcases List.mem_append.mp inside with sign | digits
  · exact utf8_clean _ sign
  · rw [HexText.format_eq (by decide) val.isLt, List.map_map] at digits
    obtain ⟨k, -, stop⟩ := List.mem_map.mp digits
    exact digit _ (Nat.mod_lt _ (by decide)) stop

theorem verdict_clean (outcome : Except Unit Word) : 0xFF ∉ verdict outcome := by
  cases outcome with
  | error reason => exact utf8_clean _
  | ok result =>
      rw [verdict]
      simp only [List.mem_append, utf8_clean, hexText_clean, false_or]
      split
      · exact utf8_clean _
      · simp only [List.mem_append, utf8_clean, hexText_clean, or_false, not_false_eq_true]

/-- Up to cycle `n` the console shows the beginning of a text, and at the halt all of it. -/
structure Shows (text : List Byte) (s : Soc.State) (ins : ℕ → Soc.Pins) (r n : ℕ) : Prop where
  printed : (shown s ins r n).printed <+: text
  halted : (shown s ins r n).simioHalt = true → (shown s ins r n).printed = text

variable {image : BitVec 12 → Word} {s : Soc.State} {ins : ℕ → Soc.Pins} {r : ℕ}

theorem shows_of_triple {p q : Io Bool} (clean : 0xFF ∉ text)
    (triple : devices.Triple (fun t => AtRest t.accel ∧ Wrote [] t) p
      fun _ t => Wrote (text ++ [0xFF]) t)
    (compliant : Compliant s ins r) (powerUp : PowerUp image s) {n : ℕ}
    (follows : p.follow (events s ins r n) = some q) :
    Shows text s ins r n ∧ ∀ value, q = .pure value → (shown s ins r n).simioHalt = true := by
  constructor
  · obtain ⟨t, agree, begun⟩ :=
      written_of_prefix triple ⟨loaded_reset.atRest, rfl⟩ compliant powerUp follows
    obtain ⟨printed, halted⟩ := printed_of_prefix clean begun
    refine ⟨agree.printed ▸ printed, fun stopped => ?_⟩
    rw [agree.printed]
    exact halted (agree.simioHalt ▸ stopped)
  · rintro value rfl
    obtain ⟨t, agree, wrote⟩ := devices_of_follow triple (fun _ => stable_wrote)
      ⟨loaded_reset.atRest, rfl⟩ compliant powerUp follows
    change t.written = _ at wrote
    rw [agree.simioHalt, Devices.halted, wrote]
    simp

/-- The C test on the SoC, over any modulus and operand: at every moment the
console shows a part of the banner and the verdict on the modular square, and when
the simulation halts both stand there in full. -/
theorem test_accel_prints (compliant : Compliant s ins r) (powerUp : PowerUp image s) (polls : ℕ)
    (enough : 69 ≤ polls) (modulus operand : Word) (n : ℕ) (q : Io Bool)
    (follows : (boot (mainWith polls modulus operand)).follow (events s ins r n) = some q) :
    Shows (banner ++ verdict (squareOutcome operand modulus)) s ins r n ∧
      ∀ value, q = .pure value → (shown s ins r n).simioHalt = true := by
  have clean : 0xFF ∉ banner ++ verdict (squareOutcome operand modulus) := by
    simp only [List.mem_append, banner, utf8_clean, verdict_clean, or_false, not_false_eq_true]
  exact shows_of_triple clean (triple_boot stable_settled (triple_main enough modulus operand))
    compliant powerUp follows

theorem onDevices_simPutAll (bytes : List Byte) : OnDevices (Rust.simPutAll bytes) := by
  have here : simioBase.extractLsb' 28 4 = 1 := by decide
  induction bytes with
  | nil => trivial
  | cons c bytes ih => exact ⟨Or.inl here, ih⟩

theorem onDevices_report (outcome : Except Unit Word) : OnDevices (Rust.report outcome) := by
  have hex : ∀ val, OnDevices (Rust.simPrintHex val) := fun val =>
    onDevices_bind (onDevices_simPutAll _) fun _ => onDevices_simPutAll _
  cases outcome with
  | error reason => exact onDevices_simPutAll _
  | ok result =>
      refine onDevices_bind (onDevices_simPutAll _) fun _ => onDevices_bind (hex result) fun _ =>
        onDevices_bind (onDevices_simPutAll _) fun _ => ?_
      split
      · exact onDevices_simPutAll _
      · exact onDevices_bind (onDevices_simPutAll _) fun _ => onDevices_bind (hex result) fun _ =>
          onDevices_simPutAll _

theorem onDevices_checkResult : OnDevices checkResult := by
  refine onDevices_bind (onDevices_register (Driver.mmioRead Driver.regStatus)) fun status => ?_
  split
  · rw [printStr_eq (by decide)]
    exact onDevices_simPutAll _
  · split
    · rw [printStr_eq (by decide)]
      exact onDevices_simPutAll _
    · refine onDevices_bind (onDevices_register (Driver.mmioRead Driver.regResult)) fun result => ?_
      rw [printResult_eq]
      exact onDevices_report _

theorem onDevices_boot {main : Io Bool} (on : OnDevices main) : OnDevices (boot main) := by
  refine onDevices_bind on ?_
  rintro (_ | _)
  · trivial
  · exact onDevices_bind (onDevices_simPutAll [0xFF]) fun _ => trivial

theorem onDevices_main (polls : ℕ) (modulus operand : Word) :
    OnDevices (mainWith polls modulus operand) := by
  unfold mainWith
  rw [printStr_eq (by decide), waitWhileBusy_eq]
  refine onDevices_bind (onDevices_simPutAll _) fun _ => ?_
  refine onDevices_bind (onDevices_register (do
    Driver.reset
    Driver.loadModulusWord modulus
    Driver.loadOperandWord operand
    Driver.start)) fun _ => onDevices_bind (onDevices_register _) ?_
  rintro (_ | _)
  · trivial
  · exact onDevices_bind onDevices_checkResult fun _ => trivial

/-- The test as it stands: a run halts, and the console shows that it has passed. -/
theorem test_accel_passes : ∃ (ins : ℕ → Soc.Pins) (n : ℕ),
    (shown blank ins 1 n).simioHalt = true ∧ (shown blank ins 1 n).printed =
      utf8 "blindsig-soc: integration test\nresult = 0x00000002\nPASS\n" := by
  obtain ⟨ins, n, value, compliant, follows⟩ :=
    exists_run blank (onDevices_boot (onDevices_main 69 7 10))
  have prints := test_accel_prints compliant ⟨rfl, rfl, rfl⟩ 69 (Nat.le_refl 69) 7 10 n _ follows
  refine ⟨ins, n, prints.2 value rfl, ?_⟩
  rw [prints.1.halted (prints.2 value rfl)]
  decide

def rustBanner : List Byte := utf8 "blindsig-soc: rust integration test\n"

/-- `compute` returns the modular square of the last words, or the refusal. -/
theorem triple_compute {polls : ℕ} (enough : 69 ≤ polls) (modulus operand : List Word) :
    Driver.bus.Triple AtRest (Driver.compute polls modulus operand) fun outcome s =>
      outcome = some (squareOutcome (operand.getLastD 0) (modulus.getLastD 0)) ∧
        Settled (operand.getLastD 0) (modulus.getLastD 0) s := by
  refine Bus.triple_bind Driver.triple_reset fun _ =>
    Bus.triple_post (Driver.triple_afterReset enough modulus operand) ?_
  intro outcome s answered
  unfold Driver.Answered at answered
  unfold Settled
  split at answered
  · rename_i zero
    rw [squareOutcome, if_pos zero, if_pos zero]
    exact answered
  · rename_i nonzero
    rw [squareOutcome_eq nonzero, if_neg nonzero]
    exact answered

theorem triple_rustMain {polls : ℕ} (enough : 69 ≤ polls) (modulus operand : List Word) :
    devices.Triple (fun t => AtRest t.accel ∧ Wrote text t) (Rust.mainWith polls modulus operand)
      fun ended t => (ended = true ∧ Settled (operand.getLastD 0) (modulus.getLastD 0) t.accel) ∧
        Wrote (text ++ rustBanner ++
          verdict (squareOutcome (operand.getLastD 0) (modulus.getLastD 0))) t := by
  unfold Rust.mainWith
  refine Bus.triple_bind (triple_simPutAll Driver.stable_atRest _) fun _ => ?_
  refine Bus.triple_bind (triple_driver (triple_compute enough modulus operand)) ?_
  intro outcome
  cases outcome with
  | none => exact Bus.triple_absurd (by simp)
  | some outcome =>
      by_cases same : outcome = squareOutcome (operand.getLastD 0) (modulus.getLastD 0)
      · subst same
        refine Bus.triple_pre (fun t now => ⟨now.1.2, now.2⟩)
          (Bus.triple_bind (triple_report stable_settled _) fun _ => Bus.triple_pure ?_)
        exact fun t now => ⟨⟨rfl, now.1⟩, now.2⟩
      · exact Bus.triple_absurd fun t now => same (Option.some.inj now.1.1)

/-- The Rust test on the SoC, over any slices: the last words count. Its hexadecimal
printer issues the stores of the C one. -/
theorem rust_test_prints (compliant : Compliant s ins r) (powerUp : PowerUp image s) (polls : ℕ)
    (enough : 69 ≤ polls) (modulus operand : List Word) (n : ℕ) (q : Io Bool)
    (follows : (boot (Rust.mainWith polls modulus operand)).follow (events s ins r n) = some q) :
    Shows (rustBanner ++ verdict (squareOutcome (operand.getLastD 0) (modulus.getLastD 0)))
        s ins r n ∧
      (∀ value, q = .pure value → (shown s ins r n).simioHalt = true) ∧
      ∀ val, Rust.simPrintHex val = printHex val := by
  have clean : 0xFF ∉ rustBanner ++
      verdict (squareOutcome (operand.getLastD 0) (modulus.getLastD 0)) := by
    simp only [List.mem_append, rustBanner, utf8_clean, verdict_clean, or_false, not_false_eq_true]
  obtain ⟨shows, halts⟩ := shows_of_triple clean
    (triple_boot stable_settled (triple_rustMain enough modulus operand)) compliant powerUp follows
  exact ⟨shows, halts, fun val => (printHex_eq val).symm⟩

theorem onDevices_rustMain (polls : ℕ) (modulus operand : List Word) :
    OnDevices (Rust.mainWith polls modulus operand) := by
  refine onDevices_bind (onDevices_simPutAll _) fun _ => onDevices_bind (onDevices_register _) ?_
  intro outcome
  cases outcome with
  | none => trivial
  | some outcome => exact onDevices_bind (onDevices_report outcome) fun _ => trivial

/-- The test as it stands passes, and with no modulus loaded it fails as it should. -/
theorem rust_test_passes : (∃ (ins : ℕ → Soc.Pins) (n : ℕ),
      (shown blank ins 1 n).simioHalt = true ∧ (shown blank ins 1 n).printed = utf8
        "blindsig-soc: rust integration test\nresult = 0x00000002\nPASS\n") ∧
    ∃ (ins : ℕ → Soc.Pins) (n : ℕ),
      (shown blank ins 1 n).simioHalt = true ∧ (shown blank ins 1 n).printed = utf8
        "blindsig-soc: rust integration test\nFAIL: accelerator reported error\n" := by
  constructor
  · obtain ⟨ins, n, value, compliant, follows⟩ :=
      exists_run blank (onDevices_boot (onDevices_rustMain 69 [7] [10]))
    obtain ⟨shows, halts, -⟩ :=
      rust_test_prints compliant ⟨rfl, rfl, rfl⟩ 69 (Nat.le_refl 69) [7] [10] n _ follows
    refine ⟨ins, n, halts value rfl, ?_⟩
    rw [shows.halted (halts value rfl)]
    decide
  · obtain ⟨ins, n, value, compliant, follows⟩ :=
      exists_run blank (onDevices_boot (onDevices_rustMain 69 [] [10]))
    obtain ⟨shows, halts, -⟩ :=
      rust_test_prints compliant ⟨rfl, rfl, rfl⟩ 69 (Nat.le_refl 69) [] [10] n _ follows
    refine ⟨ins, n, halts value rfl, ?_⟩
    rw [shows.halted (halts value rfl)]
    decide

section Robust

variable {gap : ℕ → List Unit}

theorem reads_simPutAll (bytes : List Byte) (k : ℕ) (s : Devices) :
    devices.reads gap (Rust.simPutAll bytes) k s = [] := by
  induction bytes generalizing k s with
  | nil => rfl
  | cons c bytes ih => exact ih (k + 1) _

theorem reads_report (outcome : Except Unit Word) (k : ℕ) (s : Devices) :
    devices.reads gap (Rust.report outcome) k s = [] := by
  cases outcome with
  | error reason => exact reads_simPutAll _ k s
  | ok result =>
      simp only [Rust.report, Rust.simPrintHex, Rust.simPrintStr, Bus.reads_bind, reads_simPutAll,
        List.nil_append]
      split <;> simp only [Bus.reads_bind, reads_simPutAll, List.nil_append]

/-- The polls read nothing but STATUS. -/
theorem reads_waitWhileBusy (polls k : ℕ) (s : Devices) :
    ∀ access ∈ devices.reads gap (waitWhileBusy polls) k s, access.1 = regStatus := by
  induction polls generalizing k s with
  | zero => simp [waitWhileBusy, Bus.reads, pure]
  | succ polls ih =>
      intro access inside
      rw [waitWhileBusy, Bus.reads_bind, List.mem_append] at inside
      rcases inside with first | later
      · rw [List.mem_singleton.mp first]
      · split at later
        · exact ih _ _ access later
        · exact nomatch later

theorem stable_succeeded : devices.Stable fun t => Driver.Succeeded t.accel :=
  fun t _ now => Driver.stable_succeeded t.accel ⟨0, 0, false⟩ now

/-- RESULT is read only after the same STATUS has shown DONE and no ERROR. -/
theorem reads_checkResult (k : ℕ) (s t : Devices)
    (inside : (regResult, t) ∈ devices.reads gap checkResult k s) : Driver.Succeeded t.accel := by
  have other : regResult ≠ regStatus := by decide
  have status : (devices.run gap (Prog.load regStatus) k s).value =
      (devices.wait s (gap k)).accel.status := rfl
  rw [checkResult, Bus.reads_bind, List.mem_append] at inside
  rcases inside with first | later
  · exact absurd (congrArg Prod.fst (List.mem_singleton.mp first)) other
  · rw [status, Driver.status_error, status_done] at later
    split at later
    · rw [printStr_eq (by decide), reads_simPutAll] at later
      cases later
    · rename_i clear
      split at later
      · rw [printStr_eq (by decide), reads_simPutAll] at later
        cases later
      · rename_i done
        have now : Driver.Succeeded (devices.wait s (gap k)).accel := by
          simp only [Bool.not_eq_true, Bool.not_eq_false'] at clear done
          exact ⟨done, clear⟩
        rw [Bus.reads_bind, List.mem_append] at later
        rcases later with read | rest
        · obtain rfl := congrArg Prod.snd (List.mem_singleton.mp read)
          refine stable_succeeded.wait ?_ (gap (k + 1))
          change Driver.Succeeded ((devices.wait s (gap k)).edge (devices.read regStatus)).accel
          rw [edge_read]
          exact stable_succeeded _ () now
        · rw [printResult_eq, reads_report] at rest
          cases rest

theorem reads_main (polls : ℕ) (modulus operand : Word) (k : ℕ) (s t : Devices)
    (inside : (regResult, t) ∈ devices.reads gap (mainWith polls modulus operand) k s) :
    Driver.Succeeded t.accel := by
  have other : regResult ≠ regStatus := by decide
  unfold mainWith at inside
  rw [printStr_eq (by decide), Bus.reads_bind, reads_simPutAll, List.nil_append, Bus.reads_bind,
    List.mem_append] at inside
  rcases inside with preparing | inside
  · exact nomatch preparing
  · rw [Bus.reads_bind, List.mem_append] at inside
    rcases inside with polling | inside
    · exact absurd (reads_waitWhileBusy polls _ _ _ polling) other
    · split at inside
      · rw [Bus.reads_bind, List.mem_append] at inside
        rcases inside with checking | ended
        · exact reads_checkResult _ _ t checking
        · exact nomatch ended
      · exact nomatch inside

theorem triple_waitIdle_returns {n polls : ℕ} (enough : n < polls) :
    Driver.bus.Triple (Driver.BusyWithin n) (waitIdle polls) fun ended _ => ended = true := by
  induction polls generalizing n with
  | zero => omega
  | succ polls ih =>
      refine Bus.triple_bind
        (Q := fun busy s => busy = true → 0 < n ∧ Driver.BusyWithin (n - 1) s)
        (Driver.triple_isBusy Driver.stable_busyWithin ?_) ?_
      · intro s within busy
        have positive := within.1.rank_positive busy
        have bound := within.2 busy
        exact ⟨by omega, Driver.busyWithin_edge within rfl rfl⟩
      · rintro (_ | _)
        · exact Bus.triple_pure fun s _ => rfl
        · intro gap k s now
          obtain ⟨positive, within⟩ := now rfl
          exact ih (n := n - 1) (by omega) gap k s within

theorem triple_main_returns {polls : ℕ} (enough : 69 ≤ polls) (modulus operand : Word) :
    devices.Triple (fun t => machine.Reachable t.accel ∧ Wrote text t)
      (mainWith polls modulus operand) fun ended _ => ended = true := by
  have stable : Driver.bus.Stable machine.Reachable := fun s e reached => reached.edge e.pins
  have same : prepare modulus operand = Prog.mapAddr register (do
      Driver.reset
      Driver.loadModulusWord modulus
      Driver.loadOperandWord operand
      Driver.start : Driver.Access Unit) := rfl
  unfold mainWith
  rw [printStr_eq (by decide), same, waitWhileBusy_eq]
  refine Bus.triple_bind (triple_simPutAll stable _) fun _ => ?_
  refine Bus.triple_bind (triple_driver (Q := fun _ => machine.Reachable)
    fun gap k s reached => Driver.bus.run_reachable reached gap _ k) fun _ => ?_
  refine Bus.triple_bind (triple_driver (Bus.triple_pre ?_ (triple_waitIdle_returns enough))) ?_
  · intro s reached
    have control := Control.of_reachable reached
    exact ⟨control, fun _ => control.rank_le⟩
  · rintro (_ | _)
    · exact Bus.triple_absurd (by simp)
    · exact Bus.triple_bind (Q := fun _ _ => True) (fun _ _ _ _ => trivial) fun _ =>
        Bus.triple_pure fun _ _ => rfl

/-- Whatever state it finds the accelerator in, the C test returns, and it takes
a result only while DONE is up and ERROR is low. -/
theorem test_accel_robust {s : Devices} (reached : machine.Reachable s.accel) (polls : ℕ)
    (enough : 69 ≤ polls) (modulus operand : Word) (gap : ℕ → List Unit) (k : ℕ) :
    (devices.run gap (mainWith polls modulus operand) k s).value = true ∧
      ∀ t, (regResult, t) ∈ devices.reads gap (mainWith polls modulus operand) k s →
        t.accel.flagDone = true ∧ t.accel.flagError = false :=
  ⟨triple_main_returns enough modulus operand gap k s ⟨reached, rfl⟩,
    fun t inside => reads_main polls modulus operand k s t inside⟩

/-- Found in the middle of a multiplication, over a modulus that differs. -/
theorem test_accel_robust_flight : (devices.run (fun _ => []) (mainWith 69 7 10) 0
    ⟨Accel.machine.trace .reset quickStart 50, []⟩).value = true :=
  (test_accel_robust (Machine.Reachable.reset.trace quickStart 50) 69 (Nat.le_refl 69) 7 10
    (fun _ => []) 0).1

end Robust

end BlindSig.FirmwareTest

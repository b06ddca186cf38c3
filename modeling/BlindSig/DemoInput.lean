import Mathlib.Data.List.TakeWhile
import BlindSig.DemoHarness

set_option autoImplicit false

/- How app.js turns the texts of the three fields into operands: `parseInt`
in base ten, the conversion to 32 bits and the normalisation. -/
namespace BlindSig.Demo

/-- The UTF-16 code units of a text. -/
abbrev Text := List UInt16

/-- What `parseInt` returns. The sign of an infinity is never looked at. -/
inductive Number where
  | nan
  | infinity
  | integer (value : ℤ)
deriving DecidableEq

/-- White space and line terminators. -/
def isSpace (c : UInt16) : Bool :=
  [0x9, 0xA, 0xB, 0xC, 0xD, 0x20, 0xA0, 0x1680, 0x2028, 0x2029, 0x202F, 0x205F, 0x3000,
    0xFEFF].contains c || (0x2000 ≤ c && c ≤ 0x200A)

def isDigit (c : UInt16) : Bool := 48 ≤ c && c ≤ 57

def digitsValue (digits : Text) : ℕ := digits.foldl (fun n c => 10 * n + (c.toNat - 48)) 0

/-- The nearest integer with 53 significant bits, a tie going to the even one. -/
def nearest (n : ℕ) : ℕ :=
  let ulp := 2 ^ (Nat.log2 n - 52)
  let low := n / ulp
  if 2 * (n % ulp) < ulp ∨ 2 * (n % ulp) = ulp ∧ low % 2 = 0 then low * ulp else (low + 1) * ulp

/-- From two to the 1024th on there is only the infinity. -/
def toNumber (negative : Bool) (n : ℕ) : Number :=
  if 1024 ≤ Nat.log2 (nearest n) then .infinity
  else .integer (if negative then -nearest n else nearest n)

/-- `parseInt(text, 10)`. -/
def parseInt (text : Text) : Number :=
  let text := text.dropWhile isSpace
  let negative := text.head? == some 45
  let text := if negative || text.head? == some 43 then text.tail else text
  let digits := text.takeWhile isDigit
  if digits = [] then .nan else toNumber negative (digitsValue digits)

/-- `x >>> 0`. -/
def u32 : Number → U32
  | .nan => 0
  | .infinity => 0
  | .integer value => BitVec.ofInt 32 value

/-- `u32(parseInt(value || "0", 10))`. -/
def fieldValue (value : Text) : U32 := u32 (parseInt (if value = [] then [48] else value))

/-- The values of `in_a`, `in_b` and `in_m`. -/
structure Fields where
  inA : Text
  inB : Text
  inM : Text

/-- What `readInputs` returns, and the flag that it sets. -/
structure Inputs where
  operands : Operands
  reducedA : Bool

def readInputs (f : Fields) : Inputs :=
  let pa := fieldValue f.inA
  let pb := fieldValue f.inB
  let pm := fieldValue f.inM
  let pm := if pm < 2 then 2 else pm
  ⟨⟨pa % pm, pb, pm⟩, pm ≤ pa⟩

/-- Whatever the fields hold, the operands meet the precondition of the circuit. -/
theorem readInputs_within (f : Fields) : 2 ≤ (readInputs f).operands.m.toNat ∧
    (readInputs f).operands.a.toNat < (readInputs f).operands.m.toNat := by
  have modulus : 2 ≤ (readInputs f).operands.m.toNat := by
    simp only [readInputs]
    split
    · decide
    · rename_i large
      exact Nat.le_of_not_lt large
  refine ⟨modulus, ?_⟩
  change (_ % (readInputs f).operands.m : U32).toNat < _
  rw [BitVec.toNat_umod]
  exact Nat.mod_lt _ (by omega)

/-- The code unit of one decimal digit. -/
def digitUnit (digit : ℕ) : UInt16 := UInt16.ofNat (48 + digit)

/-- The decimal text of a number. -/
def decimal (n : ℕ) : Text :=
  if n < 10 then [digitUnit n] else decimal (n / 10) ++ [digitUnit (n % 10)]

theorem digitUnit_facts : ∀ digit < 10, isDigit (digitUnit digit) = true ∧
    isSpace (digitUnit digit) = false ∧ digitUnit digit ≠ 45 ∧ digitUnit digit ≠ 43 ∧
    (digitUnit digit).toNat - 48 = digit := by
  decide

theorem decimal_mem (n : ℕ) : ∀ c ∈ decimal n, ∃ digit < 10, c = digitUnit digit := by
  induction n using decimal.induct with
  | case1 n small =>
      rw [decimal, if_pos small]
      simpa using ⟨n, small, rfl⟩
  | case2 n large ih =>
      rw [decimal, if_neg large]
      intro c listed
      rcases List.mem_append.mp listed with front | last
      · exact ih c front
      · exact ⟨n % 10, Nat.mod_lt n (by decide), by simpa using last⟩

theorem digitsValue_append (front : Text) (c : UInt16) :
    digitsValue (front ++ [c]) = 10 * digitsValue front + (c.toNat - 48) := by
  simp [digitsValue]

theorem digitsValue_decimal (n : ℕ) : digitsValue (decimal n) = n := by
  induction n using decimal.induct with
  | case1 n small =>
      rw [decimal, if_pos small]
      exact (digitsValue_append [] (digitUnit n)).trans (by
        rw [(digitUnit_facts n small).2.2.2.2]
        exact Nat.zero_add n)
  | case2 n large ih =>
      rw [decimal, if_neg large, digitsValue_append, ih,
        (digitUnit_facts _ (Nat.mod_lt n (by decide))).2.2.2.2, Nat.div_add_mod]

theorem decimal_ne_nil (n : ℕ) : decimal n ≠ [] := by
  rw [decimal]
  split <;> simp

theorem log2_of_small {n : ℕ} (small : n < 2 ^ 53) : Nat.log2 n < 53 := by
  rcases Nat.eq_zero_or_pos n with zero | positive
  · rw [zero]
    decide
  · exact (Nat.log2_lt (Nat.ne_of_gt positive)).mpr small

/-- Every integer of 53 bits is a double. -/
theorem nearest_of_small {n : ℕ} (small : n < 2 ^ 53) : nearest n = n := by
  have exponent : Nat.log2 n - 52 = 0 := by
    have bound := log2_of_small small
    omega
  simp [nearest, exponent, Nat.mod_one]

/-- A field that shows a number is read as that number. -/
theorem fieldValue_decimal {n : ℕ} (small : n < 2 ^ 53) :
    fieldValue (decimal n) = BitVec.ofNat 32 n := by
  obtain ⟨c, rest, shape⟩ := List.exists_cons_of_ne_nil (decimal_ne_nil n)
  obtain ⟨digit, below, rfl⟩ := decimal_mem n c (by simp [shape])
  obtain ⟨-, visible, positive, unsigned, -⟩ := digitUnit_facts digit below
  have kept : (decimal n).dropWhile isSpace = decimal n := by simp [shape, visible]
  have head : (decimal n).head? = some (digitUnit digit) := by rw [shape]; rfl
  have taken : (decimal n).takeWhile isDigit = decimal n := by
    rw [List.takeWhile_eq_self_iff]
    intro c listed
    obtain ⟨digit, below, rfl⟩ := decimal_mem n c listed
    exact (digitUnit_facts digit below).1
  have finite : ¬1024 ≤ Nat.log2 n := by
    have bound := log2_of_small small
    omega
  have read : parseInt (decimal n) = .integer n := by
    simp [parseInt, kept, head, positive, unsigned, taken, decimal_ne_nil, digitsValue_decimal,
      toNumber, nearest_of_small small, finite]
  rw [fieldValue, if_neg (decimal_ne_nil n), read]
  rfl

-- A blank, a sign, a digit, and a letter that ends the number.
example : fieldValue [0x20, 0x2D, 0x33, 0x61] = 0xFFFFFFFD := by decide

end BlindSig.Demo

import Mathlib.Algebra.Ring.Nat
import Mathlib.Tactic.TypeStar
import Mathlib.Tactic.Common

set_option autoImplicit false

namespace HexText

/-- At least `width` lower-case digits. -/
def format (width value : ℕ) : List Char := List.leftpad width '0' (Nat.toDigits 16 value)

def digitValue (c : Char) : Option ℕ :=
  if '0' ≤ c ∧ c ≤ '9' then some (c.toNat - 48)
  else if 'a' ≤ c ∧ c ≤ 'f' then some (c.toNat - 87)
  else if 'A' ≤ c ∧ c ≤ 'F' then some (c.toNat - 55)
  else none

/-- Digits after those that have been read as `value`; underscores do not count. -/
def parseFrom (value : ℕ) : List Char → Option ℕ
  | [] => some value
  | c :: rest =>
      if c = '_' then parseFrom value rest
      else
        match digitValue c with
        | some digit => parseFrom (16 * value + digit) rest
        | none => none

def parse (text : List Char) : Option ℕ := parseFrom 0 text

/-- The words between blanks; `word` has been read of the first one, backwards. -/
def tokensFrom (word : List Char) : List Char → List (List Char)
  | [] => if word = [] then [] else [word.reverse]
  | c :: rest =>
      if c.isWhitespace then
        if word = [] then tokensFrom [] rest else word.reverse :: tokensFrom [] rest
      else tokensFrom (c :: word) rest

def tokens (text : List Char) : List (List Char) := tokensFrom [] text

/-- All numbers of a text, in order. -/
def parseAll (text : List Char) : Option (List ℕ) := (tokens text).mapM parse

theorem digitChar_facts : ∀ digit < 16, digitValue (Nat.digitChar digit) = some digit ∧
    Nat.digitChar digit ≠ '_' ∧ (Nat.digitChar digit).isWhitespace = false := by
  decide

theorem parseFrom_append (value : ℕ) (first second : List Char) :
    parseFrom value (first ++ second) = (parseFrom value first).bind (parseFrom · second) := by
  induction first generalizing value with
  | nil => rfl
  | cons c rest ih =>
      rw [List.cons_append, parseFrom, parseFrom]
      split
      · exact ih value
      · cases digitValue c with
        | none => rfl
        | some digit => exact ih (16 * value + digit)

theorem parseFrom_digitChar (value : ℕ) {digit : ℕ} (small : digit < 16) :
    parseFrom value [Nat.digitChar digit] = some (16 * value + digit) := by
  obtain ⟨reads, other, -⟩ := digitChar_facts digit small
  rw [parseFrom, if_neg other, reads]
  rfl

theorem parse_toDigits (value : ℕ) : parse (Nat.toDigits 16 value) = some value := by
  unfold parse
  induction value using Nat.strongRecOn with
  | ind value ih =>
      rw [Nat.toDigits_eq_if (by decide)]
      split
      · rename_i small
        rw [parseFrom_digitChar 0 small, Nat.mul_zero, Nat.zero_add]
      · rename_i large
        rw [parseFrom_append, ih (value / 16) (by omega), Option.bind_some,
          parseFrom_digitChar _ (Nat.mod_lt value (by decide)), Nat.div_add_mod]

theorem parseFrom_zeros (count : ℕ) : parseFrom 0 (List.replicate count '0') = some 0 := by
  induction count with
  | zero => rfl
  | succ count ih => exact ih

/-- Padding is no part of the value. -/
theorem parse_format (width value : ℕ) : parse (format width value) = some value := by
  rw [parse, format, List.leftpad, parseFrom_append, parseFrom_zeros]
  exact parse_toDigits value

/-- The last digit comes last. -/
theorem format_succ {width : ℕ} (positive : 0 < width) (value : ℕ) :
    format (width + 1) value = format width (value / 16) ++ [Nat.digitChar (value % 16)] := by
  unfold format List.leftpad
  rw [Nat.toDigits_eq_if (n := value) (by decide)]
  split
  · rename_i small
    obtain ⟨more, rfl⟩ : ∃ more, width = more + 1 := ⟨width - 1, by omega⟩
    have digits : Nat.toDigits 16 (value / 16) = ['0'] := by
      rw [Nat.div_eq_of_lt small]
      rfl
    rw [digits, Nat.mod_eq_of_lt small]
    simp only [List.length_singleton, Nat.add_sub_cancel]
    exact congrArg (· ++ [Nat.digitChar value]) List.replicate_succ'
  · rw [List.length_append, List.length_singleton, Nat.add_sub_add_right, List.append_assoc]

/-- A number that fits has exactly its digits, the highest first. -/
theorem format_eq {width value : ℕ} (positive : 0 < width) (fits : value < 16 ^ width) :
    format width value =
      (List.range width).reverse.map fun k => Nat.digitChar (value / 16 ^ k % 16) := by
  obtain ⟨more, rfl⟩ : ∃ more, width = more + 1 := ⟨width - 1, by omega⟩
  induction more generalizing value with
  | zero =>
      have small : value < 16 := by simpa using fits
      have digits : Nat.toDigits 16 value = [Nat.digitChar value] := by
        rw [Nat.toDigits_eq_if (by decide), if_pos small]
      rw [format, digits]
      simp [List.leftpad, Nat.mod_eq_of_lt small]
  | succ more ih =>
      have less : value / 16 < 16 ^ (more + 1) := by
        rw [Nat.pow_succ] at fits
        omega
      have shifted : ∀ k, value / 16 / 16 ^ k = value / 16 ^ (k + 1) := by
        intro k
        rw [Nat.div_div_eq_div_mul, Nat.pow_succ, Nat.mul_comm]
      have places : (List.range (more + 1 + 1)).reverse =
          (List.range (more + 1)).reverse.map Nat.succ ++ [0] := by
        rw [List.range_succ_eq_map, List.reverse_cons, List.map_reverse]
      rw [format_succ (by omega), ih (by omega) less, places, List.map_append, List.map_map]
      simp only [shifted, List.map_cons, List.map_nil, Nat.pow_zero, Nat.div_one]
      rfl

theorem toDigits_solid (value : ℕ) : ∀ c ∈ Nat.toDigits 16 value, c.isWhitespace = false := by
  induction value using Nat.strongRecOn with
  | ind value ih =>
      intro c inside
      rw [Nat.toDigits_eq_if (by decide)] at inside
      split at inside
      · rename_i small
        rw [List.mem_singleton.mp inside]
        exact (digitChar_facts value small).2.2
      · rename_i large
        rcases List.mem_append.mp inside with earlier | last
        · exact ih (value / 16) (by omega) c earlier
        · rw [List.mem_singleton.mp last]
          exact (digitChar_facts _ (Nat.mod_lt value (by decide))).2.2

theorem format_solid (width value : ℕ) : ∀ c ∈ format width value, c.isWhitespace = false := by
  intro c inside
  rcases List.mem_append.mp inside with padding | digits
  · rw [List.eq_of_mem_replicate padding]
    decide
  · exact toDigits_solid value c digits

theorem format_ne_nil (width value : ℕ) : format width value ≠ [] := by
  intro empty
  exact Nat.toDigits_ne_nil (List.append_eq_nil_iff.mp empty).2

/-- A word in front of a blank is the first token. -/
theorem tokensFrom_word (before word rest : List Char) {blank : Char}
    (solid : ∀ c ∈ word, c.isWhitespace = false) (blanks : blank.isWhitespace = true)
    (some : before.reverse ++ word ≠ []) :
    tokensFrom before (word ++ blank :: rest) = (before.reverse ++ word) :: tokens rest := by
  induction word generalizing before with
  | nil =>
      have filled : before ≠ [] := by
        intro empty
        simp [empty] at some
      rw [List.nil_append, tokensFrom, if_pos blanks, if_neg filled, List.append_nil]
      rfl
  | cons c word ih =>
      have first : c.isWhitespace = false := solid c List.mem_cons_self
      rw [List.cons_append, tokensFrom, if_neg (by simp [first]),
        ih (c :: before) (fun d inside => solid d (List.mem_cons_of_mem c inside)) (by simp)]
      simp

/-- One number a line. -/
def print (width : ℕ) (values : List ℕ) : List Char :=
  values.flatMap fun value => format width value ++ ['\n']

theorem tokens_print (width : ℕ) (values : List ℕ) :
    tokens (print width values) = values.map (format width) := by
  induction values with
  | nil => rfl
  | cons value values ih =>
      have line : print width (value :: values) =
          format width value ++ '\n' :: print width values := by
        simp [print]
      rw [line, tokens, tokensFrom_word [] _ _ (format_solid width value) (by decide)
        (format_ne_nil width value), ih]
      rfl

/-- What has been printed is read back. -/
theorem parseAll_print (width : ℕ) (values : List ℕ) :
    parseAll (print width values) = some values := by
  rw [parseAll, tokens_print]
  induction values with
  | nil => rfl
  | cons value values ih =>
      rw [List.map_cons, List.mapM_cons, parse_format, ih]
      rfl

end HexText

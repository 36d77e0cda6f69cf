import Mathlib.Algebra.Group.Int.Defs
import Mathlib.Algebra.Group.Nat.Defs
import Mathlib.Data.List.TakeWhile

/-! Bytes, and the conversions of the C library that the request parser uses. -/

namespace EnhancedProxy

/-- The contents of a buffer or of a string, in order. -/
abbrev Bytes := List UInt8

/-- The bytes of an ASCII text. -/
def ascii (text : List Char) : Bytes := text.map fun c => UInt8.ofNat c.toNat

/-- The space that separates the parts of a request line. -/
def space : UInt8 := 32

/-- The carriage return that opens a line end. -/
def carriageReturn : UInt8 := 13

/-- The line feed that closes a line end. -/
def lineFeed : UInt8 := 10

/-- The colon between a field name and its value. -/
def colon : UInt8 := 58

/-- `CRLF`. -/
def crlf : Bytes := [carriageReturn, lineFeed]

/-- The value of a 64-bit number converted to a 32-bit `int`. -/
def toInt32 (n : Int) : Int := (n + 2 ^ 31) % 2 ^ 32 - 2 ^ 31

/-- The value of an `int` converted to a 32-bit `unsigned int`. -/
def toUnsigned32 (n : Int) : Nat := (n % 2 ^ 32).toNat

/-- The value of a number converted to a 64-bit `unsigned long`. -/
def toUnsigned64 (n : Int) : Nat := (n % 2 ^ 64).toNat

/-- `isspace` in the C locale: space, and tab to carriage return. -/
def isSpace (c : UInt8) : Bool := c == 32 || (9 ≤ c && c ≤ 13)

/-- `isdigit`. -/
def isDigit (c : UInt8) : Bool := 48 ≤ c && c ≤ 57

/-- The number a run of decimal digits denotes. -/
def digitsValue (digits : Bytes) : Nat :=
  digits.foldl (fun value digit => 10 * value + (digit.toNat - 48)) 0

/-- `strtol` in base ten: white space, an optional sign, and digits, saturating at 64 bits. -/
def strtol (text : Bytes) : Int :=
  -- The terminating NUL of the C string is neither white space nor a digit, so it ends the number.
  match text.dropWhile isSpace with
  | 45 :: rest => max (-(digitsValue (rest.takeWhile isDigit) : Int)) (-2 ^ 63)
  | 43 :: rest => min (digitsValue (rest.takeWhile isDigit) : Int) (2 ^ 63 - 1)
  | rest => min (digitsValue (rest.takeWhile isDigit) : Int) (2 ^ 63 - 1)

/-- `atoi`, which truncates `strtol` to an `int`. -/
def atoi (text : Bytes) : Int := toInt32 (strtol text)

/-- A nonnegative number below 2^31 survives the conversion to `int`. -/
theorem toInt32_of_lt {n : Nat} (small : n < 2 ^ 31) : toInt32 n = n := by
  -- The number is in the range of `int`, where the conversion changes nothing.
  unfold toInt32
  omega

/-- A nonnegative number below 2^64 survives the conversion to `unsigned long`. -/
theorem toUnsigned64_of_lt {n : Nat} (small : n < 2 ^ 64) : toUnsigned64 n = n := by
  -- The remainder of a number below the modulus is the number.
  unfold toUnsigned64
  omega

/-- A digit is not white space. -/
theorem isSpace_of_isDigit {c : UInt8} (digit : isDigit c) : isSpace c = false := by
  -- The codes of digits lie above those of all white space.
  simp only [isDigit, isSpace, Bool.and_eq_true, decide_eq_true_eq, UInt8.le_iff_toNat_le,
    Bool.or_eq_false_iff, beq_eq_false_iff_ne, ne_eq, Bool.and_eq_false_imp,
    decide_eq_false_iff_not] at digit ⊢
  have low : 48 ≤ c.toNat := digit.1
  refine ⟨?_, fun _ => ?_⟩
  · rintro rfl
    exact absurd low (by decide)
  · show ¬ c.toNat ≤ 13
    omega

/-- Decimal digits behind white space, and before something that is no digit, are read as the number
they denote. -/
theorem strtol_number {blanks digits after : Bytes} (allSpace : ∀ c ∈ blanks, isSpace c)
    (allDigits : ∀ c ∈ digits, isDigit c) (nonempty : digits ≠ [])
    (stops : ∀ c ∈ after, isDigit c = false) :
    strtol (blanks ++ (digits ++ after)) = min (digitsValue digits : Int) (2 ^ 63 - 1) := by
  -- White space is skipped, and the first digit is neither white space nor a sign.
  have skipped : (blanks ++ (digits ++ after)).dropWhile isSpace = digits ++ after := by
    rw [List.dropWhile_append_of_pos allSpace]
    cases digits with
    | nil => exact absurd rfl nonempty
    | cons d rest =>
      exact List.dropWhile_cons_of_neg (by simp [isSpace_of_isDigit (allDigits d (by simp))])
  -- The number ends where the digits do.
  have taken : (digits ++ after).takeWhile isDigit = digits := by
    rw [List.takeWhile_append_of_pos allDigits]
    cases after with
    | nil => exact List.append_nil digits
    | cons c after =>
      rw [List.takeWhile_cons_of_neg (by simp [stops c (by simp)]), List.append_nil]
  have noSign : ∀ c rest, digits ++ after = c :: rest → isDigit c := by
    intro c rest same
    cases digits with
    | nil => exact absurd rfl nonempty
    | cons d digits =>
      obtain ⟨rfl, -⟩ := List.cons.inj same
      exact allDigits d (by simp)
  unfold strtol
  rw [skipped]
  split
  · -- Neither a minus nor a plus sign is a digit.
    rename_i minus
    exact absurd (noSign _ _ minus) (by decide)
  · rename_i plus
    exact absurd (noSign _ _ plus) (by decide)
  · rw [taken]

/-- Spaces followed by decimal digits are read as the number the digits denote. -/
theorem strtol_digits (blanks digits : Bytes) (allBlank : ∀ c ∈ blanks, c = space)
    (allDigits : ∀ c ∈ digits, isDigit c) (nonempty : digits ≠ []) :
    strtol (blanks ++ digits) = min (digitsValue digits : Int) (2 ^ 63 - 1) := by
  -- A space is white space, and nothing follows the digits.
  have allSpace : ∀ c ∈ blanks, isSpace c := fun c member => by
    rw [allBlank c member]
    rfl
  have read := strtol_number allSpace allDigits nonempty fun c (member : c ∈ []) =>
    absurd member List.not_mem_nil
  rwa [List.append_nil] at read

/-- Below 2^31, `atoi` of spaces and digits is the number itself. -/
theorem atoi_digits {blanks digits : Bytes} (allBlank : ∀ c ∈ blanks, c = space)
    (allDigits : ∀ c ∈ digits, isDigit c) (nonempty : digits ≠ [])
    (small : digitsValue digits < 2 ^ 31) : atoi (blanks ++ digits) = digitsValue digits := by
  -- A number below 2^31 is neither saturated by `strtol` nor cut off by the conversion.
  have unsaturated : min (digitsValue digits : Int) (2 ^ 63 - 1) = digitsValue digits := by omega
  rw [atoi, strtol_digits blanks digits allBlank allDigits nonempty, unsaturated,
    toInt32_of_lt small]

end EnhancedProxy

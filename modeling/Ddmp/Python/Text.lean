import Ddmp.Lib.Utf8
import Mathlib.Algebra.Order.Ring.Rat
import Mathlib.Data.List.DropRight
import Mathlib.Tactic.Common

/-!
# Text and byte-string built-ins

What the library uses of `str` and `bytes`: stripping, removing a character, case mapping,
`bytes.fromhex` and the number syntax of `int(text)` and `float(text)`. Text is a list of
characters here; the callers convert from `String`.
-/

namespace Ddmp

/-- A Python `bytes` value. -/
abbrev Bytes := List UInt8

/-- An ASCII literal `b"…"`. -/
def bytesLit (s : String) : Bytes := s.toList.map fun c => UInt8.ofNat c.toNat

/-- A Python `float`. Finite floats are exact rationals: the rounding of binary floating
point is not modelled. -/
inductive PyFloat
  | fin (q : ℚ)
  | posInf
  | negInf
  | nan
deriving DecidableEq, Repr

/-! ## Stripping -/

/-- `s.strip()` for a given notion of white space. -/
def stripBy {α : Type*} (isSpace : α → Bool) (s : List α) : List α :=
  (s.dropWhile isSpace).rdropWhile isSpace

/-- The white space of `bytes.strip()`: tab, LF, VT, FF, CR and blank. -/
def isByteSpace (b : UInt8) : Bool := (9 ≤ b.toNat && b.toNat ≤ 13) || b.toNat == 32

/-- `bytes.strip()`. -/
def bytesStrip (s : Bytes) : Bytes := stripBy isByteSpace s

/-- The same six characters in a text. -/
def isAsciiSpace (c : Char) : Bool := (9 ≤ c.toNat && c.toNat ≤ 13) || c.toNat == 32

/-- `str.isspace()` of one character. -/
def isSpace (c : Char) : Bool :=
  isAsciiSpace c || (0x1C ≤ c.toNat && c.toNat ≤ 0x1F) || (0x2000 ≤ c.toNat && c.toNat ≤ 0x200A)
    || [0x85, 0xA0, 0x1680, 0x2028, 0x2029, 0x202F, 0x205F, 0x3000].contains c.toNat

/-- `str.strip()`. -/
def strStrip (s : List Char) : List Char := stripBy isSpace s

/-- Stripping text without white space at its ends changes nothing. -/
theorem stripBy_eq_self {α : Type*} {p : α → Bool} {s : List α} (h : ∀ x ∈ s, p x = false) :
    stripBy p s = s := by
  have hdrop : s.dropWhile p = s := by
    cases s with
    | nil => rfl
    | cons x xs => rw [List.dropWhile_cons_of_neg]; simp [h x List.mem_cons_self]
  rw [stripBy, hdrop, List.rdropWhile_eq_self_iff]
  intro hs
  simp [h _ (List.getLast_mem hs)]

/-! ## Case

The tables of Unicode are cut down to what can be told apart after the mapping: the result is
only ever compared with ASCII words, so only the characters with an ASCII image matter. -/

/-- `str.lower()` of one character, exact on the characters whose image is ASCII. -/
def lowerChar (c : Char) : Char :=
  if 'A' ≤ c ∧ c ≤ 'Z' then Char.ofNat (c.toNat + 32)
  else if c.toNat = 0x212A then 'k'
  else c

/-- `str.upper()` of one character, exact on the characters whose image is ASCII. -/
def upperChar (c : Char) : List Char :=
  if 'a' ≤ c ∧ c ≤ 'z' then [Char.ofNat (c.toNat - 32)]
  else match c.toNat with
    | 0xDF => ['S', 'S']
    | 0x131 => ['I']
    | 0x17F => ['S']
    | 0xFB00 => ['F', 'F']
    | 0xFB01 => ['F', 'I']
    | 0xFB02 => ['F', 'L']
    | 0xFB03 => ['F', 'F', 'I']
    | 0xFB04 => ['F', 'F', 'L']
    | 0xFB05 => ['S', 'T']
    | 0xFB06 => ['S', 'T']
    | _ => [c]

/-- `str.lower()`. -/
def strLower (s : List Char) : List Char := s.map lowerChar

/-- `str.upper()`. -/
def strUpper (s : List Char) : List Char := s.flatMap upperChar

/-! ## Hexadecimal -/

/-- The value of a hexadecimal digit. -/
def hexDigit? (c : Char) : Option ℕ :=
  if '0' ≤ c ∧ c ≤ '9' then some (c.toNat - 48)
  else if 'a' ≤ c ∧ c ≤ 'f' then some (c.toNat - 87)
  else if 'A' ≤ c ∧ c ≤ 'F' then some (c.toNat - 55)
  else none

/-- `bytes.fromhex`: pairs of digits, ASCII white space allowed between pairs; `none` is
`ValueError`. -/
def fromHex? : List Char → Option Bytes
  | [] => some []
  | c :: rest =>
    if isAsciiSpace c then fromHex? rest
    else match rest with
      | [] => none
      | d :: rest => do
        let hi ← hexDigit? c
        let lo ← hexDigit? d
        let more ← fromHex? rest
        return UInt8.ofNat (hi * 16 + lo) :: more

/-- The digit of a number below 16, lower case. -/
def hexLower (n : ℕ) : Char := Char.ofNat (if n < 10 then 48 + n else 87 + n)

/-! ## Numbers -/

/-- The zeros of the decimal digit blocks of Unicode. -/
def decimalZeros : List ℕ :=
  [0x30, 0x660, 0x6F0, 0x7C0, 0x966, 0x9E6, 0xA66, 0xAE6, 0xB66, 0xBE6, 0xC66, 0xCE6, 0xD66,
    0xDE6, 0xE50, 0xED0, 0xF20, 0x1040, 0x1090, 0x17E0, 0x1810, 0x1946, 0x19D0, 0x1A80, 0x1A90,
    0x1B50, 0x1BB0, 0x1C40, 0x1C50, 0xA620, 0xA8D0, 0xA900, 0xA9D0, 0xA9F0, 0xAA50, 0xABF0,
    0xFF10, 0x104A0, 0x10D30, 0x11066, 0x110F0, 0x11136, 0x111D0, 0x112F0, 0x11450, 0x114D0,
    0x11650, 0x116C0, 0x11730, 0x118E0, 0x11950, 0x11C50, 0x11D50, 0x11DA0, 0x11F50, 0x16A60,
    0x16AC0, 0x16B50, 0x1D7CE, 0x1D7D8, 0x1D7E2, 0x1D7EC, 0x1D7F6, 0x1E140, 0x1E2F0, 0x1E4F0,
    0x1E950, 0x1FBF0]

/-- Numbers are read after mapping digits and white space to ASCII; `'?'` stands for any
other character and is in no number. -/
def numChar (c : Char) : Char :=
  if c.toNat < 127 then c
  else if isSpace c then ' '
  else match decimalZeros.find? fun z => z ≤ c.toNat ∧ c.toNat < z + 10 with
    | some z => Char.ofNat (48 + (c.toNat - z))
    | none => '?'

/-- Decimal digits with single underscores between them: the value and the digit count. -/
def digits? : List Char → ℕ → ℕ → Bool → Option (ℕ × ℕ)
  | [], value, count, afterDigit => if afterDigit then some (value, count) else none
  | c :: rest, value, count, afterDigit =>
    if '0' ≤ c ∧ c ≤ '9' then digits? rest (value * 10 + (c.toNat - 48)) (count + 1) true
    else if c = '_' ∧ afterDigit then digits? rest value count false
    else none

/-- An optional sign: whether the number is negative, and what follows. -/
def sign : List Char → Bool × List Char
  | '-' :: rest => (true, rest)
  | '+' :: rest => (false, rest)
  | s => (false, s)

/-- `int(text)`; `none` is `ValueError`. -/
def parseInt? (s : List Char) : Option ℤ := do
  let (neg, body) := sign (stripBy isAsciiSpace (s.map numChar))
  let (value, _) ← digits? body 0 0 false
  return if neg then -(value : ℤ) else value

/-- Digits that may be absent. -/
def optDigits? (s : List Char) : Option (ℕ × ℕ) :=
  if s = [] then some (0, 0) else digits? s 0 0 false

/-- The unsigned decimal `123.45`, with digits on at least one side of the point. -/
def decimal? (s : List Char) : Option ℚ := do
  let (whole, frac) := (s.takeWhile (· ≠ '.'), (s.dropWhile (· ≠ '.')).drop 1)
  if whole = [] ∧ frac = [] then none
  let (w, _) ← optDigits? whole
  let (f, k) ← optDigits? frac
  return w + f / 10 ^ k

/-- The exponent after `e`: a signed digit string. -/
def scale? (s : List Char) : Option ℚ := do
  let (neg, body) := sign s
  let (e, _) ← digits? body 0 0 false
  return if neg then 1 / 10 ^ e else 10 ^ e

/-- `float(text)`; `none` is `ValueError`. -/
def parseFloat? (s : List Char) : Option PyFloat := do
  let (neg, body) := sign (stripBy isAsciiSpace (s.map numChar))
  let word := strLower body
  if word = "inf".toList ∨ word = "infinity".toList then
    return if neg then .negInf else .posInf
  if word = "nan".toList then return .nan
  let (mantissa, rest) := (word.takeWhile (· ≠ 'e'), word.dropWhile (· ≠ 'e'))
  let m ← decimal? mantissa
  let x ← if rest = [] then some 1 else scale? (rest.drop 1)
  return .fin (if neg then -(m * x) else m * x)

end Ddmp

import Ddmp.Models.Enums
import Ddmp.Python.Text

/-!
# Dynamically typed values

The values that reach the codecs and `set_frame`: what the codecs decode to, what a caller
may pass in, and the exceptions. A conversion (`bool(v)`, `float(v)`, `int(v)`, `str(v)`,
iteration) is a function into `Except PyErr`.
-/

namespace Ddmp

/-- Any object that is none of the built-in values below, known by what its conversions
return; `none` is an exception raised by the conversion. -/
structure PyObject where
  truth : Option Bool
  float : Option PyFloat
  int : Option ℤ
  text : Option String
deriving DecidableEq, Repr

/-- A Python value. -/
inductive Value
  | none
  | bool (b : Bool)
  | int (n : ℤ)
  | enum (m : EnumMember)
  | float (x : PyFloat)
  | str (s : String)
  | bytes (b : Bytes)
  | list (xs : List Value)
  | tuple (xs : List Value)
  | obj (o : PyObject)
deriving Repr

/-- A piece of an f-string: literal text or an interpolated value. -/
inductive FPart
  | lit (s : String)
  | val (v : Value)
deriving Repr

/-- An f-string, kept as its pieces. -/
abbrev FString := List FPart

/-- Exceptions. Those raised by the library carry their message; `valueError []` is one
raised by a built-in. `binascii.Error` is a `ValueError`. -/
inductive PyErr
  | decodeError (msg : FString)
  | notWritable (msg : FString)
  | stateUnknown (msg : FString)
  | connectionClosed (msg : FString)
  | writeRejected (msg : FString)
  | writeTimeout (msg : FString)
  | keyError (msg : FString)
  | valueError (msg : FString)
  | typeError
  | overflowError
  | structError
  | osError (text : String)
  | timeoutError
  | cancelledError
  | invalidStateError
deriving Repr

/-- The value of an option, or an exception. -/
def orRaise {α : Type} (e : PyErr) : Option α → Except PyErr α
  | some a => .ok a
  | Option.none => .error e

theorem orRaise_eq_ok {α : Type} {e : PyErr} {o : Option α} {a : α} :
    orRaise e o = .ok a ↔ o = some a := by
  cases o with
  | none => exact ⟨fun h => (nomatch h), fun h => (nomatch h)⟩
  | some b =>
    exact ⟨fun h => congrArg some (Except.ok.inj h), fun h => congrArg _ (Option.some.inj h)⟩

/-- `if c: raise e`. -/
def raiseIf (c : Prop) [Decidable c] (e : PyErr) : Except PyErr Unit :=
  if c then .error e else .ok ()

theorem raiseIf_eq_ok {c : Prop} [Decidable c] {e : PyErr} {u : Unit} :
    raiseIf c e = .ok u ↔ ¬ c := by
  unfold raiseIf
  split
  · rename_i hc
    exact ⟨fun h => (nomatch h), fun h => absurd hc h⟩
  · rename_i hc
    exact ⟨fun _ => hc, fun _ => rfl⟩

/-! ## Floats -/

namespace PyFloat

/-- `x * 1000`. -/
def times1000 : PyFloat → PyFloat
  | fin q => fin (q * 1000)
  | x => x

/-- `abs(x - y) <= tol`: false as soon as a NaN is involved. -/
def within (tol : ℚ) : PyFloat → PyFloat → Bool
  | fin q, fin r => |q - r| ≤ tol
  | _, _ => false

/-- `x <= y`. -/
def le : PyFloat → PyFloat → Bool
  | nan, _ => false
  | _, nan => false
  | negInf, _ => true
  | _, posInf => true
  | fin q, fin r => q ≤ r
  | _, _ => false

/-- The nearest integer, ties to even. -/
def roundHalfEven (q : ℚ) : ℤ :=
  let f := q.floor
  let r := q - f
  if r < 1 / 2 then f
  else if 1 / 2 < r then f + 1
  else if f % 2 = 0 then f else f + 1

/-- `round(x)`. -/
def round : PyFloat → Except PyErr ℤ
  | fin q => .ok (roundHalfEven q)
  | nan => .error (.valueError [])
  | _ => .error .overflowError

/-- `int(x)`: truncation. -/
def toInt : PyFloat → Except PyErr ℤ
  | fin q => .ok (q.num.tdiv q.den)
  | nan => .error (.valueError [])
  | _ => .error .overflowError

/-- `str(x)`: the exact decimal, or the fraction when there is none. -/
def text : PyFloat → String
  | posInf => "inf"
  | negInf => "-inf"
  | nan => "nan"
  | fin q =>
    match (List.range 20).find? fun k => 10 ^ (k + 1) % q.den = 0 with
    | Option.none => toString q.num ++ "/" ++ toString q.den
    | some k =>
      let scaled := q.num.natAbs * (10 ^ (k + 1) / q.den)
      let frac := toString (scaled % 10 ^ (k + 1))
      let zeros := String.ofList (List.replicate (k + 1 - frac.length) '0')
      (if q.num < 0 then "-" else "") ++ toString (scaled / 10 ^ (k + 1)) ++ "." ++ zeros ++ frac

end PyFloat

namespace Value

/-! ## Conversions -/

/-- `bool(v)`. -/
def truth : Value → Except PyErr Bool
  | none => .ok false
  | bool b => .ok b
  | int n => .ok (n != 0)
  | enum m => .ok (m.value != 0)
  | float (.fin q) => .ok (q != 0)
  | float _ => .ok true
  | str s => .ok (s != "")
  | bytes b => .ok (!b.isEmpty)
  | list xs => .ok (!xs.isEmpty)
  | tuple xs => .ok (!xs.isEmpty)
  | obj o => orRaise .typeError o.truth

/-- The text of a byte string in which a number is looked for: ASCII only. -/
def asciiText? (b : Bytes) : Option (List Char) :=
  if b.all fun x => x.toNat < 127 then some (b.map fun x => Char.ofNat x.toNat)
  else Option.none

/-- `float(v)`. -/
def toFloat : Value → Except PyErr PyFloat
  | bool b => .ok (.fin (if b then 1 else 0))
  | int n => .ok (.fin n)
  | enum m => .ok (.fin m.value)
  | float x => .ok x
  | str s => orRaise (.valueError []) (parseFloat? s.toList)
  | bytes b => orRaise (.valueError []) ((asciiText? b).bind parseFloat?)
  | obj o => orRaise .typeError o.float
  | _ => .error .typeError

/-- `int(v)`. -/
def toInt : Value → Except PyErr ℤ
  | bool b => .ok (if b then 1 else 0)
  | int n => .ok n
  | enum m => .ok m.value
  | float x => x.toInt
  | str s => orRaise (.valueError []) (parseInt? s.toList)
  | bytes b => orRaise (.valueError []) ((asciiText? b).bind parseInt?)
  | obj o => orRaise .typeError o.int
  | _ => .error .typeError

mutual

/-- `repr(v)`; text inside containers is quoted without looking for special characters. -/
def repr : Value → String
  | none => "None"
  | bool b => if b then "True" else "False"
  | int n => toString n
  | enum m => "<" ++ m.name ++ ": " ++ toString m.value ++ ">"
  | float x => x.text
  | str s => "'" ++ s ++ "'"
  | bytes b =>
    "b'" ++ String.ofList (b.flatMap fun x =>
      ['\\', 'x', hexLower (x.toNat / 16), hexLower (x.toNat % 16)]) ++ "'"
  | list xs => "[" ++ reprItems xs ++ "]"
  | tuple xs => "(" ++ reprItems xs ++ (if xs.length = 1 then ",)" else ")")
  | obj o => o.text.getD "<object>"

/-- The items of a container, separated by commas. -/
def reprItems : List Value → String
  | [] => ""
  | [x] => repr x
  | x :: y :: rest => repr x ++ ", " ++ reprItems (y :: rest)

end

/-- `str(v)`. -/
def text : Value → Except PyErr String
  | str s => .ok s
  | enum m => .ok (toString m.value)
  | obj o => orRaise .typeError o.text
  | v => .ok (repr v)

/-- The items of `for x in v`. -/
def iter : Value → Except PyErr (List Value)
  | list xs => .ok xs
  | tuple xs => .ok xs
  | str s => .ok (s.toList.map fun c => str (String.singleton c))
  | bytes b => .ok (b.map fun x => int x.toNat)
  | _ => .error .typeError

/-- `len(v)`. -/
def len : Value → Except PyErr ℕ
  | list xs => .ok xs.length
  | tuple xs => .ok xs.length
  | str s => .ok s.length
  | bytes b => .ok b.length
  | _ => .error .typeError

/-- `a, b = v`. -/
def unpackPair (v : Value) : Except PyErr (Value × Value) := do
  match ← v.iter with
  | [a, b] => .ok (a, b)
  | _ => .error (.valueError [])

/-- The number a numeric value stands for; `bool` and `IntEnum` are numbers too. -/
def number? : Value → Option PyFloat
  | bool b => some (.fin (if b then 1 else 0))
  | int n => some (.fin n)
  | enum m => some (.fin m.value)
  | float x => some x
  | _ => Option.none

/-- `a <= b` between numbers; anything else does not compare with a number. -/
def le (a b : Value) : Except PyErr Bool :=
  match a.number?, b.number? with
  | some x, some y => .ok (x.le y)
  | _, _ => .error .typeError

/-- `v or other`. -/
def orElse (v other : Value) : Except PyErr Value := do
  if ← v.truth then return v else return other

/-- A value of a `dict.get`, with `None` for a missing key. -/
def ofOption : Option Value → Value
  | some v => v
  | Option.none => none

mutual

/-- `a == b`. -/
def eq : Value → Value → Bool
  | none, none => true
  | str a, str b => a == b
  | bytes a, bytes b => a == b
  | list xs, list ys => eqItems xs ys
  | tuple xs, tuple ys => eqItems xs ys
  | obj a, obj b => decide (a = b)
  | a, b =>
    match a.number?, b.number? with
    | some (.fin q), some (.fin r) => decide (q = r)
    | some .posInf, some .posInf => true
    | some .negInf, some .negInf => true
    | _, _ => false

/-- Item by item equality. -/
def eqItems : List Value → List Value → Bool
  | [], [] => true
  | x :: xs, y :: ys => eq x y && eqItems xs ys
  | _, _ => false

end

end Value

end Ddmp

import Ddmp.Lib.Dict
import Ddmp.Python.Value

/-!
# The decoded cooler state

`CoolerState.from_values` reads a `{topic name: decoded value}` mapping. The values are
dynamically typed, so it can raise: `max` and `range` want integers, `len` and iteration want
sequences.
-/

namespace Ddmp

open Lib

/-- One compartment. -/
structure Compartment where
  index : ℕ
  powered : Value := .none
  temperatureC : Value := .none
  setpointC : Value := .none
  doorOpen : Value := .none
  rangeC : Value := .none
  recommendedRangeC : Value := .none
  offsetC : Value := .none

/-- Latest published values. -/
structure CoolerState where
  productName : Value := .none
  productType : Value := .none
  compartmentCount : Value := .none
  serial : Value := .none
  article : Value := .none
  cmsSku : Value := .none
  firmware : Value := .none
  firmwareId : Value := .none
  controllerFirmware : Value := .none
  mac : Value := .none
  compartments : List Compartment := []
  activeCompartment : Value := .none
  coolerOn : Value := .none
  compressorOn : Value := .none
  voltageV : Value := .none
  currentA : Value := .none
  powerSource : Value := .none
  batteryProtection : Value := .none
  iceMakerOn : Value := .none
  errorCodes : List Value := []

/-- The attributes of a compartment that come from a per-compartment topic. -/
inductive CompartmentAttr
  | powered
  | temperatureC
  | setpointC
  | doorOpen
  | rangeC
  | recommendedRangeC
  | offsetC
deriving DecidableEq, Repr

namespace CompartmentAttr

/-- The attributes in the order of the `arrays` dictionary. -/
def all : List CompartmentAttr :=
  [powered, temperatureC, setpointC, doorOpen, rangeC, recommendedRangeC, offsetC]

/-- The topic an attribute is read from. -/
def topicName : CompartmentAttr → String
  | powered => "cpow"
  | temperatureC => "ctemp"
  | setpointC => "csettemp"
  | doorOpen => "cdoor"
  | rangeC => "ctemprng"
  | recommendedRangeC => "crecdrng"
  | offsetC => "ctempofs"

end CompartmentAttr

/-- `setattr(compartment, attr, v)`. -/
def Compartment.setAttr (c : Compartment) (v : Value) : CompartmentAttr → Compartment
  | .powered => { c with powered := v }
  | .temperatureC => { c with temperatureC := v }
  | .setpointC => { c with setpointC := v }
  | .doorOpen => { c with doorOpen := v }
  | .rangeC => { c with rangeC := v }
  | .recommendedRangeC => { c with recommendedRangeC := v }
  | .offsetC => { c with offsetC := v }

namespace CoolerState

/-- `values.get(name)`. -/
def get (values : Dict String Value) (name : String) : Value := .ofOption (values.get? name)

/-- `tuple(errs) if errs else ()`. -/
def tupleOf (errs : Value) : Except PyErr (List Value) := do
  if ← errs.truth then errs.iter else return []

/-- `range(max(lengths + [count]))`, where only `count` may not be an integer: `max` keeps the
first of equal values, so the result is the count only if it exceeds every length. -/
def maxCount (lengths : List ℕ) (count : Value) : Except PyErr ℤ :=
  let longest : ℕ := lengths.foldl max 0
  match count.number? with
  | none => .error .typeError
  | some x =>
    if x = .nan ∨ x.le (.fin longest) then .ok longest
    else match count with
      | .float _ => .error .typeError
      | v => v.toInt

/-- `for i, v in enumerate(arr): if i < count: setattr(compartments[i], attr, v)`. -/
def fill (attr : CompartmentAttr) : List Value → List Compartment → List Compartment
  | v :: vs, c :: cs => c.setAttr v attr :: fill attr vs cs
  | _, cs => cs

/-- `CoolerState.from_values`. -/
def fromValues (values : Dict String Value) : Except PyErr CoolerState := do
  let errorCodes ← tupleOf (get values "errst")
  let arrays ← CompartmentAttr.all.mapM fun attr => do
    let arr ← (get values attr.topicName).orElse (.list [])
    return (attr, arr)
  let lengths ← arrays.mapM fun e => e.2.len
  let compartmentCount := get values "nocpt"
  let count ← maxCount lengths (← compartmentCount.orElse (.int 0))
  let blank : List Compartment := (List.range count.toNat).map fun i => { index := i }
  let compartments ← arrays.foldlM (fun cs e => do return fill e.1 (← e.2.iter) cs) blank
  return {
    productName := get values "product_name"
    productType := get values "ptype"
    compartmentCount
    serial := get values "sn"
    article := get values "sku"
    cmsSku := get values "cms_sku"
    firmware := get values "gw_fwver"
    firmwareId := get values "cfg_fwid"
    controllerFirmware := get values "fwver"
    mac := get values "gw_mac"
    compartments
    activeCompartment := get values "acpt"
    coolerOn := get values "coolerpow"
    compressorOn := get values "comppow"
    voltageV := get values "v"
    currentA := get values "i"
    powerSource := get values "powsrc"
    batteryProtection := get values "batprotlvl"
    iceMakerOn := get values "icepow"
    errorCodes }

end CoolerState

end Ddmp

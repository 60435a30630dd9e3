import Mathlib.Data.Int.Notation
import Mathlib.Tactic.Common

/-!
# Enumerations

The three `IntEnum` classes of the protocol. A member is also the integer of its code, so
the codec layer needs three things of a class: calling it with an integer, indexing it with
a name, and the code of a member.
-/

namespace Ddmp

/-- Battery protection level. -/
inductive BatteryProtection
  | LOW
  | MEDIUM
  | HIGH
deriving DecidableEq, Repr

/-- Power source. -/
inductive PowerSource
  | AC
  | DC
deriving DecidableEq, Repr

/-- Product type. -/
inductive ProductType
  | UNCONFIGURED
  | SINGLE_ZONE
  | SINGLE_ZONE_ICEMAKER
  | DUAL_ZONE
deriving DecidableEq, Repr

/-- A member of one of the `IntEnum` classes. -/
inductive EnumMember
  | batteryProtection (m : BatteryProtection)
  | powerSource (m : PowerSource)
  | productType (m : ProductType)
deriving DecidableEq, Repr

/-- The `IntEnum` classes. -/
inductive EnumClass
  | batteryProtection
  | powerSource
  | productType
deriving DecidableEq, Repr

/-- The integer a member is. -/
def EnumMember.value : EnumMember → ℤ
  | .batteryProtection .LOW => 0
  | .batteryProtection .MEDIUM => 1
  | .batteryProtection .HIGH => 2
  | .powerSource .AC => 0
  | .powerSource .DC => 1
  | .productType .UNCONFIGURED => 0
  | .productType .SINGLE_ZONE => 1
  | .productType .SINGLE_ZONE_ICEMAKER => 2
  | .productType .DUAL_ZONE => 3

/-- The name of a member. -/
def EnumMember.name : EnumMember → String
  | .batteryProtection .LOW => "LOW"
  | .batteryProtection .MEDIUM => "MEDIUM"
  | .batteryProtection .HIGH => "HIGH"
  | .powerSource .AC => "AC"
  | .powerSource .DC => "DC"
  | .productType .UNCONFIGURED => "UNCONFIGURED"
  | .productType .SINGLE_ZONE => "SINGLE_ZONE"
  | .productType .SINGLE_ZONE_ICEMAKER => "SINGLE_ZONE_ICEMAKER"
  | .productType .DUAL_ZONE => "DUAL_ZONE"

/-- The members of a class, in definition order. -/
def EnumClass.members : EnumClass → List EnumMember
  | .batteryProtection =>
    [.batteryProtection .LOW, .batteryProtection .MEDIUM, .batteryProtection .HIGH]
  | .powerSource => [.powerSource .AC, .powerSource .DC]
  | .productType =>
    [.productType .UNCONFIGURED, .productType .SINGLE_ZONE,
      .productType .SINGLE_ZONE_ICEMAKER, .productType .DUAL_ZONE]

/-- `enum_cls(raw)`: the member with that code, `none` for `ValueError`. -/
def EnumClass.ofValue? (c : EnumClass) (n : ℤ) : Option EnumMember :=
  c.members.find? fun m => m.value = n

/-- `enum_cls[name]`: the member with that name, `none` for `KeyError`. -/
def EnumClass.ofName? (c : EnumClass) (name : String) : Option EnumMember :=
  c.members.find? fun m => m.name = name

end Ddmp

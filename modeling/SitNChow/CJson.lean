/-
C strings and cJSON values, as far as the firmware looks at them.

A C string is the list of its bytes before the terminating NUL, so
`strcmp` is equality and `strncpy` a prefix. A `CJson` is the value tree
`cJSON_Parse` returns; numbers are the rationals their `valuedouble`
stands for.
-/
import Mathlib.Data.Rat.Defs

namespace SitNChow

-- ========================================================== C strings

/-- The bytes of a C string before its NUL. -/
abbrev CString := List UInt8

/-- An ASCII literal of the source as a C string. -/
def cstr (s : String) : CString := s.toList.map fun c => UInt8.ofNat c.toNat

/-- `tolower` on one byte, in the C locale. -/
def tolower (b : UInt8) : UInt8 := if 65 ≤ b ∧ b ≤ 90 then b + 32 else b

/-- `case_insensitive_strcmp(a, b) == 0` of cJSON. -/
def caseInsensitiveEq (a b : CString) : Bool := a.map tolower == b.map tolower

-- =============================================================== cJSON

/-- A parsed JSON value; object members in document order. -/
inductive CJson where
  | null
  | bool (b : Bool)
  | number (valuedouble : Rat)
  | string (valuestring : CString)
  | array (items : List CJson)
  | object (items : List (CString × CJson))

namespace CJson

/-- `cJSON_GetObjectItem`: the first member whose name matches without
regard to case. Array items carry no name and scalars have no items, so
only objects answer. -/
def getObjectItem (name : CString) : CJson → Option CJson
  | .object items =>
      (items.find? fun kv => caseInsensitiveEq name kv.1).map Prod.snd
  | _ => none

/-- `cJSON_IsTrue`. -/
def isTrue : CJson → Bool
  | .bool b => b
  | _ => false

/-- The C cast `(int)valuedouble`: the fraction is cut off toward zero.
The result is meaningful for values in `int` range. -/
def toInt (v : Rat) : Int := v.num.tdiv v.den

end CJson

end SitNChow

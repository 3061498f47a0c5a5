/-!
# Primitive types
-/

namespace Schemata

/-- The types that are not made of others. -/
inductive Primitive where
  | boolean
  | string
  | bytes
  | datetime
  | any
  | u32
  | u64
  | i32
  | i64
  | float
  | double
deriving DecidableEq, Repr

namespace Primitive

/-- The written form of a primitive type. -/
def name : Primitive → String
  | boolean => "boolean"
  | string => "string"
  | bytes => "bytes"
  | datetime => "datetime"
  | any => "any"
  | u32 => "u32"
  | u64 => "u64"
  | i32 => "i32"
  | i64 => "i64"
  | float => "float"
  | double => "double"

/-- The least and the greatest value of an integer type. -/
def range? : Primitive → Option (Int × Int)
  | u32 => some (0, 4294967295)
  | u64 => some (0, 18446744073709551615)
  | i32 => some (-2147483648, 2147483647)
  | i64 => some (-9223372036854775808, 9223372036854775807)
  | _ => none

/-- The type has whole numbers as its values. -/
def isInteger
    (p : Primitive) :
    Bool :=
  p.range?.isSome

/-- All primitive types. -/
def all : List Primitive :=
  [boolean, string, bytes, datetime, any, u32, u64, i32, i64, float, double]

/-- The primitive type with a name. -/
def parse?
    (name : String) :
    Option Primitive :=
  all.find? (·.name == name)

end Primitive

end Schemata

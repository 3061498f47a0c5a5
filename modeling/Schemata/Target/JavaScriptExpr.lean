import Schemata.Target.JavaScriptName

/-!
# JavaScript: reading and writing values

Expressions that read a value from a document and write it to one.  Parameters
of nested functions are numbered by depth.
-/

namespace Schemata
namespace Target
namespace JavaScript

/-- The range of an integer type, within the numbers that are exact. -/
def integerBounds : Primitive → String
  | .u32 => "0, 4294967295"
  | .i32 => "-2147483648, 2147483647"
  | .u64 => "0, Number.MAX_SAFE_INTEGER"
  | _ => "Number.MIN_SAFE_INTEGER, Number.MAX_SAFE_INTEGER"

/-- A primitive value read from `value`; `name` is what an error says. -/
def decodePrimitive
    (value name : String) :
    Primitive → String
  | .string | .datetime | .bytes => s!"_string({name}, {value})"
  | .boolean => s!"_boolean({name}, {value})"
  | .float | .double => s!"_number({name}, {value})"
  | .any => value
  | p => s!"_integer({name}, {value}, {integerBounds p})"

/-- A function that reads the key of an object. -/
def decodeKey
    (name : String) :
    TypeRef → String
  | .primitive p =>
      if p.isInteger then s!"(k) => _integerKey({name}, k, {integerBounds p})" else "(k) => k"
  | _ => "(k) => k"

/-- The parameter of a function at a depth. -/
def parameter
    (depth : Nat) :
    String :=
  s!"v{depth}"

mutual

/-- An expression that reads a type from `value` in the module of package `home`; `name` is what
an error says. -/
def decodeExpr
    (s : Schema)
    (home : Nat)
    (name : String) :
    Nat → String → TypeRef → String
  | _, value, .primitive p => decodePrimitive value name p
  | _, value, .decl id => s!"{classRef s home id}.decode({value})"
  | depth, value, .array item =>
      let x := parameter depth
      s!"_array({name}, {value}, ({x}) => {decodeExpr s home name (depth + 1) x item})"
  | depth, value, .map key item =>
      let x := parameter depth
      let body := decodeExpr s home name (depth + 1) x item
      s!"_map({name}, {value}, {decodeKey name key}, ({x}) => {body})"
  | depth, value, .tuple items =>
      let decoders := String.intercalate ", " (decoders s home name depth items)
      s!"_tuple({name}, {value}, [{decoders}])"

/-- Functions that read the items of a tuple. -/
def decoders
    (s : Schema)
    (home : Nat)
    (name : String) :
    Nat → List TypeRef → List String
  | _, [] => []
  | depth, type :: rest =>
      let x := parameter depth
      s!"({x}) => {decodeExpr s home name (depth + 1) x type}" :: decoders s home name depth rest

end

mutual

/-- An expression that writes `value`. -/
def encodeExpr :
    Nat → String → TypeRef → String
  | _, value, .primitive _ => value
  | _, value, .decl _ => s!"{value}.encode()"
  | depth, value, .array item =>
      let x := parameter depth
      s!"{value}.map(({x}) => {encodeExpr (depth + 1) x item})"
  | depth, value, .map _ item =>
      let x := parameter depth
      s!"_encodeMap({value}, ({x}) => {encodeExpr (depth + 1) x item})"
  | depth, value, .tuple items =>
      "[" ++ String.intercalate ", " (encodeItems (depth + 1) value 0 items) ++ "]"

/-- Expressions that write the items of a tuple, from an index on. -/
def encodeItems :
    Nat → String → Nat → List TypeRef → List String
  | _, _, _, [] => []
  | depth, value, index, type :: rest =>
      encodeExpr depth s!"{value}[{index}]" type :: encodeItems depth value (index + 1) rest

end

end JavaScript
end Target
end Schemata

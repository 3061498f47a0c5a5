import Schemata.Emit.Code

/-!
# JavaScript: what every module starts with

Functions that check, read and compare values, so that a module depends on
nothing else.
-/

namespace Schemata
namespace Target
namespace JavaScript

open Code

/-- Give up with what was expected. -/
def failFunction : Code :=
  block "function _fail(name, expected, value)" <|
    line ("throw new Error(name + \": expected \" + expected + \","
        ++ " got \" + JSON.stringify(value));")

/-- A key is there and has a value. -/
def presentFunction : Code :=
  block "function _present(data, key)" <|
    line ("return Object.prototype.hasOwnProperty.call(data, key) && data[key] !== null"
        ++ " && data[key] !== undefined;")

/-- Set a key, whatever its name. -/
def putFunction : Code :=
  block "function _put(out, key, value)" <|
    line ("Object.defineProperty(out, key, \x7b value, enumerable: true,"
        ++ " writable: true, configurable: true \x7d);")

/-- Check for an object. -/
def objectFunction : Code :=
  block "function _object(name, value)" <|
    block "if (value === null || typeof value !== \"object\" || Array.isArray(value))"
        (line "_fail(name, \"object\", value);")
      ++ line "return value;"

/-- Check for a text. -/
def stringFunction : Code :=
  block "function _string(name, value)" <|
    block "if (typeof value !== \"string\")" (line "_fail(name, \"string\", value);")
      ++ line "return value;"

/-- Check for a truth value. -/
def booleanFunction : Code :=
  block "function _boolean(name, value)" <|
    block "if (typeof value !== \"boolean\")" (line "_fail(name, \"boolean\", value);")
      ++ line "return value;"

/-- Check for a number. -/
def numberFunction : Code :=
  block "function _number(name, value)" <|
    block "if (typeof value !== \"number\")" (line "_fail(name, \"number\", value);")
      ++ line "return value;"

/-- Check for a whole number in a range. -/
def integerFunction : Code :=
  block "function _integer(name, value, min, max)" <|
    block "if (!Number.isInteger(value) || value < min || value > max)"
        (line "_fail(name, \"integer in [\" + min + \", \" + max + \"]\", value);")
      ++ line "return value;"

/-- Check for a key that is a whole number in a range. -/
def integerKeyFunction : Code :=
  block "function _integerKey(name, key, min, max)" <|
    line "_integer(name, /^-?[0-9]+$/.test(key) ? Number(key) : NaN, min, max);"
      ++ line "return key;"

/-- Read an array. -/
def arrayFunction : Code :=
  block "function _array(name, value, decode)" <|
    block "if (!Array.isArray(value))" (line "_fail(name, \"array\", value);")
      ++ line "return value.map(decode);"

/-- Read an object whose keys are data. -/
def mapFunction : Code :=
  block "function _map(name, value, key, decode)" <|
    line "_object(name, value);"
      ++ line "const out = \x7b\x7d;"
      ++ block "for (const k of Object.keys(value))" (line "_put(out, key(k), decode(value[k]));")
      ++ line "return out;"

/-- Write an object whose keys are data. -/
def encodeMapFunction : Code :=
  block "function _encodeMap(value, encode)" <|
    line "const out = \x7b\x7d;"
      ++ block "for (const k of Object.keys(value))" (line "_put(out, k, encode(value[k]));")
      ++ line "return out;"

/-- Read an array of fixed length. -/
def tupleFunction : Code :=
  block "function _tuple(name, value, decoders)" <|
    block "if (!Array.isArray(value))" (line "_fail(name, \"array\", value);")
      ++ block "if (value.length < decoders.length)"
          (line "throw new Error(name + \"[\" + value.length + \"]: missing field\");")
      ++ line "return decoders.map((decode, i) => decode(value[i]));"

/-- Compare two values. -/
def equalsFunction : Code :=
  block "function _equals(a, b)" <|
    block "if (a === b)" (line "return true;")
      ++ block ("if (a === null || b === null"
             ++ " || typeof a !== \"object\" || typeof b !== \"object\")")
          (line "return false;")
      ++ block "if (typeof a.equals === \"function\")" (line "return a.equals(b);")
      ++ block "if (Array.isArray(a))"
          (block "if (!Array.isArray(b) || a.length !== b.length)" (line "return false;")
             ++ line "return a.every((item, i) => _equals(item, b[i]));")
      ++ line "const keys = Object.keys(a);"
      ++ block "if (keys.length !== Object.keys(b).length)" (line "return false;")
      ++ line ("return keys.every((k) => Object.prototype.hasOwnProperty.call(b, k)"
             ++ " && _equals(a[k], b[k]));")

/-- The hash of a value. -/
def hashFunction : Code :=
  block "function _hash(value)" <|
    block "if (value === null || value === undefined)" (line "return 0;")
      ++ block "if (typeof value.hashCode === \"function\")" (line "return value.hashCode();")
      ++ block "if (typeof value === \"boolean\")" (line "return value ? 1231 : 1237;")
      ++ block "if (typeof value === \"number\")" (line "return _hash(String(value));")
      ++ block "if (typeof value === \"string\")"
          (line "let result = 0;"
             ++ block "for (let i = 0; i < value.length; i++)"
                 (line "result = (result * 31 + value.charCodeAt(i)) | 0;")
             ++ line "return result;")
      ++ block "if (Array.isArray(value))"
          (line "let result = 1;"
             ++ block "for (const item of value)"
                 (line "result = (result * 31 + _hash(item)) | 0;")
             ++ line "return result;")
      ++ line "let result = 0;"
      ++ block "for (const k of Object.keys(value))"
          (line "result = (result + (_hash(k) ^ _hash(value[k]))) | 0;")
      ++ line "return result;"

/-- The functions that every module starts with. -/
def preludeCode : Code :=
  List.flatten <| List.intersperse blank
    [failFunction, presentFunction, putFunction, objectFunction,
     stringFunction, booleanFunction, numberFunction, integerFunction,
     integerKeyFunction, arrayFunction, mapFunction, encodeMapFunction,
     tupleFunction, equalsFunction, hashFunction]

end JavaScript
end Target
end Schemata

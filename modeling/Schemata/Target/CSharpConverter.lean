import Schemata.Resolve.Untagged
import Schemata.Target.CSharpClass

/-!
# C#: converters

Tuples are arrays in documents, and cases of untagged interfaces are known by
their keys; both have a converter class of their own.
-/

namespace Schemata
namespace Target
namespace CSharp

open Code
open Emit (Member)

/-- The header of a converter. -/
def converterHeader : String :=
  "public class Json_Net_Converter : JsonConverter"

/-- The header of the method that tells which types a converter is for. -/
def canConvertHeader : String :=
  "public override bool CanConvert(System.Type objectType)"

/-- The header of the method that writes a document. -/
def writeHeader : String :=
  "public override void WriteJson(JsonWriter writer, Object obj, JsonSerializer serializer)"

/-- The header of the method that reads a document. -/
def readHeader : String :=
  "public override Object ReadJson(JsonReader reader, System.Type objectType, "
    ++ "Object existingValue, JsonSerializer serializer)"

/-- The name of the local variable of a property. -/
def localName
    (m : Member) :
    String :=
  s!"f_{m.ident}"

/-- Read one item of a tuple. -/
def readItem
    (s : Schema)
    (home : Nat)
    (m : Member)
    (index : Nat) :
    Code :=
  let type := propertyType s home m.field
  let missing := Text.literal s!"missing field: {index}"
  blank
    ++ block "if (!enumerator.MoveNext())"
        (line s!"throw new InvalidOperationException({missing});")
    ++ blank
    ++ line s!"{type} {localName m} = enumerator.Current.ToObject<{type}>(serializer);"

/-- The converter of a tuple. -/
def tupleConverter
    (s : Schema)
    (home : Nat)
    (path : String)
    (fields : List Field) :
    Code :=
  let ms := properties fields
  let locals := String.intercalate ", " (ms.map localName)
  block converterHeader <|
    block canConvertHeader (line s!"return objectType == typeof({path});")
      ++ blank
      ++ block writeHeader
          (line s!"{path} o = ({path})obj;"
            ++ line "JArray array = new JArray();"
            ++ blank
            ++ lines (ms.map fun m => s!"array.Add(JToken.FromObject(o.{m.ident}, serializer));")
            ++ blank
            ++ line "array.WriteTo(writer);")
      ++ blank
      ++ block readHeader
          (line "JArray array = JArray.Load(reader);"
            ++ line "IEnumerator<JToken> enumerator = array.GetEnumerator();"
            ++ ms.zipIdx.flatMap (fun (m, index) => readItem s home m index)
            ++ blank
            ++ line s!"return new {path}({locals});")

/-- The condition under which an object is read as a case: the keys that it must have. -/
def caseCondition
    (keys : List String) :
    String :=
  if keys.isEmpty then "true"
  else String.intercalate " && " (keys.map fun key => s!"o.ContainsKey({Text.literal key})")

/-- Read a case, if its keys are there. -/
def readCase
    (path : String)
    (body : InterfaceBody)
    (c : SubType) :
    Code :=
  blank
    ++ block s!"if ({caseCondition (Untagged.requiredKeys body c)})"
        (line "_isInsideRead = true;"
          ++ twoBlocks "try"
              (line <| "return serializer.Deserialize(o.CreateReader(), "
                ++ s!"typeof({path}.{typeIdent c.name}));")
              "finally" (line "_isInsideRead = false;"))

/-- The converter of an untagged interface. -/
def untaggedConverter
    (path : String)
    (body : InterfaceBody) :
    Code :=
  let fail := fun message => line s!"throw new InvalidOperationException({Text.literal message});"
  block converterHeader <|
    line "[ThreadStatic]"
      ++ line "private static bool _isInsideRead;"
      ++ blank
      ++ block "public override bool CanWrite" (line "get \x7b return false; \x7d")
      ++ blank
      ++ block "public override bool CanRead" (line "get \x7b return !_isInsideRead; \x7d")
      ++ blank
      ++ block canConvertHeader (line "return false;")
      ++ blank
      ++ block writeHeader (fail "not implemented")
      ++ blank
      ++ block readHeader
          (line "JObject o = JObject.Load(reader);"
            ++ body.subTypes.flatMap (readCase path body)
            ++ blank
            ++ fail "no sub-type matches the fields present")

end CSharp
end Target
end Schemata

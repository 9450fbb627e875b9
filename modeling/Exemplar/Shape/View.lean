import Exemplar.Json
import Exemplar.Shape

/-!
# The view of inferred roots

Roots are shown as JSON. A shape tells its form under `type` and what it consists of under `of`;
a root tells its form under `root`. Samples are not part of the view.
-/

namespace Exemplar

def ScalarKind.viewName : ScalarKind → String
  | null => "null"
  | boolean => "bool"
  | int64 => "int64"
  | bigInteger => "big_int"
  | float64 => "float64"
  | bigFloat => "big_float"
  | string => "string"

mutual

def Shape.view : Shape → Json
  | .scalar kind => .object [("type", .string "scalar"), ("of", .string kind.viewName)]
  | .struct record => .object [("type", .string "struct"), ("of", record.view)]
  | .structSlice record => .object [("type", .string "struct_slice"), ("of", record.view)]
  | .slice element => .object [("type", .string "homogeneous_slice"), ("of", element.view)]
  | .anySlice => .object [("type", .string "opaque_slice")]
  | .any => .object [("type", .string "opaque")]

def Record.view : Record → Json
  | ⟨name, fields⟩ => .object [("name", .string name), ("fields", .array (Field.views fields))]

def Field.views : List Field → List Json
  | [] => []
  | field :: fields => field.view :: Field.views fields

def Field.view : Field → Json
  | ⟨sourceKey, identifier, shape, optional, _⟩ =>
    .object [("source_key", .string sourceKey), ("identifier", .string identifier),
      ("descriptor", shape.view), ("optional", .boolean optional)]

end

/-- The view of a root. A record shows its own members beside the tag. -/
def Root.view : Root → Json
  | .record ⟨name, fields⟩ =>
    .object [("root", .string "record"), ("name", .string name),
      ("fields", .array (Field.views fields))]
  | .slice name shape =>
    .object [("root", .string "slice"), ("name", .string name), ("descriptor", shape.view)]

def Root.viewText (roots : List Root) : String :=
  (Json.array (roots.map Root.view)).pretty

end Exemplar

import Exemplar.CommandLine
import Exemplar.Proofs.Absorption
import Exemplar.Proofs.JsonReading

/-!
# The view loses nothing but samples

A view can be read back: what a shape is stands under `type` and what it consists of under `of`, and
what a root is stands under `root`. Reading looks members up by their keys, so the members of a
record and the tag of a root may share an object. What is read back from the view of something is
that thing without its samples.
-/

namespace Exemplar

namespace Value

theorem weight_lt_of_lookup {v w : Value} {key : String} (h : v.members.lookup key = some w) :
    w.weight < v.weight := by
  obtain ⟨before, after, hsplit, -⟩ := List.lookup_eq_some_iff.mp h
  have hmem : (key, w) ∈ v.members := by simp [hsplit]
  exact Nat.lt_of_le_of_lt (weight_le_memberWeight hmem) (memberWeight_members_lt v)

/-- The value of a member of an object. -/
def member? (v : Value) (key : String) : Option {w : Value // w.weight < v.weight} :=
  (v.members.lookup key).pmap (fun w h => ⟨w, h⟩) fun _ h => weight_lt_of_lookup h

/-- The text that a member of an object is. -/
def textAt? (v : Value) (key : String) : Option String :=
  match v.members.lookup key with
  | some (string text) => some text
  | _ => none

/-- The truth value that a member of an object is. -/
def flagAt? (v : Value) (key : String) : Option Bool :=
  match v.members.lookup key with
  | some (boolean flag) => some flag
  | _ => none

theorem member?_of_lookup {v w : Value} {key : String} (h : v.members.lookup key = some w) :
    v.member? key = some ⟨w, weight_lt_of_lookup h⟩ := by
  simp only [member?, h, Option.pmap_some]

end Value

/-! Reading -/

def ScalarKind.ofViewName? : String → Option ScalarKind
  | "null" => some null
  | "bool" => some boolean
  | "int64" => some int64
  | "big_int" => some bigInteger
  | "float64" => some float64
  | "big_float" => some bigFloat
  | "string" => some string
  | _ => none

mutual

/-- The shape that a value is the view of. -/
def Shape.ofView? (v : Value) : Option Shape := do
  match ← v.textAt? "type" with
  | "scalar" => return .scalar (← ScalarKind.ofViewName? (← v.textAt? "of"))
  | "struct" =>
    let ⟨content, _⟩ ← v.member? "of"
    return .struct (← Record.ofView? content)
  | "struct_slice" =>
    let ⟨content, _⟩ ← v.member? "of"
    return .structSlice (← Record.ofView? content)
  | "homogeneous_slice" =>
    let ⟨content, _⟩ ← v.member? "of"
    return .slice (← Shape.ofView? content)
  | "opaque_slice" => return .anySlice
  | "opaque" => return .any
  | _ => none
termination_by 2 * v.weight

/-- The record that a value is the view of. -/
def Record.ofView? (v : Value) : Option Record :=
  match v.member? "fields" with
  | some ⟨.array elements, _⟩ =>
    return ⟨← v.textAt? "name", ← Field.allOfView? elements⟩
  | _ => none
termination_by 2 * v.weight
decreasing_by
  rename_i hlt
  rw [Value.weight] at hlt
  omega

/-- The fields that values are the views of. -/
def Field.allOfView? : List Value → Option (List Field)
  | [] => some []
  | v :: rest => return (← Field.ofView? v) :: (← Field.allOfView? rest)
termination_by vs => 2 * Value.totalWeight vs + 1
decreasing_by
  · rw [Value.totalWeight]
    omega
  · have := v.memberWeight_members_lt
    rw [Value.totalWeight]
    omega

/-- The field that a value is the view of. -/
def Field.ofView? (v : Value) : Option Field := do
  let ⟨content, _⟩ ← v.member? "descriptor"
  return ⟨← v.textAt? "source_key", ← v.textAt? "identifier", ← Shape.ofView? content,
    ← v.flagAt? "optional", none⟩
termination_by 2 * v.weight

end

/-- The root that a value is the view of. A record is read from the object that holds the tag. -/
def Root.ofView? (v : Value) : Option Root := do
  match ← v.textAt? "root" with
  | "record" => return .record (← Record.ofView? v)
  | "slice" =>
    let ⟨content, _⟩ ← v.member? "descriptor"
    return .slice (← v.textAt? "name") (← Shape.ofView? content)
  | _ => none

/-- The roots that a document shows. -/
def Root.allOfView? : Value → Option (List Root)
  | .array elements => elements.mapM Root.ofView?
  | _ => none

/-- A root without samples. -/
def Root.unsampled : Root → Root
  | record r => record r.unsampled
  | slice name shape => slice name shape.unsampled

/-! Reading what is shown -/

theorem ScalarKind.ofViewName?_viewName (kind : ScalarKind) :
    ofViewName? kind.viewName = some kind := by
  cases kind <;> rfl

/-- A record is read from any object that holds its members. -/
theorem Record.ofView?_of_lookup {v : Value} {name : String} {elements : List Value}
    {fields : List Field} (hname : v.textAt? "name" = some name)
    (helements : v.members.lookup "fields" = some (.array elements))
    (hfields : Field.allOfView? elements = some fields) :
    Record.ofView? v = some ⟨name, fields⟩ := by
  rw [Record.ofView?, hname, Value.member?_of_lookup helements]
  simp [hfields]

mutual

/-- A shape is read back from its view, without the samples inside. -/
theorem Shape.ofView?_view : ∀ s : Shape, Shape.ofView? s.view.value = some s.unsampled
  | .scalar kind => by
    have htype : (Shape.scalar kind).view.value.textAt? "type" = some "scalar" := rfl
    have hof : (Shape.scalar kind).view.value.textAt? "of" = some kind.viewName := rfl
    rw [Shape.ofView?, htype, hof]
    simp [ScalarKind.ofViewName?_viewName, Shape.unsampled]
  | .struct record => by
    have htype : (Shape.struct record).view.value.textAt? "type" = some "struct" := rfl
    have hof : (Shape.struct record).view.value.members.lookup "of" = some record.view.value := rfl
    rw [Shape.ofView?, htype, Value.member?_of_lookup hof]
    simp [Record.ofView?_view record, Shape.unsampled]
  | .structSlice record => by
    have htype : (Shape.structSlice record).view.value.textAt? "type" = some "struct_slice" := rfl
    have hof : (Shape.structSlice record).view.value.members.lookup "of" =
        some record.view.value := rfl
    rw [Shape.ofView?, htype, Value.member?_of_lookup hof]
    simp [Record.ofView?_view record, Shape.unsampled]
  | .slice element => by
    have htype : (Shape.slice element).view.value.textAt? "type" = some "homogeneous_slice" := rfl
    have hof : (Shape.slice element).view.value.members.lookup "of" =
        some element.view.value := rfl
    rw [Shape.ofView?, htype, Value.member?_of_lookup hof]
    simp [Shape.ofView?_view element, Shape.unsampled]
  | .anySlice => by
    have htype : Shape.anySlice.view.value.textAt? "type" = some "opaque_slice" := rfl
    rw [Shape.ofView?, htype]
    rfl
  | .any => by
    have htype : Shape.any.view.value.textAt? "type" = some "opaque" := rfl
    rw [Shape.ofView?, htype]
    rfl

theorem Record.ofView?_view : ∀ r : Record, Record.ofView? r.view.value = some r.unsampled
  | ⟨_, fields⟩ => Record.ofView?_of_lookup rfl rfl (Field.allOfView?_views fields)

theorem Field.allOfView?_views : ∀ fields : List Field,
    Field.allOfView? (Json.elementValues (Field.views fields)) = some (Field.allUnsampled fields)
  | [] => by rw [Field.views, Json.elementValues, Field.allOfView?, Field.allUnsampled]
  | f :: fields => by
    rw [Field.views, Json.elementValues, Field.allOfView?, Field.ofView?_view f,
      Field.allOfView?_views fields, Field.allUnsampled]
    rfl

theorem Field.ofView?_view : ∀ f : Field, Field.ofView? f.view.value = some f.unsampled
  | ⟨sourceKey, identifier, shape, optional, sample⟩ => by
    let f : Field := ⟨sourceKey, identifier, shape, optional, sample⟩
    have hkey : f.view.value.textAt? "source_key" = some sourceKey := rfl
    have hidentifier : f.view.value.textAt? "identifier" = some identifier := rfl
    have hoptional : f.view.value.flagAt? "optional" = some optional := rfl
    have hshape : f.view.value.members.lookup "descriptor" = some shape.view.value := rfl
    rw [Field.ofView?, hkey, hidentifier, hoptional, Value.member?_of_lookup hshape]
    simp [Shape.ofView?_view shape, Field.unsampled]

end

theorem Root.ofView?_view (root : Root) : Root.ofView? root.view.value = some root.unsampled := by
  cases root with
  | record record =>
    obtain ⟨name, fields⟩ := record
    have hroot : (Root.record ⟨name, fields⟩).view.value.textAt? "root" = some "record" := rfl
    have hrecord : Record.ofView? (Root.record ⟨name, fields⟩).view.value =
        some (Record.unsampled ⟨name, fields⟩) :=
      Record.ofView?_of_lookup rfl rfl (Field.allOfView?_views fields)
    rw [Root.ofView?, hroot, hrecord]
    rfl
  | slice name shape =>
    have hroot : (Root.slice name shape).view.value.textAt? "root" = some "slice" := rfl
    have hname : (Root.slice name shape).view.value.textAt? "name" = some name := rfl
    have hshape : (Root.slice name shape).view.value.members.lookup "descriptor" =
        some shape.view.value := rfl
    rw [Root.ofView?, hroot, hname, Value.member?_of_lookup hshape]
    simp [Shape.ofView?_view shape, Root.unsampled]

theorem Root.allOfView?_views (roots : List Root) :
    Root.allOfView? (Json.array (roots.map Root.view)).value = some (roots.map Root.unsampled) := by
  rw [Json.value, Json.elementValues_eq_map, Root.allOfView?, List.map_map]
  induction roots with
  | nil => rfl
  | cons root roots ih =>
    rw [List.map_cons, List.mapM_cons, ih, Function.comp_apply, Root.ofView?_view]
    rfl

/-! No key stands twice -/

mutual

theorem Shape.keysDistinct_view : ∀ s : Shape, s.view.value.keysDistinct
  | .scalar _ | .anySlice | .any => rfl
  | .struct record | .structSlice record => by
    rw [Shape.view, Json.keysDistinct_object]
    refine ⟨by simp, ?_⟩
    simpa using ⟨rfl, Record.keysDistinct_view record⟩
  | .slice element => by
    rw [Shape.view, Json.keysDistinct_object]
    refine ⟨by simp, ?_⟩
    simpa using ⟨rfl, Shape.keysDistinct_view element⟩

theorem Record.keysDistinct_view : ∀ r : Record, r.view.value.keysDistinct
  | ⟨_, fields⟩ => by
    rw [Record.view, Json.keysDistinct_object]
    refine ⟨by simp, ?_⟩
    simpa [Json.keysDistinct_array] using ⟨rfl, Field.keysDistinct_views fields⟩

theorem Field.keysDistinct_views : ∀ fields : List Field,
    ∀ j ∈ Field.views fields, j.value.keysDistinct
  | [] => by simp [Field.views]
  | f :: fields => by
    rw [Field.views, List.forall_mem_cons]
    exact ⟨Field.keysDistinct_view f, Field.keysDistinct_views fields⟩

theorem Field.keysDistinct_view : ∀ f : Field, f.view.value.keysDistinct
  | ⟨_, _, shape, _, _⟩ => by
    rw [Field.view, Json.keysDistinct_object]
    refine ⟨by simp, ?_⟩
    simpa using ⟨rfl, rfl, Shape.keysDistinct_view shape, rfl⟩

end

theorem Root.keysDistinct_view (root : Root) : root.view.value.keysDistinct := by
  cases root with
  | record record =>
    obtain ⟨name, fields⟩ := record
    rw [Root.view, Json.keysDistinct_object]
    refine ⟨by simp, ?_⟩
    simpa [Json.keysDistinct_array] using ⟨rfl, rfl, Field.keysDistinct_views fields⟩
  | slice name shape =>
    rw [Root.view, Json.keysDistinct_object]
    refine ⟨by simp, ?_⟩
    simpa using ⟨rfl, rfl, Shape.keysDistinct_view shape⟩

/-! What is printed -/

namespace CommandLine

/-- A text that ends with a bracket has no blanks to lose. -/
theorem printed_append_bracket (text : String) : printed (text ++ "]") = text ++ "]" ++ "\n" := by
  have hkept : ((text ++ "]").toList.reverse.dropWhile Char.isWhitespace).reverse =
      (text ++ "]").toList := by
    have hbracket : "]".toList = [']'] := rfl
    rw [String.toList_append, hbracket, List.reverse_append, List.reverse_singleton,
      List.singleton_append, List.dropWhile_cons_of_neg (by decide), List.reverse_cons,
      List.reverse_reverse]
  rw [printed, hkept, String.ofList_append, String.ofList_toList]

end CommandLine

theorem Json.exists_pretty_array (elements : List Json) :
    ∃ text, (array elements).pretty = text ++ "]" := by
  cases elements with
  | nil => exact ⟨"[", rfl⟩
  | cons first rest => exact ⟨_, rfl⟩

theorem Root.printed_viewText (roots : List Root) :
    CommandLine.printed (viewText roots) = viewText roots ++ "\n" := by
  obtain ⟨text, htext⟩ := Json.exists_pretty_array (roots.map Root.view)
  rw [viewText, htext, CommandLine.printed_append_bracket]

/-- What the view of roots writes, and what it prints, is read as one document, from which the roots
are read back without their samples. -/
theorem Root.exists_document (roots : List Root) {limit : ℕ}
    (hdepth : (Json.array (roots.map Root.view)).tree.depth ≤ limit) :
    ∃ document,
      readDocuments (viewText roots).toUTF8.toList .finished limit = ⟨.ok [document], []⟩ ∧
      readDocuments (CommandLine.printed (viewText roots)).toUTF8.toList .finished limit =
        ⟨.ok [document], []⟩ ∧
      Root.allOfView? document = some (roots.map Root.unsampled) := by
  have hdistinct : (Json.array (roots.map Root.view)).value.keysDistinct := by
    rw [Json.keysDistinct_array, List.forall_mem_map]
    exact fun root _ => root.keysDistinct_view
  have hwritten : Written (viewText roots) (Json.array (roots.map Root.view)).tree.tokens :=
    Json.written_layout _ 0
  have hprinted : Written (viewText roots ++ "\n")
      (Json.array (roots.map Root.view)).tree.tokens := by
    simpa using hwritten.append (Written.of_blanks (by simp))
  refine ⟨_, ?_, ?_, Root.allOfView?_views roots⟩
  · exact Json.readDocuments_of_written hwritten hdistinct hdepth
  · rw [Root.printed_viewText]
    exact Json.readDocuments_of_written hprinted hdistinct hdepth

/-- The view loses nothing but samples. Whether it goes into a file or is printed, it is read as one
document in which no key stands twice, if only its nesting is allowed; and from this document the
roots are read back in order, with all that they consist of but samples. So different roots are
never shown in the same way. -/
theorem Root.read_back_from_view :
    (∀ (options : CommandLine.Options) (roots : List Root) (limit : ℕ),
      (Json.array (roots.map Root.view)).tree.depth ≤ limit →
      ∃ document,
        readDocuments (CommandLine.content .view options roots).toUTF8.toList .finished limit =
          ⟨.ok [document], []⟩ ∧
        readDocuments (CommandLine.printed (CommandLine.content .view options roots)).toUTF8.toList
          .finished limit = ⟨.ok [document], []⟩ ∧
        Root.allOfView? document = some (roots.map Root.unsampled)) ∧
    ∀ (options options' : CommandLine.Options) (roots others : List Root),
      CommandLine.printed (CommandLine.content .view options roots) =
        CommandLine.printed (CommandLine.content .view options' others) →
      roots.map Root.unsampled = others.map Root.unsampled := by
  refine ⟨fun _ roots limit hdepth => Root.exists_document roots hdepth, ?_⟩
  intro options options' roots others h
  -- both are read back from one document, within a limit that allows both
  obtain ⟨document, -, hread, hroots⟩ := Root.exists_document roots (Nat.le_max_left _
    (Json.array (others.map Root.view)).tree.depth)
  obtain ⟨document', -, hread', hothers⟩ := Root.exists_document others (Nat.le_max_right
    (Json.array (roots.map Root.view)).tree.depth _)
  rw [CommandLine.content, CommandLine.content] at h
  rw [h, hread'] at hread
  cases hread
  exact Option.some.inj (hroots.symm.trans hothers)

/-- Two objects of one form are described up to samples by what is read from either view, within
nine levels. -/
theorem Root.read_back_from_view_of_objects :
    let document (n : ℤ) : Value := .object
      [("q\"\x01é", .integer n), ("s", .array [.object [("\n", .null)]])]
    let root (n : ℤ) : Root := .record ⟨"Root",
      [⟨"q\"\x01é", "Q", .scalar .int64, false, some (.integer n)⟩,
        ⟨"s", "S", .structSlice ⟨"S", [⟨"\n", "Unknown", .scalar .null, false, none⟩]⟩, false,
          none⟩]⟩
    let text (n : ℤ) : String :=
      CommandLine.printed (CommandLine.content .view {} [root n])
    (∀ n ∈ [1, 2], ∃ events,
      Root.ofDocument Initialisms.standard "Root" 0 (document n) = .ok ⟨root n, events⟩) ∧
    (Json.array ([root 1].map Root.view)).tree.depth ≤ 9 ∧
    (∃ document, readDocuments (text 1).toUTF8.toList .finished 9 = ⟨.ok [document], []⟩ ∧
      Root.allOfView? document = some ([root 1].map Root.unsampled)) ∧
    text 1 = text 2 ∧ [root 1].map Root.unsampled = [root 2].map Root.unsampled := by
  intro document root text
  have hinferred : ∀ n ∈ [1, 2], ∃ events,
      Root.ofDocument Initialisms.standard "Root" 0 (document n) = .ok ⟨root n, events⟩ :=
    List.forall_mem_cons.mpr ⟨⟨_, rfl⟩, List.forall_mem_singleton.mpr ⟨_, rfl⟩⟩
  have hdepth : (Json.array ([root 1].map Root.view)).tree.depth ≤ 9 := by decide
  have hviews : [root 1].map Root.view = [root 2].map Root.view := rfl
  have htexts : text 1 = text 2 :=
    congrArg (fun views => CommandLine.printed (Json.array views).pretty) hviews
  obtain ⟨read, -, hread, hroots⟩ := Root.read_back_from_view.1 {} [root 1] 9 hdepth
  exact ⟨hinferred, hdepth, ⟨read, hread, hroots⟩, htexts,
    Root.read_back_from_view.2 {} {} [root 1] [root 2] htexts⟩

end Exemplar

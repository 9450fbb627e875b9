import Exemplar.Shape.Merge
import Exemplar.Proofs.Values

/-!
# The form that values have in common

Values are alike if they are scalars of one kind, or of one numeric family, or all objects, or all
arrays. `form` looks at all of them at once; `form_append` says how the forms of two lists make up
the form of both together, which is the rule that the joins of shapes follow step by step.
-/

namespace Exemplar

namespace ScalarKind

/-- Whether values of the second kind can hold those of the first without loss. -/
def promotesTo (a b : ScalarKind) : Bool :=
  a = b || (a = .int64 && b = .bigInteger) || (a = .float64 && b = .bigFloat)

/-- The one of some kinds that all of them promote to. -/
def largest? (kinds : List ScalarKind) : Option ScalarKind :=
  kinds.find? fun kind => kinds.all (·.promotesTo kind)

/-- The larger one of two kinds, if one promotes to the other. -/
def larger? (a b : ScalarKind) : Option ScalarKind :=
  if a.promotesTo b then some b else if b.promotesTo a then some a else none

theorem promotesTo_refl (a : ScalarKind) : a.promotesTo a = true := by
  cases a <;> rfl

theorem promotesTo_antisymm {a b : ScalarKind} (hab : a.promotesTo b) (hba : b.promotesTo a) :
    a = b := by
  cases a <;> cases b <;> first | rfl | contradiction

theorem promotesTo_trans {a b c : ScalarKind} (hab : a.promotesTo b) (hbc : b.promotesTo c) :
    a.promotesTo c := by
  cases a <;> cases b <;> first | exact hbc | contradiction | skip
  all_goals cases c <;> first | rfl | contradiction

/-- Only one other kind promotes to a given kind. -/
theorem eq_of_promotesTo {a b c : ScalarKind} (hac : a.promotesTo c) (hbc : b.promotesTo c)
    (ha : a ≠ c) (hb : b ≠ c) : a = b := by
  cases a <;> cases b <;> first | rfl | skip
  all_goals cases c <;> contradiction

theorem largest?_eq_some_iff {kinds : List ScalarKind} {kind : ScalarKind} :
    largest? kinds = some kind ↔ kind ∈ kinds ∧ ∀ k ∈ kinds, k.promotesTo kind := by
  constructor
  · intro h
    rw [largest?] at h
    have hall := List.find?_some h
    exact ⟨List.mem_of_find?_eq_some h, List.all_eq_true.mp hall⟩
  · rintro ⟨hmem, hall⟩
    rw [largest?]
    cases h : kinds.find? fun kind => kinds.all (·.promotesTo kind) with
    | none =>
      have hnot := List.find?_eq_none.mp h kind hmem
      exact absurd (List.all_eq_true.mpr hall) hnot
    | some kind' =>
      have hall' := List.find?_some h
      have hle := List.all_eq_true.mp hall' kind hmem
      rw [promotesTo_antisymm hle (hall kind' (List.mem_of_find?_eq_some h))]

theorem larger?_eq_some_iff {a b c : ScalarKind} :
    larger? a b = some c ↔ (c = a ∨ c = b) ∧ a.promotesTo c ∧ b.promotesTo c := by
  cases a <;> cases b <;> cases c <;> decide

theorem exists_largest {kinds : List ScalarKind} {bound : ScalarKind} (hne : kinds ≠ [])
    (h : ∀ k ∈ kinds, k.promotesTo bound) : ∃ kind, largest? kinds = some kind := by
  by_cases hmem : bound ∈ kinds
  · exact ⟨bound, largest?_eq_some_iff.mpr ⟨hmem, h⟩⟩
  · obtain ⟨kind, rest, rfl⟩ := List.exists_cons_of_ne_nil hne
    have hne' : ∀ k ∈ kind :: rest, k ≠ bound := fun k hk he => hmem (he ▸ hk)
    refine ⟨kind, largest?_eq_some_iff.mpr ⟨List.mem_cons_self, fun k hk => ?_⟩⟩
    have heq : k = kind := eq_of_promotesTo (h k hk) (h kind List.mem_cons_self) (hne' k hk)
      (hne' kind List.mem_cons_self)
    rw [heq, promotesTo_refl]

/-- Two groups of kinds have a largest kind if each has one and these compare. -/
theorem largest?_append {js ks : List ScalarKind} (hj : js ≠ []) (hk : ks ≠ []) :
    largest? (js ++ ks) = (largest? js).bind fun j => (largest? ks).bind fun k => larger? j k := by
  apply Option.ext
  intro kind
  rw [largest?_eq_some_iff, Option.bind_eq_some_iff]
  constructor
  · rintro ⟨hmem, hall⟩
    obtain ⟨hjs, hks⟩ := List.forall_mem_append.mp hall
    obtain ⟨j, hjl⟩ := exists_largest hj hjs
    obtain ⟨k, hkl⟩ := exists_largest hk hks
    obtain ⟨hjmem, hjall⟩ := largest?_eq_some_iff.mp hjl
    obtain ⟨hkmem, hkall⟩ := largest?_eq_some_iff.mp hkl
    refine ⟨j, hjl, Option.bind_eq_some_iff.mpr ⟨k, hkl, larger?_eq_some_iff.mpr ?_⟩⟩
    refine ⟨?_, hjs j hjmem, hks k hkmem⟩
    rcases List.mem_append.mp hmem with hin | hin
    · exact Or.inl (promotesTo_antisymm (hjall kind hin) (hjs j hjmem))
    · exact Or.inr (promotesTo_antisymm (hkall kind hin) (hks k hkmem))
  · rintro ⟨j, hjl, hrest⟩
    obtain ⟨k, hkl, hlarger⟩ := Option.bind_eq_some_iff.mp hrest
    obtain ⟨hjmem, hjall⟩ := largest?_eq_some_iff.mp hjl
    obtain ⟨hkmem, hkall⟩ := largest?_eq_some_iff.mp hkl
    obtain ⟨heq, hjk, hkk⟩ := larger?_eq_some_iff.mp hlarger
    constructor
    · rcases heq with rfl | rfl
      · exact List.mem_append_left _ hjmem
      · exact List.mem_append_right _ hkmem
    · refine List.forall_mem_append.mpr ⟨fun i hi => ?_, fun i hi => ?_⟩
      · exact promotesTo_trans (hjall i hi) hjk
      · exact promotesTo_trans (hkall i hi) hkk

end ScalarKind

namespace Summary

/-- What values have in common. -/
inductive Form where
  /-- There are no values. -/
  | nothing
  /-- Scalars with a largest kind. -/
  | scalars (kind : ScalarKind)
  | objects
  | arrays
  /-- None of these. -/
  | mixed
  deriving DecidableEq

/-- The largest kind of values that are all scalars, if they have one. -/
def kind? (values : List Value) : Option ScalarKind :=
  (values.mapM Value.scalarKind?).bind ScalarKind.largest?

/-- What some values have in common; null is a kind of its own. -/
def form (values : List Value) : Form :=
  if values.isEmpty then .nothing
  else
    match kind? values with
    | some kind => .scalars kind
    | none =>
      if values.all Value.isObject then .objects
      else if values.all Value.isArray then .arrays
      else .mixed

/-- What two lists of values have in common. -/
def Form.join : Form → Form → Form
  | nothing, f | f, nothing => f
  | scalars j, scalars k =>
    match ScalarKind.larger? j k with
    | some kind => scalars kind
    | none => mixed
  | objects, objects => objects
  | arrays, arrays => arrays
  | _, _ => mixed

/-- Values fit together only if they are alike, unless there are none on one side. -/
theorem Form.alike_of_join {f g : Form} (hf : f ≠ nothing) (hg : g ≠ nothing)
    (h : f.join g ≠ mixed) :
    (∃ j k kind, f = scalars j ∧ g = scalars k ∧ ScalarKind.larger? j k = some kind) ∨
      (f = objects ∧ g = objects) ∨ (f = arrays ∧ g = arrays) := by
  cases f with
  | nothing => contradiction
  | scalars j =>
    cases g with
    | nothing => contradiction
    | scalars k =>
      cases hlarger : ScalarKind.larger? j k with
      | some kind => exact Or.inl ⟨j, k, kind, rfl, rfl, hlarger⟩
      | none =>
        rw [join, hlarger] at h
        contradiction
    | _ => contradiction
  | objects =>
    cases g with
    | objects => exact Or.inr (Or.inl ⟨rfl, rfl⟩)
    | _ => contradiction
  | arrays =>
    cases g with
    | arrays => exact Or.inr (Or.inr ⟨rfl, rfl⟩)
    | _ => contradiction
  | mixed => cases g <;> contradiction

theorem form_eq_nothing_iff {values : List Value} : form values = .nothing ↔ values = [] := by
  constructor
  · intro h
    cases values with
    | nil => rfl
    | cons v values =>
      rw [form, List.isEmpty_cons, if_neg Bool.false_ne_true] at h
      split at h
      · contradiction
      · split at h
        · contradiction
        · split at h <;> contradiction
  · rintro rfl
    rfl

theorem kind?_append {vs ws : List Value} (hv : vs ≠ []) (hw : ws ≠ []) :
    kind? (vs ++ ws) = (kind? vs).bind fun j => (kind? ws).bind fun k =>
      ScalarKind.larger? j k := by
  have hlength : ∀ {us : List Value} {ks : List ScalarKind}, us ≠ [] →
      us.mapM Value.scalarKind? = some ks → ks ≠ [] := by
    intro us ks hne h he
    obtain ⟨u, us, rfl⟩ := List.exists_cons_of_ne_nil hne
    rw [List.mapM_cons, he] at h
    cases hu : u.scalarKind? <;> cases hm : us.mapM Value.scalarKind? <;> simp_all
  rw [kind?, kind?, kind?, List.mapM_append]
  cases hjs : vs.mapM Value.scalarKind? with
  | none => rfl
  | some js =>
    cases hks : ws.mapM Value.scalarKind? with
    | none =>
      change none = (ScalarKind.largest? js).bind fun _ => none
      cases ScalarKind.largest? js <;> rfl
    | some ks => exact ScalarKind.largest?_append (hlength hv hjs) (hlength hw hks)

theorem mapM_scalarKind?_iff {values : List Value} {kinds : List ScalarKind} :
    values.mapM Value.scalarKind? = some kinds ↔ values.map Value.scalarKind? = kinds.map some := by
  induction values generalizing kinds with
  | nil => cases kinds <;> simp
  | cons v values ih =>
    rw [List.mapM_cons, List.map_cons]
    constructor
    · intro h
      obtain ⟨k, hk, hrest⟩ := Option.bind_eq_some_iff.mp h
      obtain ⟨ks, hks, heq⟩ := Option.bind_eq_some_iff.mp hrest
      obtain rfl := Option.some.inj heq
      rw [List.map_cons, hk, ih.mp hks]
    · intro h
      cases kinds with
      | nil => contradiction
      | cons k kinds =>
        obtain ⟨hk, hrest⟩ := List.cons.inj h
        rw [hk, ih.mpr hrest]
        rfl

/-- The largest kind of values belongs to one of them, and all others promote to it. -/
theorem kind?_eq_some_iff {values : List Value} {kind : ScalarKind} :
    kind? values = some kind ↔ (∃ v ∈ values, v.scalarKind? = some kind) ∧
      ∀ v ∈ values, ∃ k, v.scalarKind? = some k ∧ k.promotesTo kind := by
  constructor
  · intro h
    obtain ⟨kinds, hkinds, hlargest⟩ := Option.bind_eq_some_iff.mp h
    obtain ⟨hmem, hall⟩ := ScalarKind.largest?_eq_some_iff.mp hlargest
    have hmap := mapM_scalarKind?_iff.mp hkinds
    refine ⟨?_, fun v hv => ?_⟩
    · have hin : some kind ∈ values.map Value.scalarKind? := hmap ▸ List.mem_map_of_mem hmem
      obtain ⟨v, hv, hk⟩ := List.mem_map.mp hin
      exact ⟨v, hv, hk⟩
    · have hin : v.scalarKind? ∈ kinds.map some := hmap ▸ List.mem_map_of_mem hv
      obtain ⟨k, hk, he⟩ := List.mem_map.mp hin
      exact ⟨k, he.symm, hall k hk⟩
  · rintro ⟨⟨v, hv, hk⟩, hall⟩
    have hkinds : values.map Value.scalarKind? =
        (values.filterMap Value.scalarKind?).map some := by
      clear hv
      induction values with
      | nil => rfl
      | cons w values ih =>
        obtain ⟨⟨k, hw, -⟩, hrest⟩ := List.forall_mem_cons.mp hall
        rw [List.map_cons, List.filterMap_cons_some hw, hw, ih hrest, List.map_cons]
    rw [kind?, mapM_scalarKind?_iff.mpr hkinds, Option.bind_some,
      ScalarKind.largest?_eq_some_iff]
    refine ⟨List.mem_filterMap.mpr ⟨v, hv, hk⟩, fun k hk' => ?_⟩
    obtain ⟨w, hw, hwk⟩ := List.mem_filterMap.mp hk'
    obtain ⟨k', hwk', hle⟩ := hall w hw
    rw [hwk] at hwk'
    obtain rfl := Option.some.inj hwk'
    exact hle

theorem all_isObject_of_kind? {values : List Value} {kind : ScalarKind} (hne : values ≠ [])
    (h : kind? values = some kind) :
    values.all Value.isObject = false ∧ values.all Value.isArray = false := by
  obtain ⟨v, values, rfl⟩ := List.exists_cons_of_ne_nil hne
  obtain ⟨k, hk, -⟩ := (kind?_eq_some_iff.mp h).2 v List.mem_cons_self
  cases v <;> first | exact ⟨rfl, rfl⟩ | contradiction

theorem all_isArray_of_all_isObject {values : List Value} (hne : values ≠ [])
    (h : values.all Value.isObject) : values.all Value.isArray = false := by
  obtain ⟨v, values, rfl⟩ := List.exists_cons_of_ne_nil hne
  rw [List.all_cons, Bool.and_eq_true] at h
  cases v <;> first | rfl | exact absurd h.1 Bool.false_ne_true

theorem form_of_ne_nil {values : List Value} (hne : values ≠ []) :
    form values =
      match kind? values with
      | some kind => .scalars kind
      | none =>
        if values.all Value.isObject then .objects
        else if values.all Value.isArray then .arrays
        else .mixed := by
  rw [form, if_neg (by simpa using hne)]

theorem form_eq_scalars_iff {values : List Value} {kind : ScalarKind} :
    form values = .scalars kind ↔ values ≠ [] ∧ kind? values = some kind := by
  by_cases hne : values = []
  · simp [hne, form]
  · rw [form_of_ne_nil hne]
    cases kind? values with
    | some k => simp [hne]
    | none =>
      simp only [hne, ne_eq, not_false_eq_true, reduceCtorEq, and_false, iff_false]
      split
      · simp
      · split <;> simp

theorem form_eq_objects_iff {values : List Value} :
    form values = .objects ↔ values ≠ [] ∧ values.all Value.isObject := by
  by_cases hne : values = []
  · simp [hne, form]
  · rw [form_of_ne_nil hne]
    cases hk : kind? values with
    | some k => simp [(all_isObject_of_kind? hne hk).1]
    | none =>
      cases values.all Value.isObject with
      | true => simp [hne]
      | false => cases values.all Value.isArray <;> simp

theorem form_eq_arrays_iff {values : List Value} :
    form values = .arrays ↔ values ≠ [] ∧ values.all Value.isArray := by
  by_cases hne : values = []
  · simp [hne, form]
  · rw [form_of_ne_nil hne]
    cases hk : kind? values with
    | some k => simp [(all_isObject_of_kind? hne hk).2]
    | none =>
      cases ho : values.all Value.isObject with
      | true => simp [all_isArray_of_all_isObject hne ho]
      | false => cases values.all Value.isArray <;> simp [hne]

theorem form_singleton {v : Value} {kind : ScalarKind} (h : v.scalarKind? = some kind) :
    form [v] = .scalars kind := by
  refine form_eq_scalars_iff.mpr ⟨List.cons_ne_nil _ _, kind?_eq_some_iff.mpr ⟨?_, fun w hw => ?_⟩⟩
  · exact ⟨v, List.mem_cons_self, h⟩
  · rw [List.mem_singleton.mp hw]
    exact ⟨kind, h, ScalarKind.promotesTo_refl kind⟩

/-- The form of two lists together follows from the forms of both. -/
theorem form_append (vs ws : List Value) : form (vs ++ ws) = (form vs).join (form ws) := by
  by_cases hv : vs = []
  · rw [hv, List.nil_append]
    rfl
  by_cases hw : ws = []
  · rw [hw, List.append_nil]
    cases form vs <;> rfl
  have hne : vs ++ ws ≠ [] := by simp [hv]
  rw [form_of_ne_nil hne, form_of_ne_nil hv, form_of_ne_nil hw, kind?_append hv hw,
    List.all_append, List.all_append]
  cases hj : kind? vs with
  | some j =>
    obtain ⟨hobject, harray⟩ := all_isObject_of_kind? hv hj
    cases hk : kind? ws with
    | some k =>
      cases hl : ScalarKind.larger? j k <;> simp [Form.join, hl, hobject, harray]
    | none =>
      cases ws.all Value.isObject <;> cases ws.all Value.isArray <;>
        simp [Form.join, hobject, harray]
  | none =>
    cases hk : kind? ws with
    | some k =>
      obtain ⟨hobject, harray⟩ := all_isObject_of_kind? hw hk
      cases vs.all Value.isObject <;> cases vs.all Value.isArray <;>
        simp [Form.join, hobject, harray]
    | none =>
      have hv' := all_isArray_of_all_isObject hv
      have hw' := all_isArray_of_all_isObject hw
      cases hvo : vs.all Value.isObject <;> cases hwo : ws.all Value.isObject <;>
        cases hva : vs.all Value.isArray <;> cases hwa : ws.all Value.isArray <;>
        simp_all [Form.join]

end Summary

end Exemplar

import Mathlib.Data.List.Forall2
import Mathlib.Data.List.Perm.Basic
import Exemplar.Proofs.Form

/-!
# Values in another order

Two documents may differ only in the order in which objects list their members and arrays their
elements, at any depth. What a description is made of does not see such an order: the kinds of
values, the value of a key, and which values occur.
-/

namespace Exemplar

mutual

/-- A value with the members of objects and the elements of arrays in any order, at every depth. -/
inductive Value.Rearranged : Value → Value → Prop where
  | scalar {v : Value} (h : v.isScalar) : Value.Rearranged v v
  | object {ms ns ks : List (String × Value)} (h : List.Forall₂ Value.MemberRearranged ms ns)
    (hperm : ns.Perm ks) : Value.Rearranged (.object ms) (.object ks)
  | array {es fs gs : List Value} (h : List.Forall₂ Value.Rearranged es fs)
    (hperm : fs.Perm gs) : Value.Rearranged (.array es) (.array gs)

/-- A member with the same key and a value in another order. -/
inductive Value.MemberRearranged : String × Value → String × Value → Prop where
  | mk {key : String} {v w : Value} (h : Value.Rearranged v w) :
    Value.MemberRearranged (key, v) (key, w)

end

/-! Lists with matching members -/

/-- The members of two lists can be paired up so that all pairs are related. -/
def Matched {α β : Type} (R : α → β → Prop) (xs : List α) (ys : List β) : Prop :=
  ∃ zs, List.Forall₂ R xs zs ∧ zs.Perm ys

namespace Matched

variable {α β γ δ : Type} {R : α → β → Prop} {S : γ → δ → Prop} {xs : List α} {ys : List β}

theorem filterMap (h : Matched R xs ys) {f : α → Option γ} {g : β → Option δ}
    (hf : ∀ x y, R x y → Option.Rel S (f x) (g y)) :
    Matched S (xs.filterMap f) (ys.filterMap g) := by
  obtain ⟨zs, hpairs, hperm⟩ := h
  exact ⟨zs.filterMap g, List.rel_filterMap (fun x y hxy => hf x y hxy) hpairs, hperm.filterMap g⟩

theorem filter (h : Matched R xs ys) {p : α → Bool} {q : β → Bool}
    (hp : ∀ x y, R x y → p x = q y) : Matched R (xs.filter p) (ys.filter q) := by
  obtain ⟨zs, hpairs, hperm⟩ := h
  have hsame : ∀ ⦃x y⦄, R x y → (p x = true ↔ q y = true) := fun x y hxy => by rw [hp x y hxy]
  exact ⟨zs.filter q, List.rel_filter hsame hpairs, hperm.filter q⟩

theorem map (h : Matched R xs ys) {f : α → γ} {g : β → δ} (hf : ∀ x y, R x y → S (f x) (g y)) :
    Matched S (xs.map f) (ys.map g) := by
  obtain ⟨zs, hpairs, hperm⟩ := h
  exact ⟨zs.map g, List.rel_map (fun x y hxy => hf x y hxy) hpairs, hperm.map g⟩

theorem flatMap (h : Matched R xs ys) {f : α → List γ} {g : β → List δ}
    (hf : ∀ x y, R x y → Matched S (f x) (g y)) : Matched S (xs.flatMap f) (ys.flatMap g) := by
  obtain ⟨zs, hpairs, hperm⟩ := h
  have hpaired : Matched S (xs.flatMap f) (zs.flatMap g) := by
    clear hperm
    induction hpairs with
    | nil => exact ⟨[], .nil, .nil⟩
    | cons hxy _ ih =>
      obtain ⟨first, hfirst, hfirstPerm⟩ := hf _ _ hxy
      obtain ⟨rest, hrest, hrestPerm⟩ := ih
      exact ⟨first ++ rest, List.rel_append hfirst hrest, hfirstPerm.append hrestPerm⟩
  obtain ⟨us, hus, husPerm⟩ := hpaired
  exact ⟨us, hus, husPerm.trans (hperm.flatMap_right g)⟩

theorem any_eq (h : Matched R xs ys) {p : α → Bool} {q : β → Bool}
    (hp : ∀ x y, R x y → p x = q y) : xs.any p = ys.any q := by
  obtain ⟨zs, hpairs, hperm⟩ := h
  rw [← hperm.any_eq]
  clear hperm
  induction hpairs with
  | nil => rfl
  | cons hxy _ ih => rw [List.any_cons, List.any_cons, hp _ _ hxy, ih]

theorem all_eq (h : Matched R xs ys) {p : α → Bool} {q : β → Bool}
    (hp : ∀ x y, R x y → p x = q y) : xs.all p = ys.all q := by
  rw [List.all_eq_not_any_not, List.all_eq_not_any_not,
    h.any_eq fun x y hxy => by rw [hp x y hxy]]

theorem exists_left (h : Matched R xs ys) {y : β} (hy : y ∈ ys) : ∃ x ∈ xs, R x y := by
  obtain ⟨zs, hpairs, hperm⟩ := h
  have hz := hperm.symm.subset hy
  clear hperm hy
  induction hpairs with
  | nil => exact absurd hz List.not_mem_nil
  | cons hxy _ ih =>
    rcases List.mem_cons.mp hz with rfl | hrest
    · exact ⟨_, List.mem_cons_self, hxy⟩
    · obtain ⟨x, hx, hR⟩ := ih hrest
      exact ⟨x, List.mem_cons_of_mem _ hx, hR⟩

theorem eq_nil_iff (h : Matched R xs ys) : xs = [] ↔ ys = [] := by
  obtain ⟨zs, hpairs, hperm⟩ := h
  have hlength := hpairs.length_eq.trans hperm.length_eq
  rw [← List.length_eq_zero_iff, ← List.length_eq_zero_iff, hlength]

end Matched

/-! What an order does not change -/

namespace Value

variable {v w : Value}

theorem Rearranged.scalarKind?_eq (h : v.Rearranged w) : v.scalarKind? = w.scalarKind? := by
  cases h <;> rfl

theorem Rearranged.isNull_eq (h : v.Rearranged w) : v.isNull = w.isNull := by
  cases h <;> rfl

theorem Rearranged.isObject_eq (h : v.Rearranged w) : v.isObject = w.isObject := by
  cases h <;> rfl

theorem Rearranged.isArray_eq (h : v.Rearranged w) : v.isArray = w.isArray := by
  cases h <;> rfl

theorem map_fst_of_memberRearranged {ms ns : List (String × Value)}
    (h : List.Forall₂ MemberRearranged ms ns) : ms.map Prod.fst = ns.map Prod.fst := by
  induction h with
  | nil => rfl
  | cons hm _ ih =>
    cases hm
    rw [List.map_cons, List.map_cons, ih]

theorem keysDistinct_of_rearranged (h : v.Rearranged w) (hkeys : v.keysDistinct) :
    w.keysDistinct := by
  induction v using Value.induct generalizing w with
  | hobject ms ih =>
    obtain ⟨hnodup, hinner⟩ := (keysDistinct_object ms).mp hkeys
    cases h with
    | scalar hscalar => contradiction
    | @object _ ns ks hpairs hperm =>
      rw [map_fst_of_memberRearranged hpairs] at hnodup
      refine (keysDistinct_object ks).mpr ⟨(hperm.map Prod.fst).nodup_iff.mp hnodup, ?_⟩
      intro n hn
      have hmatched : Matched MemberRearranged ms ks := ⟨ns, hpairs, hperm⟩
      obtain ⟨m, hm, hmn⟩ := hmatched.exists_left hn
      cases hmn with
      | mk hvw => exact ih _ hm hvw (hinner _ hm)
  | harray es ih =>
    have hinner := (keysDistinct_array es).mp hkeys
    cases h with
    | scalar hscalar => contradiction
    | @array _ fs gs hpairs hperm =>
      refine (keysDistinct_array gs).mpr fun f hf => ?_
      have hmatched : Matched Rearranged es gs := ⟨fs, hpairs, hperm⟩
      obtain ⟨e, he, hef⟩ := hmatched.exists_left hf
      exact ih e he hef (hinner e he)
  | hscalar v hscalar =>
    cases h with
    | scalar => exact hkeys
    | object => contradiction
    | array => contradiction

/-- Two values of which the second is the first in another order. No key stands twice in one
object. -/
def Alike (v w : Value) : Prop :=
  v.keysDistinct ∧ v.Rearranged w

theorem Alike.elements (h : v.Alike w) : Matched Alike v.elements w.elements := by
  obtain ⟨hkeys, hsame⟩ := h
  cases hsame with
  | scalar hv =>
    cases v <;> first | exact ⟨[], .nil, .nil⟩ | contradiction
  | object => exact ⟨[], .nil, .nil⟩
  | @array es fs gs hpairs hperm =>
    exact ⟨fs, (List.forall₂_and_left es fs).mpr ⟨(keysDistinct_array es).mp hkeys, hpairs⟩, hperm⟩

theorem lookup_of_memberRearranged {ms ns : List (String × Value)}
    (h : List.Forall₂ MemberRearranged ms ns) (hkeys : ∀ m ∈ ms, m.2.keysDistinct) (key : String) :
    Option.Rel Alike (ms.lookup key) (ns.lookup key) := by
  induction h with
  | nil => exact .none
  | cons hm _ ih =>
    obtain ⟨hfirst, hrest⟩ := List.forall_mem_cons.mp hkeys
    cases hm with
    | @mk key' v w hvw =>
      rw [List.lookup_cons, List.lookup_cons]
      cases key == key' with
      | true => exact .some ⟨hfirst, hvw⟩
      | false => exact ih hrest

end Value

namespace Examples

theorem lookup_eq_some_iff_mem {members : List (String × Value)}
    (hnodup : (members.map Prod.fst).Nodup) {key : String} {v : Value} :
    members.lookup key = some v ↔ (key, v) ∈ members := by
  constructor
  · intro h
    obtain ⟨before, after, rfl, -⟩ := List.lookup_eq_some_iff.mp h
    exact List.mem_append_right _ List.mem_cons_self
  · exact fun h => lookup_of_mem hnodup h

/-- A key has one value in members without repeated keys, wherever it stands. -/
theorem lookup_perm {ms ns : List (String × Value)} (hnodup : (ms.map Prod.fst).Nodup)
    (h : ms.Perm ns) (key : String) : ms.lookup key = ns.lookup key := by
  have hnodup' := (h.map Prod.fst).nodup_iff.mp hnodup
  apply Option.ext
  intro v
  rw [lookup_eq_some_iff_mem hnodup, lookup_eq_some_iff_mem hnodup', h.mem_iff]

end Examples

namespace Value

variable {v w : Value}

theorem Alike.lookup (h : v.Alike w) (key : String) :
    Option.Rel Alike (v.members.lookup key) (w.members.lookup key) := by
  obtain ⟨hkeys, hsame⟩ := h
  cases hsame with
  | scalar hv =>
    cases v <;> first | exact .none | contradiction
  | array => exact .none
  | @object ms ns ks hpairs hperm =>
    obtain ⟨hnodup, hinner⟩ := (keysDistinct_object ms).mp hkeys
    rw [map_fst_of_memberRearranged hpairs] at hnodup
    have hlookup := lookup_of_memberRearranged hpairs hinner key
    rw [Examples.lookup_perm hnodup hperm] at hlookup
    exact hlookup

end Value

namespace Summary

variable {vs ws : List Value}

theorem kind?_eq_of_matched (h : Matched Value.Alike vs ws) : kind? vs = kind? ws := by
  apply Option.ext
  intro kind
  have hany : vs.any (fun v => v.scalarKind? = some kind) =
      ws.any (fun w => w.scalarKind? = some kind) :=
    h.any_eq fun v w hvw => by rw [hvw.2.scalarKind?_eq]
  have hall : vs.all (fun v => v.scalarKind?.any (·.promotesTo kind)) =
      ws.all (fun w => w.scalarKind?.any (·.promotesTo kind)) :=
    h.all_eq fun v w hvw => by rw [hvw.2.scalarKind?_eq]
  rw [Bool.eq_iff_iff, List.any_eq_true, List.any_eq_true] at hany
  rw [Bool.eq_iff_iff, List.all_eq_true, List.all_eq_true] at hall
  simp only [decide_eq_true_eq] at hany
  simp only [Option.any_eq_true] at hall
  rw [kind?_eq_some_iff, kind?_eq_some_iff, hany, hall]

/-- Values in another order have the same in common. -/
theorem form_eq_of_matched (h : Matched Value.Alike vs ws) : form vs = form ws := by
  by_cases hvs : vs = []
  · rw [hvs, h.eq_nil_iff.mp hvs]
  · have hobjects : vs.all Value.isObject = ws.all Value.isObject :=
      h.all_eq fun v w hvw => hvw.2.isObject_eq
    have harrays : vs.all Value.isArray = ws.all Value.isArray :=
      h.all_eq fun v w hvw => hvw.2.isArray_eq
    rw [form_of_ne_nil hvs, form_of_ne_nil (mt h.eq_nil_iff.mpr hvs), kind?_eq_of_matched h,
      hobjects, harrays]

end Summary

end Exemplar

import Exemplar.Proofs.Covering
import Exemplar.Proofs.MergedFields

/-!
# Joining three shapes

Shapes are joined by what they stand for, and forms may be joined in any order. So the order does
not matter for shapes either, as far as it does not matter for the records in them: null yields,
`any` absorbs, and of three slices either one is a slice of anything or all have elements that join.
-/

namespace Exemplar

variable {m : RecordMerge}

/-- Whether an event says that a key had to take another identifier. -/
def Event.isCollision : Event → Bool
  | .identifierCollision .. => true
  | _ => false

/-- No key had to take another identifier. -/
def NoCollision (events : List Event) : Prop :=
  ∀ e ∈ events, e.isCollision = false

/-- A join, if there is one, gives no key another identifier. -/
def JoinsPlainly {α : Type} (joined? : Option (Reported α)) : Prop :=
  ∀ joined, joined? = some joined → NoCollision joined.events

theorem JoinsPlainly.of_map {α β : Type} {f : α → β} {joined? : Option (Reported α)}
    (h : JoinsPlainly (joined?.map (f <$> ·))) : JoinsPlainly joined? := by
  intro joined hjoin
  have hmapped := h (f <$> joined) (by rw [hjoin, Option.map_some])
  rwa [Reported.events_map] at hmapped

theorem JoinsPlainly.of_some {α β : Type} {f : α → β} {joined : Reported α}
    (h : JoinsPlainly (some (f <$> joined))) : NoCollision joined.events := by
  have hmapped := h _ rfl
  rwa [Reported.events_map] at hmapped

/-! Kinds and forms -/

theorem ScalarKind.larger?_assoc (j k l : ScalarKind) :
    (larger? k l).bind (larger? j ·) = (larger? j k).bind (larger? · l) := by
  cases j <;> cases k <;> cases l <;> rfl

namespace Summary.Form

theorem nothing_join (f : Form) : nothing.join f = f := by
  cases f <;> rfl

theorem join_nothing (f : Form) : f.join nothing = f := by
  cases f <;> rfl

theorem mixed_join (f : Form) : mixed.join f = mixed := by
  cases f <;> rfl

theorem join_mixed (f : Form) : f.join mixed = mixed := by
  cases f <;> rfl

/-- The form of scalars with a largest kind, if there is one. -/
def ofKind? (kind? : Option ScalarKind) : Form :=
  kind?.elim mixed scalars

theorem scalars_join (j : ScalarKind) (k? : Option ScalarKind) :
    (scalars j).join (ofKind? k?) = ofKind? (k?.bind (ScalarKind.larger? j ·)) := by
  cases k? with
  | none => rfl
  | some k =>
    simp only [ofKind?, Option.elim_some, join, Option.bind_some]
    cases ScalarKind.larger? j k <;> rfl

theorem join_scalars (j? : Option ScalarKind) (k : ScalarKind) :
    (ofKind? j?).join (scalars k) = ofKind? (j?.bind (ScalarKind.larger? · k)) := by
  cases j? with
  | none => rfl
  | some j => exact scalars_join j (some k)

theorem join_assoc (f g h : Form) : f.join (g.join h) = (f.join g).join h := by
  cases f with
  | nothing => rw [nothing_join, nothing_join]
  | mixed => rw [mixed_join, mixed_join, mixed_join]
  | scalars j =>
    cases g with
    | nothing => rw [nothing_join, join_nothing]
    | mixed => rw [mixed_join, join_mixed, mixed_join]
    | scalars k =>
      have hjk : (scalars j).join (scalars k) = ofKind? (ScalarKind.larger? j k) :=
        scalars_join j (some k)
      cases h with
      | nothing => rw [join_nothing, join_nothing]
      | scalars l =>
        have hkl : (scalars k).join (scalars l) = ofKind? (ScalarKind.larger? k l) :=
          scalars_join k (some l)
        rw [hjk, hkl, scalars_join, join_scalars, ScalarKind.larger?_assoc]
      | _ =>
        rw [hjk]
        cases ScalarKind.larger? j k <;> rfl
    | _ => cases h <;> rfl
  | objects | arrays =>
    cases g with
    | scalars k =>
      cases h with
      | scalars l =>
        have hkl : (scalars k).join (scalars l) = ofKind? (ScalarKind.larger? k l) :=
          scalars_join k (some l)
        rw [hkl]
        cases ScalarKind.larger? k l <;> rfl
      | _ => rfl
    | _ => cases h <;> rfl

theorem join_ne_nothing {f g : Form} (hf : f ≠ nothing) : f.join g ≠ nothing := by
  cases f with
  | nothing => contradiction
  | scalars j =>
    cases g with
    | scalars k =>
      rw [join]
      cases ScalarKind.larger? j k <;> exact Form.noConfusion
    | _ => exact Form.noConfusion
  | _ => cases g <;> exact Form.noConfusion

theorem join_eq_nothing_iff {f g : Form} :
    f.join g = nothing ↔ f = nothing ∧ g = nothing := by
  constructor
  · intro h
    have hf : f = nothing := by
      by_contra hf
      exact join_ne_nothing hf h
    rw [hf, nothing_join] at h
    exact ⟨hf, h⟩
  · rintro ⟨rfl, rfl⟩
    rfl

/-- Only objects join to objects, and only arrays to arrays. -/
theorem join_eq_container {f g h : Form} (hh : h = objects ∨ h = arrays) (hjoin : f.join g = h)
    (hf : f ≠ nothing) (hg : g ≠ nothing) : f = h ∧ g = h := by
  have hmixed : f.join g ≠ mixed := by
    rw [hjoin]
    rcases hh with rfl | rfl <;> exact Form.noConfusion
  rcases alike_of_join hf hg hmixed with ⟨j, k, kind, rfl, rfl, hlarger⟩ | ⟨rfl, rfl⟩ | ⟨rfl, rfl⟩
  · rw [join, hlarger] at hjoin
    subst hjoin
    rcases hh with hh | hh <;> contradiction
  · exact ⟨hjoin, hjoin⟩
  · exact ⟨hjoin, hjoin⟩

end Summary.Form

/-! Shapes -/

namespace Shape

open Summary (Form)

/-- What values of a shape have in common. -/
def form : Shape → Form
  | scalar .null => .nothing
  | scalar kind => .scalars kind
  | struct _ => .objects
  | structSlice _ | slice _ | anySlice => .arrays
  | any => .mixed

theorem form_fits (a : Shape) : a.form.Fits a := by
  cases a with
  | scalar kind => cases kind <;> first | rfl | exact ⟨rfl, by simp⟩
  | struct r => exact ⟨r, rfl⟩
  | _ => rfl

theorem form_eq_arrays_iff {a : Shape} : a.form = .arrays ↔ a.isSlice := by
  cases a with
  | scalar kind => cases kind <;> simp [form, isSlice]
  | _ => simp [form, isSlice]

theorem form_ne_nothing {a : Shape} (h : a ≠ scalar .null) : a.form ≠ .nothing := by
  intro hform
  have hfits := a.form_fits
  rw [hform] at hfits
  exact h hfits

theorem eq_struct_of_form {a : Shape} (h : a.form = .objects) : ∃ r, a = struct r := by
  have hfits := a.form_fits
  rw [h] at hfits
  exact hfits

theorem isSlice_covering {a b : Shape} (ha : a.isSlice) (hb : b.isSlice) :
    (a.covering m b).isSlice := by
  cases a with
  | slice a =>
    cases b with
    | slice b =>
      simp only [covering, join?]
      cases elementJoin? m a b <;> rfl
    | _ => first | rfl | contradiction
  | _ => cases b <;> first | rfl | contradiction

theorem form_scalar {kind : ScalarKind} (h : kind ≠ .null) :
    (scalar kind).form = .scalars kind := by
  cases kind <;> first | rfl | contradiction

/-- Joining shapes joins what they stand for. -/
theorem form_covering (a b : Shape) : (a.covering m b).form = a.form.join b.form := by
  by_cases hmixed : a.form.join b.form = .mixed
  · rw [Summary.covering_of_join_eq_mixed a.form_fits b.form_fits hmixed, hmixed]
    rfl
  have ha := a.form_fits
  have hb := b.form_fits
  by_cases hna : a.form = .nothing
  · rw [hna] at ha ⊢
    rw [show a = .scalar .null from ha, covering_null_left, Form.nothing_join]
  by_cases hnb : b.form = .nothing
  · rw [hnb] at hb ⊢
    rw [show b = .scalar .null from hb, covering_null_right, Form.join_nothing]
  rcases Form.alike_of_join hna hnb hmixed with ⟨j, k, kind, hj, hk, hlarger⟩ | ⟨hoa, hob⟩ |
    ⟨hsa, hsb⟩
  · rw [hj] at ha ⊢
    rw [hk] at hb ⊢
    obtain ⟨rfl, hnotj⟩ := ha
    obtain ⟨rfl, hnotk⟩ := hb
    obtain ⟨hone, -⟩ := ScalarKind.larger?_eq_some_iff.mp hlarger
    have hkind : kind ≠ .null := by
      rcases hone with rfl | rfl <;> assumption
    rw [covering_scalar m hnotj hnotk, Form.join, hlarger]
    exact form_scalar hkind
  · rw [hoa] at ha ⊢
    rw [hob] at hb ⊢
    obtain ⟨r, rfl⟩ := ha
    obtain ⟨s, rfl⟩ := hb
    rfl
  · rw [hsa, hsb]
    exact form_eq_arrays_iff.mpr
      (isSlice_covering (form_eq_arrays_iff.mp hsa) (form_eq_arrays_iff.mp hsb))

/-- Only objects and arrays have more than one shape. -/
theorem eq_of_form_eq {a b : Shape} (h : a.form = b.form) (hobjects : b.form ≠ .objects)
    (harrays : b.form ≠ .arrays) : a = b := by
  have ha := a.form_fits
  have hb := b.form_fits
  rw [h] at ha
  cases hform : b.form with
  | objects => exact absurd hform hobjects
  | arrays => exact absurd hform harrays
  | scalars kind =>
    rw [hform] at ha hb
    exact ha.1.trans hb.1.symm
  | _ =>
    rw [hform] at ha hb
    exact Eq.trans ha (Eq.symm hb)

/-! Elements -/

/-- The shape that covers two elements, if there is one. -/
def elementCovering? (m : RecordMerge) (a b : Shape) : Option Shape :=
  (a.elementJoin? m b).map Reported.result

/-- The slice of elements that may not have a shape in common. -/
def sliceOf? (element? : Option Shape) : Shape :=
  element?.elim anySlice slice

theorem covering_slice (a b : Shape) :
    covering m (slice a) (slice b) = sliceOf? (elementCovering? m a b) := by
  simp only [covering, join?, elementCovering?, sliceOf?]
  cases elementJoin? m a b <;> rfl

/-- The elements that join: scalars with a larger kind, arrays whose elements join, and arrays of
objects. -/
inductive ElementsJoin (m : RecordMerge) : Shape → Shape → Shape → Prop where
  | scalars {j k kind : ScalarKind} (h : ScalarKind.larger? j k = some kind) :
    ElementsJoin m (scalar j) (scalar k) (scalar kind)
  | slices {a b c : Shape} (h : ElementsJoin m a b c) :
    ElementsJoin m (slice a) (slice b) (slice c)
  | structSlices (r s : Record) :
    ElementsJoin m (structSlice r) (structSlice s) (structSlice (m r s).result)

theorem elementCovering?_scalar (j k : ScalarKind) :
    elementCovering? m (scalar j) (scalar k) = (ScalarKind.larger? j k).map scalar := by
  cases j <;> cases k <;> rfl

theorem elementCovering?_slice (a b : Shape) :
    elementCovering? m (slice a) (slice b) = (elementCovering? m a b).map slice := by
  rw [elementCovering?, elementJoin?, elementCovering?, Option.map_map, Option.map_map]
  rfl

theorem ElementsJoin.eq_some {a b c : Shape} (h : ElementsJoin m a b c) :
    elementCovering? m a b = some c := by
  induction h with
  | scalars h => rw [elementCovering?_scalar, h, Option.map_some]
  | slices _ ih => rw [elementCovering?_slice, ih, Option.map_some]
  | structSlices => rfl

theorem elementsJoin_of_eq_some : ∀ {a b c : Shape}, elementCovering? m a b = some c →
    ElementsJoin m a b c
  | scalar j, scalar k, c, h => by
    rw [elementCovering?_scalar] at h
    obtain ⟨kind, hkind, rfl⟩ := Option.map_eq_some_iff.mp h
    exact .scalars hkind
  | slice a, slice b, c, h => by
    rw [elementCovering?_slice] at h
    obtain ⟨element, helement, rfl⟩ := Option.map_eq_some_iff.mp h
    exact .slices (elementsJoin_of_eq_some (a := a) helement)
  | structSlice r, structSlice s, c, h => by
    obtain rfl := Option.some.inj h
    exact .structSlices r s

/-- The records in three shapes may be merged in either order, unless merging the last two first
makes a key take another identifier. -/
def RecordsRegroup (m : RecordMerge) (a b c : Shape) : Prop :=
  ∀ r s t, a.record? = some r → b.record? = some s → c.record? = some t →
    NoCollision (m s t).events → (m r (m s t).result).result = (m (m r s).result t).result

variable {a b c d e f : Shape}

theorem ElementsJoin.regroup_left (hbc : ElementsJoin m b c d) (had : ElementsJoin m a d e)
    (hm : RecordsRegroup m a b c)
    (hplain : JoinsPlainly (b.elementJoin? m c)) :
    ∃ f, ElementsJoin m a b f ∧ ElementsJoin m f c e := by
  induction hbc generalizing a e with
  | @scalars j k kind hjk =>
    cases had with
    | @scalars i _ _ hij =>
      have hassoc := ScalarKind.larger?_assoc i j k
      rw [hjk, Option.bind_some, hij] at hassoc
      obtain ⟨kind, hfirst, hlast⟩ := Option.bind_eq_some_iff.mp hassoc.symm
      exact ⟨_, .scalars hfirst, .scalars hlast⟩
  | slices _ ih =>
    cases had with
    | slices had =>
      obtain ⟨f, hfirst, hlast⟩ := ih had hm hplain.of_map
      exact ⟨_, .slices hfirst, .slices hlast⟩
  | structSlices s t =>
    cases had with
    | structSlices r =>
      refine ⟨_, .structSlices r s, ?_⟩
      rw [hm r s t rfl rfl rfl hplain.of_some]
      exact .structSlices ..

theorem ElementsJoin.regroup_right (hab : ElementsJoin m a b f) (hfc : ElementsJoin m f c e)
    (hm : RecordsRegroup m a b c)
    (hplain : JoinsPlainly (b.elementJoin? m c)) :
    ∃ d, ElementsJoin m b c d ∧ ElementsJoin m a d e := by
  induction hab generalizing c e with
  | @scalars i j kind hij =>
    cases hfc with
    | @scalars _ k _ hjk =>
      have hassoc := ScalarKind.larger?_assoc i j k
      rw [hij, Option.bind_some, hjk] at hassoc
      obtain ⟨kind, hlast, hfirst⟩ := Option.bind_eq_some_iff.mp hassoc
      exact ⟨_, .scalars hlast, .scalars hfirst⟩
  | slices _ ih =>
    cases hfc with
    | slices hfc =>
      obtain ⟨d, hlast, hfirst⟩ := ih hfc hm hplain.of_map
      exact ⟨_, .slices hlast, .slices hfirst⟩
  | structSlices r s =>
    cases hfc with
    | structSlices _ t =>
      refine ⟨_, .structSlices s t, ?_⟩
      rw [← hm r s t rfl rfl rfl hplain.of_some]
      exact .structSlices ..

theorem elementCovering?_assoc (hm : RecordsRegroup m a b c)
    (hplain : JoinsPlainly (b.elementJoin? m c)) :
    (elementCovering? m b c).bind (elementCovering? m a ·) =
      (elementCovering? m a b).bind (elementCovering? m · c) := by
  apply Option.ext
  intro e
  rw [Option.bind_eq_some_iff, Option.bind_eq_some_iff]
  constructor
  · rintro ⟨d, hbc, had⟩
    obtain ⟨f, hab, hfc⟩ := (elementsJoin_of_eq_some hbc).regroup_left
      (elementsJoin_of_eq_some had) hm hplain
    exact ⟨f, hab.eq_some, hfc.eq_some⟩
  · rintro ⟨f, hab, hfc⟩
    obtain ⟨d, hbc, had⟩ := (elementsJoin_of_eq_some hab).regroup_right
      (elementsJoin_of_eq_some hfc) hm hplain
    exact ⟨d, hbc.eq_some, had.eq_some⟩

theorem covering_sliceOf?_right (a : Shape) (element? : Option Shape) :
    covering m (slice a) (sliceOf? element?) =
      sliceOf? (element?.bind (elementCovering? m a ·)) := by
  cases element? with
  | none => rfl
  | some element => exact covering_slice a element

theorem covering_sliceOf?_left (element? : Option Shape) (a : Shape) :
    covering m (sliceOf? element?) (slice a) =
      sliceOf? (element?.bind (elementCovering? m · a)) := by
  cases element? with
  | none => rfl
  | some element => exact covering_slice element a

/-- A slice of anything absorbs all other slices, and slices of different form make one. So it comes
down to slices of one form. -/
theorem covering_assoc_of_slices (ha : a.isSlice) (hb : b.isSlice) (hc : c.isSlice)
    (hm : RecordsRegroup m a b c)
    (hplain : JoinsPlainly (b.join? m c)) :
    a.covering m (b.covering m c) = (a.covering m b).covering m c := by
  by_cases hany : a = anySlice ∨ b = anySlice ∨ c = anySlice
  · have hab := isSlice_covering (m := m) ha hb
    have hbc := isSlice_covering (m := m) hb hc
    rcases hany with rfl | rfl | rfl
    · rw [covering_anySlice_left m hbc, covering_anySlice_left m hb, covering_anySlice_left m hc]
    · rw [covering_anySlice_left m hc, covering_anySlice_right m ha, covering_anySlice_left m hc]
    · rw [covering_anySlice_right m hb, covering_anySlice_right m ha, covering_anySlice_right m hab]
  rw [not_or, not_or] at hany
  obtain ⟨hna, hnb, hnc⟩ := hany
  cases a with
  | slice a =>
    cases b with
    | slice b =>
      cases c with
      | slice c =>
        have hassoc := elementCovering?_assoc (a := a) (b := b) (c := c) hm hplain.of_map
        rw [covering_slice, covering_slice, covering_sliceOf?_right, covering_sliceOf?_left, hassoc]
      | structSlice t =>
        rw [covering_slice]
        cases elementCovering? m a b <;> rfl
      | _ => contradiction
    | structSlice s => cases c <;> first | rfl | contradiction
    | _ => contradiction
  | structSlice r =>
    cases b with
    | slice b =>
      cases c with
      | slice c =>
        rw [covering_slice]
        cases elementCovering? m b c <;> rfl
      | structSlice t => rfl
      | _ => contradiction
    | structSlice s =>
      cases c with
      | slice c => rfl
      | structSlice t =>
        exact congrArg structSlice (hm r s t rfl rfl rfl hplain.of_some)
      | _ => contradiction
    | _ => contradiction
  | _ => contradiction

/-- Null yields to every shape. Without it, only objects or only arrays lead to objects or arrays,
and all other shapes are told apart by what they stand for. -/
theorem covering_assoc (hm : RecordsRegroup m a b c)
    (hplain : JoinsPlainly (b.join? m c)) :
    a.covering m (b.covering m c) = (a.covering m b).covering m c := by
  by_cases hna : a = scalar .null
  · rw [hna, covering_null_left, covering_null_left]
  by_cases hnb : b = scalar .null
  · rw [hnb, covering_null_left, covering_null_right]
  by_cases hnc : c = scalar .null
  · rw [hnc, covering_null_right, covering_null_right]
  have hforms : (a.covering m (b.covering m c)).form = ((a.covering m b).covering m c).form := by
    rw [form_covering, form_covering, form_covering, form_covering, Form.join_assoc]
  have hform : ((a.covering m b).covering m c).form = (a.form.join b.form).join c.form := by
    rw [form_covering, form_covering]
  by_cases hcontainers : (a.form.join b.form).join c.form = .objects ∨
      (a.form.join b.form).join c.form = .arrays
  · have hab : a.form.join b.form ≠ .nothing := Form.join_ne_nothing (form_ne_nothing hna)
    obtain ⟨hboth, hc⟩ := Form.join_eq_container hcontainers rfl hab (form_ne_nothing hnc)
    rw [← hboth] at hc hcontainers
    obtain ⟨ha, hb⟩ := Form.join_eq_container hcontainers rfl (form_ne_nothing hna)
      (form_ne_nothing hnb)
    rcases hcontainers with hobjects | harrays
    · rw [hobjects] at ha hb hc
      obtain ⟨r, rfl⟩ := eq_struct_of_form ha
      obtain ⟨s, rfl⟩ := eq_struct_of_form hb
      obtain ⟨t, rfl⟩ := eq_struct_of_form hc
      exact congrArg struct (hm r s t rfl rfl rfl hplain.of_some)
    · rw [harrays, form_eq_arrays_iff] at ha hb hc
      exact covering_assoc_of_slices ha hb hc hm hplain
  · rw [← hform, not_or] at hcontainers
    exact eq_of_form_eq hforms hcontainers.1 hcontainers.2

end Shape

theorem Shape.isNull_eq (a : Shape) : a.isNull = decide (a.form = .nothing) := by
  cases a with
  | scalar kind => cases kind <;> rfl
  | _ => rfl

theorem Shape.isNull_covering (a b : Shape) :
    (a.covering m b).isNull = (a.isNull && b.isNull) := by
  rw [isNull_eq, isNull_eq, isNull_eq, form_covering, ← Bool.decide_and]
  exact decide_eq_decide.mpr Summary.Form.join_eq_nothing_iff

/-- Merging fields of one key in either order. -/
theorem Field.covering_assoc {f g h : Field} (hm : Shape.RecordsRegroup m f.shape g.shape h.shape)
    (hplain : JoinsPlainly (g.shape.join? m h.shape)) :
    f.covering m (g.covering m h) = (f.covering m g).covering m h := by
  simp only [covering, Shape.covering_assoc hm hplain, Shape.isNull_covering, Option.or_assoc]
  congr 1
  cases f.optional <;> cases g.optional <;> cases h.optional <;> cases f.shape.isNull <;>
    cases g.shape.isNull <;> cases h.shape.isNull <;> rfl

end Exemplar

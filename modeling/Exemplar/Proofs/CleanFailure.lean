import Exemplar.Inference
import Exemplar.Proofs.Courses
import Exemplar.Proofs.Values

/-!
# Inference fails before it describes anything

Documents are read, then checked, then described. Reading and checking can fail; describing cannot.
So where inference fails no document has been described, and all that was reported is what reading
reports: keys that stand in an object twice.
-/

namespace Exemplar

/-! What reading reports -/

namespace Building

theorem duplicateKey_of_deliver (value : Value) (around : List Frame) :
    ∀ event ∈ (deliver value around).events, ∃ key, event = .duplicateKey key := by
  rcases around with _ | ⟨elements | ⟨members, key⟩, around⟩
  · exact List.forall_mem_nil _
  · exact List.forall_mem_nil _
  · rw [deliver]
    dsimp only [Progress.events]
    split
    · exact List.forall_mem_singleton.mpr ⟨key, rfl⟩
    · exact List.forall_mem_nil _

theorem duplicateKey_of_step (limit unclosed : Nat) (building : Building) (token : Token) :
    ∀ event ∈ (building.step limit unclosed token).events, ∃ key, event = .duplicateKey key := by
  cases building.effect token with
  | opens around opened hopens hlength hdepth hstep =>
    rw [hstep, enter]
    split <;> exact List.forall_mem_nil _
  | delivers value around hopens hlength hstep =>
    rw [hstep]
    exact duplicateKey_of_deliver value around
  | proceeds next hopens hdepth hopen hstep =>
    rw [hstep]
    exact List.forall_mem_nil _
  | refuses defect hstep hblames =>
    rw [hstep]
    exact List.forall_mem_nil _

theorem duplicateKey_of_course (limit unclosed : Nat) (building : Building)
    (lexemes : List Lexeme) :
    ∀ event ∈ (building.course limit unclosed lexemes).events,
      ∃ key, event = .duplicateKey key := by
  induction lexemes generalizing building with
  | nil => exact List.forall_mem_nil _
  | cons lexeme more ih =>
    cases hnext : (building.step limit unclosed lexeme.token).next? with
    | none =>
      obtain ⟨defect, hrefused⟩ := Progress.exists_of_next?_eq_none hnext
      rw [course_of_refused hrefused]
      exact List.forall_mem_nil _
    | some next =>
      rw [course_of_next? hnext, Course.after]
      exact List.forall_mem_append.mpr
        ⟨duplicateKey_of_step limit unclosed building lexeme.token, ih next⟩

end Building

/-- Reading reports nothing but keys that stand in an object twice. -/
theorem duplicateKey_of_readDocuments (bytes : List UInt8) (ending : Ending) (limit : Nat) :
    ∀ event ∈ (readDocuments bytes ending limit).events, ∃ key, event = .duplicateKey key := by
  rw [readDocuments_eq_reading]
  exact Building.duplicateKey_of_course limit 0 (.awaitingValue []) _

/-! Checking -/

theorem Value.not_isScalar_iff (d : Value) : ¬ d.isScalar ↔ d.isObject ∨ d.isArray := by
  cases d <;> simp [isScalar, scalarKind?, isObject, isArray]

theorem firstScalar?_eq_none_iff {documents : List Value} (index : Nat) :
    firstScalar? index documents = none ↔ ∀ d ∈ documents, ¬ d.isScalar := by
  induction documents generalizing index with
  | nil => simp [firstScalar?]
  | cons d more ih =>
    rw [firstScalar?, List.forall_mem_cons, ← ih (index + 1)]
    split
    · rename_i hscalar
      exact ⟨nofun, fun h => absurd hscalar h.1⟩
    · rename_i hscalar
      exact ⟨fun h => ⟨hscalar, h⟩, fun h => h.2⟩

/-- The first document that is a scalar is the one that is told. -/
theorem firstScalar?_of_getElem? {documents : List Value} {i : Nat} {d : Value} (index : Nat)
    (hd : documents[i]? = some d) (hscalar : d.isScalar)
    (hbefore : ∀ j < i, ∀ other, documents[j]? = some other → ¬ other.isScalar) :
    firstScalar? index documents = some (.scalarDocument (index + i) d.typeName) := by
  induction documents generalizing index i with
  | nil => contradiction
  | cons first more ih =>
    rw [firstScalar?]
    cases i with
    | zero =>
      obtain rfl := Option.some.inj hd
      rw [if_pos hscalar]
      rfl
    | succ i =>
      rw [if_neg (hbefore 0 (Nat.succ_pos i) first rfl),
        ih (index + 1) hd fun j hj other => hbefore (j + 1) (Nat.succ_lt_succ hj) other,
        Nat.add_assoc, Nat.add_comm 1 i]

/-! Describing -/

namespace Root

theorem exists_ofDocument (initialisms : Initialisms) (name : String) (index : Nat) {d : Value}
    (h : ¬ d.isScalar) : ∃ described, ofDocument initialisms name index d = .ok described := by
  cases d with
  | object members => exact ⟨_, rfl⟩
  | array elements =>
    rw [ofDocument]
    split <;> exact ⟨_, rfl⟩
  | _ => exact absurd rfl h

/-- Each root is that of its document alone. -/
theorem getElem?_ofDocumentsFrom (initialisms : Initialisms) (name : String) (count index : Nat)
    {documents : List Value} (h : ∀ d ∈ documents, ¬ d.isScalar) :
    (ofDocumentsFrom initialisms name count index documents).result.length = documents.length ∧
      ∀ i d, documents[i]? = some d → ∃ described,
        ofDocument initialisms (documentName name count (index + i)) (index + i) d =
            .ok described ∧
          (ofDocumentsFrom initialisms name count index documents).result[i]? =
            some described.result := by
  induction documents generalizing index with
  | nil => exact ⟨rfl, nofun⟩
  | cons first more ih =>
    obtain ⟨hfirst, hmore⟩ := List.forall_mem_cons.mp h
    obtain ⟨described, hdescribed⟩ :=
      exists_ofDocument initialisms (documentName name count index) index hfirst
    obtain ⟨hlength, hroots⟩ := ih (index + 1) hmore
    have hresult : (ofDocumentsFrom initialisms name count index (first :: more)).result =
        described.result :: (ofDocumentsFrom initialisms name count (index + 1) more).result := by
      rw [ofDocumentsFrom, hdescribed]
      rfl
    rw [hresult]
    refine ⟨congrArg (· + 1) hlength, fun i d hd => ?_⟩
    cases i with
    | zero =>
      obtain rfl := Option.some.inj hd
      exact ⟨described, hdescribed, rfl⟩
    | succ i =>
      have hplace : index + (i + 1) = index + 1 + i := by omega
      rw [hplace]
      exact hroots i d hd

end Root

section Inference

variable {initialisms : Initialisms} {name : String} {bytes : List UInt8} {ending : Ending}
  {limit : Nat} {documents : List Value}

theorem infer_of_unreadable {error : ReadError}
    (h : (readDocuments bytes ending limit).result = .error error) :
    infer initialisms name bytes ending limit =
      ⟨.error (.unreadable error), (readDocuments bytes ending limit).events⟩ := by
  rcases hread : readDocuments bytes ending limit with ⟨read, reported⟩
  rw [hread] at h
  obtain rfl : read = .error error := h
  rw [infer, hread]
  exact congrArg (Reported.mk _) (List.append_nil reported)

theorem infer_of_scalar {error : InferenceError}
    (h : (readDocuments bytes ending limit).result = .ok documents)
    (hscalar : firstScalar? 0 documents = some error) :
    infer initialisms name bytes ending limit =
      ⟨.error error, (readDocuments bytes ending limit).events⟩ := by
  rcases hread : readDocuments bytes ending limit with ⟨read, reported⟩
  rw [hread] at h
  obtain rfl : read = .ok documents := h
  have hchecked : Root.ofDocuments initialisms name documents = .error error := by
    rw [Root.ofDocuments, hscalar]
  rw [infer, hread]
  dsimp only [bind]
  rw [hchecked]
  exact congrArg (Reported.mk _) (List.append_nil reported)

theorem infer_of_described (h : (readDocuments bytes ending limit).result = .ok documents)
    (hscalars : firstScalar? 0 documents = none) :
    infer initialisms name bytes ending limit =
      ⟨.ok (Root.ofDocumentsFrom initialisms name documents.length 0 documents).result,
        (readDocuments bytes ending limit).events ++
          (Root.ofDocumentsFrom initialisms name documents.length 0 documents).events⟩ := by
  rcases hread : readDocuments bytes ending limit with ⟨read, reported⟩
  rw [hread] at h
  obtain rfl : read = .ok documents := h
  have hchecked : Root.ofDocuments initialisms name documents =
      .ok (Root.ofDocumentsFrom initialisms name documents.length 0 documents) := by
    rw [Root.ofDocuments, hscalars]
  rw [infer, hread]
  dsimp only [bind]
  rw [hchecked]
  exact congrArg (fun events => Reported.mk _ (reported ++ events)) (List.append_nil _)

theorem infer_eq_ok_iff {roots : List Root} :
    (infer initialisms name bytes ending limit).result = .ok roots ↔
      ∃ documents, (readDocuments bytes ending limit).result = .ok documents ∧
        (∀ d ∈ documents, ¬ d.isScalar) ∧
        (Root.ofDocumentsFrom initialisms name documents.length 0 documents).result = roots := by
  cases hread : (readDocuments bytes ending limit).result with
  | error error =>
    rw [infer_of_unreadable hread]
    exact ⟨nofun, nofun⟩
  | ok documents =>
    cases hscalar : firstScalar? 0 documents with
    | some error =>
      have hsome : ¬ ∀ d ∈ documents, ¬ d.isScalar := by
        rw [← firstScalar?_eq_none_iff 0, hscalar]
        exact Option.some_ne_none error
      rw [infer_of_scalar hread hscalar]
      refine ⟨nofun, ?_⟩
      rintro ⟨others, hothers, hnone, -⟩
      obtain rfl := Except.ok.inj hothers
      exact absurd hnone hsome
    | none =>
      rw [infer_of_described hread hscalar]
      constructor
      · intro h
        exact ⟨documents, rfl, (firstScalar?_eq_none_iff 0).mp hscalar, Except.ok.inj h⟩
      · rintro ⟨others, hothers, -, rfl⟩
        obtain rfl := Except.ok.inj hothers
        rfl

/-- Where inference fails, nothing has been reported but by reading. -/
theorem events_of_infer_error {error : InferenceError}
    (h : (infer initialisms name bytes ending limit).result = .error error) :
    (infer initialisms name bytes ending limit).events =
      (readDocuments bytes ending limit).events := by
  cases hread : (readDocuments bytes ending limit).result with
  | error error => rw [infer_of_unreadable hread]
  | ok documents =>
    cases hscalar : firstScalar? 0 documents with
    | some error => rw [infer_of_scalar hread hscalar]
    | none =>
      rw [infer_of_described hread hscalar] at h
      contradiction

end Inference

/-- Inference succeeds exactly if the input can be read and no document is a scalar. The roots are
then those of the documents, each described alone under its own name. Otherwise the error is that of
reading, or the first scalar, and nothing is reported but keys that stand in an object twice. -/
theorem infer_fails_cleanly (initialisms : Initialisms) (name : String) (bytes : List UInt8)
    (ending : Ending) (limit : Nat) :
    let read := readDocuments bytes ending limit
    let inferred := infer initialisms name bytes ending limit
    ((∃ roots, inferred.result = .ok roots) ↔
        ∃ documents, read.result = .ok documents ∧ ∀ d ∈ documents, d.isObject ∨ d.isArray) ∧
      (∀ documents roots, read.result = .ok documents → inferred.result = .ok roots →
        roots.length = documents.length ∧
          ∀ i d, documents[i]? = some d → ∃ described,
            Root.ofDocument initialisms
                (if documents.length = 1 then name else name ++ toString (i + 1)) i d =
              .ok described ∧
            roots[i]? = some described.result) ∧
      (∀ error, read.result = .error error → inferred.result = .error (.unreadable error)) ∧
      (∀ documents i d, read.result = .ok documents → documents[i]? = some d → d.isScalar →
        (∀ j < i, ∀ other, documents[j]? = some other → ¬ other.isScalar) →
        inferred.result = .error (.scalarDocument i d.typeName)) ∧
      ∀ error, inferred.result = .error error →
        inferred.events = read.events ∧
          ∀ event ∈ inferred.events, ∃ key, event = .duplicateKey key := by
  intro read inferred
  refine ⟨?_, ?_, fun error hread => ?_, ?_, fun error herror => ?_⟩
  · simp only [← Value.not_isScalar_iff]
    constructor
    · rintro ⟨roots, hroots⟩
      obtain ⟨documents, hread, hdocuments, -⟩ := infer_eq_ok_iff.mp hroots
      exact ⟨documents, hread, hdocuments⟩
    · rintro ⟨documents, hread, hdocuments⟩
      exact ⟨_, infer_eq_ok_iff.mpr ⟨documents, hread, hdocuments, rfl⟩⟩
  · intro documents roots hread hroots
    obtain ⟨others, hothers, hdocuments, rfl⟩ := infer_eq_ok_iff.mp hroots
    obtain rfl := Except.ok.inj (hread.symm.trans hothers)
    have hown := Root.getElem?_ofDocumentsFrom initialisms name documents.length 0 hdocuments
    simpa only [Nat.zero_add, Root.documentName] using hown
  · have hinferred : inferred = _ := infer_of_unreadable hread
    rw [hinferred]
  · intro documents i d hread hd hscalar hbefore
    have hfirst := firstScalar?_of_getElem? 0 hd hscalar hbefore
    rw [Nat.zero_add] at hfirst
    have hinferred : inferred = _ := infer_of_scalar hread hfirst
    rw [hinferred]
  · have hevents : inferred.events = read.events := events_of_infer_error herror
    refine ⟨hevents, ?_⟩
    rw [hevents]
    exact duplicateKey_of_readDocuments bytes ending limit

/-- Behind a document with an empty array stands a number. The empty array is not reported, since
nothing is described. -/
theorem infer_fails_cleanly_of_number :
    let inferred := infer Initialisms.standard "Root"
      "\x7b\"a\":[],\"a\":[]\x7d 7".toUTF8.toList .finished 8
    inferred.result = .error (.scalarDocument 1 "integer") ∧
      inferred.events = [.duplicateKey "a"] := by
  intro inferred
  have hobject : (Reader.start "\x7b\"a\":[],\"a\":[]\x7d 7".toUTF8.toList .finished 8).next =
      (⟨.ok (some (.object [("a", .array [])])), [.duplicateKey "a"]⟩,
        ⟨⟨[32, 55], ⟨15, 1, 16⟩, .finished⟩, 8, 0⟩) := by
    cbv
  have hnumber : (⟨⟨[32, 55], ⟨15, 1, 16⟩, .finished⟩, 8, 0⟩ : Reader).next =
      (⟨.ok (some (.integer 7)), []⟩, ⟨⟨[], ⟨17, 1, 18⟩, .finished⟩, 8, 0⟩) := by
    cbv
  have hfinished : (⟨⟨[], ⟨17, 1, 18⟩, .finished⟩, 8, 0⟩ : Reader).next =
      (⟨.ok none, []⟩, ⟨⟨[], ⟨17, 1, 18⟩, .finished⟩, 8, 0⟩) := by
    cbv
  have hread : readDocuments "\x7b\"a\":[],\"a\":[]\x7d 7".toUTF8.toList .finished 8 =
      ⟨.ok [.object [("a", .array [])], .integer 7], [.duplicateKey "a"]⟩ := by
    rw [readDocuments, Reader.readAll_of_some hobject, Reader.readAll_of_some hnumber,
      Reader.readAll_of_none hfinished]
    rfl
  obtain ⟨-, -, -, hscalar, hevents⟩ := infer_fails_cleanly Initialisms.standard "Root"
    "\x7b\"a\":[],\"a\":[]\x7d 7".toUTF8.toList .finished 8
  rw [hread] at hscalar hevents
  have hfirst : ∀ j < 1, ∀ other : Value,
      [Value.object [("a", .array [])], .integer 7][j]? = some other → ¬ other.isScalar := by
    intro j hj other hother
    obtain rfl := Nat.lt_one_iff.mp hj
    obtain rfl := Option.some.inj hother
    exact Bool.false_ne_true
  have hresult := hscalar _ 1 (.integer 7) rfl rfl rfl hfirst
  exact ⟨hresult, (hevents _ hresult).1⟩

end Exemplar

import Exemplar.Proofs.Cuts

/-!
# Errors are found at the first impossible token

A token that cannot stand where it stands is refused at once. What comes before it can be completed
to an input that is read, and what it ends cannot, whatever follows: the reader has missed nothing
and does not refuse too soon.
-/

namespace Exemplar

/-- The defect is a token that cannot stand where it stands; other defects lie in the bytes of a
token or at the end of the input. -/
def Defect.isStructural : Defect → Bool
  | unexpectedToken _ _ | nonStringKey _ | nestingTooDeep _ _ => true
  | _ => false

/-! Defects of tokens -/

namespace Token

def Step.IsLexical : Step → Prop
  | .refuse defect _ _ => ¬ defect.isStructural
  | .proceed _ | .finish _ _ => True

def Fault.IsLexical : Fault → Prop
  | .defect found _ => ¬ found.isStructural
  | .unreadable _ => True

theorem isLexical_closeString (text : List UInt8) : (closeString text).IsLexical := by
  rw [closeString]
  split
  · trivial
  · exact Bool.false_ne_true

theorem isLexical_stringStep (text : List UInt8) (escape : Escape) (offset : Nat) (b : UInt8) :
    (stringStep text escape offset b).IsLexical := by
  have hescape (start : Nat) : (Step.refuse .invalidEscape start true).IsLexical :=
    Bool.false_ne_true
  have hcontrol : (Step.refuse (.controlCharacter b) offset true).IsLexical :=
    Bool.false_ne_true
  have hproceed (next : Partial) : (Step.proceed next).IsLexical := trivial
  rw [stringStep.eq_def]
  grind [isLexical_closeString]

theorem isLexical_numberStep (part : NumberPart) (seen : List UInt8) (b : UInt8) :
    (numberStep part seen b).IsLexical := by
  rw [numberStep]
  split
  · trivial
  · split
    · exact Bool.false_ne_true
    · split
      · trivial
      · exact Bool.false_ne_true

theorem isLexical_keywordStep (missing : List UInt8) (token : Token) (offset : Nat) (b : UInt8) :
    (keywordStep missing token offset b).IsLexical := by
  unfold keywordStep
  split
  · trivial
  all_goals
    split
    · trivial
    · exact Bool.false_ne_true

theorem Partial.isLexical_step (begun : Partial) (seen : List UInt8) (b : UInt8) :
    (begun.step seen b).IsLexical := by
  cases begun with
  | keyword missing token => exact isLexical_keywordStep missing token seen.length b
  | string text escape => exact isLexical_stringStep text escape seen.length b
  | number part => exact isLexical_numberStep part seen b

theorem Partial.isLexical_atEnd {begun : Partial} {seen : List UInt8} {fault : Fault}
    (h : begun.atEnd seen = .error fault) : fault.IsLexical := by
  cases begun with
  | keyword missing token =>
    obtain rfl := Except.error.inj h
    exact Bool.false_ne_true
  | string text escape =>
    cases escape <;> obtain rfl := Except.error.inj h <;> exact Bool.false_ne_true
  | number part =>
    rw [atEnd] at h
    split at h
    · contradiction
    · obtain rfl := Except.error.inj h
      exact Bool.false_ne_true

theorem isLexical_firstStep (b : UInt8) : (firstStep b).IsLexical := by
  unfold firstStep
  split
  case h_12 =>
    split
    · trivial
    · exact Bool.false_ne_true
  all_goals trivial

theorem isLexical_of_scanOn {ending : Ending} {begun : Partial} {seen bytes : List UInt8}
    {fault : Fault} (h : (scanOn ending begun seen bytes).outcome = .error fault) :
    fault.IsLexical := by
  refine fault_of_scanOn (P := fun fault _ => fault.IsLexical) ?_ Partial.isLexical_atEnd
    (fun _ _ => trivial) h
  intro begun seen b defect offset taken hstep
  have hlexical := begun.isLexical_step seen b
  rwa [hstep] at hlexical

theorem isLexical_of_scan {ending : Ending} {b : UInt8} {bytes : List UInt8} {fault : Fault}
    (h : (scan ending b bytes).outcome = .error fault) : fault.IsLexical := by
  have hlexical := isLexical_firstStep b
  rw [scan] at h
  cases hstep : firstStep b with
  | proceed next =>
    rw [hstep] at h
    exact isLexical_of_scanOn h
  | finish token taken =>
    rw [hstep] at h
    contradiction
  | refuse defect offset taken =>
    rw [hstep] at h hlexical
    obtain rfl := Except.error.inj h
    exact hlexical

end Token

namespace Cursor

variable {c after : Cursor} {defect : Defect} {position : Position}

/-- What fails in reading a token is the token. -/
theorem isLexical_of_lex (h : c.lex = (.failed (.malformed defect position), after)) :
    ¬ defect.isStructural := by
  rw [lex] at h
  cases hrest : c.skipBlanks.rest with
  | nil =>
    rw [lexHere, hrest] at h
    cases hending : c.skipBlanks.ending <;> simp [hending] at h
  | cons b bytes =>
    rw [lexHere_of_rest hrest] at h
    cases hscan : (Token.scan c.skipBlanks.ending b bytes).outcome with
    | ok token =>
      rw [hscan] at h
      cases h
    | error fault =>
      have hlexical := Token.isLexical_of_scan hscan
      rw [hscan] at h
      cases fault with
      | defect found offset =>
        cases h
        exact hlexical
      | unreadable reason => cases h

theorem isLexical_of_stop (h : c.stop = .failed (.malformed defect position)) :
    ¬ defect.isStructural := by
  rw [stop] at h
  fun_induction lexAll c with
  | case1 c lexeme after hlex _ rest ih => exact ih h
  | case2 c hstop => exact isLexical_of_lex (Prod.ext h rfl)

end Cursor

/-! Tokens that are refused -/

namespace Building

variable {limit unclosed : Nat}

/-- Where a token cannot stand, none that is like it can. -/
theorem exists_refused_of_like {building : Building} {token other : Token} {defect : Defect}
    (h : building.step limit unclosed token = .refused defect) (hstructural : defect.isStructural)
    (hlike : token.Like other) : ∃ found, building.step limit unclosed other = .refused found := by
  obtain rfl | ⟨literal, literal', rfl, rfl⟩ := hlike
  · exact ⟨defect, h⟩
  -- where a value may stand, a number is not refused for standing there
  have hbegin (around : List Frame) :
      beginValue limit unclosed around (.number literal) ≠ .refused defect := by
    rw [beginValue]
    split
    · exact deliver_ne_refused _ around defect
    · rintro ⟨⟩
      exact Bool.false_ne_true hstructural
  cases building with
  | awaitingValue around => exact absurd h (hbegin around)
  | openedArray around => exact absurd h (hbegin (.array [] :: around))
  | _ => exact ⟨_, rfl⟩

/-! Tokens that complete a document -/

/-- The brackets that close the containers. -/
def closeAll : List Frame → List Token
  | [] => []
  | .array _ :: around => .rightBracket :: closeAll around
  | .object _ _ :: around => .rightBrace :: closeAll around

/-- Some tokens that a document lacks. -/
def lacking : Building → List Token
  | awaitingValue around => .null :: closeAll around
  | openedArray around | afterElement _ around => .rightBracket :: closeAll around
  | openedObject around | afterMember _ around => .rightBrace :: closeAll around
  | awaitingKey _ around =>
    .string "" :: .colon :: .null :: .rightBrace :: closeAll around
  | awaitingColon _ _ around => .colon :: .null :: .rightBrace :: closeAll around

/-- Behind the last token of a value, the open containers need only be closed. -/
theorem outcome_of_deliver {building : Building} {token : Token} {value : Value}
    {around : List Frame} {lexemes : List Lexeme}
    (hstep : building.step limit unclosed token = deliver value around)
    (h : lexemes.map (·.token) = token :: closeAll around) :
    (building.course limit unclosed lexemes).outcome = .reached (.awaitingValue []) := by
  -- closing the innermost container is the last token of a value again
  induction around generalizing building token value lexemes with
  | nil =>
    obtain ⟨lexeme, more, rfl, rfl, hmore⟩ := List.map_eq_cons_iff.mp h
    obtain rfl := List.map_eq_nil_iff.mp hmore
    rw [course, hstep]
    rfl
  | cons frame around ih =>
    obtain ⟨lexeme, more, rfl, rfl, hmore⟩ := List.map_eq_cons_iff.mp h
    rw [course, hstep]
    cases frame with
    | array elements =>
      have hclose : (afterElement (value :: elements) around).step limit unclosed .rightBracket =
          deliver (.array (value :: elements).reverse) around := rfl
      exact ih hclose hmore
    | object members key =>
      have hclose : (afterMember (Value.setMember key value members) around).step limit unclosed
          .rightBrace = deliver (.object (Value.setMember key value members)) around := rfl
      exact ih hclose hmore

theorem outcome_lacking_awaitingColon {members : List (String × Value)} {key : String}
    {around : List Frame} {lexemes : List Lexeme}
    (h : lexemes.map (·.token) = (awaitingColon members key around).lacking) :
    ((awaitingColon members key around).course limit unclosed lexemes).outcome =
      .reached (.awaitingValue []) := by
  obtain ⟨colon, more, rfl, hcolon, hmore⟩ := List.map_eq_cons_iff.mp h
  have hstep : (awaitingValue (.object members key :: around)).step limit unclosed .null =
      deliver .null (.object members key :: around) := rfl
  rw [course, hcolon]
  exact outcome_of_deliver hstep hmore

/-- What a document lacks completes it. -/
theorem outcome_lacking {building : Building} {lexemes : List Lexeme}
    (h : lexemes.map (·.token) = building.lacking) :
    (building.course limit unclosed lexemes).outcome = .reached (.awaitingValue []) := by
  have hdone {token : Token} {value : Value} {around : List Frame}
      (hlacking : building.lacking = token :: closeAll around)
      (hstep : building.step limit unclosed token = deliver value around) :
      (building.course limit unclosed lexemes).outcome = .reached (.awaitingValue []) :=
    outcome_of_deliver hstep (h.trans hlacking)
  cases building with
  | awaitingValue around => exact hdone rfl rfl
  | openedArray around => exact hdone rfl rfl
  | openedObject around => exact hdone rfl rfl
  | afterElement elements around => exact hdone rfl rfl
  | afterMember members around => exact hdone rfl rfl
  | awaitingColon members key around => exact outcome_lacking_awaitingColon h
  | awaitingKey members around =>
    obtain ⟨lexeme, more, rfl, hkey, hmore⟩ := List.map_eq_cons_iff.mp h
    have hcolon : ((awaitingColon members "" around).course limit unclosed more).outcome =
        .reached (.awaitingValue []) := outcome_lacking_awaitingColon hmore
    rw [course, hkey]
    exact hcolon

end Building

/-! Their bytes -/

namespace Token

/-- The bytes are the token wherever they stand and whatever follows them. -/
def Spelled (token : Token) (word : List UInt8) : Prop :=
  ∀ (c : Cursor) (more : List UInt8), c.rest = word ++ more → c.Stands token word.length

/-- Some bytes are the token wherever they stand. -/
def IsSpelled (token : Token) : Prop :=
  ∃ word, token.Spelled word

theorem spelled_of_scan {token : Token} {b : UInt8} {word : List UInt8}
    (hblank : isBlank b = false)
    (hscan : ∀ ending more, scan ending b (word ++ more) = ⟨.ok token, word.length + 1⟩) :
    token.Spelled (b :: word) :=
  fun c more h => ⟨b, word ++ more, h, hblank, hscan c.ending more⟩

theorem spelled_null : null.Spelled [110, 117, 108, 108] :=
  spelled_of_scan rfl fun _ _ => rfl

theorem spelled_emptyString : (string "").Spelled [34, 34] := by
  refine spelled_of_scan rfl fun ending more => ?_
  cbv

theorem spelled_colon : colon.Spelled [58] :=
  spelled_of_scan rfl fun _ _ => rfl

theorem spelled_rightBrace : rightBrace.Spelled [125] :=
  spelled_of_scan rfl fun _ _ => rfl

theorem spelled_rightBracket : rightBracket.Spelled [93] :=
  spelled_of_scan rfl fun _ _ => rfl

end Token

namespace Building

theorem isSpelled_closeAll (around : List Frame) :
    ∀ token ∈ closeAll around, token.IsSpelled := by
  induction around with
  | nil => exact List.forall_mem_nil _
  | cons frame around ih =>
    cases frame with
    | array elements => exact List.forall_mem_cons.mpr ⟨⟨_, Token.spelled_rightBracket⟩, ih⟩
    | object members key => exact List.forall_mem_cons.mpr ⟨⟨_, Token.spelled_rightBrace⟩, ih⟩

/-- What a document lacks can be written. -/
theorem isSpelled_lacking (building : Building) :
    ∀ token ∈ building.lacking, token.IsSpelled := by
  have hobject (around : List Frame) :
      ∀ token ∈ .colon :: .null :: .rightBrace :: closeAll around, token.IsSpelled := by
    refine List.forall_mem_cons.mpr ⟨⟨_, Token.spelled_colon⟩, ?_⟩
    refine List.forall_mem_cons.mpr ⟨⟨_, Token.spelled_null⟩, ?_⟩
    exact List.forall_mem_cons.mpr ⟨⟨_, Token.spelled_rightBrace⟩, isSpelled_closeAll around⟩
  cases building with
  | awaitingValue around =>
    exact List.forall_mem_cons.mpr ⟨⟨_, Token.spelled_null⟩, isSpelled_closeAll around⟩
  | openedArray around | afterElement elements around =>
    exact List.forall_mem_cons.mpr ⟨⟨_, Token.spelled_rightBracket⟩, isSpelled_closeAll around⟩
  | openedObject around | afterMember members around =>
    exact List.forall_mem_cons.mpr ⟨⟨_, Token.spelled_rightBrace⟩, isSpelled_closeAll around⟩
  | awaitingKey members around =>
    exact List.forall_mem_cons.mpr ⟨⟨_, Token.spelled_emptyString⟩, hobject around⟩
  | awaitingColon members key around => exact hobject around

end Building

namespace Cursor

/-- Tokens that can be written are the tokens of some bytes. -/
theorem exists_bytes_of_isSpelled {tokens : List Token}
    (h : ∀ token ∈ tokens, token.IsSpelled) :
    ∃ bytes, ∀ c : Cursor, c.rest = bytes → c.ending = .finished →
      c.lexemes.map (·.token) = tokens ∧ ∃ position, c.stop = .finished position := by
  induction tokens with
  | nil =>
    refine ⟨[], fun c hrest hending => ?_⟩
    obtain ⟨hlexemes, hstop⟩ := lexemes_of_finished (lex_of_rest_eq_nil hrest hending)
    rw [hlexemes, hstop]
    exact ⟨rfl, _, rfl⟩
  | cons token tokens ih =>
    obtain ⟨⟨word, hword⟩, htokens⟩ := List.forall_mem_cons.mp h
    obtain ⟨bytes, hbytes⟩ := ih htokens
    refine ⟨word ++ bytes, fun c hrest hending => ?_⟩
    obtain ⟨hlexemes, hstop⟩ := lexemes_of_token (hword c bytes hrest).lex
    have hbehind : (c.skip word.length).rest = bytes := by
      rw [rest_skip, hrest, List.drop_left]
    obtain ⟨hmore, hlast⟩ := hbytes (c.skip word.length) hbehind hending
    rw [hlexemes, hstop, List.map_cons, hmore]
    exact ⟨rfl, hlast⟩

end Cursor

/-! The first impossible token -/

variable {limit : Nat} {bytes : List UInt8} {ending : Ending} {before : List Lexeme}
  {lexeme : Lexeme} {c after : Cursor} {building : Building}

/-- What stands before a token can be completed, however far the document has come there. -/
theorem exists_completion (hreads : (Cursor.start bytes ending).Reads before c)
    (hlex : c.lex = (.token lexeme, after))
    (houtcome : ((Building.awaitingValue []).course limit 0 before).outcome = .reached building) :
    ∃ more documents,
      (readDocuments (bytes.take lexeme.position.offset ++ more) .finished limit).result =
        .ok documents := by
  obtain ⟨word, hword⟩ := Cursor.exists_bytes_of_isSpelled building.isSpelled_lacking
  obtain ⟨position, last, hend⟩ := Cursor.lex_upTo_of_token hlex
  -- behind the cut and a line feed only the new bytes are read
  have hnew := Cursor.lexAll_congr (Cursor.lex_beyond hend word .finished)
  obtain ⟨hlacking, finish, hfinish⟩ := hword
    ((c.upTo lexeme.position.offset).beyond word .finished) (Cursor.rest_beyond _ _ _) rfl
  rw [Cursor.lexemes, ← hnew, ← Cursor.lexemes] at hlacking
  rw [Cursor.stop, ← hnew, ← Cursor.stop] at hfinish
  have hcut := (hreads.upTo (Cursor.offset_of_lex hlex).1).lineFeed rfl word .finished
  obtain ⟨hlexemes, hstop⟩ := hcut.lexemes_eq
  have hcursor : ((Cursor.start bytes ending).upTo lexeme.position.offset).followed (10 :: word)
      .finished = Cursor.start (bytes.take lexeme.position.offset ++ 10 :: word) .finished := rfl
  rw [hcursor] at hlexemes hstop
  have hcomplete := (Building.outcome_append houtcome _).trans
    (Building.outcome_lacking hlacking)
  refine ⟨10 :: word, ?_⟩
  rw [readDocuments_eq_reading, hlexemes, hstop, hfinish]
  exact ⟨_, Course.result_of_reached hcomplete finish⟩

/-- What a token ends that is refused is not read, whatever follows. -/
theorem ne_ok_of_refused {defect : Defect} (hreads : (Cursor.start bytes ending).Reads before c)
    (hlex : c.lex = (.token lexeme, after))
    (houtcome : ((Building.awaitingValue []).course limit 0 before).outcome = .reached building)
    (hrefused : building.step limit 0 lexeme.token = .refused defect)
    (hstructural : defect.isStructural) (more : List UInt8) (ending' : Ending)
    (documents : List Value) :
    (readDocuments (bytes.take after.position.offset ++ more) ending' limit).result ≠
      .ok documents := by
  obtain ⟨hfirst, hlast⟩ := Cursor.offset_of_lex hlex
  have hafter := c.leads_lex
  rw [hlex] at hafter
  have hlength := (hreads.leads.trans hafter).offset_add_length
  have hcut := hreads.upTo_followed (by omega : c.position.offset < after.position.offset)
    (by dsimp only at hlength; omega) more ending'
  obtain ⟨hlexemes, hstop⟩ := hcut.lexemes_eq
  have hcursor : ((Cursor.start bytes ending).upTo after.position.offset).followed more ending' =
      Cursor.start (bytes.take after.position.offset ++ more) ending' := rfl
  rw [hcursor] at hlexemes hstop
  rw [readDocuments_eq_reading, hlexemes, hstop]
  -- the token that was refused may have become a longer number, or part of no token at all
  rcases Cursor.lex_followed hlex more ending' with ⟨other, place, hother, hlike⟩ |
    ⟨error, place, herror⟩
  · obtain ⟨found, hfound⟩ : ∃ found, building.step limit 0
        (⟨other, lexeme.position⟩ : Lexeme).token = .refused found :=
      Building.exists_refused_of_like hrefused hstructural hlike
    obtain ⟨htokens, -⟩ := Cursor.lexemes_of_token hother
    have hcourse := (Building.outcome_append houtcome _).trans
      (congrArg Course.outcome (Building.course_of_refused hfound place.lexemes))
    rw [htokens, Course.reading, Course.result_of_refused hcourse]
    exact nofun
  · obtain ⟨htokens, hfailed⟩ := Cursor.lexemes_of_failed herror
    rw [htokens, hfailed, List.append_nil, Course.reading, Course.result_of_failed houtcome]
    exact nofun

/-- A structural error comes from a token that is refused. -/
theorem outcome_of_result {defect : Defect} {position : Position}
    (h : (readDocuments bytes ending limit).result = .error (.malformed defect position))
    (hstructural : defect.isStructural) :
    ((Building.awaitingValue []).course limit 0 (Cursor.start bytes ending).lexemes).outcome =
      .refused defect position := by
  rw [readDocuments_eq_reading, Course.reading] at h
  dsimp only at h
  cases houtcome : ((Building.awaitingValue []).course limit 0
      (Cursor.start bytes ending).lexemes).outcome with
  | refused found place =>
    rw [Course.result_of_refused houtcome] at h
    cases h
    rfl
  | reached building =>
    cases hstop : (Cursor.start bytes ending).stop with
    | failed error =>
      rw [hstop, Course.result_of_failed houtcome] at h
      obtain rfl := Except.error.inj h
      exact absurd hstructural (Cursor.isLexical_of_stop hstop)
    | _ =>
      -- at the end of the input no token is left to blame
      rw [hstop, Course.result.eq_def, houtcome] at h
      rcases building with ⟨_ | ⟨frame, around⟩⟩ | _ | _ | _ | _ | _ | _ <;> cases h <;>
        contradiction

/-- Where reading ends with a token that cannot stand where it stands, the error is placed at that
token. The bytes before it can be completed to an input that is read, and those up to its end cannot
be. -/
theorem readDocuments_first_error {defect : Defect} {position : Position}
    (h : (readDocuments bytes ending limit).result = .error (.malformed defect position))
    (hstructural : defect.isStructural) :
    ∃ t ∈ (Cursor.start bytes ending).lexAll.1,
      defect.Blames t.1.token ∧ position = t.1.position ∧
      (∃ more documents,
        (readDocuments (bytes.take t.1.position.offset ++ more) .finished limit).result =
          .ok documents) ∧
      ∀ more ending' documents,
        (readDocuments (bytes.take t.2.offset ++ more) ending' limit).result ≠ .ok documents := by
  have houtcome := outcome_of_result h hstructural
  obtain ⟨before, lexeme, others, building, hlexemes, hbefore, hrefused, hposition⟩ :=
    Building.exists_of_refused houtcome
  obtain ⟨firsts, rest, hall, rfl, hrest⟩ := List.map_eq_append_iff.mp hlexemes
  obtain ⟨t, lasts, rfl, rfl, -⟩ := List.map_eq_cons_iff.mp hrest
  obtain ⟨c, after, hreads, hlex, hafter⟩ := Cursor.exists_reads hall
  refine ⟨t, ?_, Building.blames_of_refused hrefused, hposition,
    exists_completion hreads hlex hbefore, ?_⟩
  · rw [hall]
    exact List.mem_append_right _ List.mem_cons_self
  · rw [← hafter]
    exact ne_ok_of_refused hreads hlex hbefore hrefused hstructural

/-- In an array, a second number that no comma stands before is the first impossible token, although
further digits could follow it. -/
theorem readDocuments_first_error_of_array :
    (readDocuments "[1 2]".toUTF8.toList .finished 1).result =
        .error (.malformed (.unexpectedToken (.number "2") .commaOrBracket) ⟨3, 1, 4⟩) ∧
      (Defect.unexpectedToken (.number "2") .commaOrBracket).isStructural ∧
      (∃ more documents, (readDocuments ("[1 ".toUTF8.toList ++ more) .finished 1).result =
        .ok documents) ∧
      ∀ more ending' documents,
        (readDocuments ("[1 2".toUTF8.toList ++ more) ending' 1).result ≠ .ok documents := by
  have hresult : (readDocuments "[1 2]".toUTF8.toList .finished 1).result =
      .error (.malformed (.unexpectedToken (.number "2") .commaOrBracket) ⟨3, 1, 4⟩) := by
    rw [readDocuments_eq_reading]
    cbv
  have hlexAll : (Cursor.start "[1 2]".toUTF8.toList .finished).lexAll.1 =
      [(⟨.leftBracket, ⟨0, 1, 1⟩⟩, ⟨1, 1, 2⟩), (⟨.number "1", ⟨1, 1, 2⟩⟩, ⟨2, 1, 3⟩),
        (⟨.number "2", ⟨3, 1, 4⟩⟩, ⟨4, 1, 5⟩), (⟨.rightBracket, ⟨4, 1, 5⟩⟩, ⟨5, 1, 6⟩)] := by cbv
  obtain ⟨t, ht, -, hposition, hcompleted, hrefused⟩ := readDocuments_first_error hresult rfl
  have hblamed : t = (⟨.number "2", ⟨3, 1, 4⟩⟩, ⟨4, 1, 5⟩) := by
    rw [hlexAll] at ht
    simp only [List.mem_cons, List.not_mem_nil, or_false] at ht
    rcases ht with rfl | rfl | rfl | rfl
    · contradiction
    · contradiction
    · rfl
    · contradiction
  have hbefore : "[1 2]".toUTF8.toList.take 3 = "[1 ".toUTF8.toList := by cbv
  have hended : "[1 2]".toUTF8.toList.take 4 = "[1 2".toUTF8.toList := by cbv
  simp only [hblamed, hbefore] at hcompleted
  simp only [hblamed, hended] at hrefused
  exact ⟨hresult, rfl, hcompleted, hrefused⟩

end Exemplar

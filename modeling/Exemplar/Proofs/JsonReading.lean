import Exemplar.Json
import Exemplar.Proofs.FirstError
import Exemplar.Proofs.NumberLexing
import Exemplar.Proofs.StringTokens

/-!
# JSON that is laid out is read back

The layout of JSON has the tokens of the tree that it lays out, with blanks between them. Each piece
of it is followed on its own, wherever it stands and whatever comes after it. A string is the text
again, since every character that is escaped is escaped as the grammar of strings has it. So the
reader finds one document, and where no key stands twice in an object it finds nothing to report.
-/

namespace Exemplar

theorem Utf8.toList_toUTF8_append (a b : String) :
    (a ++ b).toUTF8.toList = a.toUTF8.toList ++ b.toUTF8.toList := by
  rw [toList_toUTF8, toList_toUTF8, toList_toUTF8, String.toList_append, List.flatMap_append]

theorem setMember_of_not_mem {key : String} {value : Value} {members : List (String × Value)}
    (h : key ∉ members.map Prod.fst) :
    Value.setMember key value members = members ++ [(key, value)] := by
  induction members with
  | nil => rfl
  | cons m members ih =>
    have hne : m.1 ≠ key := Ne.symm (List.ne_of_not_mem_cons h)
    rw [Value.setMember, if_neg hne, ih (List.not_mem_of_not_mem_cons h), List.cons_append]

/-- Where no key stands twice, every member counts. -/
theorem lastWins_of_nodup {members : List (String × Value)} (h : (members.map Prod.fst).Nodup) :
    lastWins members = members := by
  induction members using List.reverseRecOn with
  | nil => rfl
  | append_singleton members m ih =>
    rw [List.map_append] at h
    obtain ⟨hbefore, -, hapart⟩ := List.nodup_append.mp h
    have hnew : m.1 ∉ members.map Prod.fst := fun hmem =>
      hapart m.1 hmem m.1 List.mem_cons_self rfl
    rw [lastWins_append, ih hbefore, setMember_of_not_mem hnew]

/-! Texts that are tokens -/

/-- The text is these tokens wherever it stands and whatever follows it. -/
def Written (text : String) (tokens : List Token) : Prop :=
  ∀ (c : Cursor) (more : List UInt8), c.rest = text.toUTF8.toList ++ more →
    ∃ after : Cursor, after.rest = more ∧ after.ending = c.ending ∧
      c.tokens? = after.tokens?.map (tokens ++ ·)

namespace Written

variable {text other : String} {tokens others : List Token}

theorem append (h : Written text tokens) (hother : Written other others) :
    Written (text ++ other) (tokens ++ others) := by
  intro c more hrest
  rw [Utf8.toList_toUTF8_append, List.append_assoc] at hrest
  obtain ⟨middle, hmiddle, hending, htokens⟩ := h c _ hrest
  obtain ⟨after, hafter, hending', hothers⟩ := hother middle more hmiddle
  refine ⟨after, hafter, hending'.trans hending, ?_⟩
  rw [htokens, hothers, Option.map_map]
  simp only [Function.comp_def, List.append_assoc]

theorem cons {token : Token} (h : Written text [token]) (hother : Written other others) :
    Written (text ++ other) (token :: others) := h.append hother

theorem nil_append (h : Written text []) (hother : Written other others) :
    Written (text ++ other) others := h.append hother

theorem of_spelled {token : Token} {word : List UInt8} (hword : text.toUTF8.toList = word)
    (h : token.Spelled word) : Written text [token] := by
  intro c more hrest
  rw [hword] at hrest
  refine ⟨c.skip word.length, ?_, rfl, ?_⟩
  · rw [Cursor.rest_skip, hrest, List.drop_left]
  · rw [Cursor.tokens?_eq, (h c more hrest).lex]
    rfl

theorem of_isBlank (h : ∀ b ∈ text.toUTF8.toList, isBlank b) : Written text [] := by
  intro c more hrest
  refine ⟨c.skip text.toUTF8.toList.length, ?_, rfl, ?_⟩
  · rw [Cursor.rest_skip, hrest, List.drop_left]
  · have hblanks : (c.rest.takeWhile isBlank).length =
        text.toUTF8.toList.length + (more.takeWhile isBlank).length := by
      rw [hrest, List.takeWhile_append_of_pos h, List.length_append]
    have hlex : c.lex = (c.skip text.toUTF8.toList.length).lex := by
      rw [Cursor.lex, Cursor.lex, Cursor.skipBlanks, Cursor.skipBlanks, Cursor.skip_skip, hblanks,
        Cursor.rest_skip, hrest, List.drop_left]
    rw [Cursor.tokens?, Cursor.tokens?, Cursor.lexAll_congr hlex]
    simp

/-- Spaces and line feeds are no tokens. -/
theorem of_blanks (h : ∀ c ∈ text.toList, c = ' ' ∨ c = '\n') : Written text [] := by
  have hspace : String.utf8EncodeChar ' ' = [32] := rfl
  have hfeed : String.utf8EncodeChar '\n' = [10] := rfl
  refine of_isBlank fun b hb => ?_
  rw [Utf8.toList_toUTF8] at hb
  obtain ⟨c, hc, hb⟩ := List.mem_flatMap.mp hb
  rcases h c hc with rfl | rfl
  · rw [hspace] at hb
    obtain rfl := List.mem_singleton.mp hb
    rfl
  · rw [hfeed] at hb
    obtain rfl := List.mem_singleton.mp hb
    rfl

/-- An input that is such a text has these tokens. -/
theorem tokens?_start (h : Written text tokens) :
    (Cursor.start text.toUTF8.toList .finished).tokens? = some tokens := by
  obtain ⟨after, hrest, hending, htokens⟩ :=
    h (.start text.toUTF8.toList .finished) [] (List.append_nil _).symm
  rw [htokens, Cursor.tokens?_of_rest_eq_nil hrest hending, Option.map_some, List.append_nil]

theorem leftBracket : Written "[" [.leftBracket] := by
  have hword : "[".toUTF8.toList = [91] := by cbv
  exact of_spelled hword (Token.spelled_of_scan rfl fun _ _ => rfl)

theorem rightBracket : Written "]" [.rightBracket] :=
  of_spelled (by cbv) Token.spelled_rightBracket

theorem leftBrace : Written "\x7b" [.leftBrace] := by
  have hword : "\x7b".toUTF8.toList = [123] := by cbv
  exact of_spelled hword (Token.spelled_of_scan rfl fun _ _ => rfl)

theorem rightBrace : Written "\x7d" [.rightBrace] :=
  of_spelled (by cbv) Token.spelled_rightBrace

theorem comma : Written "," [.comma] := by
  have hword : ",".toUTF8.toList = [44] := by cbv
  exact of_spelled hword (Token.spelled_of_scan rfl fun _ _ => rfl)

theorem colon : Written ": " [.colon] := by
  have hcolon : Written ":" [.colon] := of_spelled (by cbv) Token.spelled_colon
  have hblank : Written " " [] := of_blanks (by simp)
  exact hcolon.append hblank

theorem boolean (value : Bool) : Written (toString value) [.boolean value] := by
  cases value with
  | false =>
    have hword : "false".toUTF8.toList = [102, 97, 108, 115, 101] := by cbv
    exact of_spelled hword (Token.spelled_of_scan rfl fun _ _ => rfl)
  | true =>
    have hword : "true".toUTF8.toList = [116, 114, 117, 101] := by cbv
    exact of_spelled hword (Token.spelled_of_scan rfl fun _ _ => rfl)

end Written

/-! Strings -/

namespace Token

theorem spelled_string {body : List UInt8} {text : String} (h : StringBody body text.toList) :
    (string text).Spelled ('"'.toUInt8 :: (body ++ ['"'.toUInt8])) := by
  refine spelled_of_scan rfl fun ending more => ?_
  rw [List.append_assoc, List.singleton_append, scan_of_stringBody h, List.length_append]
  rfl

end Token

namespace Json

theorem hexDigit_digitChar {digit : ℕ} (h : digit < 16) :
    HexDigit digit.digitChar.toUInt8 digit :=
  ⟨h, .inl rfl⟩

/-- Four digits of a character below 256. -/
theorem unitEscape_of_lt {n : ℕ} (h : n < 256) :
    UnitEscape ['\\'.toUInt8, 'u'.toUInt8, '0'.toUInt8, '0'.toUInt8,
      (n / 16).digitChar.toUInt8, (n % 16).digitChar.toUInt8] n := by
  have hzero : HexDigit '0'.toUInt8 0 := hexDigit_digitChar (by decide)
  have hhigh : HexDigit (n / 16).digitChar.toUInt8 (n / 16) := hexDigit_digitChar (by omega)
  have hlow : HexDigit (n % 16).digitChar.toUInt8 (n % 16) := hexDigit_digitChar (by omega)
  have hdigits : HexDigits _ (((0 * 16 + 0) * 16 + 0) * 16 + n / 16) :=
    ((HexDigits.nil.snoc hzero).snoc hzero).snoc hhigh
  have hall := hdigits.snoc hlow
  have hvalue : (((0 * 16 + 0) * 16 + 0) * 16 + n / 16) * 16 + n % 16 = n := by omega
  rw [hvalue] at hall
  exact .digits hall rfl

theorem toNat_digitChar_lt {digit : ℕ} (h : digit < 16) : digit.digitChar.toNat < 128 := by
  have hall : ∀ digit < 16, (Nat.digitChar digit).toNat < 128 := by decide
  exact hall digit h

/-- A character as it is escaped stands for itself. -/
theorem stringBody_escapeChar {c : Char} {body : List UInt8} {text : List Char}
    (h : StringBody body text) :
    StringBody ((escapeChar c).flatMap String.utf8EncodeChar ++ body) (c :: text) := by
  have hshort {letter c : Char} (hmem : (letter, c) ∈ shortEscapes) :
      StringBody (['\\', letter].flatMap String.utf8EncodeChar ++ body) (c :: text) := by
    have hascii : ∀ e ∈ shortEscapes, e.1.toNat < 128 := by decide
    rw [Utf8.flatMap_utf8EncodeChar (by simpa using hascii _ hmem)]
    exact .escaped (.short hmem) h
  unfold escapeChar
  split
  case h_8 hquote hbackslash _ _ _ _ _ =>
    split
    · rename_i hlow
      have hhigh : (c.toNat / 16).digitChar.toNat < 128 := toNat_digitChar_lt (by omega)
      have hlast : (c.toNat % 16).digitChar.toNat < 128 := toNat_digitChar_lt (by omega)
      rw [Utf8.flatMap_utf8EncodeChar (by simp [hhigh, hlast])]
      exact .escaped (.unit (unitEscape_of_lt (by omega))) h
    · rename_i hlow
      rw [List.flatMap_singleton]
      exact .plain (Nat.le_of_not_lt hlow) hquote hbackslash h
  all_goals exact hshort (by decide)

theorem stringBody_flatMap_escapeChar (text : List Char) :
    StringBody ((text.flatMap escapeChar).flatMap String.utf8EncodeChar) text := by
  induction text with
  | nil => exact .nil
  | cons c text ih =>
    rw [List.flatMap_cons, List.flatMap_append]
    exact stringBody_escapeChar ih

/-- A quoted text is read as that text. -/
theorem written_quote (text : String) : Written (quote text) [.string text] := by
  have hbytes : (quote text).toUTF8.toList = '"'.toUInt8 ::
      ((text.toList.flatMap escapeChar).flatMap String.utf8EncodeChar ++ ['"'.toUInt8]) := by
    rw [Utf8.toList_toUTF8, quote, String.toList_ofList, List.flatMap_append, List.flatMap_cons]
    rfl
  exact Written.of_spelled hbytes
    (Token.spelled_string (stringBody_flatMap_escapeChar text.toList))

theorem written_newline (level : ℕ) : Written (newline level) [] := by
  refine Written.of_blanks ?_
  rw [newline, String.toList_ofList, List.forall_mem_cons]
  exact ⟨.inr rfl, fun c hc => .inl (List.eq_of_mem_replicate hc)⟩

/-! Trees -/

mutual

/-- The tree that is laid out. -/
def tree : Json → Tree
  | boolean value => .boolean value
  | string text => .string text
  | array elements => .array (elementTrees elements)
  | object members => .object (memberTrees members)

def elementTrees : List Json → List Tree
  | [] => []
  | element :: rest => element.tree :: elementTrees rest

def memberTrees : List (String × Json) → List (String × Tree)
  | [] => []
  | (key, value) :: rest => (key, value.tree) :: memberTrees rest

end

mutual

/-- A layout has the tokens of its tree. -/
theorem written_layout : ∀ (json : Json) (level : ℕ), Written (json.layout level) json.tree.tokens
  | boolean true, _ => .boolean true
  | boolean false, _ => .boolean false
  | string text, _ => written_quote text
  | array [], _ => Written.leftBracket.cons .rightBracket
  | array (first :: rest), level => by
    have helements := written_layoutElements rest (level + 1) level
    have hfirst := (written_layout first (level + 1)).append helements
    have hall := Written.leftBracket.cons ((written_newline (level + 1)).nil_append hfirst)
    simpa only [layout, String.append_assoc, tree, elementTrees, Tree.tokens] using hall
  | object [], _ => Written.leftBrace.cons .rightBrace
  | object ((key, value) :: rest), level => by
    have hmembers := written_layoutMembers rest (level + 1) level
    have hvalue := (written_layout value (level + 1)).append hmembers
    have hfirst := (written_quote key).cons (Written.colon.cons hvalue)
    have hall := Written.leftBrace.cons ((written_newline (level + 1)).nil_append hfirst)
    simpa only [layout, String.append_assoc, tree, memberTrees, Tree.tokens] using hall

/-- The elements after the first one, and the bracket on the line of the array. -/
theorem written_layoutElements : ∀ (elements : List Json) (level outer : ℕ),
    Written (layoutElements level elements ++ (newline outer ++ "]"))
      (Tree.moreElements (elementTrees elements))
  | [], _, outer => by
    have hall := (written_newline outer).nil_append .rightBracket
    simpa only [layoutElements, String.empty_append, elementTrees, Tree.moreElements] using hall
  | value :: rest, level, outer => by
    have hrest := written_layoutElements rest level outer
    have hvalue := (written_layout value level).append hrest
    have hall := Written.comma.cons ((written_newline level).nil_append hvalue)
    simpa only [layoutElements, String.append_assoc, elementTrees, Tree.moreElements] using hall

/-- The members after the first one, and the brace on the line of the object. -/
theorem written_layoutMembers : ∀ (members : List (String × Json)) (level outer : ℕ),
    Written (layoutMembers level members ++ (newline outer ++ "\x7d"))
      (Tree.moreMembers (memberTrees members))
  | [], _, outer => by
    have hall := (written_newline outer).nil_append .rightBrace
    simpa only [layoutMembers, String.empty_append, memberTrees, Tree.moreMembers] using hall
  | (key, value) :: rest, level, outer => by
    have hrest := written_layoutMembers rest level outer
    have hvalue := (written_layout value level).append hrest
    have hfirst := (written_quote key).cons (Written.colon.cons hvalue)
    have hall := Written.comma.cons ((written_newline level).nil_append hfirst)
    simpa only [layoutMembers, String.append_assoc, memberTrees, Tree.moreMembers] using hall

end

/-! Values -/

mutual

/-- The value that is laid out. -/
def value : Json → Value
  | boolean value => .boolean value
  | string text => .string text
  | array elements => .array (elementValues elements)
  | object members => .object (memberValues members)

def elementValues : List Json → List Value
  | [] => []
  | element :: rest => element.value :: elementValues rest

def memberValues : List (String × Json) → List (String × Value)
  | [] => []
  | (key, value) :: rest => (key, value.value) :: memberValues rest

end

theorem elementValues_eq_map (elements : List Json) :
    elementValues elements = elements.map value := by
  induction elements with
  | nil => rfl
  | cons element elements ih => rw [elementValues, ih, List.map_cons]

theorem memberValues_eq_map (members : List (String × Json)) :
    memberValues members = members.map fun m => (m.1, m.2.value) := by
  induction members with
  | nil => rfl
  | cons m members ih => rw [memberValues, ih, List.map_cons]

theorem keysDistinct_array (elements : List Json) :
    (array elements).value.keysDistinct ↔ ∀ e ∈ elements, e.value.keysDistinct := by
  rw [value, Value.keysDistinct_array, elementValues_eq_map, List.forall_mem_map]

theorem keysDistinct_object (members : List (String × Json)) :
    (object members).value.keysDistinct ↔
      (members.map Prod.fst).Nodup ∧ ∀ m ∈ members, m.2.value.keysDistinct := by
  rw [value, Value.keysDistinct_object, memberValues_eq_map, List.map_map, List.forall_mem_map]
  rfl

mutual

/-- Where no object holds a key twice, the tree denotes the value. -/
theorem value_tree : ∀ {json : Json}, json.value.keysDistinct → json.tree.value = json.value
  | boolean _, _ | string _, _ => rfl
  | array _, h => by
    rw [value, Value.keysDistinct_array] at h
    rw [tree, Tree.value, elementValues_elementTrees h, value]
  | object _, h => by
    rw [value, Value.keysDistinct_object] at h
    rw [tree, Tree.value, memberValues_memberTrees h.2, lastWins_of_nodup h.1, value]

theorem elementValues_elementTrees : ∀ {elements : List Json},
    (∀ v ∈ elementValues elements, v.keysDistinct) →
    Tree.elementValues (elementTrees elements) = elementValues elements
  | [], _ => rfl
  | _ :: _, h => by
    obtain ⟨hfirst, hrest⟩ := List.forall_mem_cons.mp h
    rw [elementTrees, Tree.elementValues, value_tree hfirst, elementValues_elementTrees hrest,
      elementValues]

theorem memberValues_memberTrees : ∀ {members : List (String × Json)},
    (∀ m ∈ memberValues members, m.2.keysDistinct) →
    Tree.memberValues (memberTrees members) = memberValues members
  | [], _ => rfl
  | (_, _) :: _, h => by
    obtain ⟨hfirst, hrest⟩ := List.forall_mem_cons.mp h
    rw [memberTrees, Tree.memberValues, value_tree hfirst, memberValues_memberTrees hrest,
      memberValues]

end

mutual

/-- And the tree repeats no key. -/
theorem repeats_tree : ∀ {json : Json}, json.value.keysDistinct → json.tree.repeats = []
  | boolean _, _ | string _, _ => rfl
  | array _, h => by
    rw [value, Value.keysDistinct_array] at h
    rw [tree, Tree.repeats, elementRepeats_elementTrees h]
  | object _, h => by
    rw [value, Value.keysDistinct_object] at h
    rw [tree, Tree.repeats, memberRepeats_memberTrees h.2 h.1]

theorem elementRepeats_elementTrees : ∀ {elements : List Json},
    (∀ v ∈ elementValues elements, v.keysDistinct) →
    Tree.elementRepeats (elementTrees elements) = []
  | [], _ => rfl
  | _ :: _, h => by
    obtain ⟨hfirst, hrest⟩ := List.forall_mem_cons.mp h
    rw [elementTrees, Tree.elementRepeats, repeats_tree hfirst, elementRepeats_elementTrees hrest,
      List.append_nil]

theorem memberRepeats_memberTrees : ∀ {members : List (String × Json)} {seen : List String},
    (∀ m ∈ memberValues members, m.2.keysDistinct) →
    (seen ++ (memberValues members).map Prod.fst).Nodup →
    Tree.memberRepeats seen (memberTrees members) = []
  | [], _, _, _ => rfl
  | (key, _) :: _, seen, h, hnodup => by
    obtain ⟨hfirst, hrest⟩ := List.forall_mem_cons.mp h
    rw [memberValues, List.map_cons] at hnodup
    have hnew : key ∉ seen := fun hmem =>
      (List.nodup_append.mp hnodup).2.2 key hmem key List.mem_cons_self rfl
    rw [List.append_cons] at hnodup
    rw [memberTrees, Tree.memberRepeats, repeats_tree hfirst, if_neg hnew,
      memberRepeats_memberTrees hrest hnodup, List.append_nil, List.append_nil]

end

/-- What has been written as this tree is read as one document with nothing to report. -/
theorem readDocuments_of_written {json : Json} {text : String} {limit : ℕ}
    (hwritten : Written text json.tree.tokens) (hdistinct : json.value.keysDistinct)
    (hdepth : json.tree.depth ≤ limit) :
    readDocuments text.toUTF8.toList .finished limit = ⟨.ok [json.value], []⟩ := by
  refine Reader.readAll_eq_ok_iff.mpr ⟨[json.tree], ?_, ?_, ?_, ?_⟩
  · rw [List.flatMap_singleton]
    exact hwritten.tokens?_start
  · exact List.forall_mem_singleton.mpr hdepth
  · rw [List.map_singleton, value_tree hdistinct]
  · rw [List.flatMap_singleton, repeats_tree hdistinct]

end Json

end Exemplar

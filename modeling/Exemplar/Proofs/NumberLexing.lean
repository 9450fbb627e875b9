import Mathlib
import Exemplar.Proofs.Continuation
import Exemplar.Proofs.Utf8

/-!
# Number literals are number tokens

A text that has a value as a number is one token from its first byte to its last. Together with the
other direction, that every number token has a value, the two descriptions of numbers agree.
-/

namespace Exemplar

namespace Token

namespace NumberPart

/-- Numbers are written in characters of one byte. -/
theorem next?_eq_none {c : Char} (h : 128 ≤ c.toNat) (part : NumberPart) : part.next? c = none := by
  have hdigit : c.isDigit = false := by
    rw [Bool.eq_false_iff]
    intro hdigit
    have hle : c.toNat ≤ 57 := (Char.isDigit_iff_toNat.mp hdigit).2
    omega
  have hne {d : Char} (hd : d.toNat < 128) : c ≠ d := by
    rintro rfl
    omega
  have hfraction : next?.afterFraction c = none :=
    if_neg (not_or.mpr ⟨hne (by decide), hne (by decide)⟩)
  have hwhole : next?.afterWhole c = none := by
    rw [next?.afterWhole, if_neg (hne (by decide)), hfraction]
  have hzero : c ≠ '0' := hne (by decide)
  have hsign : ¬(c = '+' ∨ c = '-') := not_or.mpr ⟨hne (by decide), hne (by decide)⟩
  cases part <;> simp [next?, hdigit, hfraction, hwhole, hzero, hsign]

theorem exists_next?_of_accepts {part : NumberPart} {c : Char} {text : List Char}
    (h : part.accepts (c :: text)) :
    c.toNat < 128 ∧ ∃ next, part.next? c = some next ∧ next.accepts text := by
  rw [accepts_cons] at h
  obtain ⟨next, hnext, haccepts⟩ := Option.any_eq_true _ _ |>.mp h
  refine ⟨?_, next, hnext, haccepts⟩
  by_contra hge
  rw [next?_eq_none (not_lt.mp hge)] at hnext
  cases hnext

theorem toNat_lt_of_accepts {part : NumberPart} {text : List Char} (h : part.accepts text) :
    ∀ c ∈ text, c.toNat < 128 := by
  induction text generalizing part with
  | nil => simp
  | cons c text ih =>
    obtain ⟨hc, next, -, haccepts⟩ := exists_next?_of_accepts h
    exact List.forall_mem_cons.mpr ⟨hc, ih haccepts⟩

end NumberPart

theorem literalText_map {text : List Char} (h : ∀ c ∈ text, c.toNat < 128) :
    literalText (text.map Char.toUInt8).reverse = String.ofList text := by
  rw [literalText, List.reverse_reverse, Utf8.map_ofUInt8 h]

/-- What completes a number is scanned to the end. -/
theorem scanOn_of_accepts {part : NumberPart} {text : List Char} (h : part.accepts text)
    (seen : List UInt8) :
    scanOn .finished (.number part) seen (text.map Char.toUInt8) =
      ⟨.ok (.number (literalText ((text.map Char.toUInt8).reverse ++ seen))),
        seen.length + text.length⟩ := by
  induction text generalizing part seen with
  | nil =>
    have hcomplete : part.isComplete := h
    rw [List.map_nil, scanOn, Partial.atEnd, if_pos hcomplete]
    rfl
  | cons c text ih =>
    obtain ⟨hc, next, hnext, haccepts⟩ := NumberPart.exists_next?_of_accepts h
    have hstep : (Partial.number part).step seen c.toUInt8 = .proceed (.number next) := by
      rw [Partial.step, numberStep, Utf8.ofUInt8_toUInt8 (by omega), hnext]
    rw [List.map_cons, scanOn_of_proceed hstep, ih haccepts, List.reverse_cons, List.append_assoc,
      List.length_cons, List.length_cons, Nat.succ_add_eq_add_succ]
    rfl

theorem firstStep_of_next? {b : UInt8} {next : NumberPart}
    (h : NumberPart.sign.next? (Char.ofUInt8 b) = some next) :
    firstStep b = .proceed (.number next) := by
  rw [firstStep.eq_def]
  split
  case h_12 => rw [h]
  all_goals
    rename_i hc
    rw [hc] at h
    contradiction

theorem isBlank_eq_false {b : UInt8} {next : Partial} (h : firstStep b = .proceed next) :
    isBlank b = false := by
  rw [Bool.eq_false_iff]
  intro hblank
  rw [isBlank] at hblank
  simp only [Bool.or_eq_true, decide_eq_true_eq] at hblank
  rcases hblank with ((rfl | rfl) | rfl) | rfl <;> contradiction

/-- A number literal is scanned to the end, from its sign or its first digit on. -/
theorem scan_of_literal {c : Char} {text : List Char}
    (h : (NumberLiteral.ofChars? (c :: text)).isSome) :
    (∀ d ∈ c :: text, d.toNat < 128) ∧ isBlank c.toUInt8 = false ∧
      scan .finished c.toUInt8 (text.map Char.toUInt8) =
        ⟨.ok (.number (String.ofList (c :: text))), (c :: text).length⟩ := by
  rw [NumberLiteral.isSome_ofChars?, NumberLiteral.readSign.eq_def] at h
  have hrun : (∀ d ∈ c :: text, d.toNat < 128) ∧ ∃ part : NumberPart, part.accepts text ∧
      firstStep c.toUInt8 = .proceed (.number part) := by
    split at h
    · rename_i heq
      obtain ⟨rfl, rfl⟩ := List.cons.inj heq
      exact ⟨List.forall_mem_cons.mpr ⟨by decide, NumberPart.toNat_lt_of_accepts h⟩, .sign, h, rfl⟩
    · obtain ⟨hc, next, hnext, haccepts⟩ := NumberPart.exists_next?_of_accepts h
      refine ⟨NumberPart.toNat_lt_of_accepts h, next, haccepts, firstStep_of_next? ?_⟩
      rw [Utf8.ofUInt8_toUInt8 (by omega), hnext]
  obtain ⟨hascii, part, haccepts, hfirst⟩ := hrun
  refine ⟨hascii, isBlank_eq_false hfirst, ?_⟩
  have htext : (text.map Char.toUInt8).reverse ++ [c.toUInt8] =
      ((c :: text).map Char.toUInt8).reverse := by
    rw [List.map_cons, List.reverse_cons]
  rw [scan, hfirst]
  dsimp only
  rw [scanOn_of_accepts haccepts, htext, literalText_map hascii, List.length_singleton,
    List.length_cons, Nat.add_comm]

end Token

namespace Cursor

theorem tokens?_of_rest_eq_nil {c : Cursor} (h : c.rest = []) (hending : c.ending = .finished) :
    c.tokens? = some [] := by
  rw [tokens?_eq, lex_of_rest_eq_nil h hending]

/-- A number literal is one token. -/
theorem tokens?_of_literal {literal : String} (h : (Value.ofNumberText? literal).isSome) :
    (start literal.toUTF8.toList .finished).tokens? = some [.number literal] := by
  rw [Value.ofNumberText?, Option.isSome_map, NumberLiteral.ofString?] at h
  cases hchars : literal.toList with
  | nil =>
    rw [hchars] at h
    contradiction
  | cons c text =>
    rw [hchars] at h
    obtain ⟨hascii, hblank, hscan⟩ := Token.scan_of_literal h
    have hbytes : literal.toUTF8.toList = c.toUInt8 :: text.map Char.toUInt8 := by
      rw [Utf8.toList_toUTF8, hchars, Utf8.flatMap_utf8EncodeChar hascii, List.map_cons]
    have hliteral : String.ofList (c :: text) = literal := by
      rw [← hchars, String.ofList_toList]
    have hlex := lex_of_rest (c := start literal.toUTF8.toList .finished) hbytes hblank
    have hending : (start literal.toUTF8.toList .finished).ending = .finished := rfl
    rw [hending, hscan, hliteral] at hlex
    have hrest : ((start literal.toUTF8.toList .finished).skip (c :: text).length).rest = [] := by
      rw [rest_skip, start, hbytes, ← List.map_cons, ← List.length_map Char.toUInt8,
        List.drop_length]
    rw [tokens?_eq, hlex]
    dsimp only [lexed]
    rw [tokens?_of_rest_eq_nil hrest hending]
    rfl

end Cursor

namespace Building

/-- A number that has a value is delivered, or it stands where no value may stand. -/
theorem step_number_ne_invalidNumber {literal : String}
    (h : (Value.ofNumberText? literal).isSome) (limit unclosed : ℕ) (building : Building)
    (other : String) :
    building.step limit unclosed (.number literal) ≠ .refused (.invalidNumber other) := by
  obtain ⟨value, hvalue⟩ := Option.isSome_iff_exists.mp h
  have hbegin (around : List Frame) :
      beginValue limit unclosed around (.number literal) ≠ .refused (.invalidNumber other) := by
    rw [beginValue, hvalue]
    exact deliver_ne_refused value around _
  cases building with
  | awaitingValue around => exact hbegin around
  | openedArray around => exact hbegin (.array [] :: around)
  | _ => simp [step, beginMember, Token.startsValue]

end Building

/-- The two descriptions of numbers agree: a text is the only token of the input that it makes up,
and a number, exactly if it has a value as a number. Every number token of every input has a value,
so no place of a document refuses it as a number. -/
theorem number_token_iff_number_value (literal : String) :
    ((Cursor.start literal.toUTF8.toList .finished).tokens? = some [.number literal] ↔
        (Value.ofNumberText? literal).isSome) ∧
      ∀ (c after : Cursor) (lexeme : Lexeme), c.lex = (.token lexeme, after) →
        lexeme.token = .number literal →
        (Value.ofNumberText? literal).isSome ∧
          ∀ (limit unclosed : ℕ) (building : Building) (other : String),
            building.step limit unclosed lexeme.token ≠ .refused (.invalidNumber other) := by
  refine ⟨⟨fun h => ?_, Cursor.tokens?_of_literal⟩, fun c after lexeme hlex htoken => ?_⟩
  · exact Cursor.denotes_of_tokens? h (.number literal) List.mem_cons_self
  · have hdenotes := Cursor.denotes_of_lex hlex
    rw [htoken] at hdenotes ⊢
    have hvalue : (Value.ofNumberText? literal).isSome := hdenotes
    exact ⟨hvalue, fun limit unclosed building other =>
      Building.step_number_ne_invalidNumber hvalue limit unclosed building other⟩

/-- After `[`, the bytes ` -1.5E+3]` begin with a number token, and no place refuses it. -/
theorem number_token_iff_number_value_in_array :
    (⟨" -1.5E+3]".toUTF8.toList, ⟨1, 1, 2⟩, .finished⟩ : Cursor).lex =
        (.token ⟨.number "-1.5E+3", ⟨2, 1, 3⟩⟩, ⟨[93], ⟨9, 1, 10⟩, .finished⟩) ∧
      (Value.ofNumberText? "-1.5E+3").isSome ∧
      ∀ other : String,
        (Building.openedArray []).step 8 0 (.number "-1.5E+3") ≠
          .refused (.invalidNumber other) := by
  have hlex : (⟨" -1.5E+3]".toUTF8.toList, ⟨1, 1, 2⟩, .finished⟩ : Cursor).lex =
      (.token ⟨.number "-1.5E+3", ⟨2, 1, 3⟩⟩, ⟨[93], ⟨9, 1, 10⟩, .finished⟩) := by cbv
  obtain ⟨hvalue, hstep⟩ := (number_token_iff_number_value "-1.5E+3").2 _ _ _ hlex rfl
  exact ⟨hlex, hvalue, fun other => hstep 8 0 (.openedArray []) other⟩

end Exemplar

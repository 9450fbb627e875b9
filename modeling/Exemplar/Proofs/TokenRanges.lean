import Exemplar.Proofs.Excerpts
import Exemplar.Proofs.Positions

/-!
# Lexing loses nothing

Each token has a range of bytes, from where it starts to where the lexer stands after it. Of an
input that is read to its end, the ranges account for every byte: they follow one another without
overlap, and all that lies outside of them are blanks. And a range says all about its token: the
bytes in it are that token, wherever they stand.
-/

namespace Exemplar

/-- From the offset `first` on, the bytes are those of the tokens and blanks around them. -/
structure Lossless (bytes : List UInt8) (first : Nat) (tokens : List (Lexeme × Position))
    (finish : Position) : Prop where
  /-- Tokens lie within the bytes, and none is empty. -/
  ranges : ∀ t ∈ tokens, first ≤ t.1.position.offset ∧ t.1.position.offset < t.2.offset ∧
    t.2.offset ≤ bytes.length
  ordered : tokens.Pairwise fun t u => t.2.offset ≤ u.1.position.offset
  /-- Space, tabulator, line feed or carriage return stands wherever no token does. -/
  blank : ∀ i b, bytes[i]? = some b → first ≤ i →
    (∀ t ∈ tokens, ¬ (t.1.position.offset ≤ i ∧ i < t.2.offset)) → b ∈ [32, 9, 10, 13]
  finish : finish.offset = bytes.length
  /-- The bytes of a token are read as that token and nothing else. -/
  alone : ∀ t ∈ tokens, ∀ word, word = bytes.extract t.1.position.offset t.2.offset →
    (Cursor.start word .finished).lexAll =
      ([(⟨t.1.token, .start⟩, Position.start.advance word)],
        .finished (Position.start.advance word), ⟨[], Position.start.advance word, .finished⟩)

namespace Cursor

/-- An input that is one token is read as that token. -/
theorem Stands.lexAll {c : Cursor} {token : Token} (h : c.Stands token c.rest.length)
    (hending : c.ending = .finished) :
    c.lexAll = ([(⟨token, c.position⟩, c.position.advance c.rest)],
      .finished (c.position.advance c.rest), ⟨[], c.position.advance c.rest, .finished⟩) := by
  have hskip : c.skip c.rest.length = ⟨[], c.position.advance c.rest, .finished⟩ := by
    rw [skip, List.drop_length, List.take_length, hending]
  have hfinished := lex_of_rest_eq_nil (congrArg rest hskip) (congrArg ending hskip)
  rw [hskip] at hfinished
  have hlex := h.lex
  rw [hskip] at hlex
  rw [lexAll_of_token hlex, lexAll_of_stop hfinished (by simp)]

theorem isBlank_of_getElem? {c : Cursor} {i : Nat} {b : UInt8} (h : c.rest[i]? = some b)
    (hi : i < (c.rest.takeWhile isBlank).length) : b ∈ [32, 9, 10, 13] := by
  have hsame := List.prefix_iff_getElem?.mp (List.takeWhile_prefix isBlank (l := c.rest)) i hi
  rw [h] at hsame
  have hmem : b ∈ c.rest.takeWhile isBlank := Option.some.inj hsame ▸ List.getElem_mem hi
  have hblank := List.mem_takeWhile_imp hmem
  rw [isBlank] at hblank
  simp only [Bool.or_eq_true, decide_eq_true_eq] at hblank
  simp only [List.mem_cons, List.not_mem_nil]
  tauto

variable {bytes : List UInt8} {ending : Ending}

theorem offset_skip_start {n : Nat} (h : n ≤ bytes.length) :
    ((Cursor.start bytes ending).skip n).position.offset = n :=
  (@offset_skip (Cursor.start bytes ending) n h).trans (Nat.zero_add n)

theorem length_rest_start (bytes : List UInt8) (ending : Ending) (n : Nat) :
    ((Cursor.start bytes ending).skip n).rest.length = bytes.length - n :=
  List.length_drop

/-- A byte of the input among the blanks behind the first `n` bytes. -/
theorem isBlank_of_skip_start (ending : Ending) {n i : Nat} {b : UInt8}
    (hb : bytes[i]? = some b) (hi : n ≤ i)
    (hblank : i - n < (((Cursor.start bytes ending).skip n).rest.takeWhile isBlank).length) :
    b ∈ [32, 9, 10, 13] := by
  refine isBlank_of_getElem? ?_ hblank
  change (bytes.drop n)[i - n]? = some b
  rwa [List.getElem?_drop, Nat.add_sub_cancel' hi]

/-- The bytes of a token that stands behind the first `n` bytes are read as that token alone. -/
theorem Stands.lexAll_extract {n count : Nat} {token : Token}
    (h : ((Cursor.start bytes ending).skip n).Stands token count) (hn : n + count ≤ bytes.length) :
    let word := bytes.extract n (n + count)
    (Cursor.start word .finished).lexAll =
      ([(⟨token, .start⟩, Position.start.advance word)],
        .finished (Position.start.advance word), ⟨[], Position.start.advance word, .finished⟩) := by
  intro word
  have hexcerpt : word = (bytes.drop n).take count := by
    change bytes.extract n (n + count) = _
    rw [List.extract_eq_take_drop, Nat.add_sub_cancel_left]
  have hlength : word.length = count := by
    rw [hexcerpt, List.length_take_of_le (by rw [List.length_drop]; omega)]
  have halone : (Cursor.start word .finished).Stands token word.length := by
    rw [hlength]
    exact h.take (Nat.le_refl count) hexcerpt rfl
  exact halone.lexAll rfl

/-- The end of the input, behind blanks. -/
theorem lossless_nil {n : Nat} {after : Cursor} {position : Position} (hn : n ≤ bytes.length)
    (h : ((Cursor.start bytes ending).skip n).lex = (.finished position, after)) :
    Lossless bytes n [] position := by
  obtain ⟨hblanks, rfl⟩ := length_takeWhile_of_finished h
  refine ⟨by simp, .nil, fun i b hb hi _ => ?_, ?_, by simp⟩
  · refine isBlank_of_skip_start ending hb hi ?_
    have hlt := (List.getElem?_eq_some_iff.mp hb).1
    rw [hblanks, length_rest_start]
    omega
  · rw [skipBlanks, hblanks, skip_skip, length_rest_start, offset_skip_start (by omega)]
    omega

/-- One more token, behind blanks. -/
theorem lossless_cons {n m : Nat} {lexeme : Lexeme} {finish : Position}
    {tokens : List (Lexeme × Position)} (hm : m ≤ bytes.length)
    (h : ((Cursor.start bytes ending).skip n).lex =
      (.token lexeme, (Cursor.start bytes ending).skip m))
    (hmore : Lossless bytes m tokens finish) :
    Lossless bytes n
      ((lexeme, ((Cursor.start bytes ending).skip m).position) :: tokens) finish := by
  obtain ⟨count, hstands, hposition, hafter⟩ := stands_of_lex h
  have hpos := hstands.pos
  have hle := hstands.le_length
  have hlength := length_rest_start bytes ending n
  have hblanks := ((Cursor.start bytes ending).skip n).length_takeWhile_le
  obtain ⟨k, hk⟩ : ∃ k, k = (((Cursor.start bytes ending).skip n).rest.takeWhile isBlank).length :=
    ⟨_, rfl⟩
  rw [skipBlanks, ← hk, skip_skip] at hstands hposition hafter hle
  rw [length_rest_start] at hle
  have hstart : lexeme.position.offset = n + k := by
    rw [hposition, offset_skip_start (by omega)]
  have hstop : ((Cursor.start bytes ending).skip m).position.offset = m := offset_skip_start hm
  have hend : m = n + k + count := by
    rw [← hstop, hafter, skip_skip, offset_skip_start (by omega), Nat.add_assoc]
  refine ⟨?_, ?_, fun i b hb hi hout => ?_, hmore.finish, ?_⟩
  · refine List.forall_mem_cons.mpr ⟨?_, fun t ht => ?_⟩
    · dsimp only
      omega
    · have htail := hmore.ranges t ht
      omega
  · refine List.pairwise_cons.mpr ⟨fun t ht => ?_, hmore.ordered⟩
    have htail := hmore.ranges t ht
    dsimp only
    omega
  · obtain ⟨hhere, hout⟩ := List.forall_mem_cons.mp hout
    dsimp only at hhere
    by_cases hlater : m ≤ i
    · exact hmore.blank i b hb hlater hout
    · exact isBlank_of_skip_start ending hb hi (by omega)
  · refine List.forall_mem_cons.mpr ⟨fun word hword => ?_, hmore.alone⟩
    dsimp only at hword
    rw [hstop, hstart, hend] at hword
    rw [hword]
    exact hstands.lexAll_extract (by omega)

theorem lossless_skip {n : Nat} (hn : n ≤ bytes.length) {tokens : List (Lexeme × Position)}
    {finish : Position} {after : Cursor}
    (h : ((Cursor.start bytes ending).skip n).lexAll = (tokens, .finished finish, after)) :
    Lossless bytes n tokens finish := by
  induction tokens generalizing n with
  | nil => exact lossless_nil hn (lex_of_lexAll_nil h)
  | cons t tokens ih =>
    obtain ⟨next, hlex, hposition, hmore⟩ := lex_of_lexAll_cons h
    obtain ⟨count, hcount, hskip⟩ := ((Cursor.start bytes ending).skip n).exists_skip_of_lex
    have hlength := length_rest_start bytes ending n
    rw [hlex, skip_skip] at hskip
    obtain rfl : next = (Cursor.start bytes ending).skip (n + count) := hskip
    have hm : n + count ≤ bytes.length := by omega
    have hfirst := lossless_cons hm hlex (ih hm hmore)
    rwa [hposition] at hfirst

/-- The tokens of an input that is read to its end account for all of its bytes, and each of them
is what its own bytes are read as. -/
theorem lossless_lexAll {tokens : List (Lexeme × Position)} {finish : Position} {after : Cursor}
    (h : (Cursor.start bytes ending).lexAll = (tokens, .finished finish, after)) :
    Lossless bytes 0 tokens finish :=
  lossless_skip (Nat.zero_le _) h

/-- A keyword may follow a number with nothing in between, and a sign begins another number. -/
theorem lossless_lexAll_of_adjacent :
    let tokens : List (Lexeme × Position) :=
      [(⟨.leftBracket, ⟨0, 1, 1⟩⟩, ⟨1, 1, 2⟩), (⟨.number "1", ⟨1, 1, 2⟩⟩, ⟨2, 1, 3⟩),
        (⟨.null, ⟨2, 1, 3⟩⟩, ⟨6, 1, 7⟩), (⟨.number "-2", ⟨7, 2, 1⟩⟩, ⟨9, 2, 3⟩),
        (⟨.rightBracket, ⟨9, 2, 3⟩⟩, ⟨10, 2, 4⟩)]
    (Cursor.start "[1null\n-2]".toUTF8.toList .finished).lexAll =
        (tokens, .finished ⟨10, 2, 4⟩, ⟨[], ⟨10, 2, 4⟩, .finished⟩) ∧
      Lossless "[1null\n-2]".toUTF8.toList 0 tokens ⟨10, 2, 4⟩ := by
  have hlexAll : (Cursor.start "[1null\n-2]".toUTF8.toList .finished).lexAll =
      ([(⟨.leftBracket, ⟨0, 1, 1⟩⟩, ⟨1, 1, 2⟩), (⟨.number "1", ⟨1, 1, 2⟩⟩, ⟨2, 1, 3⟩),
        (⟨.null, ⟨2, 1, 3⟩⟩, ⟨6, 1, 7⟩), (⟨.number "-2", ⟨7, 2, 1⟩⟩, ⟨9, 2, 3⟩),
        (⟨.rightBracket, ⟨9, 2, 3⟩⟩, ⟨10, 2, 4⟩)], .finished ⟨10, 2, 4⟩,
        ⟨[], ⟨10, 2, 4⟩, .finished⟩) := by cbv
  exact ⟨hlexAll, lossless_lexAll hlexAll⟩

end Cursor

end Exemplar

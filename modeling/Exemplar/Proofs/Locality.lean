import Mathlib
import Exemplar.Proofs.Recounting

/-!
# Documents do not depend on those before them

An input that can be read may stand on lines of its own before another one: its documents and
events come first, and the rest is read as it would be alone. Only the places in the rest differ,
by the bytes and lines before it. So whatever follows a line feed is read without memory of what
stands before it: no container stays open, and no token reaches over the line feed.
-/

namespace Exemplar

/-! Other places -/

namespace Position

/-- The same place, with so many more bytes and lines before it. -/
def later (p : Position) (bytes lines : Nat) : Position :=
  { p with offset := p.offset + bytes, line := p.line + lines }

theorem after_later (p : Position) (bytes lines : Nat) (b : UInt8) :
    (p.later bytes lines).after b = (p.after b).later bytes lines := by
  rw [after, after]
  split <;> simp only [later, Nat.add_right_comm]

/-- The beginning of a line is known by the bytes and the lines before it. -/
theorem advance_lineFeed (p : Position) (text : List UInt8) :
    p.advance (text ++ [10]) =
      ⟨p.offset + (text.length + 1), p.line + (text.count 10 + 1), 1⟩ := by
  induction text generalizing p with
  | nil => rfl
  | cons b text ih =>
    rw [List.cons_append, advance_cons, ih, after, List.length_cons, List.count_cons]
    by_cases hb : b = 10
    · rw [if_pos hb, if_pos (beq_iff_eq.mpr hb), Position.mk.injEq]
      dsimp only
      omega
    · rw [if_neg hb, if_neg (mt beq_iff_eq.mp hb), Position.mk.injEq]
      dsimp only
      omega

end Position

/-- Places with more bytes and lines before them. -/
def Recount.later (bytes lines : Nat) : Recount where
  count p := p.later bytes lines
  Covers _ := True
  covers_after _ _ := id
  count_after p b _ := p.after_later bytes lines b

/-- The same error at a later place. -/
def ReadError.later (bytes lines : Nat) : ReadError → ReadError
  | .malformed defect position => .malformed defect (position.later bytes lines)
  | .unreadable reason => .unreadable reason

def Lexed.later (bytes lines : Nat) : Lexed → Lexed
  | .token lexeme => .token { lexeme with position := lexeme.position.later bytes lines }
  | .finished position => .finished (position.later bytes lines)
  | .failed error => .failed (error.later bytes lines)

theorem Lexed.later_eq (bytes lines : Nat) (lexed : Lexed) :
    lexed.later bytes lines = (Recount.later bytes lines).lexed lexed := by
  rcases lexed with lexeme | position | ⟨defect, position⟩ | reason <;> rfl

namespace Cursor

/-- The cursor on the same rest, with more before it. -/
def later (c : Cursor) (bytes lines : Nat) : Cursor :=
  { c with position := c.position.later bytes lines }

theorem lex_later (c : Cursor) (bytes lines : Nat) :
    (c.later bytes lines).lex = (c.lex.1.later bytes lines, c.lex.2.later bytes lines) := by
  have hlex : (c.later bytes lines).lex = _ := (Recount.later bytes lines).lex_cursor trivial
  rw [hlex, Lexed.later_eq]
  rfl

end Cursor

namespace Reader

/-- The reader of the same rest, with more before it. -/
def later (reader : Reader) (bytes lines : Nat) : Reader :=
  { reader with cursor := reader.cursor.later bytes lines }

end Reader

/-- The same reading, where an error is at a later place. -/
def Reported.later {α : Type} (bytes lines : Nat) (reading : Reported (Except ReadError α)) :
    Reported (Except ReadError α) :=
  { reading with result := reading.result.mapError (ReadError.later bytes lines) }

namespace Reader

variable {limit unclosed : Nat} {building : Building} {events : List Event} {cursor : Cursor}

theorem continueFrom_of_finished {position : Position} {next : Cursor}
    (h : cursor.lex = (.finished position, next)) :
    continueFrom limit unclosed building events cursor =
      (⟨.error (.malformed (.unexpectedEnd building.expected) position), events⟩,
        ⟨next, limit, unclosed + building.depth⟩) := by
  rw [continueFrom]
  split
  · rename_i hlex
    rw [h] at hlex
    cases hlex
  · rename_i hlex
    rw [h] at hlex
    cases hlex
    rfl
  · rename_i hlex
    rw [h] at hlex
    cases hlex

theorem continueFrom_later (limit unclosed : Nat) (building : Building) (events : List Event)
    (cursor : Cursor) (bytes lines : Nat) :
    continueFrom limit unclosed building events (cursor.later bytes lines) =
      ((continueFrom limit unclosed building events cursor).1.later bytes lines,
        (continueFrom limit unclosed building events cursor).2.later bytes lines) := by
  have hlater := cursor.lex_later bytes lines
  fun_induction continueFrom limit unclosed building events cursor with
  | case1 building events cursor lexeme next hlex document own hstep _ ih =>
    rw [hlex] at hlater
    rw [continueFrom_of_token hlater, hstep]
    exact ih (next.lex_later bytes lines)
  | case2 building events cursor lexeme next hlex value own hstep =>
    rw [hlex] at hlater
    rw [continueFrom_of_token hlater, hstep]
    rfl
  | case3 building events cursor lexeme next hlex defect hstep =>
    rw [hlex] at hlater
    rw [continueFrom_of_token hlater, hstep]
    rfl
  | case4 building events cursor position next hlex =>
    rw [hlex] at hlater
    rw [continueFrom_of_finished hlater]
    rfl
  | case5 building events cursor error next hlex =>
    rw [hlex] at hlater
    rw [continueFrom_of_failed hlater]
    rfl

theorem next_later (reader : Reader) (bytes lines : Nat) :
    (reader.later bytes lines).next =
      (reader.next.1.later bytes lines, reader.next.2.later bytes lines) := by
  have hlater : (reader.later bytes lines).cursor.lex = _ := reader.cursor.lex_later bytes lines
  have hread := continueFrom_later reader.limit reader.unclosed (.awaitingValue []) []
    reader.cursor bytes lines
  rcases hlex : reader.cursor.lex with ⟨lexeme | position | error, after⟩
  all_goals
    rw [hlex] at hlater
    rw [next, next, hlex, hlater]
  · exact hread
  · rfl
  · exact hread

/-- The same rest is read in the same way wherever it stands. -/
theorem readAll_later (reader : Reader) (bytes lines : Nat) :
    (reader.later bytes lines).readAll = reader.readAll.later bytes lines := by
  have hlater := reader.next_later bytes lines
  fun_induction readAll reader with
  | case1 reader error reported after hnext =>
    rw [hnext] at hlater
    exact readAll_of_error hlater
  | case2 reader reported after hnext =>
    rw [hnext] at hlater
    exact readAll_of_none hlater
  | case3 reader value reported after hnext _ rest ih =>
    rw [hnext] at hlater
    rw [readAll_of_some hlater, ih (after.next_later bytes lines)]
    simp only [Reported.later]
    cases after.readAll.result <;> rfl

end Reader

/-! A line feed and what follows it -/

namespace Cursor

/-- The cursor after all bytes that it has, in an input where a line feed follows them. -/
def beyond (c : Cursor) (more : List UInt8) (ending : Ending) : Cursor :=
  (c.followed (10 :: more) ending).skip (c.rest.length + 1)

theorem beyond_skip {c : Cursor} {count : Nat} (h : count ≤ c.rest.length) (more : List UInt8)
    (ending : Ending) : (c.skip count).beyond more ending = c.beyond more ending := by
  have hlength : count + ((c.skip count).rest.length + 1) = c.rest.length + 1 := by
    rw [rest_skip, List.length_drop]
    omega
  rw [beyond, ← skip_followed h, skip_skip, hlength, beyond]

/-- A token that is read in an input that ends is read where a line feed follows. -/
theorem lex_lineFeed {c after : Cursor} {lexeme : Lexeme} (hend : c.ending = .finished)
    (h : c.lex = (.token lexeme, after)) (more : List UInt8) (ending : Ending) :
    (c.followed (10 :: more) ending).lex =
      (.token lexeme, after.followed (10 :: more) ending) := by
  have hblankEnd : c.skipBlanks.ending = .finished := hend
  rw [lex] at h
  cases hrest : c.skipBlanks.rest with
  | nil =>
    rw [lexHere, hrest, hblankEnd] at h
    cases h
  | cons b bytes =>
    have hwithin := (Token.scan_within .finished b bytes).taken
    rw [← hrest] at hwithin
    have hne : c.skipBlanks.rest ≠ [] := by simp [hrest]
    have hlonger : (c.skipBlanks.followed (10 :: more) ending).rest =
        b :: (bytes ++ 10 :: more) := by
      rw [followed, hrest, List.cons_append]
    rw [lexHere_of_rest hrest, hblankEnd] at h
    obtain ⟨hlexed, rfl⟩ := Prod.mk.inj h
    cases hscan : (Token.scan .finished b bytes).outcome with
    | error fault =>
      rw [hscan] at hlexed
      cases hlexed
    | ok token =>
      rw [hscan] at hlexed
      have hsame := Token.scan_lineFeed hscan more ending
      have hlongEnd : (c.skipBlanks.followed (10 :: more) ending).ending = ending := rfl
      rw [lex, skipBlanks_followed hne, lexHere_of_rest hlonger, hlongEnd, hsame, hscan,
        skip_followed hwithin, ← hlexed]
      rfl

theorem rest_beyond (c : Cursor) (more : List UInt8) (ending : Ending) :
    (c.beyond more ending).rest = more := by
  rw [beyond, rest_skip, followed, List.drop_append, List.drop_eq_nil_of_le (Nat.le_succ _)]
  simp

/-- At the end of an input, reading goes on behind the line feed that follows. -/
theorem lex_beyond {c after : Cursor} {position : Position}
    (h : c.lex = (.finished position, after)) (more : List UInt8) (ending : Ending) :
    (c.followed (10 :: more) ending).lex = (c.beyond more ending).lex := by
  have hall := (length_takeWhile_of_finished h).1
  have hblanks : ((c.followed (10 :: more) ending).rest.takeWhile isBlank).length =
      c.rest.length + 1 + (more.takeWhile isBlank).length := by
    have hlineFeed : isBlank 10 = true := rfl
    rw [followed, List.takeWhile_append, if_pos hall, List.takeWhile_cons, if_pos hlineFeed,
      List.length_append, List.length_cons]
    omega
  rw [lex, lex, skipBlanks, skipBlanks, hblanks, ← skip_skip, rest_beyond, beyond]

end Cursor

namespace Reader

variable {limit unclosed : Nat} {building : Building} {events reported : List Event}
  {cursor : Cursor} {after : Reader}

/-- A document that is read in an input that ends is read where a line feed follows. -/
theorem continueFrom_lineFeed {result : Option Value} (hend : cursor.ending = .finished)
    (h : continueFrom limit unclosed building events cursor = (⟨.ok result, reported⟩, after))
    (more : List UInt8) (ending : Ending) :
    continueFrom limit unclosed building events (cursor.followed (10 :: more) ending) =
      (⟨.ok result, reported⟩, after.followed (10 :: more) ending) := by
  fun_induction continueFrom limit unclosed building events cursor with
  | case1 building events cursor lexeme next hlex document own hstep _ ih =>
    have hnext : next.ending = .finished := by
      rw [← hend, ← cursor.ending_lex, hlex]
    rw [continueFrom_of_token (Cursor.lex_lineFeed hend hlex more ending), hstep]
    exact ih hnext h
  | case2 building events cursor lexeme next hlex value own hstep =>
    obtain ⟨hresult, rfl⟩ := Prod.mk.inj h
    rw [continueFrom_of_token (Cursor.lex_lineFeed hend hlex more ending), hstep, ← hresult]
    rfl
  | case3 => simp at h
  | case4 => simp at h
  | case5 => simp at h

/-- What is read from a place depends on the token there only. -/
theorem continueFrom_congr {c c' : Cursor} (h : c.lex = c'.lex) :
    continueFrom limit unclosed building events c =
      continueFrom limit unclosed building events c' := by
  rcases hlex : c'.lex with ⟨lexeme | position | error, after⟩
  · rw [continueFrom_of_token hlex, continueFrom_of_token (h.trans hlex)]
  · rw [continueFrom_of_finished hlex, continueFrom_of_finished (h.trans hlex)]
  · rw [continueFrom_of_failed hlex, continueFrom_of_failed (h.trans hlex)]

theorem next_congr (limit unclosed : Nat) {c c' : Cursor} (h : c.lex = c'.lex) :
    (⟨c, limit, unclosed⟩ : Reader).next = (⟨c', limit, unclosed⟩ : Reader).next := by
  rw [next, next, h, continueFrom_congr h]

theorem readAll_congr {reader other : Reader} (h : reader.next = other.next) :
    reader.readAll = other.readAll := by
  rcases hnext : other.next with ⟨⟨error | _ | value, reported⟩, after⟩
  · rw [readAll_of_error hnext, readAll_of_error (h.trans hnext)]
  · rw [readAll_of_none hnext, readAll_of_none (h.trans hnext)]
  · rw [readAll_of_some hnext, readAll_of_some (h.trans hnext)]

/-- The reader after all documents, in an input where a line feed follows them. -/
def beyond (reader : Reader) (more : List UInt8) (ending : Ending) : Reader :=
  { reader with cursor := reader.cursor.beyond more ending }

theorem next_lineFeed {reader : Reader} {value : Value} (hend : reader.cursor.ending = .finished)
    (h : reader.next = (⟨.ok (some value), reported⟩, after)) (more : List UInt8)
    (ending : Ending) :
    (reader.followed (10 :: more) ending).next =
        (⟨.ok (some value), reported⟩, after.followed (10 :: more) ending) ∧
      after.cursor.ending = .finished ∧ after.beyond more ending = reader.beyond more ending := by
  have hread : continueFrom reader.limit reader.unclosed (.awaitingValue []) [] reader.cursor =
      (⟨.ok (some value), reported⟩, after) := by
    rw [next] at h
    split at h
    · simp at h
    · exact h
  obtain ⟨-, -, -, -, -, hafter, -⟩ := run_of_continueFrom hread
  obtain ⟨count, hcount, hskip⟩ := exists_skip_of_continueFrom reader.limit reader.unclosed
    (.awaitingValue []) [] reader.cursor
  rw [hread] at hskip
  have hcursor : after.cursor = reader.cursor.skip count := hskip
  refine ⟨?_, ?_, ?_⟩
  · have hlonger := continueFrom_lineFeed hend hread more ending
    rcases hlex : reader.cursor.lex with ⟨lexeme | position | error, place⟩
    · rw [next, followed, Cursor.lex_lineFeed hend hlex]
      exact hlonger
    · rw [continueFrom_of_finished hlex] at hread
      simp at hread
    · rw [continueFrom_of_failed hlex] at hread
      simp at hread
  · rw [hcursor, Cursor.ending_skip, hend]
  · rw [hafter, beyond, beyond, hcursor, Cursor.beyond_skip hcount]

/-- Behind the documents of an input and a line feed, the rest is read. -/
theorem readAll_lineFeed {reader : Reader} {documents : List Value}
    (hend : reader.cursor.ending = .finished) (h : reader.readAll.result = .ok documents)
    (more : List UInt8) (ending : Ending) :
    (reader.followed (10 :: more) ending).readAll =
      ⟨(reader.beyond more ending).readAll.result.map (documents ++ ·),
        reader.readAll.events ++ (reader.beyond more ending).readAll.events⟩ := by
  fun_induction readAll reader generalizing documents with
  | case1 => simp at h
  | case2 reader reported after hnext =>
    obtain ⟨htokens, rfl⟩ := finished_of_next hnext
    obtain rfl := Except.ok.inj h
    rw [Cursor.tokens?_eq] at htokens
    rcases hlex : reader.cursor.lex with ⟨lexeme | position | error, place⟩
    · rw [hlex] at htokens
      simp at htokens
    · have hsame : (reader.followed (10 :: more) ending).readAll =
          (reader.beyond more ending).readAll :=
        readAll_congr (next_congr reader.limit reader.unclosed
          (Cursor.lex_beyond hlex more ending))
      rw [hsame]
      cases hresult : (reader.beyond more ending).readAll with
      | mk result events => cases result <;> rfl
    · rw [hlex] at htokens
      simp at htokens
  | case3 reader value reported after hnext _ rest =>
    rename_i ih
    obtain ⟨hlonger, hafter, hbeyond⟩ := next_lineFeed hend hnext more ending
    cases hrest : after.readAll.result with
    | error error =>
      rw [hrest] at h
      simp [Except.map] at h
    | ok documents' =>
      rw [hrest] at h
      obtain rfl := Except.ok.inj h
      rw [readAll_of_some hlonger, ih hafter hrest, hbeyond, List.append_assoc]
      cases (reader.beyond more ending).readAll.result <;> rfl

end Reader

/-- Where an input can be read, what stands on the lines after it is read as it would be alone: its
documents come after those of the input, and so do its events. An error in it is the same error,
as many bytes and lines later as stand before it. -/
theorem readDocuments_append_lineFeed (bytes more : List UInt8) (ending : Ending) (limit : Nat)
    {documents : List Value}
    (h : (readDocuments bytes .finished limit).result = .ok documents) :
    readDocuments (bytes ++ 10 :: more) ending limit =
      ⟨match (readDocuments more ending limit).result with
        | .ok others => .ok (documents ++ others)
        | .error error => .error (error.later (bytes.length + 1) (bytes.count 10 + 1)),
        (readDocuments bytes .finished limit).events ++
          (readDocuments more ending limit).events⟩ := by
  have hrest : (Reader.start bytes .finished limit).beyond more ending =
      (Reader.start more ending limit).later (bytes.length + 1) (bytes.count 10 + 1) := by
    have hsplit : bytes ++ 10 :: more = (bytes ++ [10]) ++ more := by simp
    have hlength : bytes.length + 1 = (bytes ++ [10]).length := by simp
    have htake : (bytes ++ 10 :: more).take (bytes.length + 1) = bytes ++ [10] := by
      rw [hsplit, hlength, List.take_left]
    have hdrop : (bytes ++ 10 :: more).drop (bytes.length + 1) = more := by
      rw [hsplit, hlength, List.drop_left]
    change (⟨⟨(bytes ++ 10 :: more).drop (bytes.length + 1),
      Position.start.advance ((bytes ++ 10 :: more).take (bytes.length + 1)), ending⟩,
      limit, 0⟩ : Reader) = _
    rw [hdrop, htake, Position.advance_lineFeed]
    rfl
  have hend : (Reader.start bytes .finished limit).cursor.ending = .finished := rfl
  have hread := Reader.readAll_lineFeed hend h more ending
  rw [hrest, Reader.readAll_later] at hread
  have hmore : readDocuments more ending limit = (Reader.start more ending limit).readAll := rfl
  rw [hmore]
  refine hread.trans ?_
  cases (Reader.start more ending limit).readAll with
  | mk result events => cases result <;> rfl

/-- After a document and a line feed, an unknown byte is the error it is alone, three bytes and one
line later. -/
theorem readDocuments_append_lineFeed_of_array :
    (readDocuments [91, 93] .finished 1).result = .ok [.array []] ∧
      readDocuments ([91, 93] ++ 10 :: [64]) .finished 1 =
        ⟨.error (.malformed (.invalidCharacter (Char.ofNat 64)) ⟨3, 2, 1⟩), []⟩ := by
  have hopened : (Reader.start [91, 93] .finished 1).next =
      (⟨.ok (some (.array [])), []⟩, ⟨⟨[], ⟨2, 1, 3⟩, .finished⟩, 1, 0⟩) := by
    cbv
  have hfinished : (⟨⟨[], ⟨2, 1, 3⟩, .finished⟩, 1, 0⟩ : Reader).next =
      (⟨.ok none, []⟩, ⟨⟨[], ⟨2, 1, 3⟩, .finished⟩, 1, 0⟩) := by
    cbv
  have h : (readDocuments [91, 93] .finished 1).result = .ok [.array []] := by
    rw [readDocuments, Reader.readAll_of_some hopened, Reader.readAll_of_none hfinished]
    rfl
  have hunknown : (Reader.start [64] .finished 1).next =
      (⟨.error (.malformed (.invalidCharacter (Char.ofNat 64)) ⟨0, 1, 1⟩), []⟩,
        ⟨⟨[64], ⟨0, 1, 1⟩, .finished⟩, 1, 0⟩) := by
    cbv
  refine ⟨h, ?_⟩
  rw [readDocuments_append_lineFeed [91, 93] [64] .finished 1 h, readDocuments, readDocuments,
    Reader.readAll_of_error hunknown, Reader.readAll_of_some hopened,
    Reader.readAll_of_none hfinished]
  rfl

end Exemplar

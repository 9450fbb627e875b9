import Exemplar.Proofs.LeftOpen
import Exemplar.Proofs.Recounting

/-!
# Starting afresh

A reader that goes on after some answers reads what a new reader reads from the bytes that are left.
No token and no part of a document is kept; only the containers that were left open still count, so
the new reader may open that many fewer. Its places are counted from where it begins.
-/

namespace Exemplar

namespace Position

/-- The place in the whole input, if the part that begins at `place` has it at `p`. Columns go on in
the first line of the part only. -/
def behind (place p : Position) : Position :=
  ⟨place.offset + p.offset, place.line + (p.line - 1),
    if p.line = 1 then place.column + (p.column - 1) else p.column⟩

theorem after_behind (place : Position) {p : Position} (hline : 1 ≤ p.line) (hcolumn : 1 ≤ p.column)
    (b : UInt8) : (place.behind p).after b = place.behind (p.after b) := by
  by_cases hb : b = 10
  · rw [after, after, if_pos hb, if_pos hb, behind, behind, Position.mk.injEq]
    dsimp only
    rw [if_neg (by omega)]
    omega
  · rw [after, after, if_neg hb, if_neg hb, behind, behind, Position.mk.injEq]
    dsimp only
    split <;> omega

end Position

/-- The places of a part that begins at `place`. -/
def Recount.behind (place : Position) : Recount where
  count := place.behind
  Covers p := 1 ≤ p.line ∧ 1 ≤ p.column
  covers_after p b h := by
    rw [Position.after]
    split <;> simp [h.1]
  count_after _ b h := place.after_behind h.1 h.2 b

/-! Containers that are open besides -/

/-- The same defect where `opened` more containers are open, and the limit is `limit`. -/
def Defect.beneath (opened limit : Nat) : Defect → Defect
  | nestingTooDeep depth _ => nestingTooDeep (opened + depth) limit
  | defect => defect

def Progress.beneath (opened limit : Nat) : Progress → Progress
  | refused defect => refused (defect.beneath opened limit)
  | progress => progress

def ReadError.beneath (place : Position) (opened limit : Nat) : ReadError → ReadError
  | malformed defect position => malformed (defect.beneath opened limit) (place.behind position)
  | unreadable reason => unreadable reason

/-- The same reading in a part of an input that begins at `place`, where so many containers are open
before that. -/
def Reading.beneath (place : Position) (opened limit : Nat) (reading : Reading) : Reading :=
  { reading with result := reading.result.mapError (ReadError.beneath place opened limit) }

namespace Building

/-- A token does the same where more containers are open, and may be, besides. -/
theorem step_beneath (limit opened unclosed : Nat) (building : Building) (token : Token) :
    building.step limit (opened + unclosed) token =
      (building.step (limit - opened) unclosed token).beneath opened limit := by
  cases building.effect token with
  | opens around inner hopens hlength hdepth hstep =>
    rw [hstep, hstep, enter, enter]
    by_cases hfits : unclosed + around.length + 1 ≤ limit - opened
    · rw [if_pos hfits, if_pos (by omega)]
      rfl
    · rw [if_neg hfits, if_neg (by omega), Nat.add_assoc opened, Nat.add_assoc opened]
      rfl
  | delivers value around hopens hlength hstep =>
    rw [hstep, hstep]
    cases hdeliver : deliver value around with
    | refused defect => exact absurd hdeliver (deliver_ne_refused value around defect)
    | _ => rfl
  | proceeds next hopens hdepth hopen hstep =>
    rw [hstep, hstep]
    rfl
  | refuses defect hstep hblames =>
    rw [hstep, hstep]
    cases defect with
    | nestingTooDeep depth most =>
      -- a refusal for the depth would not be the same under every limit
      have hsmall := (tooDeep_of_step (hstep 0 0)).2
      have hlarge := (tooDeep_of_step (hstep 1 0)).2
      omega
    | _ => rfl

end Building

namespace Reader

variable {place : Position} {cursor : Cursor}

/-- The reader of the same rest, where so many more containers are open. -/
def beneath (place : Position) (opened limit : Nat) (reader : Reader) : Reader :=
  ⟨(Recount.behind place).cursor reader.cursor, limit, opened + reader.unclosed⟩

theorem leftOpen_beneath (opened limit unclosed : Nat) (building : Building) (defect : Defect) :
    leftOpen (opened + unclosed) building (defect.beneath opened limit) =
      opened + leftOpen unclosed building defect := by
  cases defect with
  | nestingTooDeep depth most => rfl
  | _ => exact Nat.add_assoc _ _ _

/-- An error in a token says nothing of the limit. -/
theorem beneath_of_lex {error : ReadError} {after : Cursor}
    (h : cursor.lex = (.failed error, after)) (place : Position) (opened limit : Nat) :
    error.beneath place opened limit = (Recount.behind place).error error := by
  have htoken := isTooDeep_of_lex h
  rcases error with ⟨defect, position⟩ | reason
  · cases defect with
    | nestingTooDeep depth most => contradiction
    | _ => rfl
  · rfl

theorem continueFrom_beneath (limit opened unclosed : Nat) (building : Building)
    (events : List Event) (cursor : Cursor)
    (hcovers : (Recount.behind place).Covers cursor.position) :
    continueFrom limit (opened + unclosed) building events
        ((Recount.behind place).cursor cursor) =
      (Reading.beneath place opened limit
          (continueFrom (limit - opened) unclosed building events cursor).1,
        (continueFrom (limit - opened) unclosed building events cursor).2.beneath place opened
          limit) := by
  have hlexed := (Recount.behind place).lex_cursor hcovers
  have hafter := (Recount.behind place).covers_lex hcovers
  fun_induction continueFrom (limit - opened) unclosed building events cursor with
  | case1 building events cursor lexeme after hlex next own hstep _ ih =>
    rw [hlex] at hlexed hafter
    rw [continueFrom_of_token hlexed, Building.step_beneath, hstep]
    exact ih hafter ((Recount.behind place).lex_cursor hafter)
      ((Recount.behind place).covers_lex hafter)
  | case2 building events cursor lexeme after hlex value own hstep =>
    rw [hlex] at hlexed
    rw [continueFrom_of_token hlexed, Building.step_beneath, hstep]
    rfl
  | case3 building events cursor lexeme after hlex defect hstep =>
    rw [hlex] at hlexed
    rw [continueFrom_of_token hlexed, Building.step_beneath, hstep]
    simp only [Progress.beneath, leftOpen_beneath]
    rfl
  | case4 building events cursor position after hlex =>
    rw [hlex] at hlexed
    rw [continueFrom_of_finished hlexed, Nat.add_assoc]
    rfl
  | case5 building events cursor error after hlex =>
    rw [hlex] at hlexed
    rw [continueFrom_of_failed hlexed, ← beneath_of_lex hlex place opened limit, Nat.add_assoc]
    rfl

/-- A reader that may open that many fewer containers gives the same answer. -/
theorem next_beneath (place : Position) (opened limit : Nat) {reader : Reader}
    (hlimit : reader.limit = limit - opened)
    (hcovers : (Recount.behind place).Covers reader.cursor.position) :
    (reader.beneath place opened limit).next =
      (Reading.beneath place opened limit reader.next.1,
        reader.next.2.beneath place opened limit) := by
  have hlexed : (reader.beneath place opened limit).cursor.lex = _ :=
    (Recount.behind place).lex_cursor hcovers
  have hread := continueFrom_beneath limit opened reader.unclosed (.awaitingValue []) []
    reader.cursor hcovers
  rw [← hlimit] at hread
  rcases hlex : reader.cursor.lex with ⟨lexeme | position | error, after⟩
  case finished =>
    rw [hlex] at hlexed
    rw [next_of_lex_finished hlex, next_of_lex_finished hlexed]
    rfl
  all_goals
    rw [hlex] at hlexed
    have hne : ∀ position, reader.cursor.lex.1 ≠ .finished position := by simp [hlex]
    have hbeneath : ∀ position,
        (reader.beneath place opened limit).cursor.lex.1 ≠ .finished position := by
      simp [hlexed, Recount.lexed]
    rw [next_of_lex_ne hne, next_of_lex_ne hbeneath]
    exact hread

/-- A new reader of the bytes that are left. -/
def afresh (reader : Reader) : Reader :=
  Reader.start reader.cursor.rest reader.cursor.ending (reader.limit - reader.unclosed)

theorem beneath_afresh (reader : Reader) :
    reader.afresh.beneath reader.cursor.position reader.unclosed reader.limit = reader := rfl

theorem next_afresh (reader : Reader) :
    reader.next.1 =
      Reading.beneath reader.cursor.position reader.unclosed reader.limit
        reader.afresh.next.1 := by
  have hfirst : (Recount.behind reader.cursor.position).Covers reader.afresh.cursor.position :=
    ⟨Nat.le_refl 1, Nat.le_refl 1⟩
  have hread := next_beneath reader.cursor.position reader.unclosed reader.limit rfl hfirst
  rw [beneath_afresh] at hread
  rw [hread]

/-! A run of answers -/

theorem limit_continueFrom (limit unclosed : Nat) (building : Building) (events : List Event)
    (cursor : Cursor) :
    (continueFrom limit unclosed building events cursor).2.limit = limit := by
  fun_induction continueFrom limit unclosed building events cursor with
  | case1 building events cursor lexeme after hlex next own hstep _ ih => exact ih
  | _ => rfl

theorem limit_resumed (reader : Reader) (n : Nat) : (reader.resumed n).limit = reader.limit := by
  induction n with
  | zero => rfl
  | succ n ih =>
    rw [resumed, next]
    split
    · exact ih
    · rw [limit_continueFrom, ih]

/-- How many containers so many answers leave open together. -/
def leftOpenWithin (reader : Reader) : Nat → Nat
  | 0 => 0
  | n + 1 => reader.leftOpenWithin n + (reader.resumed n).leavesOpen

theorem unclosed_resumed (reader : Reader) (n : Nat) :
    (reader.resumed n).unclosed = reader.unclosed + reader.leftOpenWithin n := by
  induction n with
  | zero => rfl
  | succ n ih => rw [resumed, unclosed_next, ih, leftOpenWithin, Nat.add_assoc]

/-- A reader of an input stands before the bytes that it has not taken. -/
theorem rest_resumed (bytes : List UInt8) (ending : Ending) (limit n : Nat) :
    ((Reader.start bytes ending limit).resumed n).cursor.rest =
      bytes.drop ((Reader.start bytes ending limit).resumed n).cursor.position.offset := by
  obtain ⟨count, hcount, hskip⟩ := (Reader.start bytes ending limit).leads_resumed n
  have hoffset := Cursor.offset_skip hcount
  rw [hskip, hoffset]
  simp [start, Cursor.start, Position.start]

/-- After any answers a reader reads what a new one reads from the bytes that are left, with the
limit less by the containers that these answers left open. Only a document that is not read leaves
any open, and none of them is closed later on. -/
theorem next_resumed (bytes : List UInt8) (ending : Ending) (limit n : Nat) :
    let reader := (Reader.start bytes ending limit).resumed n
    let opened := (Reader.start bytes ending limit).leftOpenWithin n
    let place := reader.cursor.position
    reader.next.1 =
        Reading.beneath place opened limit
          (Reader.start (bytes.drop place.offset) ending (limit - opened)).next.1 ∧
      reader.cursor.rest = bytes.drop place.offset ∧
      reader.unclosed = opened ∧
      (∀ result, reader.next.1.result = .ok result → reader.next.2.unclosed = opened) ∧
      opened ≤ reader.next.2.unclosed := by
  intro reader opened place
  have hrest : reader.cursor.rest = bytes.drop place.offset := rest_resumed bytes ending limit n
  have hunclosed : reader.unclosed = opened :=
    (unclosed_resumed _ n).trans (Nat.zero_add opened)
  have hlimit : reader.limit = limit := limit_resumed _ n
  have hending : reader.cursor.ending = ending := ending_resumed _ n
  refine ⟨?_, hrest, hunclosed, fun result hresult => ?_, ?_⟩
  · rw [← hrest, ← hunclosed, ← hlimit, ← hending]
    exact next_afresh reader
  · rw [unclosed_next, leavesOpen, hresult, hunclosed]
    rfl
  · rw [unclosed_next, hunclosed]
    exact Nat.le_add_right _ _

/-- An array is left open by the first answer. So the next one begins a level deeper, which is too
deep for the limit. -/
theorem next_resumed_of_open_array :
    let reader := (Reader.start "[1 2 [3]".toUTF8.toList .finished 1).resumed 1
    (Reader.start " [3]".toUTF8.toList .finished 0).next.1 =
        ⟨.error (.malformed (.nestingTooDeep 1 0) ⟨1, 1, 2⟩), []⟩ ∧
      reader.next.1 = ⟨.error (.malformed (.nestingTooDeep 2 1) ⟨5, 1, 6⟩), []⟩ := by
  have hfresh : (Reader.start " [3]".toUTF8.toList .finished 0).next.1 =
      ⟨.error (.malformed (.nestingTooDeep 1 0) ⟨1, 1, 2⟩), []⟩ := by
    cbv
  have hopen : (Reader.start "[1 2 [3]".toUTF8.toList .finished 1).leftOpenWithin 1 = 1 := by
    cbv
  have hplace : ((Reader.start "[1 2 [3]".toUTF8.toList .finished 1).resumed 1).cursor.position =
      ⟨4, 1, 5⟩ := by
    cbv
  have hrest : "[1 2 [3]".toUTF8.toList.drop 4 = " [3]".toUTF8.toList := by
    cbv
  refine ⟨hfresh, ?_⟩
  obtain ⟨hread, -⟩ := next_resumed "[1 2 [3]".toUTF8.toList .finished 1 1
  rw [hplace, hopen, hrest, hfresh] at hread
  exact hread

end Reader

end Exemplar

import Exemplar.Proofs.Cuts

/-!
# Asking again

A reader may be asked for one document after another, also behind an error. Each answer either
takes bytes off the input, or is the end of the input, or refuses a byte that begins no token. Such
a byte is left where it is, so it is refused again whenever the reader is asked. An input has only
so many bytes, so the answers change only so often.
-/

namespace Exemplar

namespace Token

/-! Bytes that are refused and left -/

/-- A character that the fault refuses is one of so many bytes that were taken. -/
def Fault.Took (taken : Nat) : Fault → Prop
  | .defect (.invalidCharacter _) offset => offset < taken
  | .defect _ _ | .unreadable _ => True

theorem took_stringStep {text : List UInt8} {escape : Escape} {offset place taken : Nat} {b : UInt8}
    {defect : Defect} {last : Bool}
    (h : stringStep text escape offset b = .refuse defect place last) :
    (Fault.defect defect place).Took taken := by
  rw [stringStep.eq_def] at h
  unfold Fault.Took
  grind [closeString]

theorem Partial.took_step {begun : Partial} {seen : List UInt8} {b : UInt8} {defect : Defect}
    {offset : Nat} {taken : Bool} (h : begun.step seen b = .refuse defect offset taken) :
    (Fault.defect defect offset).Took (seen.length + taken.toNat) := by
  cases begun with
  | keyword missing token =>
    rw [step] at h
    unfold keywordStep at h
    split at h
    · contradiction
    all_goals
      split at h
      · contradiction
      · obtain ⟨rfl, rfl, rfl⟩ := Step.refuse.inj h
        exact Nat.lt_succ_self _
  | string text escape => exact took_stringStep h
  | number part =>
    rw [step, numberStep] at h
    split at h
    · contradiction
    · split at h
      · obtain ⟨rfl, -, -⟩ := Step.refuse.inj h
        trivial
      · split at h
        · contradiction
        · obtain ⟨rfl, -, -⟩ := Step.refuse.inj h
          trivial

theorem Partial.took_atEnd {begun : Partial} {seen : List UInt8} {fault : Fault}
    (h : begun.atEnd seen = .error fault) (taken : Nat) : fault.Took taken := by
  cases begun with
  | keyword missing token =>
    obtain rfl := Except.error.inj h
    trivial
  | string text escape => cases escape <;> obtain rfl := Except.error.inj h <;> trivial
  | number part =>
    rw [atEnd] at h
    split at h
    · contradiction
    · obtain rfl := Except.error.inj h
      trivial

theorem took_of_scanOn {ending : Ending} {begun : Partial} {seen bytes : List UInt8} {fault : Fault}
    (h : (scanOn ending begun seen bytes).outcome = .error fault) :
    fault.Took (scanOn ending begun seen bytes).taken :=
  fault_of_scanOn (P := fun fault taken => fault.Took taken) Partial.took_step
    (fun hend => Partial.took_atEnd hend _) (fun _ _ => trivial) h

/-- A byte that begins no token is the only first byte that is refused. -/
theorem firstStep_refuse {b : UInt8} {defect : Defect} {offset : Nat} {taken : Bool}
    (h : firstStep b = .refuse defect offset taken) :
    defect = .invalidCharacter (Char.ofUInt8 b) ∧ offset = 0 ∧ taken = false := by
  unfold firstStep at h
  split at h
  case h_12 =>
    split at h
    · contradiction
    · obtain ⟨rfl, rfl, rfl⟩ := Step.refuse.inj h
      exact ⟨rfl, rfl, rfl⟩
  all_goals contradiction

/-- A scan that fails has refused its first byte and left it, or has taken that byte and every
character that it refuses. -/
theorem scan_of_fault {ending : Ending} {b : UInt8} {bytes : List UInt8} {fault : Fault}
    (h : (scan ending b bytes).outcome = .error fault) :
    (fault = .defect (.invalidCharacter (Char.ofUInt8 b)) 0 ∧ (scan ending b bytes).taken = 0) ∨
      (0 < (scan ending b bytes).taken ∧ fault.Took (scan ending b bytes).taken) := by
  rw [scan] at h ⊢
  cases hstep : firstStep b with
  | proceed next =>
    rw [hstep] at h
    exact .inr ⟨length_le_taken_scanOn ending next [b] bytes, took_of_scanOn h⟩
  | finish token taken =>
    rw [hstep] at h
    contradiction
  | refuse defect offset taken =>
    rw [hstep] at h
    obtain ⟨rfl, rfl, rfl⟩ := firstStep_refuse hstep
    exact .inl ⟨(Except.error.inj h).symm, rfl⟩

end Token

namespace Cursor

/-- The cursor stands on a byte that begins no token, and reading does not get past it. -/
structure Refuses (c : Cursor) (error : ReadError) : Prop where
  standing : ∃ b, c.rest.head? = some b ∧
    error = .malformed (.invalidCharacter (Char.ofUInt8 b)) c.position
  again : c.lex = (.failed error, c)

variable {c after : Cursor} {error : ReadError}

/-- Behind what was taken stands no character that was refused. -/
theorem readError_of_took {fault : Token.Fault} {taken : Nat} (hle : taken ≤ c.rest.length)
    (htook : fault.Took taken) (found : Char) :
    c.readError fault ≠ .malformed (.invalidCharacter found) (c.skip taken).position := by
  intro h
  cases fault with
  | unreadable reason => contradiction
  | defect defect offset =>
    obtain ⟨rfl, hplace⟩ := ReadError.malformed.inj h
    have hlt : offset < taken := htook
    have hoffset := congrArg Position.offset hplace
    rw [offset_skip hle, offset_skip (by omega)] at hoffset
    omega

theorem lexHere_of_fault {b : UInt8} {bytes : List UInt8} (hrest : c.rest = b :: bytes)
    (hblank : isBlank b = false) (h : c.lexHere = (.failed error, after)) :
    after.Refuses error ∨
      (c.position.offset < after.position.offset ∧
        ∀ found, error ≠ .malformed (.invalidCharacter found) after.position) := by
  have hwithin := (Token.scan_within c.ending b bytes).taken
  rw [← hrest] at hwithin
  have hagain := lex_of_rest hrest hblank
  rw [← lexHere_of_rest hrest, h] at hagain
  rw [lexHere_of_rest hrest] at h
  obtain ⟨hlexed, rfl⟩ := Prod.mk.inj h
  cases hscan : (Token.scan c.ending b bytes).outcome with
  | ok token =>
    rw [hscan] at hlexed
    contradiction
  | error fault =>
    rw [hscan] at hlexed
    obtain rfl := Lexed.failed.inj hlexed
    rcases Token.scan_of_fault hscan with ⟨rfl, htaken⟩ | ⟨htaken, htook⟩
    · rw [htaken] at hagain ⊢
      exact .inl ⟨⟨b, congrArg List.head? hrest, rfl⟩, hagain⟩
    · rw [offset_skip hwithin]
      exact .inr ⟨by omega, readError_of_took hwithin htook⟩

/-- A token that cannot be read costs bytes, or the cursor stands on the byte that is refused. -/
theorem lex_of_fault (hend : c.ending = .finished) (h : c.lex = (.failed error, after)) :
    after.Refuses error ∨
      (c.position.offset < after.position.offset ∧
        ∀ found, error ≠ .malformed (.invalidCharacter found) after.position) := by
  have hblanks := c.leads_skipBlanks.offset_le
  rw [lex] at h
  cases hrest : c.skipBlanks.rest with
  | nil =>
    have hfinished : c.skipBlanks.ending = .finished := hend
    rw [lexHere, hrest, hfinished] at h
    cases h
  | cons b bytes =>
    rcases lexHere_of_fault hrest (isBlank_of_rest_skipBlanks hrest) h with hrefuses | ⟨hlt, hfound⟩
    · exact .inl hrefuses
    · exact .inr ⟨by omega, hfound⟩

/-- Behind the end of the input there is only the end. -/
theorem lex_of_finished {position : Position} (h : c.lex = (.finished position, after)) :
    after.lex = (.finished after.position, after) := by
  have hblanks := (length_takeWhile_of_finished h).1
  have hrest : c.skipBlanks.rest = [] := by
    rw [skipBlanks, rest_skip, hblanks, List.drop_length]
  cases hend : c.ending with
  | broken reason => exact absurd (congrArg Prod.fst h) (lex_ne_finished hend position)
  | finished =>
    have hfinished : c.skipBlanks.ending = .finished := hend
    rw [lex, lexHere, hrest, hfinished] at h
    obtain ⟨-, rfl⟩ := Prod.mk.inj h
    exact lex_of_rest_eq_nil hrest hfinished

end Cursor

namespace Reader

/-! One answer -/

/-- The reader is asked and the input is at its end. -/
def Ends (reader : Reader) : Prop := reader.next.1.result = .ok none

/-- The reader is asked and refuses the byte on which it then stands. -/
def GetsStuck (reader : Reader) : Prop :=
  ∃ b, reader.next.2.cursor.rest.head? = some b ∧
    reader.next.1.result =
      .error (.malformed (.invalidCharacter (Char.ofUInt8 b)) reader.next.2.cursor.position)

variable {limit unclosed : Nat} {building : Building} {events : List Event} {cursor : Cursor}
  {reader : Reader}

/-- A document that ends on a byte that is refused has met the refusal of that byte. -/
theorem refuses_of_continueFrom {found : Char} (hend : cursor.ending = .finished)
    (h : (continueFrom limit unclosed building events cursor).1.result =
      .error (.malformed (.invalidCharacter found)
        (continueFrom limit unclosed building events cursor).2.cursor.position)) :
    (continueFrom limit unclosed building events cursor).2.cursor.Refuses
      (.malformed (.invalidCharacter found)
        (continueFrom limit unclosed building events cursor).2.cursor.position) := by
  have hending := cursor.ending_lex
  fun_induction continueFrom limit unclosed building events cursor with
  | case1 building events cursor lexeme next hlex document own hstep _ ih =>
    rw [hlex, hend] at hending
    exact ih hending h next.ending_lex
  | case2 => contradiction
  | case3 building events cursor lexeme next hlex defect hstep =>
    obtain ⟨rfl, -⟩ := ReadError.malformed.inj (Except.error.inj h)
    exact (Building.blames_of_refused hstep).elim
  | case4 =>
    obtain ⟨hdefect, -⟩ := ReadError.malformed.inj (Except.error.inj h)
    contradiction
  | case5 building events cursor error next hlex =>
    have herror : error = .malformed (.invalidCharacter found) next.position :=
      Except.error.inj h
    rcases Cursor.lex_of_fault hend hlex with hrefuses | ⟨-, hfound⟩
    · rwa [herror] at hrefuses
    · exact absurd herror (hfound found)

/-- Behind the first token of a document the reader does not come back before it. -/
theorem leads_of_token (limit unclosed : Nat) (building : Building) (events : List Event)
    {lexeme : Lexeme} {after : Cursor} (h : cursor.lex = (.token lexeme, after)) :
    after.Leads (continueFrom limit unclosed building events cursor).2.cursor := by
  rw [continueFrom_of_token h]
  split
  · exact leads_continueFrom _ _ _ _ _
  · exact after.leads_refl
  · exact after.leads_refl

/-- An answer is the end, or it costs bytes, or it is the refusal of a byte that is left. -/
theorem next_progress (hend : reader.cursor.ending = .finished) :
    reader.Ends ∨ reader.cursor.position.offset < reader.next.2.cursor.position.offset ∨
      reader.GetsStuck := by
  rcases hlex : reader.cursor.lex with ⟨lexeme | position | error, after⟩
  · have hne : ∀ position, reader.cursor.lex.1 ≠ .finished position := by simp [hlex]
    have hfirst := Cursor.offset_of_lex hlex
    rw [next_of_lex_ne hne]
    have hrest := leads_of_token reader.limit reader.unclosed (.awaitingValue []) [] hlex
    have hle := hrest.offset_le
    exact .inr (.inl (by omega))
  · rw [Ends, next_of_lex_finished hlex]
    exact .inl rfl
  · have hne : ∀ position, reader.cursor.lex.1 ≠ .finished position := by simp [hlex]
    rw [GetsStuck, next_of_lex_ne hne, continueFrom_of_failed hlex]
    rcases Cursor.lex_of_fault hend hlex with ⟨⟨b, hhead, rfl⟩, -⟩ | ⟨hlt, -⟩
    · exact .inr (.inr ⟨b, hhead, rfl⟩)
    · exact .inr (.inl hlt)

theorem next_of_refuses {error : ReadError} (h : reader.cursor.Refuses error) :
    reader.next = (⟨.error error, []⟩, reader) := by
  rw [next_of_lex_ne (by simp [h.again]), continueFrom_of_failed h.again]
  rfl

theorem exists_lex_of_ends (h : reader.Ends) :
    ∃ position after, reader.cursor.lex = (.finished position, after) := by
  rcases hnext : reader.next with ⟨⟨result, reported⟩, after⟩
  rw [Ends, hnext] at h
  obtain rfl : result = .ok none := h
  exact exists_lex_of_next hnext

/-- Behind the end, and behind a byte that is refused, the same answer is given again, and the
reader does not change any more. -/
theorem next_again (hend : reader.cursor.ending = .finished)
    (h : reader.Ends ∨ reader.GetsStuck) :
    reader.next.2.next = (⟨reader.next.1.result, []⟩, reader.next.2) := by
  rcases h with hends | ⟨b, -, hresult⟩
  · obtain ⟨position, after, hlex⟩ := exists_lex_of_ends hends
    rw [next_of_lex_finished hlex]
    exact next_of_lex_finished (Cursor.lex_of_finished hlex)
  · have hne : ∀ position, reader.cursor.lex.1 ≠ .finished position := by
      intro position hlex
      rw [next_of_lex_finished (Prod.ext hlex rfl)] at hresult
      contradiction
    rw [next_of_lex_ne hne] at hresult ⊢
    rw [next_of_refuses (refuses_of_continueFrom hend hresult), hresult]

/-! Answers one after another -/

/-- The reader after so many answers, whatever they were. -/
def resumed (reader : Reader) : Nat → Reader
  | 0 => reader
  | n + 1 => (reader.resumed n).next.2

theorem leads_next (reader : Reader) : reader.cursor.Leads reader.next.2.cursor :=
  (reader.call_spec .document).1

theorem leads_resumed (reader : Reader) (n : Nat) :
    reader.cursor.Leads (reader.resumed n).cursor := by
  induction n with
  | zero => exact reader.cursor.leads_refl
  | succ n ih => exact ih.trans (leads_next _)

theorem ending_resumed (reader : Reader) (n : Nat) :
    (reader.resumed n).cursor.ending = reader.cursor.ending := by
  obtain ⟨count, -, hskip⟩ := reader.leads_resumed n
  rw [hskip, Cursor.ending_skip]

/-- A reader that does not change stays as it is. -/
theorem resumed_of_unchanged {n : Nat} (h : (reader.resumed n).next.2 = reader.resumed n) {m : Nat}
    (hle : n ≤ m) : reader.resumed m = reader.resumed n := by
  induction m, hle using Nat.le_induction with
  | base => rfl
  | succ m hle ih => rw [resumed, ih, h]

/-- Behind the end, and behind a byte that is refused, the reader answers the same for ever. -/
theorem next_of_settled {n : Nat} (hend : reader.cursor.ending = .finished)
    (h : (reader.resumed n).Ends ∨ (reader.resumed n).GetsStuck) {m : Nat} (hlt : n < m) :
    (reader.resumed m).next = (⟨(reader.resumed n).next.1.result, []⟩, reader.resumed m) := by
  have hagain : (reader.resumed (n + 1)).next =
      (⟨(reader.resumed n).next.1.result, []⟩, reader.resumed (n + 1)) :=
    next_again ((ending_resumed reader n).trans hend) h
  rw [resumed_of_unchanged (congrArg Prod.snd hagain) hlt]
  exact hagain

/-- Before the answers settle, each of them has cost a byte. -/
theorem le_offset_resumed (hend : reader.cursor.ending = .finished) (n : Nat) :
    reader.cursor.position.offset + n ≤ (reader.resumed n).cursor.position.offset ∨
      ∃ m < n, (reader.resumed m).Ends ∨ (reader.resumed m).GetsStuck := by
  induction n with
  | zero => exact .inl (Nat.le_refl _)
  | succ n ih =>
    rcases ih with hle | ⟨m, hlt, hsettled⟩
    · rcases next_progress ((ending_resumed reader n).trans hend) with hends | hless | hstuck
      · exact .inr ⟨n, Nat.lt_succ_self n, .inl hends⟩
      · exact .inl (Nat.lt_of_le_of_lt hle hless)
      · exact .inr ⟨n, Nat.lt_succ_self n, .inr hstuck⟩
    · exact .inr ⟨m, Nat.lt_succ_of_lt hlt, hsettled⟩

/-- After as many answers as there are bytes, the reader does not change any more. -/
theorem resumed_of_length_le (hend : reader.cursor.ending = .finished) {n : Nat}
    (hle : reader.cursor.rest.length ≤ n) :
    (reader.resumed n).next.2 = reader.resumed n := by
  rcases reader.le_offset_resumed hend n with hoffset | ⟨m, hlt, hsettled⟩
  · have hlength := (reader.leads_resumed n).offset_add_length
    have hrest : (reader.resumed n).cursor.rest = [] :=
      List.eq_nil_of_length_eq_zero (by omega)
    rw [next_of_lex_finished
      (Cursor.lex_of_rest_eq_nil hrest ((ending_resumed reader n).trans hend))]
  · exact congrArg Prod.snd (next_of_settled hend hsettled hlt)

/-- Asked again and again, a reader of an input that ends takes more of it with each answer, until
it comes to the end or to a byte that begins no token. From then on it gives the same answer, and
after as many answers as the input has bytes there are no others. -/
theorem answers_settle (bytes : List UInt8) (limit : Nat) :
    let reader : Reader := Reader.start bytes .finished limit
    (∀ n, (reader.resumed n).Ends ∨
        (reader.resumed n).cursor.position.offset <
          (reader.resumed (n + 1)).cursor.position.offset ∨
        (reader.resumed n).GetsStuck) ∧
      (∀ n, (reader.resumed n).Ends ∨ (reader.resumed n).GetsStuck → ∀ m > n,
        (reader.resumed m).next.1.result = (reader.resumed n).next.1.result) ∧
      ∀ n ≥ bytes.length, (reader.resumed n).next.1 = (reader.resumed bytes.length).next.1 := by
  intro reader
  have hend : reader.cursor.ending = .finished := rfl
  refine ⟨fun n => next_progress ((ending_resumed reader n).trans hend), ?_, ?_⟩
  · intro n hsettled m hlt
    rw [next_of_settled hend hsettled hlt]
  · intro n hle
    have hunchanged := resumed_of_length_le hend (Nat.le_refl bytes.length)
    rw [resumed_of_unchanged hunchanged hle]

/-- Behind a number stands a byte that begins no token. It is refused by the second answer and by
all later ones. -/
theorem answers_settle_of_stray_byte :
    let reader := Reader.start "1 @".toUTF8.toList .finished 1
    (reader.resumed 1).GetsStuck ∧
      ∀ m > 1, (reader.resumed m).next.1.result =
        .error (.malformed (.invalidCharacter '@') ⟨2, 1, 3⟩) := by
  intro reader
  have hnext : (reader.resumed 1).next =
      (⟨.error (.malformed (.invalidCharacter (Char.ofUInt8 64)) ⟨2, 1, 3⟩), []⟩,
        ⟨⟨[64], ⟨2, 1, 3⟩, .finished⟩, 1, 0⟩) := by
    cbv
  have hstuck : (reader.resumed 1).GetsStuck := by
    rw [GetsStuck, hnext]
    exact ⟨64, rfl, rfl⟩
  obtain ⟨-, hsame, -⟩ := answers_settle "1 @".toUTF8.toList 1
  refine ⟨hstuck, fun m hlt => ?_⟩
  rw [hsame 1 (.inr hstuck) m hlt, hnext]
  rfl

end Reader

end Exemplar

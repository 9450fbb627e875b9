import Exemplar.Proofs.Exactness
import Exemplar.Proofs.Scanning

/-!
# Inputs that go on

A stream that breaks off is compared with the inputs that go on where it broke off. What was read
before the failure is read in each of them: an error at a place in the text is the final one, and
what was reported before the failure is reported first. Nothing that was read before the failure
makes up for it, so a stream that breaks off is never read to its end.
-/

namespace Exemplar

namespace Cursor

/-- The cursor with more bytes behind its own, and another end. -/
def followed (c : Cursor) (more : List UInt8) (ending : Ending) : Cursor :=
  { c with rest := c.rest ++ more, ending := ending }

theorem skip_followed {c : Cursor} {count : Nat} (h : count ≤ c.rest.length) (more : List UInt8)
    (ending : Ending) :
    (c.followed more ending).skip count = (c.skip count).followed more ending := by
  simp only [skip, followed, List.drop_append_of_le_length h, List.take_append_of_le_length h]

theorem length_takeWhile_le (c : Cursor) :
    (c.rest.takeWhile isBlank).length ≤ c.rest.length :=
  (List.takeWhile_prefix isBlank).length_le

/-- Blanks before another byte are skipped whatever follows. -/
theorem skipBlanks_followed {c : Cursor} (h : c.skipBlanks.rest ≠ []) (more : List UInt8)
    (ending : Ending) :
    (c.followed more ending).skipBlanks = c.skipBlanks.followed more ending := by
  have hne : (c.rest.takeWhile isBlank).length ≠ c.rest.length := by
    intro heq
    rw [skipBlanks, rest_skip, heq, List.drop_length] at h
    exact h rfl
  have hblanks : (c.rest ++ more).takeWhile isBlank = c.rest.takeWhile isBlank := by
    rw [List.takeWhile_append, if_neg hne]
  have hskip := skip_followed c.length_takeWhile_le more ending
  rw [← hblanks] at hskip
  rw [skipBlanks, skipBlanks, ← hblanks]
  exact hskip

/-- A place that a fault names is the same in a longer input. -/
theorem readError_followed {c : Cursor} {fault : Token.Fault} (h : fault.Within c.rest.length)
    (more : List UInt8) (ending : Ending) :
    (c.followed more ending).readError fault = c.readError fault := by
  cases fault with
  | defect defect offset =>
    rw [readError, readError, skip_followed h]
    rfl
  | unreadable reason => rfl

/-- What the outcome of a scan that starts here means. -/
def lexed (c : Cursor) : Except Token.Fault Token → Lexed
  | .ok token => .token ⟨token, c.position⟩
  | .error fault => .failed (c.readError fault)

theorem lexHere_of_rest {c : Cursor} {b : UInt8} {bytes : List UInt8} (h : c.rest = b :: bytes) :
    c.lexHere =
      (c.lexed (Token.scan c.ending b bytes).outcome,
        c.skip (Token.scan c.ending b bytes).taken) := by
  rw [lexHere, h]
  dsimp only
  cases (Token.scan c.ending b bytes).outcome <;> rfl

/-- A token that no blank stands before is scanned where the cursor is. -/
theorem lex_of_rest {c : Cursor} {b : UInt8} {bytes : List UInt8} (h : c.rest = b :: bytes)
    (hblank : isBlank b = false) :
    c.lex =
      (c.lexed (Token.scan c.ending b bytes).outcome,
        c.skip (Token.scan c.ending b bytes).taken) := by
  have hskip : c.skipBlanks = c := by
    rw [skipBlanks, h, List.takeWhile_cons_of_neg (by simp [hblank])]
    rfl
  rw [lex, hskip, lexHere_of_rest h]

theorem lex_of_rest_eq_nil {c : Cursor} (h : c.rest = []) (hending : c.ending = .finished) :
    c.lex = (.finished c.position, c) := by
  have hskip : c.skipBlanks = c := by
    rw [skipBlanks, h]
    cases c
    cases h
    rfl
  rw [lex, hskip, lexHere, h, hending]

/-- At the end of the input there are only blanks. -/
theorem length_takeWhile_of_finished {c after : Cursor} {position : Position}
    (h : c.lex = (.finished position, after)) :
    (c.rest.takeWhile isBlank).length = c.rest.length ∧ position = c.skipBlanks.position := by
  rw [lex] at h
  cases hrest : c.skipBlanks.rest with
  | nil =>
    rw [lexHere, hrest] at h
    have hblanks : c.rest.length ≤ (c.rest.takeWhile isBlank).length := by
      rwa [skipBlanks, rest_skip, List.drop_eq_nil_iff] at hrest
    refine ⟨Nat.le_antisymm c.length_takeWhile_le hblanks, ?_⟩
    cases hending : c.skipBlanks.ending with
    | finished =>
      rw [hending] at h
      cases h
      rfl
    | broken reason =>
      rw [hending] at h
      cases h
  | cons b bytes =>
    rw [lexHere_of_rest hrest] at h
    cases hscan : (Token.scan c.skipBlanks.ending b bytes).outcome <;>
      simp [hscan, lexed] at h

/-- Reading a token moves the cursor forward within its bytes. -/
theorem exists_skip_of_lexHere (c : Cursor) :
    ∃ count ≤ c.rest.length, c.lexHere.2 = c.skip count := by
  cases hrest : c.rest with
  | nil =>
    refine ⟨0, Nat.le_refl _, ?_⟩
    rw [lexHere, hrest]
    dsimp only
    split <;> rfl
  | cons b bytes =>
    refine ⟨_, (Token.scan_within c.ending b bytes).taken, ?_⟩
    rw [lexHere_of_rest hrest]

theorem exists_skip_of_lex (c : Cursor) : ∃ count ≤ c.rest.length, c.lex.2 = c.skip count := by
  obtain ⟨count, hcount, hskip⟩ := c.skipBlanks.exists_skip_of_lexHere
  have hblanks := c.length_takeWhile_le
  rw [skipBlanks, rest_skip, List.length_drop] at hcount
  refine ⟨(c.rest.takeWhile isBlank).length + count, by omega, ?_⟩
  rw [lex, hskip, skipBlanks, skip_skip]

theorem ending_lex (c : Cursor) : c.lex.2.ending = c.ending := by
  obtain ⟨count, -, hskip⟩ := c.exists_skip_of_lex
  rw [hskip, ending_skip]

variable {reason : String}

theorem lexHere_broken {c : Cursor} (h : c.ending = .broken reason) (more : List UInt8)
    (ending : Ending) :
    c.lexHere.1 = .failed (.unreadable reason) ∨
      c.rest ≠ [] ∧ (c.followed more ending).lexHere =
        (c.lexHere.1, c.lexHere.2.followed more ending) := by
  cases hrest : c.rest with
  | nil =>
    left
    rw [lexHere, hrest, h]
  | cons b bytes =>
    have hwithin := Token.scan_within c.ending b bytes
    rw [← hrest] at hwithin
    have hlonger : (c.followed more ending).rest = b :: (bytes ++ more) := by
      rw [followed, hrest, List.cons_append]
    rw [lexHere_of_rest hrest, lexHere_of_rest hlonger]
    rcases Token.scan_broken reason b bytes more ending with hcut | hsame
    · left
      rw [h, hcut]
      rfl
    · right
      rw [← h] at hsame
      have hend : (c.followed more ending).ending = ending := rfl
      refine ⟨List.cons_ne_nil _ _, ?_⟩
      rw [hend, hsame, skip_followed hwithin.taken]
      refine congrArg (Prod.mk · _) ?_
      cases hscan : (Token.scan c.ending b bytes).outcome with
      | ok token => rfl
      | error fault =>
        rw [lexed, lexed, readError_followed (hwithin.fault fault hscan)]

/-- A token is cut short by the failure of the stream, or read for good. -/
theorem lex_broken {c : Cursor} (h : c.ending = .broken reason) (more : List UInt8)
    (ending : Ending) :
    c.lex.1 = .failed (.unreadable reason) ∨
      (c.followed more ending).lex = (c.lex.1, c.lex.2.followed more ending) := by
  rcases lexHere_broken (c := c.skipBlanks) h more ending with hcut | ⟨hne, hsame⟩
  · exact Or.inl hcut
  · right
    rw [lex, skipBlanks_followed hne, hsame]
    rfl

/-- A stream that breaks off has no end. -/
theorem lex_ne_finished {c : Cursor} (h : c.ending = .broken reason) (position : Position) :
    c.lex.1 ≠ .finished position := by
  have hend : c.skipBlanks.ending = .broken reason := h
  rw [lex]
  cases hrest : c.skipBlanks.rest with
  | nil =>
    rw [lexHere, hrest, hend]
    simp
  | cons b bytes =>
    rw [lexHere_of_rest hrest]
    cases (Token.scan c.skipBlanks.ending b bytes).outcome <;> simp [lexed]

/-- Reading a token fails without a place only if the stream breaks off. -/
theorem ending_of_lex {c : Cursor} (h : c.lex.1 = .failed (.unreadable reason)) :
    c.ending = .broken reason := by
  change c.skipBlanks.ending = _
  rw [lex] at h
  cases hrest : c.skipBlanks.rest with
  | nil =>
    rw [lexHere, hrest] at h
    cases hend : c.skipBlanks.ending with
    | finished =>
      rw [hend] at h
      contradiction
    | broken =>
      rw [hend] at h
      cases h
      rfl
  | cons b bytes =>
    rw [lexHere_of_rest hrest] at h
    cases hscan : (Token.scan c.skipBlanks.ending b bytes).outcome with
    | ok token =>
      rw [hscan] at h
      contradiction
    | error fault =>
      rw [hscan] at h
      cases fault with
      | defect defect offset => cases h
      | unreadable =>
        cases h
        exact Token.ending_of_scan hscan

end Cursor

/-- Reading was cut short when the stream broke off, and all that it had reported until then is
reported first where the input goes on. -/
def CutShort {α : Type} (reason : String) (short long : Reported (Except ReadError α)) : Prop :=
  short.result = .error (.unreadable reason) ∧ short.events <+: long.events

namespace Reader

variable {reason : String} {limit unclosed : Nat} {building : Building} {events : List Event}
  {cursor : Cursor}

/-- The reader of an input that goes on. -/
def followed (reader : Reader) (more : List UInt8) (ending : Ending) : Reader :=
  { reader with cursor := reader.cursor.followed more ending }

theorem continueFrom_of_failed {error : ReadError} {next : Cursor}
    (h : cursor.lex = (.failed error, next)) :
    continueFrom limit unclosed building events cursor =
      (⟨.error error, events⟩, ⟨next, limit, unclosed + building.depth⟩) := by
  rw [continueFrom]
  split
  · rename_i hlex
    rw [h] at hlex
    cases hlex
  · rename_i hlex
    rw [h] at hlex
    cases hlex
  · rename_i hlex
    rw [h] at hlex
    cases hlex
    rfl

/-- Events are only ever added. -/
theorem prefix_events_continueFrom (limit unclosed : Nat) (building : Building)
    (events : List Event) (cursor : Cursor) :
    events <+: (continueFrom limit unclosed building events cursor).1.events := by
  fun_induction continueFrom limit unclosed building events cursor with
  | case1 building events cursor lexeme next hlex document own hstep _ ih =>
    exact (List.prefix_append events own).trans ih
  | case2 => exact List.prefix_append _ _
  | case3 => exact List.prefix_refl _
  | case4 => exact List.prefix_refl _
  | case5 => exact List.prefix_refl _

/-- Reading a document moves the cursor forward within its bytes. -/
theorem exists_skip_of_continueFrom (limit unclosed : Nat) (building : Building)
    (events : List Event) (cursor : Cursor) :
    ∃ count ≤ cursor.rest.length,
      (continueFrom limit unclosed building events cursor).2.cursor = cursor.skip count := by
  have hskip := cursor.exists_skip_of_lex
  fun_induction continueFrom limit unclosed building events cursor with
  | case1 building events cursor lexeme next hlex document own hstep _ ih =>
    rw [hlex] at hskip
    obtain ⟨count, hcount, hnext⟩ := hskip
    obtain ⟨count', hcount', hafter⟩ := ih next.exists_skip_of_lex
    have hrest : next.rest.length = cursor.rest.length - count := by
      rw [show next = cursor.skip count from hnext, Cursor.rest_skip, List.length_drop]
    refine ⟨count + count', by omega, ?_⟩
    rw [hafter, ← Cursor.skip_skip, ← hnext]
  | case2 building events cursor lexeme next hlex => rwa [hlex] at hskip
  | case3 building events cursor lexeme next hlex => rwa [hlex] at hskip
  | case4 building events cursor position next hlex => rwa [hlex] at hskip
  | case5 building events cursor error next hlex => rwa [hlex] at hskip

theorem ending_continueFrom (limit unclosed : Nat) (building : Building) (events : List Event)
    (cursor : Cursor) :
    (continueFrom limit unclosed building events cursor).2.cursor.ending = cursor.ending := by
  obtain ⟨count, -, hskip⟩ :=
    exists_skip_of_continueFrom limit unclosed building events cursor
  rw [hskip, Cursor.ending_skip]

theorem ending_of_continueFrom
    (h : (continueFrom limit unclosed building events cursor).1.result =
      .error (.unreadable reason)) : cursor.ending = .broken reason := by
  have hending := cursor.ending_lex
  fun_induction continueFrom limit unclosed building events cursor with
  | case1 building events cursor lexeme next hlex document own hstep _ ih =>
    rw [hlex] at hending
    rw [← hending]
    exact ih h next.ending_lex
  | case2 => contradiction
  | case3 => simp at h
  | case4 => simp at h
  | case5 building events cursor error next hlex =>
    cases h
    exact Cursor.ending_of_lex (by rw [hlex])

/-- A document is cut short by the failure of the stream, or read for good. -/
theorem continueFrom_broken (h : cursor.ending = .broken reason) (more : List UInt8)
    (ending : Ending) :
    CutShort reason (continueFrom limit unclosed building events cursor).1
        (continueFrom limit unclosed building events (cursor.followed more ending)).1 ∨
      continueFrom limit unclosed building events (cursor.followed more ending) =
        ((continueFrom limit unclosed building events cursor).1,
          (continueFrom limit unclosed building events cursor).2.followed more ending) := by
  have hlonger := Cursor.lex_broken h more ending
  fun_induction continueFrom limit unclosed building events cursor with
  | case1 building events cursor lexeme next hlex document own hstep _ ih =>
    rw [hlex] at hlonger
    have hnext := hlonger.resolve_left (by simp)
    have hend : next.ending = .broken reason := by
      rw [← h, ← cursor.ending_lex, hlex]
    rw [continueFrom_of_token hnext, hstep]
    exact ih hend (Cursor.lex_broken hend more ending)
  | case2 building events cursor lexeme next hlex value own hstep =>
    rw [hlex] at hlonger
    right
    rw [continueFrom_of_token (hlonger.resolve_left (by simp)), hstep]
    rfl
  | case3 building events cursor lexeme next hlex defect hstep =>
    rw [hlex] at hlonger
    right
    rw [continueFrom_of_token (hlonger.resolve_left (by simp)), hstep]
    rfl
  | case4 building events cursor position next hlex =>
    exact absurd (by rw [hlex]) (Cursor.lex_ne_finished h position)
  | case5 building events cursor error next hlex =>
    rw [hlex] at hlonger
    rcases hlonger with hcut | hsame
    · left
      cases hcut
      exact ⟨rfl, prefix_events_continueFrom ..⟩
    · right
      rw [continueFrom_of_failed hsame]
      rfl

/-- Reading a document does not go beyond the end of the stream. -/
theorem next_of_broken {reader : Reader} (h : reader.cursor.ending = .broken reason) :
    reader.next =
      continueFrom reader.limit reader.unclosed (.awaitingValue []) [] reader.cursor :=
  next_of_lex_ne (Cursor.lex_ne_finished h)

theorem next_broken {reader : Reader} (h : reader.cursor.ending = .broken reason)
    (more : List UInt8) (ending : Ending) :
    CutShort reason reader.next.1 (reader.followed more ending).next.1 ∨
      (reader.followed more ending).next = (reader.next.1, reader.next.2.followed more ending) := by
  rw [next_of_broken h]
  rcases Cursor.lex_broken h more ending with hcut | hsame
  · left
    have hlex : reader.cursor.lex = (.failed (.unreadable reason), reader.cursor.lex.2) := by
      rw [← hcut]
    rw [continueFrom_of_failed hlex]
    exact ⟨rfl, List.nil_prefix⟩
  · have hne : ∀ position, (reader.followed more ending).cursor.lex.1 ≠ .finished position := by
      intro position
      rw [followed, hsame]
      exact Cursor.lex_ne_finished h position
    rw [next_of_lex_ne hne]
    exact continueFrom_broken h more ending

theorem readAll_of_error {reader after : Reader} {error : ReadError} {reported : List Event}
    (h : reader.next = (⟨.error error, reported⟩, after)) :
    reader.readAll = ⟨.error error, reported⟩ := by
  rw [readAll]
  split
  · rename_i hnext
    rw [h] at hnext
    cases hnext
    rfl
  · rename_i hnext
    rw [h] at hnext
    cases hnext
  · rename_i hnext
    rw [h] at hnext
    cases hnext

/-- What the first document reports is reported first. -/
theorem prefix_events_readAll (reader : Reader) :
    reader.next.1.events <+: reader.readAll.events := by
  rcases hnext : reader.next with ⟨⟨error | _ | value, reported⟩, after⟩
  · simp only [readAll_of_error hnext, List.prefix_refl]
  · simp only [readAll_of_none hnext, List.prefix_refl]
  · simp only [readAll_of_some hnext, List.prefix_append]

/-- Reading all documents of a broken stream fails: because of the text, and then for good, or
cut short. -/
theorem readAll_broken {reader : Reader} (h : reader.cursor.ending = .broken reason)
    (more : List UInt8) (ending : Ending) :
    (∃ defect position, reader.readAll.result = .error (.malformed defect position) ∧
        (reader.followed more ending).readAll = reader.readAll) ∨
      CutShort reason reader.readAll (reader.followed more ending).readAll := by
  have hread := next_broken h more ending
  fun_induction readAll reader with
  | case1 reader error reported after hnext =>
    rw [hnext] at hread
    rcases hread with ⟨hcut, hevents⟩ | hsame
    · obtain rfl := Except.error.inj hcut
      exact Or.inr ⟨rfl, hevents.trans (prefix_events_readAll _)⟩
    · rw [readAll_of_error hsame]
      cases error with
      | malformed defect position => exact Or.inl ⟨defect, position, rfl, rfl⟩
      | unreadable other =>
        right
        rw [next_of_broken h] at hnext
        have hend : reader.cursor.ending = .broken other :=
          ending_of_continueFrom (by rw [hnext])
        rw [h] at hend
        cases hend
        exact ⟨rfl, List.prefix_refl _⟩
  | case2 reader reported after hnext =>
    rw [next_of_broken h] at hnext
    obtain ⟨value, _, _, hvalue, -⟩ := run_of_continueFrom hnext
    contradiction
  | case3 reader value reported after hnext _ rest ih =>
    rw [hnext] at hread
    obtain hsame : (reader.followed more ending).next = _ :=
      hread.resolve_left fun hcut => by simp [CutShort] at hcut
    have hend : after.cursor.ending = .broken reason := by
      have hkept := ending_continueFrom reader.limit reader.unclosed (.awaitingValue []) []
        reader.cursor
      rwa [← next_of_broken h, hnext, h] at hkept
    rw [readAll_of_some hsame]
    rcases ih hend (next_broken hend more ending) with ⟨defect, position, herror, hrest⟩ | hcut
    · left
      refine ⟨defect, position, ?_, ?_⟩
      · rw [herror]
        rfl
      · rw [hrest]
    · right
      refine ⟨?_, (List.prefix_append_right_inj _).mpr hcut.2⟩
      rw [hcut.1]
      rfl

end Reader

/-- Reading a stream that breaks off fails. If it fails because of the text, every input that goes
on where the stream broke off is read with the same error, place and events. If it fails because
the stream broke off, such an input is read with the same events first. -/
theorem readDocuments_broken (bytes more : List UInt8) (reason : String) (ending : Ending)
    (limit : Nat) :
    (∃ defect position,
        (readDocuments bytes (.broken reason) limit).result =
            .error (.malformed defect position) ∧
          readDocuments (bytes ++ more) ending limit =
            readDocuments bytes (.broken reason) limit) ∨
      ((readDocuments bytes (.broken reason) limit).result = .error (.unreadable reason) ∧
        (readDocuments bytes (.broken reason) limit).events <+:
          (readDocuments (bytes ++ more) ending limit).events) := by
  have hend : (Reader.start bytes (.broken reason) limit).cursor.ending = .broken reason := rfl
  exact Reader.readAll_broken hend more ending

end Exemplar

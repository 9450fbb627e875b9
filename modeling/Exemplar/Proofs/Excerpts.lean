import Exemplar.Proofs.Continuation

/-!
# Tokens in excerpts

A token is read from its own bytes. If the input ends right behind them, the token is the same; and
if one more byte of the input is left, whatever comes behind that byte does not matter either, since
a scan looks at no more than one byte that it does not take. So every excerpt of an input that holds
some tokens of the input gives these tokens.
-/

namespace Exemplar

namespace Token

/-! Scanning an excerpt -/

/-- A keyword that has been begun still lacks bytes. -/
def Partial.IsOpen : Partial → Prop
  | .keyword missing _ => missing ≠ []
  | .string _ _ | .number _ => True

theorem isOpen_stringStep {text : List UInt8} {escape : Escape} {offset : Nat} {b : UInt8}
    {next : Partial} (h : stringStep text escape offset b = .proceed next) : next.IsOpen := by
  cases next with
  | keyword missing token =>
    rw [stringStep.eq_def] at h
    unfold closeString at h
    grind
  | _ => trivial

theorem Partial.isOpen_step {begun next : Partial} {seen : List UInt8} {b : UInt8}
    (h : begun.step seen b = .proceed next) : next.IsOpen := by
  cases begun with
  | keyword missing token =>
    rw [step] at h
    unfold keywordStep at h
    split at h
    · contradiction
    · split at h <;> contradiction
    · rename_i first missing hlonger
      split at h
      · obtain rfl := Step.proceed.inj h
        rintro rfl
        exact hlonger rfl
      · contradiction
  | string text escape => exact isOpen_stringStep h
  | number part =>
    rw [step, numberStep] at h
    split at h
    · obtain rfl := Step.proceed.inj h
      trivial
    · split at h
      · contradiction
      · split at h <;> contradiction

theorem isOpen_firstStep {b : UInt8} {next : Partial} (h : firstStep b = .proceed next) :
    next.IsOpen := by
  unfold firstStep at h
  split at h
  case h_12 =>
    split at h
    · obtain rfl := Step.proceed.inj h
      trivial
    · contradiction
  all_goals
    first
    | contradiction
    | (obtain rfl := Step.proceed.inj h; simp [Partial.IsOpen])

theorem taken_of_closeString {text : List UInt8} {token : Token} {taken : Bool}
    (h : closeString text = .finish token taken) : taken = true := by
  rw [closeString] at h
  split at h
  · exact (Step.finish.inj h).2.symm
  · contradiction

theorem taken_of_stringStep {text : List UInt8} {escape : Escape} {offset : Nat} {b : UInt8}
    {token : Token} {taken : Bool}
    (h : stringStep text escape offset b = .finish token taken) : taken = true := by
  rw [stringStep.eq_def] at h
  grind [taken_of_closeString]

/-- A token that ends before the next byte is complete without it. -/
theorem Partial.atEnd_of_finish {begun : Partial} {seen : List UInt8} {b : UInt8} {token : Token}
    (hopen : begun.IsOpen) (h : begun.step seen b = .finish token false) :
    begun.atEnd seen = .ok token := by
  cases begun with
  | keyword missing word =>
    rw [step] at h
    unfold keywordStep at h
    split at h
    · exact absurd rfl hopen
    · split at h <;> simp at h
    · split at h <;> contradiction
  | string text escape => exact absurd (taken_of_stringStep h) (by simp)
  | number part =>
    rw [step, numberStep] at h
    split at h
    · contradiction
    · split at h
      · contradiction
      · split at h
        · rename_i hcomplete
          obtain ⟨rfl, -⟩ := Step.finish.inj h
          rw [atEnd, if_pos hcomplete]
        · contradiction

/-- A token is scanned from any excerpt that its bytes fit in. -/
theorem scanOn_take {ending : Ending} {begun : Partial} {seen bytes : List UInt8} {token : Token}
    {taken n : Nat} (hopen : begun.IsOpen)
    (h : scanOn ending begun seen bytes = ⟨.ok token, taken⟩) (hn : taken ≤ seen.length + n) :
    scanOn .finished begun seen (bytes.take n) = ⟨.ok token, taken⟩ := by
  induction bytes generalizing begun seen n with
  | nil =>
    cases ending with
    | finished => rwa [List.take_nil]
    | broken reason => cases h
  | cons b bytes ih =>
    have htaken := length_le_taken_scanOn ending begun seen (b :: bytes)
    rw [h] at htaken
    rw [scanOn] at h
    cases hstep : begun.step seen b with
    | proceed next =>
      rw [hstep] at h
      dsimp only at h
      have hmore := length_le_taken_scanOn ending next (b :: seen) bytes
      rw [h, List.length_cons] at hmore
      obtain ⟨m, rfl⟩ : ∃ m, n = m + 1 := Nat.exists_eq_add_of_le' (by dsimp only at hmore; omega)
      rw [List.take_succ_cons, scanOn_of_proceed hstep]
      exact ih (Partial.isOpen_step hstep) h (by rw [List.length_cons]; omega)
    | finish found last =>
      rw [hstep] at h
      cases n with
      | zero =>
        -- the byte that ended the token is not part of the excerpt
        obtain ⟨hfound, hlast⟩ := Scan.mk.inj h
        obtain rfl := Except.ok.inj hfound
        cases last with
        | true =>
          rw [Bool.toNat_true] at hlast
          omega
        | false =>
          rw [Bool.toNat_false] at hlast
          rw [List.take_zero, scanOn, Partial.atEnd_of_finish hopen hstep, ← hlast]
          rfl
      | succ n => rwa [List.take_succ_cons, scanOn, hstep]
    | refuse defect offset last =>
      rw [hstep] at h
      cases h

theorem scan_take {ending : Ending} {b : UInt8} {bytes : List UInt8} {token : Token}
    {taken n : Nat} (h : scan ending b bytes = ⟨.ok token, taken⟩) (hn : taken ≤ n + 1) :
    scan .finished b (bytes.take n) = ⟨.ok token, taken⟩ := by
  rw [scan] at h ⊢
  cases hstep : firstStep b with
  | proceed next =>
    rw [hstep] at h
    have hlength : taken ≤ [b].length + n := by
      rw [List.length_singleton]
      omega
    exact scanOn_take (isOpen_firstStep hstep) h hlength
  | _ => rwa [hstep] at h

/-- What a broken stream leaves undecided takes all of its bytes. -/
theorem le_taken_scanOn {reason : String} {begun : Partial} {seen bytes : List UInt8}
    (h : (scanOn (.broken reason) begun seen bytes).outcome = .error (.unreadable reason))
    (more : List UInt8) (ending : Ending) :
    seen.length + bytes.length ≤ (scanOn ending begun seen (bytes ++ more)).taken := by
  induction bytes generalizing begun seen with
  | nil => exact length_le_taken_scanOn ending begun seen more
  | cons b bytes ih =>
    rw [scanOn] at h
    rw [List.cons_append, scanOn]
    cases hstep : begun.step seen b with
    | proceed next =>
      rw [hstep] at h
      have hrest := ih h
      rw [List.length_cons] at hrest ⊢
      dsimp only
      omega
    | _ =>
      rw [hstep] at h
      cases h

/-- Behind one more byte than it takes, a scan does not look. -/
theorem scan_of_lookahead {ending : Ending} {b : UInt8} {bytes : List UInt8} {token : Token}
    {taken n : Nat} (h : scan ending b bytes = ⟨.ok token, taken⟩) (hn : taken ≤ n)
    (hle : n ≤ bytes.length) (more : List UInt8) (ending' : Ending) :
    scan ending' b (bytes.take n ++ more) = ⟨.ok token, taken⟩ := by
  rw [scan] at h ⊢
  cases hstep : firstStep b with
  | proceed next =>
    rw [hstep] at h
    dsimp only at h ⊢
    -- the bytes of the excerpt either decide the scan or are all taken
    rcases scanOn_broken "" next [b] (bytes.take n) (bytes.drop n) ending with hcut | hsame
    · have htaken := le_taken_scanOn hcut (bytes.drop n) ending
      rw [List.take_append_drop, h, List.length_singleton, List.length_take_of_le hle] at htaken
      dsimp only at htaken
      omega
    · rw [List.take_append_drop, h] at hsame
      rcases scanOn_broken "" next [b] (bytes.take n) more ending' with hcut | hmore
      · rw [← hsame] at hcut
        cases hcut
      · rw [hmore, hsame]
  | _ => rwa [hstep] at h

end Token

namespace Cursor

/-! Tokens at a cursor -/

/-- A token of so many bytes stands at the cursor, with no blanks before it. -/
def Stands (c : Cursor) (token : Token) (count : Nat) : Prop :=
  ∃ b bytes, c.rest = b :: bytes ∧ isBlank b = false ∧
    Token.scan c.ending b bytes = ⟨.ok token, count⟩

variable {c d : Cursor} {token : Token} {lexeme : Lexeme} {count n : Nat}

theorem Stands.lex (h : c.Stands token count) :
    c.lex = (.token ⟨token, c.position⟩, c.skip count) := by
  obtain ⟨b, bytes, hrest, hblank, hscan⟩ := h
  rw [lex_of_rest hrest hblank, hscan]
  rfl

theorem Stands.pos (h : c.Stands token count) : 0 < count := by
  obtain ⟨b, bytes, -, -, hscan⟩ := h
  have hpos := Token.taken_pos_of_scan_ok (congrArg Token.Scan.outcome hscan)
  rwa [hscan] at hpos

theorem Stands.le_length (h : c.Stands token count) : count ≤ c.rest.length := by
  obtain ⟨b, bytes, hrest, -, hscan⟩ := h
  have hwithin := (Token.scan_within c.ending b bytes).taken
  rwa [hscan, ← hrest] at hwithin

theorem rest_skipBlanks (c : Cursor) : c.skipBlanks.rest = c.rest.dropWhile isBlank := by
  have hsplit := congrArg (List.drop (c.rest.takeWhile isBlank).length)
    (List.takeWhile_append_dropWhile (p := isBlank) (l := c.rest))
  rw [List.drop_left] at hsplit
  exact hsplit.symm

/-- Behind the blanks stands no blank. -/
theorem isBlank_of_rest_skipBlanks {b : UInt8} {bytes : List UInt8}
    (h : c.skipBlanks.rest = b :: bytes) : isBlank b = false := by
  rw [rest_skipBlanks] at h
  have hne : c.rest.dropWhile isBlank ≠ [] := by simp [h]
  have hhead := List.head_dropWhile_not isBlank hne
  simpa only [h, List.head_cons] using hhead

theorem stands_of_lex {after : Cursor} (h : c.lex = (.token lexeme, after)) :
    ∃ count, c.skipBlanks.Stands lexeme.token count ∧
      lexeme.position = c.skipBlanks.position ∧ after = c.skipBlanks.skip count := by
  rw [lex] at h
  cases hrest : c.skipBlanks.rest with
  | nil =>
    rw [lexHere, hrest] at h
    cases hending : c.skipBlanks.ending <;> simp [hending] at h
  | cons b bytes =>
    rw [lexHere_of_rest hrest] at h
    obtain ⟨hlexed, rfl⟩ := Prod.mk.inj h
    rcases hscan : Token.scan c.skipBlanks.ending b bytes with ⟨fault | token, count⟩
    · rw [hscan] at hlexed
      cases hlexed
    · rw [hscan] at hlexed
      cases hlexed
      exact ⟨count, ⟨b, bytes, hrest, isBlank_of_rest_skipBlanks hrest, hscan⟩, rfl, rfl⟩

theorem lex_of_stands (h : c.skipBlanks.Stands token count) :
    c.lex = (.token ⟨token, c.skipBlanks.position⟩, c.skipBlanks.skip count) := by
  obtain ⟨b, bytes, hrest, -, hscan⟩ := h
  rw [lex, lexHere_of_rest hrest, hscan]
  rfl

/-- The token stands in any excerpt that its bytes fit in, wherever that is read. -/
theorem Stands.take (h : c.Stands token count) (hn : count ≤ n) (hrest : d.rest = c.rest.take n)
    (hending : d.ending = .finished) : d.Stands token count := by
  have hpos := h.pos
  obtain ⟨b, bytes, hc, hblank, hscan⟩ := h
  obtain ⟨m, rfl⟩ : ∃ m, n = m + 1 := Nat.exists_eq_add_of_le' (by omega)
  refine ⟨b, bytes.take m, by rw [hrest, hc, List.take_succ_cons], hblank, ?_⟩
  rw [hending]
  exact Token.scan_take hscan hn

/-- The token stands in an excerpt with one more byte, whatever follows the excerpt. -/
theorem Stands.of_lookahead {more : List UInt8} (h : c.Stands token count) (hn : count < n)
    (hle : n ≤ c.rest.length) (hrest : d.rest = c.rest.take n ++ more) : d.Stands token count := by
  obtain ⟨b, bytes, hc, hblank, hscan⟩ := h
  obtain ⟨m, rfl⟩ : ∃ m, n = m + 1 := Nat.exists_eq_add_of_le' (by omega)
  rw [hc, List.length_cons] at hle
  refine ⟨b, bytes.take m ++ more, ?_, hblank, ?_⟩
  · rw [hrest, hc, List.take_succ_cons, List.cons_append]
  · exact Token.scan_of_lookahead hscan (by omega) (by omega) more d.ending

end Cursor

end Exemplar

import Exemplar.Proofs.Courses
import Exemplar.Proofs.Excerpts
import Exemplar.Proofs.Positions

/-!
# Inputs that are cut

An input may be cut behind some of its tokens, or behind one more byte and then go on in another
way. Either way these tokens are read again, and nothing but what is new comes after them. Where
the cut is right behind a token, it is the same token if the input ends there; if the input goes on,
it is the same token, or another number if it was a number, or no token at all.
-/

namespace Exemplar

namespace Cursor

variable {c c' after : Cursor} {lexeme : Lexeme} {lexemes : List Lexeme} {k n : Nat}

/-! The tokens before a place -/

/-- The tokens are read one after another on the way to the other cursor. -/
def Reads (c : Cursor) : List Lexeme → Cursor → Prop
  | [], c' => c = c'
  | lexeme :: more, c' => ∃ next, c.lex = (.token lexeme, next) ∧ next.Reads more c'

theorem Reads.lexemes_eq (h : c.Reads lexemes c') :
    c.lexemes = lexemes ++ c'.lexemes ∧ c.stop = c'.stop := by
  induction lexemes generalizing c with
  | nil =>
    cases h
    exact ⟨rfl, rfl⟩
  | cons lexeme more ih =>
    obtain ⟨next, hlex, hmore⟩ := h
    obtain ⟨hlexemes, hstop⟩ := lexemes_of_token hlex
    obtain ⟨htail, hlast⟩ := ih hmore
    rw [hlexemes, hstop, htail, hlast]
    exact ⟨rfl, rfl⟩

theorem Reads.leads (h : c.Reads lexemes c') : c.Leads c' := by
  induction lexemes generalizing c with
  | nil =>
    cases h
    exact leads_refl _
  | cons lexeme more ih =>
    obtain ⟨next, hlex, hmore⟩ := h
    have hnext := c.leads_lex
    rw [hlex] at hnext
    exact hnext.trans (ih hmore)

/-- A token begins at the cursor or behind it, and has bytes. -/
theorem offset_of_lex (h : c.lex = (.token lexeme, after)) :
    c.position.offset ≤ lexeme.position.offset ∧
      lexeme.position.offset < after.position.offset := by
  obtain ⟨count, hstands, hposition, rfl⟩ := stands_of_lex h
  have hpos := hstands.pos
  have hblanks := c.leads_skipBlanks.offset_le
  rw [offset_skip hstands.le_length, hposition]
  omega

/-- Before each token of an input the others are read. -/
theorem exists_reads {before more : List (Lexeme × Position)} {t : Lexeme × Position}
    (h : c.lexAll.1 = before ++ t :: more) :
    ∃ c' after, c.Reads (before.map (·.1)) c' ∧ c'.lex = (.token t.1, after) ∧
      after.position = t.2 := by
  induction before generalizing c with
  | nil =>
    have hall : c.lexAll = (t :: more, c.lexAll.2) := Prod.ext h rfl
    obtain ⟨after, hlex, hposition, -⟩ := lex_of_lexAll_cons hall
    exact ⟨c, after, rfl, hlex, hposition⟩
  | cons u before ih =>
    have hall : c.lexAll = (u :: (before ++ t :: more), c.lexAll.2) := Prod.ext h rfl
    obtain ⟨next, hlex, -, hmore⟩ := lex_of_lexAll_cons hall
    obtain ⟨c', after, hreads, hlast, hposition⟩ := ih (congrArg Prod.fst hmore)
    exact ⟨c', after, ⟨next, hlex, hreads⟩, hlast, hposition⟩

/-! Excerpts -/

/-- The cursor in an input that ends before the byte at the offset `n`. -/
def upTo (c : Cursor) (n : Nat) : Cursor :=
  ⟨c.rest.take (n - c.position.offset), c.position, .finished⟩

theorem skip_upTo (hk : k ≤ c.rest.length) (hn : c.position.offset + k ≤ n) :
    (c.upTo n).skip k = (c.skip k).upTo n := by
  have hinside : k ≤ n - c.position.offset := by omega
  have hleft : n - (c.position.offset + k) = n - c.position.offset - k := by omega
  rw [upTo, upTo, offset_skip hk, hleft]
  simp only [skip, List.drop_take, List.take_take, Nat.min_eq_left hinside]

theorem skipBlanks_upTo (h : c.skipBlanks.position.offset ≤ n) :
    (c.upTo n).skipBlanks = c.skipBlanks.upTo n := by
  have hlength := c.length_takeWhile_le
  rw [skipBlanks, offset_skip hlength] at h
  have hinside : (c.rest.takeWhile isBlank).length ≤ n - c.position.offset := by omega
  have hblanks : (c.upTo n).rest.takeWhile isBlank = c.rest.takeWhile isBlank := by
    rw [upTo, ← List.take_takeWhile, List.take_of_length_le hinside]
  rw [skipBlanks, hblanks, skip_upTo hlength h, skipBlanks]

/-- A token is read again if the input ends behind it. -/
theorem lex_upTo (h : c.lex = (.token lexeme, after)) (hn : after.position.offset ≤ n) :
    (c.upTo n).lex = (.token lexeme, after.upTo n) := by
  obtain ⟨count, hstands, hposition, rfl⟩ := stands_of_lex h
  have hle := hstands.le_length
  rw [offset_skip hle] at hn
  have hskip := @skipBlanks_upTo c n (by omega)
  have hshort : (c.upTo n).skipBlanks.Stands lexeme.token count := by
    rw [hskip]
    exact hstands.take (by omega) rfl rfl
  rw [lex_of_stands hshort, hskip, skip_upTo hle hn, upTo, ← hposition]

/-- So it is if one more byte is kept and the input goes on behind that. -/
theorem lex_upTo_followed (h : c.lex = (.token lexeme, after)) (hlt : after.position.offset < n)
    (hn : n ≤ c.position.offset + c.rest.length) (more : List UInt8) (ending : Ending) :
    ((c.upTo n).followed more ending).lex =
      (.token lexeme, (after.upTo n).followed more ending) := by
  obtain ⟨count, hstands, hposition, rfl⟩ := stands_of_lex h
  have hle := hstands.le_length
  have hblanks := c.leads_skipBlanks.offset_add_length
  rw [offset_skip hle] at hlt
  have hskip := @skipBlanks_upTo c n (by omega)
  have hinside : count < n - c.skipBlanks.position.offset := by omega
  have hwithin : n - c.skipBlanks.position.offset ≤ c.skipBlanks.rest.length := by omega
  have hkept : (c.skipBlanks.upTo n).rest.length = n - c.skipBlanks.position.offset :=
    List.length_take_of_le hwithin
  have hne : (c.upTo n).skipBlanks.rest ≠ [] := by
    rw [hskip]
    exact List.ne_nil_of_length_pos (by omega)
  have hlong : ((c.upTo n).followed more ending).skipBlanks.Stands lexeme.token count := by
    rw [skipBlanks_followed hne, hskip]
    exact hstands.of_lookahead hinside hwithin rfl
  rw [lex_of_stands hlong, skipBlanks_followed hne, hskip, skip_followed (by omega),
    skip_upTo hle (by omega)]
  rw [followed, upTo, ← hposition]

theorem Reads.upTo (h : c.Reads lexemes c') (hn : c'.position.offset ≤ n) :
    (c.upTo n).Reads lexemes (c'.upTo n) := by
  induction lexemes generalizing c with
  | nil =>
    cases h
    rfl
  | cons lexeme more ih =>
    obtain ⟨next, hlex, hmore⟩ := h
    have hnext := hmore.leads.offset_le
    exact ⟨next.upTo n, lex_upTo hlex (hnext.trans hn), ih hmore⟩

theorem Reads.upTo_followed (h : c.Reads lexemes c') (hlt : c'.position.offset < n)
    (hn : n ≤ c.position.offset + c.rest.length) (more : List UInt8) (ending : Ending) :
    ((c.upTo n).followed more ending).Reads lexemes ((c'.upTo n).followed more ending) := by
  induction lexemes generalizing c with
  | nil =>
    cases h
    rfl
  | cons lexeme others ih =>
    obtain ⟨next, hlex, hmore⟩ := h
    have hnext := hmore.leads.offset_le
    have hleads := c.leads_lex
    rw [hlex] at hleads
    have hlength := hleads.offset_add_length
    dsimp only at hlength
    exact ⟨_, lex_upTo_followed hlex (by omega) hn more ending, ih hmore (by omega)⟩

/-- Tokens of an input that ends are read again where a line feed follows. -/
theorem Reads.lineFeed (h : c.Reads lexemes c') (hend : c.ending = .finished)
    (more : List UInt8) (ending : Ending) :
    (c.followed (10 :: more) ending).Reads lexemes (c'.followed (10 :: more) ending) := by
  induction lexemes generalizing c with
  | nil =>
    cases h
    rfl
  | cons lexeme others ih =>
    obtain ⟨next, hlex, hmore⟩ := h
    have hnext : next.ending = .finished := by
      rw [← hend, ← c.ending_lex, hlex]
    exact ⟨_, lex_lineFeed hend hlex more ending, ih hmore hnext⟩

/-- Right before a token an input that is cut there is at its end. -/
theorem lex_upTo_of_token (h : c.lex = (.token lexeme, after)) :
    ∃ position last, (c.upTo lexeme.position.offset).lex = (.finished position, last) := by
  obtain ⟨count, hstands, hposition, rfl⟩ := stands_of_lex h
  have hskip := @skipBlanks_upTo c lexeme.position.offset (by rw [hposition])
  have hempty : (c.skipBlanks.upTo lexeme.position.offset).rest = [] := by
    rw [upTo, hposition, Nat.sub_self, List.take_zero]
  refine ⟨c.skipBlanks.position, c.skipBlanks.upTo lexeme.position.offset, ?_⟩
  rw [lex, hskip, lexHere, hempty]
  rfl

end Cursor

/-! What may become of the last token -/

namespace Token

/-- The same token, or another number. -/
def Like (token other : Token) : Prop :=
  other = token ∨ ∃ literal literal', token = number literal ∧ other = number literal'

theorem exists_number_of_scanOn {ending : Ending} {part : NumberPart} {seen bytes : List UInt8}
    {token : Token} (h : (scanOn ending (.number part) seen bytes).outcome = .ok token) :
    ∃ literal, token = number literal := by
  induction bytes generalizing part seen with
  | nil =>
    cases ending with
    | finished =>
      rw [scanOn, Partial.atEnd] at h
      split at h <;> cases h
      exact ⟨_, rfl⟩
    | broken reason => cases h
  | cons b bytes ih =>
    cases hstep : (Partial.number part).step seen b with
    | proceed next =>
      rw [scanOn_of_proceed hstep] at h
      rw [Partial.step, numberStep] at hstep
      split at hstep
      · obtain rfl := Step.proceed.inj hstep
        exact ih h
      · split at hstep
        · contradiction
        · split at hstep <;> contradiction
    | finish found last =>
      rw [scanOn, hstep] at h
      obtain rfl := Except.ok.inj h
      rw [Partial.step, numberStep] at hstep
      split at hstep
      · contradiction
      · split at hstep
        · contradiction
        · split at hstep
          · exact ⟨_, (Step.finish.inj hstep).1.symm⟩
          · contradiction
    | refuse defect offset last =>
      rw [scanOn, hstep] at h
      contradiction

/-- What an input is scanned as is not another token where the input goes on, except that a number
may be another one. -/
theorem like_of_scanOn {begun : Partial} {seen word more : List UInt8} {token other : Token}
    {ending : Ending} (h : (scanOn .finished begun seen word).outcome = .ok token)
    (hother : (scanOn ending begun seen (word ++ more)).outcome = .ok other) :
    token.Like other := by
  induction word generalizing begun seen with
  | nil =>
    -- only a number is complete before it is known what follows
    cases begun with
    | keyword missing word => contradiction
    | string text escape => cases escape <;> contradiction
    | number part =>
      obtain ⟨literal, rfl⟩ := exists_number_of_scanOn h
      obtain ⟨literal', rfl⟩ := exists_number_of_scanOn hother
      exact .inr ⟨literal, literal', rfl, rfl⟩
  | cons b word ih =>
    rw [List.cons_append] at hother
    cases hstep : begun.step seen b with
    | proceed next =>
      rw [scanOn_of_proceed hstep] at h hother
      exact ih h hother
    | finish found last =>
      rw [scanOn, hstep] at h hother
      obtain rfl := Except.ok.inj h
      exact .inl (Except.ok.inj hother).symm
    | refuse defect offset last =>
      rw [scanOn, hstep] at h
      contradiction

theorem like_of_scan {b : UInt8} {word more : List UInt8} {token other : Token} {ending : Ending}
    (h : (scan .finished b word).outcome = .ok token)
    (hother : (scan ending b (word ++ more)).outcome = .ok other) : token.Like other := by
  rw [scan] at h hother
  cases hstep : firstStep b with
  | proceed next =>
    rw [hstep] at h hother
    exact like_of_scanOn h hother
  | finish found last =>
    rw [hstep] at h hother
    obtain rfl := Except.ok.inj h
    exact .inl (Except.ok.inj hother).symm
  | refuse defect offset last =>
    rw [hstep] at h
    contradiction

end Token

namespace Cursor

variable {c after : Cursor} {lexeme : Lexeme}

/-- Where an input goes on right behind a token, the bytes of the token begin the same token, or
another number if it was one, or none. -/
theorem lex_followed (h : c.lex = (.token lexeme, after)) (more : List UInt8) (ending : Ending) :
    (∃ other last, ((c.upTo after.position.offset).followed more ending).lex =
        (.token ⟨other, lexeme.position⟩, last) ∧ lexeme.token.Like other) ∨
      ∃ error last, ((c.upTo after.position.offset).followed more ending).lex =
        (.failed error, last) := by
  obtain ⟨count, hstands, hposition, hafter⟩ := stands_of_lex h
  have hle := hstands.le_length
  have hoffset : after.position.offset = c.skipBlanks.position.offset + count := by
    rw [hafter, offset_skip hle]
  have hskip := @skipBlanks_upTo c after.position.offset (by omega)
  have hshort : (c.skipBlanks.upTo after.position.offset).Stands lexeme.token count :=
    hstands.take (by omega) rfl rfl
  obtain ⟨b, word, hrest, -, hscan⟩ := hshort
  have hne : (c.upTo after.position.offset).skipBlanks.rest ≠ [] := by
    rw [hskip, hrest]
    exact List.cons_ne_nil b word
  have hlong : ((c.skipBlanks.upTo after.position.offset).followed more ending).rest =
      b :: (word ++ more) := by
    rw [followed, hrest, List.cons_append]
  have hend : ((c.skipBlanks.upTo after.position.offset).followed more ending).ending = ending :=
    rfl
  rw [lex, skipBlanks_followed hne, hskip, lexHere_of_rest hlong, hend]
  cases hother : (Token.scan ending b (word ++ more)).outcome with
  | ok other =>
    have htoken : (Token.scan .finished b word).outcome = .ok lexeme.token :=
      congrArg Token.Scan.outcome hscan
    exact .inl ⟨other, _, by rw [hposition]; rfl, Token.like_of_scan htoken hother⟩
  | error fault => exact .inr ⟨_, _, rfl⟩

end Cursor

end Exemplar

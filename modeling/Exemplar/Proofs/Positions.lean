import Mathlib
import Exemplar.Proofs.Continuation

/-!
# Places are counted from the bytes before them

A reader may be asked for tokens and documents in any order and for as long as one likes, also
after it has refused something. Every place that an answer names, and every place where the reader
then stands, is counted from the bytes before it: so many bytes, so many line feeds, so many bytes
after the last of these. All of them are the place of the beginning after some bytes of the input,
because reading does nothing to a cursor but skip.
-/

namespace Exemplar

/-- The place stands within the bytes, and its line and column are those of the bytes before it. -/
structure Position.Counts (bytes : List UInt8) (p : Position) : Prop where
  offset_le : p.offset ≤ bytes.length
  line_eq : p.line = 1 + (bytes.take p.offset).count 10
  column_eq : p.column = 1 + ((bytes.take p.offset).rtakeWhile (· ≠ 10)).length

namespace Position

theorem offset_advance (p : Position) (bytes : List UInt8) :
    (p.advance bytes).offset = p.offset + bytes.length := by
  induction bytes generalizing p with
  | nil => rfl
  | cons b bytes ih =>
    have hafter : (p.after b).offset = p.offset + 1 := by
      rw [after]
      split <;> rfl
    rw [advance_cons, ih, hafter, List.length_cons]
    omega

/-- The place after some bytes from the beginning on. -/
theorem advance_start (bytes : List UInt8) :
    start.advance bytes =
      ⟨bytes.length, 1 + bytes.count 10, 1 + (bytes.rtakeWhile (· ≠ 10)).length⟩ := by
  induction bytes using List.reverseRecOn with
  | nil => rfl
  | append_singleton bytes b ih =>
    rw [advance_append, ih, advance_cons, advance_nil, after, List.length_append,
      List.count_append, List.count_singleton]
    by_cases hb : b = 10
    · rw [if_pos hb, if_pos (beq_iff_eq.mpr hb), List.rtakeWhile_concat_neg _ _ _ (by simp [hb])]
      rfl
    · rw [if_neg hb, if_neg (mt beq_iff_eq.mp hb),
        List.rtakeWhile_concat_pos _ _ _ (by simp [hb]), List.length_append]
      rfl

end Position

namespace Cursor

/-- The place is one that the cursor stands at after some of the bytes that are still to come. -/
def Meets (c : Cursor) (p : Position) : Prop :=
  ∃ count ≤ c.rest.length, p = (c.skip count).position

/-- The cursor can be skipped to the other one. -/
def Leads (c c' : Cursor) : Prop :=
  ∃ count ≤ c.rest.length, c' = c.skip count

theorem leads_refl (c : Cursor) : c.Leads c :=
  ⟨0, Nat.zero_le _, rfl⟩

theorem Leads.trans {c c' c'' : Cursor} (h : c.Leads c') (h' : c'.Leads c'') : c.Leads c'' := by
  obtain ⟨m, hm, rfl⟩ := h
  obtain ⟨n, hn, rfl⟩ := h'
  rw [rest_skip, List.length_drop] at hn
  exact ⟨m + n, by omega, skip_skip c m n⟩

theorem Leads.meets {c c' : Cursor} {p : Position} (h : c.Leads c') (hp : c'.Meets p) :
    c.Meets p := by
  obtain ⟨n, hn, rfl⟩ := hp
  obtain ⟨m, hm, hskip⟩ := h.trans ⟨n, hn, rfl⟩
  exact ⟨m, hm, by rw [hskip]⟩

theorem Leads.offset_le {c c' : Cursor} (h : c.Leads c') :
    c.position.offset ≤ c'.position.offset := by
  obtain ⟨count, -, rfl⟩ := h
  rw [skip, Position.offset_advance]
  exact Nat.le_add_right _ _

theorem offset_skip {c : Cursor} {count : Nat} (h : count ≤ c.rest.length) :
    (c.skip count).position.offset = c.position.offset + count := by
  rw [skip, Position.offset_advance, List.length_take_of_le h]

theorem Leads.offset_add_length {c c' : Cursor} (h : c.Leads c') :
    c'.position.offset + c'.rest.length = c.position.offset + c.rest.length := by
  obtain ⟨count, hcount, rfl⟩ := h
  rw [offset_skip hcount, rest_skip, List.length_drop]
  omega

/-- What is met from the beginning of an input on is counted from its bytes. -/
theorem Meets.counts {bytes : List UInt8} {ending : Ending} {p : Position}
    (h : (Cursor.start bytes ending).Meets p) : p.Counts bytes := by
  obtain ⟨count, hcount, rfl⟩ := h
  have hplace : ((Cursor.start bytes ending).skip count).position =
      Position.start.advance (bytes.take count) := rfl
  have hlength : (bytes.take count).length = count := List.length_take_of_le hcount
  rw [hplace, Position.advance_start, hlength]
  exact ⟨hcount, rfl, rfl⟩

theorem leads_skipBlanks (c : Cursor) : c.Leads c.skipBlanks :=
  ⟨_, c.length_takeWhile_le, rfl⟩

theorem leads_lex (c : Cursor) : c.Leads c.lex.2 :=
  c.exists_skip_of_lex

end Cursor

/-- The places that reading a token tells. -/
def Lexed.places : Lexed → List Position
  | .token lexeme => [lexeme.position]
  | .finished position => [position]
  | .failed error => error.position?.toList

namespace Cursor

/-- A token, and a fault in one, are placed on the bytes to come. -/
theorem meets_of_lex {c : Cursor} : ∀ p ∈ c.lex.1.places, c.Meets p := by
  have hhere : c.Meets c.skipBlanks.position :=
    c.leads_skipBlanks.meets ⟨0, Nat.zero_le _, rfl⟩
  rw [lex]
  cases hrest : c.skipBlanks.rest with
  | nil =>
    rw [lexHere, hrest]
    cases c.skipBlanks.ending with
    | finished => exact List.forall_mem_singleton.mpr hhere
    | broken reason => exact List.forall_mem_nil _
  | cons b bytes =>
    have hwithin := Token.scan_within c.skipBlanks.ending b bytes
    rw [← hrest] at hwithin
    rw [lexHere_of_rest hrest]
    cases hscan : (Token.scan c.skipBlanks.ending b bytes).outcome with
    | ok token => exact List.forall_mem_singleton.mpr hhere
    | error fault =>
      cases fault with
      | defect defect offset =>
        have hoffset := hwithin.fault _ hscan
        exact List.forall_mem_singleton.mpr (c.leads_skipBlanks.meets ⟨offset, hoffset, rfl⟩)
      | unreadable reason => exact List.forall_mem_nil _

end Cursor

/-- The places that reading a document tells. -/
def Reading.places (reading : Reading) : List Position :=
  match reading.result with
  | .ok _ => []
  | .error error => error.position?.toList

/-- What a reader can be asked for. -/
inductive Call where
  | token
  | document

/-- What a reader answers. -/
inductive Answer where
  | lexed (lexed : Lexed)
  | reading (reading : Reading)

def Answer.places : Answer → List Position
  | lexed l => l.places
  | reading r => r.places

namespace Reader

/-- One call, and the reader after it. -/
def call (reader : Reader) : Call → Answer × Reader
  | .token => (.lexed reader.cursor.lex.1, { reader with cursor := reader.cursor.lex.2 })
  | .document => (.reading reader.next.1, reader.next.2)

/-- Calls one after another, each with its answer and the reader after it. -/
def calls (reader : Reader) : List Call → List (Answer × Reader)
  | [] => []
  | c :: more => reader.call c :: (reader.call c).2.calls more

theorem leads_continueFrom (limit unclosed : Nat) (building : Building) (events : List Event)
    (cursor : Cursor) :
    cursor.Leads (continueFrom limit unclosed building events cursor).2.cursor :=
  exists_skip_of_continueFrom limit unclosed building events cursor

/-- An error in a document is placed on the bytes to come. -/
theorem meets_of_continueFrom (limit unclosed : Nat) (building : Building) (events : List Event)
    (cursor : Cursor) :
    ∀ p ∈ Reading.places (continueFrom limit unclosed building events cursor).1,
      cursor.Meets p := by
  have hmeets := @Cursor.meets_of_lex cursor
  have hleads := cursor.leads_lex
  fun_induction continueFrom limit unclosed building events cursor with
  | case1 building events cursor lexeme next hlex document own hstep _ ih =>
    rw [hlex] at hleads
    exact fun p hp => hleads.meets (ih Cursor.meets_of_lex next.leads_lex p hp)
  | case2 => exact List.forall_mem_nil _
  | case3 building events cursor lexeme next hlex defect hstep => rwa [hlex] at hmeets
  | case4 building events cursor position next hlex => rwa [hlex] at hmeets
  | case5 building events cursor error next hlex => rwa [hlex] at hmeets

/-- One call moves the cursor forward and tells no other places than it has before it. -/
theorem call_spec (reader : Reader) (c : Call) :
    reader.cursor.Leads (reader.call c).2.cursor ∧
      ∀ p ∈ (reader.call c).1.places, reader.cursor.Meets p := by
  cases c with
  | token => exact ⟨reader.cursor.leads_lex, Cursor.meets_of_lex⟩
  | document =>
    rw [call, next]
    split
    · rename_i position after hlex
      have hleads := reader.cursor.leads_lex
      rw [hlex] at hleads
      exact ⟨hleads, List.forall_mem_nil _⟩
    · exact ⟨leads_continueFrom _ _ _ _ _, fun p hp => meets_of_continueFrom _ _ _ _ _ p hp⟩

/-- The same for any number of calls. -/
theorem calls_spec (reader : Reader) (cs : List Call) :
    ∀ a ∈ reader.calls cs,
      reader.cursor.Leads a.2.cursor ∧ ∀ p ∈ a.1.places, reader.cursor.Meets p := by
  induction cs generalizing reader with
  | nil => exact List.forall_mem_nil _
  | cons c cs ih =>
    obtain ⟨hleads, hmeets⟩ := reader.call_spec c
    refine List.forall_mem_cons.mpr ⟨⟨hleads, hmeets⟩, fun a ha => ?_⟩
    obtain ⟨hlater, hplaces⟩ := ih (reader.call c).2 a ha
    exact ⟨hleads.trans hlater, fun p hp => hleads.meets (hplaces p hp)⟩

theorem calls_forward (reader : Reader) (cs : List Call) :
    (reader.calls cs).Pairwise fun a a' =>
      a.2.cursor.position.offset ≤ a'.2.cursor.position.offset := by
  induction cs generalizing reader with
  | nil => exact .nil
  | cons c cs ih =>
    refine List.pairwise_cons.mpr ⟨fun a ha => ?_, ih _⟩
    exact ((reader.call c).2.calls_spec cs a ha).1.offset_le

/-- However often a reader is called, all places that it tells, and all places where it stands, are
counted from the bytes of the input, and it never goes back. -/
theorem counts_of_mem_calls (bytes : List UInt8) (ending : Ending) (limit : Nat)
    (cs : List Call) :
    (∀ a ∈ (Reader.start bytes ending limit).calls cs,
        (∀ p ∈ a.1.places, p.Counts bytes) ∧ a.2.cursor.position.Counts bytes) ∧
      ((Reader.start bytes ending limit).calls cs).Pairwise fun a a' =>
        a.2.cursor.position.offset ≤ a'.2.cursor.position.offset := by
  refine ⟨fun a ha => ?_, calls_forward _ cs⟩
  obtain ⟨hleads, hmeets⟩ := calls_spec _ cs a ha
  exact ⟨fun p hp => (hmeets p hp).counts, (hleads.meets ⟨0, Nat.zero_le _, rfl⟩).counts⟩

/-- After a token, a string that breaks off at a line feed is refused at that byte, and the reader
goes on behind it on the next line. -/
theorem counts_of_mem_calls_of_broken_string :
    let bytes := "[\"\n]".toUTF8.toList
    let answers := (Reader.start bytes .finished 8).calls [.token, .document, .document]
    answers.map (fun a => (a.1.places, a.2.cursor.position)) =
        [([⟨0, 1, 1⟩], ⟨1, 1, 2⟩), ([⟨2, 1, 3⟩], ⟨3, 2, 1⟩), ([⟨3, 2, 1⟩], ⟨4, 2, 2⟩)] ∧
      (⟨2, 1, 3⟩ : Position).Counts bytes ∧
      answers.Pairwise fun a a' => a.2.cursor.position.offset ≤ a'.2.cursor.position.offset := by
  have hplaces : ((Reader.start "[\"\n]".toUTF8.toList .finished 8).calls
        [.token, .document, .document]).map (fun a => (a.1.places, a.2.cursor.position)) =
      [([⟨0, 1, 1⟩], ⟨1, 1, 2⟩), ([⟨2, 1, 3⟩], ⟨3, 2, 1⟩), ([⟨3, 2, 1⟩], ⟨4, 2, 2⟩)] := by cbv
  intro bytes answers
  obtain ⟨hcounts, hforward⟩ :=
    counts_of_mem_calls bytes .finished 8 [.token, .document, .document]
  have hmem : (([⟨2, 1, 3⟩], ⟨3, 2, 1⟩) : List Position × Position) ∈
      answers.map fun a => (a.1.places, a.2.cursor.position) := by
    rw [hplaces]
    exact List.mem_cons_of_mem _ List.mem_cons_self
  obtain ⟨a, ha, heq⟩ := List.mem_map.mp hmem
  have hplace : (⟨2, 1, 3⟩ : Position) ∈ a.1.places := by
    rw [(Prod.mk.inj heq).1]
    exact List.mem_cons_self
  exact ⟨hplaces, (hcounts a ha).1 _ hplace, hforward⟩

end Reader

end Exemplar

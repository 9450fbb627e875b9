import Exemplar.Proofs.TokenRun

/-!
# Which inputs are read, and as what

An input is read without error exactly if its tokens are those of some trees that are nested no
deeper than the limit. The documents are then what the trees denote, in order, and the events are
the repeated keys.
-/

namespace Exemplar

namespace Cursor

/-- The tokens of an input that can be read to its end. -/
def tokens? (c : Cursor) : Option (List Token) :=
  match c.lexAll with
  | (lexemes, .finished _, _) => some (lexemes.map (·.1.token))
  | _ => none

theorem lexAll_of_token {c after : Cursor} {lexeme : Lexeme} (h : c.lex = (.token lexeme, after)) :
    c.lexAll = ((lexeme, after.position) :: after.lexAll.1, after.lexAll.2) := by
  rw [lexAll]
  split
  · rename_i hlex
    rw [h] at hlex
    cases hlex
    rfl
  · rename_i hlex
    exact absurd h (hlex _ _)

theorem lexAll_of_stop {c after : Cursor} {stop : Lexed} (h : c.lex = (stop, after))
    (hstop : ∀ lexeme, stop ≠ .token lexeme) : c.lexAll = ([], stop, after) := by
  rw [lexAll]
  split
  · rename_i lexeme _ hlex
    rw [h] at hlex
    exact absurd (Prod.mk.inj hlex).1 (hstop lexeme)
  · rename_i hlex
    rw [h]

/-- The first of the tokens of an input, and the rest of them. -/
theorem lex_of_lexAll_cons {c : Cursor} {t : Lexeme × Position} {more : List (Lexeme × Position)}
    {stop : Lexed × Cursor} (h : c.lexAll = (t :: more, stop)) :
    ∃ after, c.lex = (.token t.1, after) ∧ after.position = t.2 ∧ after.lexAll = (more, stop) := by
  rcases hlex : c.lex with ⟨lexeme | position | error, after⟩
  · rw [lexAll_of_token hlex] at h
    obtain ⟨htokens, hstop⟩ := Prod.mk.inj h
    obtain ⟨rfl, hmore⟩ := List.cons.inj htokens
    exact ⟨after, rfl, rfl, Prod.ext hmore hstop⟩
  · rw [lexAll_of_stop hlex (by simp)] at h
    cases h
  · rw [lexAll_of_stop hlex (by simp)] at h
    cases h

theorem lex_of_lexAll_nil {c : Cursor} {stop : Lexed × Cursor} (h : c.lexAll = ([], stop)) :
    c.lex = stop := by
  rcases hlex : c.lex with ⟨lexeme | position | error, after⟩
  · rw [lexAll_of_token hlex] at h
    cases h
  · rw [lexAll_of_stop hlex (by simp)] at h
    exact (Prod.mk.inj h).2
  · rw [lexAll_of_stop hlex (by simp)] at h
    exact (Prod.mk.inj h).2

/-- Which tokens an input has depends on the first one and what follows it only. -/
theorem lexAll_congr {c c' : Cursor} (h : c.lex = c'.lex) : c.lexAll = c'.lexAll := by
  rcases hlex : c'.lex with ⟨lexeme | position | error, after⟩
  · rw [lexAll_of_token hlex, lexAll_of_token (h.trans hlex)]
  · rw [lexAll_of_stop hlex (by simp), lexAll_of_stop (h.trans hlex) (by simp)]
  · rw [lexAll_of_stop hlex (by simp), lexAll_of_stop (h.trans hlex) (by simp)]

theorem tokens?_eq (c : Cursor) :
    c.tokens? =
      match c.lex with
      | (.token lexeme, after) => after.tokens?.map (lexeme.token :: ·)
      | (.finished _, _) => some []
      | (.failed _, _) => none := by
  rcases hlex : c.lex with ⟨lexeme | position | error, after⟩
  · dsimp only
    rw [tokens?, tokens?, lexAll_of_token hlex]
    rcases after.lexAll with ⟨lexemes, stop, last⟩
    cases stop <;> rfl
  · rw [tokens?, lexAll_of_stop hlex (by simp)]
    rfl
  · rw [tokens?, lexAll_of_stop hlex (by simp)]

theorem exists_of_tokens?_eq_cons {c : Cursor} {token : Token} {rest : List Token}
    (h : c.tokens? = some (token :: rest)) :
    ∃ lexeme after, c.lex = (.token lexeme, after) ∧ lexeme.token = token ∧
      after.tokens? = some rest := by
  rw [tokens?_eq] at h
  rcases hlex : c.lex with ⟨lexeme | position | error, after⟩
  · rw [hlex] at h
    obtain ⟨tokens, htokens, heq⟩ := Option.map_eq_some_iff.mp h
    obtain ⟨rfl, rfl⟩ := List.cons.inj heq
    exact ⟨lexeme, after, rfl, rfl, htokens⟩
  · rw [hlex] at h
    cases h
  · rw [hlex] at h
    cases h

/-- Every number in a text that can be read to its end has a value. -/
theorem denotes_of_tokens? {c : Cursor} {tokens : List Token} (h : c.tokens? = some tokens) :
    ∀ token ∈ tokens, token.denotes := by
  induction tokens generalizing c with
  | nil => simp
  | cons token rest ih =>
    obtain ⟨lexeme, after, hlex, rfl, hrest⟩ := exists_of_tokens?_eq_cons h
    exact List.forall_mem_cons.mpr ⟨denotes_of_lex hlex, ih hrest⟩

end Cursor

namespace Reader

variable {limit unclosed : Nat} {building : Building} {events reported : List Event}
  {cursor : Cursor} {after : Reader}

/-- A document that has been read took tokens off the input that complete it. -/
theorem run_of_continueFrom {result : Option Value}
    (h : continueFrom limit unclosed building events cursor = (⟨.ok result, reported⟩, after)) :
    ∃ value own tokens, result = some value ∧ reported = events ++ own ∧
      after = ⟨after.cursor, limit, unclosed⟩ ∧
      (∀ rest, building.run limit unclosed (tokens ++ rest) = some (value, own, rest)) ∧
      cursor.tokens? = after.cursor.tokens?.map (tokens ++ ·) := by
  fun_induction continueFrom limit unclosed building events cursor with
  | case1 building events cursor lexeme next hlex document own hstep _ ih =>
    obtain ⟨value, own', tokens, rfl, rfl, hafter, hrun, htokens⟩ := ih h
    refine ⟨value, own ++ own', lexeme.token :: tokens, rfl, by rw [List.append_assoc], hafter,
      fun rest => ?_, ?_⟩
    · rw [List.cons_append, Building.run_cons, hstep, Progress.run, hrun rest]
      rfl
    · rw [Cursor.tokens?_eq, hlex]
      dsimp only
      rw [htokens, Option.map_map]
      rfl
  | case2 building events cursor lexeme next hlex value own hstep =>
    obtain ⟨hresult, rfl⟩ := Prod.mk.inj h
    obtain ⟨hok, rfl⟩ := Reported.mk.inj hresult
    obtain rfl := Except.ok.inj hok
    refine ⟨value, own, [lexeme.token], rfl, rfl, rfl, fun rest => ?_, ?_⟩
    · rw [List.singleton_append, Building.run_cons, hstep, Progress.run]
    · rw [Cursor.tokens?_eq, hlex]
      rfl
  | case3 => simp at h
  | case4 => simp at h
  | case5 => simp at h

theorem continueFrom_of_token {lexeme : Lexeme} {next : Cursor}
    (h : cursor.lex = (.token lexeme, next)) :
    continueFrom limit unclosed building events cursor =
      match building.step limit unclosed lexeme.token with
      | .pending document own => continueFrom limit unclosed document (events ++ own) next
      | .complete value own => (⟨.ok (some value), events ++ own⟩, ⟨next, limit, unclosed⟩)
      | .refused defect =>
        (⟨.error (.malformed defect lexeme.position), events⟩,
          ⟨next, limit, leftOpen unclosed building defect⟩) := by
  rw [continueFrom]
  split
  · rename_i hlex
    rw [h] at hlex
    cases hlex
    cases building.step limit unclosed lexeme.token <;> rfl
  · rename_i hlex
    rw [h] at hlex
    cases hlex
  · rename_i hlex
    rw [h] at hlex
    cases hlex

/-- A document is read if the tokens of the input complete it. -/
theorem continueFrom_of_run (building : Building) (events : List Event) {tokens rest : List Token}
    {value : Value} {own : List Event}
    (htokens : cursor.tokens? = some tokens)
    (hrun : building.run limit unclosed tokens = some (value, own, rest)) :
    ∃ after : Cursor, after.tokens? = some rest ∧
      continueFrom limit unclosed building events cursor =
        (⟨.ok (some value), events ++ own⟩, ⟨after, limit, unclosed⟩) := by
  induction tokens generalizing building events cursor own with
  | nil => contradiction
  | cons token tokens ih =>
    obtain ⟨lexeme, next, hlex, rfl, hnext⟩ := Cursor.exists_of_tokens?_eq_cons htokens
    rw [Building.run_cons] at hrun
    rw [continueFrom_of_token hlex]
    cases hstep : building.step limit unclosed lexeme.token with
    | pending document own' =>
      rw [hstep, Progress.run] at hrun
      obtain ⟨⟨_, own'', _⟩, hdocument, heq⟩ := Option.map_eq_some_iff.mp hrun
      cases heq
      obtain ⟨after, hafter, hread⟩ :=
        ih document (events ++ own') hnext hdocument
      exact ⟨after, hafter, by rw [← List.append_assoc]; exact hread⟩
    | complete value' own' =>
      rw [hstep, Progress.run] at hrun
      cases hrun
      exact ⟨next, hnext, rfl⟩
    | refused defect =>
      rw [hstep] at hrun
      contradiction

/-- A reader at the end of its input finds no document. -/
theorem next_of_lex_finished {reader : Reader} {position : Position} {after : Cursor}
    (h : reader.cursor.lex = (.finished position, after)) :
    reader.next = (⟨.ok none, []⟩, { reader with cursor := after }) := by
  rw [next, h]

/-- Any other reader begins one. -/
theorem next_of_lex_ne {reader : Reader}
    (h : ∀ position, reader.cursor.lex.1 ≠ .finished position) :
    reader.next =
      continueFrom reader.limit reader.unclosed (.awaitingValue []) [] reader.cursor := by
  rw [next]
  split
  · rename_i position after hlex
    exact absurd (congrArg Prod.fst hlex) (h position)
  · rfl

theorem exists_lex_of_next {reader after : Reader}
    (h : reader.next = (⟨.ok none, reported⟩, after)) :
    ∃ position cursor, reader.cursor.lex = (.finished position, cursor) := by
  rw [next] at h
  split at h
  · rename_i position cursor hlex
    exact ⟨position, cursor, hlex⟩
  · obtain ⟨value, -, -, hvalue, -⟩ := run_of_continueFrom h
    contradiction

theorem next_of_finished {reader : Reader} (h : reader.cursor.tokens? = some []) :
    ∃ after, reader.next = (⟨.ok none, []⟩, after) := by
  rw [Cursor.tokens?_eq] at h
  rcases hlex : reader.cursor.lex with ⟨lexeme | position | error, after⟩
  · rw [hlex] at h
    simp at h
  · exact ⟨_, next_of_lex_finished hlex⟩
  · rw [hlex] at h
    contradiction

theorem next_of_token {reader : Reader} {token : Token} {rest : List Token}
    (h : reader.cursor.tokens? = some (token :: rest)) :
    reader.next =
      continueFrom reader.limit reader.unclosed (.awaitingValue []) [] reader.cursor := by
  obtain ⟨lexeme, after, hlex, -, -⟩ := Cursor.exists_of_tokens?_eq_cons h
  exact next_of_lex_ne (by simp [hlex])

theorem finished_of_next {reader after : Reader}
    (h : reader.next = (⟨.ok none, reported⟩, after)) :
    reader.cursor.tokens? = some [] ∧ reported = [] := by
  obtain ⟨position, cursor, hlex⟩ := exists_lex_of_next h
  rw [next_of_lex_finished hlex] at h
  obtain ⟨-, rfl⟩ := Reported.mk.inj (Prod.mk.inj h).1
  rw [Cursor.tokens?_eq, hlex]
  exact ⟨rfl, rfl⟩

theorem readAll_of_none {reader after : Reader}
    (h : reader.next = (⟨.ok none, reported⟩, after)) : reader.readAll = ⟨.ok [], reported⟩ := by
  rw [readAll]
  split
  · rename_i hnext
    rw [h] at hnext
    cases hnext
  · rename_i hnext
    rw [h] at hnext
    cases hnext
    rfl
  · rename_i hnext
    rw [h] at hnext
    cases hnext

theorem readAll_of_some {reader after : Reader} {value : Value}
    (h : reader.next = (⟨.ok (some value), reported⟩, after)) :
    reader.readAll =
      ⟨after.readAll.result.map (value :: ·), reported ++ after.readAll.events⟩ := by
  rw [readAll]
  split
  · rename_i hnext
    rw [h] at hnext
    cases hnext
  · rename_i hnext
    rw [h] at hnext
    cases hnext
  · rename_i hnext
    rw [h] at hnext
    cases hnext
    rfl

/-- A document that has been read is what a tree denotes, and its tokens are gone. -/
theorem exists_tree_of_next {reader after : Reader} {value : Value}
    (h : reader.next = (⟨.ok (some value), reported⟩, after)) :
    ∃ t : Tree, reader.cursor.tokens? = after.cursor.tokens?.map (t.tokens ++ ·) ∧
      t.depth ≤ reader.limit - reader.unclosed ∧ value = t.value ∧ reported = t.repeats ∧
      after.limit = reader.limit ∧ after.unclosed = reader.unclosed := by
  rw [next] at h
  split at h
  · simp at h
  · obtain ⟨value', own, tokens, hvalue, rfl, hafter, hrun, htokens⟩ := run_of_continueFrom h
    cases hvalue
    have hexact := hrun []
    rw [List.append_nil] at hexact
    obtain ⟨t, rest, rfl, hfits⟩ := Building.lacks_of_run _ tokens (by rw [hexact]; rfl)
    rw [Building.run_tokens t [] rest hfits] at hexact
    cases hexact
    refine ⟨t, ?_, hfits.depth, rfl, by simp, ?_, ?_⟩
    · rw [htokens]
      simp
    · rw [hafter]
    · rw [hafter]

/-- A tree at the beginning of an input is read as what it denotes. -/
theorem next_of_tree {reader : Reader} {t : Tree} {rest : List Token}
    (htokens : reader.cursor.tokens? = some (t.tokens ++ rest))
    (hdepth : t.depth ≤ reader.limit - reader.unclosed) :
    ∃ after : Cursor, after.tokens? = some rest ∧
      reader.next =
        (⟨.ok (some t.value), t.repeats⟩, ⟨after, reader.limit, reader.unclosed⟩) := by
  have hdenotes := (List.forall_mem_append.mp (Cursor.denotes_of_tokens? htokens)).1
  have hrun : (Building.awaitingValue []).run reader.limit reader.unclosed (t.tokens ++ rest) =
      some (t.value, t.repeats ++ [], rest) :=
    Building.run_tokens t [] rest ⟨hdepth, hdenotes⟩
  obtain ⟨after, hafter, hread⟩ := continueFrom_of_run (.awaitingValue []) [] htokens hrun
  obtain ⟨token, more, htree, -⟩ := t.exists_tokens_eq_cons
  rw [htree, List.cons_append] at htokens
  refine ⟨after, hafter, ?_⟩
  rw [next_of_token htokens, hread]
  simp

/-- What is read are the trees whose tokens the input consists of. -/
theorem readAll_eq_ok_iff {reader : Reader} {documents : List Value} {events : List Event} :
    reader.readAll = ⟨.ok documents, events⟩ ↔
      ∃ trees : List Tree, reader.cursor.tokens? = some (trees.flatMap Tree.tokens) ∧
        (∀ t ∈ trees, t.depth ≤ reader.limit - reader.unclosed) ∧
        documents = trees.map Tree.value ∧ events = trees.flatMap Tree.repeats := by
  constructor
  · intro h
    fun_induction readAll reader generalizing documents events with
    | case1 => simp at h
    | case2 reader reported after hnext =>
      obtain ⟨htokens, rfl⟩ := finished_of_next hnext
      obtain ⟨hok, rfl⟩ := Reported.mk.inj h
      obtain rfl := Except.ok.inj hok
      exact ⟨[], htokens, by simp, rfl, rfl⟩
    | case3 reader value reported after hnext _ rest =>
      rename_i ih
      obtain ⟨t, htokens, ht, rfl, rfl, hlimit, hunclosed⟩ := exists_tree_of_next hnext
      obtain ⟨hok, rfl⟩ := Reported.mk.inj h
      cases hrest : after.readAll.result with
      | error error =>
        rw [hrest] at hok
        contradiction
      | ok documents' =>
        rw [hrest] at hok
        obtain rfl := Except.ok.inj hok
        obtain ⟨trees, htrees, hdepth, rfl, hevents⟩ :=
          ih (show after.readAll = ⟨.ok documents', after.readAll.events⟩ by rw [← hrest])
        rw [hlimit, hunclosed] at hdepth
        refine ⟨t :: trees, ?_, List.forall_mem_cons.mpr ⟨ht, hdepth⟩, rfl, ?_⟩
        · rw [htokens, htrees]
          rfl
        · rw [List.flatMap_cons, hevents]
  · rintro ⟨trees, htokens, hdepth, rfl, rfl⟩
    induction trees generalizing reader with
    | nil =>
      obtain ⟨after, hnext⟩ := next_of_finished htokens
      exact readAll_of_none hnext
    | cons t trees ih =>
      obtain ⟨ht, htrees⟩ := List.forall_mem_cons.mp hdepth
      rw [List.flatMap_cons] at htokens
      obtain ⟨after, hafter, hnext⟩ := next_of_tree htokens ht
      have hrest : readAll ⟨after, reader.limit, reader.unclosed⟩ =
          ⟨.ok (trees.map Tree.value), trees.flatMap Tree.repeats⟩ := ih hafter htrees
      rw [readAll_of_some hnext, hrest]
      rfl

end Reader

/-- An input is read exactly if its tokens are those of trees within the depth limit. -/
theorem readDocuments_eq_ok_iff (bytes : List UInt8) (ending : Ending) (limit : Nat)
    (documents : List Value) (events : List Event) :
    ((Cursor.start bytes ending).tokens?.all fun tokens => tokens.all Token.denotes) ∧
      (readDocuments bytes ending limit = ⟨.ok documents, events⟩ ↔
        ∃ trees : List Tree,
          (Cursor.start bytes ending).tokens? = some (trees.flatMap Tree.tokens) ∧
          (∀ t ∈ trees, t.depth ≤ limit) ∧
          documents = trees.map Tree.value ∧ events = trees.flatMap Tree.repeats) := by
  constructor
  · cases htokens : (Cursor.start bytes ending).tokens? with
    | none => rfl
    | some tokens => exact List.all_eq_true.mpr (Cursor.denotes_of_tokens? htokens)
  · exact Reader.readAll_eq_ok_iff

/-- No object in a document that was read holds a key twice. -/
theorem keysDistinct_of_readDocuments {bytes : List UInt8} {ending : Ending} {limit : Nat}
    {documents : List Value} {events : List Event}
    (h : readDocuments bytes ending limit = ⟨.ok documents, events⟩) :
    ∀ d ∈ documents, d.keysDistinct := by
  obtain ⟨trees, -, -, rfl, -⟩ := Reader.readAll_eq_ok_iff.mp h
  intro d hd
  obtain ⟨t, -, rfl⟩ := List.mem_map.mp hd
  exact t.keysDistinct_value

end Exemplar

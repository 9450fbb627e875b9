import Exemplar.Event
import Exemplar.Lexing

/-!
# Reading documents

Documents stand one after another in an input. A document is built token by token: `Building`
records the containers that are open and what may come next in the innermost one, and
`Building.step` takes one token. A reader can go on after an error. What a failed document has
consumed stays consumed, and the containers it left open keep counting towards the depth limit.
-/

namespace Exemplar

/-- A container around the value that is being read. -/
inductive Frame where
  /-- An array and its elements so far, last first. -/
  | array (elements : List Value)
  /-- An object, its members so far, and the key whose value is being read. -/
  | object (members : List (String × Value)) (key : String)

/-- How far a document has come. Every case but the first names the innermost open container;
`around` are the containers around it, innermost first. -/
inductive Building where
  /-- A value must follow. -/
  | awaitingValue (around : List Frame)
  /-- An array has just been opened. -/
  | openedArray (around : List Frame)
  /-- An object has just been opened. -/
  | openedObject (around : List Frame)
  /-- The key of a further member must follow. -/
  | awaitingKey (members : List (String × Value)) (around : List Frame)
  /-- The colon after a key must follow. -/
  | awaitingColon (members : List (String × Value)) (key : String) (around : List Frame)
  /-- An element has just been read; the elements are kept last first. -/
  | afterElement (elements : List Value) (around : List Frame)
  /-- A member has just been read. -/
  | afterMember (members : List (String × Value)) (around : List Frame)

/-- What a token does to a document. -/
inductive Progress where
  | pending (next : Building) (events : List Event)
  | complete (value : Value) (events : List Event)
  | refused (defect : Defect)

namespace Building

def depth : Building → Nat
  | .awaitingValue around => around.length
  | .openedArray around | .openedObject around | .awaitingKey _ around | .awaitingColon _ _ around
  | .afterElement _ around | .afterMember _ around => around.length + 1

def expected : Building → Expectation
  | .awaitingValue _ | .openedArray _ => .value
  | .openedObject _ | .awaitingKey _ _ => .objectKey
  | .awaitingColon _ _ _ => .colon
  | .afterElement _ _ => .commaOrBracket
  | .afterMember _ _ => .commaOrBrace

/-- A value has been read inside the given containers. A repeated key is reported. -/
def deliver (value : Value) : List Frame → Progress
  | [] => .complete value []
  | .array elements :: around => .pending (.afterElement (value :: elements) around) []
  | .object members key :: around =>
    let events := if members.any (·.1 = key) then [Event.duplicateKey key] else []
    .pending (.afterMember (Value.setMember key value members) around) events

/-- A container is opened inside the given ones, unless that is one level too deep. `unclosed`
containers are open besides. -/
def enter (limit unclosed : Nat) (around : List Frame) (opened : Building) : Progress :=
  let depth := unclosed + around.length + 1
  if depth ≤ limit then .pending opened [] else .refused (.nestingTooDeep depth limit)

def beginValue (limit unclosed : Nat) (around : List Frame) : Token → Progress
  | .leftBrace => enter limit unclosed around (.openedObject around)
  | .leftBracket => enter limit unclosed around (.openedArray around)
  | .null => deliver .null around
  | .boolean b => deliver (.boolean b) around
  | .string text => deliver (.string text) around
  | .number literal =>
    match Value.ofNumberText? literal with
    | some value => deliver value around
    | none => .refused (.invalidNumber literal)
  | token => .refused (.unexpectedToken token .value)

def beginMember (members : List (String × Value)) (around : List Frame) : Token → Progress
  | .string key => .pending (.awaitingColon members key around) []
  | token =>
    if token.startsValue then .refused (.nonStringKey token)
    else .refused (.unexpectedToken token .objectKey)

def step (limit unclosed : Nat) (building : Building) (token : Token) : Progress :=
  match building, token with
  | .openedArray around, .rightBracket => deliver (.array []) around
  | .openedObject around, .rightBrace => deliver (.object []) around
  | .awaitingValue around, token => beginValue limit unclosed around token
  | .openedArray around, token => beginValue limit unclosed (.array [] :: around) token
  | .openedObject around, token => beginMember [] around token
  | .awaitingKey members around, token => beginMember members around token
  | .awaitingColon members key around, .colon =>
    .pending (.awaitingValue (.object members key :: around)) []
  | .afterElement elements around, .comma =>
    .pending (.awaitingValue (.array elements :: around)) []
  | .afterElement elements around, .rightBracket => deliver (.array elements.reverse) around
  | .afterMember members around, .comma => .pending (.awaitingKey members around) []
  | .afterMember members around, .rightBrace => deliver (.object members) around
  | building, token => .refused (.unexpectedToken token building.expected)

end Building

/-- A place in an input from which documents are read. -/
structure Reader where
  cursor : Cursor
  /-- How many containers may be open at once. -/
  limit : Nat
  /-- How many containers failed documents have left open. -/
  unclosed : Nat

/-- A document, the end of the input (`none`), or an error; and what was reported. -/
abbrev Reading := Reported (Except ReadError (Option Value))

namespace Reader

def start (bytes : List UInt8) (ending : Ending) (limit : Nat) : Reader :=
  ⟨Cursor.start bytes ending, limit, 0⟩

/-- How many containers are open after a refusal. One that was refused for its depth counts too. -/
def leftOpen (unclosed : Nat) (building : Building) : Defect → Nat
  | .nestingTooDeep depth _ => depth
  | _ => unclosed + building.depth

/-- Reads the rest of a document from `cursor` on. -/
def continueFrom (limit unclosed : Nat) (building : Building) (events : List Event)
    (cursor : Cursor) : Reading × Reader :=
  match h : cursor.lex with
  | (.token lexeme, after) =>
    match building.step limit unclosed lexeme.token with
    | .pending next reported =>
      have := Cursor.length_rest_lex_lt h
      continueFrom limit unclosed next (events ++ reported) after
    | .complete value reported =>
      (⟨.ok (some value), events ++ reported⟩, ⟨after, limit, unclosed⟩)
    | .refused defect =>
      (⟨.error (.malformed defect lexeme.position), events⟩,
        ⟨after, limit, leftOpen unclosed building defect⟩)
  | (.finished position, after) =>
    (⟨.error (.malformed (.unexpectedEnd building.expected) position), events⟩,
      ⟨after, limit, unclosed + building.depth⟩)
  | (.failed error, after) =>
    (⟨.error error, events⟩, ⟨after, limit, unclosed + building.depth⟩)
termination_by cursor.rest.length

def next (reader : Reader) : Reading × Reader :=
  match reader.cursor.lex with
  | (.finished _, after) => (⟨.ok none, []⟩, { reader with cursor := after })
  | _ => continueFrom reader.limit reader.unclosed (.awaitingValue []) [] reader.cursor

/-- A document takes at least one byte off the input. -/
theorem length_rest_continueFrom_lt {limit unclosed : Nat} {building : Building}
    {events reported : List Event} {cursor : Cursor} {result : Option Value} {after : Reader}
    (h : continueFrom limit unclosed building events cursor = (⟨.ok result, reported⟩, after)) :
    after.cursor.rest.length < cursor.rest.length := by
  fun_induction continueFrom limit unclosed building events cursor with
  | case1 building events cursor lexeme next hlex _ _ _ hlt ih => exact Nat.lt_trans (ih h) hlt
  | case2 building events cursor lexeme next hlex =>
    obtain ⟨-, rfl⟩ := Prod.mk.inj h
    exact Cursor.length_rest_lex_lt hlex
  | case3 => simp at h
  | case4 => simp at h
  | case5 => simp at h

theorem length_rest_next_lt {reader after : Reader} {value : Value} {reported : List Event}
    (h : reader.next = (⟨.ok (some value), reported⟩, after)) :
    after.cursor.rest.length < reader.cursor.rest.length := by
  unfold next at h
  split at h
  · simp at h
  · exact length_rest_continueFrom_lt h

/-- Reads all documents up to the end of the input; the first error is final. -/
def readAll (reader : Reader) : Reported (Except ReadError (List Value)) :=
  match h : reader.next with
  | (⟨.error error, reported⟩, _) => ⟨.error error, reported⟩
  | (⟨.ok none, reported⟩, _) => ⟨.ok [], reported⟩
  | (⟨.ok (some value), reported⟩, after) =>
    have := length_rest_next_lt h
    let rest := after.readAll
    ⟨rest.result.map (value :: ·), reported ++ rest.events⟩
termination_by reader.cursor.rest.length

end Reader

def readDocuments (bytes : List UInt8) (ending : Ending) (limit : Nat) :
    Reported (Except ReadError (List Value)) :=
  (Reader.start bytes ending limit).readAll

end Exemplar

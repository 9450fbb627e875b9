import Exemplar.Cursor
import Exemplar.ReadError

/-!
# Scanning one token

A token is read by an automaton that sees one byte at a time: `Partial` is what has been begun,
`Partial.step` takes the next byte, and `Partial.atEnd` says what it means that no byte follows.
Whether a byte is taken or left for the next token is part of the verdict, so nothing read is
ever put back. Places are offsets from the first byte of the token.
-/

namespace Exemplar.Token

/-- How far a number literal has come: after its sign, a leading zero, further digits of its whole
part, the point, digits of the fraction, the exponent mark, its sign, digits of the exponent. -/
inductive NumberPart where
  | sign
  | zero
  | whole
  | point
  | fraction
  | mark
  | markSign
  | exponent
  deriving DecidableEq

namespace NumberPart

def isComplete : NumberPart → Bool
  | zero | whole | fraction | exponent => true
  | sign | point | mark | markSign => false

/-- Where one more character leads, if the literal goes on with it. -/
def next? : NumberPart → Char → Option NumberPart
  | sign, c => if c = '0' then some zero else if c.isDigit then some whole else none
  | zero, c => afterWhole c
  | whole, c => if c.isDigit then some whole else afterWhole c
  | point, c => if c.isDigit then some fraction else none
  | fraction, c => if c.isDigit then some fraction else afterFraction c
  | mark, c =>
    if c.isDigit then some exponent
    else if c = '+' ∨ c = '-' then some markSign
    else none
  | markSign, c => if c.isDigit then some exponent else none
  | exponent, c => if c.isDigit then some exponent else none
where
  /-- A fraction or an exponent may follow the whole part. -/
  afterWhole (c : Char) : Option NumberPart :=
    if c = '.' then some point else afterFraction c
  /-- An exponent may follow the fraction. -/
  afterFraction (c : Char) : Option NumberPart :=
    if c = 'e' ∨ c = 'E' then some mark else none

end NumberPart

/-- How far an escape sequence inside a string has come. `start` is the offset of its backslash. -/
inductive Escape where
  /-- No escape sequence is open. -/
  | none
  /-- The backslash has been read. -/
  | opened (start : Nat)
  /-- Some digits of a code unit have been read; `high` is the high surrogate before it, if any. -/
  | codeUnit (start : Nat) (high : Option Nat) (digits value : Nat)
  /-- A high surrogate has been read; the backslash of the low one must follow. -/
  | pairBackslash (start high : Nat)
  /-- The letter `u` of the low surrogate must follow. -/
  | pairLetter (start high : Nat)
  deriving DecidableEq

/-- A token that has been begun. -/
inductive Partial where
  /-- A keyword of which some bytes are still missing. -/
  | keyword (missing : List UInt8) (token : Token)
  /-- A string; `text` holds its decoded bytes, last first. -/
  | string (text : List UInt8) (escape : Escape)
  | number (part : NumberPart)

/-- Why a token cannot be completed, and at which offset. -/
inductive Fault where
  | defect (defect : Defect) (offset : Nat)
  | unreadable (reason : String)

/-- The verdict on one byte. `taken` says whether the byte belongs to what has been read. -/
inductive Step where
  | proceed (next : Partial)
  | finish (token : Token) (taken : Bool)
  | refuse (defect : Defect) (offset : Nat) (taken : Bool)

/-- The bytes of a token, last first, as text; each byte is the character of that code. -/
def literalText (seen : List UInt8) : String :=
  String.ofList (seen.reverse.map Char.ofUInt8)

/-- The value of a hexadecimal digit of either case. -/
def hexValue? (c : Char) : Option Nat :=
  if '0' ≤ c ∧ c ≤ '9' then some (c.toNat - '0'.toNat)
  else if 'a' ≤ c ∧ c ≤ 'f' then some (c.toNat - 'a'.toNat + 10)
  else if 'A' ≤ c ∧ c ≤ 'F' then some (c.toNat - 'A'.toNat + 10)
  else none

def isHighSurrogate (codeUnit : Nat) : Bool := 0xD800 ≤ codeUnit && codeUnit < 0xDC00

def isLowSurrogate (codeUnit : Nat) : Bool := 0xDC00 ≤ codeUnit && codeUnit < 0xE000

def pairedChar (high low : Nat) : Char :=
  Char.ofNat (0x10000 + (high - 0xD800) * 0x400 + (low - 0xDC00))

/-- The character that a single letter after a backslash denotes. -/
def shortEscape? : Char → Option Char
  | '"' => some '"'
  | '\\' => some '\\'
  | '/' => some '/'
  | 'b' => some '\x08'
  | 'f' => some '\x0c'
  | 'n' => some '\n'
  | 'r' => some '\r'
  | 't' => some '\t'
  | _ => none

/-- Text with one more character at its end, both as bytes with the last first. -/
def pushChar (text : List UInt8) (c : Char) : List UInt8 :=
  (String.utf8EncodeChar c).reverse ++ text

/-- The verdict on a complete string: its bytes must be UTF-8. -/
def closeString (text : List UInt8) : Step :=
  match String.fromUTF8? ⟨text.reverse.toArray⟩ with
  | some decoded => .finish (.string decoded) true
  | none => .refuse .invalidUtf8 0 true

/-- The verdict on a byte inside a string, `offset` bytes after its opening quote. -/
def stringStep (text : List UInt8) (escape : Escape) (offset : Nat) (b : UInt8) : Step :=
  let c := Char.ofUInt8 b
  match escape with
  | .none =>
    if c = '"' then closeString text
    else if c = '\\' then .proceed (.string text (.opened offset))
    else if b < 0x20 then .refuse (.controlCharacter b) offset true
    else .proceed (.string (b :: text) .none)
  | .opened start =>
    if c = 'u' then .proceed (.string text (.codeUnit start none 0 0))
    else
      match shortEscape? c with
      | some denoted => .proceed (.string (pushChar text denoted) .none)
      | none => .refuse .invalidEscape start true
  | .codeUnit start high digits value =>
    match hexValue? c with
    | none => .refuse .invalidEscape start true
    | some digit =>
      let value := value * 16 + digit
      if digits < 3 then .proceed (.string text (.codeUnit start high (digits + 1) value))
      else
        match high with
        | some high =>
          if isLowSurrogate value then
            .proceed (.string (pushChar text (pairedChar high value)) .none)
          else .refuse .invalidEscape start true
        | none =>
          if isHighSurrogate value then .proceed (.string text (.pairBackslash start value))
          else if isLowSurrogate value then .refuse .invalidEscape start true
          else .proceed (.string (pushChar text (Char.ofNat value)) .none)
  | .pairBackslash start high =>
    if c = '\\' then .proceed (.string text (.pairLetter start high))
    else .refuse .invalidEscape start true
  | .pairLetter start high =>
    if c = 'u' then .proceed (.string text (.codeUnit start (some high) 0 0))
    else .refuse .invalidEscape start true

/-- The verdict on a byte after the bytes `seen` (last first) of a number literal. A digit after a
leading zero is taken and refused; every other byte that does not belong to the literal stays. -/
def numberStep (part : NumberPart) (seen : List UInt8) (b : UInt8) : Step :=
  let c := Char.ofUInt8 b
  match part.next? c with
  | some part => .proceed (.number part)
  | none =>
    if part = .zero ∧ c.isDigit then .refuse (.invalidNumber (literalText (b :: seen))) 0 true
    else if part.isComplete then .finish (.number (literalText seen)) false
    else .refuse (.invalidNumber (literalText seen)) 0 false

/-- The verdict on a byte `offset` bytes after the first one of a keyword. -/
def keywordStep (missing : List UInt8) (token : Token) (offset : Nat) (b : UInt8) : Step :=
  match missing with
  | [] => .finish token false
  | [last] =>
    if b = last then .finish token true
    else .refuse (.invalidCharacter (Char.ofUInt8 b)) offset true
  | next :: missing =>
    if b = next then .proceed (.keyword missing token)
    else .refuse (.invalidCharacter (Char.ofUInt8 b)) offset true

namespace Partial

/-- The verdict on the byte that follows the bytes `seen`, which are given last first. -/
def step (begun : Partial) (seen : List UInt8) (b : UInt8) : Step :=
  match begun with
  | keyword missing token => keywordStep missing token seen.length b
  | string text escape => stringStep text escape seen.length b
  | number part => numberStep part seen b

/-- What it means for a token that the input ends after the bytes `seen`, given last first. -/
def atEnd (begun : Partial) (seen : List UInt8) : Except Fault Token :=
  match begun with
  | keyword _ _ => .error (.defect (.unexpectedEnd .literal) seen.length)
  | string _ escape =>
    match escape with
    | .none => .error (.defect (.unexpectedEnd .closingQuote) seen.length)
    | .opened start | .codeUnit start _ _ _ | .pairBackslash start _ | .pairLetter start _ =>
      .error (.defect .invalidEscape start)
  | number part =>
    if part.isComplete then .ok (.number (literalText seen))
    else .error (.defect (.invalidNumber (literalText seen)) 0)

end Partial

/-- The verdict on the first byte of a token. A byte that begins no token is left where it is. -/
def firstStep (b : UInt8) : Step :=
  match Char.ofUInt8 b with
  | '\x7b' => .finish .leftBrace true
  | '\x7d' => .finish .rightBrace true
  | '[' => .finish .leftBracket true
  | ']' => .finish .rightBracket true
  | ':' => .finish .colon true
  | ',' => .finish .comma true
  | '"' => .proceed (.string [] .none)
  | '-' => .proceed (.number .sign)
  | 't' => .proceed (.keyword (['r', 'u', 'e'].map Char.toUInt8) (.boolean true))
  | 'f' => .proceed (.keyword (['a', 'l', 's', 'e'].map Char.toUInt8) (.boolean false))
  | 'n' => .proceed (.keyword (['u', 'l', 'l'].map Char.toUInt8) .null)
  | c =>
    match NumberPart.sign.next? c with
    | some part => .proceed (.number part)
    | none => .refuse (.invalidCharacter c) 0 false

/-- The outcome of scanning: a token or a fault, and how many bytes were taken. -/
structure Scan where
  outcome : Except Fault Token
  taken : Nat

/-- Scanning after the bytes `seen` (last first) of a token that has been begun. -/
def scanOn (ending : Ending) (begun : Partial) (seen : List UInt8) : List UInt8 → Scan
  | [] =>
    match ending with
    | .finished => ⟨begun.atEnd seen, seen.length⟩
    | .broken reason => ⟨.error (.unreadable reason), seen.length⟩
  | b :: bytes =>
    match begun.step seen b with
    | .proceed next => scanOn ending next (b :: seen) bytes
    | .finish token taken => ⟨.ok token, seen.length + taken.toNat⟩
    | .refuse defect offset taken => ⟨.error (.defect defect offset), seen.length + taken.toNat⟩

/-- Scanning a token that begins with the byte `b`. -/
def scan (ending : Ending) (b : UInt8) (bytes : List UInt8) : Scan :=
  match firstStep b with
  | .proceed next => scanOn ending next [b] bytes
  | .finish token taken => ⟨.ok token, taken.toNat⟩
  | .refuse defect offset taken => ⟨.error (.defect defect offset), taken.toNat⟩

/-- What was taken before is part of what is taken. -/
theorem length_le_taken_scanOn (ending : Ending) (begun : Partial) (seen bytes : List UInt8) :
    seen.length ≤ (scanOn ending begun seen bytes).taken := by
  induction bytes generalizing begun seen with
  | nil => cases ending <;> simp [scanOn]
  | cons b bytes ih =>
    rw [scanOn]
    split
    · exact Nat.le_trans (Nat.le_succ _) (ih _ (b :: seen))
    · exact Nat.le_add_right _ _
    · exact Nat.le_add_right _ _

theorem firstStep_finish_taken {b : UInt8} {token : Token} {taken : Bool}
    (h : firstStep b = .finish token taken) : taken = true := by
  unfold firstStep at h
  split at h
  case h_12 => split at h <;> contradiction
  all_goals first | contradiction | exact (Step.finish.inj h).2.symm

theorem taken_pos_of_scan_ok {ending : Ending} {b : UInt8} {bytes : List UInt8} {token : Token}
    (h : (scan ending b bytes).outcome = .ok token) : 0 < (scan ending b bytes).taken := by
  unfold scan at h ⊢
  cases hf : firstStep b with
  | proceed next => exact length_le_taken_scanOn ending next [b] bytes
  | finish token taken => simp [firstStep_finish_taken hf]
  | refuse defect offset taken => simp [hf] at h

end Exemplar.Token

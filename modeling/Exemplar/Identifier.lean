/-!
# Identifiers

The keys of a document are any text; identifiers begin with an upper-case ASCII letter and go on
with ASCII letters and digits. A key is cut into its runs of ASCII letters and digits, and each
run becomes a capitalised word. Words that are initialisms are written in capitals throughout.
-/

namespace Exemplar

def upperCase (text : String) : String :=
  String.ofList (text.toList.map Char.toUpper)

/-- Words that are written in capitals throughout, each in capitals and once. -/
structure Initialisms where
  words : List String

namespace Initialisms

def standardWords : List String := [
  "ACL", "API", "ASCII", "CPU", "CSS", "DNS", "EOF", "GUID", "HTML", "HTTP", "HTTPS", "ID", "IP",
  "JSON", "LHS", "QPS", "RAM", "RHS", "RPC", "SLA", "SMTP", "SQL", "SSH", "TCP", "TLS", "TTL",
  "UDP", "UI", "UID", "UUID", "URI", "URL", "UTF8", "VM", "XML", "XMPP", "XSRF", "XSS"]

/-- The standard words together with others, which may be written in any case. -/
def withExtra (extra : List String) : Initialisms :=
  ⟨(standardWords ++ extra.map upperCase).eraseDups⟩

def standard : Initialisms := withExtra []

/-- Whether a word is an initialism, in whatever case it is written. -/
def contains (initialisms : Initialisms) (word : String) : Bool :=
  initialisms.words.contains (upperCase word)

end Initialisms

namespace Identifier

/-- The runs of ASCII letters and digits in a text. -/
def words (text : List Char) : List (List Char) :=
  (text.splitOnP fun c => !c.isAlphanum).filter (!·.isEmpty)

/-- A word with its first letter in upper case and the rest as it is. -/
def capitalize : List Char → List Char
  | [] => []
  | c :: word => c.toUpper :: word

/-- How a word of a key is written in an identifier. -/
def styleWord (initialisms : Initialisms) (word : List Char) : List Char :=
  if initialisms.contains (String.ofList word) then word.map Char.toUpper else capitalize word

/-- The identifier of a key. A key that is a single point has a name of its own, as has one
without any letter or digit; a leading digit is hidden behind a marker. -/
def ofKey (initialisms : Initialisms) (key : String) : String :=
  if key = "." then "Dot"
  else
    match (words key.toList).flatMap (styleWord initialisms) with
    | [] => "Unknown"
    | c :: text =>
      if c.isDigit then "Num" ++ String.ofList (c :: text) else String.ofList (c :: text)

/-- Whether an upper-case letter begins a new word: it follows a lower-case letter or a digit, or
it is the last capital of a run and a lower-case letter follows. -/
def beginsWord (previous next : Option Char) : Bool :=
  match previous with
  | none => false
  | some p => p.isLower || p.isDigit || (p.isUpper && next.any Char.isLower)

/-- The lower-case form of a text, with an underscore before each word but the first. `previous` is
the character before the text. -/
def snakeChars (previous : Option Char) : List Char → List Char
  | [] => []
  | c :: rest =>
    let tail := snakeChars (some c) rest
    if c.isUpper then
      if beginsWord previous rest.head? then '_' :: c.toLower :: tail else c.toLower :: tail
    else c :: tail

/-- The lower-case form of an identifier, with its words separated by underscores. -/
def snakeCase (identifier : String) : String :=
  String.ofList (snakeChars none identifier.toList)

end Identifier

end Exemplar

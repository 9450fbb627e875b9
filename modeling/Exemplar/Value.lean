import Exemplar.Number.Literal
import Exemplar.Number.Shortest
import Exemplar.Text.Quoted

/-!
# Values

A document is a tree of values. Whole numbers are integers of any size; numbers written with a
fraction or an exponent are binary64 numbers as long as these are finite, and exact decimals
beyond. An object is the list of its members in order; no key stands in it twice.
-/

namespace Exemplar

/-- The exact number `coefficient · 10 ^ exponent`. -/
structure BigDecimal where
  coefficient : Int
  exponent : Int
  deriving DecidableEq

/-- Coefficient and exponent around the letter `e`. -/
def BigDecimal.text (x : BigDecimal) : String :=
  s!"{x.coefficient}e{x.exponent}"

/-- The kinds of values that hold no other values. -/
inductive ScalarKind where
  | null
  | boolean
  | int64
  | bigInteger
  | float64
  | bigFloat
  | string
  deriving DecidableEq

def ScalarKind.label : ScalarKind → String
  | null => "null"
  | boolean => "bool"
  | int64 => "int64"
  | bigInteger => "big integer"
  | float64 => "float64"
  | bigFloat => "big float"
  | string => "string"

/-- A value of a document. -/
inductive Value where
  | null
  | boolean (value : Bool)
  | integer (value : Int)
  | float (value : Binary64)
  | decimal (value : BigDecimal)
  | string (text : String)
  | object (members : List (String × Value))
  | array (elements : List Value)

namespace Value

/-- The kind of a value that holds no other values. An integer is big when no signed word of 64
bits can hold it. -/
def scalarKind? : Value → Option ScalarKind
  | null => some .null
  | boolean _ => some .boolean
  | integer n => some (if fitsInt64 n then .int64 else .bigInteger)
  | float _ => some .float64
  | decimal _ => some .bigFloat
  | string _ => some .string
  | object _ | array _ => none

def isScalar (v : Value) : Bool := v.scalarKind?.isSome

def isNull : Value → Bool
  | null => true
  | _ => false

def isObject : Value → Bool
  | object _ => true
  | _ => false

def typeName : Value → String
  | null => "null"
  | boolean _ => "boolean"
  | integer _ => "integer"
  | float _ | decimal _ => "number"
  | string _ => "string"
  | object _ => "object"
  | array _ => "array"

/-- How many elements or members a container holds. -/
def size? : Value → Option Nat
  | object members => some members.length
  | array elements => some elements.length
  | _ => none

/-- The number that a literal denotes: an integer if it is written as one, else the nearest
binary64 number, and the exact decimal where that is not finite. -/
def ofNumberLiteral (literal : NumberLiteral) : Value :=
  if literal.isWhole then integer literal.signedCoefficient
  else
    match Binary64.ofDecimal? literal.negative literal.coefficient literal.scale with
    | some x => float x
    | none => decimal ⟨literal.signedCoefficient, literal.scale⟩

/-- The number that a text denotes, if the text is a number literal. -/
def ofNumberText? (text : String) : Option Value :=
  (NumberLiteral.ofString? text).map ofNumberLiteral

mutual

/-- A short form of a value for comments; objects are only named. -/
def text : Value → String
  | null => "null"
  | boolean true => "true"
  | boolean false => "false"
  | integer n => toString n
  | float x => x.text
  | decimal x => x.text
  | string s => Text.quote s
  | object _ => "object"
  | array elements => "[" ++ ", ".intercalate (texts elements) ++ "]"

def texts : List Value → List String
  | [] => []
  | v :: rest => v.text :: texts rest

end

/-- A list of members with one more: a key that is there keeps its place and takes the new value,
a new key comes last. -/
def setMember (key : String) (value : Value) : List (String × Value) → List (String × Value)
  | [] => [(key, value)]
  | member :: rest =>
    if member.1 = key then (key, value) :: rest else member :: setMember key value rest

end Value

end Exemplar

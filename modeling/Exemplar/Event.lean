import Exemplar.Value

/-!
# Reported losses of precision

Reading and inference never fail over the shape of the data. Where they have to give something
up, they report an event and go on. A computation that may report is a result together with its
events, in the order in which they were reported.
-/

namespace Exemplar

/-- Something that was given up. -/
inductive Event where
  /-- Two examples disagree about a field, which now takes any value. -/
  | typeConflict (record key existing incoming : String)
  /-- The elements of an array differ in kind. -/
  | heterogeneousArray (key : String)
  /-- An array without elements tells nothing about them. -/
  | emptyArray (key : String)
  /-- A number needs more than 64 bits. -/
  | numericPromotion (key : String) (kind : ScalarKind)
  /-- Two keys of a record lead to one identifier. -/
  | identifierCollision (record key identifier : String)
  /-- A key stands in an object twice; the last value counts. -/
  | duplicateKey (key : String)
  deriving DecidableEq

namespace Event

def message : Event → String
  | typeConflict record key existing incoming =>
    s!"{record}.{key}: conflicting types {existing} and {incoming}, using opaque payload"
  | heterogeneousArray key => s!"{key}: array elements differ in type, using opaque slice"
  | emptyArray key => s!"{key}: empty array, element type unknown"
  | numericPromotion key kind => s!"{key}: number exceeds 64 bits, promoted to {kind.label}"
  | identifierCollision record key identifier =>
    s!"{record}: key {Text.quote key} renamed to {identifier} to avoid a collision"
  | duplicateKey key => s!"duplicate key {Text.quote key}, keeping the last value"

/-- Whether an event deserves attention without being asked for: the generated types then say
less, or something else, than the keys of the data suggest. -/
def isWarning : Event → Bool
  | typeConflict .. | identifierCollision .. => true
  | _ => false

end Event

/-- A result and what was reported on the way to it. -/
structure Reported (α : Type) where
  result : α
  events : List Event

namespace Reported

def report (event : Event) : Reported Unit := ⟨(), [event]⟩

instance : Monad Reported where
  pure a := ⟨a, []⟩
  bind x f :=
    let y := f x.result
    ⟨y.result, x.events ++ y.events⟩

variable {α β : Type}

@[simp] theorem result_pure (a : α) : (pure a : Reported α).result = a := rfl

@[simp] theorem events_pure (a : α) : (pure a : Reported α).events = [] := rfl

@[simp] theorem result_bind (x : Reported α) (f : α → Reported β) :
    (x >>= f).result = (f x.result).result := rfl

@[simp] theorem events_bind (x : Reported α) (f : α → Reported β) :
    (x >>= f).events = x.events ++ (f x.result).events := rfl

@[simp] theorem result_map (f : α → β) (x : Reported α) : (f <$> x).result = f x.result := rfl

@[simp] theorem events_map (f : α → β) (x : Reported α) : (f <$> x).events = x.events := by
  change x.events ++ [] = x.events
  simp

instance : LawfulMonad Reported :=
  LawfulMonad.mk' Reported
    (fun x => by cases x; simp [Functor.map])
    (fun _ _ => by simp [pure, bind])
    (fun _ _ _ => by simp [bind, List.append_assoc])

end Reported

end Exemplar

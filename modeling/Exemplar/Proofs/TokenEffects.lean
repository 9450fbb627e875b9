import Exemplar.Proofs.TokenRun

/-!
# What a token does to a document

A token opens a container if the limit allows for it, ends a value, goes on inside a container, or
is refused, and which of these it does depends on neither the limit nor on what other documents have
left open. The brackets tell how many containers are open, and a refusal speaks of the token.
-/

namespace Exemplar

namespace Token

/-- The token opens a container. -/
def opens : Token → Bool
  | leftBrace | leftBracket => true
  | _ => false

/-- How many containers are open behind a token, if so many are open before it. -/
def nesting (token : Token) (opened : Nat) : Nat :=
  match token with
  | leftBrace | leftBracket => opened + 1
  | rightBrace | rightBracket => opened - 1
  | _ => opened

theorem nesting_of_opens {token : Token} (h : token.opens) (opened : Nat) :
    token.nesting opened = opened + 1 := by
  cases token <;> first | rfl | contradiction

theorem nesting_le {token : Token} (h : ¬ token.opens) (opened : Nat) :
    token.nesting opened ≤ opened := by
  cases token with
  | leftBrace | leftBracket => exact absurd rfl h
  | rightBrace | rightBracket => exact Nat.sub_le _ _
  | _ => exact Nat.le_refl _

end Token

/-- The defect speaks of the token. -/
def Defect.Blames (token : Token) : Defect → Prop
  | unexpectedToken found _ | nonStringKey found => found = token
  | invalidNumber literal => token = .number literal
  | nestingTooDeep _ _ => token.opens
  | _ => False

namespace Building

/-- The ways in which a document takes a token. -/
inductive Effect (building : Building) (token : Token) : Prop where
  | opens (around : List Frame) (opened : Building) (hopens : token.opens)
    (hlength : around.length = building.depth) (hdepth : opened.depth = building.depth + 1)
    (hstep : ∀ limit unclosed, building.step limit unclosed token =
      enter limit unclosed around opened)
  | delivers (value : Value) (around : List Frame) (hopens : ¬ token.opens)
    (hlength : around.length = token.nesting building.depth)
    (hstep : ∀ limit unclosed, building.step limit unclosed token = deliver value around)
  | proceeds (next : Building) (hopens : ¬ token.opens)
    (hdepth : next.depth = token.nesting building.depth) (hopen : 0 < next.depth)
    (hstep : ∀ limit unclosed, building.step limit unclosed token = .pending next [])
  | refuses (defect : Defect)
    (hstep : ∀ limit unclosed, building.step limit unclosed token = .refused defect)
    (hblames : defect.Blames token)

theorem effect_of_beginValue {building : Building} {token : Token} {around : List Frame}
    (hlength : around.length = building.depth)
    (hstep : ∀ limit unclosed, building.step limit unclosed token =
      beginValue limit unclosed around token) : building.Effect token := by
  have hinside : around.length + 1 = building.depth + 1 := by rw [hlength]
  cases token with
  | leftBrace => exact .opens around (.openedObject around) rfl hlength hinside hstep
  | leftBracket => exact .opens around (.openedArray around) rfl hlength hinside hstep
  | null => exact .delivers .null around nofun hlength hstep
  | boolean b => exact .delivers (.boolean b) around nofun hlength hstep
  | string text => exact .delivers (.string text) around nofun hlength hstep
  | number literal =>
    cases hvalue : Value.ofNumberText? literal with
    | none =>
      refine .refuses (.invalidNumber literal) (fun limit unclosed => ?_) rfl
      rw [hstep, beginValue, hvalue]
    | some value =>
      refine .delivers value around nofun hlength fun limit unclosed => ?_
      rw [hstep, beginValue, hvalue]
  | rightBrace | rightBracket | colon | comma => exact .refuses _ hstep rfl

theorem effect_of_beginMember {building : Building} {token : Token}
    {members : List (String × Value)} {around : List Frame}
    (hlength : around.length + 1 = building.depth)
    (hstep : ∀ limit unclosed, building.step limit unclosed token =
      beginMember members around token) : building.Effect token := by
  cases token with
  | string key =>
    exact .proceeds (.awaitingColon members key around) nofun hlength (Nat.succ_pos _) hstep
  | _ => exact .refuses _ hstep rfl

theorem effect (building : Building) (token : Token) : building.Effect token := by
  cases building with
  | awaitingValue around => exact effect_of_beginValue rfl fun _ _ => rfl
  | openedArray around =>
    by_cases hclose : token = .rightBracket
    · subst hclose
      exact .delivers (.array []) around nofun rfl fun _ _ => rfl
    · have hstep : ∀ limit unclosed, (openedArray around).step limit unclosed token =
          beginValue limit unclosed (.array [] :: around) token := fun _ _ => by
        cases token <;> first | rfl | contradiction
      exact effect_of_beginValue rfl hstep
  | openedObject around =>
    by_cases hclose : token = .rightBrace
    · subst hclose
      exact .delivers (.object []) around nofun rfl fun _ _ => rfl
    · have hstep : ∀ limit unclosed, (openedObject around).step limit unclosed token =
          beginMember [] around token := fun _ _ => by
        cases token <;> first | rfl | contradiction
      exact effect_of_beginMember rfl hstep
  | awaitingKey members around => exact effect_of_beginMember rfl fun _ _ => rfl
  | awaitingColon members key around =>
    cases token with
    | colon =>
      exact .proceeds (.awaitingValue (.object members key :: around)) nofun rfl
        (Nat.succ_pos _) fun _ _ => rfl
    | _ => exact .refuses _ (fun _ _ => rfl) rfl
  | afterElement elements around =>
    cases token with
    | comma =>
      exact .proceeds (.awaitingValue (.array elements :: around)) nofun rfl (Nat.succ_pos _)
        fun _ _ => rfl
    | rightBracket =>
      exact .delivers (.array elements.reverse) around nofun rfl fun _ _ => rfl
    | _ => exact .refuses _ (fun _ _ => rfl) rfl
  | afterMember members around =>
    cases token with
    | comma =>
      exact .proceeds (.awaitingKey members around) nofun rfl (Nat.succ_pos _) fun _ _ => rfl
    | rightBrace => exact .delivers (.object members) around nofun rfl fun _ _ => rfl
    | _ => exact .refuses _ (fun _ _ => rfl) rfl

end Building

namespace Progress

/-- What the token leads to if it is taken; behind a complete document another one may begin. -/
def next? : Progress → Option Building
  | .pending next _ => some next
  | .complete _ _ => some (.awaitingValue [])
  | .refused _ => none

theorem exists_of_next?_eq_none {progress : Progress} (h : progress.next? = none) :
    ∃ defect, progress = .refused defect := by
  cases progress with
  | refused defect => exact ⟨defect, rfl⟩
  | _ => contradiction

end Progress

namespace Building

variable {limit unclosed : Nat} {building next : Building} {token : Token} {defect : Defect}

theorem depth_of_next?_deliver {value : Value} {around : List Frame}
    (h : (deliver value around).next? = some next) : next.depth = around.length := by
  cases around with
  | nil =>
    obtain rfl := Option.some.inj h
    rfl
  | cons frame around => cases frame <;> obtain rfl := Option.some.inj h <;> rfl

/-- The brackets tell how many containers are open. -/
theorem depth_of_next? (h : (building.step limit unclosed token).next? = some next) :
    next.depth = token.nesting building.depth := by
  cases building.effect token with
  | opens around opened hopens hlength hdepth hstep =>
    rw [hstep, enter] at h
    split at h
    · obtain rfl := Option.some.inj h
      rw [hdepth, Token.nesting_of_opens hopens]
    · contradiction
  | delivers value around hopens hlength hstep =>
    rw [hstep] at h
    rw [depth_of_next?_deliver h, hlength]
  | proceeds document hopens hdepth hopen hstep =>
    rw [hstep] at h
    obtain rfl := Option.some.inj h
    exact hdepth
  | refuses defect hstep hblames =>
    rw [hstep] at h
    contradiction

/-- A document that goes on has containers open. -/
theorem depth_pos_of_pending {events : List Event}
    (h : building.step limit unclosed token = .pending next events) : 0 < next.depth := by
  cases building.effect token with
  | opens around opened hopens hlength hdepth hstep =>
    rw [hstep, enter] at h
    split at h
    · obtain ⟨rfl, -⟩ := Progress.pending.inj h
      omega
    · contradiction
  | delivers value around hopens hlength hstep =>
    rw [hstep] at h
    rcases around with _ | ⟨frame, around⟩
    · contradiction
    · cases frame <;> obtain ⟨rfl, -⟩ := Progress.pending.inj h <;> exact Nat.succ_pos _
  | proceeds document hopens hdepth hopen hstep =>
    rw [hstep] at h
    obtain ⟨rfl, -⟩ := Progress.pending.inj h
    exact hopen
  | refuses defect hstep hblames =>
    rw [hstep] at h
    contradiction

/-- A refusal speaks of the token. -/
theorem blames_of_refused (h : building.step limit unclosed token = .refused defect) :
    defect.Blames token := by
  cases building.effect token with
  | opens around opened hopens hlength hdepth hstep =>
    rw [hstep, enter] at h
    split at h
    · contradiction
    · obtain rfl := Progress.refused.inj h
      exact hopens
  | delivers value around hopens hlength hstep =>
    rw [hstep] at h
    exact absurd h (deliver_ne_refused value around defect)
  | proceeds document hopens hdepth hopen hstep =>
    rw [hstep] at h
    contradiction
  | refuses found hstep hblames =>
    rw [hstep] at h
    obtain rfl := Progress.refused.inj h
    exact hblames

end Building

end Exemplar

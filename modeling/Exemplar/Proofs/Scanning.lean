import Exemplar.Token.Scan

/-!
# What a scan depends on

A scan looks at no more bytes than it takes, and one for the verdict. The places that it names lie
within these bytes. More bytes behind them change nothing, unless the stream broke off before the
token was decided; and a token that ends with the input ends in the same way before a line feed.
-/

namespace Exemplar.Token

theorem scanOn_of_proceed {ending : Ending} {begun next : Partial} {seen : List UInt8} {b : UInt8}
    (h : begun.step seen b = .proceed next) (bytes : List UInt8) :
    scanOn ending begun seen (b :: bytes) = scanOn ending next (b :: seen) bytes := by
  rw [scanOn, h]

/-- What fails in a scan fails at a byte, at the end of the input, or with the stream. -/
theorem fault_of_scanOn {P : Fault → Nat → Prop}
    (hstep : ∀ {begun : Partial} {seen : List UInt8} {b : UInt8} {defect : Defect} {offset : Nat}
      {taken : Bool}, begun.step seen b = .refuse defect offset taken →
        P (.defect defect offset) (seen.length + taken.toNat))
    (hend : ∀ {begun : Partial} {seen : List UInt8} {fault : Fault},
      begun.atEnd seen = .error fault → P fault seen.length)
    (hbroken : ∀ reason taken, P (.unreadable reason) taken)
    {ending : Ending} {begun : Partial} {seen bytes : List UInt8} {fault : Fault}
    (h : (scanOn ending begun seen bytes).outcome = .error fault) :
    P fault (scanOn ending begun seen bytes).taken := by
  induction bytes generalizing begun seen with
  | nil =>
    cases ending with
    | finished => exact hend h
    | broken reason =>
      obtain rfl := Except.error.inj h
      exact hbroken reason _
  | cons b bytes ih =>
    rw [scanOn] at h ⊢
    cases hverdict : begun.step seen b with
    | proceed next =>
      rw [hverdict] at h
      exact ih h
    | finish token taken =>
      rw [hverdict] at h
      contradiction
    | refuse defect offset taken =>
      rw [hverdict] at h
      obtain rfl := Except.error.inj h
      exact hstep hverdict

/-! Places -/

/-- An open escape sequence begins within the first `count` bytes of the token. -/
def Escape.Within (count : Nat) : Escape → Prop
  | .none => True
  | .opened start | .codeUnit start _ _ _ | .pairBackslash start _ | .pairLetter start _ =>
    start ≤ count

def Partial.Within (count : Nat) : Partial → Prop
  | .string _ escape => escape.Within count
  | .keyword _ _ | .number _ => True

def Step.Within (count : Nat) : Step → Prop
  | .proceed next => next.Within count
  | .finish _ _ => True
  | .refuse _ offset _ => offset ≤ count

def Fault.Within (count : Nat) : Fault → Prop
  | .defect _ offset => offset ≤ count
  | .unreadable _ => True

/-- What a scan takes, and the place that it names if it fails, lie within `count` bytes. -/
structure Scan.Within (count : Nat) (scan : Scan) : Prop where
  taken : scan.taken ≤ count
  fault : ∀ fault, scan.outcome = .error fault → fault.Within count

theorem Partial.Within.mono {begun : Partial} {m n : Nat} (hle : m ≤ n) (h : begun.Within m) :
    begun.Within n := by
  cases begun with
  | string text escape =>
    cases escape with
    | none => trivial
    | _ => exact Nat.le_trans h hle
  | _ => trivial

theorem closeString_within (text : List UInt8) (count : Nat) : (closeString text).Within count := by
  rw [closeString]
  split
  · trivial
  · exact Nat.zero_le count

theorem stringStep_within (text : List UInt8) {escape : Escape} {offset : Nat} (b : UInt8)
    (h : escape.Within offset) : (stringStep text escape offset b).Within offset := by
  cases escape with
  | none =>
    rw [stringStep]
    split
    · exact closeString_within text offset
    · split
      · exact Nat.le_refl offset
      · split
        · exact Nat.le_refl offset
        · trivial
  | opened start =>
    rw [stringStep]
    split
    · exact h
    · split
      · trivial
      · exact h
  | codeUnit start high digits value =>
    rw [stringStep]
    split
    · exact h
    · dsimp only
      split
      · exact h
      · split
        · split <;> first | exact h | trivial
        · split
          · exact h
          · split <;> first | exact h | trivial
  | pairBackslash start high | pairLetter start high =>
    rw [stringStep]
    split <;> exact h

theorem numberStep_within (part : NumberPart) (seen : List UInt8) (b : UInt8) (count : Nat) :
    (numberStep part seen b).Within count := by
  rw [numberStep]
  split
  · trivial
  · split
    · exact Nat.zero_le count
    · split
      · trivial
      · exact Nat.zero_le count

theorem keywordStep_within (missing : List UInt8) (token : Token) (offset : Nat) (b : UInt8) :
    (keywordStep missing token offset b).Within offset := by
  unfold keywordStep
  split
  · trivial
  · split
    · trivial
    · exact Nat.le_refl offset
  · split
    · trivial
    · exact Nat.le_refl offset

/-- One more byte keeps places within the bytes before it. -/
theorem Partial.step_within {begun : Partial} {seen : List UInt8} (b : UInt8)
    (h : begun.Within seen.length) : (begun.step seen b).Within seen.length := by
  cases begun with
  | keyword missing token => exact keywordStep_within missing token seen.length b
  | string text escape => exact stringStep_within text b h
  | number part => exact numberStep_within part seen b seen.length

theorem Partial.atEnd_within {begun : Partial} {seen : List UInt8}
    (h : begun.Within seen.length) {fault : Fault} (hfault : begun.atEnd seen = .error fault) :
    fault.Within seen.length := by
  cases begun with
  | keyword missing token =>
    obtain rfl := Except.error.inj hfault
    exact Nat.le_refl _
  | string text escape =>
    cases escape with
    | none =>
      obtain rfl := Except.error.inj hfault
      exact Nat.le_refl _
    | _ =>
      obtain rfl := Except.error.inj hfault
      exact h
  | number part =>
    rw [atEnd] at hfault
    split at hfault
    · contradiction
    · obtain rfl := Except.error.inj hfault
      exact Nat.zero_le _

theorem scanOn_within (ending : Ending) {begun : Partial} {seen bytes : List UInt8}
    (h : begun.Within seen.length) :
    (scanOn ending begun seen bytes).Within (seen.length + bytes.length) := by
  induction bytes generalizing begun seen with
  | nil =>
    cases ending with
    | finished => exact ⟨Nat.le_refl _, fun _ hfault => Partial.atEnd_within h hfault⟩
    | broken reason =>
      refine ⟨Nat.le_refl _, fun fault hfault => ?_⟩
      obtain rfl := Except.error.inj hfault
      trivial
  | cons b bytes ih =>
    have hstep := Partial.step_within b h
    have hbound : seen.length ≤ seen.length + (b :: bytes).length := Nat.le_add_right _ _
    have htaken (taken : Bool) :
        seen.length + taken.toNat ≤ seen.length + (b :: bytes).length := by
      have := Bool.toNat_le taken
      simp only [List.length_cons]
      omega
    rw [scanOn]
    cases hb : begun.step seen b with
    | proceed next =>
      rw [hb] at hstep
      have hlonger : next.Within (b :: seen).length := hstep.mono (Nat.le_succ seen.length)
      have hnext := ih hlonger
      have hlength : (b :: seen).length + bytes.length = seen.length + (b :: bytes).length := by
        simp only [List.length_cons]
        omega
      rwa [hlength] at hnext
    | finish token taken =>
      refine ⟨htaken taken, fun fault hfault => ?_⟩
      contradiction
    | refuse defect offset taken =>
      rw [hb] at hstep
      refine ⟨htaken taken, fun fault hfault => ?_⟩
      obtain rfl := Except.error.inj hfault
      exact Nat.le_trans hstep hbound

theorem firstStep_within (b : UInt8) (count : Nat) : (firstStep b).Within count := by
  unfold firstStep
  split
  case h_12 =>
    split
    · trivial
    · exact Nat.zero_le count
  all_goals trivial

/-- A scan stays within its bytes. -/
theorem scan_within (ending : Ending) (b : UInt8) (bytes : List UInt8) :
    (scan ending b bytes).Within (b :: bytes).length := by
  have hfirst := firstStep_within b 1
  have htaken (taken : Bool) : taken.toNat ≤ (b :: bytes).length := by
    have := Bool.toNat_le taken
    simp only [List.length_cons]
    omega
  rw [scan]
  cases hb : firstStep b with
  | proceed next =>
    rw [hb] at hfirst
    have hrest : (scanOn ending next [b] bytes).Within ([b].length + bytes.length) :=
      scanOn_within ending hfirst
    rwa [List.length_singleton, Nat.add_comm] at hrest
  | finish token taken =>
    refine ⟨htaken taken, fun fault hfault => ?_⟩
    contradiction
  | refuse defect offset taken =>
    rw [hb] at hfirst
    refine ⟨htaken taken, fun fault hfault => ?_⟩
    obtain rfl := Except.error.inj hfault
    exact Nat.le_trans hfirst (Nat.succ_le_succ (Nat.zero_le _))

/-! More bytes -/

/-- On a broken stream a token is cut short, or it is decided for good. -/
theorem scanOn_broken (reason : String) (begun : Partial) (seen bytes more : List UInt8)
    (ending : Ending) :
    (scanOn (.broken reason) begun seen bytes).outcome = .error (.unreadable reason) ∨
      scanOn ending begun seen (bytes ++ more) = scanOn (.broken reason) begun seen bytes := by
  induction bytes generalizing begun seen with
  | nil => exact Or.inl rfl
  | cons b bytes ih =>
    rw [List.cons_append, scanOn, scanOn]
    cases begun.step seen b with
    | proceed next => exact ih next (b :: seen)
    | finish token taken => exact Or.inr rfl
    | refuse defect offset taken => exact Or.inr rfl

theorem scan_broken (reason : String) (b : UInt8) (bytes more : List UInt8) (ending : Ending) :
    (scan (.broken reason) b bytes).outcome = .error (.unreadable reason) ∨
      scan ending b (bytes ++ more) = scan (.broken reason) b bytes := by
  rw [scan, scan]
  cases firstStep b with
  | proceed next => exact scanOn_broken reason next [b] bytes more ending
  | finish token taken => exact Or.inr rfl
  | refuse defect offset taken => exact Or.inr rfl

theorem Partial.atEnd_ne_unreadable (begun : Partial) (seen : List UInt8) (reason : String) :
    begun.atEnd seen ≠ .error (.unreadable reason) := by
  cases begun with
  | keyword missing token => simp [atEnd]
  | string text escape => cases escape <;> simp [atEnd]
  | number part =>
    rw [atEnd]
    split <;> simp

/-- Only a stream that breaks off cuts a token short, and it does so for its own reason. -/
theorem ending_of_scanOn {ending : Ending} {begun : Partial} {seen bytes : List UInt8}
    {reason : String} (h : (scanOn ending begun seen bytes).outcome = .error (.unreadable reason)) :
    ending = .broken reason := by
  induction bytes generalizing begun seen with
  | nil =>
    cases ending with
    | finished => exact absurd h (begun.atEnd_ne_unreadable seen reason)
    | broken =>
      obtain rfl := Fault.unreadable.inj (Except.error.inj h)
      rfl
  | cons b bytes ih =>
    rw [scanOn] at h
    cases hb : begun.step seen b with
    | proceed next =>
      rw [hb] at h
      exact ih h
    | _ =>
      rw [hb] at h
      cases h

theorem ending_of_scan {ending : Ending} {b : UInt8} {bytes : List UInt8} {reason : String}
    (h : (scan ending b bytes).outcome = .error (.unreadable reason)) :
    ending = .broken reason := by
  rw [scan] at h
  cases hb : firstStep b with
  | proceed next =>
    rw [hb] at h
    exact ending_of_scanOn h
  | _ =>
    rw [hb] at h
    cases h

/-- A line feed belongs to no number, and it ends one that is complete. -/
theorem numberStep_lineFeed {part : NumberPart} (h : part.isComplete) (seen : List UInt8) :
    numberStep part seen 10 = .finish (.number (literalText seen)) false := by
  cases part <;> first | rfl | contradiction

/-- A token at the end of an input ends in the same way where a line feed follows. -/
theorem scanOn_lineFeed {begun : Partial} {seen bytes : List UInt8} {token : Token}
    (h : (scanOn .finished begun seen bytes).outcome = .ok token) (more : List UInt8)
    (ending : Ending) :
    scanOn ending begun seen (bytes ++ 10 :: more) = scanOn .finished begun seen bytes := by
  induction bytes generalizing begun seen with
  | nil =>
    -- only a number is complete without a byte that says so
    cases begun with
    | keyword missing token => contradiction
    | string text escape => cases escape <;> contradiction
    | number part =>
      rw [scanOn, Partial.atEnd] at h
      by_cases hcomplete : part.isComplete
      · have hstep : (Partial.number part).step seen 10 = _ := numberStep_lineFeed hcomplete seen
        have hlonger : scanOn ending (.number part) seen (10 :: more) =
            ⟨.ok (.number (literalText seen)), seen.length⟩ := by
          rw [scanOn, hstep]
          rfl
        rw [List.nil_append, hlonger, scanOn, Partial.atEnd, if_pos hcomplete]
      · rw [if_neg hcomplete] at h
        contradiction
  | cons b bytes ih =>
    rw [scanOn] at h
    rw [List.cons_append, scanOn, scanOn]
    cases hb : begun.step seen b with
    | proceed next =>
      rw [hb] at h
      exact ih h
    | finish token taken => rfl
    | refuse defect offset taken => rfl

theorem scan_lineFeed {b : UInt8} {bytes : List UInt8} {token : Token}
    (h : (scan .finished b bytes).outcome = .ok token) (more : List UInt8) (ending : Ending) :
    scan ending b (bytes ++ 10 :: more) = scan .finished b bytes := by
  rw [scan] at h
  rw [scan, scan]
  cases hb : firstStep b with
  | proceed next =>
    rw [hb] at h
    exact scanOn_lineFeed h more ending
  | finish token taken => rfl
  | refuse defect offset taken => rfl

end Exemplar.Token

import Mathlib.Data.List.Nodup
import Mathlib.Data.List.Perm.Subperm
import Exemplar.Fresh

/-!
# The search for a free name ends at one

The search looks at as many numbers as there are names taken. If different numbers give different
candidates, these candidates and the next one cannot all be taken, so the search ends at a free one;
all numbers before it are taken.
-/

namespace Exemplar.Fresh

variable (taken : List String) {candidate : Nat → String}

/-- The search stops at a number; the candidates before it are taken, and so would be the one it
settles for only if it has used up its steps. -/
theorem exists_search (candidate : Nat → String) (steps start : Nat) :
    ∃ n, start ≤ n ∧ search taken candidate steps start = candidate n ∧
      (∀ k, start ≤ k → k < n → candidate k ∈ taken) ∧
      (candidate n ∈ taken → n = start + steps) := by
  induction steps generalizing start with
  | zero => exact ⟨start, Nat.le_refl _, rfl, fun k hle hlt => by omega, fun _ => rfl⟩
  | succ steps ih =>
    rw [search]
    by_cases hmem : candidate start ∈ taken
    · obtain ⟨n, hle, hsearch, hbefore, hlast⟩ := ih (start + 1)
      rw [if_pos (List.contains_iff_mem.mpr hmem)]
      refine ⟨n, by omega, hsearch, fun k hk hkn => ?_, fun hn => ?_⟩
      · by_cases heq : k = start
        · rw [heq]
          exact hmem
        · exact hbefore k (by omega) hkn
      · have := hlast hn
        omega
    · rw [if_neg (by simpa using hmem)]
      exact ⟨start, Nat.le_refl _, rfl, fun k hle hlt => by omega, fun hn => absurd hn hmem⟩

/-- Of more candidates than there are names taken, one is free. -/
theorem exists_not_mem (hinj : Function.Injective candidate) (start : Nat) :
    ∃ n, start ≤ n ∧ n ≤ start + taken.length ∧ candidate n ∉ taken := by
  by_contra hnone
  have hall : ∀ n, start ≤ n → n ≤ start + taken.length → candidate n ∈ taken := by
    intro n hle hlt
    by_contra hn
    exact hnone ⟨n, hle, hlt, hn⟩
  let candidates := (List.range' start (taken.length + 1)).map candidate
  have hnodup : candidates.Nodup := List.Nodup.map hinj List.nodup_range'
  have hsubset : candidates ⊆ taken := by
    intro name hname
    obtain ⟨n, hn, rfl⟩ := List.mem_map.mp hname
    have hrange := List.mem_range'_1.mp hn
    exact hall n hrange.1 (by omega)
  have hlength : candidates.length ≤ taken.length :=
    (List.subperm_of_subset hnodup hsubset).length_le
  have hcount : candidates.length = taken.length + 1 := by simp [candidates]
  omega

/-- The numbered name has the least number from 2 on whose name is free. -/
theorem exists_numbered (hinj : Function.Injective candidate) :
    ∃ n, 2 ≤ n ∧ numbered taken candidate = candidate n ∧ candidate n ∉ taken ∧
      ∀ k, 2 ≤ k → k < n → candidate k ∈ taken := by
  obtain ⟨n, hle, hsearch, hbefore, hlast⟩ :=
    exists_search taken candidate taken.length 2
  refine ⟨n, hle, hsearch, fun hmem => ?_, hbefore⟩
  obtain ⟨free, hfree, hbound, hnot⟩ := exists_not_mem taken hinj 2
  have hn := hlast hmem
  by_cases heq : free = n
  · exact hnot (heq ▸ hmem)
  · exact hnot (hbefore free hfree (by omega))

/-- Numerals differ, so appending them makes different names. -/
theorem append_toString_injective (base : String) :
    Function.Injective fun n : Nat => base ++ toString n := by
  intro i j h
  have hlists : (base ++ toString i).toList = (base ++ toString j).toList :=
    congrArg String.toList h
  rw [String.toList_append, String.toList_append] at hlists
  have hdigits : Nat.toDigits 10 i = Nat.toDigits 10 j := by
    have htail := List.append_cancel_left hlists
    rwa [Nat.toString_eq_ofList_toDigits, Nat.toString_eq_ofList_toDigits, String.toList_ofList,
      String.toList_ofList] at htail
  have hvalue := congrArg (fun digits => Nat.ofDigitChars 10 digits 0) hdigits
  rwa [Nat.ofDigitChars_ten_toDigits, Nat.ofDigitChars_ten_toDigits] at hvalue

theorem isDigit_of_mem_toString {n : Nat} {c : Char} (h : c ∈ (toString n).toList) :
    c.isDigit := by
  rw [Nat.toString_eq_ofList_toDigits, String.toList_ofList] at h
  exact Nat.isDigit_of_mem_toDigits (by decide) (by decide) h

theorem toList_toString_ne_nil (n : Nat) : (toString n).toList ≠ [] := by
  rw [Nat.toString_eq_ofList_toDigits, String.toList_ofList]
  exact Nat.toDigits_ne_nil

/-- A name that is taken gets the least number from 2 on whose name is free. -/
theorem name_of_mem {taken : List String} {base : String} (h : base ∈ taken) :
    ∃ n, 2 ≤ n ∧ name taken base = base ++ toString n ∧ base ++ toString n ∉ taken ∧
      ∀ k, 2 ≤ k → k < n → base ++ toString k ∈ taken := by
  rw [name, if_pos (List.contains_iff_mem.mpr h)]
  exact exists_numbered taken (append_toString_injective base)

theorem name_of_not_mem {taken : List String} {base : String} (h : base ∉ taken) :
    name taken base = base := by
  rw [name, if_neg (by simpa using h)]

/-- A name that is made unique is the name itself or has a number after it. -/
theorem name_eq (taken : List String) (base : String) :
    name taken base = base ∨ ∃ n : Nat, name taken base = base ++ toString n := by
  by_cases hmem : base ∈ taken
  · obtain ⟨n, -, hname, -, -⟩ := name_of_mem hmem
    exact Or.inr ⟨n, hname⟩
  · exact Or.inl (name_of_not_mem hmem)

theorem name_not_mem (taken : List String) (base : String) : name taken base ∉ taken := by
  by_cases hmem : base ∈ taken
  · obtain ⟨n, -, hname, hfree, -⟩ := name_of_mem hmem
    rwa [hname]
  · rwa [name_of_not_mem hmem]

theorem name_eq_self_iff {taken : List String} {base : String} :
    name taken base = base ↔ base ∉ taken := by
  refine ⟨fun h => ?_, name_of_not_mem⟩
  rw [← h]
  exact name_not_mem taken base

end Exemplar.Fresh

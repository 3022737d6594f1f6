/-!
Sets of code points, given by closed ranges in ascending order. Looking a code point up ends at the
first range that starts above it, and finds the same as a look at every range.
-/

namespace Reckoner.Character

def ascending : List (Nat × Nat) → Bool
  | [] => true
  | [(low, high)] => low ≤ high
  | (low, high) :: (low', high') :: rest =>
    low ≤ high && high < low' && ascending ((low', high') :: rest)

def within : List (Nat × Nat) → Nat → Bool
  | [], _ => false
  | (low, high) :: rest, n => low ≤ n && (n ≤ high || within rest n)

private theorem lt_of_ascending {low high : Nat} {rest : List (Nat × Nat)}
    (h : ascending ((low, high) :: rest)) : low ≤ high ∧ ∀ r ∈ rest, high < r.1 := by
  induction rest generalizing low high with
  | nil => simpa [ascending] using h
  | cons r rest ih =>
    simp only [ascending, Bool.and_eq_true, decide_eq_true_eq] at h
    obtain ⟨hle, hlt⟩ := ih h.2
    refine ⟨h.1.1, fun s hs => ?_⟩
    rcases List.mem_cons.mp hs with rfl | hs
    · exact h.1.2
    · have := hlt s hs
      omega

private theorem ascending_tail {r : Nat × Nat} {rest : List (Nat × Nat)}
    (h : ascending (r :: rest)) : ascending rest := by
  cases rest with
  | nil => rfl
  | cons s rest =>
    simp only [ascending, Bool.and_eq_true] at h
    exact h.2

theorem within_iff {ranges : List (Nat × Nat)} (h : ascending ranges) (n : Nat) :
    within ranges n = true ↔ ∃ r ∈ ranges, r.1 ≤ n ∧ n ≤ r.2 := by
  induction ranges with
  | nil => simp [within]
  | cons r rest ih =>
    obtain ⟨hle, hlt⟩ := lt_of_ascending h
    simp only [within, Bool.and_eq_true, Bool.or_eq_true, decide_eq_true_eq,
      ih (ascending_tail h), List.mem_cons, exists_eq_or_imp]
    constructor
    · rintro ⟨hlow, hhigh | hrest⟩
      · exact Or.inl ⟨hlow, hhigh⟩
      · exact Or.inr hrest
    · rintro (⟨hlow, hhigh⟩ | ⟨s, hs, hlow, hhigh⟩)
      · exact ⟨hlow, Or.inl hhigh⟩
      · have hnext := hlt s hs
        exact ⟨by omega, Or.inr ⟨s, hs, hlow, hhigh⟩⟩

end Reckoner.Character

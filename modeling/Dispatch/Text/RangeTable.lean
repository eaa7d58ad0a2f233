/-!
# Tables of code point ranges

A property of characters is stored as the ranges of code points that have it. The ranges ascend, so a
search ends at the first range beyond the code point; `contains_iff` says that nothing is missed by it.
-/

namespace Dispatch.Text

/-- Whether ranges, each from its first to its last code point, ascend from a bound without meeting. -/
def ascends : Nat → List (Nat × Nat) → Bool
  | _, [] => true
  | bound, (first, last) :: rest => bound ≤ first && first ≤ last && ascends (last + 1) rest

/-- Searches ascending ranges for a code point. -/
def inRanges (code : Nat) : List (Nat × Nat) → Bool
  | [] => false
  | (first, last) :: rest => if code < first then false else code ≤ last || inRanges code rest

theorem inRanges_of_lt {code bound : Nat} (h : code < bound) :
    ∀ {ranges : List (Nat × Nat)}, ascends bound ranges → ∀ r ∈ ranges, code < r.1 := by
  intro ranges
  induction ranges generalizing bound with
  | nil => intro _ r hr; simp at hr
  | cons head rest ih =>
    intro hasc r hr
    simp only [ascends, Bool.and_eq_true, decide_eq_true_eq] at hasc
    rcases List.mem_cons.1 hr with rfl | hr
    · exact Nat.lt_of_lt_of_le h hasc.1.1
    · exact ih (by omega) hasc.2 r hr

theorem inRanges_iff {code : Nat} {ranges : List (Nat × Nat)} {bound : Nat}
    (hasc : ascends bound ranges) :
    inRanges code ranges ↔ ∃ r ∈ ranges, r.1 ≤ code ∧ code ≤ r.2 := by
  induction ranges generalizing bound with
  | nil => simp [inRanges]
  | cons head rest ih =>
    have hrest := hasc
    simp only [ascends, Bool.and_eq_true, decide_eq_true_eq] at hrest
    by_cases h : code < head.1
    · have hfrom : ascends head.1 (head :: rest) := by simp [ascends, hrest.1.2, hrest.2]
      simp only [inRanges, h, if_true, Bool.false_eq_true, false_iff, not_exists, not_and]
      intro r hr hle
      exact absurd (inRanges_of_lt h hfrom r hr) (Nat.not_lt.2 hle)
    · simp only [inRanges, h, if_false, Bool.or_eq_true, decide_eq_true_eq, ih hrest.2,
        List.mem_cons, or_and_right, exists_or, exists_eq_left]
      exact or_congr_left ⟨fun hle => ⟨Nat.le_of_not_lt h, hle⟩, And.right⟩

/-- Ranges of code points in ascending order. -/
structure RangeTable where
  ranges : List (Nat × Nat)
  ascending : ascends 0 ranges

namespace RangeTable

/-- Whether a character has the property that a table stores. -/
def contains (table : RangeTable) (c : Char) : Bool :=
  inRanges c.toNat table.ranges

theorem contains_iff (table : RangeTable) (c : Char) :
    table.contains c ↔ ∃ r ∈ table.ranges, r.1 ≤ c.toNat ∧ c.toNat ≤ r.2 :=
  inRanges_iff table.ascending

end RangeTable

end Dispatch.Text

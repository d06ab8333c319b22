import Warden.Proofs.Actions
import Warden.Resolve

/-!
# The length of a range

A range `lo..hi` between two written numbers is an array of `int`. Its length is the number of
integers from `lo` to `hi`, both included, so none if `hi` lies below `lo` (`rangeLength`). The type
should state this length whenever it fits 64 bits.

The rule works out the distance `hi - lo` and then the length, and gives up where either does not
fit. Upwards that is right: a distance that does not fit makes a length that does not. Downwards it
is not: with `hi` more than 2⁶³ below `lo` the distance does not fit, but the range is empty like
all that go down, and its length 0 would fit. `rangeSize_eq_exactSize_iff` says that this is the
only case in which the rule goes wrong. What the rule states is right everywhere, and no step on the
way wraps around (`toInt_distance`).
-/

namespace Warden

open CheckM

namespace Check

/-- The number of integers from `lo` to `hi`, both included. -/
def rangeLength (lo hi : Int64) : Int :=
  max 0 (hi.toInt - lo.toInt + 1)

/-- The exact length, wherever it fits. -/
def exactSize (lo hi : Int64) : Option ArraySize :=
  if fitsWord (rangeLength lo hi) then some (.literal (rangeLength lo hi)) else none

theorem fitsWord_iff (n : Int) :
    fitsWord n = true ↔ Int64.minValue.toInt ≤ n ∧ n ≤ Int64.maxValue.toInt := by
  simp [fitsWord]

variable (lo hi : Int64)

theorem fitsWord_rangeLength_iff :
    fitsWord (rangeLength lo hi) = true ↔ hi.toInt - lo.toInt < Int64.maxValue.toInt := by
  have hmin := Int64.toInt_minValue
  have hmax := Int64.toInt_maxValue
  rw [fitsWord_iff, rangeLength]
  omega

/-- A length is stated if it fits and the distance does not go below all numbers of 64 bits. -/
theorem rangeSize_eq : rangeSize lo hi =
      if Int64.minValue.toInt ≤ hi.toInt - lo.toInt ∧ fitsWord (rangeLength lo hi) then
        some (.literal (rangeLength lo hi))
      else none := by
  have hfits : (fitsWord (hi.toInt - lo.toInt) && fitsWord (hi.toInt - lo.toInt + 1)) = true ↔
      Int64.minValue.toInt ≤ hi.toInt - lo.toInt ∧ fitsWord (rangeLength lo hi) = true := by
    rw [Bool.and_eq_true, fitsWord_iff, fitsWord_iff, fitsWord_rangeLength_iff]
    omega
  unfold rangeSize
  by_cases hstated :
      Int64.minValue.toInt ≤ hi.toInt - lo.toInt ∧ fitsWord (rangeLength lo hi) = true
  · rw [if_pos (hfits.mpr hstated), if_pos hstated, rangeLength, Int.max_comm]
  · rw [if_neg (mt hfits.mp hstated), if_neg hstated]

theorem rangeSize_ne_none_iff : rangeSize lo hi ≠ none ↔
      Int64.minValue.toInt ≤ hi.toInt - lo.toInt ∧ fitsWord (rangeLength lo hi) = true := by
  rw [rangeSize_eq]
  split <;> simp_all

/-- The rule states the exact length unless the range goes down too far. -/
theorem rangeSize_eq_exactSize_iff :
    rangeSize lo hi = exactSize lo hi ↔ Int64.minValue.toInt ≤ hi.toInt - lo.toInt := by
  rw [rangeSize_eq, exactSize]
  by_cases hdown : Int64.minValue.toInt ≤ hi.toInt - lo.toInt
  · simp only [hdown, true_and]
  · -- the range is empty, and its length fits
    have hfits : fitsWord (rangeLength lo hi) = true := by
      have hmin := Int64.toInt_minValue
      have hmax := Int64.toInt_maxValue
      rw [fitsWord_rangeLength_iff]
      omega
    simp only [hdown, hfits, false_and, if_false, if_true, reduceCtorEq]

/-- Where a length is stated, the arithmetic of 64 bits has come to the true distance and length. -/
theorem toInt_distance (h : rangeSize lo hi ≠ none) :
    (hi - lo).toInt = hi.toInt - lo.toInt ∧ (hi - lo + 1).toInt = hi.toInt - lo.toInt + 1 := by
  have hmin := Int64.toInt_minValue
  have hmax := Int64.toInt_maxValue
  obtain ⟨hdown, hup⟩ := (rangeSize_ne_none_iff lo hi).mp h
  rw [fitsWord_rangeLength_iff] at hup
  have hdistance : (hi - lo).toInt = hi.toInt - lo.toInt := by
    rw [Int64.toInt_sub]
    apply Int.bmod_eq_of_le <;> omega
  refine ⟨hdistance, ?_⟩
  rw [Int64.toInt_add, hdistance, Int64.toInt_one]
  apply Int.bmod_eq_of_le <;> omega

end Check

section

variable (scope : ScopeId) (i j k : NodeId) (span place place' : Span) (c : Checker)

/-- The type of a range between two written numbers. -/
theorem eval_literalRange (lo hi : Int64) :
    (Expr.check scope ⟨i, span, .range ⟨j, place, .int lo⟩ ⟨k, place', .int hi⟩⟩).eval c =
      some (.array .int (Check.rangeSize lo hi)) :=
  rfl

/-- A range between two written numbers is an array of `int`, in every scope and state. A length
that its type states is the exact one and comes about without wrapping around. It is stated just if
it fits and the distance of the bounds does not go below all numbers of 64 bits; so it is stated
wherever it fits exactly if the distance does not. -/
theorem range_length_stated (lo hi : Int64) :
    ∃ size : Option ArraySize,
      (Expr.check scope ⟨i, span, .range ⟨j, place, .int lo⟩ ⟨k, place', .int hi⟩⟩).eval c =
          some (.array .int size) ∧
        (size = some (.literal (max 0 (hi.toInt - lo.toInt + 1))) ∨ size = none) ∧
        (size ≠ none ↔ Int64.minValue.toInt ≤ hi.toInt - lo.toInt ∧
          max 0 (hi.toInt - lo.toInt + 1) ≤ Int64.maxValue.toInt) ∧
        (size = Check.exactSize lo hi ↔ Int64.minValue.toInt ≤ hi.toInt - lo.toInt) ∧
        (size ≠ none → (hi - lo).toInt = hi.toInt - lo.toInt ∧
          (hi - lo + 1).toInt = hi.toInt - lo.toInt + 1) := by
  refine ⟨Check.rangeSize lo hi, eval_literalRange scope i j k span place place' c lo hi, ?_, ?_,
    Check.rangeSize_eq_exactSize_iff lo hi, Check.toInt_distance lo hi⟩
  · rw [Check.rangeSize_eq, Check.rangeLength]
    split
    · exact .inl rfl
    · exact .inr rfl
  · have hmin := Int64.toInt_minValue
    rw [Check.rangeSize_ne_none_iff, Check.fitsWord_iff, Check.rangeLength]
    omega

end

/-- A variable `r` with the range `1..-9223372036854775808` as its value. -/
def fallingRange : Program :=
  let range : Expr := ⟨0, {}, .range ⟨1, {}, .int 1⟩ ⟨2, {}, .int Int64.minValue⟩⟩
  { modules := [{ name := "main", body := [⟨{}, .var { name := "r", value := some range }⟩] }] }

/-- The range goes down, so it is empty, and 0 fits 64 bits. But its type states no length. -/
theorem falling_range_without_length :
    Check.exactSize 1 Int64.minValue = some (.literal 0) ∧
      (fallingRange.check {}).types.get? 0 = some (.array .int none) ∧
        ((fallingRange.check {}).scopes.lookup? 1 "r").map (·.ty) = some (.array .int none) := by
  decide +kernel

end Warden

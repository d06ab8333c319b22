import Mathlib.Logic.Basic
import Warden.Ty.Verdict

/-!
# Where a comparison of types is decided

`Ty.verdict` goes down through pointers and arrays on both sides, and gives up where two stated
lengths clash. What it comes down to in the end (`Ty.meet`) decides (`Ty.verdict_eq_meet`). There,
lengths and identities of structs are not looked at, except that function types must be equal
(`Ty.verdict_meet_map`).

So lengths can only turn a match into none (`lengths_can_only_veto`), and structs go by name
wherever they are reached through pointers and arrays. Inside function types they go by identity
(`identities_matter_between_functions_only`).
-/

namespace Warden

namespace Ty

mutual

/-- The type with all lengths of arrays and all identities of structs replaced, at any depth. -/
def map (length : Option ArraySize → Option ArraySize) (number : StructId → StructId) : Ty → Ty
  | .basic name => .basic name
  | .pointer t => .pointer (t.map length number)
  | .array t size => .array (t.map length number) (length size)
  | .struct id name => .struct (number id) name
  | .function params ret => .function (mapAll length number params) (ret.map length number)

def mapAll (length : Option ArraySize → Option ArraySize) (number : StructId → StructId) :
    List Ty → List Ty
  | [] => []
  | t :: ts => t.map length number :: mapAll length number ts

end

/-- The type without the lengths of arrays. -/
def withoutLengths : Ty → Ty :=
  map (fun _ => none) id

/-- The type without the identities of structs, which are left with their names. -/
def withoutIds : Ty → Ty :=
  map id fun _ => 0

/-- Whether the type is a function type. -/
def isFunction : Ty → Bool
  | .function .. => true
  | _ => false

/-! ### Where a comparison is decided -/

/-- The types to which a comparison comes down: it goes through pointers and arrays. -/
def meet : Ty → Ty → Ty × Ty
  | .pointer x, .pointer y | .pointer x, .array y _ | .array x _, .pointer y
  | .array x _, .array y _ => meet x y
  | a, b => (a, b)

/-- Whether two stated lengths differ on the way there. -/
def clashes : Ty → Ty → Bool
  | .array x m, .array y n => sizesClash m n || clashes x y
  | .pointer x, .pointer y | .pointer x, .array y _ | .array x _, .pointer y => clashes x y
  | _, _ => false

variable (a b : Ty)

@[simp] theorem verdict_self : a.verdict a = .exact := by
  cases a <;> simp [verdict]

theorem verdict_pointer : (pointer a).verdict (pointer b) = a.verdict b := by
  by_cases h : a = b
  · simp [h]
  · simp [verdict, h]

theorem verdict_array (m n : Option ArraySize) : (array a m).verdict (array b n) =
    if sizesClash m n then .incompatible else a.verdict b := by
  by_cases h : array a m = array b n
  · obtain ⟨rfl, rfl⟩ := array.inj h
    have hself : sizesClash m m = false := by rcases m with _ | (_ | _) <;> simp [sizesClash]
    rw [verdict_self, verdict_self, hself]
    rfl
  · rw [verdict, if_neg h]

/-- A comparison fails for clashing lengths, and is decided where it comes down to otherwise. -/
theorem verdict_eq_meet :
    a.verdict b = if a.clashes b then .incompatible else (a.meet b).1.verdict (a.meet b).2 := by
  fun_induction meet a b with
  | case1 x y ih => rw [verdict_pointer, ih, clashes]
  | case2 x y _ ih | case3 x _ y ih =>
    rw [clashes, ← ih]
    simp [verdict]
  | case4 x m y n ih =>
    rw [verdict_array, ih, clashes]
    cases sizesClash m n <;> simp
  | case5 a b hpp hpa hap haa =>
    have hfree : a.clashes b = false := by
      cases a <;> cases b <;> grind [clashes]
    rw [hfree]
    rfl

variable (length : Option ArraySize → Option ArraySize) (number : StructId → StructId)

theorem meet_map : (a.map length number).meet (b.map length number) =
    ((a.meet b).1.map length number, (a.meet b).2.map length number) := by
  fun_induction meet a b with
  | case1 _ _ ih | case2 _ _ _ ih | case3 _ _ _ ih | case4 _ _ _ _ ih => exact ih
  | case5 a b hpp hpa hap haa => cases a <;> cases b <;> grind [map, meet]

theorem map_eq_char_iff : a.map length number = char ↔ a = char := by
  cases a <;> simp [map, char]

/-- Where a comparison is decided, lengths and identities matter in function types only. -/
theorem verdict_meet_map (h : ((a.meet b).1.isFunction && (a.meet b).2.isFunction) = false) :
    (a.meet b).1.verdict (a.meet b).2 =
      ((a.meet b).1.map length number).verdict ((a.meet b).2.map length number) := by
  fun_induction meet a b with
  | case1 _ _ ih | case2 _ _ _ ih | case3 _ _ _ ih | case4 _ _ _ _ ih => exact ih h
  | case5 a b hpp hpa hap haa =>
    cases a <;> cases b <;> grind [map, verdict, textVerdict, map_eq_char_iff, isFunction]

/-- If the new lengths clash as the old ones do, or never, so do the types. -/
theorem clashes_map {kept : Bool}
    (h : ∀ m n, sizesClash (length m) (length n) = (sizesClash m n && kept)) :
    (a.map length number).clashes (b.map length number) = (a.clashes b && kept) := by
  fun_induction clashes a b with
  | case1 x m y n ih => rw [map, map, clashes, h, ih, Bool.and_or_distrib_right]
  | case2 _ _ ih | case3 _ _ _ ih | case4 _ _ _ ih => exact ih
  | case5 a b haa hpp hpa hap => cases a <;> cases b <;> grind [map, clashes]

/-- Function types match if they are equal, and not otherwise. -/
theorem verdict_of_isFunction {a b : Ty} (ha : a.isFunction = true) (hb : b.isFunction = true) :
    a.verdict b = if a = b then .exact else .incompatible := by
  cases a <;> cases b <;> simp_all [isFunction, verdict]

theorem isFunction_map : (a.map length number).isFunction = a.isFunction := by
  cases a <;> rfl

end Ty

open Ty

/-- Lengths can only veto. Two types go together as they do without lengths, or they do not go
together at all. In that case two stated lengths clash, or two different function types meet. -/
theorem lengths_can_only_veto (a b : Ty) :
    a.verdict b = a.withoutLengths.verdict b.withoutLengths ∨
      a.verdict b = .incompatible ∧
        (a.clashes b = true ∨ (a.meet b).1.isFunction = true ∧ (a.meet b).2.isFunction = true ∧
          (a.meet b).1 ≠ (a.meet b).2) := by
  have hnever : ∀ m n, sizesClash none none = (sizesClash m n && false) := by simp [sizesClash]
  have hfree : a.withoutLengths.clashes b.withoutLengths = false :=
    (clashes_map a b _ _ hnever).trans (Bool.and_false _)
  rw [verdict_eq_meet a b, verdict_eq_meet a.withoutLengths, hfree]
  cases hclash : a.clashes b with
  | true => exact .inr ⟨rfl, .inl rfl⟩
  | false =>
    simp only [withoutLengths, meet_map, Bool.false_eq_true, if_false]
    by_cases hfun : (a.meet b).1.isFunction = true ∧ (a.meet b).2.isFunction = true
    · rw [verdict_of_isFunction hfun.1 hfun.2]
      by_cases heq : (a.meet b).1 = (a.meet b).2
      · exact .inl (by rw [if_pos heq, heq, verdict_self])
      · exact .inr ⟨if_neg heq, .inr ⟨hfun.1, hfun.2, heq⟩⟩
    · exact .inl (verdict_meet_map a b _ _ (by simpa using hfun))

/-- Structs are replaced by others of the same names, anywhere in two types. The types still go
together as before, unless they come down to two function types, of which one has to be equal to the
other before exactly if it is after. -/
theorem identities_matter_between_functions_only {a b a' b' : Ty}
    (ha : a.withoutIds = a'.withoutIds) (hb : b.withoutIds = b'.withoutIds) :
    a.verdict b = a'.verdict b' ↔
      (a.clashes b = false → (a.meet b).1.isFunction = true → (a.meet b).2.isFunction = true →
        ((a.meet b).1 = (a.meet b).2 ↔ (a'.meet b').1 = (a'.meet b').2)) := by
  have hsame : ∀ m n, sizesClash (id m) (id n) = (sizesClash m n && true) := by simp
  have hclash : a.clashes b = a'.clashes b' := by
    have h := congrArg₂ clashes ha hb
    simpa [withoutIds, clashes_map _ _ _ _ hsame] using h
  have hmeet := congrArg₂ meet ha hb
  simp only [withoutIds, meet_map, Prod.mk.injEq] at hmeet
  have hfun := congrArg isFunction hmeet.1
  have hfun' := congrArg isFunction hmeet.2
  rw [isFunction_map, isFunction_map] at hfun hfun'
  rw [verdict_eq_meet a b, verdict_eq_meet a' b', ← hclash]
  cases a.clashes b with
  | true => simp
  | false =>
    by_cases hboth : (a.meet b).1.isFunction = true ∧ (a.meet b).2.isFunction = true
    · obtain ⟨h, h'⟩ := hboth
      rw [verdict_of_isFunction h h', verdict_of_isFunction (hfun ▸ h) (hfun' ▸ h')]
      by_cases heq : (a.meet b).1 = (a.meet b).2 <;>
        by_cases heq' : (a'.meet b').1 = (a'.meet b').2 <;> simp [h, h', heq, heq']
    · have hverdict := verdict_meet_map a b id (fun _ => 0) (by simpa using hboth)
      rw [hmeet.1, hmeet.2, ← verdict_meet_map a' b' _ _ (by simpa [← hfun, ← hfun'] using hboth)]
        at hverdict
      simp only [hverdict, true_iff]
      exact fun _ h h' => absurd ⟨h, h'⟩ hboth

/-- Structs of one name behind pointers and arrays, and beside them two function types that stay
equal. -/
theorem points_match_whatever_their_identity :
    let points (id : StructId) : Ty := .pointer (.array (.struct id "Point") none)
    let mover (id : StructId) : Ty := .pointer (.function [points id] (.struct id "Point"))
    (points 0).verdict (points 0) = (points 3).verdict (points 7) ∧
      (mover 0).verdict (mover 0) = (mover 3).verdict (mover 3) := by
  constructor
  · exact (identities_matter_between_functions_only (by decide) (by decide)).mpr (by decide)
  · exact (identities_matter_between_functions_only (by decide) (by decide)).mpr (by decide)

/-- Two structs of one name match, and functions that take them do not. -/
theorem functions_tell_points_apart :
    let point (id : StructId) : Ty := .struct id "Point"
    let taker (id : StructId) : Ty := .function [point id] .int
    (taker 0).withoutIds = (taker 1).withoutIds ∧
      (point 0).verdict (point 1) = .exact ∧
        (taker 0).verdict (taker 0) = .exact ∧ (taker 0).verdict (taker 1) = .incompatible := by
  decide

end Warden

import Warden.Ty.Basic

/-!
# When one type may stand for another

`Ty.verdict` compares two types and answers in three values: they are the same, one converts to the
other without being asked, or they do not go together. Assignment, argument passing and comparison
ask `Ty.assignable`, which also lets `*void` stand for any pointer.

The rules, for types that are not equal:

* structs go by name;
* an enum and `int` convert into each other, and so do any two numeric types;
* `string` converts to and from a pointer to `char`;
* pointers go by their targets, arrays by their elements unless two stated lengths differ, and an
  array against a pointer by element and target.
-/

namespace Warden

/-- How two types go together. -/
inductive Verdict where
  /-- No conversion exists. -/
  | incompatible
  /-- A conversion exists. -/
  | compatible
  /-- The types are the same. -/
  | exact
  deriving DecidableEq, Repr, Inhabited

namespace Verdict

/-- Whether a value of the one type may be used as the other. -/
def isMatch : Verdict → Bool
  | .incompatible => false
  | _ => true

end Verdict

namespace Ty

/-- Whether two lengths are both stated and different. -/
def sizesClash : Option ArraySize → Option ArraySize → Bool
  | some (.literal m), some (.literal n) => m != n
  | _, _ => false

/-- The rule for two basic names: an enum and `int` convert, and so do two numeric types. -/
def basicVerdict (x y : String) : Verdict :=
  if x == y then .exact
  else if (!isBuiltin x && y == "int") || (x == "int" && !isBuiltin y) then .compatible
  else if numericNames.contains x && numericNames.contains y then .compatible
  else .incompatible

/-- The rule for a basic name against a pointer: `string` is a pointer to `char`. -/
def textVerdict (name : String) (pointee : Ty) : Verdict :=
  if name == "string" && pointee = char then .compatible else .incompatible

/-- How two types go together. -/
def verdict (a b : Ty) : Verdict :=
  if a = b then .exact
  else
    match a, b with
    | .struct _ x, .struct _ y => if x == y then .exact else .incompatible
    | .basic x, .basic y => basicVerdict x y
    | .basic s, .pointer p => textVerdict s p
    | .pointer p, .basic s => textVerdict s p
    | .pointer x, .pointer y => verdict x y
    | .array x m, .array y n => if sizesClash m n then .incompatible else verdict x y
    | .array x _, .pointer y => verdict x y
    | .pointer x, .array y _ => verdict x y
    | _, _ => .incompatible
termination_by structural a

/-- The type `*void` of what `alloc` returns. -/
def voidPointer : Ty := .pointer void

/-- Whether a value of type `found` may be put where `expected` is wanted: the types match, or both
are pointers and one of them is `*void`, so that the result of `alloc` needs no cast. -/
def assignable (expected found : Ty) : Bool :=
  (verdict expected found).isMatch ||
    (expected.isPointer && found.isPointer && (expected = voidPointer || found = voidPointer))

end Ty

end Warden

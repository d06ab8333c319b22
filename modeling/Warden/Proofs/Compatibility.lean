import Warden.Proofs.Typing

/-!
# Compatibility does not depend on the order

`Ty.verdict` compares types from the left: it descends into the first type, and for a basic name
against a pointer, or a pointer against an array, it has one rule for either order. The rules mirror
each other, so the verdict is symmetric (`Ty.verdict_comm`), and so is `Ty.assignable`, whose rule
for `*void` looks at both sides.

A comparison is a question to `Ty.assignable` about the types of its operands. Each operand has the
type that it would have on its own (`eval_check_of_observes`), so exchanging the operands changes
nothing about the type of the comparison (`eval_comparison`).
-/

namespace Warden

open CheckM Check

namespace Ty

theorem sizesClash_comm (m n : Option ArraySize) : sizesClash m n = sizesClash n m := by
  rcases m with _ | (m | _) <;> rcases n with _ | (n | _) <;> try rfl
  exact bne_comm

theorem basicVerdict_comm (x y : String) : basicVerdict x y = basicVerdict y x := by
  have hbridge : ((!isBuiltin x && y == "int") || (x == "int" && !isBuiltin y)) =
      ((!isBuiltin y && x == "int") || (y == "int" && !isBuiltin x)) := by
    rw [Bool.or_comm, Bool.and_comm, Bool.and_comm (!isBuiltin x)]
  rw [basicVerdict, basicVerdict, Bool.beq_comm, hbridge, Bool.and_comm (numericNames.contains x)]

theorem verdict_comm : (a b : Ty) → a.verdict b = b.verdict a
  | .basic x, .basic y => by
    simp only [verdict, basic.injEq, eq_comm, basicVerdict_comm]
  | .pointer x, .pointer y => by
    simp only [verdict, pointer.injEq, eq_comm, verdict_comm x y]
  | .array x m, .array y n => by
    simp only [verdict, array.injEq, eq_comm, sizesClash_comm m n, verdict_comm x y]
  | .struct i x, .struct j y => by
    simp only [verdict, struct.injEq, eq_comm, Bool.beq_comm]
  | .function ps r, .function qs s => by
    simp only [verdict, eq_comm]
  | .pointer x, .array y n => by
    simp only [verdict, reduceCtorEq, if_false, verdict_comm x y]
  | .array x m, .pointer y => by
    simp only [verdict, reduceCtorEq, if_false, verdict_comm x y]
  | .basic _, .pointer _ | .pointer _, .basic _ => rfl
  | .basic _, .array .. | .basic _, .struct .. | .basic _, .function .. | .pointer _, .struct ..
  | .pointer _, .function .. | .array .., .basic _ | .array .., .struct ..
  | .array .., .function .. | .struct .., .basic _ | .struct .., .pointer _
  | .struct .., .array .. | .struct .., .function .. | .function .., .basic _
  | .function .., .pointer _ | .function .., .array .. | .function .., .struct .. => rfl

theorem assignable_comm (a b : Ty) : a.assignable b = b.assignable a := by
  rw [assignable, assignable, verdict_comm, Bool.and_comm a.isPointer,
    Bool.or_comm (a = voidPointer)]

end Ty

/-! ### Comparisons -/

section

variable {op : BinaryOp} (hop : op.family = .comparison) (scope : ScopeId) (id : NodeId)
  (span : Span) (lhs rhs : Expr) (c : Checker)

include hop

/-- A comparison has a type exactly if its operands, each typed on its own, go together. -/
theorem eval_comparison : (Expr.check scope ⟨id, span, .binary op lhs rhs⟩).eval c =
      ((lhs.check scope).eval c).bind fun a => ((rhs.check scope).eval c).bind fun b =>
        if a.assignable b then some .bool else none := by
  have hrhs := eval_check_of_observes (rule_expr scope lhs).observes scope rhs c
  rw [Expr.check, eval_bind, eval_recorded, ExprKind.check, eval_bind, eval_bind, hrhs]
  generalize (rhs.check scope).exec ((lhs.check scope).exec c) = d
  cases (lhs.check scope).eval c with
  | none => rfl
  | some a =>
    cases (rhs.check scope).eval c with
    | none => rfl
    | some b =>
      simp only [Check.binary, BinaryOp.resultType, hop, Option.bind_some]
      split <;> rfl

theorem eval_comparison_comm : (Expr.check scope ⟨id, span, .binary op lhs rhs⟩).eval c =
      (Expr.check scope ⟨id, span, .binary op rhs lhs⟩).eval c := by
  rw [eval_comparison hop, eval_comparison hop, Option.bind_comm]
  simp only [Ty.assignable_comm]

end

/-- Two types go together in either order, with the same verdict. So a comparison has a type in one
order of its operands exactly if it has one in the other, in every scope and every state. -/
theorem compatibility_symmetric :
    (∀ a b : Ty, a.verdict b = b.verdict a) ∧
      (∀ a b : Ty, a.assignable b = b.assignable a) ∧
        ∀ (op : BinaryOp) (scope : ScopeId) (id : NodeId) (span : Span) (lhs rhs : Expr)
          (c : Checker), op.family = .comparison →
            (Expr.check scope ⟨id, span, .binary op lhs rhs⟩).eval c =
              (Expr.check scope ⟨id, span, .binary op rhs lhs⟩).eval c := by
  refine ⟨Ty.verdict_comm, Ty.assignable_comm, ?_⟩
  intro op scope id span lhs rhs c hop
  exact eval_comparison_comm hop scope id span lhs rhs c

/-- An array `[1]` against a pointer `0 as *int`. -/
theorem array_equals_pointer_either_way :
    let array : Expr := ⟨1, default, .arrayLit [⟨2, default, .int 1⟩]⟩
    let pointer : Expr :=
      ⟨3, default, .cast (.pointer default (.named default none "int")) ⟨4, default, .int 0⟩⟩
    (Expr.check 0 ⟨0, default, .binary .eq array pointer⟩).eval {} = some .bool ∧
      (Expr.check 0 ⟨0, default, .binary .eq pointer array⟩).eval {} = some .bool := by
  intro array pointer
  have hleft : (Expr.check 0 ⟨0, default, .binary .eq array pointer⟩).eval {} = some .bool := by
    decide +kernel
  have hcomm := compatibility_symmetric.2.2 .eq 0 0 default array pointer {} rfl
  exact ⟨hleft, hcomm.symm.trans hleft⟩

end Warden

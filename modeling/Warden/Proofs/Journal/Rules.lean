import Warden.Proofs.Visits.Declarations

/-!
# Rules that look at one place

All that a rule visits is visited in the walk in which the rule starts. So a call of `free` that it
puts off waits for the scope of the `defer` around the rule (`Visit.target_of_putOffTo`). `Ruled`
collects what is known about a rule with its visits.
-/

namespace Warden

open CheckM Check Trace

variable {f : DeferredFree} {i : ScopeId}

/-- From the first state to the second, a rule in a scope has visited these parts. -/
structure Ruled (scope : ScopeId) (visits : List Visit) (c d : Checker) : Prop where
  plain : Plain c d
  explains : Explains scope visits [] c d
  inWalk : ∀ v ∈ visits, v.state.walk = c.walk

theorem Check.target_of_freeEffect {target : Option ScopeId} {span : Span} {name : Option String}
    (h : (freeEffect target span name).putOffTo i = some f) : target = some i := by
  unfold freeEffect at h
  split at h
  · cases h
  · cases h
  · obtain ⟨put, hput, -⟩ := Option.map_eq_some_iff.mp h
    obtain ⟨heq, hi⟩ := Option.filter_eq_some_iff.mp hput
    cases heq
    exact congrArg some (beq_iff_eq.mp hi)

/-- What is put off waits for the scope of the `defer` around the call. -/
theorem Visit.target_of_putOffTo {v : Visit} (h : v.putOffTo i = some f) :
    v.state.walk.deferTarget = some i := by
  unfold Visit.putOffTo Visit.effect? at h
  split at h
  next role id span callee args hpart =>
    rw [Option.bind_some, callEffect, eval_get_bind] at h
    cases hform : callForm v.state callee v.scope with
    | free =>
      have hwalk : ((callParts callee args v.scope).exec v.state).walk = v.state.walk :=
        ((rule_exprs v.scope args).observes.quiet _).walk.trans
          ((rule_expr v.scope callee).observes.quiet _).walk
      simp only [hform, eval_bind, eval_get, eval_pure] at h
      rw [← hwalk]
      exact Check.target_of_freeEffect h
    | _ => simp [hform, CallEffect.putOffTo] at h
  · cases h

end Warden

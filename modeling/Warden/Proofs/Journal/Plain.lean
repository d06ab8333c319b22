import Warden.Proofs.Emitted

/-!
# Checks that stay in one place

Expressions, written types and declarations are checked where they stand: no scope is entered or
left, the walk stays as it is, and no jump is found to have nothing to leave. `Plain` says what is
the same before and after.
-/

namespace Warden

open CheckM Check ScopeTree

/-- Whether the finding is that a jump has nothing to leave. -/
def Finding.isJump (f : Finding) : Bool :=
  f.cause.isJump

theorem Finding.isJump_eq (f : Finding) : f.isJump = (f.tag == .invalidControlFlow) :=
  f.cause.isJump_eq

/-- The findings that a jump has nothing to leave. -/
def Checker.jumps (c : Checker) : List Finding :=
  c.context.findings.filter (·.isJump)

/-- From the first state to the second, no scope has been added, the walk has stayed where it was in
the same file, and no jump has been found to have nothing to leave. -/
structure Plain (c d : Checker) : Prop where
  size : d.scopes.size = c.scopes.size
  outline : ∀ i, (d.scopes.scope i).outline = (c.scopes.scope i).outline
  walk : d.walk = c.walk
  place : { d.context with findings := [] } = { c.context with findings := [] }
  jumps : d.jumps = c.jumps

theorem Finding.isJump_of_isMemory {f : Finding} (h : f.isMemory = true) : f.isJump = false := by
  by_contra hjump
  have htyping := Cause.isTyping_of_isJump (Bool.not_eq_false _ ▸ hjump)
  have hmemory := Cause.isMemory_tag_of_isTyping htyping
  rw [Finding.isMemory, Finding.tag, hmemory] at h
  cases h

theorem Scope.outline_withoutMemory (s : Scope) : s.withoutMemory.outline = s.outline := by
  cases hledger : s.ledger <;> simp [Scope.outline, Scope.withoutMemory, hledger]

namespace Plain

variable {c d e : Checker}

theorem refl (c : Checker) : Plain c c :=
  ⟨rfl, fun _ => rfl, rfl, rfl, rfl⟩

theorem trans (h : Plain c d) (h' : Plain d e) : Plain c e :=
  ⟨h'.size.trans h.size, fun i => (h'.outline i).trans (h.outline i), h'.walk.trans h.walk,
    h'.place.trans h.place, h'.jumps.trans h.jumps⟩

theorem report {cause : Cause} (hcause : cause.isJump = false) (span : Span) (c : Checker) :
    Plain c (c.report cause span) := by
  refine ⟨rfl, fun _ => rfl, rfl, rfl, ?_⟩
  simp [Checker.jumps, Checker.report, Context.report, Finding.isJump, hcause]

theorem memory {f : Checker → Checker} (hf : MemoryOp f) (c : Checker) : Plain c (f c) := by
  have hstep := hf.step c
  have hscope : ∀ i, ((f c).scopes.scope i).withoutMemory = (c.scopes.scope i).withoutMemory := by
    intro i
    rw [← scope_withoutMemory, hstep.scopes, scope_withoutMemory]
  refine ⟨?_, fun i => ?_, hstep.walk, ?_, ?_⟩
  · rw [← size_withoutMemory, hstep.scopes, size_withoutMemory]
  · rw [← Scope.outline_withoutMemory, hscope, Scope.outline_withoutMemory]
  · exact congrArg (fun c : Checker => { c.context with findings := [] }) hstep.withoutMemory
  · obtain ⟨new, hnew, hmem⟩ := hstep.findings
    have hnone : new.filter (·.isJump) = [] :=
      List.filter_eq_nil_iff.mpr fun f hf => by simp [Finding.isJump_of_isMemory (hmem f hf)]
    rw [Checker.jumps, hnew, List.filter_append, hnone, List.append_nil, Checker.jumps]

/-- At the end of a body its scope is left and leaks are reported. -/
theorem leaveBody (scope : ScopeId) (c : Checker) :
    Plain c ((c.leaveScope scope).reportLeaks scope) :=
  (memory (.leaveScope scope) c).trans (memory (.reportLeaks scope) _)

theorem insert {id : ScopeId} {symbol : Symbol} {scopes : ScopeTree}
    (h : c.scopes.insert? id symbol = some scopes) : Plain c { c with scopes } := by
  obtain ⟨-, rfl⟩ := eq_of_insert? h
  exact ⟨c.scopes.size_modify id _, c.scopes.field_modify id Scope.outline fun _ => rfl, rfl, rfl,
    rfl⟩

/-- What is filed does not depend on what was found before. -/
theorem filed (h : Plain c d) : d.context.filed = c.context.filed := by
  have hpath := congrArg Context.filePath h.place
  have hsource := congrArg Context.source h.place
  funext span cause?
  simp only [Context.filed, Context.lineText?] at *
  rw [hpath, hsource]

end Plain

end Warden

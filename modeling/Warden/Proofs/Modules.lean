import Warden.Proofs.Frame

/-!
# What the check of a module leaves alone

A module is checked in its own scope, with the global scope around it (`moduleStack`). All scopes
that were there before stay as they are, except the module's own (`ModuleFrame.scope_eq`), which
keeps its place in the tree. The check can then go on in any of them.
-/

namespace Warden

variable {scope : ScopeId} {c : Checker}

/-- The scopes that are entered while the module of a scope is checked. -/
abbrev moduleStack (scope : ScopeId) : List Level :=
  [⟨scope, true⟩, ⟨0, false⟩]

/-- The statements of a module that are checked. -/
def Module.statements (m : Module) : List Stmt :=
  m.body.filter (!·.isImport)

theorem Module.mem_nodes_of_mem_statements {m : Module} {id : NodeId}
    (h : id ∈ stmtNodes m.statements) : id ∈ m.nodes := by
  obtain ⟨s, hs, hid⟩ := mem_stmtNodes.mp h
  exact mem_stmtNodes.mpr ⟨s, (List.mem_filter.mp hs).1, hid⟩

namespace Checker

/-- The state in which the statements of a module begin. -/
def entered (c : Checker) (m : Module) : Checker :=
  { c with context := c.context.enter m }

/-- The state in which the statements of a module have been checked and its scope is left. -/
def leftModule (c : Checker) (m : Module) (scope : ScopeId) : Checker :=
  ((checkStmts scope m.statements).exec (c.entered m)).leaveScope scope

end Checker

theorem Module.exec_check (m : Module) (scope : ScopeId) (c : Checker) :
    (m.check scope).exec c = (c.leftModule m scope).reportLeaks scope := rfl

/-- What is kept by a check is kept by the statements of a module. -/
theorem StackInvariant.leftModule {declared node : Nat → Prop} {I P : List Level → Checker → Prop}
    (hI : Unconditional I) (hP : StackInvariant declared node I P) {m : Module}
    (hnodes : ∀ id ∈ m.nodes, node id) (hi : I (moduleStack scope) (c.entered m))
    (hp : P (moduleStack scope) (c.entered m)) :
    I (moduleStack scope) (c.leftModule m scope) ∧ P (moduleStack scope) (c.leftModule m scope) ∧
      (c.leftModule m scope).walk = c.walk := by
  have hstmts : ∀ id ∈ stmtNodes m.statements, node id :=
    fun id hid => hnodes id (Module.mem_nodes_of_mem_statements hid)
  obtain ⟨hi', hp', hwalk⟩ := stmts (l := ⟨scope, true⟩) hI hP hstmts hi hp
  obtain ⟨hi'', hp''⟩ := leaveScope hI hP hi' hp'
  exact ⟨hi'', hp'', ((MemoryOp.leaveScope scope).step _).walk.trans hwalk⟩

/-- How the state after the check of a module stands to the state before. -/
structure ModuleFrame (m : Module) (scope : ScopeId) (c d : Checker) : Prop where
  nested : Nested (moduleStack scope) d
  framed : Framed ⟨scope, true⟩ [⟨0, false⟩] c (moduleStack scope) d
  grown : Grown (· ∈ m.nodes) (c.entered m) d
  walk : d.walk = c.walk

/-- The check of a module keeps its frame. -/
theorem Module.frame_check (m : Module) (h : Nested (moduleStack scope) c) :
    ModuleFrame m scope c ((m.check scope).exec c) := by
  have hentered : Nested (moduleStack scope) (c.entered m) :=
    h.congr rfl (fun _ => rfl) (fun _ => rfl) rfl
  have hframed : Framed ⟨scope, true⟩ [⟨0, false⟩] c (moduleStack scope) (c.entered m) := by
    refine (Framed.refl _ _ fun t ht => ?_).congr rfl rfl
    simpa using (h.target t ht).1
  obtain ⟨hnested, hframed, hwalk⟩ :=
    nested_unconditional.leftModule (framed_invariant h) (fun _ _ => trivial) hentered hframed
  obtain ⟨-, hgrown, -⟩ := nested_unconditional.leftModule
    (Grown.invariant (· ∈ m.nodes) (c.entered m) Nested) (fun _ hid => hid) hentered (.refl _ _)
  have hstep := (MemoryOp.reportLeaks scope).step (c.leftModule m scope)
  rw [Module.exec_check]
  have hnested' := hnested.memory (.reportLeaks scope)
  have hgrown' := hgrown.memory (.reportLeaks scope)
  exact ⟨hnested', hframed.congr (Checker.scopes_reportLeaks ..)
    (congrArg Walk.deferTarget hstep.walk), hgrown', hstep.walk.trans hwalk⟩

namespace ModuleFrame

variable {m : Module} {scope : ScopeId} {c d : Checker}

/-- All scopes but the module's own stay as they are. -/
theorem scope_eq (h : ModuleFrame m scope c d) (hc : Nested (moduleStack scope) c) {i : ScopeId}
    (hi : i < c.scopes.size) (hne : i ≠ scope) : d.scopes.scope i = c.scopes.scope i := by
  refine Scope.eq_of_contents (h.framed.contents i hi hne) ?_
  by_cases hzero : i = 0
  · -- the global scope is entered, but it owns no ledger
    subst hzero
    have hnone : (c.scopes.scope 0).ledger.isSome = false := hc.owner ⟨0, false⟩ (by simp)
    have hnone' : (d.scopes.scope 0).ledger.isSome = false := h.nested.owner ⟨0, false⟩ (by simp)
    rw [Option.isSome_eq_false_iff, Option.isNone_iff_eq_none] at hnone hnone'
    rw [hnone, hnone']
  · exact h.framed.ledger i hi (by simp [hne, hzero])

/-- A scope that could be entered before can be entered after. -/
theorem nested_of (h : ModuleFrame m scope c d) {other : ScopeId}
    (hother : Nested (moduleStack other) c) : Nested (moduleStack other) d := by
  have harena := h.nested.arena
  have hparent : ∀ i < c.scopes.size, (d.scopes.scope i).parent = (c.scopes.scope i).parent := by
    intro i hi
    exact congrArg (·.parent) (h.framed.outline i hi)
  refine ⟨harena, ⟨_, _, rfl, hother.scope_ne_zero, ?_⟩, fun l hl => ?_, fun l hl => ?_,
    fun t ht => hother.target t (h.walk ▸ ht)⟩
  · rw [hother.arena.ancestors_eq_of_lt harena hparent hother.scope_lt]
    exact hother.ancestors
  · exact Nat.lt_of_lt_of_le (hother.bound l hl) h.framed.size
  · rw [Scope.isSome_ledger_of_outline (h.framed.outline _ (hother.bound l hl))]
    exact hother.owner l hl

end ModuleFrame

end Warden

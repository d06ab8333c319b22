import Warden.Proofs.Observing

/-!
# The type of an expression in a state

The type that an expression gets depends on few parts of the state: on what is declared, on the
structs, on where the walk is and on the module at hand. It does not depend on ledgers and queues,
on what has been found, nor on the types that have been recorded. States `Agree` if they have these
parts in common.

The rules ask the table of types in one place only, where an assignment looks for the struct whose
method gave its value. What they find there decides about a ledger and not about a type, so
agreement is kept in step by every rule (`Agree.lockstep`). The check of an expression gives equal
types in agreeing states and leaves agreeing states (`Agree.expr`); and since it declares nothing,
the state that it leaves agrees with the one it found. What comes before an expression has therefore
no say in its type (`eval_check_of_observes`).
-/

namespace Warden

open CheckM Check

variable {f : Checker → Checker} {node : NodeId → Prop}

/-- The states have all in common that the type of an expression depends on. -/
structure Agree (c d : Checker) : Prop where
  scopes : c.scopes.withoutMemory = d.scopes.withoutMemory
  structs : c.structs = d.structs
  walk : c.walk = d.walk
  moduleName : c.context.moduleName = d.context.moduleName

namespace Agree

variable {c d e : Checker}

theorem refl (c : Checker) : Agree c c :=
  ⟨rfl, rfl, rfl, rfl⟩

theorem symm (h : Agree c d) : Agree d c :=
  ⟨h.scopes.symm, h.structs.symm, h.walk.symm, h.moduleName.symm⟩

theorem trans (h : Agree c d) (h' : Agree d e) : Agree c e :=
  ⟨h.scopes.trans h'.scopes, h.structs.trans h'.structs, h.walk.trans h'.walk,
    h.moduleName.trans h'.moduleName⟩

/-- With the same table of types, the states look the same to the rules. -/
theorem sameView (h : Agree c d) : SameView c { d with types := c.types } :=
  ⟨h.scopes, h.structs, rfl, h.walk, h.moduleName⟩

theorem ofMemory (hf : MemoryOp f) (c : Checker) : Agree (f c) c := by
  have hstep := hf.step c
  have hname : (f c).context.moduleName = c.context.moduleName :=
    congrArg (·.context.moduleName) hstep.withoutMemory
  exact ⟨hstep.scopes, hstep.structs, hstep.walk, hname⟩

/-- The analysis of memory may do one thing in one state and another in the other. -/
theorem memory {g : Checker → Checker} (hf : MemoryOp f) (hg : MemoryOp g) (h : Agree c d) :
    Agree (f c) (g d) :=
  ((ofMemory hf c).trans h).trans (ofMemory hg d).symm

theorem invariant (node : NodeId → Prop) (c : Checker) : ExprInvariant node (Agree c) where
  report _ _ h := ⟨h.scopes, h.structs, h.walk, h.moduleName⟩
  record _ _ h := ⟨h.scopes, h.structs, h.walk, h.moduleName⟩
  memory hf h := h.trans (ofMemory hf _).symm

/-- What only reports, records types and follows the memory leaves an agreeing state. -/
theorem ofObserves {α : Type} {m : CheckM α} (hm : Observes node m) (c : Checker) :
    Agree (m.exec c) c :=
  (hm _ (invariant node c) c (refl c)).symm

/-- Agreement is kept in step, whatever types have been recorded on the two sides. -/
theorem lockstep (scope : ScopeId) :
    ExprLockstep (.same (fun _ => True) fun _ => True) scope scope Agree where
  view {c d} h := by
    have hview := h.sameView.view (fun _ => True) (fun _ => True) scope
    exact ⟨hview.lookup?, hview.imported, hview.qualifiedLookup, hview.enumMembers?,
      hview.symbol?, hview.isModule, hview.moduleAt, hview.struct, hview.frame, hview.loopDepth,
      hview.deferTarget⟩
  report _ _ _ h := ⟨h.scopes, h.structs, h.walk, h.moduleName⟩
  record _ _ h := ⟨h.scopes, h.structs, h.walk, h.moduleName⟩
  allocate _ _ h := h.memory (.allocate ..) (.allocate ..)
  rename _ _ h := h.memory (.rename ..) (.rename ..)
  release _ _ _ h := h.memory (.release ..) (.release ..)
  checkUse _ _ h := h.memory (.checkUse ..) (.checkUse ..)
  deferFree _ _ _ _ h := h.memory (.deferFree ..) (.deferFree ..)
  bindResult := by
    intro name value sharesPointer span _ c d h
    -- the sides may differ in what they do to the ledgers, and in nothing else
    have hbind (owns : Bool) := ofObserves (rule_bindValue scope name value owns sharesPointer
      span).observes
    exact ⟨trivial, ((hbind _ c).trans h).trans (hbind _ d).symm, (hbind _ c).walk,
      (hbind _ d).walk⟩

section

variable (scope : ScopeId)

theorem expr (e : Expr) : Respects Agree (e.check scope) :=
  ((lockstep scope).inStep_expr e fun _ _ => trivial).respects
    fun _ _ => Ty.Alike.eq_of_same_option

theorem fields (literal : List (String × Expr)) : Respects Agree (checkFields scope literal) :=
  ((lockstep scope).inStep_fields literal fun _ _ => trivial).respects
    fun _ _ h => List.forall₂_eq_eq_eq ▸ h.imp fun _ _ => Ty.Alike.eq_of_same_option

theorem structLiteral (symbol : Option Symbol) (name : String) (literal : List (String × Expr))
    (tys : List (Option Ty)) (span : Span) :
    Respects Agree (Check.structLiteral symbol name literal tys span scope) :=
  ((lockstep scope).inStep_structLiteral (.refl (Pairing.same_symbol _ _) symbol) name literal
    (sameOptions tys) span).respects fun _ _ => Ty.Alike.eq_of_same_option

end

end Agree

/-- What has been checked before an expression has no say in its type. -/
theorem eval_check_of_observes {α : Type} {m : CheckM α} (hm : Observes node m) (scope : ScopeId)
    (e : Expr) (c : Checker) : (e.check scope).eval (m.exec c) = (e.check scope).eval c :=
  (Agree.expr scope e _ _ (Agree.ofObserves hm c)).1

end Warden

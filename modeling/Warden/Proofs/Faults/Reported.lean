import Warden.Proofs.Moves

/-!
# Failure is reported, and only failure

In every state that a check can come to, an expression has no type if and only if a fault is found
while it is checked, and a statement is faulty if and only if one is found (`failure_iff_reported`).
So no rule gives up in silence, and none reports a fault and goes on as if nothing had happened.

The states are those from which a program is resolved or a statement or expression checked, and also
those in between, where a check has done a part of its work (`Checker.Step`).
-/

namespace Warden

open CheckM ScopeTree

namespace Checker

/-- What a check does between its parts. A symbol that is declared, a type that is recorded and the
functions around have types that are known by then. -/
inductive Step : Checker → Checker → Prop where
  | enter {c} (m : Module) : Step c { c with context := c.context.enter m }
  | report {c} (cause : Cause) (span : Span) : Step c (c.report cause span)
  | resolve {c} (ty : TypeExpr) (scope : ScopeId) : Step c ((ty.resolve scope).exec c)
  | record {c ty} (id : NodeId) : ty.KnownIn c.structs → Step c (c.record id ty)
  | memory {c f} : MemoryOp f → Step c (f c)
  | addModule {c name scopes} : c.scopes.addModule? name = some scopes → Step c { c with scopes }
  | addImport {c id module localName scopes} :
      c.scopes.addImport? id module localName = some scopes → Step c { c with scopes }
  | addBlock {c} (parent : ScopeId) (name : String) :
      Step c { c with scopes := c.scopes.addBlock parent name }
  | addFunction {c} (parent : ScopeId) (name : String) :
      Step c { c with scopes := c.scopes.addFunction parent name }
  | declare {c symbol} (scope : ScopeId) (span : Span) : symbol.WellTyped c.structs →
      Step c ((CheckM.declare scope symbol span).exec c)
  | setWalk {c walk} : (∀ f ∈ walk.frames, f.returnType.KnownIn c.structs) → Step c { c with walk }
  | reserve {c} (name module : String) (isPublic : Bool) :
      Step c { c with structs := c.structs.reserve name module isPublic }
  | finalize {c draft} : DraftWellTyped c.structs draft →
      Step c ((Check.finalizeStruct draft).exec c)

/-- The states that a check can come to. -/
inductive Reachable : Checker → Prop where
  | start (config : Config) : Reachable (ofConfig config)
  | resolve {c} (p : Program) : Reachable c → Reachable (c.resolve p).checker
  | stmt {c} (s : Stmt) (scope : ScopeId) : Reachable c → Reachable ((s.check scope).exec c)
  | expr {c} (e : Expr) (scope : ScopeId) : Reachable c → Reachable ((e.check scope).exec c)
  | step {c d} : Step c d → Reachable c → Reachable d

theorem Step.wellTyped {c d : Checker} (hstep : Step c d) (h : c.WellTyped) : d.WellTyped := by
  cases hstep with
  | enter m => exact h.setContext _
  | report cause span => exact h.setContext _
  | resolve ty scope => exact (typed_resolve scope ty h).account.wellTyped
  | record id hty => exact h.record id hty
  | memory hf => exact h.memory (hf.step c)
  | addModule hscopes => exact h.setScopes fun _ => declares_addModule? hscopes
  | addImport hscopes => exact h.setScopes fun _ => declares_addImport? hscopes
  | addBlock parent name => exact h.setScopes fun _ => declares_addScope
  | addFunction parent name => exact h.setScopes fun _ => declares_addScope
  | declare scope span hsymbol =>
    exact (account_declare span scope (.refl h) _ hsymbol).wellTyped
  | setWalk hwalk => exact h.setWalk hwalk
  | reserve name module isPublic => exact h.reserve name module isPublic
  | finalize hdraft => exact (account_finalizeStruct (.refl h) hdraft).wellTyped

/-- Being well typed survives the passes over a program. -/
theorem WellTyped.moduleInvariant : Resolver.ModuleInvariant WellTyped where
  enter _ h := h.setContext _
  report _ _ h := h.setContext _
  addModule h hscopes := h.setScopes fun _ => declares_addModule? hscopes
  addImport h hscopes := h.setScopes fun _ => declares_addImport? hscopes
  check m scope hscope h := ((Moves.moduleInvariant h).check m scope hscope (.refl _)).wellTyped h

/-- All types in a state that a check can come to are known. -/
theorem Reachable.wellTyped {c : Checker} (h : c.Reachable) : c.WellTyped := by
  induction h with
  | start config => exact .ofConfig config
  | resolve p _ ih => exact resolve_invariant WellTyped.moduleInvariant ih p
  | stmt s scope _ ih => exact (passes_stmt scope s ih).account.wellTyped
  | expr e scope _ ih => exact (typed_expr scope e ih).account.wellTyped
  | step hstep _ ih => exact hstep.wellTyped ih

end Checker

/-- Started in a state, the action puts new findings behind the old ones, and has failed exactly if
there is a fault among the new ones. -/
def ReportsFailure {α : Type} (c : Checker) (m : CheckM α) (failed : α → Prop) : Prop :=
  ∃ new, (m.exec c).context.findings = c.context.findings ++ new ∧
    (failed (m.eval c) ↔ ∃ f ∈ new, f.isFault = true)

/-- **Failure is reported, and only failure.** An expression comes out without a type, and a
statement faulty, exactly if an error other than a double free or a use after free has been found in
it. -/
theorem failure_iff_reported {c : Checker} (h : c.Reachable) (scope : ScopeId) :
    (∀ e : Expr, ReportsFailure c (e.check scope) (· = none)) ∧
      ∀ s : Stmt, ReportsFailure c (s.check scope) (· = false) := by
  constructor
  · intro e
    exact (typed_expr scope e h.wellTyped).account.findings
  · intro s
    exact (passes_stmt scope s h.wellTyped).account.findings

/-- In a module a name that nobody has declared has no type. -/
theorem failure_iff_reported_undeclared :
    let c := ((Checker.ofConfig {}).resolve { modules := [{ name := "main", body := [] }] }).checker
    c.Reachable ∧ (c.scopes.scope 1).isModule = true ∧
      ((⟨0, {}, .ident "x"⟩ : Expr).check 1).eval c = none ∧
      (∀ e : Expr, ReportsFailure c (e.check 1) (· = none)) ∧
      ∀ s : Stmt, ReportsFailure c (s.check 1) (· = false) := by
  have hreachable := Checker.Reachable.resolve { modules := [{ name := "main", body := [] }] }
    (.start {})
  exact ⟨hreachable, rfl, rfl, failure_iff_reported hreachable 1⟩

end Warden

import Warden.Proofs.Lockstep.Walk
import Warden.Proofs.Simulation.Basic

/-!
# The walk of the check keeps every simulation

States that look the same to the rules have the same views, and all that is alike in a run and
itself is equal. So a simulation is a relation for two checks in step, whatever scopes they have
entered, and what holds of those holds here with equal results.
-/

namespace Warden

open CheckM Check Pairing

theorem SameView.view {c d : Checker} (h : SameView c d) (declared node : Nat → Prop)
    (scope : ScopeId) : View (.same declared node) scope scope c d where
  lookup? name := by
    rw [h.lookup?]
    exact .refl (same_symbol declared node) _
  imported name := by
    rw [← ScopeTree.findImport?_withoutMemory, h.scopes, ScopeTree.findImport?_withoutMemory]
  qualifiedLookup module name := by
    rw [h.qualifiedLookup]
    exact same_qualifiedLookup declared node _
  enumMembers? name := h.enumMembers? scope name
  symbol? name := by
    rw [h.symbol?]
    exact .refl (same_symbol declared node) _
  isModule := h.isModule scope
  moduleAt := h.moduleAt scope
  struct := by
    rintro i j rfl
    rw [h.structs]
    exact .refl (same_structDef declared node) _
  frame := by
    rw [h.walk]
    exact .refl (same_frame declared node) _
  loopDepth := by rw [h.walk]
  deferTarget := by rw [h.walk]

/-- An action that is in step with itself, with equal results, respects the relation. -/
theorem InStep.respects {R : Checker → Checker → Prop} {α : Type} {A : α → α → Prop}
    {m : CheckM α} (h : InStep R A m m) (hA : ∀ a b, A a b → a = b) : Respects R m :=
  fun c d hcd => ⟨hA _ _ (h c d hcd).result, (h c d hcd).states⟩

namespace Simulation

variable {R : Checker → Checker → Prop} (hR : Simulation R)

include hR

theorem ruleLockstep (scope : ScopeId) :
    RuleLockstep (.same (fun _ => True) fun _ => True) scope scope R where
  view h := (hR.view h).view _ _ scope
  report := by
    intro c d cause cause' span hcause hrule h
    rw [← hcause.eq_of_same]
    exact hR.report span (Cause.isTyping_of_isRule hrule) h
  record := by
    intro c d id ty ty' _ hty h
    rw [← hty.eq_of_same]
    exact hR.record id ty h
  allocate _ _ h := hR.memory (.allocate ..) h
  rename _ _ h := hR.memory (.rename ..) h
  release _ _ _ h := hR.memory (.release ..) h
  checkUse _ _ h := hR.memory (.checkUse ..) h
  deferFree := by
    intro c d t t' name span ht ht' h
    rw [(hR.view h).walk, ht'] at ht
    cases ht
    exact hR.memory (.deferFree ..) h

theorem exprLockstep (scope : ScopeId) :
    ExprLockstep (.same (fun _ => True) fun _ => True) scope scope R :=
  (hR.ruleLockstep scope).exprLockstep fun h _ => by
    rw [(hR.view h).types]
    exact .refl (same_ty _ _) _

theorem stepLockstep : StepLockstep (.same (fun _ => True) fun _ => True)
    (fun S S' c d => S = S' ∧ R c d) where
  expr := by
    intro l l' S S'
    refine .guarded fun hS => ?_
    cases hS
    exact hR.exprLockstep l.scope
  jump := by
    rintro S S' c d cause span hjump ⟨rfl, h⟩
    exact ⟨rfl, hR.report span (Cause.isTyping_of_isJump hjump) h⟩
  insert := by
    rintro l l' S S' c d symbol symbol' t u hsymbol ht hu ⟨⟨⟩, h⟩
    rw [← hsymbol.eq_of_same] at hu
    exact ⟨rfl, hR.insert h ht hu⟩
  reserve := by
    rintro l l' S S' c d name isPublic ⟨⟨⟩, h⟩
    have hview := hR.view h
    rw [hview.structs, hview.moduleAt]
    exact ⟨⟨rfl, trivial⟩, rfl, hR.setStructs _ h⟩
  finalize := by
    rintro S S' c d draft draft' hdraft ⟨rfl, h⟩
    rw [← hdraft.eq_of_same, (hR.view h).structs]
    exact ⟨rfl, hR.setStructs _ h⟩
  leaveScope := by
    rintro l l' m m' S S' c d ⟨⟨⟩, h⟩
    exact ⟨rfl, hR.memory (.leaveScope _) h⟩
  enterLoop := by
    rintro S S' c d ⟨rfl, h⟩
    rw [(hR.view h).walk]
    exact ⟨rfl, hR.setWalk _ h⟩
  enterDefer := by
    rintro l l' S S' c d ⟨⟨⟩, h⟩
    rw [(hR.view h).walk]
    exact ⟨rfl, hR.setWalk _ h⟩
  restore := by
    rintro S S' c₀ d₀ c d ⟨rfl, h₀⟩ ⟨-, h⟩
    rw [(hR.view h₀).walk]
    exact ⟨rfl, hR.setWalk _ h⟩
  pushBlock := by
    rintro l l' S S' c d name ⟨⟨⟩, h⟩
    rw [(hR.view h).size]
    exact ⟨rfl, hR.addBlock l.scope name h⟩
  popBlock := by
    rintro i i' S S' c₀ d₀ c d ⟨rfl, -⟩ - - ⟨-, h⟩
    exact ⟨rfl, h⟩
  pushBody := by
    rintro l l' S S' c d frame frame' name hframe ⟨⟨⟩, h⟩
    rw [← hframe.eq_of_same, (hR.view h).size, (hR.view h).walk]
    exact ⟨rfl, hR.setWalk _ (hR.addFunction l.scope name h)⟩
  popBody := by
    rintro i i' S S' c₀ d₀ c d ⟨rfl, h₀⟩ ⟨⟨⟩, h⟩
    rw [(hR.view h₀).walk]
    exact ⟨rfl, hR.setWalk _ (hR.memory (.reportLeaks i) h)⟩

theorem lockstep :
    Lockstep (.same (fun _ => True) fun _ => True) (fun S S' c d => S = S' ∧ R c d) :=
  hR.stepLockstep.lockstep

omit hR in
/-- An action that is in step with itself in some scope respects the relation. -/
theorem respects_of_inStep {α : Type} {m : CheckM α} (scope : ScopeId)
    (h : ∀ l : Level, l.scope = scope → InStep (fun c d => [l] = [l] ∧ R c d) Eq m m) :
    Respects R m := by
  intro c d hcd
  have htogether := h ⟨scope, false⟩ rfl c d ⟨rfl, hcd⟩
  exact ⟨htogether.result, htogether.states.2⟩

theorem respects_resolve (scope : ScopeId) (t : TypeExpr) : Respects R (t.resolve scope) :=
  ((hR.exprLockstep scope).inStep_resolve t fun _ _ => trivial).respects
    fun _ _ => Ty.Alike.eq_of_same_option

theorem respects_expr (scope : ScopeId) (e : Expr) : Respects R (e.check scope) :=
  ((hR.exprLockstep scope).inStep_expr e fun _ _ => trivial).respects
    fun _ _ => Ty.Alike.eq_of_same_option

theorem respects_declare (scope : ScopeId) (symbol : Symbol) (span : Span) :
    Respects R (declare scope symbol span) :=
  ((hR.exprLockstep scope).inStep_inserting (same_symbol _ _ symbol)
    (fun ht hu h => hR.insert h ht hu) span).respects fun _ _ h => h

theorem respects_finalizeStruct (draft : StructDraft) : Respects R (finalizeStruct draft) := by
  apply Respects.ofModify
  intro c d h
  rw [(hR.view h).structs]
  exact hR.setStructs _ h

theorem respects_fnDecl (f : FnDecl) (span : Span) (scope : ScopeId) :
    Respects R (fnDecl f span scope) := by
  refine respects_of_inStep scope ?_
  rintro l rfl
  refine (hR.lockstep.inStep_fnDecl f (fun _ _ => trivial) (fun _ _ => trivial) span).weaken ?_
  exact fun _ _ hsig => hsig.eq fun _ _ => Signature.Alike.eq_of_same

theorem respects_stmt (scope : ScopeId) (s : Stmt) : Respects R (s.check scope) := by
  refine respects_of_inStep scope ?_
  rintro l rfl
  exact hR.lockstep.inStep_stmt s fun _ _ => trivial

theorem respects_stmts (scope : ScopeId) (ss : List Stmt) : Respects R (checkStmts scope ss) := by
  refine respects_of_inStep scope ?_
  rintro l rfl
  exact hR.lockstep.inStep_stmts ss fun _ _ => trivial

theorem respects_memory {f : Checker → Checker} (h : MemoryOp f) :
    Respects R (modify f : CheckM Unit) :=
  .ofModify fun _ _ => hR.memory h

theorem respects_module (m : Module) (scope : ScopeId) : Respects R (m.check scope) :=
  (Respects.ofModify fun _ _ => hR.enter m).bind fun _ =>
    (hR.respects_stmts scope (m.body.filter (!·.isImport))).bind fun _ =>
      (hR.respects_memory (.leaveScope scope)).bind fun _ => hR.respects_memory (.reportLeaks scope)

end Simulation

end Warden

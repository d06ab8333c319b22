import Warden.Proofs.Observing

/-!
# What statements keep

A statement looks at expressions and written types, adds and leaves scopes, declares names and
structs, and changes where the walk is. `StmtInvariant P` asks of a property of states that it
survives each of these; then it survives the check of every statement, and so the check of every
module.

The declaration of a struct is one step here. Its parts need not keep the property: between them the
name of the struct stands for a definition without members.
-/

namespace Warden

open CheckM Check

/-- A property of states that each part of a statement keeps. -/
structure StmtInvariant (P : Checker → Prop) : Prop extends ExprInvariant (fun _ => True) P where
  setWalk {c} (walk : Walk) : P c → P { c with walk }
  addBlock {c} (parent : ScopeId) (name : String) : P c →
    P { c with scopes := c.scopes.addBlock parent name }
  addFunction {c} (parent : ScopeId) (name : String) : P c →
    P { c with scopes := c.scopes.addFunction parent name }
  /-- Anything but a struct is declared. -/
  insert {c scope symbol scopes} : symbol.kind ≠ .struct →
    c.scopes.insert? scope symbol = some scopes → P c → P { c with scopes }
  struct {c} (decl : StructDecl) (span : Span) (scope : ScopeId) : P c →
    P ((structDecl decl span scope).exec c)

namespace StmtInvariant

variable {P : Checker → Prop} (hP : StmtInvariant P)

include hP

/-- A check that keeps the property, beside itself. -/
theorem lockstep : Lockstep (.same (fun _ => True) fun _ => True)
    (fun S S' c d => S = S' ∧ c = d ∧ P c) where
  expr := by
    intro l l' S S'
    refine .guarded fun hS => ?_
    cases hS
    exact hP.toExprInvariant.lockstep l.scope
  jump := by
    rintro S S' c d cause span hjump ⟨rfl, rfl, h⟩
    exact ⟨rfl, rfl, hP.report span (Cause.isTyping_of_isJump hjump) h⟩
  leaveScope := by
    rintro l l' m m' S S' c d ⟨⟨⟩, rfl, h⟩
    exact ⟨rfl, rfl, hP.memory (.leaveScope _) h⟩
  enterLoop := by
    rintro S S' c d ⟨rfl, rfl, h⟩
    exact ⟨rfl, rfl, hP.setWalk _ h⟩
  enterDefer := by
    rintro l l' S S' c d ⟨⟨⟩, rfl, h⟩
    exact ⟨rfl, rfl, hP.setWalk _ h⟩
  restore := by
    rintro S S' c₀ d₀ c d ⟨rfl, rfl, -⟩ ⟨-, rfl, h⟩
    exact ⟨rfl, rfl, hP.setWalk _ h⟩
  pushBlock := by
    rintro l l' S S' c d name ⟨⟨⟩, rfl, h⟩
    exact ⟨rfl, rfl, hP.addBlock _ name h⟩
  popBlock := by
    rintro i i' S S' c₀ d₀ c d ⟨rfl, rfl, -⟩ - - ⟨-, rfl, h⟩
    exact ⟨rfl, rfl, h⟩
  pushBody := by
    rintro l l' S S' c d frame frame' name hframe ⟨⟨⟩, rfl, h⟩
    rw [← hframe.eq_of_same]
    exact ⟨rfl, rfl, hP.setWalk _ (hP.addFunction _ name h)⟩
  popBody := by
    rintro i i' S S' c₀ d₀ c d ⟨rfl, rfl, -⟩ ⟨⟨⟩, rfl, h⟩
    have hleaks := hP.memory (.reportLeaks i) h
    exact ⟨rfl, rfl, hP.setWalk _ hleaks⟩
  insert := by
    rintro l l' S S' c d symbol symbol' t u hkind hsymbol ht hu ⟨⟨⟩, rfl, h⟩
    rw [← hsymbol.eq_of_same, ht] at hu
    cases hu
    exact ⟨rfl, rfl, hP.insert hkind ht h⟩
  struct := by
    rintro l l' S S' decl hfields hmethods span c d ⟨⟨⟩, rfl, h⟩
    -- what the declaration gives does not depend on what is kept
    obtain ⟨hresult, -, hwalk, -⟩ := (unconditional_true.lockstep unconditional_true).struct
      (l := l) (S := S) decl hfields hmethods span c c ⟨rfl, rfl, trivial, trivial⟩
    exact ⟨hresult, ⟨rfl, rfl, hP.struct decl span l.scope h⟩, hwalk, hwalk⟩

/-- What is in step with itself keeps the property. -/
theorem keeps (scope : ScopeId) {α : Type} {A : α → α → Prop} {m : CheckM α}
    (hm : ∀ {R}, Lockstep (.same (fun _ => True) fun _ => True) R →
      InStep (R [⟨scope, false⟩] [⟨scope, false⟩]) A m m) {c : Checker} (h : P c) : P (m.exec c) :=
  (hm hP.lockstep c c ⟨rfl, rfl, h⟩).states.2.2

theorem stmt (s : Stmt) (scope : ScopeId) {c : Checker} (h : P c) : P ((s.check scope).exec c) :=
  hP.keeps scope (fun hR => hR.inStep_stmt s fun _ _ => trivial) h

/-- The check of a module, as far as entering it keeps the property. -/
theorem module (m : Module)
    (henter : ∀ {c : Checker}, P c → P { c with context := c.context.enter m }) (scope : ScopeId)
    {c : Checker} (h : P c) : P ((m.check scope).exec c) := by
  have hstmts := hP.keeps scope
    (fun hR => hR.inStep_stmts (m.body.filter (!·.isImport)) fun _ _ => trivial) (henter h)
  have hleft := hP.memory (.leaveScope scope) hstmts
  have hleaks := hP.memory (.reportLeaks scope) hleft
  exact hleaks

end StmtInvariant

end Warden

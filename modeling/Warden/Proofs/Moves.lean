import Warden.Proofs.Faults.Stmt

/-!
# The states of a check

A state stands (`Checker.Stands`) if moves lead to it from the start of a check. These are all
states in which an expression is ever looked at. A property of them is proved move by move
(`Checker.Stands.keeps`).
-/

namespace Warden

open CheckM Check ScopeTree

namespace Checker

variable {c d : Checker}

theorem Move.wellTyped (hmove : Move c d) (h : c.WellTyped) : d.WellTyped := by
  cases hmove with
  | enter m => exact h.setContext _
  | report cause span => exact h.setContext _
  | observe _ hwell => exact hwell
  | memory hf => exact h.memory (hf.step c)
  | setWalk hwalk => exact h.setWalk hwalk
  | addModule hscopes => exact h.setScopes fun _ => declares_addModule? hscopes
  | addImport hscopes => exact h.setScopes fun _ => declares_addImport? hscopes
  | addBlock parent name => exact h.setScopes fun _ => declares_addScope
  | addFunction parent name => exact h.setScopes fun _ => declares_addScope
  | declare hsymbol _ hscopes => exact h.insert hsymbol hscopes
  | enum decl span scope => exact (passes_enumDecl span scope h decl).account.wellTyped
  | reserve name module isPublic => exact h.reserve name module isPublic
  | finalize hdraft hstructs => exact h.finalize hdraft.wellTyped hstructs

namespace Moves

/-- What every move keeps is kept by all of them. -/
theorem keeps {P : Checker → Prop} (hP : ∀ {c d}, c.WellTyped → P c → Move c d → P d)
    (hmoves : Moves c d) (hc : c.WellTyped) (h : P c) : d.WellTyped ∧ P d := by
  induction hmoves with
  | refl => exact ⟨hc, h⟩
  | tail _ hmove ih => exact ⟨hmove.wellTyped ih.1, hP ih.1 ih.2 hmove⟩

theorem wellTyped (hmoves : Moves c d) (hc : c.WellTyped) : d.WellTyped :=
  (hmoves.keeps (P := fun _ => True) (fun _ _ _ => trivial) hc trivial).1

/-- The passes over a program go by moves. -/
theorem moduleInvariant (h : c.WellTyped) : Resolver.ModuleInvariant (Moves c) where
  enter m hd := hd.trans (.one (.enter m))
  report cause span hd := hd.trans (.one (.report cause span))
  addModule hd hscopes := hd.trans (.one (.addModule hscopes))
  addImport hd hscopes := hd.trans (.one (.addImport hscopes))
  check {d} m scope _ hd := by
    have hin : Moves c { d with context := d.context.enter m } := hd.trans (.one (.enter m))
    have hbody := (passes_stmts scope (m.body.filter (!·.isImport)) (hin.wellTyped h)).moves
    exact ((hin.trans hbody).trans (.one (.memory (.leaveScope scope)))).trans
      (.one (.memory (.reportLeaks scope)))

end Moves

/-- The states of a check, but for those in the middle of the declaration of an enum. -/
def Stands (c : Checker) : Prop :=
  ∃ config, Moves (ofConfig config) c

namespace Stands

theorem start (config : Config) : (ofConfig config).Stands :=
  ⟨config, .refl _⟩

/-- What holds at the start and is kept by every move holds in all these states. -/
theorem keeps {P : Checker → Prop} (hstart : ∀ config, P (ofConfig config))
    (hP : ∀ {c d}, c.WellTyped → P c → Move c d → P d) (h : c.Stands) : P c := by
  obtain ⟨config, hmoves⟩ := h
  exact (hmoves.keeps hP (.ofConfig config) (hstart config)).2

theorem wellTyped (h : c.Stands) : c.WellTyped := by
  obtain ⟨config, hmoves⟩ := h
  exact hmoves.wellTyped (.ofConfig config)

theorem moves (h : c.Stands) (hmoves : Moves c d) : d.Stands := by
  obtain ⟨config, hstart⟩ := h
  exact ⟨config, hstart.trans hmoves⟩

theorem resolve (h : c.Stands) (p : Program) : (c.resolve p).checker.Stands :=
  h.moves (resolve_invariant (Moves.moduleInvariant h.wellTyped) (.refl c) p)

theorem stmt (h : c.Stands) (s : Stmt) (scope : ScopeId) : ((s.check scope).exec c).Stands :=
  h.moves (passes_stmt scope s h.wellTyped).moves

theorem expr (h : c.Stands) (e : Expr) (scope : ScopeId) : ((e.check scope).exec c).Stands :=
  h.moves (typed_expr scope e h.wellTyped).moves

theorem program (p : Program) (config : Config) : (p.check config).Stands :=
  (start config).resolve p

end Stands

end Checker

end Warden

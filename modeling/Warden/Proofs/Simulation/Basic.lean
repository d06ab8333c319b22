import Warden.Proofs.Causes
import Warden.Proofs.Memory.Erasure

/-!
# Relations that a check keeps

A check reads its state in few ways, and none of them looks into a ledger. So a relation between
states is kept by every check as soon as related states look the same to the rules and each
elementary change keeps it. `Simulation R` lists these conditions; `Respects R m` says that the
action `m` gives the same result on related states and leaves related states. Two checks related in
this way are two checks in step that number their scopes and structs alike, so the next module gets
`Respects` of `Expr.check`, `TypeExpr.resolve`, `Stmt.check` and `Module.check` from there.

A property of single states is the case `R c d := c = d ∧ P c` (`Invariant`).
-/

namespace Warden

open CheckM ScopeTree

/-! ### What the rules see -/

/-- The states look the same to the rules: they differ at most in their ledgers and queues, in what
has been found, and in the configuration. -/
structure SameView (c d : Checker) : Prop where
  scopes : c.scopes.withoutMemory = d.scopes.withoutMemory
  structs : c.structs = d.structs
  types : c.types = d.types
  walk : c.walk = d.walk
  moduleName : c.context.moduleName = d.context.moduleName

namespace SameView

variable {c d : Checker} (h : SameView c d) (scope : ScopeId)

include h

theorem size : c.scopes.size = d.scopes.size := by
  rw [← c.scopes.size_withoutMemory, h.scopes, d.scopes.size_withoutMemory]

theorem scope_eq : (c.scopes.scope scope).withoutMemory = (d.scopes.scope scope).withoutMemory := by
  rw [← c.scopes.scope_withoutMemory, h.scopes, d.scopes.scope_withoutMemory]

theorem symbol? (name : String) :
    (c.scopes.scope scope).symbol? name = (d.scopes.scope scope).symbol? name := by
  rw [← symbol?_withoutMemory, h.scope_eq, symbol?_withoutMemory]

theorem isModule : (c.scopes.scope scope).isModule = (d.scopes.scope scope).isModule := by
  have hscope := congrArg Scope.isModule (h.scope_eq scope)
  exact hscope

theorem lookup? (name : String) : c.scopes.lookup? scope name = d.scopes.lookup? scope name := by
  rw [← lookup?_withoutMemory, h.scopes, lookup?_withoutMemory]

theorem qualifiedLookup (module name : String) :
    c.scopes.qualifiedLookup scope module name = d.scopes.qualifiedLookup scope module name := by
  rw [← qualifiedLookup_withoutMemory, h.scopes, qualifiedLookup_withoutMemory]

theorem enumMembers? (name : String) :
    c.scopes.enumMembers? scope name = d.scopes.enumMembers? scope name := by
  rw [← enumMembers?_withoutMemory, h.scopes, enumMembers?_withoutMemory]

theorem moduleAt : c.moduleAt scope = d.moduleAt scope := by
  simp only [Checker.moduleAt, h.moduleName]
  rw [← owningModule?_withoutMemory, h.scopes, owningModule?_withoutMemory]

end SameView

/-! ### Simulations -/

/-- A relation between states that each elementary change of a check keeps. -/
structure Simulation (R : Checker → Checker → Prop) : Prop where
  view {c d} : R c d → SameView c d
  report {c d cause} (span) : cause.isTyping = true → R c d →
    R (c.report cause span) (d.report cause span)
  enter {c d} (m : Module) : R c d →
    R { c with context := c.context.enter m } { d with context := d.context.enter m }
  record {c d} (id ty) : R c d → R (c.record id ty) (d.record id ty)
  memory {c d f} : MemoryOp f → R c d → R (f c) (f d)
  setWalk {c d} (walk) : R c d → R { c with walk } { d with walk }
  setStructs {c d} (structs) : R c d → R { c with structs } { d with structs }
  addBlock {c d} (parent name) : R c d →
    R { c with scopes := c.scopes.addBlock parent name }
      { d with scopes := d.scopes.addBlock parent name }
  addFunction {c d} (parent name) : R c d →
    R { c with scopes := c.scopes.addFunction parent name }
      { d with scopes := d.scopes.addFunction parent name }
  insert {c d scope symbol t u} : R c d → c.scopes.insert? scope symbol = some t →
    d.scopes.insert? scope symbol = some u → R { c with scopes := t } { d with scopes := u }

/-- A property of states that each elementary change of a check keeps. -/
structure Invariant (P : Checker → Prop) : Prop where
  report {c cause} (span) : cause.isTyping = true → P c → P (c.report cause span)
  enter {c} (m : Module) : P c → P { c with context := c.context.enter m }
  record {c} (id ty) : P c → P (c.record id ty)
  memory {c f} : MemoryOp f → P c → P (f c)
  setWalk {c} (walk) : P c → P { c with walk }
  setStructs {c} (structs) : P c → P { c with structs }
  addBlock {c} (parent name) : P c → P { c with scopes := c.scopes.addBlock parent name }
  addFunction {c} (parent name) : P c → P { c with scopes := c.scopes.addFunction parent name }
  insert {c scope symbol t} : P c → c.scopes.insert? scope symbol = some t →
    P { c with scopes := t }

theorem Invariant.map {P : Checker → Prop} {f : Checker → Checker} (hf : ∀ {c}, P c → P (f c))
    {c d : Checker} (h : c = d ∧ P c) : f c = f d ∧ P (f c) :=
  ⟨congrArg f h.1, hf h.2⟩

theorem Invariant.simulation {P : Checker → Prop} (hP : Invariant P) :
    Simulation fun c d => c = d ∧ P c where
  view := by
    rintro c d ⟨rfl, -⟩
    exact ⟨rfl, rfl, rfl, rfl, rfl⟩
  report span hcause h := map (hP.report span hcause) h
  enter m h := map (hP.enter m) h
  record id ty h := map (hP.record id ty) h
  memory {_ _ f} hf h := ⟨congrArg f h.1, hP.memory hf h.2⟩
  setWalk walk h := map (hP.setWalk walk) h
  setStructs structs h := map (hP.setStructs structs) h
  addBlock parent name h := map (hP.addBlock parent name) h
  addFunction parent name h := map (hP.addFunction parent name) h
  insert := by
    rintro c d scope symbol t u ⟨rfl, h⟩ ht hu
    rw [ht] at hu
    cases hu
    exact ⟨rfl, hP.insert h ht⟩

/-- The action returns the same on related states and leaves related states. -/
def Respects (R : Checker → Checker → Prop) {α : Type} (m : CheckM α) : Prop :=
  ∀ c d, R c d → m.eval c = m.eval d ∧ R (m.exec c) (m.exec d)

namespace Respects

variable {R : Checker → Checker → Prop} {α β : Type}

theorem bind {m : CheckM α} {k : α → CheckM β} (hm : Respects R m) (hk : ∀ a, Respects R (k a)) :
    Respects R (m >>= k) := by
  intro c d h
  obtain ⟨heval, hexec⟩ := hm c d h
  rw [eval_bind, eval_bind, exec_bind, exec_bind, heval]
  exact hk _ _ _ hexec

theorem ofModify {f : Checker → Checker} (hf : ∀ c d, R c d → R (f c) (f d)) :
    Respects R (modify f : CheckM Unit) :=
  fun c d h => ⟨rfl, hf c d h⟩

/-- An action that keeps every simulation keeps every invariant. -/
theorem invariant {P : Checker → Prop} (hP : Invariant P) {m : CheckM α}
    (hm : ∀ {R : Checker → Checker → Prop}, Simulation R → Respects R m) {c : Checker} (h : P c) :
    P (m.exec c) :=
  (hm hP.simulation c c ⟨rfl, h⟩).2.2

end Respects

end Warden

import Warden.Proofs.Actions
import Warden.Resolve

/-!
# Running the passes over a program

`ResolveM.exec` is the state that an action leaves, and the equations below say what it is for the
building blocks of the three passes.

The passes touch the state of the check in five ways only: they turn to a module, report, register a
module, bind an import and check a module's body. `PassInvariant` collects what it takes to survive
these, where bodies are checked in certain scopes only. It is enough to survive resolving a program
whose modules are registered in such scopes (`PassInvariant.resolve`), and if all scopes will do, to
survive resolving any program (`Checker.resolve_invariant`).
-/

namespace Warden

namespace Resolver

variable {α : Type}

/-- The state that an action leaves when it starts from a state. -/
def ResolveM.exec (m : ResolveM α) (r : Resolver) : Resolver := (m.run r).2

open ResolveM

@[simp] theorem exec_pure (a : α) (r : Resolver) : exec (pure a) r = r := rfl

@[simp] theorem exec_bind (m : ResolveM Unit) (k : Unit → ResolveM α) (r : Resolver) :
    exec (m >>= k) r = exec (k ()) (exec m r) := rfl

@[simp] theorem exec_get (k : Resolver → ResolveM α) (r : Resolver) :
    exec (get >>= k) r = exec (k r) r := rfl

@[simp] theorem exec_modify (f : Resolver → Resolver) (r : Resolver) :
    exec (modify f) r = f r := rfl

@[simp] theorem exec_checking (action : CheckM α) (r : Resolver) :
    exec (checking action) r = { r with checker := action.exec r.checker } := rfl

@[simp] theorem exec_enter (m : Module) (r : Resolver) : exec (enter m) r =
      { r with checker := { r.checker with context := r.checker.context.enter m } } := rfl

@[simp] theorem exec_modifySlot (slot : Nat) (f : Slot → Slot) (r : Resolver) :
    exec (modifySlot slot f) r = { r with slots := r.slots.modify slot f } := rfl

/-! ### What the passes do to the state of the check -/

/-- A property of the state of the check that the passes over a program keep, if the modules are
checked in `allowed` scopes only. -/
structure PassInvariant (allowed : ScopeId → Prop) (P : Checker → Prop) : Prop where
  enter {c} (m : Module) : P c → P { c with context := c.context.enter m }
  report {c} (cause : Cause) (span : Span) : P c → P (c.report cause span)
  addModule {c name scopes} : P c → c.scopes.addModule? name = some scopes → P { c with scopes }
  addImport {c id module localName scopes} : P c →
    c.scopes.addImport? id module localName = some scopes → P { c with scopes }
  check {c} (m : Module) (scope : ScopeId) : allowed scope → P c → P ((m.check scope).exec c)

/-- A property that the passes keep whatever scopes the modules are checked in. -/
abbrev ModuleInvariant (P : Checker → Prop) : Prop :=
  PassInvariant (fun _ => True) P

/-- The state of the check has the property, and the registered modules stand in allowed scopes. -/
def Keeps (allowed : ScopeId → Prop) (P : Checker → Prop) (r : Resolver) : Prop :=
  P r.checker ∧ ∀ s ∈ r.slots, allowed s.scope

namespace Keeps

variable {allowed : ScopeId → Prop} {P : Checker → Prop} {r : Resolver}

theorem modifySlot (h : Keeps allowed P r) (slot : Nat) {f : Slot → Slot}
    (hf : ∀ s, (f s).scope = s.scope) :
    Keeps allowed P { r with slots := r.slots.modify slot f } := by
  refine ⟨h.1, fun s hs => ?_⟩
  obtain ⟨i, hi⟩ := Array.getElem?_of_mem hs
  rw [Array.getElem?_modify] at hi
  split at hi
  · obtain ⟨old, hold, rfl⟩ := Option.map_eq_some_iff.mp hi
    rw [hf]
    exact h.2 old (Array.mem_of_getElem? hold)
  · exact h.2 s (Array.mem_of_getElem? hi)

theorem forEach {Q : Resolver → Prop} {action : Nat → ResolveM Unit}
    (haction : ∀ {r : Resolver} slot, Q r → Q (exec (action slot) r)) (slots : List Nat)
    (h : Q r) : Q (exec (forEach action slots) r) := by
  induction slots generalizing r with
  | nil => exact h
  | cons slot slots ih => exact ih (haction slot h)

end Keeps

namespace PassInvariant

variable {allowed : ScopeId → Prop} {P : Checker → Prop} (hP : PassInvariant allowed P)
  {r : Resolver}

include hP

theorem register (h : P r.checker) (m : Module) : P (exec (register m) r).checker := by
  unfold Resolver.register
  rw [exec_get]
  split
  next scopes hscopes => exact hP.addModule h hscopes
  · exact hP.report _ _ (hP.enter m h)

theorem registerAll (ms : List Module) (h : P r.checker) : P (exec (registerAll ms) r).checker := by
  induction ms generalizing r with
  | nil => exact h
  | cons m ms ih => exact ih (hP.register h m)

theorem linkImport (h : Keeps allowed P r) (slot : Nat) (scope : ScopeId) (target : String)
    (localName : Option String) (span : Span) :
    Keeps allowed P (exec (linkImport slot scope target localName span) r) := by
  unfold Resolver.linkImport
  dsimp only
  rw [exec_get]
  split
  · exact ⟨hP.report _ span h.1, h.2⟩
  · split
    · exact ⟨hP.report _ span h.1, h.2⟩
    next scopes hscopes =>
      have hbound : Keeps allowed P { r with checker := { r.checker with scopes } } :=
        ⟨hP.addImport h.1 hscopes, h.2⟩
      refine hbound.modifySlot slot fun s => ?_
      unfold Slot.addUse
      split <;> rfl

theorem linkStmts (slot : Nat) (scope : ScopeId) (stmts : List Stmt) (h : Keeps allowed P r) :
    Keeps allowed P (exec (linkStmts slot scope stmts) r) := by
  fun_induction Resolver.linkStmts slot scope stmts generalizing r with
  | case1 => exact h
  | case2 span target localName stmts ih =>
    exact ih (hP.linkImport h slot scope target localName span)
  | case3 s stmts _ ih => exact ih h

theorem link (h : Keeps allowed P r) (slot : Nat) : Keeps allowed P (exec (link slot) r) := by
  unfold Resolver.link
  rw [exec_get]
  split
  · exact h
  next s _ => exact hP.linkStmts slot s.scope s.module.body ⟨hP.enter s.module h.1, h.2⟩

theorem reportCycle (h : Keeps allowed P r) (user used : Nat) (span : Span) :
    Keeps allowed P (exec (reportCycle user used span) r) := by
  unfold Resolver.reportCycle
  rw [exec_get]
  dsimp only
  split
  · exact h
  next s _ => exact ⟨hP.report _ span (hP.enter s.module h.1), h.2⟩

theorem followUses {visit : Nat → ResolveM Unit}
    (hvisit : ∀ {r : Resolver} slot, Keeps allowed P r → Keeps allowed P (exec (visit slot) r))
    (user : Nat) (uses : List (String × Span)) (h : Keeps allowed P r) :
    Keeps allowed P (exec (followUses visit user uses) r) := by
  induction uses generalizing r with
  | nil => exact h
  | cons use uses ih =>
    obtain ⟨target, span⟩ := use
    have hone : Keeps allowed P (exec (followUse visit user target span) r) := by
      unfold followUse
      rw [exec_get]
      split
      · exact h
      · split
        · exact hP.reportCycle h user _ span
        · exact hvisit _ h
    exact ih hone

theorem visit (fuel : Nat) : ∀ {r : Resolver} (slot : Nat), Keeps allowed P r →
    Keeps allowed P (exec (visit fuel slot) r) := by
  induction fuel with
  | zero => exact fun _ h => h
  | succ fuel ih =>
    intro r slot h
    unfold Resolver.visit
    rw [exec_get]
    split
    · exact h
    next s hs =>
      split
      · have hallowed : allowed s.scope := h.2 s (Array.mem_of_getElem? hs)
        have hstarted := h.modifySlot slot (f := fun s => { s with progress := .inProgress })
          fun _ => rfl
        simp only [exec_bind, exec_modifySlot, exec_modify, exec_checking]
        have hfollowed := hP.followUses ih slot s.uses (r := { r with
          slots := r.slots.modify slot fun s => { s with progress := .inProgress }
          stack := slot :: r.stack }) hstarted
        generalize exec (Resolver.followUses (Resolver.visit fuel) slot s.uses) _ = r'
          at hfollowed ⊢
        have hchecked : Keeps allowed P
            { r' with checker := (s.module.check s.scope).exec r'.checker } :=
          ⟨hP.check s.module s.scope hallowed hfollowed.1, hfollowed.2⟩
        exact hchecked.modifySlot slot fun _ => rfl
      · exact h

/-- Once the modules are registered in allowed scopes, the other passes keep the property. -/
theorem resolve (p : Program) (h : Keeps allowed P (exec (Resolver.registerAll p.modules) r)) :
    Keeps allowed P (exec (Resolver.resolve p) r) := by
  unfold Resolver.resolve
  rw [exec_bind, exec_get, exec_bind]
  generalize exec (Resolver.registerAll p.modules) r = registered at h ⊢
  have hlinked := Keeps.forEach (Q := Keeps allowed P) (fun slot h => hP.link h slot)
    (List.range registered.slots.size) h
  exact Keeps.forEach (Q := Keeps allowed P) (hP.visit _) _ hlinked

end PassInvariant

end Resolver

/-- Resolving a program keeps what its passes keep. -/
theorem Checker.resolve_invariant {P : Checker → Prop} (hP : Resolver.ModuleInvariant P)
    {c : Checker} (h : P c) (p : Program) : P (c.resolve p).checker :=
  (hP.resolve (r := { checker := c }) p
    ⟨hP.registerAll p.modules h, fun _ _ => trivial⟩).1

end Warden

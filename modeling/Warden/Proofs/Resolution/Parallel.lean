import Warden.Proofs.Memory.Erasure
import Warden.Proofs.Resolution.Basic

/-!
# Two runs of the passes side by side

The passes over a program see of the check's state the scopes only. So two runs that start from
states with the same scopes take the same way, and a relation between the states is kept as soon as
the five things that the passes do to a state keep it (`PassRelation`).

`Related R` extends a relation between states of the check to states of the passes: all that the
passes themselves keep book of is the same. Each pass keeps it, and so resolving a program does
(`PassRelation.resolve`).
-/

namespace Warden.Resolver

open ResolveM

/-- A relation between states of the check that the passes over a program keep. -/
structure PassRelation (R : Checker → Checker → Prop) : Prop where
  scopes {c d} : R c d → d.scopes = c.scopes
  enter {c d} (m : Module) : R c d →
    R { c with context := c.context.enter m } { d with context := d.context.enter m }
  report {c d cause} (span : Span) : cause.tag.isMemory = false → R c d →
    R (c.report cause span) (d.report cause span)
  setScopes {c d} (scopes : ScopeTree) : R c d → R { c with scopes } { d with scopes }
  check {c d} (m : Module) (scope : ScopeId) : R c d →
    R ((m.check scope).exec c) ((m.check scope).exec d)

/-- The states of the passes differ in the state of the check only, and there they are related. -/
def Related (R : Checker → Checker → Prop) (r r' : Resolver) : Prop :=
  ∃ d, R r.checker d ∧ r' = { r with checker := d }

/-- A pass that is made in both runs keeps them related. -/
def KeepsRelated (R : Checker → Checker → Prop) (action : ResolveM Unit) : Prop :=
  ∀ r r', Related R r r' → Related R (exec action r) (exec action r')

variable {R : Checker → Checker → Prop}

namespace KeepsRelated

theorem bind {m : ResolveM Unit} {k : Unit → ResolveM Unit} (hm : KeepsRelated R m)
    (hk : KeepsRelated R (k ())) : KeepsRelated R (m >>= k) :=
  fun _ _ h => hk _ _ (hm _ _ h)

/-- What changes the book-keeping of the passes only. -/
theorem ofModify {f : Resolver → Resolver}
    (hf : ∀ r d, f { r with checker := d } = { f r with checker := d })
    (hchecker : ∀ r, (f r).checker = r.checker) : KeepsRelated R (modify f) := by
  rintro r r' ⟨d, hd, rfl⟩
  refine ⟨d, ?_, hf r d⟩
  rw [exec_modify, hchecker]
  exact hd

theorem modifySlot (slot : Nat) (f : Slot → Slot) : KeepsRelated R (modifySlot slot f) :=
  ofModify (fun _ _ => rfl) fun _ => rfl

theorem ofChecking {action : CheckM Unit} (h : ∀ {c d}, R c d → R (action.exec c) (action.exec d)) :
    KeepsRelated R (checking action) := by
  rintro r r' ⟨d, hd, rfl⟩
  exact ⟨action.exec d, h hd, rfl⟩

theorem forEach {action : Nat → ResolveM Unit} (h : ∀ slot, KeepsRelated R (action slot))
    (slots : List Nat) : KeepsRelated R (forEach action slots) := by
  induction slots with
  | nil => exact fun _ _ h => h
  | cons slot slots ih => exact (h slot).bind ih

end KeepsRelated

namespace PassRelation

variable (hR : PassRelation R)

include hR

theorem keepsRelated_enter (m : Module) : KeepsRelated R (Resolver.enter m) :=
  .ofChecking (hR.enter m)

theorem keepsRelated_report {cause : Cause} (hcause : cause.tag.isMemory = false) (span : Span) :
    KeepsRelated R (checking (CheckM.report cause span)) :=
  .ofChecking (hR.report span hcause)

theorem register (m : Module) : KeepsRelated R (register m) := by
  rintro r r' ⟨d, hd, rfl⟩
  unfold Resolver.register
  rw [exec_get, exec_get]
  dsimp only
  rw [hR.scopes hd]
  split
  next scopes hscopes => exact ⟨_, hR.setScopes scopes hd, rfl⟩
  · exact (hR.keepsRelated_enter m).bind (hR.keepsRelated_report rfl m.span) _ _ ⟨d, hd, rfl⟩

theorem registerAll (ms : List Module) : KeepsRelated R (registerAll ms) := by
  induction ms with
  | nil => exact fun _ _ h => h
  | cons m ms ih => exact (hR.register m).bind ih

theorem linkImport (slot : Nat) (scope : ScopeId) (target : String) (localName : Option String)
    (span : Span) : KeepsRelated R (linkImport slot scope target localName span) := by
  rintro r r' ⟨d, hd, rfl⟩
  unfold Resolver.linkImport
  dsimp only
  rw [exec_get, exec_get]
  dsimp only
  rw [hR.scopes hd]
  split
  · exact hR.keepsRelated_report rfl span _ _ ⟨d, hd, rfl⟩
  · split
    · exact hR.keepsRelated_report rfl span _ _ ⟨d, hd, rfl⟩
    next scopes hscopes =>
      exact KeepsRelated.modifySlot slot _ _ _ ⟨_, hR.setScopes scopes hd, rfl⟩

theorem linkStmts (slot : Nat) (scope : ScopeId) (stmts : List Stmt) :
    KeepsRelated R (linkStmts slot scope stmts) := by
  fun_induction Resolver.linkStmts slot scope stmts with
  | case1 => exact fun _ _ h => h
  | case2 span target localName stmts ih =>
    exact (hR.linkImport slot scope target localName span).bind ih
  | case3 s stmts _ ih => exact ih

theorem link (slot : Nat) : KeepsRelated R (link slot) := by
  rintro r r' ⟨d, hd, rfl⟩
  unfold Resolver.link
  rw [exec_get, exec_get]
  dsimp only
  split
  · exact ⟨d, hd, rfl⟩
  next s _ =>
    exact (hR.keepsRelated_enter s.module).bind (hR.linkStmts slot s.scope s.module.body)
      _ _ ⟨d, hd, rfl⟩

theorem reportCycle (user used : Nat) (span : Span) :
    KeepsRelated R (reportCycle user used span) := by
  rintro r r' ⟨d, hd, rfl⟩
  unfold Resolver.reportCycle
  rw [exec_get, exec_get]
  dsimp only
  split
  · exact ⟨d, hd, rfl⟩
  next s _ =>
    exact (hR.keepsRelated_enter s.module).bind (hR.keepsRelated_report rfl span) _ _ ⟨d, hd, rfl⟩

theorem followUses {visit : Nat → ResolveM Unit} (hvisit : ∀ slot, KeepsRelated R (visit slot))
    (user : Nat) (uses : List (String × Span)) : KeepsRelated R (followUses visit user uses) := by
  induction uses with
  | nil => exact fun _ _ h => h
  | cons use uses ih =>
    obtain ⟨target, span⟩ := use
    refine KeepsRelated.bind ?_ ih
    rintro r r' ⟨d, hd, rfl⟩
    unfold followUse
    rw [exec_get, exec_get, show Resolver.find? { r with checker := d } target = r.find? target
      from rfl]
    dsimp only
    split
    · exact ⟨d, hd, rfl⟩
    next used _ =>
      split
      · exact hR.reportCycle user used span _ _ ⟨d, hd, rfl⟩
      · exact hvisit used _ _ ⟨d, hd, rfl⟩

theorem visit (fuel : Nat) : ∀ slot, KeepsRelated R (visit fuel slot) := by
  induction fuel with
  | zero => exact fun _ _ _ h => h
  | succ fuel ih =>
    rintro slot r r' ⟨d, hd, rfl⟩
    unfold Resolver.visit
    rw [exec_get, exec_get]
    dsimp only
    split
    · exact ⟨d, hd, rfl⟩
    next s _ =>
      split
      · have hpush : KeepsRelated R (modify fun r => { r with stack := slot :: r.stack }) :=
          .ofModify (fun _ _ => rfl) fun _ => rfl
        have hpop : KeepsRelated R (modify fun r =>
            { r with stack := r.stack.tail, order := r.order ++ [s.module.name] }) :=
          .ofModify (fun _ _ => rfl) fun _ => rfl
        have hcheck : KeepsRelated R (checking (s.module.check s.scope)) :=
          .ofChecking (hR.check s.module s.scope)
        exact (KeepsRelated.modifySlot slot _).bind (hpush.bind
          ((hR.followUses ih slot s.uses).bind (hcheck.bind
            ((KeepsRelated.modifySlot slot _).bind hpop)))) _ _ ⟨d, hd, rfl⟩
      · exact ⟨d, hd, rfl⟩

/-- Resolving a program keeps two states of the check related. -/
theorem resolve {c d : Checker} (h : R c d) (p : Program) :
    R (c.resolve p).checker (d.resolve p).checker := by
  have hresolve : KeepsRelated R (Resolver.resolve p) := by
    refine (hR.registerAll p.modules).bind ?_
    rintro r r' ⟨d, hd, rfl⟩
    rw [exec_get, exec_get]
    exact (KeepsRelated.forEach hR.link _).bind (.forEach (hR.visit _) _) _ _ ⟨d, hd, rfl⟩
  obtain ⟨e, he, hr'⟩ := hresolve { checker := c } _ ⟨d, h, rfl⟩
  have hchecker : (d.resolve p).checker = e := congrArg Resolver.checker hr'
  rw [hchecker]
  exact he

end PassRelation

end Warden.Resolver

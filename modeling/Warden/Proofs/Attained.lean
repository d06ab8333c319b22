import Warden.Proofs.Confined
import Warden.Proofs.Faults.Reported
import Warden.Proofs.Resolution.Layout

/-!
# States of a check that works in scopes that exist

A check can be asked to work in any scope, also in one that does not exist, and what it then builds
is no tree. `Checker.Attained` are the states of checks that work in scopes that exist, which are
the ones that matter: from the start, through programs that are resolved and statements and
expressions that are checked in scopes that are there, and through the steps in between. In all of
them scopes come after their parents (`Checker.Attained.arena`).
-/

namespace Warden

open CheckM Resolver.ResolveM ScopeTree

namespace Checker

/-- The states that a check can come to if it works in scopes that exist. -/
inductive Attained : Checker → Prop where
  | start (config : Config) : Attained (ofConfig config)
  | resolve {c} (p : Program) : Attained c → Attained (c.resolve p).checker
  | stmt {c scope} (s : Stmt) : scope < c.scopes.size → Attained c →
      Attained ((s.check scope).exec c)
  | expr {c scope} (e : Expr) : scope < c.scopes.size → Attained c →
      Attained ((e.check scope).exec c)
  /-- A scope that a step adds is put inside one that is there. -/
  | step {c d} : Step c d → (∀ p ∈ (d.scopes.scope c.scopes.size).parent, p < c.scopes.size) →
      Attained c → Attained d

theorem Attained.reachable {c : Checker} (h : c.Attained) : c.Reachable := by
  induction h with
  | start config => exact .start config
  | resolve p _ ih => exact .resolve p ih
  | stmt s _ _ ih => exact .stmt s _ ih
  | expr e _ _ ih => exact .expr e _ ih
  | step hstep _ _ ih => exact .step hstep ih

/-- Scopes come after their parents. There are some, and at least `n`. -/
structure Rooted (n : Nat) (c : Checker) : Prop where
  arena : c.scopes.Arena
  pos : 0 < c.scopes.size
  size : n ≤ c.scopes.size

namespace Rooted

variable {n : Nat} {c d : Checker}

section

variable (h : Rooted n c)

include h

theorem congr (hsize : d.scopes.size = c.scopes.size)
    (hparent : ∀ i, (d.scopes.scope i).parent = (c.scopes.scope i).parent) : Rooted n d where
  arena := h.arena.congr hparent
  pos := hsize ▸ h.pos
  size := hsize ▸ h.size

theorem modify (id : ScopeId) {f : Scope → Scope} (hparent : ∀ s, (f s).parent = s.parent) :
    Rooted n { c with scopes := c.scopes.modify id f } :=
  h.congr (size_modify ..) (c.scopes.field_modify id Scope.parent hparent)

/-- Memory has no part in the shape of the tree. -/
theorem ofMemory (hscopes : d.scopes.withoutMemory = c.scopes.withoutMemory) : Rooted n d := by
  refine h.congr ?_ fun i => ?_
  · rw [← size_withoutMemory, hscopes, size_withoutMemory]
  · have hscope : (d.scopes.scope i).withoutMemory = (c.scopes.scope i).withoutMemory := by
      rw [← scope_withoutMemory, hscopes, scope_withoutMemory]
    exact congrArg (·.parent) hscope

theorem addScope {parent : ScopeId} (hparent : parent < c.scopes.size) (name : String)
    (owner : ScopeOwner) (ledger : Option Ledger) :
    Rooted n { c with scopes := c.scopes.addScope parent name owner ledger } where
  arena := h.arena.addScope name owner ledger hparent
  pos := by
    rw [size_addScope]
    exact Nat.succ_pos _
  size := by
    rw [size_addScope]
    exact Nat.le_succ_of_le h.size

theorem addModule {name : String} {scopes : ScopeTree}
    (hscopes : c.scopes.addModule? name = some scopes) : Rooted n { c with scopes } := by
  obtain ⟨-, rfl⟩ := eq_of_addModule? hscopes
  exact (h.addScope h.pos name (.module name) (some {})).congr rfl fun _ => rfl

theorem addImport {id : ScopeId} {module localName : String} {scopes : ScopeTree}
    (hscopes : c.scopes.addImport? id module localName = some scopes) :
    Rooted n { c with scopes } := by
  obtain ⟨_, -, rfl⟩ := eq_of_addImport? hscopes
  exact h.modify id fun _ => rfl

theorem declare (scope : ScopeId) (symbol : Symbol) (span : Span) :
    Rooted n ((CheckM.declare scope symbol span).exec c) := by
  obtain ⟨scopes, hinsert, -, hexec⟩ | ⟨cause, -, hexec⟩ := declare_cases scope symbol span c
  · rw [hexec]
    obtain ⟨-, rfl⟩ := eq_of_insert? hinsert
    exact h.modify scope fun _ => rfl
  · rw [hexec]
    exact h.congr rfl fun _ => rfl

/-- Checking statements in a scope that exists keeps the tree. -/
theorem stmts {scope : ScopeId} (hscope : scope < c.scopes.size) (ss : List Stmt) :
    Rooted n ((checkStmts scope ss).exec c) := by
  obtain ⟨-, hconfined, -⟩ := unconditional_true.stmts (l := ⟨scope, false⟩)
    (confined_unconditional h.arena hscope) (fun _ _ => trivial) trivial
    (.refl h.arena hscope false)
  exact ⟨hconfined.arena, Nat.lt_of_lt_of_le h.pos hconfined.size,
    Nat.le_trans h.size hconfined.size⟩

theorem stmt {scope : ScopeId} (hscope : scope < c.scopes.size) (s : Stmt) :
    Rooted n ((s.check scope).exec c) :=
  h.stmts hscope [s]

end

/-- The passes over a program keep the tree, if modules are checked in the first `n` scopes. -/
theorem passInvariant (n : Nat) : Resolver.PassInvariant (· < n) (Rooted n) where
  enter _ h := h.congr rfl fun _ => rfl
  report _ _ h := h.congr rfl fun _ => rfl
  addModule h hscopes := h.addModule hscopes
  addImport h hscopes := h.addImport hscopes
  check {c} m scope hscope h := by
    have hentered : Rooted n (c.entered m) := h.congr rfl fun _ => rfl
    have hstmts := hentered.stmts (Nat.lt_of_lt_of_le hscope h.size) m.statements
    have hleft := hstmts.ofMemory ((MemoryOp.leaveScope scope).step _).scopes
    exact hleft.ofMemory ((MemoryOp.reportLeaks scope).step _).scopes

end Rooted

/-- The scopes of registered modules exist. -/
theorem scope_lt_of_registerAll (ms : List Module) {r : Resolver}
    (h : ∀ s ∈ r.slots, s.scope < r.checker.scopes.size) :
    ∀ s ∈ (exec (Resolver.registerAll ms) r).slots,
      s.scope < (exec (Resolver.registerAll ms) r).checker.scopes.size := by
  induction ms generalizing r with
  | nil => exact h
  | cons m ms ih =>
    refine ih (r := exec (Resolver.register m) r) ?_
    unfold Resolver.register
    rw [Resolver.exec_get]
    split
    next scopes hscopes =>
      obtain ⟨hsize, -, -⟩ := Resolver.addModule?_spec hscopes
      intro s hs
      have hslot : s ∈ r.slots.push { module := m, scope := r.checker.scopes.size } := hs
      have hgoal : s.scope < scopes.size := by
        rw [hsize]
        rcases Array.mem_push.mp hslot with hs | rfl
        · exact Nat.lt_succ_of_lt (h s hs)
        · exact Nat.lt_succ_self _
      exact hgoal
    · exact h

theorem Rooted.resolve {c : Checker} (h : Rooted 0 c) (p : Program) :
    Rooted 0 (c.resolve p).checker := by
  have hregistered := (Rooted.passInvariant 0).registerAll (r := { checker := c }) p.modules h
  have hbound := scope_lt_of_registerAll p.modules (r := { checker := c }) (by simp)
  have hresolved := (Rooted.passInvariant _).resolve (r := { checker := c }) p
    ⟨⟨hregistered.arena, hregistered.pos, Nat.le_refl _⟩, hbound⟩
  exact ⟨hresolved.1.arena, hresolved.1.pos, Nat.zero_le _⟩

theorem Step.rooted {c d : Checker} (hstep : Step c d)
    (hnew : ∀ p ∈ (d.scopes.scope c.scopes.size).parent, p < c.scopes.size) (h : Rooted 0 c) :
    Rooted 0 d := by
  cases hstep with
  | enter m => exact h.congr rfl fun _ => rfl
  | report cause span => exact h.congr rfl fun _ => rfl
  | resolve ty scope => exact h.ofMemory ((rule_resolve scope ty).observes.quiet c).scopes
  | record id hty => exact h.congr rfl fun _ => rfl
  | memory hf => exact h.ofMemory (hf.step c).scopes
  | addModule hscopes => exact h.addModule hscopes
  | addImport hscopes => exact h.addImport hscopes
  | addBlock parent name =>
    have hparent := hnew parent (by rw [ScopeTree.addBlock, scope_addScope_size]; rfl)
    exact h.addScope hparent name .block none
  | addFunction parent name =>
    have hparent := hnew parent (by rw [ScopeTree.addFunction, scope_addScope_size]; rfl)
    exact h.addScope hparent name (.function name) (some {})
  | declare scope span _ => exact h.declare scope _ span
  | setWalk _ => exact h.congr rfl fun _ => rfl
  | reserve name module isPublic => exact h.congr rfl fun _ => rfl
  | finalize _ => exact h.congr rfl fun _ => rfl

namespace Attained

variable {c : Checker}

theorem rooted (h : c.Attained) : Rooted 0 c := by
  induction h with
  | start config =>
    refine ⟨fun i p hp => ?_, Nat.one_pos, Nat.zero_le _⟩
    have hnone : ((ofConfig config).scopes.scope i).parent = none := by
      rcases Nat.lt_or_ge i 1 with hi | hi
      · obtain rfl : i = 0 := Nat.lt_one_iff.mp hi
        rfl
      · rw [scope_of_size_le hi]
    rw [hnone] at hp
    cases hp
  | resolve p _ ih => exact ih.resolve p
  | stmt s hscope _ ih => exact ih.stmt hscope s
  | expr e hscope _ ih => exact ih.ofMemory ((rule_expr _ e).observes.quiet _).scopes
  | step hstep hnew _ ih => exact hstep.rooted hnew ih

/-- Scopes come after their parents. -/
theorem arena (h : c.Attained) : c.scopes.Arena :=
  h.rooted.arena

end Attained

end Checker

end Warden

import Warden.Proofs.Filing
import Warden.Proofs.Resolution.Course

/-!
# What linking comes to

The second pass binds the imports of one module after the other. What comes of a module depends on
its own statements and on the names that are registered, and on nothing else: `Module.linkage` gives
its imports, the modules that it is noted to use, and what is to be reported. `Resolver.linkedWith`
is the state with a module's linkage put in place, and `exec_link` says that the pass puts it there.
-/

namespace Warden

open ScopeTree

/-- The name of the module that a statement imports. -/
def Stmt.target? (s : Stmt) : Option String :=
  match s.kind with
  | .importModule target _ => some target
  | _ => none

/-- The names of the modules that a module imports. -/
def Module.targets (m : Module) : List String :=
  m.body.filterMap Stmt.target?

theorem Module.ImportsAt.mem_targets {m : Module} {use : String × Span} (h : m.ImportsAt use) :
    use.1 ∈ m.targets := by
  obtain ⟨localName, hmem⟩ := h
  exact List.mem_filterMap.mpr ⟨_, hmem, rfl⟩

/-- What has come of some imports of a module. -/
structure Linkage where
  imports : List Import := []
  uses : List (String × Span) := []
  reports : List (Cause × Span) := []

namespace Linkage

/-- Binds one more import. -/
def bind (scopeOf : String → Option ScopeId) (b : Linkage) (target : String)
    (localName : Option String) (span : Span) : Linkage :=
  let name := localName.getD target
  if (b.imports.find? (·.localName == name)).isSome then
    { b with reports := b.reports ++ [(.localNameTaken name, span)] }
  else
    match scopeOf target with
    | none => { b with reports := b.reports ++ [(.moduleNotFound target, span)] }
    | some scope =>
      { b with
        imports := b.imports ++ [{ module := target, localName := name, scope }]
        uses := if b.uses.any (·.1 == target) then b.uses else b.uses ++ [(target, span)] }

/-- Binds the imports among some statements. -/
def bindAll (scopeOf : String → Option ScopeId) (b : Linkage) : List Stmt → Linkage
  | [] => b
  | ⟨span, .importModule target localName⟩ :: stmts =>
    bindAll scopeOf (b.bind scopeOf target localName span) stmts
  | _ :: stmts => bindAll scopeOf b stmts

end Linkage

/-- What comes of the imports of a module. -/
def Module.linkage (scopeOf : String → Option ScopeId) (m : Module) : Linkage :=
  .bindAll scopeOf {} m.body

namespace Resolver

open ResolveM

/-- The state in which a linkage has been put in place for a module. -/
def linkedWith (r : Resolver) (slot : Nat) (s : Slot) (b : Linkage) : Resolver :=
  { r with
    checker :=
      { r.checker with
        scopes := r.checker.scopes.modify s.scope fun x => { x with imports := b.imports }
        context := (r.checker.context.enter s.module).reportEach b.reports }
    slots := r.slots.modify slot fun x => { x with uses := b.uses } }

section

variable {r : Resolver} {s : Slot}

theorem linkedWith_report (r : Resolver) (slot : Nat) (s : Slot) (b : Linkage) (cause : Cause)
    (span : Span) :
    { r.linkedWith slot s b with checker := (r.linkedWith slot s b).checker.report cause span } =
      r.linkedWith slot s { b with reports := b.reports ++ [(cause, span)] } := by
  simp [linkedWith, Checker.report, Context.reportEach]

/-- Binding an import of a module puts the longer linkage in place. -/
theorem exec_linkImport (slot : Nat) (hscope : s.scope < r.checker.scopes.size) (b : Linkage)
     (target : String) (localName : Option String) (span : Span) :
    exec (linkImport slot s.scope target localName span) (r.linkedWith slot s b) =
      r.linkedWith slot s
        (b.bind r.checker.scopes.moduleScope? target localName span) := by
  have himports : ((r.linkedWith slot s b).checker.scopes.scope s.scope).imports = b.imports := by
    simp only [linkedWith, scope_modify, hscope, and_self, if_true]
  have hregistry : (r.linkedWith slot s b).checker.scopes.moduleScope? target =
      r.checker.scopes.moduleScope? target := rfl
  unfold linkImport
  dsimp only
  rw [exec_get, Scope.import?, himports, Linkage.bind]
  split
  · exact linkedWith_report ..
  · rw [ScopeTree.addImport?, hregistry]
    cases r.checker.scopes.moduleScope? target with
    | none => exact linkedWith_report ..
    | some scope =>
      simp only [exec_bind, exec_modify, exec_modifySlot, linkedWith, array_modify_modify,
        modify_modify, Slot.addUse]
      congr 2
      funext x
      split <;> rfl

theorem exec_linkStmts (slot : Nat) (hscope : s.scope < r.checker.scopes.size) (stmts : List Stmt)
    (b : Linkage) : exec (linkStmts slot s.scope stmts) (r.linkedWith slot s b) =
      r.linkedWith slot s (.bindAll r.checker.scopes.moduleScope? b stmts) := by
  induction stmts generalizing b with
  | nil => rfl
  | cons stmt stmts ih =>
    obtain ⟨span, kind⟩ := stmt
    cases kind with
    | importModule target localName =>
      rw [linkStmts, exec_bind, exec_linkImport slot hscope]
      exact ih _
    | _ => exact ih b

/-- Linking a module that has not been linked before puts its linkage in place. -/
theorem exec_link {slot : Nat} (hs : r.slots[slot]? = some s)
    (hscope : s.scope < r.checker.scopes.size) (huses : s.uses = [])
    (himports : (r.checker.scopes.scope s.scope).imports = []) : exec (link slot) r =
      r.linkedWith slot s (s.module.linkage r.checker.scopes.moduleScope?) := by
  have hstart : exec (enter s.module) r = r.linkedWith slot s {} := by
    have hslots : (r.slots.modify slot fun x => { x with uses := [] }) = r.slots :=
      array_modify_eq_self fun x hx => by
        cases hs.symm.trans hx
        rw [← huses]
    have hscopes : (r.checker.scopes.modify s.scope fun x => { x with imports := [] }) =
        r.checker.scopes := modify_eq_self (by rw [← himports])
    rw [linkedWith, hslots, hscopes]
    rfl
  unfold link
  rw [exec_get, hs]
  change exec (linkStmts slot s.scope s.module.body) (exec (enter s.module) r) = _
  rw [hstart]
  exact exec_linkStmts slot hscope s.module.body {}

end

theorem slots_linkedWith (r : Resolver) (slot : Nat) (s : Slot) (b : Linkage) (i : Nat) :
    (r.linkedWith slot s b).slots[i]? =
      r.slots[i]?.map fun x => { x with uses := if i = slot then b.uses else x.uses } := by
  rw [linkedWith, Array.getElem?_modify]
  by_cases hi : i = slot
  · simp [hi]
  · simp [hi, Ne.symm hi]

theorem modules_linkedWith (r : Resolver) (slot : Nat) (s : Slot) (b : Linkage) :
    (r.linkedWith slot s b).modules = r.modules :=
  modules_modifySlot r _ slot fun _ => rfl

theorem scope_linkedWith {r : Resolver} {s : Slot} (hscope : s.scope < r.checker.scopes.size)
    (slot : Nat) (b : Linkage) (i : ScopeId) : (r.linkedWith slot s b).checker.scopes.scope i =
      { r.checker.scopes.scope i with
        imports := if i = s.scope then b.imports else (r.checker.scopes.scope i).imports } := by
  rw [linkedWith, scope_modify]
  by_cases hi : i = s.scope
  · rw [if_pos ⟨hi, hi ▸ hscope⟩, if_pos hi]
  · rw [if_neg fun h => hi h.1, if_neg hi]

end Resolver

end Warden

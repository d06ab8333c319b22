import Warden.Proofs.Visits.Stmt

/-!
# Frees that are put off

A statement under `defer` is checked where it stands, but a call of `free` in it is put off to the
end of the scope in which the `defer` stands. Nothing else asks whether there is a `defer` around.
So a record can be released while the deferred statement is checked, in three ways.

* A call in it hands the pointer over.
* A block in it has a `defer` of its own, and what that puts off is carried out when the block ends.
* A function is declared in it that frees the pointer. The `defer` does not reach into its body.

`deferred_frees_wait` says that there are no others, and what is carried out when the scope of the
`defer` ends. `deferred_statement_frees_at_once` is a program with one statement of each kind.
-/

namespace Warden

open CheckM Check

namespace Visit

/-- Whether the visit is to a call of `free`. -/
def isFree (v : Visit) : Bool :=
  match v.part with
  | .value _ ⟨_, _, .call callee _⟩ => callForm v.state callee v.scope == .free
  | _ => false

theorem exists_of_isFree {v : Visit} (h : v.isFree = true) :
    ∃ role id span callee args, v.part = .value role ⟨id, span, .call callee args⟩ ∧
      callForm v.state callee v.scope = .free := by
  unfold isFree at h
  split at h
  next hpart => exact ⟨_, _, _, _, _, hpart, eq_of_beq h⟩
  · cases h

/-- A call of `free` under a `defer` releases nothing at once. -/
theorem releases_of_isFree {v : Visit} (hfree : v.isFree = true) {target : ScopeId}
    (htarget : v.state.walk.deferTarget = some target) (x : RecordId) : v.releases x = false := by
  obtain ⟨role, id, span, callee, args, hpart, hform⟩ := exists_of_isFree hfree
  have hparts : Agree ((callParts callee args v.scope).exec v.state) v.state :=
    (Agree.ofObserves (rule_exprs v.scope args).observes _).trans
      (.ofObserves (rule_expr v.scope callee).observes _)
  have hwaits : ((callParts callee args v.scope).exec v.state).walk.deferTarget = some target :=
    (congrArg Walk.deferTarget hparts.walk).trans htarget
  have heffect : (callEffect callee args span v.scope).eval v.state =
      freeEffect (some target) span
        (freedName? args ((callParts callee args v.scope).eval v.state)) := by
    rw [callEffect, eval_get_bind, hform, ← hwaits]
    rfl
  have hnone : ((callEffect callee args span v.scope).eval v.state).released = [] := by
    rw [heffect]
    cases freedName? args ((callParts callee args v.scope).eval v.state) <;> rfl
  simp [releases, effect?, hpart, hnone]

end Visit

/-- While a deferred statement is checked, a record that was there is freed exactly if a call in the
statement releases it at once or the end of a scope inside does. A call of `free` outside of the
functions that are declared in the statement is not such a call: it waits for the end of the scope,
or of a scope inside. When the scope ends, what has been put off to it is carried out. -/
theorem deferred_frees_wait {c : Checker} {scope : ScopeId} (hscope : scope < c.scopes.size)
    (span : Span) (stmt : Stmt) :
    let s : Stmt := ⟨span, .defer stmt⟩
    let d := (s.check scope).exec c
    let waiting := (c.scopes.scope scope).deferred ++
      (s.visits scope c).filterMap (·.putOffTo scope)
    (∀ x b, c.freed? x = some b → d.freed? x = some (b ||
      ((s.visits scope c).any (·.releases x) || (s.ends scope c).any (·.releases x)))) ∧
    (∀ v ∈ s.visits scope c, v.isFree = true → v.state.walk.frames = c.walk.frames →
      (∀ x, v.releases x = false) ∧ ∃ target, v.state.walk.deferTarget = some target ∧
        (target = scope ∨ c.scopes.size ≤ target)) ∧
    (∀ e ∈ s.ends scope c, c.scopes.size ≤ e.scope) ∧
    (d.scopes.scope scope).deferred = waiting ∧
    ∀ x, (d.leaveScope scope).freed? x =
      (d.freed? x).map (· || waiting.any fun f => d.recordId? scope f.name == some x) := by
  intro s d waiting
  have hinner := (walked_stmt scope stmt { c with walk := c.walk.enterDefer scope }).explained
  have hall : Explains scope (s.visits scope c) (s.ends scope c) c d :=
    (walked_stmt scope s c).explained
  have hqueue : (d.scopes.scope scope).deferred = waiting := hall.queues scope hscope
  refine ⟨hall.records, fun v hv hfree hframes => ?_, hall.inner, hqueue, fun x => ?_⟩
  · obtain ⟨_, _, _, _, _, hpart, -⟩ := Visit.exists_of_isFree hfree
    have hcall : v.effect?.isSome := by simp [Visit.effect?, hpart]
    -- seen from inside, there is a `defer` around all that is not in a function
    have htarget : ∃ target, v.state.walk.deferTarget = some target ∧
        (target = scope ∨ c.scopes.size ≤ target) := by
      cases hinner.places v hv hcall with
      | inFunction hlonger =>
        rw [hframes] at hlonger
        exact absurd hlonger (Nat.lt_irrefl _)
      | here _ htarget => exact ⟨scope, htarget, .inl rfl⟩
      | inDefer _ target htarget hplace => exact ⟨target, htarget, hplace⟩
    obtain ⟨target, hdefer, hplace⟩ := htarget
    exact ⟨Visit.releases_of_isFree hfree hdefer, target, hdefer, hplace⟩
  · rw [(d.leaveScope_spec scope).2.2 x, ← hqueue]
    rfl

/-! ### Deferred statements in a module -/

/-- The call of a function with `p`. -/
def passesPointer (function : String) : Stmt :=
  ⟨{}, .expr ⟨10, {}, .call ⟨11, {}, .ident function⟩ [⟨12, {}, .ident "p"⟩]⟩⟩

/-- The end of a module with a pointer `p` and a function `consume` that takes pointers over. -/
def pointerModule : Checker :=
  let int : TypeExpr := .named {} none "int"
  let param : Param := { name := "q", ty := .pointer {} int, takesOwnership := true }
  let release : Stmt := ⟨{}, .expr ⟨1, {}, .call ⟨2, {}, .ident "free"⟩ [⟨3, {}, .ident "q"⟩]⟩⟩
  Program.check { modules := [{ name := "main", body := [
    ⟨{}, .fn ⟨"consume", [param], .named {} none "void", ⟨{}, [release]⟩, false, false, false⟩⟩,
    ⟨{}, .var {
      name := "p", ty := some (.pointer {} int)
      value := some ⟨4, {}, .call ⟨5, {}, .ident "alloc"⟩ [⟨6, {}, .int 8⟩]⟩ }⟩] }] } {}

/-- A call of `free` in a branch waits, and the end of the module carries it out. -/
theorem deferred_branch_waits :
    let s : Stmt := ⟨{}, .defer ⟨{}, .conditional
      [(⟨7, {}, .bool true⟩, ⟨{}, [passesPointer "free"]⟩)] none⟩⟩
    let d := (s.check 1).exec pointerModule
    1 < pointerModule.scopes.size ∧ pointerModule.freed? ⟨1, 0⟩ = some false ∧
      d.freed? ⟨1, 0⟩ = some false ∧ (d.leaveScope 1).freed? ⟨1, 0⟩ = some true := by
  have hsize : 1 < pointerModule.scopes.size := by decide +kernel
  have hlive : pointerModule.freed? ⟨1, 0⟩ = some false := by decide +kernel
  obtain ⟨hrecords, -, -, -, hleave⟩ := deferred_frees_wait hsize {} ⟨{}, .conditional
    [(⟨7, {}, .bool true⟩, ⟨{}, [passesPointer "free"]⟩)] none⟩
  have hkept := hrecords ⟨1, 0⟩ false hlive
  refine ⟨hsize, hlive, hkept.trans (by decide +kernel), ?_⟩
  exact (hleave ⟨1, 0⟩).trans (by rw [hkept]; decide +kernel)

/-- Under `defer`, a pointer that is handed over is freed at once, and so is one that a block frees
under a `defer` of its own or that a function frees. Nothing is left for the end of the module. -/
theorem deferred_statement_frees_at_once :
    let inBlock : Stmt := ⟨{}, .block ⟨{}, [⟨{}, .defer (passesPointer "free")⟩]⟩⟩
    let inFunction : Stmt := ⟨{}, .fn
      ⟨"f", [], .named {} none "void", ⟨{}, [passesPointer "free"]⟩, false, false, false⟩⟩
    pointerModule.freed? ⟨1, 0⟩ = some false ∧
      ∀ stmt ∈ [passesPointer "consume", inBlock, inFunction],
        let d := (Stmt.check 1 ⟨{}, .defer stmt⟩).exec pointerModule
        d.freed? ⟨1, 0⟩ = some true ∧ (d.scopes.scope 1).deferred = [] := by
  decide +kernel

end Warden

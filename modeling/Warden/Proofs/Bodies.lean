import Warden.Proofs.Frame

/-!
# What the check of a function's body leaves alone

The body of a function is checked in a new scope. Of the scopes that were there before, none gets
or loses a symbol, an import or a deferred call, and only the ledgers of the scopes around the
function may change (`FnDecl.frame_checkBody`).
-/

namespace Warden

open CheckM

/-- The state in which the body of a function begins. -/
def Checker.enteredBody (c : Checker) (parent : ScopeId) (name : String) (frame : Frame) :
    Checker :=
  { c with scopes := c.scopes.addFunction parent name, walk := c.walk.enterFunction frame }

namespace FnDecl

theorem exec_checkBody (f : FnDecl) (sig : Check.Signature) (span : Span) (parent : ScopeId)
    (name : String) (c : Checker) : (f.checkBody sig span parent name).exec c =
      { (((f.checkInside sig span c.scopes.size).exec
          (c.enteredBody parent name (f.frame sig name))).leaveScope c.scopes.size).reportLeaks
            c.scopes.size with walk := c.walk } := by
  rw [checkBody_eq]
  rfl

end FnDecl

/-- How the state after the check of a body stands to the state in which the body began, where `n`
is the scope of the body and `S` are those around it. -/
structure BodyFrame (node : NodeId → Prop) (n : ScopeId) (S : List Level) (c d : Checker) :
    Prop where
  nested : Nested S d
  size : n < d.scopes.size
  contents : ∀ i < n, (d.scopes.scope i).contents = (c.scopes.scope i).contents
  outline : ∀ i < n, (d.scopes.scope i).outline = (c.scopes.scope i).outline
  ledger : ∀ i < n, i ∉ S.map (·.scope) →
    (d.scopes.scope i).ledger = (c.scopes.scope i).ledger
  grown : Grown node c d

/-- What is kept by a check is kept inside the scope of a body. -/
theorem StackInvariant.inside {declared node : Nat → Prop} {I P : List Level → Checker → Prop}
    (hI : Unconditional I) (hP : StackInvariant declared node I P) {f : FnDecl}
    (hnodes : ∀ id ∈ stmtNodes f.body.stmts, node id) (sig : Check.Signature) (span : Span)
    {l m : Level} {S : List Level} {c : Checker} (hi : I (l :: m :: S) c) (hp : P (l :: m :: S) c) :
    I (l :: m :: S) (((f.checkInside sig span l.scope).exec c).leaveScope l.scope) ∧
      P (l :: m :: S) (((f.checkInside sig span l.scope).exec c).leaveScope l.scope) := by
  have hR := hI.lockstep hP
  have hsig : sig.Alike (.same declared node) sig :=
    ⟨Pairing.same_tys declared node sig.params, Pairing.same_ty declared node sig.ret⟩
  obtain ⟨hi', hp', -⟩ := of_inStep
    (hR.inStep_checkInside f hsig span (hR.inStep_stmts f.body.stmts hnodes)) hi hp
  exact leaveScope hI hP hi' hp'

/-- The check of a body keeps its frame. -/
theorem FnDecl.frame_checkBody (f : FnDecl) (sig : Check.Signature) (span : Span) (name : String)
    {l : Level} {S : List Level} {c : Checker} (h : Nested (l :: S) c) :
    BodyFrame (· ∈ stmtNodes f.body.stmts) c.scopes.size (l :: S)
      (c.enteredBody l.scope name (f.frame sig name))
      ((f.checkBody sig span l.scope name).exec c) := by
  have hbody : Nested (⟨c.scopes.size, true⟩ :: l :: S)
      (c.enteredBody l.scope name (f.frame sig name)) :=
    nested_unconditional.pushBody (f.frame sig name) name trivial h
  obtain ⟨hnested, hframed⟩ := StackInvariant.inside nested_unconditional (framed_invariant hbody)
    (fun _ _ => trivial) sig span hbody (.refl _ _ nofun)
  obtain ⟨-, hgrown⟩ := StackInvariant.inside nested_unconditional
    (Grown.invariant (· ∈ stmtNodes f.body.stmts) _ Nested) (fun _ hid => hid) sig span hbody
    (.refl _ _)
  have hleft := nested_unconditional.popBody trivial h trivial hnested
  have hgrown' := (hgrown.memory (.reportLeaks c.scopes.size)).setWalk c.walk
  rw [exec_checkBody]
  have hlt : ∀ i < c.scopes.size,
      i < (c.enteredBody l.scope name (f.frame sig name)).scopes.size := by
    intro i hi
    exact Nat.lt_of_lt_of_eq (Nat.lt_succ_of_lt hi) (ScopeTree.size_addScope ..).symm
  have hsize : c.scopes.size < (c.enteredBody l.scope name (f.frame sig name)).scopes.size :=
    Nat.lt_of_lt_of_eq (Nat.lt_succ_self _) (ScopeTree.size_addScope ..).symm
  have hscopes := Checker.scopes_reportLeaks (((f.checkInside sig span c.scopes.size).exec
    (c.enteredBody l.scope name (f.frame sig name))).leaveScope c.scopes.size) c.scopes.size
  refine ⟨hleft, ?_, fun i hi => ?_, fun i hi => ?_, fun i hi hout => ?_, hgrown'⟩
  · rw [hscopes]
    exact Nat.lt_of_lt_of_le hsize hframed.size
  · rw [hscopes]
    exact hframed.contents i (hlt i hi) (Nat.ne_of_lt hi)
  · rw [hscopes]
    exact hframed.outline i (hlt i hi)
  · rw [hscopes]
    refine hframed.ledger i (hlt i hi) fun hmem => ?_
    rcases List.mem_cons.mp hmem with heq | hmem
    · exact Nat.ne_of_lt hi heq
    · exact hout hmem

end Warden

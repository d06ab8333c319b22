import Warden.Proofs.Faults.Declarations

/-!
# Statements keep their books

Checking goes on after a fault, so that the verdict on a statement is the conjunction of the
verdicts on its parts. New scopes and the calls of `free` at their ends fail nothing, and what
changes the walk for the time of one action hands it back.
-/

namespace Warden

open CheckM Check Checker

variable {start c : Checker} {p : Prop}

/-! ### Scopes and the walk -/

theorem judged_addBlock (h : Account start c p) (parent : ScopeId) (name : String) :
    Judged start c (addBlock parent name) (fun _ => p) fun _ _ => True :=
  ⟨h.quiet (h.wellTyped.setScopes fun _ => ScopeTree.declares_addScope) rfl,
    .one (.addBlock parent name), trivial⟩

theorem judged_addFunction (h : Account start c p) (parent : ScopeId) (name : String) :
    Judged start c (addFunction parent name) (fun _ => p) fun _ _ => True :=
  ⟨h.quiet (h.wellTyped.setScopes fun _ => ScopeTree.declares_addScope) rfl,
    .one (.addFunction parent name), trivial⟩

/-- An action in a changed walk. The functions around are the old ones again in the end. -/
theorem passes_within (h : c.WellTyped) (change : Walk → Walk)
    (hframes : ∀ f ∈ (change c.walk).frames, f.returnType.KnownIn c.structs) {m : CheckM Bool}
    (hm : ∀ {d : Checker}, d.WellTyped → d.structs = c.structs → Passes d d m) :
    Passes c c (within change m) := by
  have hin := hm (h.setWalk hframes) rfl
  have hold : ∀ f ∈ c.walk.frames, f.returnType.KnownIn (m.exec _).structs := fun f hf =>
    (h.frames f hf).mono hin.extend
  exact ⟨⟨hin.account.wellTyped.setWalk hold, hin.account.findings⟩,
    ((Moves.one (.setWalk hframes)).trans hin.moves).trans (.one (.setWalk hold)), trivial⟩

/-- At the end of a function's body the scope is left and leaks are reported. The verdict stands. -/
theorem passes_leaveFunction (h : Account start c p) {ok : Bool} (hok : p ↔ ok = false)
    (scope : ScopeId) : Passes start c (do
      modify (·.leaveScope scope)
      modify (·.reportLeaks scope)
      return ok) := by
  have hleave := Judged.ofMemoryOp h (.leaveScope scope)
  have hleaks := Judged.ofMemoryOp hleave.account (.reportLeaks scope)
  exact hleave.bind (hleaks.bind (.ofPure hleaks.account hok trivial))

/-! ### Statements -/

mutual

theorem passes_stmt (scope : ScopeId) :
    (s : Stmt) → ∀ {c : Checker}, c.WellTyped → Passes c c (s.check scope)
  | ⟨span, .var decl⟩, _, h => passes_varDecl span scope h decl
  | ⟨span, .fn decl⟩, _, h => by
    refine (yields_fnDecl span scope h decl).cases (passes_false · trivial) fun sig h hsig => ?_
    exact ((passes_body sig span scope decl.name decl h.wellTyped hsig).after h).weaken (by simp)
      trivial
  | ⟨span, .struct decl⟩, c, h => by
    have hhead := judged_structDecl span scope h decl
    refine hhead.bind ?_
    cases hsome : (structDecl decl span scope).eval c with
    | none => exact passes_false hhead.account (by rw [hsome]; rfl)
    | some head =>
      have hmethods := (passes_structMethodBodies scope head.signatures decl hhead.account.wellTyped
        (hhead.good head hsome)).after hhead.account
      rw [hsome] at hmethods
      exact Passes.conj hmethods
  | ⟨span, .enum decl⟩, _, h => passes_enumDecl span scope h decl
  | ⟨span, .importModule module _⟩, _, h => .ofGet (passes_placed h rfl span)
  | ⟨span, .ret value⟩, c, h => by
    refine .ofGet ?_
    have hfound := named_initializer scope h value
    refine hfound.bind (passes_returned span hfound.account ?_ _)
    cases value <;> rfl
  | ⟨_, .conditional branches otherwise⟩, _, h => by
    have hbranches := passes_branches scope "if" branches h
    exact hbranches.bind (Passes.conj ((passes_optionalBlock scope "else" otherwise
      hbranches.account.wellTyped).after hbranches.account))
  | ⟨_, .loop init cond step body⟩, c, h => by
    have hinner := judged_addBlock (.refl h) scope "loop"
    have hinit := (passes_optionalStmt c.scopes.size init hinner.account.wellTyped).after
      hinner.account
    have hcond := (passes_optionalCondition c.scopes.size hinit.account.wellTyped cond).after
      hinit.account
    have hstep := (passes_optionalEffect c.scopes.size hcond.account.wellTyped step).after
      hcond.account
    have hloop := hstep.account.wellTyped
    have hbody := (passes_within hloop Walk.enterLoop hloop.frames fun h _ =>
      passes_block c.scopes.size "loop body" body h).after hstep.account
    have hleave := Judged.ofMemoryOp hbody.account (.leaveScope c.scopes.size)
    refine hinner.bind (hinit.bind (hcond.bind (hstep.bind (hbody.bind (hleave.bind
      (.ofPure hleave.account ?_ trivial))))))
    simp only [Bool.and_eq_false_iff, false_or]
  | ⟨span, .breakLoop⟩, _, h => .ofGet (passes_placed h rfl span)
  | ⟨span, .continueLoop⟩, _, h => .ofGet (passes_placed h rfl span)
  | ⟨span, .switch scrutinee cases otherwise⟩, c, h => by
    have hty := typed_expr scope scrutinee h
    have hcases := (judged_cases scope ((scrutinee.check scope).eval c) cases
      hty.account.wellTyped).after hty.account
    have hrest := (passes_optionalBlock scope "default" otherwise
      hcases.account.wellTyped).after hcases.account
    have hexhaustive := judged_exhaustiveness span scope hrest.account
      ((scrutinee.check scope).eval c)
      ((checkCases scope ((scrutinee.check scope).eval c) cases).eval
        ((scrutinee.check scope).exec c)).2
      otherwise.isSome
    refine hty.bind (hcases.bind (hrest.bind (hexhaustive.bind (.ofPure hexhaustive.account ?_
      trivial))))
    simp only [Bool.and_eq_false_iff, Option.isSome_eq_false_iff, Option.isNone_iff_eq_none]
    rfl
  | ⟨_, .defer stmt⟩, _, h =>
    passes_within h (Walk.enterDefer scope) h.frames fun h _ => passes_stmt scope stmt h
  | ⟨_, .block block⟩, _, h => passes_block scope "block" block h
  | ⟨_, .expr e⟩, _, h => passes_effect scope h e

theorem passes_stmts (scope : ScopeId) :
    (ss : List Stmt) → ∀ {c : Checker}, c.WellTyped → Passes c c (checkStmts scope ss)
  | [], _, h => passes_true (.refl h) not_false
  | s :: ss, _, h => by
    have hs := passes_stmt scope s h
    exact hs.bind (Passes.conj ((passes_stmts scope ss hs.account.wellTyped).after hs.account))

theorem passes_optionalStmt (scope : ScopeId) :
    (s : Option Stmt) → ∀ {c : Checker}, c.WellTyped → Passes c c (checkOptionalStmt scope s)
  | none, _, h => passes_true (.refl h) not_false
  | some s, _, h => passes_stmt scope s h

theorem passes_block (parent : ScopeId) (name : String) :
    (block : Block) → ∀ {c : Checker}, c.WellTyped → Passes c c (block.checkIn parent name)
  | ⟨_, stmts⟩, c, h => by
    have hscope := judged_addBlock (.refl h) parent name
    have hstmts := (passes_stmts c.scopes.size stmts hscope.account.wellTyped).after hscope.account
    have hleave := Judged.ofMemoryOp hstmts.account (.leaveScope c.scopes.size)
    exact hscope.bind (hstmts.bind (hleave.bind (.ofPure hleave.account (by simp) trivial)))

theorem passes_optionalBlock (parent : ScopeId) (name : String) :
    (block : Option Block) → ∀ {c : Checker}, c.WellTyped →
      Passes c c (checkOptionalBlock parent name block)
  | none, _, h => passes_true (.refl h) not_false
  | some block, _, h => passes_block parent name block h

theorem passes_branches (scope : ScopeId) :
    (name : String) → (branches : List (Expr × Block)) → ∀ {c : Checker}, c.WellTyped →
      Passes c c (checkBranches scope name branches)
  | _, [], _, h => passes_true (.refl h) not_false
  | name, (cond, block) :: branches, _, h => by
    have hcond := passes_condition scope h cond
    have hblock := (passes_block scope name block hcond.account.wellTyped).after hcond.account
    have hrest := (passes_branches scope "elif" branches hblock.account.wellTyped).after
      hblock.account
    refine hcond.bind (hblock.bind (hrest.bind (.ofPure hrest.account ?_ trivial)))
    simp only [Bool.and_eq_false_iff]

theorem judged_cases (scope : ScopeId) (expected : Option Ty) :
    (cases : List SwitchCase) → ∀ {c : Checker}, c.WellTyped →
      Judged c c (checkCases scope expected cases) (·.1 = false) fun _ _ => True
  | [], _, h => .ofPure (.refl h) (by simp) trivial
  | ⟨_, values, body⟩ :: cases, _, h => by
    have hvalues := judged_caseValues scope expected values h
    have hbody := (passes_block scope "case" body hvalues.account.wellTyped).after hvalues.account
    have hrest := (judged_cases scope expected cases hbody.account.wellTyped).after hbody.account
    refine hvalues.bind (hbody.bind (hrest.bind (.ofPure hrest.account ?_ trivial)))
    simp only [Bool.and_eq_false_iff]
    rfl

theorem passes_body (sig : Signature) (span : Span) (parent : ScopeId) (name : String) :
    (d : FnDecl) → ∀ {c : Checker}, c.WellTyped → sig.ty.KnownIn c.structs →
      Passes c c (d.checkBody sig span parent name)
  | ⟨fnName, params, _, ⟨_, stmts⟩, _, returnsOwnership, takesOwnership⟩, c, h, hsig => by
    have hscope := judged_addFunction (.refl h) parent name
    have hframes : ∀ f ∈ (c.walk.enterFunction { returnType := sig.ret, ownership :=
        { function := name, returnsOwnership, takesOwnership } }).frames,
        f.returnType.KnownIn c.structs :=
      List.forall_mem_cons.mpr ⟨hsig.ret, h.frames⟩
    refine hscope.bind (((passes_within hscope.account.wellTyped _ hframes ?_).after
      hscope.account).weaken (by simp) trivial)
    intro d h hstructs
    have hparams := passes_declareParams c.scopes.size takesOwnership params sig.params h
      (hstructs ▸ hsig.params)
    have hbody := (passes_stmts c.scopes.size stmts hparams.account.wellTyped).after hparams.account
    refine hparams.bind (hbody.bind ?_)
    dsimp only
    split
    next hmissing =>
      have hreport := Judged.ofReport hbody.account (.missingReturn fnName sig.ret) rfl span
      refine hreport.bind (passes_leaveFunction hreport.account ?_ c.scopes.size)
      rw [Bool.not_eq_true', Bool.or_eq_false_iff] at hmissing
      simp [hmissing]
    next hreturns =>
      refine passes_leaveFunction hbody.account ?_ c.scopes.size
      simp only [Bool.not_eq_true', Bool.not_eq_false] at hreturns
      rw [hreturns, Bool.and_true, Bool.and_eq_false_iff]

theorem passes_structMethodBodies (scope : ScopeId) (signatures : List (Option Signature)) :
    (d : StructDecl) → ∀ {c : Checker}, c.WellTyped →
      (∀ sig, some sig ∈ signatures → sig.ty.KnownIn c.structs) →
      Passes c c (d.checkMethods scope signatures)
  | ⟨name, _, _, methods⟩, _, h, hsigs => passes_methods scope name methods signatures h hsigs

theorem passes_methods (scope : ScopeId) (owner : String) :
    (methods : List MethodDecl) → (signatures : List (Option Signature)) → ∀ {c : Checker},
      c.WellTyped → (∀ sig, some sig ∈ signatures → sig.ty.KnownIn c.structs) →
      Passes c c (checkMethods scope owner methods signatures)
  | ⟨span, decl⟩ :: methods, some sig :: signatures, c, h, hsigs => by
    have hbody := passes_body sig span scope s!"{owner}.{decl.name}" decl h
      (hsigs sig List.mem_cons_self)
    have hrest := passes_methods scope owner methods signatures hbody.account.wellTyped
      fun s hs => (hsigs s (List.mem_cons_of_mem _ hs)).mono hbody.extend
    exact hbody.bind (Passes.conj (hrest.after hbody.account))
  | ⟨_, _⟩ :: methods, none :: signatures, _, h, hsigs =>
    passes_methods scope owner methods signatures h fun s hs => hsigs s (List.mem_cons_of_mem _ hs)
  | [], _, _, h, _ => passes_true (.refl h) not_false
  | ⟨_, _⟩ :: _, [], _, h, _ => passes_true (.refl h) not_false

end

end Warden

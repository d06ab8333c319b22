import Warden.Proofs.Visits.Declarations

/-!
# The traces of statements

A statement visits the parts it is made of, in blocks and bodies in scopes of their own. The bodies
of a struct's methods come after the types of all its members, so the visits are complete up to
their order. All that a check does to records and queues comes from the calls it visits and from the
scopes that end in it. `Walked` says both, and the theorems follow the recursion of the walk, one
for each of its functions.
-/

namespace Warden

open CheckM Check Trace

variable {scope inner : ScopeId} {c d : Checker} {visits : List Visit} {name : String}
  {ends : List Ending} {span : Span}

/-! ### Methods -/

/-- The expressions in the bodies of the methods that have a signature. -/
def bodySites : List MethodDecl → List (Option Signature) → List Site
  | ⟨_, decl⟩ :: methods, some _ :: signatures => decl.body.sites ++ bodySites methods signatures
  | _ :: methods, none :: signatures => bodySites methods signatures
  | _, _ => []

/-- If all methods have signatures, their types and bodies are all there is in them. -/
theorem methodSites_perm : (methods : List MethodDecl) → {signatures : List (Option Signature)} →
    signatures.length = methods.length → none ∉ signatures →
      (methodTypeSites methods ++ bodySites methods signatures).Perm (methodSites methods)
  | [], [], _, _ => .nil
  | ⟨_, ⟨_, params, ret, body, _, _, _⟩⟩ :: methods, some _ :: signatures, hlength, hall => by
    have hrest := methodSites_perm methods (Nat.succ.inj hlength)
      (List.not_mem_of_not_mem_cons hall)
    simp only [methodTypeSites, bodySites, methodSites, FnDecl.sites, List.append_assoc]
    refine .append_left _ (.append_left _ ?_)
    exact (List.perm_append_comm_assoc _ _ _).trans (hrest.append_left _)
  | _ :: _, none :: _, _, hall => absurd List.mem_cons_self hall

theorem length_structMethods (owner : String) (scope : ScopeId) :
    (methods : List MethodDecl) → ∀ (draft : StructDraft) (c : Checker),
      ((structMethods owner scope draft methods).eval c).2.length = methods.length
  | [], _, _ => rfl
  | ⟨span, d⟩ :: methods, draft, c => by
    have hone : ∀ c, ((structMethods owner scope draft [⟨span, d⟩]).eval c).2.length = 1 := by
      intro c
      simp only [structMethods, eval_bind]
      cases hsig : (signature d.params d.returnType scope).eval c with
      | none => simp
      | some sig =>
        cases hadd : draft.addMethod? d.name sig.ty d.isPublic (methodTraits d) <;> simp [hadd]
    rw [structMethods_cons]
    simp [hone, length_structMethods owner scope methods, Nat.add_comm]

/-- The signatures in the head of a struct are those of its methods, one for each. -/
theorem signatures_structDecl {d : StructDecl} {head : StructHead}
    (h : (structDecl d span scope).eval c = some head) :
    head.signatures.length = d.methods.length ∧ (head.isOk = true → none ∉ head.signatures) := by
  simp only [structDecl, eval_bind] at h
  split at h
  · simp only [eval_bind, eval_pure, Option.some.injEq] at h
    subst h
    refine ⟨length_structMethods .., fun hok hnone => ?_⟩
    simp only [Bool.and_eq_true, List.all_eq_true] at hok
    exact absurd (hok.2 none hnone) nofun
  · cases h

/-- A struct visits the types of its members and then the bodies of its methods. If there is no
fault, no body is passed over. -/
theorem Traced.structStmt {decl : StructDecl} (h : c.WellTyped)
    (hmethods : ∀ head, (structDecl decl span scope).eval c = some head →
      Traced ((structDecl decl span scope).exec c) scope (bodySites decl.methods head.signatures)
      (decl.methodVisits scope head.signatures ((structDecl decl span scope).exec c))
      (decl.checkMethods scope head.signatures)) :
    Traced c scope decl.sites (Stmt.visits scope ⟨span, .struct decl⟩ c)
      (Stmt.check scope ⟨span, .struct decl⟩) := by
  have hhead := judged_structDecl span scope h decl
  have hmembers := (followed_structDecl scope c decl span).traced h
  have hrest : Traced ((structDecl decl span scope).exec c) scope
      (((structDecl decl span scope).eval c).elim [] fun head =>
        bodySites decl.methods head.signatures)
      (whenSome (fun head => decl.methodVisits scope head.signatures)
        ((structDecl decl span scope).eval c) ((structDecl decl span scope).exec c))
      (((structDecl decl span scope).eval c).elim (pure false) fun head => do
        let ok ← decl.checkMethods scope head.signatures
        return head.isOk && ok) := by
    cases hsome : (structDecl decl span scope).eval c with
    | none => exact (Idle.ofPure false).traced _
    | some head => exact (hmethods head hsome).last (.ofPure _)
  have hcheck : Stmt.check scope ⟨span, .struct decl⟩ = (do
      let head ← structDecl decl span scope
      head.elim (pure false) fun head => do
        let ok ← decl.checkMethods scope head.signatures
        return head.isOk && ok) := by
    rw [Stmt.check]
    refine bind_congr fun head => ?_
    cases head <;> rfl
  rw [hcheck]
  refine (hmembers.bind hhead fun _ => hrest).perm fun hclean => ?_
  have hok := (hclean.left hrest.later).not_failed hhead.account
  cases hsome : (structDecl decl span scope).eval c with
  | none => simp [hsome] at hok
  | some head =>
    obtain ⟨hlength, hall⟩ := signatures_structDecl hsome
    have hnone := hall (by simpa [hsome] using hok)
    obtain ⟨_, _, fields, methods⟩ := decl
    rw [List.append_assoc]
    exact .append_left _ (methodSites_perm methods hlength hnone)

/-! ### Scopes inside -/

section

variable {α : Type} {c : Checker} {scope : ScopeId} {sites : List Site} {visits : List Visit}

/-- What is visited in a new block is visited in a scope of the same module. -/
theorem Traced.inBlock (h : c.WellTyped) {k : ScopeId → CheckM α}
    (hk : ((addBlock scope name).exec c).WellTyped →
      Traced ((addBlock scope name).exec c) c.scopes.size sites visits (k c.scopes.size)) :
    Traced c scope sites visits (addBlock scope name >>= k) := by
  refine .first (idle_addBlock scope name) (judged_addBlock (.refl h) scope name) fun h => ?_
  refine (hk h).rebase fun module hmodule => ?_
  exact c.scopes.owningModule?_addScope scope name .block none nofun hmodule

end

/-- At the end of a function's body the scope is left and leaks are reported. -/
theorem idle_leaveFunction (scope : ScopeId) (ok : Bool) : Idle (do
      modify (·.leaveScope scope)
      modify (·.reportLeaks scope)
      return ok) :=
  (Idle.memory (.leaveScope scope)).bind fun _ =>
    (Idle.memory (.reportLeaks scope)).bind fun _ => .ofPure ok

/-- At the end of a function's body its scope is left and leaks are reported. -/
theorem Explains.leaveFunction (h : Explains scope visits ends c d) (hnew : c.scopes.size ≤ inner)
    (cause : Cause) (span : Span) (returns ok : Bool) :
    Explains scope visits (ends ++ [⟨inner, d⟩]) c
      ((do
        if !returns then report cause span
        modify (·.leaveScope inner)
        modify (·.reportLeaks inner)
        return ok : CheckM Bool).exec d) := by
  have hleaks := (silent_reportLeaks inner).sparing
  cases returns with
  | true => exact (h.leaveScope rfl rfl hnew).last (hleaks _)
  | false =>
    have hreport : (d.report cause span).scopes = d.scopes := rfl
    exact (h.leaveScope hreport rfl hnew).last (hleaks _)

/-- The body of a function, seen from where the function is declared. -/
theorem Explains.ofFunction {frame : Frame}
    (h : Explains inner visits ends { c with walk := c.walk.enterFunction frame } d) :
    Explains scope visits ends c { d with walk := c.walk } :=
  ⟨h.size, rfl, h.records, h.queues, fun v hv hcall => (h.places v hv hcall).ofFunction rfl,
    h.inner⟩

/-! ### Actions that are walked through -/

/-- Visits and the ends of scopes explain what the action does to memory. If the state in which it
starts is `sound`, the visits are its trace. -/
structure Walked {α : Type} (sound : Prop) (scope : ScopeId) (c : Checker) (sites : List Site)
    (visits : List Visit) (ends : List Ending) (m : CheckM α) : Prop where
  explained : Explained scope c visits ends m
  traced : sound → Traced c scope sites visits m

section

variable {α β : Type} {near : ScopeId → Checker → Checker → Prop} {sound : Prop}
  {scope : ScopeId} {c : Checker} {sites sites' : List Site} {visits visits' : List Visit}
  {ends ends' : List Ending} {m : CheckM α} {k : α → CheckM β}

theorem Followed.walked (h : Followed near scope c sites visits m) :
    Walked c.WellTyped scope c sites visits [] m :=
  ⟨h.explained, h.traced⟩

namespace Walked

variable {good : StructTable → α → Prop}

theorem ofIdle (hidle : Idle m) (hsparing : Sparing m) : Walked sound scope c [] [] [] m :=
  ⟨.ofSparing hsparing c, fun _ => hidle.traced c⟩

theorem ofPure (a : α) : Walked sound scope c [] [] [] (pure a : CheckM α) :=
  ofIdle (.ofPure a) (.ofPure a)

theorem ofGet {k : Checker → CheckM β} (hk : Walked sound scope c sites visits ends (k c)) :
    Walked sound scope c sites visits ends (get >>= k) :=
  ⟨hk.explained, fun h => .ofGet (hk.traced h)⟩

section

variable (hm : Walked sound scope c sites visits ends m)

include hm

/-- One action after the other. -/
theorem bind {failed : α → Prop} (hj : sound → Judged c c m failed good)
    (hk : Walked (m.exec c).WellTyped scope (m.exec c) sites' visits' ends' (k (m.eval c))) :
    Walked sound scope c (sites ++ sites') (visits ++ visits') (ends ++ ends') (m >>= k) :=
  ⟨hm.explained.bind hk.explained, fun h => (hm.traced h).bind (hj h) hk.traced⟩

/-- What comes last visits nothing. -/
theorem last (hidle : Idle (k (m.eval c))) (hsparing : Sparing (k (m.eval c))) :
    Walked sound scope c sites visits ends (m >>= k) :=
  ⟨hm.explained.last (hsparing _), fun h => (hm.traced h).last hidle⟩

theorem result (f : α → β) : Walked sound scope c sites visits ends (m >>= fun a => pure (f a)) :=
  hm.last (.ofPure _) (.ofPure _)

end

/-- The walk goes on only if there is a result. If there is none, a fault has been found. -/
theorem cases {m : CheckM (Option α)} {k : Option α → CheckM β} {rest : α → Trace}
    {ends : α → Endings} (hm : Followed near scope c sites visits m)
    (hy : c.WellTyped → Yields good c c m) {b : β} (hnone : k none = pure b)
    (hsome : ∀ a, Walked ((m.exec c).WellTyped ∧ good (m.exec c).structs a) scope (m.exec c) sites'
      (rest a (m.exec c)) (ends a (m.exec c)) (k (some a))) :
    Walked c.WellTyped scope c (sites ++ sites') (visits ++ whenSome rest (m.eval c) (m.exec c))
      (Endings.whenSome ends (m.eval c) (m.exec c)) (m >>= k) := by
  refine ⟨hm.explained.casesEnding (hnone ▸ .ofPure b) fun a => (hsome a).explained, fun h => ?_⟩
  exact (hm.traced h).cases (hy h) (hnone ▸ .ofPure b) fun a h hgood => (hsome a).traced ⟨h, hgood⟩

/-- An action in a changed walk, in the same function. -/
theorem within (change : Walk → Walk) (hframes : (change c.walk).frames = c.walk.frames)
    (hplaced : ∀ v : Visit, v.Placed scope { c with walk := change c.walk } → v.Placed scope c)
    (hm : Walked ({ c with walk := change c.walk } : Checker).WellTyped scope
      { c with walk := change c.walk } sites visits ends m) :
    Walked c.WellTyped scope c sites visits ends (CheckM.within change m) :=
  ⟨hm.explained.within hplaced, fun h => .within h change (hframes ▸ h.frames) hm.traced⟩

/-- An action in a new block, which is left at its end. -/
theorem inBlock {k : ScopeId → CheckM α} (f : α → β)
    (hk : Walked ((addBlock scope name).exec c).WellTyped c.scopes.size
      ((addBlock scope name).exec c) sites visits ends (k c.scopes.size)) :
    Walked c.WellTyped scope c sites visits
      (ends ++ [⟨c.scopes.size, (k c.scopes.size).exec ((addBlock scope name).exec c)⟩]) (do
        let inner ← addBlock scope name
        let result ← k inner
        modify (·.leaveScope inner)
        return f result) := by
  have hblock : Explained scope c visits ends (addBlock scope name >>= k) := .inBlock hk.explained
  refine ⟨Explains.leaveScope hblock rfl rfl (Nat.le_refl _), fun h => .inBlock h fun h => ?_⟩
  exact (hk.traced h).last ((Idle.memory (.leaveScope c.scopes.size)).bind fun _ => .ofPure _)

/-- A jump does nothing but report that there may be nothing to leave. -/
theorem jump (cause : Cause) (span : Span) : Walked sound scope c [] [] [] (do
      if (← get).walk.loopDepth > 0 then return true
      else reject cause span : CheckM Bool) := by
  refine .ofGet ?_
  split
  · exact .ofPure true
  · exact .ofIdle (.reject cause span) (.reject cause span)

end Walked

end

/-! ### Statements -/

mutual

theorem walked_stmt (scope : ScopeId) : (s : Stmt) → ∀ c : Checker,
      Walked c.WellTyped scope c s.sites (s.visits scope c) (s.ends scope c) (s.check scope)
  | ⟨span, .var decl⟩, c => (followed_varDecl scope c decl span).walked
  | ⟨span, .fn decl⟩, c => by
    have hsites : (⟨span, .fn decl⟩ : Stmt).sites =
        (paramSites decl.params ++ decl.returnType.sites) ++ decl.body.sites := by
      obtain ⟨_, _, _, _, _, _, _⟩ := decl
      rw [Stmt.sites, FnDecl.sites, List.append_assoc]
    rw [hsites]
    exact .cases (followed_fnDecl scope c decl span) (fun h => yields_fnDecl span scope h decl) rfl
      fun sig => walked_body sig span scope decl.name decl _
  | ⟨span, .struct decl⟩, c => by
    have hmethods := fun head : StructHead =>
      walked_structMethodBodies scope head.signatures decl ((structDecl decl span scope).exec c)
    refine ⟨?_, fun h => .structStmt h fun head hhead => (hmethods head).traced ?_⟩
    · exact (followed_structDecl scope c decl span).explained.casesEnding (.ofPure false)
        fun head => ((hmethods head).result (head.isOk && ·)).explained
    · have hjudged := judged_structDecl span scope h decl
      exact ⟨hjudged.account.wellTyped, hjudged.good head hhead⟩
  | ⟨span, .enum decl⟩, c => ((binds_enumDecl scope decl span).passive.followed c).walked
  | ⟨span, .importModule module localName⟩, c =>
    ((passive_import scope span module localName).followed c).walked
  | ⟨span, .ret value⟩, c =>
    .ofGet ((followed_initializer scope c value).walked.last
      (.ofObserves (observes_returned _ value _ span)) (silent_returned _ value _ span).sparing)
  | ⟨_, .conditional branches otherwise⟩, c =>
    (walked_branches scope "if" branches c).bind (passes_branches scope "if" branches)
      ((walked_optionalBlock scope "else" otherwise _).result _)
  | ⟨_, .loop init cond step body⟩, c => by
    have hloop := Walked.inBlock (k := fun inner => do
        let _ ← checkOptionalStmt inner init
        let _ ← optionalCondition cond inner
        let _ ← optionalEffect step inner
        within Walk.enterLoop (body.checkIn inner "loop body")) id <|
      (walked_optionalStmt c.scopes.size init ((addBlock scope "loop").exec c)).bind
        (passes_optionalStmt c.scopes.size init) <|
      (followed_optionalCondition c.scopes.size _ cond).walked.bind
        (fun h => passes_optionalCondition c.scopes.size h cond) <|
      (followed_optionalEffect c.scopes.size _ step).walked.bind
        (fun h => passes_optionalEffect c.scopes.size h step) <|
      .within Walk.enterLoop rfl (fun _ => .ofLoop)
        (walked_block c.scopes.size "loop body" body _)
    -- the two actions give different results, but leave the same state
    rw [List.append_assoc] at hloop
    exact ⟨hloop.explained, fun h => ⟨⟨(hloop.traced h).later, (hloop.traced h).types⟩,
      (hloop.traced h).during, (hloop.traced h).complete⟩⟩
  | ⟨span, .breakLoop⟩, c => .jump .breakOutsideLoop span
  | ⟨span, .continueLoop⟩, c => .jump .continueOutsideLoop span
  | ⟨span, .switch scrutinee cases otherwise⟩, c =>
    (followed_value scope c scrutinee).walked.bind (typed_expr scope scrutinee) <|
      (walked_cases scope _ cases _).bind (judged_cases scope _ cases) <|
        (walked_optionalBlock scope "default" otherwise _).last
          ((reports_exhaustiveness scope _ _ _ span).idle.bind fun _ => .ofPure _)
          ((reports_exhaustiveness scope _ _ _ span).sparing.bind fun _ => .ofPure _)
  | ⟨_, .defer stmt⟩, _ =>
    .within (Walk.enterDefer scope) rfl (fun _ => .ofDefer) (walked_stmt scope stmt _)
  | ⟨_, .block block⟩, c => walked_block scope "block" block c
  | ⟨_, .expr e⟩, c => (followed_value scope c e).walked.result _

theorem walked_stmts (scope : ScopeId) : (ss : List Stmt) → ∀ c : Checker,
      Walked c.WellTyped scope c (stmtSites ss) (stmtVisits scope ss c) (stmtEnds scope ss c)
        (checkStmts scope ss)
  | [], _ => .ofPure true
  | s :: ss, c =>
    (walked_stmt scope s c).bind (passes_stmt scope s) ((walked_stmts scope ss _).result _)

theorem walked_optionalStmt (scope : ScopeId) : (s : Option Stmt) → ∀ c : Checker,
      Walked c.WellTyped scope c (optionalStmtSites s) (optionalStmtVisits scope s c)
        (optionalStmtEnds scope s c) (checkOptionalStmt scope s)
  | none, _ => .ofPure true
  | some s, c => walked_stmt scope s c

theorem walked_block (parent : ScopeId) (name : String) : (block : Block) → ∀ c : Checker,
      Walked c.WellTyped parent c block.sites (block.visitsIn parent name c)
        (block.endsIn parent name c) (block.checkIn parent name)
  | ⟨_, stmts⟩, c =>
    Walked.inBlock (k := (checkStmts · stmts)) id (walked_stmts c.scopes.size stmts _)

theorem walked_optionalBlock (parent : ScopeId) (name : String) :
    (block : Option Block) → ∀ c : Checker,
      Walked c.WellTyped parent c (optionalBlockSites block)
        (optionalBlockVisits parent name block c) (optionalBlockEnds parent name block c)
        (checkOptionalBlock parent name block)
  | none, _ => .ofPure true
  | some block, c => walked_block parent name block c

theorem walked_branches (scope : ScopeId) :
    (name : String) → (branches : List (Expr × Block)) → ∀ c : Checker,
      Walked c.WellTyped scope c (branchSites branches) (branchVisits scope name branches c)
        (branchEnds scope name branches c) (checkBranches scope name branches)
  | _, [], _ => .ofPure true
  | name, (cond, block) :: branches, c =>
    (followed_condition scope c cond).walked.bind (fun h => passes_condition scope h cond) <|
      (walked_block scope name block _).bind (passes_block scope name block) <|
        (walked_branches scope "elif" branches _).result _

theorem walked_cases (scope : ScopeId) (expected : Option Ty) :
    (cases : List SwitchCase) → ∀ c : Checker,
      Walked c.WellTyped scope c (caseSites cases) (caseVisits scope expected cases c)
        (caseEnds scope expected cases c) (checkCases scope expected cases)
  | [], _ => .ofPure (true, [])
  | ⟨_, values, body⟩ :: cases, c =>
    (followed_caseValues scope expected values c).walked.bind
        (judged_caseValues scope expected values) <|
      (walked_block scope "case" body _).bind (passes_block scope "case" body) <|
        (walked_cases scope expected cases _).result _

theorem walked_body (sig : Signature) (span : Span) (parent : ScopeId) (name : String) :
    (d : FnDecl) → ∀ c : Checker,
      Walked (c.WellTyped ∧ sig.ty.KnownIn c.structs) parent c d.body.sites
        (d.bodyVisits sig parent name c) (d.bodyEnds sig parent name c)
        (d.checkBody sig span parent name)
  | ⟨fnName, params, _, ⟨_, stmts⟩, _, returnsOwnership, takesOwnership⟩, c => by
    have hparams := binds_declareParams c.scopes.size takesOwnership params sig.params
    refine ⟨?_, fun ⟨h, hsig⟩ => .first (idle_addFunction parent name)
      (judged_addFunction (.refl h) parent name) fun h =>
        Traced.rebase (.within h _ ?_ fun h => ?_) fun _ =>
          c.scopes.owningModule?_addScope parent name (.function name) (some {}) nofun⟩
    · -- the scope is left inside the body, so the comparison starts in the walk of the body, but
      -- before the scope is added
      generalize hd : ({ c with
          walk := c.walk.enterFunction ⟨sig.ret, name, returnsOwnership, takesOwnership⟩ } :
        Checker) = d
      have hsize : d.scopes.size ≤ c.scopes.size := hd ▸ Nat.le_refl _
      have hentered := Sparing.addFunction parent name d
      have hbody := (Explains.ofKept (hentered.trans (hparams.sparing _))).trans
        (walked_stmts c.scopes.size stmts _).explained (.inl rfl)
      have hend := hbody.leaveFunction hsize (.missingReturn fnName sig.ret) span
      subst hd
      exact (hend _ _).ofFunction
    · exact List.forall_mem_cons.mpr ⟨hsig.ret, h.frames⟩
    · refine .first hparams.idle
        (passes_declareParams c.scopes.size takesOwnership params sig.params h hsig.params)
        fun h => ((walked_stmts c.scopes.size stmts _).traced h).last ?_
      dsimp only
      split
      · exact (Idle.report _ span).bind fun _ => idle_leaveFunction _ _
      · exact idle_leaveFunction _ _

theorem walked_structMethodBodies (scope : ScopeId) (signatures : List (Option Signature)) :
    (d : StructDecl) → ∀ c : Checker,
      Walked (c.WellTyped ∧ ∀ sig, some sig ∈ signatures → sig.ty.KnownIn c.structs) scope c
        (bodySites d.methods signatures) (d.methodVisits scope signatures c)
        (d.methodEnds scope signatures c) (d.checkMethods scope signatures)
  | ⟨name, _, _, methods⟩, c => walked_methods scope name methods signatures c

theorem walked_methods (scope : ScopeId) (owner : String) :
    (methods : List MethodDecl) → (signatures : List (Option Signature)) → ∀ c : Checker,
      Walked (c.WellTyped ∧ ∀ sig, some sig ∈ signatures → sig.ty.KnownIn c.structs) scope c
        (bodySites methods signatures) (methodVisits scope owner methods signatures c)
        (methodEnds scope owner methods signatures c) (checkMethods scope owner methods signatures)
  | ⟨span, decl⟩ :: methods, some sig :: signatures, c => by
    have hbody := walked_body sig span scope s!"{owner}.{decl.name}" decl c
    have hrest := walked_methods scope owner methods signatures
      ((decl.checkBody sig span scope s!"{owner}.{decl.name}").exec c)
    refine ⟨hbody.explained.bind (hrest.result _).explained, fun ⟨h, hsigs⟩ => ?_⟩
    have hsig := hsigs sig List.mem_cons_self
    have hpasses := passes_body sig span scope s!"{owner}.{decl.name}" decl h hsig
    refine (hbody.traced ⟨h, hsig⟩).bind hpasses fun h =>
      (hrest.result _).traced ⟨h, fun s hs => ?_⟩
    exact (hsigs s (List.mem_cons_of_mem _ hs)).mono hpasses.extend
  | ⟨_, _⟩ :: methods, none :: signatures, c =>
    have hrest := walked_methods scope owner methods signatures c
    ⟨hrest.explained, fun ⟨h, hsigs⟩ =>
      hrest.traced ⟨h, fun s hs => hsigs s (List.mem_cons_of_mem _ hs)⟩⟩
  | [], _, _ => .ofPure true
  | ⟨_, _⟩ :: _, [], _ => .ofPure true

end

end Warden

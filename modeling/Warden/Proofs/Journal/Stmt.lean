import Warden.Proofs.Journal.Ledgers

/-!
# Every check has its journal

The journal of a statement is that of its check, from any state, in any scope and with any bodies
around (`journal_stmt`). In every scope, the check opens records only as the state before it charges
them, and the bodies that it enters are those of which its journal tells (`attributes_stmts`).

One induction over the syntax proves both (`tells_stmt`). It follows the walk: each part is a rule,
or one of the cases of `Journaled`. Which bodies a statement comes to is said by
`Stmt.ComesToBody`, one body after the other. As the statement itself is entered into the journal
when it is done, the bodies that it declares are those of which the journal of its parts does not
tell yet.
-/

namespace Warden

open CheckM Check Journal

/-! ### Between two states -/

/-- In a scope, with these bodies around, a check can lead from the first state to the second, and
these are its entries. They tell of all bodies that have been entered, except for its own. -/
structure Told (own : Body → Prop) (scope : ScopeId) (around : List Enclosure) (c : Checker)
    (entries : List Entry) (d : Checker) : Prop where
  journaled : Journaled scope around c entries d
  attributed : InPlace scope c →
    Attributed (fun b => Opened entries b ∨ own b) scope c entries d

namespace Told

variable {own own' : Body → Prop} {scope : ScopeId} {around : List Enclosure} {c d e : Checker}
  {entries entries' : List Entry}

theorem congr (h : Told own scope around c entries d) (hown : ∀ b, own' b ↔ own b) :
    Told own' scope around c entries d :=
  ⟨h.journaled, fun hc => (h.attributed hc).congr fun b => or_congr_right (hown b)⟩

theorem trans (h : Told own scope around c entries d) (h' : Told own' scope around d entries' e) :
    Told (fun b => own b ∨ own' b) scope around c (entries ++ entries') e := by
  refine ⟨h.journaled.trans h'.journaled, fun hc => ?_⟩
  have hfirst := h.attributed hc
  have hrest := h'.attributed (hfirst.scopes.inPlace hc hfirst.walk)
  refine (hfirst.trans hc hrest).congr fun b => ?_
  exact (or_congr_left opened_append).trans or_or_or_comm

/-- A statement is done. -/
theorem stmt (s : Stmt)
    (h : Told (StmtVisit.Opens ⟨s, around, scope, c⟩) scope around c entries d) :
    Told (fun _ => False) scope around c (entries ++ [.checked ⟨s, around, scope, c⟩])
      { d with context := d.context.reportAny s.span (s.jumpFault? c.walk) } := by
  refine ⟨.stmt s h.journaled, fun hc => ?_⟩
  have hdone := ((h.attributed hc).stmt hc rfl).congr fun b => or_iff_left id
  exact hdone.update rfl hdone.walk

theorem block (name : String) (h : Told (fun _ => False) c.scopes.size around
      { c with scopes := c.scopes.addBlock scope name } entries d) :
    Told (fun _ => False) scope around c (entries ++ [.left ⟨c.scopes.size, d⟩])
      (d.leaveScope c.scopes.size) := by
  refine ⟨.block name h.journaled, fun hc => ?_⟩
  have hinside := h.attributed (hc.push name .block none fun _ ht => ht)
  exact ((hinside.congr fun b => (or_iff_left id).symm).block name hc).congr fun b => or_iff_left id

theorem loopBody
    (h : Told own scope (.loopBody :: around) { c with walk := c.walk.enterLoop } entries d) :
    Told own scope around c entries { d with walk := c.walk } := by
  refine ⟨.loopBody h.journaled, fun hc => ?_⟩
  exact (h.attributed (hc.setWalk fun _ ht => .inr ht)).within rfl fun _ ht => .inr ht

theorem defer (h : Told own scope around { c with walk := c.walk.enterDefer scope } entries d) :
    Told own scope around c entries { d with walk := c.walk } := by
  have htarget := c.walk.target_enterDefer scope
  refine ⟨.defer h.journaled, fun hc => ?_⟩
  exact (h.attributed (hc.setWalk htarget)).within rfl htarget

/-- The body of a function is its own until the declaration is done. -/
theorem function (name : String) (f : FnDecl) (sig : Signature)
    (h : Told (fun _ => False) c.scopes.size (.functionBody :: around)
      (c.enteredBody scope name (f.frame sig name)) entries d) :
    Told (fun b => b = ⟨c.scopes.size, name, f⟩) scope around c
      (entries ++ [.left ⟨c.scopes.size, d⟩, .leaks c.scopes.size])
      { (d.leaveScope c.scopes.size).reportLeaks c.scopes.size with walk := c.walk } := by
  refine ⟨.function name (f.frame sig name) h.journaled, fun hc => ?_⟩
  have htarget := c.walk.target_enterFunction (f.frame sig name)
  have hinside := h.attributed (hc.push name (.function name) (some {}) htarget)
  exact (hinside.congr fun b => (or_iff_left id).symm).function name f sig hc

end Told

/-! ### Journals of actions -/

/-- In a scope, with these bodies around, the journal is that of the action. It tells of all bodies
that the action enters, except for its own. -/
def Journal.Tells {α : Type} (own : Checker → Body → Prop) (journal : Journal) (scope : ScopeId)
    (around : List Enclosure) (m : CheckM α) : Prop :=
  ∀ c, Told (own c) scope around c (journal c) (m.exec c)

/-- In a scope, with these bodies around, the journal is that of the action. It tells of all bodies
that the action enters. -/
def Journal.TellsAll {α : Type} (journal : Journal) (scope : ScopeId) (around : List Enclosure)
    (m : CheckM α) : Prop :=
  journal.Tells (fun _ _ => False) scope around m

namespace Journal.TellsAll

variable {α β : Type} {scope : ScopeId} {around : List Enclosure} {m : CheckM α}
  {k : α → CheckM β} {first : Journal} {rest : α → Journal}

theorem ofRule {sites : List Site} {t : Trace} (h : ∀ c, Followed Charged scope c sites (t c) m) :
    (ofTrace t).TellsAll scope around m := by
  intro c
  have hruled : Ruled scope (t c) c (m.exec c) :=
    ⟨(h c).stays.plain, (h c).explained, fun v hv => ((h c).here v hv).2.plain.walk⟩
  refine ⟨.rule hruled, fun hc => ?_⟩
  have hrule := Attributed.ofCharged (h c).stays (.ofRuled hruled hc) (by simp)
  exact hrule.congr fun b => or_iff_left id

theorem ofPassive (hm : Passive Charged scope m) : nothing.TellsAll scope around m :=
  ofRule (t := Trace.nothing) hm.followed

theorem ofPure (a : α) : nothing.TellsAll scope around (pure a : CheckM α) :=
  ofPassive (.ofPure a)

theorem bind (hm : first.TellsAll scope around m) (hk : ∀ a, (rest a).TellsAll scope around (k a)) :
    (andThen m first rest).TellsAll scope around (m >>= k) :=
  fun c => ((hm c).trans (hk _ _)).congr fun _ => (or_iff_left id).symm

/-- What comes last has no entries. -/
theorem last (hm : first.TellsAll scope around m) (hk : ∀ a, Passive Charged scope (k a)) :
    first.TellsAll scope around (m >>= k) := by
  intro c
  have hall := (hm.bind fun a => ofPassive (hk a)) c
  rwa [andThen, nothing, List.append_nil] at hall

theorem result (hm : first.TellsAll scope around m) (f : α → β) :
    first.TellsAll scope around (m >>= fun a => pure (f a)) :=
  hm

variable {s : Stmt} {journal : Journal}

theorem opens (hkind : s.kind.hasBodies = false) (h : journal.TellsAll scope around m) :
    journal.Tells (fun c => StmtVisit.Opens ⟨s, around, scope, c⟩) scope around m := by
  refine fun c => (h c).congr fun b => iff_false_intro ?_
  rintro ⟨_, _, hcomes, -⟩
  exact absurd (hkind.symm.trans hcomes.hasBodies) Bool.false_ne_true

/-- A statement that is no jump is done when its parts are. -/
theorem ofParts (hjump : ∀ w, s.jumpFault? w = none) (h : (s.kind.journal s.span scope around).Tells
      (fun c => StmtVisit.Opens ⟨s, around, scope, c⟩) scope around (s.check scope)) :
    (s.journal scope around).TellsAll scope around (s.check scope) := by
  intro c
  have hstmt := (h c).stmt s
  rw [hjump, Context.reportAny] at hstmt
  obtain ⟨span, kind⟩ := s
  rw [Stmt.journal]
  exact hstmt

theorem ofStmt (hjump : ∀ w, s.jumpFault? w = none) (hkind : s.kind.hasBodies = false)
    (h : (s.kind.journal s.span scope around).TellsAll scope around (s.check scope)) :
    (s.journal scope around).TellsAll scope around (s.check scope) :=
  ofParts hjump (h.opens hkind)

/-- The head of a declaration is a rule. If it gives a result, bodies are entered. -/
theorem ofDeclaration {m : CheckM (Option α)}
    {k : Option α → CheckM Bool} {ok : Bool} (own : α → Checker → Body → Prop)
    (hjump : ∀ w, s.jumpFault? w = none)
    (hjournal : s.kind.journal s.span scope around = andThen m first (whenSome rest))
    (hcheck : s.check scope = m >>= k) (hopens : ∀ c b, StmtVisit.Opens ⟨s, around, scope, c⟩ b ↔
      ∃ a, m.eval c = some a ∧ own a (m.exec c) b)
    (hm : first.TellsAll scope around m) (hnone : k none = pure ok)
    (hsome : ∀ a, (rest a).Tells (own a) scope around (k (some a))) :
    (s.journal scope around).TellsAll scope around (s.check scope) := by
  refine ofParts hjump fun c => Told.congr ?_ (hopens c)
  rw [hjournal, hcheck, andThen, exec_bind]
  cases hresult : m.eval c with
  | none =>
    rw [hnone]
    exact ((hm c).trans (ofPure ok (m.exec c))).congr fun _ => by simp
  | some a => exact ((hm c).trans (hsome a (m.exec c))).congr fun _ => by simp

/-- A jump without parts. -/
theorem ofJump (hkind : s.kind.hasBodies = false)
    (hparts : s.kind.journal s.span scope around = nothing) (h : ∀ c, (s.check scope).exec c =
      { c with context := c.context.reportAny s.span (s.jumpFault? c.walk) }) :
    (s.journal scope around).TellsAll scope around (s.check scope) := by
  intro c
  obtain ⟨span, kind⟩ := s
  rw [Stmt.journal, hparts, h]
  exact .stmt ⟨span, kind⟩ ((ofPure ()).opens hkind c)

theorem inLoop (h : journal.TellsAll scope (.loopBody :: around) m) :
    (Journal.within Walk.enterLoop journal).TellsAll scope around
      (CheckM.within Walk.enterLoop m) :=
  fun _ => .loopBody (h _)

end Journal.TellsAll

/-! ### Rules -/

section

variable (scope : ScopeId) (around : List Enclosure)

/-- A `return` is a jump from nowhere if there is no function to return from. -/
theorem tells_ret (span : Span) (value : Option Expr) :
    ((⟨span, .ret value⟩ : Stmt).journal scope around).TellsAll scope around
      ((⟨span, .ret value⟩ : Stmt).check scope) := by
  intro c
  have hparts : (ofTrace (optionalExprVisits scope value)).TellsAll scope around
      (Check.initializer value scope) := .ofRule (followed_initializer scope · value)
  have hjump : (⟨span, .ret value⟩ : Stmt).jumpFault? c.walk =
    if c.walk.frames.isEmpty then some .returnOutsideFunction else none := rfl
  rw [Stmt.journal, StmtKind.journal, Stmt.check, exec_get_bind]
  cases hframes : c.walk.frames with
  | nil =>
    have hstmt := (hparts.opens rfl c).stmt ⟨span, .ret value⟩
    rw [hjump, hframes] at hstmt
    exact hstmt
  | cons frame frames =>
    have hreturned := hparts.last fun found =>
      (reports_returned scope frame.returnType value found span).passive
    have hstmt := (hreturned.opens rfl c).stmt ⟨span, .ret value⟩
    rw [hjump, hframes] at hstmt
    exact hstmt

end

/-- A `break` or `continue` is a jump from nowhere if there is no loop to go on from. -/
theorem exec_loopJump (cause : Cause) (span : Span) (c : Checker) : (do
      if (← get).walk.loopDepth > 0 then return true
      else reject cause span : CheckM Bool).exec c =
      { c with context :=
          c.context.reportAny span (if c.walk.loopDepth = 0 then some cause else none) } := by
  rw [exec_get_bind]
  by_cases hdepth : c.walk.loopDepth = 0
  · simp [hdepth, Context.reportAny, Checker.report]
  · simp [hdepth, Context.reportAny, Nat.pos_of_ne_zero hdepth]

theorem passive_endOfBody (scope : ScopeId) (fnName : String) (ret : Ty) (stmts : List Stmt)
    (span : Span) : Passive Charged scope (endOfBody fnName ret stmts span) := by
  unfold endOfBody
  split
  · exact .ofPure ()
  · exact .report rfl span

mutual

theorem tells_stmt (scope : ScopeId) (around : List Enclosure) :
    (s : Stmt) → (s.journal scope around).TellsAll scope around (s.check scope)
  | ⟨span, .var decl⟩ =>
    .ofStmt (fun _ => rfl) rfl (.ofRule (followed_varDecl scope · decl span))
  | ⟨span, .fn decl⟩ =>
    .ofDeclaration (fun _ c b => b = ⟨c.scopes.size, decl.name, decl⟩) (fun _ => rfl) rfl rfl
      (fun _ _ => opens_fn) (.ofRule (followed_fnDecl scope · decl span)) rfl
      fun sig => tells_body sig span scope decl.name around decl
  | ⟨span, .struct decl⟩ =>
    .ofDeclaration (fun head => OpensMethod scope decl.name decl.methods head.signatures)
      (fun _ => rfl) rfl rfl (fun _ _ => opens_struct)
      (.ofRule (followed_structDecl scope · decl span)) rfl
      fun head => tells_structMethods scope head.signatures around decl
  | ⟨span, .enum decl⟩ => .ofStmt (fun _ => rfl) rfl <|
    .ofPassive (binds_enumDecl scope decl span).passive
  | ⟨span, .importModule module localName⟩ => .ofStmt (fun _ => rfl) rfl <|
    .ofPassive (passive_import scope span module localName)
  | ⟨span, .ret value⟩ => tells_ret scope around span value
  | ⟨_, .conditional branches otherwise⟩ => .ofStmt (fun _ => rfl) rfl <|
    (tells_branches scope around "if" branches).bind fun _ =>
      (tells_optionalBlock scope "else" around otherwise).result _
  | ⟨_, .loop init cond step body⟩ => by
    refine .ofStmt (fun _ => rfl) rfl ?_
    have hinside := fun inner : ScopeId =>
      (tells_optionalStmt inner around init).bind fun _ =>
        (TellsAll.ofRule (followed_optionalCondition inner · cond)).bind fun _ =>
          (TellsAll.ofRule (followed_optionalEffect inner · step)).bind fun _ =>
            (tells_block inner "loop body" (.loopBody :: around) body).inLoop
    rw [StmtKind.journal, Stmt.check]
    intro c
    have hloop := Told.block "loop" (hinside c.scopes.size
      { c with scopes := c.scopes.addBlock scope "loop" })
    simp only [andThen, List.append_assoc] at hloop
    exact hloop
  | ⟨span, .breakLoop⟩ => .ofJump rfl rfl fun c => exec_loopJump .breakOutsideLoop span c
  | ⟨span, .continueLoop⟩ => .ofJump rfl rfl fun c => exec_loopJump .continueOutsideLoop span c
  | ⟨span, .switch scrutinee cases otherwise⟩ => .ofStmt (fun _ => rfl) rfl <|
    (TellsAll.ofRule (followed_value scope · scrutinee)).bind fun ty =>
      (tells_cases scope ty around cases).bind fun covered =>
        (tells_optionalBlock scope "default" around otherwise).last fun _ =>
          (reports_exhaustiveness scope ty covered.2 otherwise.isSome span).passive.bind
            fun _ => .ofPure _
  | ⟨_, .defer stmt⟩ => .ofStmt (fun _ => rfl) rfl fun _ => .defer (tells_stmt scope around stmt _)
  | ⟨_, .block block⟩ => .ofStmt (fun _ => rfl) rfl (tells_block scope "block" around block)
  | ⟨_, .expr e⟩ => .ofStmt (fun _ => rfl) rfl <|
    (TellsAll.ofRule (followed_value scope · e)).result _

theorem tells_stmts (scope : ScopeId) (around : List Enclosure) :
    (ss : List Stmt) → (stmtJournal scope around ss).TellsAll scope around (checkStmts scope ss)
  | [] => .ofPure true
  | s :: ss => (tells_stmt scope around s).bind fun _ => (tells_stmts scope around ss).result _

theorem tells_optionalStmt (scope : ScopeId) (around : List Enclosure) : (s : Option Stmt) →
      (optionalStmtJournal scope around s).TellsAll scope around (checkOptionalStmt scope s)
  | none => .ofPure true
  | some s => tells_stmt scope around s

theorem tells_block (parent : ScopeId) (name : String) (around : List Enclosure) : (block : Block) →
      (block.journalIn parent name around).TellsAll parent around (block.checkIn parent name)
  | ⟨_, stmts⟩ => fun c => .block name (tells_stmts c.scopes.size around stmts _)

theorem tells_optionalBlock (parent : ScopeId) (name : String) (around : List Enclosure) :
    (block : Option Block) →
      (optionalBlockJournal parent name around block).TellsAll parent around
        (checkOptionalBlock parent name block)
  | none => .ofPure true
  | some block => tells_block parent name around block

theorem tells_branches (scope : ScopeId) (around : List Enclosure) :
    (name : String) → (branches : List (Expr × Block)) →
      (branchJournal scope name around branches).TellsAll scope around
        (checkBranches scope name branches)
  | _, [] => .ofPure true
  | name, (cond, block) :: branches =>
    (TellsAll.ofRule (followed_condition scope · cond)).bind fun _ =>
      (tells_block scope name around block).bind fun _ =>
        (tells_branches scope around "elif" branches).result _

theorem tells_cases (scope : ScopeId) (expected : Option Ty) (around : List Enclosure) :
    (cases : List SwitchCase) →
      (caseJournal scope expected around cases).TellsAll scope around
        (checkCases scope expected cases)
  | [] => .ofPure (true, [])
  | ⟨_, values, body⟩ :: cases =>
    (TellsAll.ofRule (followed_caseValues scope expected values)).bind fun _ =>
      (tells_block scope "case" around body).bind fun _ =>
        (tells_cases scope expected around cases).result _

theorem tells_body (sig : Signature) (span : Span) (parent : ScopeId) (name : String)
    (around : List Enclosure) : (f : FnDecl) →
      (f.bodyJournal sig span parent name around).Tells
        (fun c b => b = ⟨c.scopes.size, name, f⟩) parent around (f.checkBody sig span parent name)
  | ⟨fnName, params, ret, ⟨bodySpan, stmts⟩, isPublic, returnsOwnership, takesOwnership⟩ => by
    intro c
    have hparams := binds_declareParams c.scopes.size takesOwnership params sig.params
    have hinside := (TellsAll.ofPassive hparams.passive).bind fun _ =>
      (tells_stmts c.scopes.size (.functionBody :: around) stmts).last fun _ =>
        passive_endOfBody c.scopes.size fnName sig.ret stmts span
    have hbody := @Told.function parent around c _ _ name
      ⟨fnName, params, ret, ⟨bodySpan, stmts⟩, isPublic, returnsOwnership, takesOwnership⟩ sig
      (hinside _)
    rw [FnDecl.bodyJournal, FnDecl.checkBody, exec_bind, exec_within]
    simp only [exec_bind] at hbody ⊢
    unfold endOfBody at hbody ⊢
    generalize (sig.ret.isVoid || alwaysReturn stmts) = returns at hbody ⊢
    cases returns <;> exact hbody

theorem tells_structMethods (scope : ScopeId) (signatures : List (Option Signature))
    (around : List Enclosure) : (decl : StructDecl) →
      (decl.methodJournal scope signatures around).Tells
        (OpensMethod scope decl.name decl.methods signatures) scope around
        (decl.checkMethods scope signatures)
  | ⟨name, _, _, methods⟩ => tells_methods scope name around methods signatures

theorem tells_methods (scope : ScopeId) (owner : String) (around : List Enclosure) :
    (methods : List MethodDecl) → (signatures : List (Option Signature)) →
      (methodJournal scope owner around methods signatures).Tells
        (OpensMethod scope owner methods signatures) scope around
        (checkMethods scope owner methods signatures)
  | ⟨span, decl⟩ :: methods, some sig :: signatures => by
    intro c
    have hbody := tells_body sig span scope s!"{owner}.{decl.name}" around decl c
    have hrest := tells_methods scope owner around methods signatures
      ((decl.checkBody sig span scope s!"{owner}.{decl.name}").exec c)
    have hfirst : (checkMethods scope owner [⟨span, decl⟩] [some sig]).exec c =
      (decl.checkBody sig span scope s!"{owner}.{decl.name}").exec c := by simp [checkMethods]
    rw [methodJournal, checkMethods]
    refine (hbody.trans hrest).congr fun b => ?_
    rw [opensMethod_cons, hfirst]
    exact or_congr_left (and_iff_right rfl)
  | ⟨span, decl⟩ :: methods, none :: signatures => by
    intro c
    have hfirst : (checkMethods scope owner [⟨span, decl⟩] [none]).exec c = c := by
      simp [checkMethods]
    rw [methodJournal, checkMethods]
    refine (tells_methods scope owner around methods signatures c).congr fun b => ?_
    rw [opensMethod_cons, hfirst]
    simp
  | [], _ => fun c =>
    (TellsAll.ofPure true c).congr fun _ => iff_false_intro (not_opensMethod (.inl rfl))
  | ⟨_, _⟩ :: _, [] => fun c =>
    (TellsAll.ofPure true c).congr fun _ => iff_false_intro (not_opensMethod (.inr rfl))

end

/-! ### What follows for statements -/

theorem journal_stmts (scope : ScopeId) (around : List Enclosure) (ss : List Stmt) :
    (stmtJournal scope around ss).IsOf scope around (checkStmts scope ss) :=
  fun c => (tells_stmts scope around ss c).journaled

end Warden

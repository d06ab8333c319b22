import Warden.Proofs.Attained
import Warden.Proofs.Bodies

/-!
# Statements keep to their scope

A statement that is checked in a scope declares names in that scope, and these can be read off the
statement (`Stmt.declares`): the name of a variable, a function or a struct, an enum with its
members, and nothing for all other statements. What is declared in a block, a branch, a loop, a case
or the body of a function goes into a scope of its own.

`stmt_keeps_to_scope` collects what the check of a statement can do to the scopes and structs that
were there before. A name that the statement does not declare therefore means the same after it as
before, from wherever it is looked up.
-/

namespace Warden

open CheckM Check ScopeTree

variable {symbol : Symbol} {t : ScopeTree} {name : String} {c : Checker} {i : ScopeId}

/-! ### The names that a statement declares -/

/-- The name of an enum, and those of its members. -/
def EnumDecl.declares (d : EnumDecl) : List String :=
  d.name :: d.members.map fun member => s!"{d.name}.{member}"

/-- The names that a statement declares in the scope where it stands. -/
def Stmt.declares : Stmt → List String
  | ⟨_, .var decl⟩ => [decl.name]
  | ⟨_, .fn decl⟩ => [decl.name]
  | ⟨_, .struct decl⟩ => [decl.name]
  | ⟨_, .enum decl⟩ => decl.declares
  | ⟨_, .defer s⟩ => s.declares
  | _ => []

/-- From every state with a tree of scopes, the action leaves one, and gives the scope only symbols
of these names. -/
def Declares {α : Type} (names : List String) (scope : ScopeId) (m : CheckM α) : Prop :=
  ∀ c : Checker, c.scopes.Arena → scope < c.scopes.size →
    (m.exec c).scopes.Arena ∧ scope < (m.exec c).scopes.size ∧
      ∃ new, ((m.exec c).scopes.scope scope).symbols = (c.scopes.scope scope).symbols ++ new ∧
        ∀ symbol ∈ new, symbol.name ∈ names

namespace Declares

variable {α β : Type} {names : List String} {scope : ScopeId}

theorem bind_eval {m : CheckM α} {k : α → CheckM β} (hm : Declares names scope m)
    (hk : ∀ c, Declares names scope (k (m.eval c))) : Declares names scope (m >>= k) := by
  intro c harena hscope
  obtain ⟨harena₁, hscope₁, new, hnew, hnames⟩ := hm c harena hscope
  obtain ⟨harena₂, hscope₂, new', hnew', hnames'⟩ := hk c (m.exec c) harena₁ hscope₁
  refine ⟨harena₂, hscope₂, new ++ new', ?_, ?_⟩
  · rw [← List.append_assoc, ← hnew]
    exact hnew'
  · intro symbol hsymbol
    exact (List.mem_append.mp hsymbol).elim (hnames symbol) (hnames' symbol)

theorem bind {m : CheckM α} {k : α → CheckM β} (hm : Declares names scope m)
    (hk : ∀ a, Declares names scope (k a)) : Declares names scope (m >>= k) :=
  hm.bind_eval fun _ => hk _

theorem ofGet {k : Checker → CheckM β} (hk : ∀ c, Declares names scope (k c)) :
    Declares names scope (get >>= k) :=
  fun c => hk c c

/-- What leaves the tree alone, but for memory, declares nothing. -/
theorem ofScopes {m : CheckM α}
    (h : ∀ c, (m.exec c).scopes.withoutMemory = c.scopes.withoutMemory) :
    Declares names scope m := by
  intro c harena hscope
  have hrooted : Checker.Rooted 0 c := ⟨harena, Nat.zero_lt_of_lt hscope, Nat.zero_le _⟩
  have hsize : (m.exec c).scopes.size = c.scopes.size := by
    rw [← size_withoutMemory, h, size_withoutMemory]
  have hsame : ((m.exec c).scopes.scope scope).withoutMemory =
      (c.scopes.scope scope).withoutMemory := by
    rw [← scope_withoutMemory, h, scope_withoutMemory]
  refine ⟨(hrooted.ofMemory (h c)).arena, hsize ▸ hscope, [], ?_, by simp⟩
  rw [List.append_nil]
  exact congrArg (·.symbols) hsame

theorem ofPure (a : α) : Declares names scope (pure a : CheckM α) :=
  ofScopes fun _ => rfl

theorem observing {node : NodeId → Prop} {m : CheckM α} (hm : Observes node m) :
    Declares names scope m :=
  ofScopes fun c => (hm.quiet c).scopes

theorem ofReject (cause : Cause) (span : Span) : Declares names scope (reject cause span) :=
  ofScopes fun _ => rfl

/-- A symbol that is put into a scope. -/
theorem insert (hscope : scope < c.scopes.size) (h : c.scopes.insert? scope symbol = some t) :
    (t.scope scope).symbols = (c.scopes.scope scope).symbols ++
      [{ symbol with depth := (c.scopes.scope scope).depth }] := by
  obtain ⟨-, rfl⟩ := eq_of_insert? h
  rw [scope_modify, if_pos ⟨rfl, hscope⟩]

theorem ofDeclare (hname : symbol.name ∈ names) (span : Span) :
    Declares names scope (declare scope symbol span) := by
  intro c harena hscope
  have hrooted : Checker.Rooted (scope + 1) c := ⟨harena, Nat.zero_lt_of_lt hscope, hscope⟩
  have hafter := hrooted.declare scope symbol span
  refine ⟨hafter.arena, hafter.size, ?_⟩
  obtain ⟨t, hinsert, -, hexec⟩ | ⟨cause, -, hexec⟩ := declare_cases scope symbol span c
  · rw [hexec]
    exact ⟨[{ symbol with depth := (c.scopes.scope scope).depth }], insert hscope hinsert,
      List.forall_mem_singleton.mpr hname⟩
  · rw [hexec]
    exact ⟨[], (List.append_nil _).symm, by simp⟩

/-- A symbol that is put into a scope if its name is free there. -/
theorem ofQuietInsert (hname : symbol.name ∈ names) : Declares names scope
      (modify fun c => { c with scopes := (c.scopes.insert? scope symbol).getD c.scopes }) := by
  intro c harena hscope
  have hrooted : Checker.Rooted (scope + 1) c := ⟨harena, Nat.zero_lt_of_lt hscope, hscope⟩
  cases hinsert : c.scopes.insert? scope symbol with
  | none =>
    rw [exec_modify, hinsert]
    exact ⟨harena, hscope, [], by simp⟩
  | some t =>
    have hafter := hrooted.declare scope symbol {}
    simp only [declare, exec_bind, exec_get, eval_get, hinsert] at hafter
    rw [exec_modify, hinsert]
    exact ⟨hafter.arena, hafter.size, _, insert hscope hinsert,
      List.forall_mem_singleton.mpr hname⟩

end Declares

/-! ### Scopes that are entered and left -/

/-- Wherever it starts, the action stays in a scope and below it. -/
def Stays {α : Type} (scope : ScopeId) (m : CheckM α) : Prop :=
  ∀ c₀ c : Checker, c₀.scopes.Arena → scope < c₀.scopes.size →
    Confined scope c₀ [⟨scope, false⟩] c → Confined scope c₀ [⟨scope, false⟩] (m.exec c)

namespace Stays

variable {α β : Type} {scope : ScopeId}

theorem bind {m : CheckM α} {k : α → CheckM β} (hm : Stays scope m)
    (hk : ∀ a, Stays scope (k a)) : Stays scope (m >>= k) := by
  intro c₀ c harena hscope h
  exact hk _ c₀ _ harena hscope (hm c₀ c harena hscope h)

theorem ofPure (a : α) : Stays scope (pure a : CheckM α) := by
  intro c₀ c _ _ h
  exact h

/-- What is in step with itself wherever a check is confined stays where it is. -/
theorem of_inStep {A : α → α → Prop} {m : CheckM α}
    (hm : ∀ c₀ : Checker, Unconditional (Confined scope c₀) →
      InStep (fun c d => [(⟨scope, false⟩ : Level)] = [⟨scope, false⟩] ∧ c = d ∧ True ∧
        Confined scope c₀ [⟨scope, false⟩] c) A m m) : Stays scope m := by
  intro c₀ c harena hscope h
  exact ((hm c₀ (confined_unconditional harena hscope)) c c ⟨rfl, rfl, trivial, h⟩).states.2.2.2

theorem stmts (ss : List Stmt) : Stays scope (checkStmts scope ss) :=
  of_inStep fun _ h => (unconditional_true.lockstep h).inStep_stmts ss fun _ _ => trivial

theorem optionalStmt (s : Option Stmt) : Stays scope (checkOptionalStmt scope s) :=
  of_inStep fun _ h => (unconditional_true.lockstep h).inStep_optionalStmt s fun _ _ => trivial

theorem optionalCondition (cond : Option Expr) : Stays scope (optionalCondition cond scope) :=
  of_inStep fun _ h =>
    (unconditional_true.lockstep h).expr.inStep_optionalCondition cond fun _ _ => trivial

theorem optionalEffect (e : Option Expr) : Stays scope (optionalEffect e scope) :=
  of_inStep fun _ h =>
    (unconditional_true.lockstep h).expr.inStep_optionalEffect e fun _ _ => trivial

theorem loopBody (body : Block) :
    Stays scope (within Walk.enterLoop (body.checkIn scope "loop body")) :=
  of_inStep fun _ h =>
    (unconditional_true.lockstep h).inStep_within (unconditional_true.lockstep h).enterLoop
      ((unconditional_true.lockstep h).inStep_block "loop body" body fun _ _ => trivial)

theorem inside (f : FnDecl) (sig : Signature) (span : Span) :
    Stays scope (f.checkInside sig span scope) :=
  of_inStep fun _ h =>
    (unconditional_true.lockstep h).inStep_checkInside f
      ⟨Pairing.same_tys _ _ sig.params, Pairing.same_ty _ _ sig.ret⟩ span
      ((unconditional_true.lockstep h).inStep_stmts f.body.stmts fun _ _ => trivial)

end Stays

theorem Confined.symbols_eq {s₀ : ScopeId} {c₀ : Checker} {S : List Level} (h : Confined s₀ c₀ S c)
    (hi : i < c₀.scopes.size) (hne : i ≠ s₀) :
    (c.scopes.scope i).symbols = (c₀.scopes.scope i).symbols := by
  obtain ⟨new, hnew, hhere⟩ := (h.touched i hi).symbols
  have hnil : new = [] := by
    by_contra hne'
    exact hne (hhere hne')
  rw [hnew, hnil, List.append_nil]

section

variable {α : Type} {names : List String} {scope : ScopeId}

/-- What is done in a new scope declares nothing in the scope around. -/
theorem declares_below {m : ScopeId → CheckM α} (hm : ∀ i, Stays i (m i)) {n : CheckM α}
    (owner : ScopeOwner) (ledger : Option Ledger) (name : String) (walk : Checker → Walk)
    (hn : ∀ c : Checker, (n.exec c).scopes.withoutMemory = ((m c.scopes.size).exec
      { c with
        scopes := c.scopes.addScope scope name owner ledger
        walk := walk c }).scopes.withoutMemory) :
    Declares names scope n := by
  intro c harena hscope
  have hgrown := harena.addScope name owner ledger hscope
  have hsize := c.scopes.size_addScope scope name owner ledger
  have hlt : c.scopes.size < (c.scopes.addScope scope name owner ledger).size := by omega
  have hlt' : scope < (c.scopes.addScope scope name owner ledger).size := Nat.lt_trans hscope hlt
  -- the action is confined to the new scope, so that the scope around keeps its symbols
  have hconfined := hm c.scopes.size
    { c with scopes := c.scopes.addScope scope name owner ledger, walk := walk c } _
    hgrown hlt (.refl hgrown hlt false)
  have hsymbols := hconfined.symbols_eq hlt' (Nat.ne_of_lt hscope)
  have hrooted : Checker.Rooted (scope + 1) _ :=
    ⟨hconfined.arena, Nat.lt_of_lt_of_le (Nat.zero_lt_of_lt hlt) hconfined.size,
      Nat.le_trans hlt' hconfined.size⟩
  have hafter := hrooted.ofMemory (hn c)
  refine ⟨hafter.arena, hafter.size, [], ?_, by simp⟩
  have hsame := congrArg (fun t : ScopeTree => (t.scope scope).symbols) (hn c)
  simp only [scope_withoutMemory] at hsame
  rw [List.append_nil, ← c.scopes.field_addScope scope name owner ledger Scope.symbols
    (fun _ _ => rfl) (Nat.ne_of_lt hscope)]
  exact hsame.trans hsymbols

theorem declares_inBlock (name : String) {m : ScopeId → CheckM α} (hm : ∀ i, Stays i (m i)) :
    Declares names scope
      (do let i ← addBlock scope name; let a ← m i; modify (·.leaveScope i); return a) :=
  declares_below hm .block none name (·.walk) fun _ => ((MemoryOp.leaveScope _).step _).scopes

theorem declares_block (name : String) (b : Block) :
    Declares names scope (b.checkIn scope name) := by
  obtain ⟨span, stmts⟩ := b
  exact declares_inBlock name fun _ => Stays.stmts stmts

theorem declares_optionalBlock (name : String) (b : Option Block) :
    Declares names scope (checkOptionalBlock scope name b) := by
  cases b with
  | none => exact .ofPure true
  | some b => exact declares_block name b

theorem declares_body (sig : Signature) (span : Span) (name : String) (f : FnDecl) :
    Declares names scope (f.checkBody sig span scope name) := by
  refine declares_below (fun _ => Stays.inside f sig span) (.function name) (some {}) name
    (·.walk.enterFunction (f.frame sig name)) fun c => ?_
  rw [FnDecl.exec_checkBody]
  exact ((MemoryOp.reportLeaks _).step _).scopes.trans ((MemoryOp.leaveScope _).step _).scopes

theorem declares_methods (owner : String) : (methods : List MethodDecl) →
    (sigs : List (Option Signature)) →
      Declares names scope (checkMethods scope owner methods sigs)
  | [], _ => .ofPure true
  | ⟨_, _⟩ :: _, [] => .ofPure true
  | ⟨_, _⟩ :: methods, none :: sigs => declares_methods owner methods sigs
  | ⟨span, decl⟩ :: methods, some sig :: sigs =>
    (declares_body sig span s!"{owner}.{decl.name}" decl).bind fun _ =>
      (declares_methods owner methods sigs).bind fun _ => .ofPure _

theorem declares_branches : (branches : List (Expr × Block)) → ∀ name : String,
    Declares names scope (checkBranches scope name branches)
  | [], _ => .ofPure true
  | (cond, block) :: branches, name =>
    (Declares.observing (rule_condition scope cond).observes).bind fun _ =>
      (declares_block name block).bind fun _ =>
        (declares_branches branches "elif").bind fun _ => .ofPure _

theorem declares_cases (expected : Option Ty) (cases : List SwitchCase) :
    Declares names scope (checkCases scope expected cases) := by
  induction cases with
  | nil => exact .ofPure _
  | cons case cases ih =>
    obtain ⟨_, values, body⟩ := case
    exact (Declares.observing (rule_caseValues scope expected values).observes).bind fun _ =>
      (declares_block "case" body).bind fun _ => ih.bind fun _ => .ofPure _

theorem declares_loop (init : Option Stmt) (cond step : Option Expr) (body : Block) (span : Span) :
    Declares names scope ((⟨span, .loop init cond step body⟩ : Stmt).check scope) := by
  have hloop : Declares names scope _ := declares_inBlock "loop" fun i =>
    (Stays.optionalStmt init : Stays i _).bind fun initOk =>
      (Stays.optionalCondition cond).bind fun condOk =>
        (Stays.optionalEffect step).bind fun stepOk =>
          (Stays.loopBody body).bind fun bodyOk =>
            Stays.ofPure (initOk && condOk && stepOk && bodyOk)
  simp only [bind_assoc, pure_bind] at hloop
  exact hloop

/-! ### Declarations -/

theorem declares_varDecl (decl : VarDecl) (span : Span) :
    Declares [decl.name] scope (varDecl decl span scope) := by
  refine (Declares.observing (observes_of_inStep scope
    (·.inStep_annotated decl.ty fun _ _ => trivial))).bind fun annotated => ?_
  cases annotated with
  | none => exact .ofPure false
  | some annotated =>
    refine (Declares.observing (rule_initializer scope decl.value).observes).bind fun value => ?_
    refine (Declares.observing (reports_variableType scope decl annotated value span).observes).bind
      fun found => ?_
    cases found with
    | none => exact .ofPure false
    | some found =>
      obtain ⟨ty, ok⟩ := found
      refine Declares.bind ?_ fun declared => .ofPure (declared && ok)
      unfold declareVariable
      split
      · exact .ofReject _ span
      · refine (Declares.ofDeclare (List.mem_singleton.mpr rfl) span).bind fun declared => ?_
        cases declared with
        | false => exact .ofPure false
        | true =>
          cases hvalue : decl.value with
          | none => exact .ofPure true
          | some value =>
            exact .ofGet fun c => (Declares.observing (rule_bindValue scope decl.name value
              (ownsResult c scope value) ty.isPointer span).observes).bind fun _ => .ofPure true

/-- The members that remain are among those of the declaration. -/
theorem subset_of_enumMembers (enum : String) (span : Span) (c : Checker) (members : List String)
    (seen : List String) : (enumMembers enum span seen members).eval c ⊆ members := by
  induction members generalizing seen c with
  | nil => exact List.Subset.refl _
  | cons member members ih =>
    unfold enumMembers
    split
    · exact fun x hx => List.mem_cons_of_mem _ (ih _ _ hx)
    · exact List.cons_subset_cons member (ih _ _)

theorem declares_declareEnumMembers (decl : EnumDecl) (span : Span) (members : List String)
    (hmembers : members ⊆ decl.members) :
    Declares decl.declares scope (declareEnumMembers decl span scope members) := by
  induction members with
  | nil => exact .ofPure ()
  | cons member members ih =>
    obtain ⟨hmember, hrest⟩ := List.cons_subset.mp hmembers
    refine Declares.bind (.ofQuietInsert ?_) fun _ => ih hrest
    exact List.mem_cons_of_mem _ (List.mem_map_of_mem hmember)

theorem declares_enumDecl (decl : EnumDecl) (span : Span) :
    Declares decl.declares scope (enumDecl decl span scope) := by
  refine Declares.bind_eval
    (.observing (reports_enumMembers scope decl.name span [] decl.members).observes) fun c => ?_
  have hmembers := subset_of_enumMembers decl.name span c decl.members []
  refine (Declares.ofDeclare (List.mem_cons_self ..) span).bind fun declared => ?_
  cases declared with
  | false => exact .ofPure false
  | true => exact (declares_declareEnumMembers decl span _ hmembers).bind fun _ => .ofPure _

theorem declares_fnDecl (f : FnDecl) (span : Span) :
    Declares [f.name] scope (fnDecl f span scope) := by
  refine (Declares.observing (observes_of_inStep scope fun hR => hR.inStep_signature f.params
    (fun _ _ => trivial) f.returnType fun _ _ => trivial)).bind fun sig => ?_
  cases sig with
  | none => exact .ofPure none
  | some sig =>
    refine (Declares.ofDeclare (List.mem_singleton.mpr rfl) span).bind fun declared => ?_
    cases declared with
    | false => exact .ofPure none
    | true => exact .ofPure (some sig)

theorem declares_structDecl (d : StructDecl) (span : Span) :
    Declares [d.name] scope (structDecl d span scope) := by
  refine (Declares.ofScopes fun _ => rfl).bind fun id => ?_
  refine (Declares.ofDeclare (List.mem_singleton.mpr rfl) span).bind fun declared => ?_
  cases declared with
  | false => exact .ofPure none
  | true =>
    refine (Declares.observing (rule_structFields scope (.struct id d.name) d.name { id }
      d.fields).observes).bind fun found => ?_
    refine (Declares.observing (rule_structMethods scope d.name found.1 d.methods).observes).bind
      fun methods => ?_
    exact (Declares.ofScopes fun _ => rfl).bind fun _ => .ofPure _

end

/-- A statement declares nothing but the names that can be read off it. -/
theorem declares_stmt (scope : ScopeId) : (s : Stmt) → Declares s.declares scope (s.check scope)
  | ⟨span, .var decl⟩ => declares_varDecl decl span
  | ⟨span, .fn decl⟩ => by
    refine (declares_fnDecl decl span).bind fun sig => ?_
    cases sig with
    | none => exact .ofPure false
    | some sig => exact declares_body sig span decl.name decl
  | ⟨span, .struct ⟨name, isPublic, fields, methods⟩⟩ => by
    refine (declares_structDecl ⟨name, isPublic, fields, methods⟩ span).bind fun head => ?_
    cases head with
    | none => exact .ofPure false
    | some head =>
      exact (declares_methods name methods head.signatures).bind fun ok => .ofPure (head.isOk && ok)
  | ⟨span, .enum decl⟩ => declares_enumDecl decl span
  | ⟨span, .importModule module _⟩ => by
    refine .ofGet fun c => ?_
    split
    · exact .ofPure true
    · exact .ofReject _ span
  | ⟨span, .ret value⟩ =>
    .ofGet fun c => (Declares.observing (rule_initializer scope value).observes).bind fun found =>
      .observing (observes_returned _ value found span)
  | ⟨_, .conditional branches otherwise⟩ =>
    (declares_branches branches "if").bind fun _ =>
      (declares_optionalBlock "else" otherwise).bind fun _ => .ofPure _
  | ⟨span, .loop init cond step body⟩ => declares_loop init cond step body span
  | ⟨span, .breakLoop⟩ => by
    refine .ofGet fun c => ?_
    split
    · exact .ofPure true
    · exact .ofReject _ span
  | ⟨span, .continueLoop⟩ => by
    refine .ofGet fun c => ?_
    split
    · exact .ofPure true
    · exact .ofReject _ span
  | ⟨span, .switch scrutinee cases otherwise⟩ =>
    (Declares.observing (rule_expr scope scrutinee).observes).bind fun ty =>
      (declares_cases ty cases).bind fun found =>
        (declares_optionalBlock "default" otherwise).bind fun _ =>
          (Declares.observing (reports_exhaustiveness scope ty found.2 otherwise.isSome
            span).observes).bind fun _ => .ofPure _
  | ⟨_, .defer stmt⟩ => fun c =>
    declares_stmt scope stmt { c with walk := c.walk.enterDefer scope }
  | ⟨_, .block block⟩ => declares_block "block" block
  | ⟨_, .expr e⟩ => (Declares.observing (rule_expr scope e).observes).bind fun _ => .ofPure _

/-! ### The frame of a statement -/

/-- How the state after the check of a statement in a scope stands to the state before. -/
structure StmtFrame (s : Stmt) (scope : ScopeId) (c d : Checker) : Prop where
  walk : d.walk = c.walk
  size : c.scopes.size ≤ d.scopes.size
  /-- The scopes that have been added are below the scope of the statement. -/
  created : ∀ i, c.scopes.size ≤ i → i < d.scopes.size → scope ∈ d.scopes.ancestors i
  /-- Of the scopes that were there, only that of the statement gets symbols and children, only that
  one and the target of an enclosing `defer` get deferred calls, only those around it can have their
  ledgers changed, and everything else in them stays. -/
  touched : ∀ i < c.scopes.size, Scope.Touched (i = scope) (c.walk.deferTarget = some i)
    (i ∈ c.scopes.ancestors scope) (c.scopes.scope i) (d.scopes.scope i)
  declared : ∃ new, (d.scopes.scope scope).symbols = (c.scopes.scope scope).symbols ++ new ∧
    ∀ symbol ∈ new, symbol.name ∈ s.declares
  structs : ∀ id < c.structs.size, d.structs.get? id = c.structs.get? id
  /-- Names mean the same as before, unless they are declared by the statement and looked up from
  its scope or from inside it. -/
  locate? : ∀ i < c.scopes.size, ∀ name, scope ∉ c.scopes.ancestors i ∨ name ∉ s.declares →
    d.scopes.locate? i name = c.scopes.locate? i name

theorem findSome?_congr_of_mem {α β : Type} {f g : α → Option β} {as : List α}
    (h : ∀ a ∈ as, f a = g a) : as.findSome? f = as.findSome? g := by
  induction as with
  | nil => rfl
  | cons a as ih =>
    obtain ⟨ha, has⟩ := List.forall_mem_cons.mp h
    rw [List.findSome?_cons, List.findSome?_cons, ha, ih has]

theorem ScopeTree.locate?_congr {u : ScopeTree} (hway : u.ancestors i = t.ancestors i)
    (h : ∀ j ∈ t.ancestors i, (u.scope j).symbol? name = (t.scope j).symbol? name) :
    u.locate? i name = t.locate? i name := by
  rw [locate?, locate?, hway]
  exact findSome?_congr_of_mem fun j hj => by rw [h j hj]

/-- More symbols of other names do not matter to a name. -/
theorem Scope.symbol?_append {s s' : Scope} {new : List Symbol} (h : s'.symbols = s.symbols ++ new)
    (hname : ∀ symbol ∈ new, symbol.name ≠ name) : s'.symbol? name = s.symbol? name := by
  have hnone : new.find? (·.name == name) = none := by
    rw [List.find?_eq_none]
    intro symbol hsymbol
    simpa using hname symbol hsymbol
  rw [symbol?, symbol?, h, List.find?_append, hnone, Option.or_none]

/-- **Statements keep to their scope.** In every state of a check that works in scopes that exist, a
statement that is checked in a scope adds scopes below it only. Of the scopes that were there, that
scope alone gets symbols, and only those that the statement declares, and children; deferred calls
go there and to the target of an enclosing `defer`; ledgers change on the way outwards only.
Everything else in the scopes, and every struct, stays as it was, and so does the meaning of all
names that the statement does not declare. -/
theorem stmt_keeps_to_scope {c : Checker} (h : c.Attained) (s : Stmt) {scope : ScopeId}
    (hscope : scope < c.scopes.size) : StmtFrame s scope c ((s.check scope).exec c) := by
  obtain ⟨-, hconfined, hwalk⟩ := unconditional_true.stmt (l := ⟨scope, false⟩)
    (confined_unconditional h.arena hscope) (s := s) (fun _ _ => trivial) trivial
    (.refl h.arena hscope false)
  obtain ⟨-, hgrown, -⟩ := unconditional_true.stmt (l := ⟨scope, false⟩) (S := [])
    (Grown.invariant (· ∈ s.nodes) c _) (s := s) (fun _ hid => hid) trivial (.refl _ c)
  obtain ⟨-, -, new, hnew, hnames⟩ := declares_stmt scope s c h.arena hscope
  refine ⟨hwalk, hconfined.size, fun i => hconfined.mem_ancestors, ?_, ⟨new, hnew, hnames⟩,
    hgrown.structs, ?_⟩
  · intro i hi
    exact hconfined.touched i hi
  · intro i hi name hname
    refine ScopeTree.locate?_congr (hconfined.ancestors_eq h.arena hi) fun j hj => ?_
    have hlt : j < c.scopes.size := Nat.lt_of_le_of_lt (h.arena.le_of_mem_ancestors hj) hi
    by_cases hhere : j = scope
    · -- on a way through the scope of the statement, the name is none of the new ones
      subst hhere
      refine Scope.symbol?_append hnew fun symbol hsymbol hsame => ?_
      rcases hname with hout | hother
      · exact hout hj
      · exact hother (hsame ▸ hnames symbol hsymbol)
    · rw [Scope.symbol?, Scope.symbol?, hconfined.symbols_eq hlt hhere]

/-- A block that declares `y` beside a global `x`, with an `x` of its own inside. -/
theorem block_keeps_to_module_scope :
    let c := ((Checker.ofConfig {}).resolve { modules := [{ name := "main", body := [
      ⟨{}, .var { name := "x", value := some ⟨0, {}, .int 1⟩ }⟩] }] }).checker
    let s : Stmt := ⟨{}, .block ⟨{}, [
      ⟨{}, .var { name := "y", value := some ⟨1, {}, .ident "x"⟩ }⟩,
      ⟨{}, .var { name := "x", value := some ⟨2, {}, .bool true⟩ }⟩]⟩⟩
    c.Attained ∧ 1 < c.scopes.size ∧ s.declares = [] ∧
      (c.scopes.lookup? 1 "x").map (·.ty) = some .int ∧
      ((s.check 1).exec c).scopes.size = c.scopes.size + 1 ∧
      StmtFrame s 1 c ((s.check 1).exec c) := by
  intro c s
  have hattained : c.Attained := .resolve _ (.start {})
  have hscope : 1 < c.scopes.size := by decide
  exact ⟨hattained, hscope, rfl, by decide, by decide, stmt_keeps_to_scope hattained s hscope⟩

end Warden

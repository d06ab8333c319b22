import Warden.Proofs.Frame

/-!
# Checks that declare nothing

The check of an expression or a written type reports, records types and follows the memory, and that
is all: it declares nothing, adds no scope and no struct, and leaves the walk where it is.
`Observes` says so of an action, by what the action keeps: whatever survives reports, records and
operations of the memory analysis survives the action. `Observes.quiet` draws the conclusions.

All rules of expressions are of this kind, and so are the parts of declarations that work out types
before anything is declared. They are in step with themselves in the scope in which they are checked
(`CheckM.IsRule`), and everything else that is said about such rules in general follows from that.
-/

namespace Warden

open CheckM Check Pairing ScopeTree

variable {node : NodeId → Prop} {α : Type}

theorem sameOption (ty : Option Ty) : Option.Rel (Ty.Alike (.same (fun _ => True) node)) ty ty :=
  .refl (same_ty _ _) ty

theorem sameOptions (tys : List (Option Ty)) :
    List.Forall₂ (Option.Rel (Ty.Alike (.same (fun _ => True) node))) tys tys :=
  List.forall₂_same.mpr fun ty _ => sameOption ty

/-- A property of states that reports, records of expressions in `node` and operations of the memory
analysis keep. -/
structure ExprInvariant (node : NodeId → Prop) (P : Checker → Prop) : Prop where
  report {c cause} (span) : cause.isTyping = true → P c → P (c.report cause span)
  record {c id} (ty) : node id → P c → P (c.record id ty)
  memory {c f} : MemoryOp f → P c → P (f c)

/-- A property of states that every rule for expressions keeps that is checked in the scope. Reports
of jumps that have nothing to leave need not keep it. -/
structure ScopeInvariant (scope : ScopeId) (node : NodeId → Prop) (P : Checker → Prop) : Prop where
  report {c cause} (span) : cause.isRule = true → P c → P (c.report cause span)
  record {c id} (ty) : node id → P c → P (c.record id ty)
  allocate {c} (name span) : P c → P (c.allocate scope name span)
  rename {c} (target source) : P c → P (c.rename scope target source)
  release {c} (name span kind) : P c → P (c.release scope name span kind)
  checkUse {c} (name span) : P c → P (c.checkUse scope name span)
  deferFree {c} (target name span) : P c →
    P { c with scopes := c.scopes.deferFree target name span }

section

variable {scope : ScopeId} {node : NodeId → Prop} {P : Checker → Prop}

theorem ScopeInvariant.ruleLockstep (hP : ScopeInvariant scope node P) :
    RuleLockstep (.same (fun _ => True) node) scope scope fun c d => c = d ∧ P c where
  view := by
    rintro c d ⟨rfl, -⟩
    exact SameView.view ⟨rfl, rfl, rfl, rfl, rfl⟩ _ _ scope
  report := by
    rintro c d cause cause' span hcause hrule ⟨rfl, h⟩
    rw [← hcause.eq_of_same]
    exact ⟨rfl, hP.report span hrule h⟩
  record := by
    rintro c d id ty ty' hid hty ⟨rfl, h⟩
    rw [← hty.eq_of_same]
    exact ⟨rfl, hP.record ty hid h⟩
  allocate := by
    rintro c d name span ⟨rfl, h⟩
    exact ⟨rfl, hP.allocate name span h⟩
  rename := by
    rintro c d target source ⟨rfl, h⟩
    exact ⟨rfl, hP.rename target source h⟩
  release := by
    rintro c d name span kind ⟨rfl, h⟩
    exact ⟨rfl, hP.release name span kind h⟩
  checkUse := by
    rintro c d name span ⟨rfl, h⟩
    exact ⟨rfl, hP.checkUse name span h⟩
  deferFree := by
    rintro c d t t' name span ht ht' ⟨rfl, h⟩
    rw [ht] at ht'
    cases ht'
    exact ⟨rfl, hP.deferFree t name span h⟩

theorem ScopeInvariant.lockstep (hP : ScopeInvariant scope node P) :
    ExprLockstep (.same (fun _ => True) node) scope scope fun c d => c = d ∧ P c := by
  refine hP.ruleLockstep.exprLockstep ?_
  rintro c d id ⟨rfl, -⟩ -
  exact sameOption _

theorem ExprInvariant.inScope (hP : ExprInvariant node P) (scope : ScopeId) :
    ScopeInvariant scope node P where
  report span hrule := hP.report span (Cause.isTyping_of_isRule hrule)
  record := hP.record
  allocate name span := hP.memory (.allocate scope name span)
  rename target source := hP.memory (.rename scope target source)
  release name span kind := hP.memory (.release scope name span kind)
  checkUse name span := hP.memory (.checkUse scope name span)
  deferFree target name span := hP.memory (.deferFree target name span)

theorem ExprInvariant.lockstep (hP : ExprInvariant node P) (scope : ScopeId) :
    ExprLockstep (.same (fun _ => True) node) scope scope fun c d => c = d ∧ P c :=
  (hP.inScope scope).lockstep

/-- What is in step with itself keeps the property. -/
theorem InStep.keeps {A : α → α → Prop} {m : CheckM α} (hm : InStep (fun c d => c = d ∧ P c) A m m)
    {c : Checker} (h : P c) : P (m.exec c) :=
  (hm c c ⟨rfl, h⟩).states.2

end

/-- The action reports, records types of expressions in `node`, follows the memory, and does nothing
else to the state. -/
def Observes {α : Type} (node : NodeId → Prop) (m : CheckM α) : Prop :=
  ∀ P : Checker → Prop, ExprInvariant node P → ∀ c, P c → P (m.exec c)

/-- What has become of the state since `c₀`, if only types of expressions in `node` have been
recorded and nothing has been declared. -/
structure Quiet (node : NodeId → Prop) (c₀ c : Checker) : Prop where
  grown : Grown node c₀ c
  scopes : c.scopes.withoutMemory = c₀.scopes.withoutMemory
  structs : c.structs = c₀.structs
  walk : c.walk = c₀.walk

namespace Quiet

variable {node : NodeId → Prop} {c₀ c : Checker}

theorem invariant (node : NodeId → Prop) (c₀ : Checker) : ExprInvariant node (Quiet node c₀) where
  report span _ h := ⟨h.grown.report _ span, h.scopes, h.structs, h.walk⟩
  record ty hid h := ⟨h.grown.record hid ty, h.scopes, h.structs, h.walk⟩
  memory {c f} hf h := by
    have hstep := hf.step c
    exact ⟨h.grown.memory hf, hstep.scopes.trans h.scopes, hstep.structs.trans h.structs,
      hstep.walk.trans h.walk⟩

theorem namedSymbol? (h : Quiet node c₀ c) (e : Expr) (scope : ScopeId) :
    Check.namedSymbol? c e scope = Check.namedSymbol? c₀ e scope := by
  have hlookup : ∀ name, c.scopes.lookup? scope name = c₀.scopes.lookup? scope name := by
    intro name
    rw [← lookup?_withoutMemory, h.scopes, lookup?_withoutMemory]
  have hqualified : ∀ module name,
      c.scopes.qualified? scope module name = c₀.scopes.qualified? scope module name := by
    intro module name
    rw [← qualified?_withoutMemory, h.scopes, qualified?_withoutMemory]
  simp only [Check.namedSymbol?, hlookup, hqualified]

end Quiet

theorem Observes.quiet {m : CheckM α} (hm : Observes node m) (c : Checker) :
    Quiet node c (m.exec c) :=
  hm _ (Quiet.invariant node c) c ⟨.refl node c, rfl, rfl, rfl⟩

/-- What is in step with itself, whatever is kept, observes. -/
theorem observes_of_inStep (scope : ScopeId) {A : α → α → Prop} {m : CheckM α}
    (h : ∀ {R}, ExprLockstep (.same (fun _ => True) node) scope scope R → InStep R A m m) :
    Observes node m :=
  fun _ hP _ hc => (h (hP.lockstep scope)).keeps hc

/-! ### Rules -/

/-- The action is in step with itself in the scope, whatever is compared, and it records the types
of expressions in `node` only. -/
def CheckM.IsRule {α : Type} (scope : ScopeId) (node : NodeId → Prop) (m : CheckM α) : Prop :=
  ∀ (node' : NodeId → Prop) (R : Checker → Checker → Prop), (∀ id, node id → node' id) →
    ExprLockstep (.same (fun _ => True) node') scope scope R → InStep R (fun _ _ => True) m m

namespace CheckM.IsRule

variable {α : Type} {scope : ScopeId} {node : NodeId → Prop} {m : CheckM α}

theorem ofInStep {A : (NodeId → Prop) → α → α → Prop}
    (h : ∀ {node' : NodeId → Prop} {R}, (∀ id, node id → node' id) →
      ExprLockstep (.same (fun _ => True) node') scope scope R → InStep R (A node') m m) :
    m.IsRule scope node :=
  fun _ _ hnode hR => (h hnode hR).weaken fun _ _ _ => trivial

theorem observes (h : m.IsRule scope node) : Observes node m :=
  observes_of_inStep scope fun hR => h node _ (fun _ hid => hid) hR

end CheckM.IsRule

/-- The action only looks things up and reports: it is in step with itself even if no record is kept
in step. -/
def CheckM.OnlyReports {α : Type} (scope : ScopeId) (m : CheckM α) : Prop :=
  ∀ (node : NodeId → Prop) (R : Checker → Checker → Prop),
    ReportLockstep (.same (fun _ => True) node) scope scope R → InStep R (fun _ _ => True) m m

namespace CheckM.OnlyReports

variable {α : Type} {scope : ScopeId} {m : CheckM α}

theorem ofInStep {A : (NodeId → Prop) → α → α → Prop} (h : ∀ {node : NodeId → Prop} {R},
      ReportLockstep (.same (fun _ => True) node) scope scope R → InStep R (A node) m m) :
    m.OnlyReports scope :=
  fun _ _ hR => (h hR).weaken fun _ _ _ => trivial

theorem isRule (h : m.OnlyReports scope) : m.IsRule scope fun _ => False :=
  fun node R _ hR => h node R hR.toReportLockstep

theorem observes (h : m.OnlyReports scope) : Observes (fun _ => False) m :=
  h.isRule.observes

end CheckM.OnlyReports

/-! ### Rules that only report -/

section

variable (scope : ScopeId)

theorem reports_structMember (id : StructId) (member : String) (span : Span) :
    (structMember id member span scope).OnlyReports scope :=
  .ofInStep fun hR => hR.inStep_structMember rfl member span

theorem reports_staticMember (object : Expr) (member : String) (span : Span) :
    (staticMember object member span scope).OnlyReports scope :=
  .ofInStep fun hR => hR.inStep_staticMember object member span

theorem reports_arguments (callee : String) (params : List Ty) (args : List Expr)
    (tys : List (Option Ty)) (span : Span) :
    (arguments callee params args tys span).OnlyReports scope :=
  .ofInStep fun hR =>
    hR.inStep_arguments callee (same_tys _ _ params) args (sameOptions tys) span

theorem reports_alloc (args : List Expr) (tys : List (Option Ty)) (span : Span) :
    (alloc args tys span).OnlyReports scope :=
  .ofInStep fun hR => hR.inStep_alloc args (sameOptions tys) span

theorem reports_explicitParams (found : StructMember) (params : List Ty) (receiver : Option Ty)
    (span : Span) : (explicitParams found params receiver span).OnlyReports scope :=
  .ofInStep fun hR => hR.inStep_explicitParams ⟨same_ty _ _ found.ty, rfl⟩
    (same_tys _ _ params) (sameOption receiver) span

theorem reports_variableType (decl : VarDecl) (annotated : Option Ty) (value : Option (Option Ty))
    (span : Span) : (variableType decl annotated value span).OnlyReports scope :=
  .ofInStep fun hR =>
    hR.inStep_variableType decl (sameOption annotated) (.refl sameOption value) span

theorem reports_enumMembers (enum : String) (span : Span) (seen members : List String) :
    (enumMembers enum span seen members).OnlyReports scope :=
  .ofInStep fun hR => hR.inStep_enumMembers enum span members seen

/-- A `return` inside of a function. -/
theorem reports_returned (ty : Ty) (value : Option Expr) (found : Option (Option Ty))
    (span : Span) : (returned (some ty) value found span).OnlyReports scope :=
  .ofInStep fun hR =>
    hR.inStep_returned (same_ty _ _ ty) value (.refl sameOption found) span

theorem reports_exhaustiveness (scrutinee : Option Ty) (covered : List String) (hasDefault : Bool)
    (span : Span) : (exhaustiveness scrutinee covered hasDefault span scope).OnlyReports scope :=
  .ofInStep fun hR => hR.inStep_exhaustiveness (sameOption scrutinee) covered hasDefault span

end

/-! ### Expressions and written types -/

section

variable (scope : ScopeId)

theorem rule_resolve (t : TypeExpr) : (t.resolve scope).IsRule scope (· ∈ t.nodes) :=
  .ofInStep fun hnode hR => hR.inStep_resolve t hnode

theorem rule_expr (e : Expr) : (e.check scope).IsRule scope (· ∈ e.nodes) :=
  .ofInStep fun hnode hR => hR.inStep_expr e hnode

theorem rule_exprs (es : List Expr) : (checkExprs scope es).IsRule scope (· ∈ exprNodes es) :=
  .ofInStep fun hnode hR => hR.inStep_exprs es hnode

/-! ### Parts of declarations and statements -/

theorem rule_initializer (value : Option Expr) :
    (Check.initializer value scope).IsRule scope (· ∈ optionalExprNodes value) :=
  .ofInStep fun hnode hR => hR.inStep_initializer value hnode

theorem rule_bindValue (name : String) (value : Expr) (owns sharesPointer : Bool) (span : Span) :
    (bindValue name value owns sharesPointer span scope).IsRule scope (fun _ => False) :=
  .ofInStep fun _ hR => hR.inStep_bindValue name value owns sharesPointer span

theorem rule_structFields (self : Ty) (owner : String) (draft : StructDraft)
    (fields : List FieldDecl) :
    (structFields self owner scope draft fields).IsRule scope (· ∈ fieldDeclNodes fields) :=
  .ofInStep fun hnode hR =>
    hR.inStep_structFields (same_ty _ _ self) owner fields hnode
      (same_draft _ _ trivial)

theorem rule_structMethods (owner : String) (draft : StructDraft) (methods : List MethodDecl) :
    (structMethods owner scope draft methods).IsRule scope (· ∈ methodNodes methods) :=
  .ofInStep fun hnode hR =>
    hR.inStep_structMethods owner methods hnode (same_draft _ _ trivial)

theorem observes_returned (expected : Option Ty) (value : Option Expr)
    (found : Option (Option Ty)) (span : Span) :
    Observes (fun _ => False) (returned expected value found span) := by
  cases expected with
  | none => exact fun P hP c h => hP.report span rfl h
  | some ty => exact (reports_returned 0 ty value found span).observes

theorem rule_caseValues (expected : Option Ty) (values : List Expr) :
    (caseValues expected scope values).IsRule scope (· ∈ exprNodes values) :=
  .ofInStep fun hnode hR => hR.inStep_caseValues (sameOption expected) values hnode

theorem rule_condition (cond : Expr) : (condition cond scope).IsRule scope (· ∈ cond.nodes) :=
  .ofInStep fun hnode hR => hR.inStep_condition cond hnode

end

/-! ### Declarations of names -/

/-- A property of states that is kept when a rule reports in the scope or binds a name there. -/
structure BindInvariant (scope : ScopeId) (P : Checker → Prop) : Prop where
  report {c cause} (span) : cause.isRule = true → P c → P (c.report cause span)
  insert {c symbol scopes} : c.scopes.insert? scope symbol = some scopes → P c →
    P { c with scopes }
  allocate {c} (name span) : P c → P (c.allocate scope name span)
  rename {c} (target source) : P c → P (c.rename scope target source)

/-- The action reports, binds names in the scope, and does nothing else to the state. -/
def CheckM.Binds {α : Type} (scope : ScopeId) (m : CheckM α) : Prop :=
  ∀ P : Checker → Prop, BindInvariant scope P → ∀ c, P c → P (m.exec c)

namespace CheckM.Binds

variable {α β : Type} {scope : ScopeId}

theorem ofPure (a : α) : (pure a : CheckM α).Binds scope :=
  fun _ _ _ h => h

theorem bind {m : CheckM α} {k : α → CheckM β} (hm : m.Binds scope)
    (hk : ∀ a, (k a).Binds scope) : (m >>= k).Binds scope :=
  fun P hP c h => hk _ P hP _ (hm P hP c h)

theorem ofGet {k : Checker → CheckM β} (hk : ∀ c, (k c).Binds scope) : (get >>= k).Binds scope :=
  fun P hP c h => hk c P hP c h

theorem ofReport {cause : Cause} (hcause : cause.isRule = true) (span : Span) :
    (CheckM.report cause span).Binds scope :=
  fun _ hP _ h => hP.report span hcause h

end CheckM.Binds

section

variable (scope : ScopeId)

theorem binds_declare (symbol : Symbol) (span : Span) :
    (declare scope symbol span).Binds scope := by
  intro P hP c h
  rw [declare, exec_get_bind]
  cases hinsert : c.scopes.insert? scope symbol with
  | none => exact hP.report span rfl h
  | some scopes => exact hP.insert hinsert h

theorem binds_bindValue (name : String) (value : Expr) (owns sharesPointer : Bool) (span : Span) :
    (bindValue name value owns sharesPointer span scope).Binds scope := by
  unfold bindValue
  split
  · exact fun _ hP _ h => hP.allocate name span h
  · split
    next source _ =>
      split
      · exact fun _ hP _ h => hP.rename name source h
      · exact .ofPure _
    · exact .ofPure _

theorem binds_declareVariable (decl : VarDecl) (ty : Ty) (span : Span) :
    (declareVariable decl ty span scope).Binds scope := by
  unfold declareVariable
  split
  · exact (CheckM.Binds.ofReport rfl span).bind fun _ => .ofPure _
  · refine (binds_declare scope _ span).bind fun declared => ?_
    split
    · cases decl.value with
      | none => exact .ofPure _
      | some value =>
        exact .ofGet fun c =>
          (binds_bindValue scope decl.name value _ _ span).bind fun _ => .ofPure _
    · exact .ofPure _

theorem binds_enumMembers (enum : String) (span : Span) (members : List String) :
    ∀ seen, (enumMembers enum span seen members).Binds scope := by
  induction members with
  | nil => exact fun _ => .ofPure _
  | cons member members ih =>
    intro seen
    unfold enumMembers
    split
    · exact (CheckM.Binds.ofReport rfl span).bind fun _ => ih seen
    · exact (ih _).bind fun _ => .ofPure _

theorem binds_declareEnumMembers (decl : EnumDecl) (span : Span) (members : List String) :
    (declareEnumMembers decl span scope members).Binds scope := by
  induction members with
  | nil => exact .ofPure _
  | cons member members ih =>
    refine CheckM.Binds.bind (fun P hP c h => ?_) fun _ => ih
    rw [exec_modify]
    generalize hinsert : c.scopes.insert? scope _ = inserted
    cases inserted with
    | none => exact h
    | some scopes => exact hP.insert hinsert h

theorem binds_enumDecl (decl : EnumDecl) (span : Span) :
    (enumDecl decl span scope).Binds scope := by
  refine (binds_enumMembers scope decl.name span decl.members []).bind fun members =>
    (binds_declare scope _ span).bind fun declared => ?_
  split
  · exact (binds_declareEnumMembers scope decl span members).bind fun _ => .ofPure _
  · exact .ofPure _

theorem binds_declareParams (takesAll : Bool) :
    (params : List Param) → (tys : List Ty) → (declareParams takesAll scope params tys).Binds scope
  | p :: ps, ty :: tys => by
    refine (binds_declare scope _ p.span).bind fun ok => ?_
    have hrest := (binds_declareParams takesAll ps tys).bind fun rest =>
      CheckM.Binds.ofPure (ok && rest)
    dsimp only
    split
    · exact .bind (fun _ hP _ h => hP.allocate p.name p.span h) fun _ => hrest
    · exact hrest
  | [], _ => .ofPure _
  | _ :: _, [] => .ofPure _

end

end Warden

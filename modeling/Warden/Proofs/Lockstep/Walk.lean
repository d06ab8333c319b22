import Warden.Proofs.Lockstep.Rules

/-!
# The walk of two checks in step

The theorems follow the recursion of the walk: one for each of its functions, by the same recursion
on the syntax. Parts that are checked in order are a chain of binds, and the rule at the end of the
chain has been dealt with before. What the walk records and what it looks up again are types of
expressions of the syntax at hand, so the syntax must consist of shared expressions.
-/

set_option linter.unusedSectionVars false

namespace Warden

open CheckM Check

/-- What the body of a function sees as the function around it. -/
def FnDecl.frame (f : FnDecl) (sig : Check.Signature) (name : String) : Frame :=
  ⟨sig.ret, ⟨name, f.returnsOwnership, f.takesOwnership⟩⟩

/-- What is checked of a function inside the scope of its body. -/
def FnDecl.checkInside (f : FnDecl) (sig : Check.Signature) (span : Span) (scope : ScopeId) :
    CheckM Bool := do
  let paramsOk ← Check.declareParams f.takesOwnership scope f.params sig.params
  let bodyOk ← checkStmts scope f.body.stmts
  let returns := sig.ret.isVoid || alwaysReturn f.body.stmts
  if !returns then report (.missingReturn f.name sig.ret) span
  return paramsOk && bodyOk && returns

theorem FnDecl.checkBody_eq (f : FnDecl) (sig : Check.Signature) (span : Span) (parent : ScopeId)
    (name : String) : f.checkBody sig span parent name =
      (do let i ← addFunction parent name
          within (Walk.enterFunction (f.frame sig name)) do
            let ok ← f.checkInside sig span i
            modify (·.leaveScope i); modify (·.reportLeaks i); return ok) := by
  obtain ⟨fnName, params, _, ⟨_, stmts⟩, _, returns, takes⟩ := f
  unfold checkBody checkInside
  -- the report of a missing `return` comes before the rest or is left out
  cases sig.ret.isVoid || alwaysReturn stmts <;> simp only [bind_assoc] <;> rfl

namespace ExprLockstep

variable {k : Pairing} {s s' : ScopeId} {R : Checker → Checker → Prop}
  (hR : ExprLockstep k s s' R)

include hR

/-! ### Expressions and written types -/

mutual

theorem inStep_resolve : (t : TypeExpr) → (∀ id ∈ t.nodes, k.node id) →
    InStep R (Option.Rel (Ty.Alike k)) (t.resolve s) (t.resolve s')
  | .named span none name, _ => hR.inStep_namedType name span
  | .named span (some module) name, _ => hR.inStep_qualifiedType module name span
  | .pointer _ pointee, h =>
    (inStep_resolve pointee h).map fun _ _ hty => hty.map fun _ _ => .pointer
  | .array _ element none, h =>
    (inStep_resolve element h).map fun _ _ hty => hty.map fun _ _ => .array none
  | .array _ element (some size), h => by
    obtain ⟨helement, hsize⟩ := List.forall_mem_append.mp h
    refine (inStep_resolve element helement).bind fun ty ty' hty => ?_
    cases hty with
    | none => exact .ofPure .none
    | some hty =>
      refine (inStep_resolveSize size hsize).map fun n n' hn => hn.map fun a b hab => ?_
      rw [hab]
      exact .array _ hty
  | .function _ params ret, h => by
    obtain ⟨hparams, hret⟩ := List.forall_mem_append.mp h
    refine (inStep_resolveTypes params hparams).bind fun tys tys' htys => ?_
    cases htys with
    | none => exact .ofPure .none
    | some htys =>
      exact (inStep_resolve ret hret).map fun _ _ hty => hty.map fun _ _ => .ofParams htys

theorem inStep_resolveTypes : (ts : List TypeExpr) → (∀ id ∈ typeNodes ts, k.node id) →
    InStep R (Option.Rel (List.Forall₂ (Ty.Alike k))) (resolveTypes s ts) (resolveTypes s' ts)
  | [], _ => .ofPure (.some .nil)
  | t :: ts, h => by
    obtain ⟨hhead, htail⟩ := List.forall_mem_append.mp h
    refine (inStep_resolve t hhead).bind fun ty ty' hty => ?_
    cases hty with
    | none => exact .ofPure .none
    | some hty =>
      exact (inStep_resolveTypes ts htail).map fun _ _ htys => htys.map fun _ _ => .cons hty

theorem inStep_resolveSize : (e : Expr) → (∀ id ∈ e.nodes, k.node id) →
    InStep R (Option.Rel Eq) (e.resolveSize s) (e.resolveSize s')
  | ⟨id, span, kind⟩, h => by
    obtain ⟨hid, hkind⟩ := List.forall_mem_cons.mp h
    have hsize : InStep R (Option.Rel Eq)
        (do let ty ← recorded id (← kind.check span s); arraySize ⟨id, span, kind⟩ ty)
        (do let ty ← recorded id (← kind.check span s'); arraySize ⟨id, span, kind⟩ ty) :=
      (inStep_kind span kind hkind).bind fun _ _ hty =>
        (hR.inStep_recorded hid hty).bind fun _ _ hty => hR.inStep_arraySize _ hty
    cases kind with
    | int value => exact .ofPure (.some rfl)
    | _ => exact hsize

theorem inStep_expr : (e : Expr) → (∀ id ∈ e.nodes, k.node id) →
    InStep R (Option.Rel (Ty.Alike k)) (e.check s) (e.check s')
  | ⟨_, span, kind⟩, h => by
    obtain ⟨hid, hkind⟩ := List.forall_mem_cons.mp h
    exact (inStep_kind span kind hkind).bind fun _ _ hty => hR.inStep_recorded hid hty

theorem inStep_kind (span : Span) : (kind : ExprKind) → (∀ id ∈ kind.nodes, k.node id) →
    InStep R (Option.Rel (Ty.Alike k)) (kind.check span s) (kind.check span s')
  | .int _, _ => .ofPure (.some (.basic "int"))
  | .float _, _ => .ofPure (.some (.basic "float"))
  | .bool _, _ => .ofPure (.some (.basic "bool"))
  | .char _, _ => .ofPure (.some (.basic "char"))
  | .str _, _ => .ofPure (.some (.basic "string"))
  | .ident name, _ => hR.inStep_ident name span
  | .qualified module name, _ => hR.inStep_qualified module name span
  | .binary op lhs rhs, h => by
    obtain ⟨hlhs, hrhs⟩ := List.forall_mem_append.mp h
    exact (inStep_expr lhs hlhs).bind fun _ _ hlhsTy => (inStep_expr rhs hrhs).bind
      fun _ _ hrhsTy => hR.inStep_binary op hlhsTy hrhsTy span
  | .unary op operand, h =>
    (inStep_expr operand h).bind fun _ _ hty => hR.inStep_unary op operand hty span
  | .call callee args, h => by
    obtain ⟨hcalleeNodes, hargNodes⟩ := List.forall_mem_append.mp h
    have hcallee := inStep_expr callee hcalleeNodes
    have hargs := inStep_exprs args hargNodes
    apply InStep.ofGet
    intro c d hcd
    rw [hR.callForm_eq hcd]
    cases callForm d callee s' with
    | alloc =>
      exact hcallee.bind fun _ _ _ => hargs.bind fun _ _ htys => hR.inStep_alloc args htys span
    | free =>
      exact hcallee.bind fun _ _ _ => hargs.bind fun _ _ htys => hR.inStep_free args htys span
    | method =>
      exact (inStep_receiver callee hcalleeNodes).bind fun _ _ hreceiver =>
        hargs.bind fun _ _ htys => hR.inStep_methodCall callee
          (hcalleeNodes _ callee.id_mem_nodes) hreceiver args htys span
    | plain =>
      exact hcallee.bind fun _ _ hty => hargs.bind fun _ _ htys =>
        hR.inStep_plainCall callee hty args htys span
  | .member object member, h => by
    refine (hR.inStep_staticMember object member span).bind fun result result' hresult => ?_
    cases hresult with
    | some hresult => exact .ofPure hresult
    | none =>
      exact (inStep_expr object h).bind fun _ _ hty => hR.inStep_valueMember hty member span
  | .index object index, h => by
    obtain ⟨hobject, hindex⟩ := List.forall_mem_append.mp h
    exact (inStep_expr object hobject).bind fun _ _ hobjectTy => (inStep_expr index hindex).bind
      fun _ _ hindexTy => hR.inStep_index object index hobjectTy hindexTy
  | .assign target value, h => by
    obtain ⟨htarget, hvalue⟩ := List.forall_mem_append.mp h
    apply InStep.ofGet
    intro c d hcd
    have hany : ∀ name, (c.scopes.lookup? s name).any (!·.isMutable) =
        (d.scopes.lookup? s' name).any (!·.isMutable) :=
      fun name => ((hR.view hcd).lookup? name).any_eq fun _ _ h => by rw [h.isMutable]
    have hfault : assignmentFault? c target s = assignmentFault? d target s' := by
      simp only [assignmentFault?, hany]
    rw [hfault]
    cases hcause : assignmentFault? d target s' with
    | some cause =>
      have hrule := Cause.isRule_of_isOperand (isOperand_of_assignmentFault? hcause)
      exact hR.inStep_fail (.same _) hrule _
    | none =>
      exact (inStep_expr target htarget).bind fun _ _ htargetTy => (inStep_expr value hvalue).bind
        fun _ _ hvalueTy => hR.inStep_assign target value htargetTy hvalueTy
          fun name sharesPointer => hR.bindResult name sharesPointer target.span hvalue
  | .range start stop, h => by
    obtain ⟨hstart, hstop⟩ := List.forall_mem_append.mp h
    exact (inStep_expr start hstart).bind fun _ _ hstartTy => (inStep_expr stop hstop).bind
      fun _ _ hstopTy => hR.inStep_range start stop hstartTy hstopTy
  | .structLit module name fields, h =>
    (hR.inStep_literalSymbol module name span).bind fun _ _ hsymbol =>
      (inStep_fields fields h).bind fun _ _ htys =>
        hR.inStep_structLiteral hsymbol name fields htys span
  | .arrayLit [], _ => hR.inStep_fail (.same _) rfl span
  | .arrayLit (first :: rest), h => by
    obtain ⟨hfirst, hrest⟩ := List.forall_mem_append.mp h
    refine (inStep_expr first hfirst).bind fun ty ty' hty =>
      (inStep_elements hty rest hrest).bind fun ok ok' hok => ?_
    rw [hok]
    cases hty with
    | none => exact .ofPure .none
    | some hty =>
      cases ok' with
      | true => exact .ofPure (.some (.array _ hty))
      | false => exact .ofPure .none
  | .cast ty value, h => by
    obtain ⟨hty, hvalue⟩ := List.forall_mem_append.mp h
    refine (inStep_resolve ty hty).bind fun target target' htarget =>
      (inStep_expr value hvalue).bind fun found found' hfound => ?_
    cases hfound with
    | none => exact .ofPure .none
    | some _ => exact .ofPure htarget
  | .sizeOfType ty, h =>
    (inStep_resolve ty h).map fun _ _ hty => hty.map fun _ _ _ => .basic "int"

theorem inStep_receiver : (e : Expr) → (∀ id ∈ e.nodes, k.node id) →
    InStep R (RuleLockstep.ReceiverAlike k) (e.checkReceiver s) (e.checkReceiver s')
  | ⟨_, _, .member object _⟩, h => by
    apply InStep.ofGet
    intro c d hcd
    rcases (hR.rel_namedStruct? hcd object).inv with ⟨hc, hd⟩ | ⟨i, j, hc, hd, hij⟩
    · rw [hc, hd]
      exact (inStep_expr object (List.forall_mem_cons.mp h).2).map fun _ _ => .value
    · rw [hc, hd]
      exact .ofPure (.type hij)
  | ⟨_, _, .int _⟩, _ | ⟨_, _, .float _⟩, _ | ⟨_, _, .bool _⟩, _ | ⟨_, _, .char _⟩, _
  | ⟨_, _, .str _⟩, _ | ⟨_, _, .ident _⟩, _ | ⟨_, _, .qualified ..⟩, _ | ⟨_, _, .binary ..⟩, _
  | ⟨_, _, .unary ..⟩, _ | ⟨_, _, .call ..⟩, _ | ⟨_, _, .index ..⟩, _ | ⟨_, _, .assign ..⟩, _
  | ⟨_, _, .range ..⟩, _ | ⟨_, _, .structLit ..⟩, _ | ⟨_, _, .arrayLit _⟩, _
  | ⟨_, _, .cast ..⟩, _ | ⟨_, _, .sizeOfType _⟩, _ => .ofPure (.value .none)

theorem inStep_exprs : (es : List Expr) → (∀ id ∈ exprNodes es, k.node id) →
    InStep R (List.Forall₂ (Option.Rel (Ty.Alike k))) (checkExprs s es) (checkExprs s' es)
  | [], _ => .ofPure .nil
  | e :: es, h => by
    obtain ⟨hhead, htail⟩ := List.forall_mem_append.mp h
    exact (inStep_expr e hhead).bind fun _ _ hty =>
      (inStep_exprs es htail).map fun _ _ => .cons hty

theorem inStep_fields : (fields : List (String × Expr)) → (∀ id ∈ fieldNodes fields, k.node id) →
    InStep R (List.Forall₂ (Option.Rel (Ty.Alike k))) (checkFields s fields) (checkFields s' fields)
  | [], _ => .ofPure .nil
  | (_, e) :: fields, h => by
    obtain ⟨hhead, htail⟩ := List.forall_mem_append.mp h
    exact (inStep_expr e hhead).bind fun _ _ hty =>
      (inStep_fields fields htail).map fun _ _ => .cons hty

theorem inStep_elements {expected expected' : Option Ty}
    (hexpected : Option.Rel (Ty.Alike k) expected expected') :
    (es : List Expr) → (∀ id ∈ exprNodes es, k.node id) →
      InStep R Eq (checkElements s expected es) (checkElements s' expected' es)
  | [], _ => .ofPure rfl
  | e :: es, h => by
    obtain ⟨hhead, htail⟩ := List.forall_mem_append.mp h
    refine (inStep_expr e hhead).bind fun ty ty' hty =>
      (hR.inStep_arrayElement hexpected e hty).bind fun ok ok' hok => ?_
    refine (inStep_elements hexpected es htail).map fun rest rest' hrest => ?_
    rw [hok, hrest]

end

/-! ### Declarations -/

theorem inStep_annotated (ty : Option TypeExpr) (h : ∀ id ∈ optionalTypeNodes ty, k.node id) :
    InStep R (Option.Rel (Option.Rel (Ty.Alike k))) ( annotation ty s) ( annotation ty s') := by
  cases ty with
  | none => exact .ofPure (.some .none)
  | some ty => exact (hR.inStep_resolve ty h).map fun _ _ hty => hty.map fun _ _ => .some

theorem inStep_initializer (value : Option Expr) (h : ∀ id ∈ optionalExprNodes value, k.node id) :
    InStep R (Option.Rel (Option.Rel (Ty.Alike k)))
      (Check.initializer value s) (Check.initializer value s') := by
  cases value with
  | none => exact .ofPure .none
  | some value => exact (hR.inStep_expr value h).map fun _ _ => .some

theorem inStep_paramTypes : (params : List Param) → (∀ id ∈ paramNodes params, k.node id) →
    InStep R (Option.Rel (List.Forall₂ (Ty.Alike k))) (paramTypes s params) (paramTypes s' params)
  | [], _ => .ofPure (.some .nil)
  | p :: params, h => by
    obtain ⟨hhead, htail⟩ := List.forall_mem_append.mp h
    refine (hR.inStep_resolve p.ty hhead).bind fun ty ty' hty =>
      (inStep_paramTypes params htail).bind fun tys tys' htys => ?_
    cases hty with
    | none => exact .ofPure .none
    | some hty =>
      cases htys with
      | none => exact .ofPure .none
      | some htys => exact .ofPure (.some (.cons hty htys))

theorem inStep_signature (params : List Param) (hparams : ∀ id ∈ paramNodes params, k.node id)
    (returnType : TypeExpr) (hreturn : ∀ id ∈ returnType.nodes, k.node id) :
    InStep R (Option.Rel (Signature.Alike k))
      (signature params returnType s) (signature params returnType s') := by
  refine (hR.inStep_paramTypes params hparams).bind fun tys tys' htys =>
    (hR.inStep_resolve returnType hreturn).bind fun ret ret' hret => ?_
  cases htys with
  | none => exact .ofPure .none
  | some htys =>
    cases hret with
    | none => exact .ofPure .none
    | some hret => exact .ofPure (.some ⟨htys, hret⟩)

/-! ### Structs -/

/-- Alike drafts with the same verdict on the fields. -/
def FieldsAlike (k : Pairing) (a b : StructDraft × Bool) : Prop :=
  a.1.Alike k b.1 ∧ a.2 = b.2

theorem inStep_structFields {self self' : Ty} (hself : self.Alike k self') (owner : String) :
    (fields : List FieldDecl) → (∀ id ∈ fieldDeclNodes fields, k.node id) →
      {draft draft' : StructDraft} → draft.Alike k draft' →
      InStep R (FieldsAlike k) (structFields self owner s draft fields)
        (structFields self' owner s' draft' fields)
  | [], _, _, _, hdraft => .ofPure ⟨hdraft, rfl⟩
  | f :: fields, h, draft, draft', hdraft => by
    obtain ⟨hhead, htail⟩ := List.forall_mem_append.mp h
    have hrest : ∀ {a b : StructDraft} (ok : Bool), a.Alike k b →
        InStep R (FieldsAlike k)
          (do let more ← structFields self owner s a fields
              return (more.1, ok && more.2))
          (do let more ← structFields self' owner s' b fields
              return (more.1, ok && more.2)) := by
      intro a b ok hab
      refine (inStep_structFields hself owner fields htail hab).map fun more more' hmore => ?_
      exact ⟨hmore.1, by rw [hmore.2]⟩
    refine (hR.inStep_resolve f.ty hhead).bind fun ty ty' hty => ?_
    cases hty with
    | none => exact hrest false hdraft
    | some hty =>
      refine InStep.ite (hty.eq_iff hself) (fun _ _ => ?_) fun _ _ => ?_
      · exact (hR.inStep_report (.same _) rfl _).bind fun _ _ _ => hrest false hdraft
      · rcases (hdraft.addField? hty f.name f.isPublic).inv with ⟨hc, hd⟩ | ⟨a, b, hc, hd, hab⟩
        · simp only [hc, hd]
          exact (hR.inStep_report (.same _) rfl _).bind fun _ _ _ => hrest false hdraft
        · simp only [hc, hd]
          exact hrest true hab

/-- Alike drafts with alike signatures of the methods to be checked. -/
def MethodsAlike (k : Pairing) (a b : StructDraft × List (Option Signature)) : Prop :=
  a.1.Alike k b.1 ∧ List.Forall₂ (Option.Rel (Signature.Alike k)) a.2 b.2

theorem inStep_structMethods (owner : String) :
    (methods : List MethodDecl) → (∀ id ∈ methodNodes methods, k.node id) →
      {draft draft' : StructDraft} → draft.Alike k draft' →
      InStep R (MethodsAlike k) (structMethods owner s draft methods)
        (structMethods owner s' draft' methods)
  | [], _, _, _, hdraft => .ofPure ⟨hdraft, .nil⟩
  | ⟨span, ⟨name, params, returnType, body, isPublic, returnsOwnership, takesOwnership⟩⟩ :: methods,
      h, draft, draft', hdraft => by
    obtain ⟨hhead, htail⟩ := List.forall_mem_append.mp h
    obtain ⟨hparams, hhead⟩ := List.forall_mem_append.mp hhead
    obtain ⟨hreturn, -⟩ := List.forall_mem_append.mp hhead
    have hrest : ∀ {a b : StructDraft} {sig sig' : Option Signature}, a.Alike k b →
        Option.Rel (Signature.Alike k) sig sig' →
        InStep R (MethodsAlike k)
          (do let more ← structMethods owner s a methods
              return (more.1, sig :: more.2))
          (do let more ← structMethods owner s' b methods
              return (more.1, sig' :: more.2)) := by
      intro a b sig sig' hab hsig
      refine (inStep_structMethods owner methods htail hab).map fun more more' hmore => ?_
      exact ⟨hmore.1, .cons hsig hmore.2⟩
    refine (hR.inStep_signature params hparams returnType hreturn).bind fun sig sig' hsig => ?_
    cases hsig with
    | none => exact hrest hdraft .none
    | some hsig =>
      dsimp only
      rcases (hdraft.addMethod? hsig.ty name isPublic (methodTraits ⟨name, params, returnType, body,
        isPublic, returnsOwnership, takesOwnership⟩)).inv with ⟨hc, hd⟩ | ⟨a, b, hc, hd, hab⟩
      · simp only [hc, hd]
        exact (hR.inStep_report (.same _) rfl _).bind fun _ _ _ => hrest hdraft .none
      · simp only [hc, hd]
        exact hrest hab (.some hsig)

/-! ### Switches and conditions -/

omit hR in
/-- A value of a case that names a member is put among the members that are covered. -/
theorem inStep_caseValue (value : Expr) (ok : Bool) {m n : CheckM (Bool × List String)}
    (hm : InStep R Eq m n) : InStep R Eq
      (do let found ← m
          match value.kind, ok with
          | .member _ member, true => return (found.1, member :: found.2)
          | _, _ => return (ok && found.1, found.2))
      (do let found ← n
          match value.kind, ok with
          | .member _ member, true => return (found.1, member :: found.2)
          | _, _ => return (ok && found.1, found.2)) := by
  refine hm.bind fun found found' hfound => ?_
  cases hfound
  split
  · exact .ofPure rfl
  · exact .ofPure rfl

theorem inStep_caseValues {expected expected' : Option Ty}
    (hexpected : Option.Rel (Ty.Alike k) expected expected') :
    (values : List Expr) → (∀ id ∈ exprNodes values, k.node id) →
      InStep R Eq (caseValues expected s values) (caseValues expected' s' values)
  | [], _ => .ofPure rfl
  | value :: values, h => by
    obtain ⟨hhead, htail⟩ := List.forall_mem_append.mp h
    have hrest := fun ok => inStep_caseValue value ok (inStep_caseValues hexpected values htail)
    refine (hR.inStep_expr value hhead).bind fun ty ty' hty => ?_
    cases hty with
    | none => exact hrest false
    | some hty =>
      cases hexpected with
      | none => exact hrest true
      | some hexpected =>
        refine InStep.ite (by rw [hexpected.assignable hty]) (fun _ _ => hrest true) fun _ _ => ?_
        refine (hR.inStep_reject (.mismatch hexpected hty) rfl _).bind fun ok ok' hok => ?_
        cases hok
        exact hrest ok

theorem inStep_condition (cond : Expr) (h : ∀ id ∈ cond.nodes, k.node id) :
    InStep R Eq (condition cond s) (condition cond s') := by
  have hbool : Ty.Alike k .bool .bool := .basic "bool"
  refine (hR.inStep_expr cond h).bind fun ty ty' hty => ?_
  cases hty with
  | none => exact .ofPure rfl
  | some hty =>
    refine InStep.ite (hty.eq_iff hbool) (fun _ _ => .ofPure rfl) fun _ _ => ?_
    exact hR.inStep_reject (.mismatch hbool hty) rfl _

theorem inStep_optionalCondition (cond : Option Expr)
    (h : ∀ id ∈ optionalExprNodes cond, k.node id) :
    InStep R Eq (optionalCondition cond s) (optionalCondition cond s') := by
  cases cond with
  | none => exact .ofPure rfl
  | some cond => exact hR.inStep_condition cond h

theorem inStep_optionalEffect (e : Option Expr) (h : ∀ id ∈ optionalExprNodes e, k.node id) :
    InStep R Eq (optionalEffect e s) (optionalEffect e s') := by
  cases e with
  | none => exact .ofPure rfl
  | some e => exact (hR.inStep_expr e h).map fun _ _ hty => hty.isSome_eq

end ExprLockstep

/-- The same verdict on the members, with alike signatures of the methods to be checked. -/
def HeadAlike (k : Pairing) (a b : StructHead) : Prop :=
  a.isOk = b.isOk ∧ List.Forall₂ (Option.Rel (Signature.Alike k)) a.signatures b.signatures

namespace StepLockstep

variable {k : Pairing} {R : StateRelation} (hR : StepLockstep k R)
  {l l' : Level} {S S' : List Level}

include hR

/-! ### Declarations of structs -/

theorem inStep_reserveStruct (name : String) (isPublic : Bool) :
    InStep (R (l :: S) (l' :: S')) k.declared (reserveStruct name isPublic l.scope)
      (reserveStruct name isPublic l'.scope) := by
  intro c d hcd
  obtain ⟨hid, hstates⟩ := hR.reserve name isPublic hcd
  exact ⟨hid, hstates, rfl, rfl⟩

theorem inStep_finalizeStruct {draft draft' : StructDraft} (h : draft.Alike k draft') :
    InStep (R S S') (fun _ _ => True) (finalizeStruct draft) (finalizeStruct draft') :=
  .ofModify (fun _ _ => hR.finalize h) (fun _ => rfl) fun _ => rfl

omit hR in
theorem all_isSome_eq {sigs sigs' : List (Option Signature)}
    (h : List.Forall₂ (Option.Rel (Signature.Alike k)) sigs sigs') :
    sigs.all (·.isSome) = sigs'.all (·.isSome) := by
  induction h with
  | nil => rfl
  | cons hsig _ ih => rw [List.all_cons, List.all_cons, hsig.isSome_eq, ih]

theorem inStep_structDecl (s : StructDecl) (hfields : ∀ id ∈ fieldDeclNodes s.fields, k.node id)
    (hmethods : ∀ id ∈ methodNodes s.methods, k.node id) (span : Span) :
    InStep (R (l :: S) (l' :: S')) (Option.Rel (HeadAlike k)) (structDecl s span l.scope)
      (structDecl s span l'.scope) := by
  refine (hR.inStep_reserveStruct s.name s.isPublic).bind fun i j hij => ?_
  have hself : Ty.Alike k (.struct i s.name) (.struct j s.name) :=
    .struct s.name (k.struct_of_declared hij)
  refine (hR.expr.inStep_inserting ⟨hself, rfl⟩ (hR.insert ⟨hself, rfl⟩) span).bind
    fun declared declared' hdeclared => ?_
  refine InStep.ite (by rw [hdeclared]) (fun _ _ => ?_) fun _ _ => .ofPure .none
  have hdraft : StructDraft.Alike k { id := i } { id := j } := ⟨hij, .nil, .nil⟩
  refine (hR.expr.inStep_structFields hself s.name s.fields hfields hdraft).bind
    fun found found' hfound => ?_
  refine (hR.expr.inStep_structMethods s.name s.methods hmethods hfound.1).bind
    fun methods methods' hsigs => ?_
  refine (hR.inStep_finalizeStruct hsigs.1).map fun _ _ _ => .some ⟨?_, hsigs.2⟩
  rw [hfound.2, all_isSome_eq hsigs.2]

end StepLockstep

/-- A relation between the states of two checks that have entered certain scopes, which every check
of the same syntax on both sides keeps. The declaration of a struct is one step of it: between its
parts, the relation need not hold. -/
structure Lockstep (k : Pairing) (R : StateRelation) : Prop extends WalkLockstep k R where
  insert {l l' S S' c d symbol symbol' t u} : symbol.kind ≠ .struct → symbol.Alike k symbol' →
    c.scopes.insert? l.scope symbol = some t → d.scopes.insert? l'.scope symbol' = some u →
    R (l :: S) (l' :: S') c d → R (l :: S) (l' :: S') { c with scopes := t } { d with scopes := u }
  struct {l l' S S'} (s : StructDecl) : (∀ id ∈ fieldDeclNodes s.fields, k.node id) →
    (∀ id ∈ methodNodes s.methods, k.node id) → ∀ span : Span,
      InStep (R (l :: S) (l' :: S')) (Option.Rel (HeadAlike k)) (structDecl s span l.scope)
        (structDecl s span l'.scope)

/-- What is kept by each elementary change is kept by the declarations of structs. -/
theorem StepLockstep.lockstep {k : Pairing} {R : StateRelation} (hR : StepLockstep k R) :
    Lockstep k R where
  toWalkLockstep := hR.toWalkLockstep
  insert _ := hR.insert
  struct := hR.inStep_structDecl

namespace Lockstep

variable {k : Pairing} {R : StateRelation} (hR : Lockstep k R)

include hR

section

variable {l l' : Level} {S S' : List Level}

/-! ### Declarations with their symbols -/

theorem inStep_declare {symbol symbol' : Symbol} (hkind : symbol.kind ≠ .struct)
    (hsymbol : symbol.Alike k symbol') (span : Span) :
    InStep (R (l :: S) (l' :: S')) Eq (declare l.scope symbol span)
      (declare l'.scope symbol' span) :=
  hR.expr.inStep_inserting hsymbol (hR.insert hkind hsymbol) span

theorem inStep_declareVariable (decl : VarDecl) (h : ∀ id ∈ optionalExprNodes decl.value, k.node id)
    {ty ty' : Ty} (hty : ty.Alike k ty') (span : Span) :
    InStep (R (l :: S) (l' :: S')) Eq (declareVariable decl ty span l.scope)
      (declareVariable decl ty' span l'.scope) := by
  refine InStep.ite (by rw [hty.isVoid]) (fun _ _ => hR.expr.inStep_reject (.same _) rfl span)
    fun _ _ => ?_
  refine (hR.inStep_declare (by nofun) ⟨hty, rfl⟩ span).bind fun declared declared' hdeclared => ?_
  refine InStep.ite (by rw [hdeclared]) (fun _ _ => ?_) fun _ _ => .ofPure rfl
  cases hvalue : decl.value with
  | none => exact .ofPure rfl
  | some value =>
    rw [hvalue] at h
    rw [hty.isPointer]
    intro c d hcd
    have hbound (shares : Bool) := hR.expr.bindResult decl.name shares span h c d hcd
    exact ⟨rfl, (hbound _).states, (hbound _).walk_left, (hbound _).walk_right⟩

theorem inStep_varDecl (decl : VarDecl) (hty : ∀ id ∈ optionalTypeNodes decl.ty, k.node id)
    (hvalue : ∀ id ∈ optionalExprNodes decl.value, k.node id) (span : Span) :
    InStep (R (l :: S) (l' :: S')) Eq (varDecl decl span l.scope) (varDecl decl span l'.scope) := by
  refine (hR.expr.inStep_annotated decl.ty hty).bind fun annotated annotated' hannotated => ?_
  cases hannotated with
  | none => exact .ofPure rfl
  | some hannotated =>
    refine (hR.expr.inStep_initializer decl.value hvalue).bind fun value value' hinit =>
      (hR.expr.inStep_variableType decl hannotated hinit span).bind fun found found' hfound => ?_
    cases hfound with
    | none => exact .ofPure rfl
    | @some found found' hfound =>
      obtain ⟨ty, ok⟩ := found
      obtain ⟨ty', ok'⟩ := found'
      obtain ⟨hty, rfl⟩ := hfound
      refine (hR.inStep_declareVariable decl hvalue hty span).map fun _ _ hdeclared => ?_
      rw [hdeclared]

theorem inStep_declareEnumMembers (decl : EnumDecl) (span : Span) (members : List String) :
    InStep (R (l :: S) (l' :: S')) (fun _ _ => True)
      (declareEnumMembers decl span l.scope members)
      (declareEnumMembers decl span l'.scope members) := by
  induction members with
  | nil => exact .ofPure trivial
  | cons member members ih =>
    refine (hR.expr.inStep_insertingQuietly ⟨.basic decl.name, rfl⟩ ?_).bind fun _ _ _ => ih
    exact hR.insert nofun ⟨.basic decl.name, rfl⟩

theorem inStep_enumDecl (decl : EnumDecl) (span : Span) :
    InStep (R (l :: S) (l' :: S')) Eq (enumDecl decl span l.scope)
      (enumDecl decl span l'.scope) := by
  refine (hR.expr.inStep_enumMembers decl.name span decl.members []).bind
    fun members members' hmembers => ?_
  cases hmembers
  refine (hR.inStep_declare (by nofun) ⟨.basic decl.name, rfl⟩ span).bind
    fun declared declared' hdeclared => ?_
  refine InStep.ite (by rw [hdeclared]) (fun _ _ => ?_) fun _ _ => .ofPure rfl
  exact (hR.inStep_declareEnumMembers decl span members).map fun _ _ _ => rfl

theorem inStep_fnDecl (f : FnDecl) (hparams : ∀ id ∈ paramNodes f.params, k.node id)
    (hreturn : ∀ id ∈ f.returnType.nodes, k.node id) (span : Span) :
    InStep (R (l :: S) (l' :: S')) (Option.Rel (Signature.Alike k)) (fnDecl f span l.scope)
      (fnDecl f span l'.scope) := by
  refine (hR.expr.inStep_signature f.params hparams f.returnType hreturn).bind
    fun sig sig' hsig => ?_
  cases hsig with
  | none => exact .ofPure .none
  | some hsig =>
    refine (hR.inStep_declare (by nofun) ⟨hsig.ty, rfl⟩ span).bind
      fun declared declared' hdeclared => ?_
    refine InStep.ite (by rw [hdeclared]) (fun _ _ => ?_) fun _ _ => .ofPure .none
    exact .ofPure (.some hsig)

theorem inStep_declareParams (takesAll : Bool) (params : List Param) {tys tys' : List Ty}
    (h : List.Forall₂ (Ty.Alike k) tys tys') :
    InStep (R (l :: S) (l' :: S')) Eq (declareParams takesAll l.scope params tys)
      (declareParams takesAll l'.scope params tys') := by
  induction h generalizing params with
  | nil => cases params <;> exact .ofPure rfl
  | @cons _ _ tys tys' hty _ ih =>
    cases params with
    | nil => exact .ofPure rfl
    | cons p params =>
      refine (hR.inStep_declare (by nofun) ⟨hty, rfl⟩ p.span).bind fun ok ok' hok => ?_
      have hrest : InStep (R (l :: S) (l' :: S')) Eq
          (do return ok && (← declareParams takesAll l.scope params tys))
          (do return ok' && (← declareParams takesAll l'.scope params tys')) := by
        refine (ih params).map fun rest rest' hrest => ?_
        rw [hok, hrest]
      refine InStep.ite (by rw [hok, hty.isPointer]) (fun _ _ => ?_) fun _ _ => hrest
      exact (hR.expr.inStep_allocate p.name p.span).bind fun _ _ _ => hrest

theorem inStep_checkInside (f : FnDecl) {sig sig' : Signature} (hsig : sig.Alike k sig')
    (span : Span) (hstmts : InStep (R (l :: S) (l' :: S')) Eq (checkStmts l.scope f.body.stmts)
      (checkStmts l'.scope f.body.stmts)) :
    InStep (R (l :: S) (l' :: S')) Eq (f.checkInside sig span l.scope)
      (f.checkInside sig' span l'.scope) := by
  refine (hR.inStep_declareParams f.takesOwnership f.params hsig.params).bind fun ok ok' hok => ?_
  refine hstmts.bind fun bodyOk bodyOk' hbodyOk => ?_
  rw [hok, hbodyOk, hsig.ret.isVoid]
  cases sig'.ret.isVoid || alwaysReturn f.body.stmts with
  | true => exact .ofPure rfl
  | false =>
    exact (hR.expr.inStep_report (.missingReturn f.name hsig.ret) rfl span).map fun _ _ _ => rfl

end

/-! ### Statements -/

mutual

theorem inStep_stmt {l l' : Level} {S S' : List Level} : (s : Stmt) → (∀ id ∈ s.nodes, k.node id) →
      InStep (R (l :: S) (l' :: S')) Eq (s.check l.scope) (s.check l'.scope)
  | ⟨span, .var decl⟩, h => by
    obtain ⟨hty, hvalue⟩ := List.forall_mem_append.mp h
    exact hR.inStep_varDecl decl hty hvalue span
  | ⟨span, .fn ⟨name, params, returnType, body, isPublic, returnsOwnership, takesOwnership⟩⟩,
    h => by
    obtain ⟨hparams, hrest⟩ := List.forall_mem_append.mp h
    obtain ⟨hreturn, hbody⟩ := List.forall_mem_append.mp hrest
    refine (hR.inStep_fnDecl ⟨name, params, returnType, body, isPublic, returnsOwnership,
      takesOwnership⟩ hparams hreturn span).bind fun sig sig' hsig => ?_
    cases hsig with
    | none => exact .ofPure rfl
    | some hsig => exact inStep_body hsig span name _ h
  | ⟨span, .struct ⟨name, isPublic, fields, methods⟩⟩, h => by
    obtain ⟨hfields, hmethods⟩ := List.forall_mem_append.mp h
    refine (hR.struct ⟨name, isPublic, fields, methods⟩ hfields hmethods span).bind
      fun head head' hhead => ?_
    cases hhead with
    | none => exact .ofPure rfl
    | some hhead =>
      refine (inStep_methods name methods hmethods hhead.2).map fun ok ok' hok => ?_
      rw [hhead.1, hok]
  | ⟨span, .enum decl⟩, _ => hR.inStep_enumDecl decl span
  | ⟨span, .importModule module _⟩, _ => by
    apply InStep.ofGet
    intro c d hcd
    rw [(hR.expr.view hcd).isModule]
    exact InStep.ite Iff.rfl (fun _ _ => .ofPure rfl) fun _ _ =>
      hR.expr.inStep_reject (.same _) rfl span
  | ⟨span, .ret value⟩, h => by
    apply InStep.ofGet
    intro c d hcd
    have hexpected : Option.Rel (Ty.Alike k) (c.walk.frames.head?.map (·.returnType))
        (d.walk.frames.head?.map (·.returnType)) :=
      (hR.expr.view hcd).frame.map fun _ _ hframe => hframe.returnType
    generalize c.walk.frames.head?.map (·.returnType) = expected at hexpected ⊢
    generalize d.walk.frames.head?.map (·.returnType) = expected' at hexpected ⊢
    refine (hR.expr.inStep_initializer value h).bind fun _ _ hfound => ?_
    cases hexpected with
    | none => exact hR.inStep_jump rfl span
    | some hty => exact hR.expr.inStep_returned hty value hfound span
  | ⟨_, .conditional branches otherwise⟩, h => by
    obtain ⟨hbranches, hotherwise⟩ := List.forall_mem_append.mp h
    refine (inStep_branches "if" branches hbranches).bind fun ok ok' hok => ?_
    refine (inStep_optionalBlock "else" otherwise hotherwise).map fun rest rest' hrest => ?_
    rw [hok, hrest]
  | ⟨_, .loop init cond step body⟩, h => by
    obtain ⟨hinit, hrest⟩ := List.forall_mem_append.mp h
    obtain ⟨hcond, hrest⟩ := List.forall_mem_append.mp hrest
    obtain ⟨hstep, hbody⟩ := List.forall_mem_append.mp hrest
    have hinner : ∀ i i', InStep (R (⟨i, false⟩ :: l :: S) (⟨i', false⟩ :: l' :: S')) Eq
        (do let initOk ← checkOptionalStmt i init
            let condOk ← optionalCondition cond i
            let stepOk ← optionalEffect step i
            let bodyOk ← within Walk.enterLoop (body.checkIn i "loop body")
            return initOk && condOk && stepOk && bodyOk)
        (do let initOk ← checkOptionalStmt i' init
            let condOk ← optionalCondition cond i'
            let stepOk ← optionalEffect step i'
            let bodyOk ← within Walk.enterLoop (body.checkIn i' "loop body")
            return initOk && condOk && stepOk && bodyOk) := by
      intro i i'
      refine (inStep_optionalStmt init hinit).bind fun _ _ hinitOk => ?_
      refine (hR.expr.inStep_optionalCondition cond hcond).bind fun _ _ hcondOk => ?_
      refine (hR.expr.inStep_optionalEffect step hstep).bind fun _ _ hstepOk => ?_
      refine (hR.inStep_within hR.enterLoop (inStep_block "loop body" body hbody)).map
        fun _ _ hbodyOk => ?_
      rw [hinitOk, hcondOk, hstepOk, hbodyOk]
    have hloop := hR.inStep_inBlock "loop" hinner
    simp only [bind_assoc, pure_bind] at hloop
    exact hloop
  | ⟨span, .breakLoop⟩, _ => by
    apply InStep.ofGet
    intro c d hcd
    rw [(hR.expr.view hcd).loopDepth]
    exact InStep.ite Iff.rfl (fun _ _ => .ofPure rfl) fun _ _ => hR.inStep_jump rfl span
  | ⟨span, .continueLoop⟩, _ => by
    apply InStep.ofGet
    intro c d hcd
    rw [(hR.expr.view hcd).loopDepth]
    exact InStep.ite Iff.rfl (fun _ _ => .ofPure rfl) fun _ _ => hR.inStep_jump rfl span
  | ⟨span, .switch scrutinee cases otherwise⟩, h => by
    obtain ⟨hscrutinee, hrest⟩ := List.forall_mem_append.mp h
    obtain ⟨hcases, hotherwise⟩ := List.forall_mem_append.mp hrest
    refine (hR.expr.inStep_expr scrutinee hscrutinee).bind fun ty ty' hty => ?_
    refine (inStep_cases hty cases hcases).bind fun found found' hfound => ?_
    cases hfound
    refine (inStep_optionalBlock "default" otherwise hotherwise).bind fun rest rest' hrest => ?_
    refine (hR.expr.inStep_exhaustiveness hty found.2 otherwise.isSome span).map
      fun exhaustive exhaustive' hexhaustive => ?_
    rw [hty.isSome_eq, hrest, hexhaustive]
  | ⟨_, .defer stmt⟩, h => hR.inStep_within hR.enterDefer (inStep_stmt stmt h)
  | ⟨_, .block block⟩, h => inStep_block "block" block h
  | ⟨_, .expr e⟩, h => (hR.expr.inStep_expr e h).map fun _ _ hty => hty.isSome_eq

theorem inStep_stmts {l l' : Level} {S S' : List Level} :
    (ss : List Stmt) → (∀ id ∈ stmtNodes ss, k.node id) →
      InStep (R (l :: S) (l' :: S')) Eq (checkStmts l.scope ss) (checkStmts l'.scope ss)
  | [], _ => .ofPure rfl
  | s :: ss, h => by
    obtain ⟨hhead, htail⟩ := List.forall_mem_append.mp h
    refine (inStep_stmt s hhead).bind fun ok ok' hok => ?_
    refine (inStep_stmts ss htail).map fun rest rest' hrest => ?_
    rw [hok, hrest]

theorem inStep_optionalStmt {l l' : Level} {S S' : List Level} :
    (s : Option Stmt) → (∀ id ∈ optionalStmtNodes s, k.node id) →
      InStep (R (l :: S) (l' :: S')) Eq (checkOptionalStmt l.scope s)
        (checkOptionalStmt l'.scope s)
  | none, _ => .ofPure rfl
  | some s, h => inStep_stmt s h

theorem inStep_block {l l' : Level} {S S' : List Level} (name : String) :
    (b : Block) → (∀ id ∈ b.nodes, k.node id) →
      InStep (R (l :: S) (l' :: S')) Eq (b.checkIn l.scope name) (b.checkIn l'.scope name)
  | ⟨_, stmts⟩, h => hR.inStep_inBlock name fun _ _ => inStep_stmts stmts h

theorem inStep_optionalBlock {l l' : Level} {S S' : List Level} (name : String) :
    (b : Option Block) → (∀ id ∈ optionalBlockNodes b, k.node id) →
      InStep (R (l :: S) (l' :: S')) Eq (checkOptionalBlock l.scope name b)
        (checkOptionalBlock l'.scope name b)
  | none, _ => .ofPure rfl
  | some b, h => inStep_block name b h

theorem inStep_branches {l l' : Level} {S S' : List Level} (name : String) :
    (branches : List (Expr × Block)) → (∀ id ∈ branchNodes branches, k.node id) →
      InStep (R (l :: S) (l' :: S')) Eq (checkBranches l.scope name branches)
        (checkBranches l'.scope name branches)
  | [], _ => .ofPure rfl
  | (cond, block) :: branches, h => by
    obtain ⟨hcond, hrest⟩ := List.forall_mem_append.mp h
    obtain ⟨hblock, htail⟩ := List.forall_mem_append.mp hrest
    refine (hR.expr.inStep_condition cond hcond).bind fun condOk condOk' hcondOk => ?_
    refine (inStep_block name block hblock).bind fun ok ok' hok => ?_
    refine (inStep_branches "elif" branches htail).map fun rest rest' hrest => ?_
    rw [hcondOk, hok, hrest]

theorem inStep_cases {l l' : Level} {S S' : List Level} {expected expected' : Option Ty}
    (hexpected : Option.Rel (Ty.Alike k) expected expected') :
    (cases : List SwitchCase) → (∀ id ∈ caseNodes cases, k.node id) →
      InStep (R (l :: S) (l' :: S')) Eq (checkCases l.scope expected cases)
        (checkCases l'.scope expected' cases)
  | [], _ => .ofPure rfl
  | ⟨_, values, body⟩ :: cases, h => by
    obtain ⟨hvalues, hrest⟩ := List.forall_mem_append.mp h
    obtain ⟨hbody, htail⟩ := List.forall_mem_append.mp hrest
    refine (hR.expr.inStep_caseValues hexpected values hvalues).bind fun found found' hfound => ?_
    refine (inStep_block "case" body hbody).bind fun ok ok' hok => ?_
    refine (inStep_cases hexpected cases htail).map fun more more' hmore => ?_
    rw [hfound, hok, hmore]

theorem inStep_body {l l' : Level} {S S' : List Level} {sig sig' : Signature}
    (hsig : sig.Alike k sig') (span : Span) (name : String) :
    (f : FnDecl) → (∀ id ∈ f.nodes, k.node id) →
      InStep (R (l :: S) (l' :: S')) Eq (f.checkBody sig span l.scope name)
        (f.checkBody sig' span l'.scope name)
  | ⟨fnName, params, returnType, ⟨bodySpan, stmts⟩, isPublic, returns, takes⟩, h => by
    obtain ⟨-, hrest⟩ := List.forall_mem_append.mp h
    obtain ⟨-, hstmts⟩ := List.forall_mem_append.mp hrest
    rw [FnDecl.checkBody_eq, FnDecl.checkBody_eq]
    have hframe : ∀ f : FnDecl, Frame.Alike k (f.frame sig name) (f.frame sig' name) :=
      fun _ => ⟨hsig.ret, rfl⟩
    intro c d hcd
    obtain ⟨hresult, hstates, -, -⟩ := hR.inStep_checkInside
      ⟨fnName, params, returnType, ⟨bodySpan, stmts⟩, isPublic, returns, takes⟩ hsig span
      (inStep_stmts stmts hstmts) _ _ (hR.pushBody name (hframe _) hcd)
    have hleft := hR.popBody hcd (hR.leaveScope hstates)
    exact ⟨hresult, hleft, rfl, rfl⟩

theorem inStep_methods {l l' : Level} {S S' : List Level} (owner : String) :
    (methods : List MethodDecl) → (∀ id ∈ methodNodes methods, k.node id) →
      {sigs sigs' : List (Option Signature)} →
      List.Forall₂ (Option.Rel (Signature.Alike k)) sigs sigs' →
      InStep (R (l :: S) (l' :: S')) Eq (checkMethods l.scope owner methods sigs)
        (checkMethods l'.scope owner methods sigs')
  | [], _, _, _, _ => .ofPure rfl
  | ⟨_, _⟩ :: _, _, _, _, .nil => .ofPure rfl
  | ⟨span, decl⟩ :: methods, h, _, _, .cons hsig hsigs => by
    obtain ⟨hhead, htail⟩ := List.forall_mem_append.mp h
    cases hsig with
    | none => exact inStep_methods owner methods htail hsigs
    | some hsig =>
      refine (inStep_body hsig span s!"{owner}.{decl.name}" decl hhead).bind fun ok ok' hok => ?_
      refine (inStep_methods owner methods htail hsigs).map fun rest rest' hrest => ?_
      rw [hok, hrest]

end

end Lockstep

end Warden

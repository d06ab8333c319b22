import Warden.Proofs.Visits.Expr

/-!
# The traces of declarations

To declare something records no type. So the visits of a declaration are those of the written types
and values in it. Fields, methods and the values of a case are collected one by one, and each of
them is visited before the next.
-/

namespace Warden

open CheckM Check Trace

/-! ### Declaring -/

section idle

variable (scope : ScopeId)

theorem idle_addBlock (parent : ScopeId) (name : String) : Idle (addBlock parent name) :=
  ⟨fun c => .setScopes c (.addScope c.scopes parent name .block none), fun _ => rfl⟩

theorem idle_addFunction (parent : ScopeId) (name : String) : Idle (addFunction parent name) :=
  ⟨fun c => .setScopes c (.addScope c.scopes parent name (.function name) (some {})), fun _ => rfl⟩

theorem idle_reserveStruct (name : String) (isPublic : Bool) :
    Idle (reserveStruct name isPublic scope) := by
  refine ⟨fun c => ⟨List.prefix_refl _, id, fun hname => ?_⟩, fun _ => rfl⟩
  have hne := Nat.ne_of_lt (StructTable.lt_size_of_module? hname)
  exact (c.structs.module?_reserve name _ isPublic _).trans ((if_neg hne).trans hname)

theorem idle_finalizeStruct (draft : StructDraft) : Idle (finalizeStruct draft) := by
  refine ⟨fun c => ⟨List.prefix_refl _, id, fun hname => ?_⟩, fun _ => rfl⟩
  exact (c.structs.module?_finalize draft _).trans hname

end idle

section followed

variable (scope : ScopeId) (c : Checker)

/-- What a value is used for may declare something. -/
theorem followed_value (e : Expr) :
    Followed Charged scope c (e.sites .value) (e.visits scope .value c) (e.check scope) :=
  followed_expr scope e .value c

/-! ### Variables and functions -/

theorem followed_annotatedType (ty : Option TypeExpr) :
    Followed Charged scope c (optionalTypeSites ty) (optionalTypeVisits scope ty c)
      ( annotation ty scope) := by
  cases ty with
  | none => exact (Passive.ofPure _).followed c
  | some ty => exact (followed_resolve scope ty c).last fun _ => .ofPure _

theorem followed_initializer (value : Option Expr) :
    Followed Charged scope c (optionalExprSites value) (optionalExprVisits scope value c)
      (Check.initializer value scope) := by
  cases value with
  | none => exact (Passive.ofPure _).followed c
  | some value => exact (followed_value scope c value).last fun _ => .ofPure _

theorem followed_varDecl (decl : VarDecl) (span : Span) :
    Followed Charged scope c (optionalTypeSites decl.ty ++ optionalExprSites decl.value)
      (andThen ( annotation decl.ty scope) (optionalTypeVisits scope decl.ty)
        (whenSome fun _ => optionalExprVisits scope decl.value) c) (varDecl decl span scope) := by
  refine (followed_annotatedType scope c decl.ty).cases
    (fun h => yields_annotatedType scope h decl.ty) (.ofPure false) fun annotated =>
      (followed_initializer scope _ decl.value).last fun value => ?_
  refine (reports_variableType scope decl annotated value span).passive.bind fun result => ?_
  cases result with
  | none => exact .ofPure false
  | some result =>
    exact (binds_declareVariable scope decl result.1 span).passive.bind
      fun _ => .ofPure _

theorem followed_paramTypes : (params : List Param) → ∀ c : Checker,
    Followed Charged scope c (paramSites params) (paramVisits scope params c)
      (paramTypes scope params)
  | [], c => (Passive.ofPure _).followed c
  | p :: ps, c => by
    refine (followed_resolve scope p.ty c).bind (typed_resolve scope p.ty)
      ((followed_paramTypes ps _).last fun tys => ?_)
    split <;> exact .ofPure _

theorem followed_signature (params : List Param) (returnType : TypeExpr) :
    Followed Charged scope c (paramSites params ++ returnType.sites)
      (signatureVisits params returnType scope c) (signature params returnType scope) := by
  refine (followed_paramTypes scope params c).bind (yields_paramTypes scope params)
    ((followed_resolve scope returnType _).last fun ret => ?_)
  split <;> exact .ofPure _

theorem followed_fnDecl (d : FnDecl) (span : Span) :
    Followed Charged scope c (paramSites d.params ++ d.returnType.sites)
      (signatureVisits d.params d.returnType scope c) (fnDecl d span scope) := by
  refine (followed_signature scope c d.params d.returnType).last fun sig => ?_
  cases sig with
  | none => exact .ofPure none
  | some sig =>
    refine (binds_declare scope _ span).passive.bind fun declared => ?_
    cases declared <;> exact .ofPure _

/-! ### Structs -/

/-- Fields are collected one by one. -/
theorem structFields_cons (self : Ty) (owner : String) (draft : StructDraft) (f : FieldDecl)
    (fs : List FieldDecl) : structFields self owner scope draft (f :: fs) = (do
      let first ← structFields self owner scope draft [f]
      let rest ← structFields self owner scope first.1 fs
      return (rest.1, first.2 && rest.2)) := by
  simp only [structFields, bind_assoc, pure_bind, Bool.and_true]
  refine bind_congr fun ty => ?_
  cases ty with
  | none => simp
  | some ty =>
    by_cases hself : ty = self
    · simp [hself]
    · cases hadd : draft.addField? f.name ty f.isPublic <;> simp [hself, hadd]

theorem followed_structField (self : Ty) (owner : String) (draft : StructDraft) (f : FieldDecl) :
    Followed Charged scope c f.ty.sites (f.ty.visits scope c)
      (structFields self owner scope draft [f]) := by
  refine (followed_resolve scope f.ty c).last fun ty => ?_
  cases ty with
  | none => exact .ofPure _
  | some ty =>
    dsimp only
    split
    · exact (Passive.report rfl _).bind fun _ => .ofPure _
    · cases draft.addField? f.name ty f.isPublic with
      | some draft => exact .ofPure _
      | none => exact (Passive.report rfl _).bind fun _ => .ofPure _

theorem followed_structFields (self : Ty) (owner : String) :
    (fields : List FieldDecl) → ∀ (draft : StructDraft) (c : Checker),
      Followed Charged scope c (fieldDeclSites fields)
        (fieldDeclVisits self owner scope draft fields c)
        (structFields self owner scope draft fields)
  | [], _, c => (Passive.ofPure _).followed c
  | f :: fs, draft, c => by
    rw [structFields_cons]
    exact (followed_structField scope c self owner draft f).bind
      (judged_structFields scope self owner [f] draft)
      ((followed_structFields self owner fs _ _).last fun _ => .ofPure _)

/-- Methods are collected one by one. -/
theorem structMethods_cons (owner : String) (draft : StructDraft) (span : Span) (d : FnDecl)
    (ms : List MethodDecl) : structMethods owner scope draft (⟨span, d⟩ :: ms) = (do
      let first ← structMethods owner scope draft [⟨span, d⟩]
      let rest ← structMethods owner scope first.1 ms
      return (rest.1, first.2 ++ rest.2)) := by
  simp only [structMethods, bind_assoc, pure_bind]
  refine bind_congr fun sig => ?_
  cases sig with
  | none => simp
  | some sig =>
    cases hadd : draft.addMethod? d.name sig.ty d.isPublic (methodTraits d) <;> simp [hadd]

theorem followed_structMethod (owner : String) (draft : StructDraft) (span : Span) (d : FnDecl) :
    Followed Charged scope c (paramSites d.params ++ d.returnType.sites)
      (signatureVisits d.params d.returnType scope c)
      (structMethods owner scope draft [⟨span, d⟩]) := by
  refine (followed_signature scope c d.params d.returnType).last fun sig => ?_
  cases sig with
  | none => exact .ofPure _
  | some sig =>
    dsimp only
    cases draft.addMethod? d.name sig.ty d.isPublic (methodTraits d) with
    | some draft => exact .ofPure _
    | none => exact (Passive.report rfl _).bind fun _ => .ofPure _

/-- The expressions in the types of methods. -/
def methodTypeSites : List MethodDecl → List Site
  | [] => []
  | ⟨_, d⟩ :: ms => (paramSites d.params ++ d.returnType.sites) ++ methodTypeSites ms

theorem followed_structMethods (owner : String) :
    (methods : List MethodDecl) → ∀ (draft : StructDraft) (c : Checker),
      Followed Charged scope c (methodTypeSites methods)
        (methodTypeVisits owner scope draft methods c) (structMethods owner scope draft methods)
  | [], _, c => (Passive.ofPure _).followed c
  | ⟨span, d⟩ :: ms, draft, c => by
    rw [structMethods_cons]
    exact (followed_structMethod scope c owner draft span d).bind
      (judged_structMethods scope owner [⟨span, d⟩] draft)
      ((followed_structMethods owner ms _ _).last fun _ => .ofPure _)

/-- The members of a struct are visited if its name could be declared; if not, that is a fault. -/
theorem followed_structDecl (d : StructDecl) (span : Span) :
    Followed Charged scope c (fieldDeclSites d.fields ++ methodTypeSites d.methods)
      (memberVisits d span scope c) (structDecl d span scope) := by
  have hself := known_reserveStruct scope c d.name d.isPublic
  refine .first ⟨idle_reserveStruct scope d.name d.isPublic,
    Silent.sparing fun _ => ⟨rfl, rfl⟩, fun c => .ofStructs _ c⟩
    (fun h => judged_reserveStruct scope h d.name d.isPublic) ?_
  unfold memberVisits after
  dsimp only
  generalize (reserveStruct d.name d.isPublic scope).eval c = id at hself ⊢
  generalize (reserveStruct d.name d.isPublic scope).exec c = c at hself ⊢
  generalize hsymbol : Symbol.mk d.name (.struct id d.name) .struct d.isPublic false 0 false false
    [] span = symbol
  have hwell : symbol.WellTyped c.structs := by
    rw [← hsymbol]
    exact ⟨hself, fun _ => ⟨_, _, rfl⟩⟩
  have hdeclare (h : c.WellTyped) :=
    judged_declare span scope (.refl h) symbol hwell (hsymbol ▸ rfl)
  have hbinds := (binds_declare scope symbol span).passive
  cases hok : (declare scope symbol span).eval c with
  | true =>
    refine .first hbinds hdeclare ?_
    rw [hok]
    exact (followed_structFields scope _ d.name d.fields { id } _).bind
      (judged_structFields scope (.struct id d.name) d.name d.fields { id })
      ((followed_structMethods scope d.name d.methods _ _).last fun result =>
        Passive.bind ⟨idle_finalizeStruct result.1, Silent.sparing fun _ => ⟨rfl, rfl⟩,
          fun c => .ofStructs _ c⟩ fun _ => .ofPure _)
  | false =>
    exact (Followed.ofFailure hbinds hdeclare (.inr hok)).lastOf hok (.ofPure none)

/-! ### Switches -/

/-- The values of a case are looked at one by one. -/
theorem caseValues_cons (expected : Option Ty) (value : Expr) (values : List Expr) :
    caseValues expected scope (value :: values) = (do
      let first ← caseValues expected scope [value]
      let rest ← caseValues expected scope values
      return (first.1 && rest.1, first.2 ++ rest.2)) := by
  simp only [caseValues, bind_assoc, pure_bind]
  refine bind_congr fun ty => ?_
  cases ty with
  | none => cases value.kind <;> simp
  | some ty =>
    cases expected with
    | none => cases value.kind <;> simp
    | some expected =>
      by_cases hty : expected.assignable ty
      · cases value.kind <;> simp [hty]
      · simp only [hty, Bool.false_eq_true, if_false, bind_assoc]
        refine bind_congr fun ok => ?_
        cases ok <;> cases value.kind <;> simp

theorem followed_caseValue (expected : Option Ty) (value : Expr) :
    Followed Charged scope c (value.sites .value) (value.visits scope .value c)
      (caseValues expected scope [value]) := by
  refine (followed_value scope c value).last fun ty => ?_
  cases ty with
  | none =>
    dsimp only
    cases value.kind <;> exact .ofPure _
  | some ty =>
    cases expected with
    | none =>
      dsimp only
      cases value.kind <;> exact .ofPure _
    | some expected =>
      dsimp only
      split
      · cases value.kind <;> exact .ofPure _
      · refine (Passive.reject rfl _).bind fun ok => ?_
        cases ok <;> cases value.kind <;> exact .ofPure _

theorem followed_caseValues (expected : Option Ty) (values : List Expr) (c : Checker) :
    Followed Charged scope c (exprSites values) (caseValueVisits expected scope values c)
      (caseValues expected scope values) := by
  induction values generalizing c with
  | nil => exact (Passive.ofPure _).followed c
  | cons value values ih =>
    rw [caseValues_cons]
    exact (followed_caseValue scope c expected value).bind
      (judged_caseValues scope expected [value]) ((ih _).last fun _ => .ofPure _)

/-! ### Conditions and effects -/

theorem followed_condition (cond : Expr) :
    Followed Charged scope c (cond.sites .value) (cond.visits scope .value c)
      (condition cond scope) := by
  refine (followed_value scope c cond).last fun ty => ?_
  cases ty with
  | none => exact .ofPure _
  | some ty =>
    dsimp only
    split
    · exact .ofPure _
    · exact .reject rfl _

theorem followed_optionalCondition (cond : Option Expr) :
    Followed Charged scope c (optionalExprSites cond) (optionalExprVisits scope cond c)
      (optionalCondition cond scope) := by
  cases cond with
  | none => exact (Passive.ofPure _).followed c
  | some cond => exact followed_condition scope c cond

theorem followed_optionalEffect (e : Option Expr) :
    Followed Charged scope c (optionalExprSites e) (optionalExprVisits scope e c)
      (optionalEffect e scope) := by
  cases e with
  | none => exact (Passive.ofPure _).followed c
  | some e => exact (followed_value scope c e).last fun _ => .ofPure _

/-! ### Imports -/

/-- A name may be imported that no module has. -/
theorem passive_import (span : Span) (module : String) (localName : Option String) :
    Passive Charged scope ((⟨span, .importModule module localName⟩ : Stmt).check scope) := by
  rw [Stmt.check]
  refine .ofGet fun c => ?_
  split
  · exact .ofPure true
  · exact .reject rfl span

end followed

end Warden

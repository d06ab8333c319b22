import Warden.Proofs.Lockstep.Basic

/-!
# The rules of two checks in step

One theorem for each rule of the modules on names, members, operators and calls. A rule asks its
view and the types it is given; alike views and types give alike answers, so both sides take the
same branch, and what they then do is a building block of the walk. Most rules only report
(`ReportLockstep`).
-/

namespace Warden

open CheckM Check

variable {ty' ty objectTy' receiver' objectTy receiver : Option Ty} {i j : StructId}
  {a b : StructDef} {c d : Checker}

namespace ReportLockstep

variable {k : Pairing} {s s' : ScopeId} {R : Checker → Checker → Prop}
  (hR : ReportLockstep k s s' R)

include hR

/-! ### Names -/

theorem inStep_ident (name : String) (span : Span) :
    InStep R (Option.Rel (Ty.Alike k)) (ident name span s) (ident name span s') := by
  apply InStep.ofGet
  intro c d hcd
  have hview := hR.view hcd
  rcases (hview.lookup? name).inv with ⟨hc, hd⟩ | ⟨a, b, hc, hd, hab⟩
  · rw [hc, hd, hview.isSome_findImport?]
    exact hR.inStep_fail (.same _) rfl span
  · rw [hc, hd]
    refine InStep.ite (by rw [hab.isType]) (fun _ _ => ?_) fun _ _ => ?_
    · exact hR.inStep_fail (.same _) rfl span
    · exact .ofPure (.some hab.ty)

theorem inStep_qualifiedSymbol (module name : String) (span : Span) :
    InStep R (Option.Rel (Symbol.Alike k))
      (qualifiedSymbol module name span s) (qualifiedSymbol module name span s') := by
  apply InStep.ofGet
  intro c d hcd
  have hlookup := (hR.view hcd).qualifiedLookup module name
  rw [(hR.view hcd).imported]
  generalize c.scopes.qualifiedLookup s module name = found at hlookup ⊢
  generalize d.scopes.qualifiedLookup s' module name = found' at hlookup ⊢
  cases hlookup with
  | found h => exact .ofPure (.some h)
  | hidden h => exact hR.inStep_fail (.same _) rfl span
  | unknownModule => exact hR.inStep_fail (.same _) rfl span
  | notFound => exact hR.inStep_fail (.same _) rfl span

theorem inStep_qualified (module name : String) (span : Span) :
    InStep R (Option.Rel (Ty.Alike k)) (qualified module name span s)
      (qualified module name span s') := by
  refine (hR.inStep_qualifiedSymbol module name span).bind fun found found' h => ?_
  cases h with
  | none => exact .ofPure .none
  | some hab =>
    refine InStep.ite (by rw [hab.isType]) (fun _ _ => ?_) fun _ _ => ?_
    · exact hR.inStep_fail (.same _) rfl span
    · exact .ofPure (.some hab.ty)

theorem inStep_namedType (name : String) (span : Span) :
    InStep R (Option.Rel (Ty.Alike k)) (namedType name span s) (namedType name span s') := by
  refine InStep.ite Iff.rfl (fun _ _ => .ofPure (.some (.basic name))) fun _ _ => ?_
  apply InStep.ofGet
  intro c d hcd
  have hfound : Option.Rel (Symbol.Alike k) ((c.scopes.lookup? s name).filter (·.isType))
      ((d.scopes.lookup? s' name).filter (·.isType)) :=
    ((hR.view hcd).lookup? name).filter fun _ _ h => h.isType
  rcases hfound.inv with ⟨hc, hd⟩ | ⟨a, b, hc, hd, hab⟩
  · rw [hc, hd]
    exact hR.inStep_fail (.same _) rfl span
  · rw [hc, hd]
    exact .ofPure (.some hab.ty)

theorem inStep_qualifiedType (module name : String) (span : Span) :
    InStep R (Option.Rel (Ty.Alike k))
      (qualifiedType module name span s) (qualifiedType module name span s') := by
  refine (hR.inStep_qualifiedSymbol module name span).bind fun found found' h => ?_
  cases h with
  | none => exact .ofPure .none
  | some hab =>
    refine InStep.ite (by rw [hab.isType]) (fun _ _ => ?_) fun _ _ => ?_
    · exact .ofPure (.some hab.ty)
    · exact hR.inStep_fail (.same _) rfl span

/-! ### Members and struct literals -/

theorem inStep_structMember (hij : k.struct i j) (member : String) (span : Span) :
    InStep R (Option.Rel (StructMember.Alike k))
      (structMember i member span s) (structMember j member span s') := by
  apply InStep.ofGet
  intro c d hcd
  have hview := hR.view hcd
  rcases (hview.struct hij).inv with ⟨hc, hd⟩ | ⟨a, b, hc, hd, hab⟩
  · rw [hc, hd]
    exact .ofPure .none
  · rw [hc, hd]
    rcases (hab.member? member).inv with ⟨ha, hb⟩ | ⟨x, y, ha, hb, hxy⟩
    · simp only [ha, hb, hab.name]
      exact hR.inStep_fail (.same _) rfl span
    · simp only [ha, hb, hxy.isPublic, hxy.isMethod, hab.module, hab.name, hview.moduleAt]
      refine InStep.ite Iff.rfl (fun _ _ => ?_) fun _ _ => ?_
      · exact hR.inStep_fail (.same _) rfl span
      · exact .ofPure (.some hxy)

theorem inStep_structMemberType (hij : k.struct i j) (member : String) (span : Span) :
    InStep R (Option.Rel (Ty.Alike k))
      (structMemberType i member span s) (structMemberType j member span s') :=
  (hR.inStep_structMember hij member span).map fun _ _ h => h.map fun _ _ hab => hab.ty

theorem inStep_enumMember (enum member : String) {found found' : Option Symbol}
    (h : Option.Rel (Symbol.Alike k) found found') (span : Span) :
    InStep R (Option.Rel (Ty.Alike k)) (enumMember enum member found span)
      (enumMember enum member found' span) := by
  cases h with
  | none => exact hR.inStep_fail (.same _) rfl span
  | some hab => exact .ofPure (.some hab.ty)

omit hR in
theorem isEnumSymbol_eq {a b : Symbol} (h : a.Alike k b) : isEnumSymbol a = isEnumSymbol b := by
  rw [isEnumSymbol, isEnumSymbol, h.enumMembers?]

theorem inStep_staticMember (object : Expr) (member : String) (span : Span) :
    InStep R (Option.Rel (Option.Rel (Ty.Alike k)))
      (staticMember object member span s) (staticMember object member span s') := by
  apply InStep.ofGet
  intro c d hcd
  have hview := hR.view hcd
  cases object.kind with
  | ident name =>
    rcases (hview.lookup? name).inv with ⟨hc, hd⟩ | ⟨a, b, hc, hd, hab⟩
    · simp only [hc, hd, hview.isSome_findImport?]
      refine InStep.ite Iff.rfl (fun _ _ => ?_) fun _ _ => .ofPure .none
      exact (hR.inStep_fail (.same _) rfl span).map fun _ _ => .some
    · simp only [hc, hd, hab.kind]
      cases b.kind with
      | enum members =>
        exact (hR.inStep_enumMember name member (hview.lookup? _) span).map fun _ _ => .some
      | struct =>
        rcases hab.ty.structId?.inv with ⟨ha, hb⟩ | ⟨i, j, ha, hb, hij⟩
        · simp only [ha, hb]
          exact .ofPure (.some .none)
        · simp only [ha, hb]
          exact (hR.inStep_structMemberType hij member span).map fun _ _ => .some
      | _ => exact .ofPure .none
  | qualified module name =>
    have hany := (hview.qualified? module name).any_eq fun _ _ => isEnumSymbol_eq
    simp only [hany]
    refine InStep.ite Iff.rfl (fun _ _ => ?_) fun _ _ => .ofPure .none
    exact (hR.inStep_enumMember name member (hview.qualified? module _) span).map fun _ _ => .some
  | _ => exact .ofPure .none

theorem inStep_valueMember (h : Option.Rel (Ty.Alike k) objectTy objectTy') (member : String)
    (span : Span) : InStep R (Option.Rel (Ty.Alike k))
      (valueMember objectTy member span s) (valueMember objectTy' member span s') := by
  cases h with
  | none => exact .ofPure .none
  | some h =>
    rw [valueMember, valueMember]
    rcases h.structId?.inv with ⟨ha, hb⟩ | ⟨i, j, ha, hb, hij⟩
    · simp only [ha, hb]
      exact hR.inStep_fail (.noMember member h) rfl span
    · simp only [ha, hb]
      exact hR.inStep_structMemberType hij member span

theorem inStep_literalSymbol (module : Option String) (name : String) (span : Span) :
    InStep R (Option.Rel (Symbol.Alike k))
      (literalSymbol module name span s) (literalSymbol module name span s') := by
  cases module with
  | some module => exact hR.inStep_qualifiedSymbol module name span
  | none =>
    apply InStep.ofGet
    intro c d hcd
    rcases ((hR.view hcd).lookup? name).inv with ⟨hc, hd⟩ | ⟨a, b, hc, hd, hab⟩
    · rw [hc, hd]
      exact hR.inStep_fail (.same _) rfl span
    · rw [hc, hd]
      exact .ofPure (.some hab)

/-- The value of a field is compared with the type of the field, whatever was found before. -/
theorem inStep_fieldValue {fieldTy fieldTy' : Ty} (hfield : fieldTy.Alike k fieldTy') (value : Expr)
    (ok : Bool) : Option.Rel (Ty.Alike k) ty ty' →
    InStep R Eq (match ty with
        | none => pure false
        | some ty => if fieldTy.assignable ty then pure ok
          else reject (.mismatch fieldTy ty) value.span : CheckM Bool) (match ty' with
        | none => pure false
        | some ty => if fieldTy'.assignable ty then pure ok
          else reject (.mismatch fieldTy' ty) value.span : CheckM Bool) := by
  intro h
  cases h with
  | none => exact .ofPure rfl
  | some h =>
    refine InStep.ite (by rw [hfield.assignable h]) (fun _ _ => .ofPure rfl) fun _ _ => ?_
    exact hR.inStep_reject (.mismatch hfield h) rfl _

theorem inStep_literalField (hab : a.Alike k b) (module : String) (seen : List String)
    (field : String) (value : Expr) (h : Option.Rel (Ty.Alike k) ty ty') :
    InStep R Eq (literalField a module seen field value ty)
      (literalField b module seen field value ty') := by
  refine InStep.ite Iff.rfl (fun _ _ => hR.inStep_reject (.same _) rfl _) fun _ _ => ?_
  have hfound : Option.Rel (StructMember.Alike k) ((a.member? field).filter (!·.isMethod))
      ((b.member? field).filter (!·.isMethod)) :=
    (hab.member? field).filter fun _ _ hxy => by rw [hxy.isMethod]
  rcases hfound.inv with ⟨ha, hb⟩ | ⟨x, y, ha, hb, hxy⟩
  · rw [ha, hb, hab.name]
    exact hR.inStep_reject (.same _) rfl _
  · rw [ha, hb, hab.name]
    refine InStep.ite (by rw [hxy.isPublic, hab.module]) (fun _ _ => ?_) fun _ _ => ?_
    · refine (hR.inStep_reject (.same _) rfl _).bind fun ok ok' hok => ?_
      cases hok
      exact hR.inStep_fieldValue hxy.ty value ok h
    · exact hR.inStep_fieldValue hxy.ty value true h

variable {tys tys' : List (Option Ty)} {c d : Checker} {params params' : List Ty}

theorem inStep_literalFields (hab : a.Alike k b) (module : String) (fields : List (String × Expr))
    (h : List.Forall₂ (Option.Rel (Ty.Alike k)) tys tys') (seen : List String) :
    InStep R Eq (literalFields a module seen fields tys)
      (literalFields b module seen fields tys') := by
  induction h generalizing fields seen with
  | nil => cases fields <;> exact .ofPure rfl
  | cons hty _ ih =>
    cases fields with
    | nil => exact .ofPure rfl
    | cons field fields =>
      refine (hR.inStep_literalField hab module seen field.1 field.2 hty).bind fun ok ok' hok => ?_
      refine (ih fields (field.1 :: seen)).map fun rest rest' hrest => ?_
      rw [hok, hrest]

theorem inStep_structLiteral {symbol symbol' : Option Symbol}
    (hsymbol : Option.Rel (Symbol.Alike k) symbol symbol') (name : String)
    (fields : List (String × Expr))
    (h : List.Forall₂ (Option.Rel (Ty.Alike k)) tys tys') (span : Span) :
    InStep R (Option.Rel (Ty.Alike k)) (structLiteral symbol name fields tys span s)
      (structLiteral symbol' name fields tys' span s') := by
  cases hsymbol with
  | none => exact .ofPure .none
  | @some symbol symbol' hsymbol =>
    apply InStep.ofGet
    intro c d hcd
    have hview := hR.view hcd
    have hdef : Option.Rel (StructDef.Alike k) (structOfSymbol? c symbol)
        (structOfSymbol? d symbol') := by
      rw [structOfSymbol?, structOfSymbol?, hsymbol.kind]
      split
      · exact hsymbol.ty.structId?.bind fun _ _ hij => hview.struct hij
      · exact .none
    rcases hdef.inv with ⟨hc, hd⟩ | ⟨a, b, hc, hd, hab⟩
    · rw [hc, hd]
      exact hR.inStep_fail (.same _) rfl span
    · rw [hc, hd, hview.moduleAt]
      refine (hR.inStep_literalFields hab _ fields h []).bind fun ok ok' hok => ?_
      simp only [hab.fieldNames, hab.name, hok]
      refine InStep.ite Iff.rfl (fun _ _ => hR.inStep_fail (.same _) rfl span) fun _ _ => ?_
      exact InStep.ite Iff.rfl (fun _ _ => .ofPure (.some hab.ty)) fun _ _ => .ofPure .none

/-! ### Operators -/

theorem inStep_binary (op : BinaryOp) {lhs lhs' rhs rhs' : Option Ty}
    (hlhs : Option.Rel (Ty.Alike k) lhs lhs') (hrhs : Option.Rel (Ty.Alike k) rhs rhs')
    (span : Span) :
    InStep R (Option.Rel (Ty.Alike k)) (binary op lhs rhs span) (binary op lhs' rhs' span) := by
  cases hlhs with
  | none => exact .ofPure .none
  | some hlhs =>
    cases hrhs with
    | none => exact .ofPure .none
    | some hrhs => exact hR.inStep_settle (op.resultType_alike hlhs hrhs) span

theorem inStep_useOf (e : Expr) : InStep R (fun _ _ => True) (useOf e s) (useOf e s') := by
  rw [useOf, useOf]
  cases e.ident? with
  | none => exact .ofPure trivial
  | some name => exact .ofMemory (.checkUse ..) (.checkUse ..) fun _ _ => hR.checkUse name e.span

theorem inStep_unary (op : UnaryOp) (operand : Expr) (h : Option.Rel (Ty.Alike k) ty ty')
    (span : Span) : InStep R (Option.Rel (Ty.Alike k))
      (unary op operand ty span s) (unary op operand ty' span s') := by
  cases h with
  | none => exact .ofPure .none
  | @some a b h =>
    have hsettle : InStep R (Option.Rel (Ty.Alike k))
        (settle (op.resultType a) span) (settle (op.resultType b) span) :=
      hR.inStep_settle (op.resultType_alike h) span
    refine InStep.ite (by rw [h.isPointer]) (fun _ _ => ?_) fun _ _ => hsettle
    exact (hR.inStep_useOf operand).bind fun _ _ _ => hsettle

theorem inStep_index (object index : Expr) {indexTy indexTy' : Option Ty}
    (hobject : Option.Rel (Ty.Alike k) objectTy objectTy')
    (hindex : Option.Rel (Ty.Alike k) indexTy indexTy') :
    InStep R (Option.Rel (Ty.Alike k)) (Check.index object index objectTy indexTy s)
      (Check.index object index objectTy' indexTy' s') := by
  cases hobject with
  | none => exact .ofPure .none
  | some hobject =>
    cases hindex with
    | none => exact .ofPure .none
    | some hindex =>
      refine InStep.ite (by rw [hindex.isIntegerLike]) (fun _ _ => ?_) fun _ _ => ?_
      · exact hR.inStep_fail (.mismatch (.basic "int") hindex) rfl _
      · rcases hobject.element?.inv with ⟨ha, hb⟩ | ⟨x, y, ha, hb, hxy⟩
        · rw [ha, hb]
          exact hR.inStep_fail (.notIndexable hobject) rfl _
        · rw [ha, hb]
          exact (hR.inStep_useOf object).map fun _ _ _ => .some hxy

theorem inStep_wantInt (e : Expr) {ty ty' : Ty} (h : ty.Alike k ty') :
    InStep R Eq (wantInt e ty) (wantInt e ty') := by
  have hint : Ty.Alike k .int .int := .basic "int"
  refine InStep.ite (h.eq_iff hint) (fun _ _ => .ofPure rfl) fun _ _ => ?_
  exact hR.inStep_reject (.mismatch hint h) rfl _

theorem inStep_range (start stop : Expr) {startTy startTy' stopTy stopTy' : Option Ty}
    (hstart : Option.Rel (Ty.Alike k) startTy startTy')
    (hstop : Option.Rel (Ty.Alike k) stopTy stopTy') :
    InStep R (Option.Rel (Ty.Alike k)) (range start stop startTy stopTy)
      (range start stop startTy' stopTy') := by
  cases hstart with
  | none => exact .ofPure .none
  | some hstart =>
    cases hstop with
    | none => exact .ofPure .none
    | some hstop =>
      refine (hR.inStep_wantInt start hstart).bind fun startOk startOk' hstartOk => ?_
      refine (hR.inStep_wantInt stop hstop).bind fun stopOk stopOk' hstopOk => ?_
      rw [hstartOk, hstopOk]
      refine InStep.ite Iff.rfl (fun _ _ => .ofPure ?_) fun _ _ => .ofPure .none
      exact .some (.array _ (.basic "int"))

theorem inStep_arrayElement {expected expected' : Option Ty}
    (hexpected : Option.Rel (Ty.Alike k) expected expected') (e : Expr)
    (h : Option.Rel (Ty.Alike k) ty ty') :
    InStep R Eq (arrayElement expected e ty) (arrayElement expected' e ty') := by
  cases h with
  | none => exact .ofPure rfl
  | some h =>
    cases hexpected with
    | none => exact .ofPure rfl
    | some hexpected =>
      refine InStep.ite (by rw [hexpected.verdict h]) (fun _ _ => .ofPure rfl) fun _ _ => ?_
      exact hR.inStep_reject (.mismatch hexpected h) rfl _

theorem inStep_arraySize (size : Expr) (h : Option.Rel (Ty.Alike k) ty ty') :
    InStep R (Option.Rel Eq) (arraySize size ty) (arraySize size ty') := by
  have hint : Ty.Alike k .int .int := .basic "int"
  cases h with
  | none => exact .ofPure .none
  | some h =>
    rw [arraySize, arraySize]
    cases size.ident? with
    | some name => exact .ofPure (.some rfl)
    | none =>
      refine InStep.ite (h.eq_iff hint) (fun _ _ => .ofPure (.some rfl)) fun _ _ => ?_
      exact hR.inStep_fail (.mismatch hint h) rfl _

/-! ### Questions about a callee -/

theorem namesEnumOrModule_eq (hcd : R c d) (object : Expr) :
    namesEnumOrModule c object s = namesEnumOrModule d object s' := by
  have hview := hR.view hcd
  rw [namesEnumOrModule, namesEnumOrModule]
  cases object.kind with
  | ident name =>
    rcases (hview.lookup? name).inv with ⟨hc, hd⟩ | ⟨a, b, hc, hd, hab⟩
    · simp only [hc, hd, hview.isSome_findImport?]
    · simp only [hc, hd, isEnumSymbol_eq hab]
  | qualified module name =>
    exact (hview.qualified? module name).any_eq fun _ _ => isEnumSymbol_eq
  | _ => rfl

theorem callForm_eq (hcd : R c d) (callee : Expr) : callForm c callee s = callForm d callee s' := by
  rw [callForm, callForm]
  cases callee.kind with
  | ident name =>
    have hany := ((hR.view hcd).lookup? name).any_eq (p := (·.kind == .builtin))
      (q := (·.kind == .builtin)) fun _ _ h => by rw [h.kind]
    simp only [hany]
  | member object member => simp only [hR.namesEnumOrModule_eq hcd]
  | _ => rfl

theorem rel_namedSymbol? (hcd : R c d) (e : Expr) :
    Option.Rel (Symbol.Alike k) (namedSymbol? c e s) (namedSymbol? d e s') := by
  rw [namedSymbol?, namedSymbol?]
  cases e.kind with
  | ident name => exact (hR.view hcd).lookup? name
  | qualified module name => exact (hR.view hcd).qualified? module name
  | _ => exact .none

theorem rel_namedStruct? (hcd : R c d) (object : Expr) :
    Option.Rel k.struct (namedStruct? c object s) (namedStruct? d object s') := by
  rw [namedStruct?, namedStruct?]
  rcases (hR.rel_namedSymbol? hcd object).inv with ⟨hc, hd⟩ | ⟨a, b, hc, hd, hab⟩
  · rw [hc, hd]
    exact .none
  · rw [hc, hd]
    simp only [hab.kind]
    cases b.kind with
    | struct => exact hab.ty.structId?
    | _ => exact .none

/-! ### Calls -/

theorem inStep_argumentTypes
    (hparams : List.Forall₂ (Ty.Alike k) params params') (args : List Expr)
    (h : List.Forall₂ (Option.Rel (Ty.Alike k)) tys tys') :
    InStep R Eq (argumentTypes params args tys) (argumentTypes params' args tys') := by
  induction hparams generalizing args tys tys' with
  | nil => exact .ofPure rfl
  | @cons _ _ params params' hparam _ ih =>
    cases args with
    | nil => exact .ofPure rfl
    | cons arg args =>
      cases h with
      | nil => exact .ofPure rfl
      | @cons _ _ tys tys' hty h =>
        have hrest : ∀ ok : Bool, InStep R Eq
            (do return ok && (← argumentTypes params args tys))
            (do return ok && (← argumentTypes params' args tys')) := by
          intro ok
          refine (ih args h).map fun rest rest' hrest => ?_
          rw [hrest]
        unfold argumentTypes
        cases hty with
        | none => exact hrest false
        | some hty =>
          refine InStep.ite (by rw [hparam.assignable hty]) (fun _ _ => hrest true) fun _ _ => ?_
          refine (hR.inStep_reject (.mismatch hparam hty) rfl _).bind fun ok ok' hok => ?_
          rw [hok]
          exact hrest ok'

theorem inStep_arguments (callee : String)
    (hparams : List.Forall₂ (Ty.Alike k) params params') (args : List Expr)
    (h : List.Forall₂ (Option.Rel (Ty.Alike k)) tys tys') (span : Span) :
    InStep R Eq (arguments callee params args tys span)
      (arguments callee params' args tys' span) := by
  rw [arguments, arguments, hparams.length_eq]
  refine InStep.ite Iff.rfl (fun _ _ => hR.inStep_reject (.same _) rfl span) fun _ _ => ?_
  exact hR.inStep_argumentTypes hparams args h

theorem inStep_alloc (args : List Expr)
    (h : List.Forall₂ (Option.Rel (Ty.Alike k)) tys tys') (span : Span) :
    InStep R (Option.Rel (Ty.Alike k)) (alloc args tys span) (alloc args tys' span) := by
  have hint : List.Forall₂ (Ty.Alike k) [.int] [.int] := .cons (.basic "int") .nil
  refine (hR.inStep_arguments "alloc" hint args h span).bind fun ok ok' hok => ?_
  rw [hok]
  refine InStep.ite Iff.rfl (fun _ _ => .ofPure ?_) fun _ _ => .ofPure .none
  exact .some (.pointer (.basic "void"))

/-- Parameters from a position on. -/
def ParamsAlike (k : Pairing) (a b : List Ty × Nat) : Prop :=
  List.Forall₂ (Ty.Alike k) a.1 b.1 ∧ a.2 = b.2

theorem inStep_explicitParams {found found' : StructMember} (hfound : found.Alike k found')
    (hparams : List.Forall₂ (Ty.Alike k) params params')
    (hreceiver : Option.Rel (Ty.Alike k) receiver receiver') (span : Span) :
    InStep R (Option.Rel (ParamsAlike k)) (explicitParams found params receiver span)
      (explicitParams found' params' receiver' span) := by
  have hall : InStep R (Option.Rel (ParamsAlike k)) (pure (some (params, 0)))
      (pure (some (params', 0))) := .ofPure (.some ⟨hparams, rfl⟩)
  unfold explicitParams
  rw [hfound.kind]
  cases hreceiver with
  | none => exact hall
  | some hreceiver =>
    obtain - | ⟨hasSelf, returnsOwnership, takesOwnership, ownedParams⟩ := found'.kind
    · exact hall
    · cases hasSelf with
      | false => exact hall
      | true =>
        cases hparams with
        | nil => exact .ofPure .none
        | cons hself hrest =>
          refine InStep.ite (by rw [hself.receiverFits hreceiver]) (fun _ _ => ?_) fun _ _ => ?_
          · exact .ofPure (.some ⟨hrest, rfl⟩)
          · exact hR.inStep_fail (.mismatch hself hreceiver) rfl span

/-! ### Declarations and statements -/

/-- Alike types with the same verdict on how they came about. -/
def VariableAlike (k : Pairing) (a b : Ty × Bool) : Prop :=
  a.1.Alike k b.1 ∧ a.2 = b.2

theorem inStep_variableType (decl : VarDecl) {annotated annotated' : Option Ty}
    (hannotated : Option.Rel (Ty.Alike k) annotated annotated') {value value' : Option (Option Ty)}
    (hvalue : Option.Rel (Option.Rel (Ty.Alike k)) value value') (span : Span) :
    InStep R (Option.Rel (VariableAlike k)) (variableType decl annotated value span)
      (variableType decl annotated' value' span) := by
  cases hannotated with
  | none =>
    cases hvalue with
    | none => exact hR.inStep_fail (.same _) rfl span
    | some hvalue =>
      cases hvalue with
      | none => exact .ofPure .none
      | some hfound => exact .ofPure (.some ⟨hfound, rfl⟩)
  | some hty =>
    cases hvalue with
    | none => exact .ofPure (.some ⟨hty, rfl⟩)
    | some hvalue =>
      cases hvalue with
      | none => exact .ofPure (.some ⟨hty, rfl⟩)
      | some hfound =>
        refine InStep.ite (by rw [hty.assignable hfound]) (fun _ _ => ?_) fun _ _ => ?_
        · exact .ofPure (.some ⟨hty, rfl⟩)
        · exact (hR.inStep_report (.mismatch hty hfound) rfl _).map fun _ _ _ => .some ⟨hty, rfl⟩

theorem inStep_enumMembers (enum : String) (span : Span) (members : List String)
    (seen : List String) :
    InStep R Eq (enumMembers enum span seen members) (enumMembers enum span seen members) := by
  induction members generalizing seen with
  | nil => exact .ofPure rfl
  | cons member members ih =>
    refine InStep.ite Iff.rfl (fun _ _ => ?_) fun _ _ => ?_
    · exact (hR.inStep_report (.same _) rfl span).bind fun _ _ _ => ih seen
    · refine (ih (member :: seen)).map fun rest rest' hrest => ?_
      rw [hrest]

/-- A `return` inside of a function. -/
theorem inStep_returned {a b : Ty} (hty : a.Alike k b) (value : Option Expr)
    {found found' : Option (Option Ty)}
    (hfound : Option.Rel (Option.Rel (Ty.Alike k)) found found') (span : Span) :
    InStep R Eq (returned (some a) value found span) (returned (some b) value found' span) := by
  have hmissing : InStep R Eq
      (if a.isVoid then return true else reject (.missingReturnValue a) span)
      (if b.isVoid then return true else reject (.missingReturnValue b) span) := by
    refine InStep.ite (by rw [hty.isVoid]) (fun _ _ => .ofPure rfl) fun _ _ => ?_
    exact hR.inStep_reject (.missingReturnValue hty) rfl span
  cases value with
  | none => exact hmissing
  | some value =>
    cases hfound with
    | none => exact hmissing
    | some hfound =>
      cases hfound with
      | none => exact .ofPure rfl
      | some hfound =>
        refine InStep.ite (by rw [hty.isVoid]) (fun _ _ => ?_) fun _ _ => ?_
        · exact hR.inStep_reject (.same _) rfl _
        · refine InStep.ite (by rw [hty.assignable hfound]) (fun _ _ => .ofPure rfl) fun _ _ => ?_
          exact hR.inStep_reject (.returnMismatch hty hfound) rfl _

theorem inStep_exhaustiveness {scrutinee scrutinee' : Option Ty}
    (h : Option.Rel (Ty.Alike k) scrutinee scrutinee') (covered : List String)
    (hasDefault : Bool) (span : Span) :
    InStep R Eq (exhaustiveness scrutinee covered hasDefault span s)
      (exhaustiveness scrutinee' covered hasDefault span s') := by
  cases h with
  | none => exact .ofPure rfl
  | some h =>
    cases h with
    | basic name =>
      refine InStep.ite Iff.rfl (fun _ _ => .ofPure rfl) fun _ _ => ?_
      apply InStep.ofGet
      intro c d hcd
      rw [(hR.view hcd).enumMembers?]
      split
      · exact .ofPure rfl
      · dsimp only
        split
        · exact (hR.inStep_report (.same _) rfl span).map fun _ _ _ => rfl
        · exact hR.inStep_reject (.same _) rfl span
        · exact .ofPure rfl
    | _ => exact .ofPure rfl

end ReportLockstep

namespace RuleLockstep

variable {k : Pairing} {s s' : ScopeId} {R : Checker → Checker → Prop}
  (hR : RuleLockstep k s s' R)

include hR

/-! ### Rules that follow the memory -/

theorem inStep_bindValue (name : String) (value : Expr) (owns sharesPointer : Bool) (span : Span) :
    InStep R (fun _ _ => True) (bindValue name value owns sharesPointer span s)
      (bindValue name value owns sharesPointer span s') := by
  refine InStep.ite Iff.rfl (fun _ _ => hR.inStep_allocate name span) fun _ _ => ?_
  cases value.ident? with
  | none => exact .ofPure trivial
  | some source =>
    refine InStep.ite Iff.rfl (fun _ _ => ?_) fun _ _ => .ofPure trivial
    exact .ofMemory (.rename ..) (.rename ..) fun _ _ => hR.rename name source

/-! ### Values that are owned -/

section

variable (htype : ∀ {c d id}, R c d → k.node id →
  Option.Rel (Ty.Alike k) (c.types.get? id) (d.types.get? id))

include htype

theorem calleeReturnsOwnership_eq (hcd : R c d) (callee : Expr)
    (hnodes : ∀ id ∈ callee.nodes, k.node id) :
    calleeReturnsOwnership c callee s = calleeReturnsOwnership d callee s' := by
  have hsymbol := hR.rel_namedSymbol? hcd callee
  obtain ⟨id, span, kind⟩ := callee
  cases kind with
  | member object member =>
    have hobject : k.node object.id := hnodes _ (.tail _ object.id_mem_nodes)
    have htype := (htype hcd hobject).bind fun _ _ h => h.structId?
    have hid : Option.Rel k.struct
        ((namedStruct? c object s).or ((c.types.get? object.id).bind (·.structId?)))
        ((namedStruct? d object s').or ((d.types.get? object.id).bind (·.structId?))) :=
      (hR.rel_namedStruct? hcd object).or htype
    refine (hid.bind fun i j hij => ?_).any_eq fun a b (hab : a.Alike k b) => ?_
    · exact ((hR.view hcd).struct hij).bind fun _ _ h => h.member? member
    · rw [returnsOwnership, returnsOwnership, hab.kind]
  | _ => exact hsymbol.any_eq fun _ _ h => h.returnsOwnership

theorem ownsResult_eq (hcd : R c d) :
    (e : Expr) → (∀ id ∈ e.nodes, k.node id) → ownsResult c s e = ownsResult d s' e
  | ⟨_, _, .cast ty value⟩, hnodes => by
    have hvalue := List.forall_mem_append.mp (List.forall_mem_cons.mp hnodes).2
    exact ownsResult_eq hcd value hvalue.2
  | ⟨_, _, .call callee args⟩, hnodes => by
    have hcallee := List.forall_mem_append.mp (List.forall_mem_cons.mp hnodes).2
    exact hR.calleeReturnsOwnership_eq htype hcd callee hcallee.1
  | ⟨_, _, .int _⟩, _ | ⟨_, _, .float _⟩, _ | ⟨_, _, .bool _⟩, _ | ⟨_, _, .char _⟩, _
  | ⟨_, _, .str _⟩, _ | ⟨_, _, .ident _⟩, _ | ⟨_, _, .qualified ..⟩, _ | ⟨_, _, .binary ..⟩, _
  | ⟨_, _, .unary ..⟩, _ | ⟨_, _, .member ..⟩, _ | ⟨_, _, .index ..⟩, _ | ⟨_, _, .assign ..⟩, _
  | ⟨_, _, .range ..⟩, _ | ⟨_, _, .structLit ..⟩, _ | ⟨_, _, .arrayLit _⟩, _
  | ⟨_, _, .sizeOfType _⟩, _ => rfl

/-- The types of shared expressions are all that a value has to be asked about. -/
theorem exprLockstep : ExprLockstep k s s' R where
  toRuleLockstep := hR
  bindResult := by
    intro name value sharesPointer span hvalue
    apply InStep.ofGet
    intro c d hcd
    rw [hR.ownsResult_eq htype hcd value hvalue]
    exact hR.inStep_bindValue name value _ sharesPointer span

end

theorem inStep_assign (target value : Expr) {targetTy targetTy' valueTy valueTy' : Option Ty}
    (htarget : Option.Rel (Ty.Alike k) targetTy targetTy')
    (hvalue : Option.Rel (Ty.Alike k) valueTy valueTy') {owns owns' : Checker → Bool}
    (hbind : ∀ name sharesPointer, InStep R (fun _ _ => True)
      (do bindValue name value (owns (← get)) sharesPointer target.span s)
      (do bindValue name value (owns' (← get)) sharesPointer target.span s')) :
    InStep R (Option.Rel (Ty.Alike k)) (assign target value targetTy valueTy owns s)
      (assign target value targetTy' valueTy' owns' s') := by
  cases htarget with
  | none => exact .ofPure .none
  | some htarget =>
    cases hvalue with
    | none => exact .ofPure .none
    | some hvalue =>
      refine InStep.ite (by rw [htarget.assignable hvalue]) (fun _ _ => ?_) fun _ _ => ?_
      · exact hR.inStep_fail (.mismatch htarget hvalue) rfl _
      · cases target.ident? with
        | none => exact .ofPure (.some htarget)
        | some name =>
          rw [htarget.isPointer, hvalue.isPointer]
          intro c d hcd
          have hbound (shares : Bool) := hbind name shares c d hcd
          exact ⟨.some htarget, (hbound _).states, (hbound _).walk_left, (hbound _).walk_right⟩

variable {tys tys' : List (Option Ty)}

theorem inStep_transfer (consumes : Nat → Bool) (args : List Expr)
    (h : List.Forall₂ (Option.Rel (Ty.Alike k)) tys tys') (index : Nat) :
    InStep R (fun _ _ => True) (transfer consumes s index args tys)
      (transfer consumes s' index args tys') := by
  induction h generalizing args index with
  | nil => cases args <;> exact .ofPure trivial
  | cons hty _ ih =>
    cases args with
    | nil => exact .ofPure trivial
    | cons arg args =>
      have hrest := ih args (index + 1)
      have hany := hty.any_eq fun _ _ h => h.isPointer
      refine InStep.ite (by rw [hany]) (fun _ _ => ?_) fun _ _ => hrest
      cases arg.ident? with
      | none => exact hrest
      | some name => exact (hR.inStep_release name arg.span .transfer).bind fun _ _ _ => hrest

/-- Both sides free the name now, or both put it off. -/
theorem inStep_freeName (name : String) (span : Span) {α β : Type} {A : α → β → Prop}
    {m : CheckM α} {n : CheckM β} (hm : InStep R A m n) : InStep R A
      (do match (← get).walk.deferTarget with
          | some t =>
            modify fun c => { c with scopes := c.scopes.deferFree t name span }
            m
          | none =>
            modify (·.release s name span .explicit)
            m)
      (do match (← get).walk.deferTarget with
          | some t =>
            modify fun d => { d with scopes := d.scopes.deferFree t name span }
            n
          | none =>
            modify (·.release s' name span .explicit)
            n) := by
  have hnow : InStep R A
      (do modify (·.release s name span .explicit); m)
      (do modify (·.release s' name span .explicit); n) :=
    (hR.inStep_release name span .explicit).bind fun _ _ _ => hm
  apply InStep.ofState
  intro c d hcd
  have hsome := (hR.view hcd).deferTarget
  cases hc : c.walk.deferTarget with
  | none =>
    cases hd : d.walk.deferTarget with
    | none => exact hnow c d hcd
    | some t' =>
      rw [hc, hd] at hsome
      cases hsome
  | some t =>
    cases hd : d.walk.deferTarget with
    | none =>
      rw [hc, hd] at hsome
      cases hsome
    | some t' =>
      obtain ⟨hresult, hstates, hleft, hright⟩ := hm _ _ (hR.deferFree name span hc hd hcd)
      exact ⟨hresult, hstates, hleft, hright⟩

theorem inStep_free (args : List Expr)
    (h : List.Forall₂ (Option.Rel (Ty.Alike k)) tys tys') (span : Span) :
    InStep R (Option.Rel (Ty.Alike k)) (free args tys span s) (free args tys' span s') := by
  have hcount : InStep R (Option.Rel (Ty.Alike k)) (fail (.argumentCount "free" 1 args.length) span)
      (fail (.argumentCount "free" 1 args.length) span) :=
    hR.inStep_fail (.same _) rfl span
  match args, h with
  | [], h => cases h <;> exact hcount
  | _ :: _ :: _, h => cases h with
    | nil => exact hcount
    | cons _ h => cases h <;> exact hcount
  | [_], .nil => exact hcount
  | [_], .cons _ (.cons _ _) => exact hcount
  | [arg], .cons hty .nil =>
    cases hty with
    | none => exact .ofPure .none
    | some hty =>
      refine InStep.ite (by rw [hty.isPointer]) (fun _ _ => ?_) fun _ _ => ?_
      · exact hR.inStep_fail (.freeOfNonPointer hty) rfl _
      · have hvoid : Option.Rel (Ty.Alike k) (some .void) (some .void) := .some (.basic "void")
        cases arg.ident? with
        | none => exact .ofPure hvoid
        | some name => exact hR.inStep_freeName name span (.ofPure hvoid)

theorem inStep_plainCall (callee : Expr) {calleeTy calleeTy' : Option Ty}
    (hcallee : Option.Rel (Ty.Alike k) calleeTy calleeTy') (args : List Expr)
    (h : List.Forall₂ (Option.Rel (Ty.Alike k)) tys tys') (span : Span) :
    InStep R (Option.Rel (Ty.Alike k)) (plainCall callee calleeTy args tys span s)
      (plainCall callee calleeTy' args tys' span s') := by
  cases hcallee with
  | none => exact .ofPure .none
  | some hcallee =>
    cases hcallee with
    | function hlength hzip hret =>
      have hparams := Ty.Alike.params (.function hlength hzip hret)
      refine (hR.inStep_arguments _ hparams args h span).bind fun ok ok' hok => ?_
      have hresult : ∀ {x y : Ty}, x.Alike k y →
          Option.Rel (Ty.Alike k) (if ok then some x else none) (if ok' then some y else none) := by
        intro x y hxy
        rw [hok]
        split
        · exact .some hxy
        · exact .none
      apply InStep.ofGet
      intro c d hcd
      rcases (hR.rel_namedSymbol? hcd callee).inv with ⟨hc, hd⟩ | ⟨a, b, hc, hd, hab⟩
      · rw [hc, hd]
        exact .ofPure (hresult hret)
      · rw [hc, hd]
        dsimp only
        rw [hab.consumesArg]
        exact (hR.inStep_transfer _ args h 0).map fun _ _ _ => hresult hret
    | basic name => exact hR.inStep_fail (.notCallable (.basic name)) rfl _
    | pointer hty => exact hR.inStep_fail (.notCallable (.pointer hty)) rfl _
    | array size hty => exact hR.inStep_fail (.notCallable (.array size hty)) rfl _
    | struct name hij => exact hR.inStep_fail (.notCallable (.struct name hij)) rfl _

theorem inStep_memberCall (callee : Expr) (hid : k.node callee.id) (hij : k.struct i j)
    (hreceiver : Option.Rel (Ty.Alike k) receiver receiver') (member : String) (args : List Expr)
    (h : List.Forall₂ (Option.Rel (Ty.Alike k)) tys tys') (span : Span) :
    InStep R (Option.Rel (Ty.Alike k)) (memberCall callee i receiver member args tys span s)
      (memberCall callee j receiver' member args tys' span s') := by
  refine (hR.inStep_structMember hij member callee.span).bind fun found found' hfound => ?_
  cases hfound with
  | none => exact .ofPure .none
  | @some found found' hfound =>
    have hty := hfound.ty
    have hrecord := InStep.ofModify (R := R) (fun _ _ => hR.record hid hty)
      (fun _ => rfl) fun _ => rfl
    refine hrecord.bind fun _ _ _ => ?_
    generalize found.ty = ty at hty ⊢
    generalize found'.ty = ty' at hty ⊢
    cases hty with
    | function hlength hzip hret =>
      have hparams := Ty.Alike.params (.function hlength hzip hret)
      refine (hR.inStep_explicitParams hfound hparams hreceiver callee.span).bind
        fun explicit explicit' hexplicit => ?_
      cases hexplicit with
      | none => exact .ofPure .none
      | @some explicit explicit' hexplicit =>
        obtain ⟨params, offset⟩ := explicit
        obtain ⟨params', offset'⟩ := explicit'
        obtain ⟨hparams, rfl⟩ := hexplicit
        refine (hR.inStep_arguments member hparams args h span).bind fun ok ok' hok => ?_
        rw [hfound.consumesParam, hok]
        refine (hR.inStep_transfer _ args h 0).map fun _ _ _ => ?_
        split
        · exact .some hret
        · exact .none
    | basic name => exact hR.inStep_fail (.fieldNotCallable member (.basic name)) rfl _
    | pointer hty => exact hR.inStep_fail (.fieldNotCallable member (.pointer hty)) rfl _
    | array size hty => exact hR.inStep_fail (.fieldNotCallable member (.array size hty)) rfl _
    | struct name hij => exact hR.inStep_fail (.fieldNotCallable member (.struct name hij)) rfl _

/-- Both sides call a method on the struct itself, or both on a value. -/
inductive ReceiverAlike (k : Pairing) : Receiver → Receiver → Prop where
  | type {i j : StructId} : k.struct i j → ReceiverAlike k (.type i) (.type j)
  | value {ty ty' : Option Ty} : Option.Rel (Ty.Alike k) ty ty' →
      ReceiverAlike k (.value ty) (.value ty')

theorem inStep_methodCall (callee : Expr) (hid : k.node callee.id) {receiver receiver' : Receiver}
    (hreceiver : ReceiverAlike k receiver receiver') (args : List Expr)
    (h : List.Forall₂ (Option.Rel (Ty.Alike k)) tys tys') (span : Span) :
    InStep R (Option.Rel (Ty.Alike k)) (methodCall callee receiver args tys span s)
      (methodCall callee receiver' args tys' span s') := by
  cases hreceiver with
  | type hij => exact hR.inStep_memberCall callee hid hij .none _ args h span
  | value hty =>
    cases hty with
    | none => exact .ofPure .none
    | some hty =>
      rw [methodCall, methodCall]
      rcases hty.structId?.inv with ⟨ha, hb⟩ | ⟨i, j, ha, hb, hij⟩
      · simp only [ha, hb]
        exact hR.inStep_fail (.noMember _ hty) rfl _
      · simp only [ha, hb]
        exact hR.inStep_memberCall callee hid hij (.some hty) _ args h span

end RuleLockstep

end Warden

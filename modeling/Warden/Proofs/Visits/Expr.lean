import Warden.Proofs.Visits.Followed

/-!
# The traces of expressions

The rules of expressions are idle, except that a method call records the type of its callee. So an
expression records what its parts record and then its own type. The theorems follow the recursion of
the walk, one for each of its functions.
-/

namespace Warden

open CheckM Check Trace

variable {receiver : Receiver} {visits : List Visit} {member : String} {args : List Expr}
  {id : StructId} {callee : Expr} {role : Role} {ty : Ty}

/-! ### The rules -/

variable {near : ScopeId → Checker → Checker → Prop} {scope : ScopeId} {span : Span} {c : Checker}
  {object : Expr}

section rules

variable (scope : ScopeId)

theorem passive_assign [Nearness near] (target value : Expr) (targetTy valueTy : Option Ty)
    (owns : Checker → Bool) :
    Passive near scope (assign target value targetTy valueTy owns scope) := by
  have hkept {node : NodeId → Prop} {P : Checker → Prop} (hP : ScopeInvariant scope node P)
      {c : Checker} (h : P c) : P ((assign target value targetTy valueTy owns scope).exec c) := by
    refine (hP.lockstep.inStep_assign target value (sameOption targetTy) (sameOption valueTy)
      fun name sharesPointer => .ofGet ?_).keeps h
    rintro c d ⟨rfl, -⟩
    exact hP.lockstep.inStep_bindValue name value _ sharesPointer target.span
  exact ⟨.ofObserves fun P hP c h => hkept (hP.inScope scope) h,
    sparing_assign scope target value _ _ _,
    fun c => hkept (Nearness.invariant scope c) (Nearness.refl scope c)⟩

end rules

/-! ### Single visits -/

section visits

variable {c : Checker} {v : Visit}

/-- A visit that comes to a type leaves it as the latest entry. -/
theorem logs_record {id : NodeId} (hv : v.entry? = some (id, ty)) :
    Logs c [v] (modify (·.record id ty)) := by
  refine ⟨.of_eq rfl rfl rfl, ?_⟩
  rw [List.filterMap_cons_some hv]
  rfl

end visits

/-! ### Method calls -/

/-- A method call records the type of the member that is called. -/
theorem logs_memberCall (callee : Expr) (hid : receiver.structId? = some id) (self : Option Ty)
    (args : List Expr) (tys : List (Option Ty)) (span : Span) (scope : ScopeId) (c : Checker) :
    Logs c [⟨.callee callee receiver, scope, c⟩]
      (memberCall callee id self (calleeName callee) args tys span scope) := by
  have hmember : calledMember callee receiver scope =
      structMember id (calleeName callee) callee.span scope := by
    simp [calledMember, hid]
  have hidle := (reports_structMember scope id (calleeName callee) callee.span).idle
  refine (hidle.logs c).bind ?_
  cases hfound : (structMember id (calleeName callee) callee.span scope).eval c with
  | none =>
    refine (Idle.ofPure none).logs_visit _ ?_
    simp [Visit.entry?, Visit.found, hmember, hfound]
  | some found =>
    refine Logs.last (m := modify (·.record callee.id found.ty)) (logs_record ?_) fun _ => ?_
    · simp [Visit.entry?, Visit.id?, Visit.site, Part.site, Site.id?, Visit.found, hmember, hfound]
    · cases found.ty with
      | function params ret =>
        refine (reports_explicitParams scope found params self callee.span).idle.bind
          fun explicit => ?_
        cases explicit with
        | none => exact .ofPure none
        | some explicit =>
          refine (reports_arguments scope _ _ _ _ _).idle.bind fun ok => ?_
          exact (Idle.ofObserves (observes_of_inStep scope
            (·.inStep_transfer _ _ (sameOptions _) _))).bind fun _ => .ofPure _
      | _ => exact .fail _ _

theorem logs_methodCall (callee : Expr) (receiver : Receiver) (args : List Expr)
    (tys : List (Option Ty)) (span : Span) (scope : ScopeId) (c : Checker) :
    Logs c [⟨.callee callee receiver, scope, c⟩]
      (methodCall callee receiver args tys span scope) := by
  cases receiver with
  | type id => exact logs_memberCall callee rfl none args tys span scope c
  | value ty =>
    cases ty with
    | none => exact (Idle.ofPure none).logs_visit c rfl
    | some ty =>
      cases hid : ty.structId? with
      | none =>
        have hfail : methodCall callee (.value (some ty)) args tys span scope =
            fail (.noMember ty (calleeName callee)) callee.span := by
          simp [methodCall, hid]
        rw [hfail]
        refine (Idle.fail _ _).logs_visit c ?_
        simp [Visit.entry?, Visit.found, calledMember, Receiver.structId?, hid]
      | some id =>
        have hcall : methodCall callee (.value (some ty)) args tys span scope =
            memberCall callee id (some ty) (calleeName callee) args tys span scope := by
          simp [methodCall, hid]
        have hstruct : (Receiver.value (some ty)).structId? = some id := hid
        rw [hcall]
        exact logs_memberCall callee hstruct (some ty) args tys span scope c

/-- A method call that has a type calls a member that is a function. -/
theorem exists_calledMember {tys : List (Option Ty)}
    (h : (methodCall callee receiver args tys span scope).eval c ≠ none) :
    ∃ member params ret, (calledMember callee receiver scope).eval c = some member ∧
      member.ty = .function params ret := by
  have hmember : ∀ id self, receiver.structId? = some id →
      (memberCall callee id self (calleeName callee) args tys span scope).eval c ≠ none →
      ∃ member params ret, (calledMember callee receiver scope).eval c = some member ∧
        member.ty = .function params ret := by
    intro id self hid hcall
    rw [calledMember, hid]
    cases hfound : (structMember id (calleeName callee) callee.span scope).eval c with
    | none => simp [memberCall, hfound] at hcall
    | some found =>
      cases hty : found.ty with
      | function params ret => exact ⟨found, params, ret, hfound, hty⟩
      | _ => simp [memberCall, hfound, hty] at hcall
  cases receiver with
  | type id => exact hmember id none rfl h
  | value ty =>
    cases ty with
    | none => simp [methodCall] at h
    | some ty =>
      cases hid : ty.structId? with
      | none => simp [methodCall, hid] at h
      | some id => exact hmember id (some ty) hid (by simpa [methodCall, hid] using h)

/-! ### Names before a dot -/

theorem isType_of_isEnumSymbol (h : (namedSymbol? c object scope).any isEnumSymbol = true) :
    (namedSymbol? c object scope).any (·.isType) = true := by
  cases hsymbol : namedSymbol? c object scope with
  | none => simp [hsymbol] at h
  | some symbol =>
    cases hkind : symbol.kind <;> simp_all [isEnumSymbol, Symbol.enumMembers?, Symbol.isType]

theorem isType_of_namedStruct? (h : namedStruct? c object scope = some id) :
    (namedSymbol? c object scope).any (·.isType) = true := by
  unfold namedStruct? at h
  cases hsymbol : namedSymbol? c object scope with
  | none => simp [hsymbol] at h
  | some symbol =>
    cases hkind : symbol.kind <;> simp_all [Symbol.isType]

/-- What is found after a name is the member of an enum or of the struct that is named. -/
theorem structMember_of_static
    (h : (staticMember object member span scope).eval c = some (some ty)) :
    (namedSymbol? c object scope).any isEnumSymbol = true ∨
      ∃ struct found, namedStruct? c object scope = some struct ∧
        (structMember struct member span scope).eval c = some found ∧ found.ty = ty := by
  unfold staticMember at h
  unfold namedStruct? namedSymbol?
  cases hkind : object.kind with
  | ident name =>
    cases hsymbol : c.scopes.lookup? scope name with
    | none => by_cases himport : (c.scopes.findImport? scope name).isSome <;> simp_all
    | some symbol =>
      cases hsort : symbol.kind with
      | enum members =>
        left
        simp [hsymbol, isEnumSymbol, Symbol.enumMembers?, hsort]
      | struct =>
        cases hid : symbol.ty.structId? with
        | none => simp [hkind, hsymbol, hsort, hid] at h
        | some struct =>
          right
          simpa [hkind, hsymbol, hsort, hid, structMemberType] using h
      | _ => simp [hkind, hsymbol, hsort] at h
  | qualified localName name =>
    by_cases henum : (c.scopes.qualified? scope localName name).any isEnumSymbol = true
    · exact .inl henum
    · simp [hkind, henum] at h
  | _ => simp [hkind] at h

/-- A name before a dot is all there is to visit in it. -/
theorem Complete.ofName
    (h : (namedSymbol? c object scope).any (·.isType) = true) :
    Complete [⟨.name object, scope, c⟩] (object.sites .object) := by
  obtain ⟨id, span, kind⟩ := object
  have hleaf : kind.sites = [] := by
    cases kind <;> first | rfl | simp [namedSymbol?] at h
  have hsites : (⟨id, span, kind⟩ : Expr).sites .object =
      [.expr .object ⟨id, span, kind⟩] := by
    rw [Expr.sites, hleaf]
  rw [hsites]
  exact .one h fun _ hpart => Part.noConfusion hpart

/-- Where the object of `object.member` is a name, nothing else is visited. -/
theorem Followed.ofStatic [Nearness near] {result : Option Ty}
    {k : Option (Option Ty) → CheckM (Option Ty)}
    (hresult : (staticMember object member span scope).eval c = some result)
    (hk : k (some result) = pure result) :
    Followed near scope c (object.sites .object) [⟨.name object, scope, c⟩]
      (staticMember object member span scope >>= k) := by
  have hrule := reports_staticMember scope object member span
  have hname : Followed near scope c (object.sites .object) [⟨.name object, scope, c⟩]
      (staticMember object member span scope) := by
    refine .visit hrule.passive rfl rfl fun hwell hclean => ?_
    have hnamed := named_staticMember span scope (.refl hwell) object member
    cases result with
    | none => exact absurd hresult (hclean.not_failed hnamed.account)
    | some ty =>
      rcases structMember_of_static hresult with henum | ⟨_, _, hnamed, -⟩
      · exact .ofName (isType_of_isEnumSymbol henum)
      · exact .ofName (isType_of_namedStruct? hnamed)
  refine hname.lastOf hresult ?_
  rw [hk]
  exact .ofPure result

/-! ### Calls -/

/-- A method call visits the receiver and the arguments, and then looks the callee up. -/
theorem Traced.methodCall {span : Span} {scope : ScopeId} {c d : Checker} {visits' : List Visit}
    (hwell : c.WellTyped) (hcallee : ∃ object member, callee.kind = .member object member)
    (hresult : (callee.checkReceiver scope).eval c = receiver)
    (hd : (checkExprs scope args).exec ((callee.checkReceiver scope).exec c) = d)
    (hreceiver : Traced c scope callee.kind.sites visits (callee.checkReceiver scope))
    (hargs : Traced ((callee.checkReceiver scope).exec c) scope (exprSites args) visits'
      (checkExprs scope args)) : Traced c scope (callee.sites .callee ++ exprSites args)
      (visits ++ (visits' ++ [⟨.callee callee receiver, scope, d⟩])) (do
        let receiver ← callee.checkReceiver scope
        let tys ← checkExprs scope args
        Check.methodCall callee receiver args tys span scope) := by
  subst hresult hd
  have hsites : callee.sites .callee ++ exprSites args =
      .expr .callee callee :: (callee.kind.sites ++ exprSites args) := by
    obtain ⟨id, span, kind⟩ := callee
    rfl
  have hsplit : (do
      let receiver ← callee.checkReceiver scope
      let tys ← checkExprs scope args
      Check.methodCall callee receiver args tys span scope) = (do
      let parts ← (do
        let receiver ← callee.checkReceiver scope
        let tys ← checkExprs scope args
        return (receiver, tys))
      Check.methodCall callee parts.1 args parts.2 span scope) := by
    simp only [bind_assoc, pure_bind]
  have hjudged := judged_receiver scope callee hcallee hwell
  have hparts : Traced c scope (callee.kind.sites ++ exprSites args) (visits ++ visits') (do
      let receiver ← callee.checkReceiver scope
      let tys ← checkExprs scope args
      return (receiver, tys)) :=
    hreceiver.bind hjudged fun _ => hargs.last (.ofPure _)
  have hcall := logs_methodCall callee ((callee.checkReceiver scope).eval c) args
    ((checkExprs scope args).eval ((callee.checkReceiver scope).exec c)) span scope
    ((checkExprs scope args).exec ((callee.checkReceiver scope).exec c))
  have hlater := hreceiver.later.trans hargs.later
  rw [hsites, hsplit, ← List.append_assoc]
  refine hparts.endingIn (v := ⟨.callee callee ((callee.checkReceiver scope).eval c), scope, _⟩)
    hcall ⟨hlater, hcall.later, hlater.owner⟩ fun hclean => ?_
  have hjudged' := (judged_exprs scope args hjudged.account.wellTyped).after hjudged.account
  have htyped := typed_methodCall span scope hjudged'.account
    (hjudged.good.mono hjudged'.extend) callee hjudged'.good
  exact ⟨exists_calledMember (hclean.not_failed htyped.account), nofun⟩

/-- An expression of this form is followed through its parts. The visit to the expression itself
comes last, since it may be a call. -/
structure FollowedParts (near : ScopeId → Checker → Checker → Prop) (scope : ScopeId) (c : Checker)
    (span : Span) (kind : ExprKind) : Prop where
  traced : c.WellTyped →
    Traced c scope kind.sites (kind.visits span scope c) (kind.check span scope)
  here : ∀ role id, ExplainedHere near scope c
    (kind.visits span scope c ++ [⟨.value role ⟨id, span, kind⟩, scope, c⟩]) (kind.check span scope)

namespace FollowedParts

variable [Nearness near] {kind : ExprKind} {callee : Expr} {args : List Expr}

/-- Only calls release records. -/
theorem ofFollowed (hcall : ∀ callee args, kind ≠ .call callee args)
    (h : Followed near scope c kind.sites (kind.visits span scope c) (kind.check span scope)) :
    FollowedParts near scope c span kind := by
  refine ⟨h.traced, fun role id => h.toExplainedHere.visit ?_ (Nearness.refl scope c)⟩
  cases kind <;> first | rfl | exact absurd rfl (hcall _ _)

/-- Once its parts are typed, a call does to memory what `callEffect` says. -/
theorem ofCall {α : Type} {parts : CheckM α}
    (hvisits : (ExprKind.call callee args).visits span scope c = visits)
    (hexec : (callEffect callee args span scope).exec c = parts.exec c)
    (hparts : ExplainedHere near scope c visits parts) (htraced : c.WellTyped →
      Traced c scope (ExprKind.call callee args).sites visits
      ((ExprKind.call callee args).check span scope)) :
    FollowedParts near scope c span (.call callee args) := by
  subst hvisits
  have hrule : ((ExprKind.call callee args).check span scope).IsRule scope
      (· ∈ (ExprKind.call callee args).nodes) :=
    .ofInStep fun hnode hR => hR.inStep_kind span (.call callee args) hnode
  have heffect := done_call args span scope c callee
  refine ⟨htraced, fun role id => ⟨Explains.call ?_ heffect role id,
    Nearness.ofRule hrule c, List.forall_mem_append.mpr ⟨hparts.here, ?_⟩⟩⟩
  · rw [hexec]
    exact hparts.explained
  · exact List.forall_mem_singleton.mpr ⟨rfl, Nearness.refl scope c⟩

theorem ofMethodCall (hform : callForm c callee scope = .method)
    (hreceiver : Followed near scope c callee.kind.sites (callee.receiverVisits scope c)
      (callee.checkReceiver scope))
    (hargs : Followed near scope ((callee.checkReceiver scope).exec c) (exprSites args)
      (exprVisits scope args ((callee.checkReceiver scope).exec c)) (checkExprs scope args)) :
    FollowedParts near scope c span (.call callee args) := by
  have hcallee := callee_of_method scope hform
  have hlast : Visit.effect? ⟨.callee callee ((callee.checkReceiver scope).eval c), scope,
      (checkExprs scope args).exec ((callee.checkReceiver scope).exec c)⟩ = none := rfl
  have hparts : ExplainedHere near scope c _
      (callee.checkReceiver scope >>= fun _ => checkExprs scope args) :=
    hreceiver.toExplainedHere.bind (hargs.toExplainedHere.visit hlast hargs.stays)
  refine .ofCall ?_ ?_ hparts fun h => .ofGet ?_
  · unfold ExprKind.visits
    exact if_pos hform
  · rw [callEffect, exec_get_bind, hform]
    rfl
  · rw [hform]
    exact .methodCall h hcallee rfl rfl (hreceiver.traced h)
      (hargs.traced (judged_receiver scope callee hcallee h).account.wellTyped)

/-- The call of a value, of `alloc` or of `free`. -/
theorem ofValueCall (hform : callForm c callee scope ≠ .method)
    (hcallee : Followed near scope c (callee.sites .callee) (callee.visits scope .callee c)
      (callee.check scope))
    (hargs : Followed near scope ((callee.check scope).exec c) (exprSites args)
      (exprVisits scope args ((callee.check scope).exec c)) (checkExprs scope args)) :
    FollowedParts near scope c span (.call callee args) := by
  have hparts : ExplainedHere near scope c _
      (callee.check scope >>= fun _ => checkExprs scope args) :=
    hcallee.toExplainedHere.bind hargs.toExplainedHere
  have hcall {k : Option Ty → List (Option Ty) → CheckM (Option Ty)}
      (hk : ∀ ty tys, Idle (k ty tys)) (h : c.WellTyped) :
      Traced c scope (callee.sites .callee ++ exprSites args) _
        (do k (← callee.check scope) (← checkExprs scope args)) :=
    (hcallee.traced h).bind (typed_expr scope callee h) fun h => (hargs.traced h).last (hk _ _)
  refine .ofCall ?_ ?_ hparts fun h => .ofGet ?_
  · unfold ExprKind.visits
    exact if_neg hform
  · rw [callEffect, exec_get_bind]
    cases hc : callForm c callee scope <;> first | rfl | exact absurd hc hform
  · cases hc : callForm c callee scope with
    | method => exact absurd hc hform
    | alloc => exact hcall (fun _ tys => (reports_alloc scope args tys span).idle) h
    | free => exact hcall (fun _ tys => .ofObserves <|
        observes_of_inStep scope (·.inStep_free args (sameOptions tys) span)) h
    | plain => exact hcall (fun ty tys => .ofObserves <| observes_of_inStep scope
        (·.inStep_plainCall callee (sameOption ty) args (sameOptions tys) span)) h

end FollowedParts

/-! ### Expressions and written types -/

/-- An expression records what its parts record, and then its own type. -/
theorem Traced.expr {α : Type} {id : NodeId} {kind : ExprKind} {sites : List Site}
    {k : Option Ty → CheckM α} (hwell : c.WellTyped)
    (h : Traced c scope sites visits (kind.check span scope)) (hk : ∀ ty, Idle (k ty))
    (hfits : NoFault c (((⟨id, span, kind⟩ : Expr).check scope >>= k).exec c) →
      Visit.Fits ⟨.value role ⟨id, span, kind⟩, scope, c⟩) :
    Traced c scope (.expr role ⟨id, span, kind⟩ :: sites)
      (visits ++ [⟨.value role ⟨id, span, kind⟩, scope, c⟩])
      ((⟨id, span, kind⟩ : Expr).check scope >>= k) := by
  have hfound :
      ((⟨id, span, kind⟩ : Expr).check scope).eval c = (kind.check span scope).eval c := by
    rw [Expr.check, eval_bind, eval_recorded]
  have hown : Logs ((kind.check span scope).exec c) [⟨.value role ⟨id, span, kind⟩, scope, c⟩]
      (recorded id ((kind.check span scope).eval c) >>= k) := by
    refine Logs.last ?_ hk
    cases hty : (kind.check span scope).eval c with
    | none =>
      refine (Idle.ofPure none).logs_visit _ ?_
      simp [Visit.entry?, Visit.found, hfound, hty]
    | some ty =>
      refine Logs.last (m := modify (·.record id ty)) (logs_record ?_) fun _ => .ofPure _
      simp [Visit.entry?, Visit.id?, Visit.site, Part.site, Site.id?, Visit.found, hfound, hty]
  have hlater := (hk (((⟨id, span, kind⟩ : Expr).check scope).eval c)).later
    (((⟨id, span, kind⟩ : Expr).check scope).exec c)
  refine h.endingIn (v := ⟨.value role ⟨id, span, kind⟩, scope, c⟩)
    (k := fun ty => recorded id ty >>= k) hown
    ⟨.refl c, h.later.trans hown.later, fun hname => hname⟩ fun hclean => ⟨?_, hfits hclean⟩
  have htyped := typed_expr scope ⟨id, span, kind⟩ hwell
  exact Option.isSome_iff_ne_none.mpr ((hclean.left hlater).not_failed htyped.account)

theorem Check.fits_arraySize {e : Expr} {ty : Option Ty}
    (h : (arraySize e ty).eval c ≠ none) : e.ident?.isSome = true ∨ ty = some .int := by
  cases ty with
  | none => exact absurd rfl h
  | some ty =>
    cases hname : e.ident? with
    | some name => exact .inl rfl
    | none =>
      by_cases hty : ty = .int
      · exact .inr (congrArg some hty)
      · simp [arraySize, hname, hty] at h

section

variable [Nearness near]

theorem stays_recorded (id : NodeId) (ty : Option Ty) (c : Checker) :
    near scope c ((recorded id ty).exec c) := by
  cases ty with
  | none => exact Nearness.refl scope c
  | some ty => exact (Nearness.invariant scope c).record ty trivial (Nearness.refl scope c)

variable {kind : ExprKind}

/-- A length that is no number is visited as other expressions are, and then looked at. -/
theorem Followed.size (h : FollowedParts near scope c span kind) (id : NodeId) :
    Followed near scope c (.expr .length ⟨id, span, kind⟩ :: kind.sites)
      ((⟨id, span, kind⟩ : Expr).sizeVisits scope c)
      ((⟨id, span, kind⟩ : Expr).resolveSize scope) := by
  have hrule (ty : Option Ty) : Passive near scope (arraySize ⟨id, span, kind⟩ ty) :=
    .ofInStep fun hR => hR.inStep_arraySize _ (sameOption ty)
  have hchecked : ExplainedHere near scope c _ ((⟨id, span, kind⟩ : Expr).check scope) :=
    (h.here .length id).last (Silent.recorded id _).sparing (stays_recorded id _ _)
  have hsize : Followed near scope c (.expr .length ⟨id, span, kind⟩ :: kind.sites)
      (endingIn (kind.visits span scope) (.value .length ⟨id, span, kind⟩) scope c)
      ((⟨id, span, kind⟩ : Expr).check scope >>= arraySize ⟨id, span, kind⟩) := by
    refine ⟨hchecked.last (hrule _).sparing ((hrule _).stays _), fun hwell => ?_⟩
    refine .expr hwell (h.traced hwell) (fun ty => (hrule ty).idle) fun hclean e hpart => ?_
    have hty := typed_expr scope ⟨id, span, kind⟩ hwell
    have hyields := hty.bind (yields_arraySize hty.account ⟨id, span, kind⟩)
    obtain ⟨-, rfl⟩ := Part.value.inj hpart
    exact fits_arraySize (hclean.not_failed hyields.account)
  cases kind with
  | int value => exact .visit (.ofPure _) rfl rfl fun _ _ => .one ⟨value, rfl⟩ nofun
  | _ => exact hsize

end

section

variable [Nearness near] (scope : ScopeId)

mutual

theorem followed_resolve : (t : TypeExpr) → ∀ c : Checker,
    Followed near scope c t.sites (t.visits scope c) (t.resolve scope)
  | .named span none name, c => Passive.followed (.ofInStep (·.inStep_namedType name span)) c
  | .named span (some module) name, c => by
    refine .visit (.ofInStep (·.inStep_qualifiedType module name span)) rfl rfl
      fun hwell hclean => .one (Option.isSome_iff_ne_none.mpr ?_) nofun
    exact hclean.not_failed (typed_resolve scope (.named span (some module) name) hwell).account
  | .pointer _ pointee, c => (followed_resolve pointee c).last fun _ => .ofPure _
  | .array _ element none, c => (followed_resolve element c).last fun _ => .ofPure _
  | .array _ element (some size), c =>
    (followed_resolve element c).cases (typed_resolve scope element) (.ofPure none) fun _ =>
      (followed_resolveSize size _).last fun _ => .ofPure _
  | .function _ params ret, c =>
    (followed_resolveTypes params c).cases (yields_resolveTypes scope params) (.ofPure none)
      fun _ => (followed_resolve ret _).last fun _ => .ofPure _

theorem followed_resolveTypes : (ts : List TypeExpr) → ∀ c : Checker,
    Followed near scope c (typeSites ts) (typeVisits scope ts c) (resolveTypes scope ts)
  | [], c => (Passive.ofPure (some [])).followed c
  | t :: ts, c =>
    (followed_resolve t c).cases (typed_resolve scope t) (.ofPure none) fun _ =>
      (followed_resolveTypes ts _).last fun _ => .ofPure _

theorem followed_resolveSize : (e : Expr) → ∀ c : Checker,
    Followed near scope c (e.sites .length) (e.sizeVisits scope c) (e.resolveSize scope)
  | ⟨id, span, kind⟩, c => .size (followed_kind span kind c) id

theorem followed_expr : (e : Expr) → ∀ (role : Role) (c : Checker),
    (hrole : role ≠ .length := by decide) →
      Followed near scope c (e.sites role) (e.visits scope role c) (e.check scope)
  | ⟨id, span, kind⟩, role, c, hrole => by
    have hkind := followed_kind span kind c
    refine ⟨(hkind.here role id).last (Silent.recorded id _).sparing (stays_recorded id _ _),
      fun hwell => ?_⟩
    exact .expr (k := pure) hwell (hkind.traced hwell) .ofPure
      fun _ _ hpart => absurd (Part.value.inj hpart).1 hrole

theorem followed_kind (span : Span) : (kind : ExprKind) → ∀ c : Checker,
    FollowedParts near scope c span kind
  | .int _, c => .ofFollowed nofun ((Passive.ofPure _).followed c)
  | .float _, c => .ofFollowed nofun ((Passive.ofPure _).followed c)
  | .bool _, c => .ofFollowed nofun ((Passive.ofPure _).followed c)
  | .char _, c => .ofFollowed nofun ((Passive.ofPure _).followed c)
  | .str _, c => .ofFollowed nofun ((Passive.ofPure _).followed c)
  | .ident name, c =>
    .ofFollowed nofun (Passive.followed (.ofInStep (·.inStep_ident name span)) c)
  | .qualified module name, c =>
    .ofFollowed nofun (Passive.followed (.ofInStep (·.inStep_qualified module name span)) c)
  | .binary op lhs rhs, c =>
    .ofFollowed nofun <| (followed_expr lhs .value c).bind (typed_expr scope lhs) <|
      (followed_expr rhs .value _).last fun _ =>
        .ofInStep (·.inStep_binary op (sameOption _) (sameOption _) span)
  | .unary op operand, c =>
    .ofFollowed nofun <| (followed_expr operand .value c).last fun ty =>
      .ofInStep (·.inStep_unary op operand (sameOption ty) span)
  | .call callee args, c => by
    by_cases hform : callForm c callee scope = .method
    · exact .ofMethodCall hform (followed_receiver callee (callee_of_method scope hform) c)
        (followed_exprs args _)
    · exact .ofValueCall hform (followed_expr callee .callee c) (followed_exprs args _)
  | .member object member, c => by
    refine .ofFollowed nofun ?_
    unfold ExprKind.visits
    cases hresult : (staticMember object member span scope).eval c with
    | some result =>
      rw [if_pos Option.isSome_some]
      exact .ofStatic hresult rfl
    | none =>
      rw [if_neg nofun]
      refine .first (reports_staticMember scope object member span).passive
        (fun h => named_staticMember span scope (.refl h) object member) ?_
      rw [hresult]
      exact (followed_expr object .object _).last fun ty =>
        .ofInStep (·.inStep_valueMember (sameOption ty) member span)
  | .index object index, c =>
    .ofFollowed nofun <| (followed_expr object .value c).bind (typed_expr scope object) <|
      (followed_expr index .value _).last fun _ =>
        .ofInStep (·.inStep_index object index (sameOption _) (sameOption _))
  | .assign target value, c => by
    refine .ofFollowed nofun (.ofGet ?_)
    unfold ExprKind.visits
    cases hfault : assignmentFault? c target scope with
    | some cause =>
      rw [if_pos Option.isSome_some]
      have hcause := isOperand_of_assignmentFault? hfault
      have hfails (h : c.WellTyped) : Typed c c (fail cause target.span) :=
        yields_fail (.refl h) (Cause.isFault_of_isOperand hcause) _
      exact .ofFailure (.fail (Cause.isRule_of_isOperand hcause) _) hfails rfl
    | none =>
      rw [if_neg nofun]
      exact (followed_expr target .value c).bind (typed_expr scope target) <|
        (followed_expr value .value _).last fun _ => passive_assign scope target value _ _ _
  | .range start stop, c =>
    .ofFollowed nofun <| (followed_expr start .value c).bind (typed_expr scope start) <|
      (followed_expr stop .value _).last fun _ =>
        .ofInStep (·.inStep_range start stop (sameOption _) (sameOption _))
  | .structLit module name fields, c =>
    .ofFollowed nofun <| .first (.ofInStep (·.inStep_literalSymbol module name span))
      (fun h => yields_literalSymbol span scope (.refl h) module name) <|
        (followed_fields fields _).last fun tys =>
          .ofInStep (·.inStep_structLiteral (.refl (Pairing.same_symbol _ _) _) name fields
            (sameOptions tys) span)
  | .arrayLit [], c => .ofFollowed nofun ((Passive.fail rfl _).followed c)
  | .arrayLit (first :: rest), c => by
    refine .ofFollowed nofun <| (followed_expr first .value c).bind
      (typed_expr scope first) <| (followed_elements _ rest _).last fun ok => ?_
    split <;> exact .ofPure _
  | .cast ty value, c => by
    refine .ofFollowed nofun <| (followed_resolve ty c).bind (typed_resolve scope ty) <|
      (followed_expr value .value _).last fun found => ?_
    cases found <;> exact .ofPure _
  | .sizeOfType ty, c =>
    .ofFollowed nofun <| (followed_resolve ty c).last fun _ => .ofPure _

theorem followed_receiver :
    (e : Expr) → (∃ object member, e.kind = .member object member) → ∀ c : Checker,
      Followed near scope c e.kind.sites (e.receiverVisits scope c) (e.checkReceiver scope)
  | ⟨_, _, .member object _⟩, _, c => by
    refine .ofGet ?_
    unfold Expr.receiverVisits
    cases hid : namedStruct? c object scope with
    | some id =>
      rw [if_pos Option.isSome_some]
      exact .visit (.ofPure _) rfl rfl fun _ _ => .ofName (isType_of_namedStruct? hid)
    | none =>
      rw [if_neg nofun]
      exact (followed_expr object .object c).last fun _ => .ofPure _

theorem followed_exprs : (es : List Expr) → ∀ c : Checker,
    Followed near scope c (exprSites es) (exprVisits scope es c) (checkExprs scope es)
  | [], c => (Passive.ofPure []).followed c
  | e :: es, c =>
    (followed_expr e .value c).bind (typed_expr scope e) <|
      (followed_exprs es _).last fun _ => .ofPure _

theorem followed_fields : (fields : List (String × Expr)) → ∀ c : Checker,
    Followed near scope c (fieldSites fields) (fieldVisits scope fields c)
      (checkFields scope fields)
  | [], c => (Passive.ofPure []).followed c
  | (_, e) :: fields, c =>
    (followed_expr e .value c).bind (typed_expr scope e) <|
      (followed_fields fields _).last fun _ => .ofPure _

theorem followed_elements (expected : Option Ty) : (es : List Expr) → ∀ c : Checker,
    Followed near scope c (exprSites es) (elementVisits scope expected es c)
      (checkElements scope expected es)
  | [], c => (Passive.ofPure true).followed c
  | e :: es, c => by
    have helement : Followed near scope c (e.sites .value) (e.visits scope .value c)
        (do arrayElement expected e (← e.check scope)) :=
      (followed_expr e .value c).last fun ty =>
        .ofInStep (·.inStep_arrayElement (sameOption expected) e (sameOption ty))
    have hpasses (h : c.WellTyped) := (typed_expr scope e h).bind
      (passes_arrayElement (typed_expr scope e h).account expected e)
    rw [checkElements, ← bind_assoc]
    exact helement.bind hpasses ((followed_elements expected es _).last fun _ => .ofPure _)

end

end

end Warden

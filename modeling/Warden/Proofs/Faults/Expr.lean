import Warden.Proofs.Faults.Rules

/-!
# Expressions keep their books

The theorems follow the recursion of the walk, one for each of its functions. Each part is judged by
itself, with an account that is opened where the part begins, and joined to what has gone before;
the rule at the end is judged with the account of all parts.
-/

namespace Warden

open CheckM Check

/-! ### Expressions and written types -/

/-- Where `alloc` or `free` is called, the name of the function has a type. -/
theorem eval_check_builtin {c : Checker} {callee : Expr} {scope : ScopeId}
    (h : callForm c callee scope = .alloc ∨ callForm c callee scope = .free) :
    (callee.check scope).eval c ≠ none := by
  obtain ⟨name, symbol, hkind, hlookup, htype⟩ := callee_of_builtin scope h
  obtain ⟨id, span, kind⟩ := callee
  cases hkind
  simp [Expr.check, ExprKind.check, ident, hlookup, htype]

mutual

theorem typed_resolve (scope : ScopeId) :
    (t : TypeExpr) → ∀ {c : Checker}, c.WellTyped → Typed c c (t.resolve scope)
  | .named span none name, _, h => typed_namedType span scope (.refl h) name
  | .named span (some module) name, _, h => typed_qualifiedType span scope (.refl h) module name
  | .pointer _ pointee, _, h => (typed_resolve scope pointee h).map .pointer
  | .array _ element none, _, h => (typed_resolve scope element h).map (.array none)
  | .array _ element (some size), c, h => by
    refine (typed_resolve scope element h).cases (yields_none · trivial) fun ty h hty => ?_
    have hsize := (yields_resolveSize scope size h.wellTyped).after h
    refine hsize.bind (.ofPure hsize.account (by simp) ?_)
    intro result hresult
    obtain ⟨n, -, rfl⟩ := Option.map_eq_some_iff.mp hresult
    exact .array _ (hty.mono hsize.extend)
  | .function _ params ret, c, h => by
    refine (yields_resolveTypes scope params h).cases (yields_none · trivial) fun tys h htys => ?_
    have hret := (typed_resolve scope ret h.wellTyped).after h
    refine hret.bind (.ofPure hret.account (by simp) ?_)
    intro result hresult
    obtain ⟨ty, hty, rfl⟩ := Option.map_eq_some_iff.mp hresult
    exact .function (fun p hp => (htys p hp).mono hret.extend) (hret.good ty hty)

theorem yields_resolveTypes (scope : ScopeId) :
    (ts : List TypeExpr) → ∀ {c : Checker}, c.WellTyped →
      Yields (fun t tys => ∀ ty ∈ tys, ty.KnownIn t) c c (resolveTypes scope ts)
  | [], _, h => yields_some (.refl h) not_false nofun
  | t :: ts, c, h => by
    refine (typed_resolve scope t h).cases (yields_none · trivial) fun ty h hty => ?_
    have hrest := (yields_resolveTypes scope ts h.wellTyped).after h
    refine hrest.bind (.ofPure hrest.account (by simp) ?_)
    intro result hresult
    obtain ⟨tys, htys, rfl⟩ := Option.map_eq_some_iff.mp hresult
    exact List.forall_mem_cons.mpr ⟨hty.mono hrest.extend, hrest.good tys htys⟩

theorem yields_resolveSize (scope : ScopeId) : (e : Expr) → ∀ {c : Checker}, c.WellTyped →
      Yields (fun _ _ => True) c c (e.resolveSize scope)
  | ⟨id, span, kind⟩, c, h => by
    have hsize : Yields (fun _ _ => True) c c (do
        let ty ← recorded id (← kind.check span scope)
        arraySize ⟨id, span, kind⟩ ty) := by
      have hty := (typed_kind span scope kind h).recorded id
      exact hty.bind (yields_arraySize hty.account _)
    cases kind with
    | int value => exact yields_some (.refl h) not_false trivial
    | _ => exact hsize

theorem typed_expr (scope : ScopeId) :
    (e : Expr) → ∀ {c : Checker}, c.WellTyped → Typed c c (e.check scope)
  | ⟨id, span, kind⟩, _, h => (typed_kind span scope kind h).recorded id

theorem typed_kind (span : Span) (scope : ScopeId) :
    (kind : ExprKind) → ∀ {c : Checker}, c.WellTyped → Typed c c (kind.check span scope)
  | .int _, _, h => yields_some (.refl h) not_false (.basic _)
  | .float _, _, h => yields_some (.refl h) not_false (.basic _)
  | .bool _, _, h => yields_some (.refl h) not_false (.basic _)
  | .char _, _, h => yields_some (.refl h) not_false (.basic _)
  | .str _, _, h => yields_some (.refl h) not_false (.basic _)
  | .ident name, _, h => typed_ident span scope (.refl h) name
  | .qualified module name, _, h => typed_qualified span scope (.refl h) module name
  | .binary op lhs rhs, _, h => by
    have hlhs := typed_expr scope lhs h
    have hrhs := (typed_expr scope rhs hlhs.account.wellTyped).after hlhs.account
    have hknown := fun ty hty => (hlhs.good ty hty).mono hrhs.extend
    exact hlhs.bind (hrhs.bind (typed_binary span hrhs.account hknown op))
  | .unary op operand, _, h => by
    have hty := typed_expr scope operand h
    exact hty.bind (typed_unary span scope hty.account hty.good op operand)
  | .call callee args, c, h => by
    have hcallee := typed_expr scope callee h
    refine .ofGet ?_
    cases hform : callForm c callee scope with
    | alloc =>
      have hquiet : Account c _ False :=
        hcallee.account.congr (by simp [eval_check_builtin (.inl hform)])
      have hargs := (judged_exprs scope args hquiet.wellTyped).after hquiet
      exact hcallee.bind (hargs.bind (typed_alloc span (hargs.account.congr (by simp)) hargs.good))
    | free =>
      have hquiet : Account c _ False :=
        hcallee.account.congr (by simp [eval_check_builtin (.inr hform)])
      have hargs := (judged_exprs scope args hquiet.wellTyped).after hquiet
      exact hcallee.bind (hargs.bind (typed_free span scope (hargs.account.congr (by simp))
        hargs.good))
    | method =>
      have hreceiver := judged_receiver scope callee (callee_of_method scope hform) h
      have hargs := (judged_exprs scope args hreceiver.account.wellTyped).after hreceiver.account
      exact hreceiver.bind (hargs.bind (typed_methodCall span scope hargs.account
        (hreceiver.good.mono hargs.extend) callee hargs.good))
    | plain =>
      have hargs := (judged_exprs scope args hcallee.account.wellTyped).after hcallee.account
      have hknown := fun ty hty => (hcallee.good ty hty).mono hargs.extend
      exact hcallee.bind (hargs.bind (typed_plainCall span scope hargs.account hknown callee
        hargs.good))
  | .member object member, c, h => by
    have hnamed := named_staticMember span scope (.refl h) object member
    refine hnamed.bind ?_
    cases hresult : (staticMember object member span scope).eval c with
    | some result =>
      refine .ofPure hnamed.account (by simp [hresult]) fun ty hty => ?_
      exact hnamed.good ty (by rw [hresult, hty])
    | none =>
      have hquiet : Account c _ False := hnamed.account.congr (by simp [hresult])
      have hobject := (typed_expr scope object hquiet.wellTyped).after hquiet
      exact hobject.bind
        (typed_valueMember span scope (hobject.account.congr (by simp)) hobject.good member)
  | .index object index, _, h => by
    have hobject := typed_expr scope object h
    have hindex := (typed_expr scope index hobject.account.wellTyped).after hobject.account
    have hknown := fun ty hty => (hobject.good ty hty).mono hindex.extend
    exact hobject.bind (hindex.bind (typed_index scope hindex.account hknown object index))
  | .assign target value, c, h => by
    refine .ofGet ?_
    cases hfault : assignmentFault? c target scope with
    | some cause =>
      exact yields_fail (.refl h)
        (Cause.isFault_of_isOperand (isOperand_of_assignmentFault? hfault)) _
    | none =>
      have htarget := typed_expr scope target h
      have hvalue := (typed_expr scope value htarget.account.wellTyped).after htarget.account
      have hknown := fun ty hty => (htarget.good ty hty).mono hvalue.extend
      exact htarget.bind (hvalue.bind (typed_assign scope hvalue.account hknown target value _))
  | .range lo hi, _, h => by
    have hlo := typed_expr scope lo h
    have hhi := (typed_expr scope hi hlo.account.wellTyped).after hlo.account
    exact hlo.bind (hhi.bind (typed_range hhi.account lo hi))
  | .structLit module name fields, _, h => by
    have hsymbol := yields_literalSymbol span scope (.refl h) module name
    have hfields := (judged_fields scope fields hsymbol.account.wellTyped).after hsymbol.account
    exact hsymbol.bind (hfields.bind (typed_structLiteral span scope hfields.account name fields
      hfields.good))
  | .arrayLit [], _, h => yields_fail (.refl h) rfl span
  | .arrayLit (first :: rest), c, h => by
    have hfirst := typed_expr scope first h
    have hrest := (passes_elements scope ((first.check scope).eval c) rest
      hfirst.account.wellTyped).after hfirst.account
    refine hfirst.bind (hrest.bind ?_)
    split
    next ty hty hok =>
      have hknown := (hfirst.good ty hty).mono hrest.extend
      exact yields_some hrest.account (by rw [hok]; simp [hty]) (.array _ hknown)
    next hfailed =>
      refine yields_none hrest.account ?_
      cases hty : (first.check scope).eval c with
      | none => exact .inl rfl
      | some ty => exact .inr (by simpa [hty] using hfailed ty hty)
  | .cast ty value, c, h => by
    have htarget := typed_resolve scope ty h
    have hvalue := (typed_expr scope value htarget.account.wellTyped).after htarget.account
    refine htarget.bind (hvalue.bind ?_)
    split
    next hnone => exact yields_none hvalue.account (.inr hnone)
    next found hsome =>
      have hknown := fun ty hty => (htarget.good ty hty).mono hvalue.extend
      exact .ofPure hvalue.account (by simp [hsome]) hknown
  | .sizeOfType ty, _, h => (typed_resolve scope ty h).map fun _ => .basic _

theorem judged_receiver (scope : ScopeId) :
    (e : Expr) → (∃ object member, e.kind = .member object member) → ∀ {c : Checker}, c.WellTyped →
      Judged c c (e.checkReceiver scope) (· = .value none) Receiver.KnownIn
  | ⟨_, _, .member object _⟩, _, c, h => by
    refine .ofGet ?_
    cases hid : namedStruct? c object scope with
    | some id => exact .ofPure (.refl h) (by simp) (definition_of_namedStruct? scope h hid)
    | none =>
      have hobject := typed_expr scope object h
      exact hobject.bind (.ofPure hobject.account (by simp) hobject.good)

theorem judged_exprs (scope : ScopeId) : (es : List Expr) → ∀ {c : Checker}, c.WellTyped →
      Judged c c (checkExprs scope es) (none ∈ ·) fun _ tys => es.length = tys.length
  | [], _, h => .ofPure (.refl h) (by simp) rfl
  | e :: es, _, h => by
    have hfirst := typed_expr scope e h
    have hrest := (judged_exprs scope es hfirst.account.wellTyped).after hfirst.account
    refine hfirst.bind (hrest.bind (.ofPure hrest.account ?_ (congrArg (· + 1) hrest.good)))
    rw [List.mem_cons, eq_comm]

theorem judged_fields (scope : ScopeId) :
    (fields : List (String × Expr)) → ∀ {c : Checker}, c.WellTyped →
      Judged c c (checkFields scope fields) (none ∈ ·) fun _ tys => fields.length = tys.length
  | [], _, h => .ofPure (.refl h) (by simp) rfl
  | (_, e) :: fields, _, h => by
    have hfirst := typed_expr scope e h
    have hrest := (judged_fields scope fields hfirst.account.wellTyped).after hfirst.account
    refine hfirst.bind (hrest.bind (.ofPure hrest.account ?_ (congrArg (· + 1) hrest.good)))
    rw [List.mem_cons, eq_comm]

theorem passes_elements (scope : ScopeId) (expected : Option Ty) :
    (es : List Expr) → ∀ {c : Checker}, c.WellTyped → Passes c c (checkElements scope expected es)
  | [], _, h => passes_true (.refl h) not_false
  | e :: es, _, h => by
    have hty := typed_expr scope e h
    have hok := passes_arrayElement hty.account expected e
    have hrest := (passes_elements scope expected es hok.account.wellTyped).after hok.account
    exact hty.bind (hok.bind (Passes.conj hrest))

end

end Warden

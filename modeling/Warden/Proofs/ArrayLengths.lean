import Warden.Proofs.Visits.Expr

/-!
# The lengths of arrays

A written type states the lengths of its arrays, at any depth: in what a pointer points to, among
the parameters of a function, and in the types that stand inside of a length, as in a cast
(`TypeExpr.lengths`). A number is taken as it is written. Any other length is checked, and if it is
not a bare name, it has to be an integer. A bare name may have any type.

All lengths in a type are checked in one scope, and nothing is declared between them. So each of
them has the type that it would have if it were checked alone (`Agree.expr`), and
`lengths_of_resolved_type` can speak of the state in which the type is resolved.
-/

namespace Warden

open CheckM Check

/-- The length of an array, if that is what stands there. -/
def Site.length? : Site → Option Expr
  | .expr .length e => some e
  | _ => none

/-- The lengths of all arrays in a written type, at any depth. -/
def TypeExpr.lengths (t : TypeExpr) : List Expr :=
  t.sites.filterMap Site.length?

namespace Expr

variable (c : Checker) (scope : ScopeId) (e : Expr)

/-- The expression is a written number, or an integer in the scope. -/
def IsInteger : Prop :=
  (∃ n, e.kind = .int n) ∨ (e.check scope).eval c = some .int

/-- The expression is a bare name that has a type in the scope. -/
def IsTypedName : Prop :=
  ∃ name ty, e.kind = .ident name ∧ (e.check scope).eval c = some ty

end Expr

variable {c d : Checker} {scope : ScopeId} {e : Expr}

theorem Expr.isSome_ident? : e.ident?.isSome = true ↔ ∃ name, e.kind = .ident name := by
  unfold Expr.ident?
  cases e.kind <;> simp

/-- Where nothing has failed, there is no fault. -/
theorem Account.noFault {p : Prop} (h : Account c d p) (hp : ¬p) : NoFault c d := by
  obtain ⟨new, hnew, hfault⟩ := h.findings
  intro new' hnew' f hf
  have heq : new' = new := List.append_cancel_left (hnew'.symm.trans hnew)
  exact Bool.eq_false_iff.mpr fun htrue => hp (hfault.mpr ⟨f, heq ▸ hf, htrue⟩)

/-- A visit to a length that is made in an agreeing state. -/
theorem Visit.integer_or_name {v : Visit} (hsettled : v.Settled) (hfits : v.Fits)
    (hagree : Agree v.state c) (hsite : v.site = .expr .length e) :
    e.IsInteger c v.scope ∨ e.IsTypedName c v.scope := by
  obtain ⟨part, scope, state⟩ := v
  have hcheck : (e.check scope).eval state = (e.check scope).eval c :=
    (Agree.expr scope e _ _ hagree).1
  cases part with
  | length e' =>
    obtain ⟨-, rfl⟩ := Site.expr.inj hsite
    exact .inl (.inl hsettled)
  | value role e' =>
    obtain ⟨rfl, rfl⟩ := Site.expr.inj hsite
    rcases hfits e' rfl with hname | hint
    · obtain ⟨name, hname⟩ := Expr.isSome_ident?.mp hname
      obtain ⟨ty, hty⟩ := Option.isSome_iff_exists.mp hsettled
      exact .inr ⟨name, ty, hname, hcheck.symm.trans hty⟩
    · exact .inl (.inr (hcheck.symm.trans hint))
  | callee e' receiver => cases (Site.expr.inj hsite).1
  | name e' => cases (Site.expr.inj hsite).1
  | type t => cases hsite

/-- A written number has the type `int` as well. -/
theorem Expr.isInteger_iff : e.IsInteger c scope ↔ (e.check scope).eval c = some .int := by
  refine ⟨fun h => ?_, .inr⟩
  rcases h with ⟨n, hkind⟩ | hint
  · obtain ⟨id, span, kind⟩ := e
    cases hkind
    rfl
  · exact hint

/-- A length is accepted exactly if it is an integer or a name that has a type. -/
theorem Expr.isSome_resolveSize (e : Expr) (scope : ScopeId) (c : Checker) :
    ((e.resolveSize scope).eval c).isSome = true ↔
      e.IsInteger c scope ∨ e.IsTypedName c scope := by
  have hsize : ((e.check scope >>= arraySize e).eval c).isSome = true ↔
      e.IsInteger c scope ∨ e.IsTypedName c scope := by
    rw [isInteger_iff, IsTypedName, exists_comm, eval_bind]
    simp only [exists_and_right, ← isSome_ident?]
    cases hty : (e.check scope).eval c with
    | none => simp [arraySize]
    | some ty =>
      cases hname : e.ident? with
      | some name => simp [arraySize, hname]
      | none => by_cases hint : ty = .int <;> simp [arraySize, hname, hint]
  obtain ⟨id, span, kind⟩ := e
  cases kind with
  | int value => exact iff_of_true rfl (.inl (.inl ⟨value, rfl⟩))
  | _ => exact hsize

/-- **Lengths are integers, or names.** If a written type can be resolved in a state that a check
can come to, every length in it, at any depth, is a number, an integer expression or a bare name
that has a type. That is all that is asked of a length: an array of such a type can be resolved
exactly if its length is of one of these kinds. So a name of any type passes. -/
theorem lengths_of_resolved_type {c : Checker} (hc : c.Reachable) (scope : ScopeId) {t : TypeExpr}
    (ht : ((t.resolve scope).eval c).isSome = true) :
    (∀ e ∈ t.lengths, e.IsInteger c scope ∨ e.IsTypedName c scope) ∧
      ∀ span e, (((TypeExpr.array span t (some e)).resolve scope).eval c).isSome = true ↔
        e.IsInteger c scope ∨ e.IsTypedName c scope := by
  have htyped := typed_resolve scope t hc.wellTyped
  have hfollowed : Followed (fun _ => Agree) scope c t.sites (t.visits scope c) (t.resolve scope) :=
    followed_resolve scope t c
  have hcomplete := (hfollowed.traced hc.wellTyped).complete
    (htyped.account.noFault (Option.isSome_iff_ne_none.mp ht))
  refine ⟨fun e he => ?_, fun span e => ?_⟩
  · obtain ⟨site, hsite, hlength⟩ := List.mem_filterMap.mp he
    obtain ⟨v, hv, rfl⟩ := List.mem_map.mp (hcomplete.sites.mem_iff.mpr hsite)
    obtain ⟨hscope, hagree⟩ := hfollowed.here v hv
    have hexpr : v.site = .expr .length e := by
      unfold Site.length? at hlength
      split at hlength
      next heq => rw [heq, Option.some.inj hlength]
      · cases hlength
    exact hscope ▸ Visit.integer_or_name (hcomplete.settled v hv) (hcomplete.fits v hv)
      hagree.symm hexpr
  · obtain ⟨ty, hty⟩ := Option.isSome_iff_exists.mp ht
    have hsize := e.isSome_resolveSize scope ((t.resolve scope).exec c)
    rw [Expr.isInteger_iff, Expr.IsTypedName,
      eval_check_of_observes (rule_resolve scope t).observes] at hsize
    rw [Expr.isInteger_iff, Expr.IsTypedName, ← hsize, TypeExpr.resolve, eval_bind, hty]
    simp

/-- A module with a constant `s` that is a string, after its check. -/
def stringConstant : Checker :=
  let s : VarDecl := { name := "s", value := some ⟨0, {}, .str "a"⟩ }
  let main : Module := { name := "main", body := [⟨{}, .var s⟩] }
  ((Checker.ofConfig {}).resolve { modules := [main] }).checker

theorem reachable_stringConstant : stringConstant.Reachable :=
  .resolve _ (.start {})

/-- The type `[*[int; s]; 3]`. -/
def arrayOfNamedLength : TypeExpr :=
  let inner : TypeExpr := .array {} (.named {} none "int") (some ⟨1, {}, .ident "s"⟩)
  .array {} (.pointer {} inner) (some ⟨2, {}, .int 3⟩)

/-- Both lengths are looked at, the one behind the pointer too. -/
theorem lengths_of_arrayOfNamedLength :
    ((arrayOfNamedLength.resolve 1).eval stringConstant).isSome = true ∧
      arrayOfNamedLength.lengths.map (·.id) = [1, 2] ∧
      ∀ e ∈ arrayOfNamedLength.lengths,
        e.IsInteger stringConstant 1 ∨ e.IsTypedName stringConstant 1 := by
  have hresolved : ((arrayOfNamedLength.resolve 1).eval stringConstant).isSome = true := by
    decide +kernel
  exact ⟨hresolved, rfl, (lengths_of_resolved_type reachable_stringConstant 1 hresolved).1⟩

/-- The string is accepted as a length. -/
theorem string_accepted_as_length :
    stringConstant.Reachable ∧
      (arrayOfNamedLength.resolve 1).eval stringConstant =
        some (.array (.pointer (.array .int (some (.symbolic "s")))) (some (.literal 3))) ∧
      ∃ e ∈ arrayOfNamedLength.lengths, ¬e.IsInteger stringConstant 1 := by
  refine ⟨reachable_stringConstant, by decide +kernel, ⟨1, {}, .ident "s"⟩, .head _, ?_⟩
  rw [Expr.isInteger_iff]
  decide +kernel

end Warden

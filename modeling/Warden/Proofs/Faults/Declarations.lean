import Warden.Proofs.Faults.Expr
import Warden.Proofs.Finalized

/-!
# Declarations keep their books

Variables, enums, functions and structs, and what statements ask of expressions. A declaration puts
types into the state, so that here it is shown that the state stays well typed: what is declared has
a known type, and a method with `self` has a parameter for it.
-/

namespace Warden

open CheckM Check

variable {isPublic : Bool} {draft : StructDraft} {name : String} {traits : MethodTraits} {ty : Ty}

variable {start c : Checker} {p : Prop} (span : Span) (scope : ScopeId)

/-! ### Symbols -/

theorem account_declare (h : Account start c p) (symbol : Symbol)
    (hsymbol : symbol.WellTyped c.structs) : Account start ((declare scope symbol span).exec c)
      (p ∨ (declare scope symbol span).eval c = false) := by
  simp only [declare, eval_bind, exec_bind, eval_get, exec_get]
  cases hinsert : c.scopes.insert? scope symbol with
  | none => exact (h.fault rfl span).congr (iff_of_true trivial (.inr rfl))
  | some scopes => exact (h.quiet (h.wellTyped.insert hsymbol hinsert) rfl).congr (by simp)

theorem structs_declare (symbol : Symbol) (c : Checker) :
    ((declare scope symbol span).exec c).structs = c.structs := by
  obtain ⟨scopes, -, -, hexec⟩ | ⟨cause, -, hexec⟩ := declare_cases scope symbol span c
  · rw [hexec]
  · rw [hexec]
    rfl

theorem judged_declare (h : Account start c p) (symbol : Symbol)
    (hsymbol : symbol.WellTyped c.structs) (henum : symbol.isOfEnum = false) :
    Judged start c (declare scope symbol span) (fun ok => p ∨ ok = false) fun _ _ => True := by
  refine ⟨account_declare span scope h symbol hsymbol, ?_, trivial⟩
  obtain ⟨scopes, hinsert, -, hexec⟩ | ⟨cause, -, hexec⟩ := declare_cases scope symbol span c
  · exact hexec ▸ .one (.declare hsymbol henum hinsert)
  · exact hexec ▸ .one (.report cause span)

/-! ### Variables -/

theorem yields_annotatedType (h : c.WellTyped) (ty : Option TypeExpr) :
    Yields (fun t annotated => ∀ x ∈ annotated, x.KnownIn t) c c <| annotation ty scope := by
  cases ty with
  | none => exact yields_some (.refl h) not_false nofun
  | some ty => exact (typed_resolve scope ty h).map fun hty => by simpa using hty

/-- An absent value is no failure, a value without type is one. -/
theorem named_initializer (h : c.WellTyped) (value : Option Expr) :
    Named c c (initializer value scope) := by
  cases value with
  | none => exact named_none (.refl h)
  | some value => exact named_some (typed_expr scope value h)

theorem judged_variableType {value : Option (Option Ty)} (h : Account start c (value = some none))
    (hvalue : ∀ ty, value = some (some ty) → ty.KnownIn c.structs) {annotated : Option Ty}
    (hannotated : ∀ ty ∈ annotated, ty.KnownIn c.structs) (decl : VarDecl) :
    Judged start c (variableType decl annotated value span) (fun result => result.any (·.2) = false)
      fun t result => ∀ r ∈ result, r.1.KnownIn t := by
  unfold variableType
  split
  next ty found =>
    split
    · exact .ofPure h (by simp) (by simpa using hannotated)
    · have hreport := Judged.ofReport h (.mismatch ty found) rfl
        ((decl.value.map (·.span)).getD span)
      refine hreport.bind (.ofPure hreport.account (by simp) ?_)
      simpa using (hannotated ty rfl).mono hreport.extend
  · exact .ofPure h (by simp) (by simpa using hannotated)
  · exact .ofPure h (by simp) (by simpa using hannotated)
  · exact .ofPure h (by simp) (by simpa using hvalue)
  · exact .ofPure h (by simp) nofun
  · exact ⟨(h.fault rfl span).congr (by simp), .one (.report ..), nofun⟩

theorem judged_declareVariable (h : Account start c p) (decl : VarDecl)
    (hty : ty.KnownIn c.structs) :
    Judged start c (declareVariable decl ty span scope) (fun ok => p ∨ ok = false)
      fun _ _ => True := by
  unfold declareVariable
  split
  · exact .ofReject h rfl span (.inr rfl)
  · refine (judged_declare span scope h _ ⟨hty, by nofun⟩ rfl).andThen fun h _ => ?_
    split
    next hok =>
      split
      next value _ =>
        refine .ofGet ?_
        refine (judged_bindValue span scope h decl.name value _ ty.isPointer).andThen fun h _ => ?_
        exact .ofPure h (by simp [hok]) trivial
      · exact .ofPure h (by simp [hok]) trivial
    next hfailed => exact .ofPure h (by simp [hfailed]) trivial

theorem passes_varDecl (h : c.WellTyped) (decl : VarDecl) :
    Passes c c (varDecl decl span scope) := by
  refine (yields_annotatedType scope h decl.ty).cases (passes_false · trivial) ?_
  intro annotated h hannotated
  have hvalue := (named_initializer scope h.wellTyped decl.value).after h
  refine hvalue.bind ?_
  have hty := judged_variableType span (hvalue.account.congr (by simp)) hvalue.good
    (fun ty hty => (hannotated ty hty).mono hvalue.extend) decl
  refine hty.bind ?_
  split
  next hnone => exact passes_false hty.account (by rw [hnone]; rfl)
  next ty ok hsome =>
    have hdeclared := judged_declareVariable span scope hty.account decl (hty.good _ hsome)
    refine hdeclared.bind (.ofPure hdeclared.account ?_ trivial)
    rw [hsome, Bool.and_eq_false_iff, or_comm]
    rfl

/-! ### Enums -/

/-- A member is dropped exactly if it is reported. -/
theorem judged_enumMembers (enum : String) :
    (members : List String) → ∀ {c : Checker} {p : Prop} (seen : List String), Account start c p →
      Judged start c (enumMembers enum span seen members)
        (fun kept => p ∨ kept.length ≠ members.length) fun _ kept => kept.length ≤ members.length
  | [], _, _, _, h => .ofPure h (by simp) (Nat.le_refl _)
  | member :: members, c, p, seen, h => by
    unfold enumMembers
    split
    · have hreport := Judged.ofReport h (.duplicateEnumMember enum member) rfl span
      have hrest := judged_enumMembers enum members seen hreport.account
      have hle := hrest.good
      refine hreport.bind (hrest.weaken ?_ (Nat.le_succ_of_le hle))
      simp only [List.length_cons]
      grind
    · have hrest := judged_enumMembers enum members (member :: seen) h
      refine hrest.bind (.ofPure hrest.account ?_ (Nat.succ_le_succ hrest.good))
      simp only [List.length_cons, ne_eq, Nat.add_right_cancel_iff]

/-- The members of an enum are declared without a word. -/
theorem account_declareEnumMembers (decl : EnumDecl) :
    (members : List String) → ∀ {c : Checker} {p : Prop}, Account start c p →
      Account start ((declareEnumMembers decl span scope members).exec c) p
  | [], _, _, h => h
  | member :: members, c, p, h => by
    have hdeclared : ∀ symbol : Symbol, symbol.WellTyped c.structs →
        Account start { c with scopes := (c.scopes.insert? scope symbol).getD c.scopes } p := by
      intro symbol hsymbol
      refine h.quiet ?_ rfl
      cases hinsert : c.scopes.insert? scope symbol with
      | none => exact h.wellTyped
      | some scopes => exact h.wellTyped.insert hsymbol hinsert
    have hmember := hdeclared { name := s!"{decl.name}.{member}", ty := .basic decl.name
                                kind := .enumMember, isPublic := decl.isPublic, span }
      ⟨.basic _, nofun⟩
    exact account_declareEnumMembers decl members hmember

/-- An enum and its members are declared in one move. -/
theorem passes_enumDecl (h : c.WellTyped) (decl : EnumDecl) :
    Passes c c (enumDecl decl span scope) := by
  refine ⟨?_, .one (.enum decl span scope), trivial⟩
  have hmembers := (judged_enumMembers span decl.name decl.members [] (.refl h)).account
  have hdeclared := account_declare span scope hmembers
    { name := decl.name, ty := .basic decl.name, span, isPublic := decl.isPublic
      kind := .enum ((enumMembers decl.name span [] decl.members).eval c) } ⟨.basic _, by nofun⟩
  rw [enumDecl, eval_bind, exec_bind]
  dsimp only
  rw [eval_bind, exec_bind]
  split
  next hok =>
    exact (account_declareEnumMembers span scope decl _ hdeclared).congr (by simp [hok])
  next hfailed => exact hdeclared.congr (by simp [hfailed])

/-! ### Functions -/

/-- A type for each parameter, all of them known. -/
theorem yields_paramTypes : (params : List Param) → ∀ {c : Checker}, c.WellTyped →
      Yields (fun t tys => (∀ ty ∈ tys, ty.KnownIn t) ∧ tys.length = params.length) c c
        (paramTypes scope params)
  | [], _, h => yields_some (.refl h) not_false ⟨List.forall_mem_nil _, rfl⟩
  | param :: params, c, h => by
    have hty := typed_resolve scope param.ty h
    have hrest := (yields_paramTypes params hty.account.wellTyped).after hty.account
    refine hty.bind (hrest.bind ?_)
    split
    next ty tys hsome hsomes =>
      obtain ⟨hknown, hlen⟩ := hrest.good tys hsomes
      refine yields_some hrest.account (by simp [hsome, hsomes]) ⟨?_, congrArg (· + 1) hlen⟩
      exact List.forall_mem_cons.mpr ⟨(hty.good ty hsome).mono hrest.extend, hknown⟩
    next hfailed =>
      refine yields_none hrest.account ?_
      cases hsome : (param.ty.resolve scope).eval c with
      | none => exact .inl rfl
      | some ty =>
        exact .inr (Option.eq_none_iff_forall_ne_some.mpr fun tys => hfailed ty tys hsome)

theorem yields_signature (h : c.WellTyped) (params : List Param) (returnType : TypeExpr) :
    Yields (fun t sig => sig.ty.KnownIn t ∧ sig.params.length = params.length) c c
      (signature params returnType scope) := by
  have hparams := yields_paramTypes scope params h
  have hret := (typed_resolve scope returnType hparams.account.wellTyped).after hparams.account
  refine hparams.bind (hret.bind ?_)
  split
  next tys ty hsomes hsome =>
    obtain ⟨hknown, hlen⟩ := hparams.good tys hsomes
    refine yields_some hret.account (by simp [hsome, hsomes]) ⟨?_, hlen⟩
    exact .function (fun p hp => (hknown p hp).mono hret.extend) (hret.good ty hsome)
  next hfailed =>
    refine yields_none hret.account ?_
    cases hsomes : (paramTypes scope params).eval c with
    | none => exact .inl rfl
    | some tys => exact .inr (Option.eq_none_iff_forall_ne_some.mpr fun ty => hfailed tys ty hsomes)

theorem yields_fnDecl (h : c.WellTyped) (d : FnDecl) :
    Yields (fun t sig => sig.ty.KnownIn t) c c (fnDecl d span scope) := by
  refine (yields_signature scope h d.params d.returnType).cases (yields_none · trivial) ?_
  rintro sig h ⟨hsig, -⟩
  dsimp only
  refine (judged_declare span scope h _ ⟨hsig, by nofun⟩ rfl).andThen fun h hext => ?_
  split
  next hok => exact yields_some h (by simp [hok]) (hsig.mono hext)
  next hfailed => exact yields_none h (by simp [hfailed])

theorem passes_declareParams (takesAll : Bool) :
    (params : List Param) → (tys : List Ty) → ∀ {c : Checker}, c.WellTyped →
      (∀ ty ∈ tys, ty.KnownIn c.structs) →
      Passes c c (declareParams takesAll scope params tys)
  | [], _, _, h, _ => passes_true (.refl h) not_false
  | _ :: _, [], _, h, _ => passes_true (.refl h) not_false
  | param :: params, ty :: tys, c, h, htys => by
    obtain ⟨hty, htys⟩ := List.forall_mem_cons.mp htys
    have hrest : ∀ {d} (ok : Bool), Account c d (ok = false) → c.structs.Extends d.structs →
        Passes c d (do let rest ← declareParams takesAll scope params tys; return ok && rest) := by
      intro d ok h hext
      exact .conj ((passes_declareParams takesAll params tys h.wellTyped
        fun ty hty => (htys ty hty).mono hext).after h)
    unfold declareParams
    dsimp only
    refine (judged_declare param.span scope (.refl h) _ ⟨hty, by nofun⟩ rfl).andThen
      fun h hext => ?_
    split
    · refine (Judged.ofMemoryOp h (.allocate scope param.name param.span)).andThen fun h hext' => ?_
      exact hrest _ (h.congr (by simp)) (hext.trans hext')
    · exact hrest _ (h.congr (by simp)) hext

theorem passes_returned {value : Option Expr} {found : Option (Option Ty)}
    (h : Account start c (found = some none)) (hvalue : value.isSome = found.isSome)
    (expected : Option Ty) : Passes start c (returned expected value found span) := by
  unfold returned
  split
  · exact passes_reject h rfl span
  · split
    · exact passes_false h rfl
    · split
      · exact passes_reject h rfl _
      · split
        · exact passes_true h (by simp)
        · exact passes_reject h rfl _
  next expected hboth =>
    split
    · refine passes_true h ?_
      rintro rfl
      obtain ⟨value, rfl⟩ := Option.isSome_iff_exists.mp hvalue
      exact hboth value none rfl rfl
    · exact passes_reject h rfl span

/-! ### Structs -/

namespace DraftWellTyped

variable {t u : StructTable} {draft draft' : StructDraft}

theorem mono (hu : t.Extends u) (h : DraftWellTyped t draft) : DraftWellTyped u draft :=
  fun m hm => (h m hm).mono hu

end DraftWellTyped

theorem judged_structFields (self : Ty) (owner : String) :
    (fields : List FieldDecl) → ∀ {c : Checker} (draft : StructDraft), c.WellTyped →
      Judged c c (structFields self owner scope draft fields) (·.2 = false)
        fun t result => DraftWellTyped c.structs draft → DraftWellTyped t result.1
  | [], _, _, h => .ofPure (.refl h) (by simp) id
  | field :: fields, c, draft, h => by
    -- whatever became of this field, the others are collected next
    have hrest : ∀ {d} (draft' : StructDraft) (ok : Bool), Account c d (ok = false) →
        (DraftWellTyped c.structs draft → DraftWellTyped d.structs draft') →
        Judged c d (do
          let more ← structFields self owner scope draft' fields
          return (more.1, ok && more.2)) (·.2 = false)
          fun t result => DraftWellTyped c.structs draft → DraftWellTyped t result.1 := by
      intro d draft' ok h hdraft
      have hrest := (judged_structFields self owner fields draft' h.wellTyped).after h
      exact hrest.bind (.ofPure hrest.account Bool.and_eq_false_iff.symm
        fun hknown => hrest.good (hdraft hknown))
    have hty := typed_resolve scope field.ty h
    refine hty.bind ?_
    cases hsome : (field.ty.resolve scope).eval c with
    | none => exact hrest draft false (hty.account.congr (by simp [hsome])) (·.mono hty.extend)
    | some ty =>
      dsimp only
      split
      · have hreport := Judged.ofReport hty.account (.containsItself owner) rfl field.span
        exact hreport.bind (hrest draft false (hreport.account.congr (by simp))
          (·.mono hty.extend))
      · split
        next draft' hadd =>
          exact hrest draft' true (hty.account.congr (by simp [hsome])) fun hdraft =>
            (StructDraft.Adds.ofField hadd).forall_mem (hdraft.mono hty.extend)
              ⟨hty.good ty hsome, nofun⟩
        · have hreport :=
            Judged.ofReport hty.account (.duplicateMember owner field.name) rfl field.span
          exact hreport.bind (hrest draft false (hreport.account.congr (by simp))
            (·.mono hty.extend))

/-- A method with `self` has a parameter of that name, and so its type has a first parameter. -/
theorem self_of_methodTraits {d : FnDecl} {sig : Signature}
    (hlen : sig.params.length = d.params.length) (hself : (methodTraits d).hasSelf = true) :
    ∃ self rest ret, sig.ty = .function (self :: rest) ret := by
  cases hparams : sig.params with
  | cons self rest => exact ⟨self, rest, sig.ret, by rw [Signature.ty, hparams]⟩
  | nil =>
    rw [hparams] at hlen
    have hnone : d.params = [] := List.eq_nil_of_length_eq_zero hlen.symm
    simp [methodTraits, hnone] at hself

theorem judged_structMethods (owner : String) :
    (methods : List MethodDecl) → ∀ {c : Checker} (draft : StructDraft), c.WellTyped →
      Judged c c (structMethods owner scope draft methods) (none ∈ ·.2)
        fun t result => (DraftWellTyped c.structs draft → DraftWellTyped t result.1) ∧
          ∀ sig, some sig ∈ result.2 → sig.ty.KnownIn t
  | [], _, _, h => .ofPure (.refl h) (by simp) ⟨id, nofun⟩
  | ⟨span, d⟩ :: methods, c, draft, h => by
    have hrest : ∀ {c'} (draft' : StructDraft) (accepted : Option Signature),
        Account c c' (accepted = none) →
        (DraftWellTyped c.structs draft → DraftWellTyped c'.structs draft') →
        (∀ sig ∈ accepted, sig.ty.KnownIn c'.structs) →
        Judged c c' (do
          let more ← structMethods owner scope draft' methods
          return (more.1, accepted :: more.2)) (none ∈ ·.2)
          fun t result => (DraftWellTyped c.structs draft → DraftWellTyped t result.1) ∧
            ∀ sig, some sig ∈ result.2 → sig.ty.KnownIn t := by
      intro c' draft' accepted h hdraft haccepted
      have hrest := (judged_structMethods owner methods draft' h.wellTyped).after h
      refine hrest.bind (.ofPure hrest.account ?_
        ⟨fun hknown => hrest.good.1 (hdraft hknown), ?_⟩)
      · rw [List.mem_cons, eq_comm]
      · intro sig hsig
        rcases List.mem_cons.mp hsig with heq | hmem
        · exact (haccepted sig heq.symm).mono hrest.extend
        · exact hrest.good.2 sig hmem
    have hsig := yields_signature scope h d.params d.returnType
    refine hsig.bind ?_
    cases hsome : (signature d.params d.returnType scope).eval c with
    | none =>
      exact hrest draft none (hsig.account.congr (by simp [hsome])) (·.mono hsig.extend) nofun
    | some sig =>
      obtain ⟨hknown, hlen⟩ := hsig.good sig hsome
      dsimp only
      split
      next draft' hadd =>
        refine hrest draft' (some sig) (hsig.account.congr (by simp [hsome])) (fun hdraft => ?_)
          (by simpa using hknown)
        refine (StructDraft.Adds.ofMethod hadd).forall_mem (hdraft.mono hsig.extend) ⟨hknown, ?_⟩
        rintro _ ⟨⟩
        exact self_of_methodTraits hlen
      · have hreport := Judged.ofReport hsig.account (.duplicateMember owner d.name) rfl span
        exact hreport.bind (hrest draft none (hreport.account.congr (by simp))
          (·.mono hsig.extend) nofun)

namespace StructDraft

variable {draft draft' : StructDraft} {self : Ty}

/-- No data field that has been collected has the given type. -/
def Avoids (draft : StructDraft) (self : Ty) : Prop :=
  ∀ m ∈ draft.members, m.isMethod = false → m.ty ≠ self

end StructDraft

section

variable {draft : StructDraft} {shell : StructDef} (scope : ScopeId)

theorem completes_structFields (h : c.WellTyped) (hdraft : draft.Completes c.structs)
    (hshell : c.structs.get? draft.id = some shell) (owner : String) (fields : List FieldDecl) :
    ((structFields shell.ty owner scope draft fields).eval c).1.Completes c.structs := by
  have hwell := (judged_structFields scope shell.ty owner fields draft h).good hdraft.wellTyped
  have hstructs := ((rule_structFields scope shell.ty owner draft fields).observes.quiet c).structs
  refine ⟨by rw [id_structFields, hdraft.latest], hstructs ▸ hwell, fun s hs => ?_⟩
  rw [id_structFields, hshell] at hs
  cases hs
  exact keeps_structFields (P := (·.Avoids shell.ty)) owner scope
    (fun hty hadd h => (StructDraft.Adds.ofField hadd).forall_mem h fun _ => hty) fields c
    (hdraft.fields shell hshell)

theorem completes_structMethods (h : c.WellTyped) (hdraft : draft.Completes c.structs)
    (owner : String) (methods : List MethodDecl) :
    ((structMethods owner scope draft methods).eval c).1.Completes c.structs := by
  have hwell := (judged_structMethods scope owner methods draft h).good.1 hdraft.wellTyped
  have hstructs := ((rule_structMethods scope owner draft methods).observes.quiet c).structs
  refine ⟨by rw [id_structMethods, hdraft.latest], hstructs ▸ hwell, fun s hs => ?_⟩
  rw [id_structMethods] at hs
  exact keeps_structMethods (P := (·.Avoids s.ty)) owner scope
    (fun hadd h => (StructDraft.Adds.ofMethod hadd).forall_mem h Bool.noConfusion) methods c
    (hdraft.fields s hs)

end

theorem known_reserveStruct (c : Checker) (name : String) (isPublic : Bool) :
    (Ty.struct ((reserveStruct name isPublic scope).eval c) name).KnownIn
      ((reserveStruct name isPublic scope).exec c).structs := by
  have hnew := StructTable.get?_reserve c.structs name (c.moduleAt scope) isPublic c.structs.size
  rw [if_pos rfl] at hnew
  exact .struct hnew

theorem judged_reserveStruct (h : c.WellTyped) (name : String) (isPublic : Bool) :
    Judged c c (reserveStruct name isPublic scope) (fun _ => False)
      fun t id => (Ty.struct id name).KnownIn t :=
  .ofGet ⟨(Account.refl h).quiet (h.reserve name _ isPublic) rfl,
    .one (.reserve name (c.moduleAt scope) isPublic), known_reserveStruct scope c name isPublic⟩

theorem account_finalizeStruct (h : Account start c p) (hdraft : DraftWellTyped c.structs draft) :
    Account start ((finalizeStruct draft).exec c) p := by
  rw [finalizeStruct, exec_modify]
  cases hfinal : c.structs.finalize? draft with
  | none => exact h
  | some structs => exact h.quiet (h.wellTyped.finalize hdraft hfinal) rfl

theorem judged_finalizeStruct (h : Account start c p) (hdraft : draft.Completes c.structs) :
    Judged start c (finalizeStruct draft) (fun _ => p) fun _ _ => True := by
  refine ⟨account_finalizeStruct h hdraft.wellTyped, ?_, trivial⟩
  rw [finalizeStruct, exec_modify]
  cases hfinal : c.structs.finalize? draft with
  | none => exact .refl _
  | some structs => exact .one (.finalize hdraft hfinal)

/-- The members of a struct are collected and installed. The methods whose bodies are to be checked
have known types. -/
theorem judged_members {shell : StructDef} (h : Account start c p)
    (hdraft : draft.Completes c.structs) (hshell : c.structs.get? draft.id = some shell)
    (d : StructDecl) : Judged start c (do
      let fields ← structFields shell.ty d.name scope draft d.fields
      let methods ← structMethods d.name scope fields.1 d.methods
      finalizeStruct methods.1
      return some (StructHead.mk (fields.2 && methods.2.all (·.isSome)) methods.2))
      (fun head => p ∨ head.any (·.isOk) = false)
      fun t head => ∀ x ∈ head, ∀ sig, some sig ∈ x.signatures → sig.ty.KnownIn t := by
  have hfields := (judged_structFields scope shell.ty d.name d.fields draft h.wellTyped).after h
  have hcollected := completes_structFields scope h.wellTyped hdraft hshell d.name d.fields
  rw [← ((rule_structFields scope shell.ty d.name draft d.fields).observes.quiet c).structs]
    at hcollected
  have hmethods := (judged_structMethods scope d.name d.methods
    ((structFields shell.ty d.name scope draft d.fields).eval c).1
    hfields.account.wellTyped).after hfields.account
  have hcomplete := completes_structMethods scope hfields.account.wellTyped hcollected d.name
    d.methods
  rw [← ((rule_structMethods scope d.name _ d.methods).observes.quiet _).structs] at hcomplete
  have hfinal := judged_finalizeStruct hmethods.account hcomplete
  refine hfields.bind (hmethods.bind (hfinal.bind (.ofPure hfinal.account ?_ ?_)))
  · simp only [Option.any_some, Bool.and_eq_false_iff, List.all_eq_false, or_assoc]
    simp
  · rintro head ⟨⟩ sig hsig
    exact (hmethods.good.2 sig hsig).mono hfinal.extend

/-- The head of a struct is refused exactly if a fault has been reported. -/
theorem judged_structDecl (h : c.WellTyped) (d : StructDecl) :
    Judged c c (structDecl d span scope) (fun head => head.any (·.isOk) = false)
      fun t head => ∀ x ∈ head, ∀ sig, some sig ∈ x.signatures → sig.ty.KnownIn t := by
  have hid := judged_reserveStruct scope h d.name d.isPublic
  have hshell : ((reserveStruct d.name d.isPublic scope).exec c).structs.get? c.structs.size =
      some _ := (c.structs.get?_reserve ..).trans (if_pos rfl)
  have hempty : StructDraft.Completes { id := c.structs.size }
      ((reserveStruct d.name d.isPublic scope).exec c).structs :=
    ⟨Array.size_push _, nofun, nofun⟩
  refine hid.bind ?_
  refine (judged_declare span scope hid.account _ ⟨hid.good, fun _ => ⟨_, _, rfl⟩⟩ rfl).andThen
    fun h _ => ?_
  split
  next hok =>
    have hstructs := structs_declare span scope
      { name := d.name, ty := .struct c.structs.size d.name, kind := .struct
        isPublic := d.isPublic, span } ((reserveStruct d.name d.isPublic scope).exec c)
    have hmembers := judged_members scope h (hstructs ▸ hempty) (hstructs ▸ hshell) d
    exact hmembers.weaken (by simp [hok]) hmembers.good
  next hfailed => exact .ofPure h (by simp [hfailed]) nofun

/-! ### Switches and conditions -/

/-- The verdict on a value joins that on the others, whether or not it names a member. -/
theorem judged_caseValue (value : Expr) {ok : Bool} {rest : CheckM (Bool × List String)} :
    Account start c (ok = false) →
    (∀ {d : Checker}, d.WellTyped → Judged d d rest (·.1 = false) fun _ _ => True) →
    Judged start c (do
      let found ← rest
      match value.kind, ok with
      | .member _ member, true => return (found.1, member :: found.2)
      | _, _ => return (ok && found.1, found.2)) (·.1 = false) fun _ _ => True := by
  intro h hrest
  have hrest := (hrest h.wellTyped).after h
  refine hrest.bind ?_
  split
  · exact .ofPure hrest.account (by simp) trivial
  · exact .ofPure hrest.account Bool.and_eq_false_iff.symm trivial

theorem judged_caseValues (expected : Option Ty) (values : List Expr) {c : Checker}
    (h : c.WellTyped) :
    Judged c c (caseValues expected scope values) (·.1 = false) fun _ _ => True := by
  induction values generalizing c with
  | nil => exact .ofPure (.refl h) (by simp) trivial
  | cons value values ih =>
    have hty := typed_expr scope value h
    refine hty.bind ?_
    cases hsome : (value.check scope).eval c with
    | none => exact judged_caseValue value (hty.account.congr (by simp [hsome])) ih
    | some ty =>
      cases expected with
      | none => exact judged_caseValue value (hty.account.congr (by simp [hsome])) ih
      | some expected =>
        dsimp only
        split
        · exact judged_caseValue value (hty.account.congr (by simp [hsome])) ih
        · have hreject : Passes c _ (reject (.mismatch expected ty) value.span) :=
            passes_reject hty.account rfl _
          exact hreject.bind (judged_caseValue value hreject.account ih)

/-- A superfluous `default` is remarked on, missing cases are a fault. -/
theorem judged_exhaustiveness (h : Account start c p) (scrutinee : Option Ty)
    (covered : List String) (hasDefault : Bool) :
    Judged start c (exhaustiveness scrutinee covered hasDefault span scope)
      (fun ok => p ∨ ok = false) fun _ _ => True := by
  have htrue : ∀ {d}, Account start d p → Judged start d (pure true : CheckM Bool)
      (fun ok => p ∨ ok = false) fun _ _ => True := by
    intro d h
    exact .ofPure h (by simp) trivial
  unfold exhaustiveness
  split
  next name =>
    split
    · exact htrue h
    · refine .ofGet ?_
      split
      · exact htrue h
      next members _ =>
        dsimp only
        split
        · have hremark : Judged start c (report (.redundantDefault name) span) (fun _ => p)
              fun _ _ => True := ⟨h.remark rfl span, .one (.report ..), trivial⟩
          exact hremark.bind (htrue hremark.account)
        · exact .ofReject h rfl span (.inr rfl)
        · exact htrue h
  · exact htrue h

variable (h : c.WellTyped)

include h

theorem passes_condition (cond : Expr) : Passes c c (condition cond scope) := by
  refine (typed_expr scope cond h).cases (passes_false · trivial) fun ty h _ => ?_
  dsimp only
  split
  · exact passes_true h not_false
  · exact passes_reject h rfl _

theorem passes_optionalCondition (cond : Option Expr) :
    Passes c c (optionalCondition cond scope) := by
  cases cond with
  | none => exact passes_true (.refl h) not_false
  | some cond => exact passes_condition scope h cond

theorem passes_effect (e : Expr) : Passes c c (do return (← e.check scope).isSome) :=
  (typed_expr scope e h).cases (passes_false · trivial) fun _ h _ => passes_true h not_false

theorem passes_optionalEffect (e : Option Expr) : Passes c c (optionalEffect e scope) := by
  cases e with
  | none => exact passes_true (.refl h) not_false
  | some e => exact passes_effect scope h e

end Warden

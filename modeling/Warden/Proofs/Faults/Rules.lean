import Warden.Proofs.Faults.Basic

/-!
# The rules keep their books

Each rule of the check gets the types of its parts and comes to a type or a verdict. It says nothing
about a part without a type, because that has been reported before, and in all other cases it fails
exactly if it reports a fault itself. Where a rule gives up in silence although no part has failed,
the state is not well typed; these exits are closed in `yields_structMember`, `named_staticMember`
and `yields_explicitParams`.
-/

namespace Warden.Check

open ScopeTree

open CheckM

variable {t : StructTable} {objectTy ty : Option Ty} {q : Prop} {callee : Expr}

variable {start c : Checker} (span : Span) (scope : ScopeId)

/-! ### Names -/

section

variable (h : Account start c False)

include h

theorem typed_ident (name : String) : Typed start c (ident name span scope) := by
  refine .ofGet ?_
  cases hlookup : c.scopes.lookup? scope name with
  | none => exact yields_fail h rfl span
  | some symbol =>
    dsimp only
    split
    · exact yields_fail h rfl span
    · exact yields_some h not_false
        (h.wellTyped.symbols _ (declares_of_lookup? hlookup)).known

theorem yields_qualifiedSymbol (module name : String) :
    Yields (fun t symbol => symbol.WellTyped t) start c
      (qualifiedSymbol module name span scope) := by
  refine .ofGet ?_
  dsimp only
  split
  next symbol hfound =>
    exact yields_some h not_false
      (h.wellTyped.symbols _ (declares_of_qualifiedLookup hfound))
  · exact yields_fail h rfl span
  · exact yields_fail h rfl span
  · exact yields_fail h rfl span

theorem typed_qualified (module name : String) :
    Typed start c (qualified module name span scope) := by
  refine (yields_qualifiedSymbol span scope h module name).cases (yields_none · trivial)
    fun symbol h hsymbol => ?_
  dsimp only
  split
  · exact yields_fail h rfl span
  · exact yields_some h not_false hsymbol.known

theorem typed_namedType (name : String) : Typed start c (namedType name span scope) := by
  unfold namedType
  split
  · exact yields_some h not_false (.basic name)
  · refine .ofGet ?_
    split
    next symbol hfound =>
      obtain ⟨hlookup, -⟩ := Option.filter_eq_some_iff.mp hfound
      exact yields_some h not_false
        (h.wellTyped.symbols _ (declares_of_lookup? hlookup)).known
    · exact yields_fail h rfl span

theorem typed_qualifiedType (module name : String) :
    Typed start c (qualifiedType module name span scope) := by
  refine (yields_qualifiedSymbol span scope h module name).cases (yields_none · trivial)
    fun symbol h hsymbol => ?_
  dsimp only
  split
  · exact yields_some h not_false hsymbol.known
  · exact yields_fail h rfl span

end

/-! ### Members -/

variable {id : StructId} {tys : List (Option Ty)} {args : List Expr}

/-- A struct that has a definition gives a member, or a reason why not. -/
theorem yields_structMember (h : Account start c False)
    (hid : ∃ d, c.structs.get? id = some d) (member : String) :
    Yields (fun t m => m.WellTyped t) start c (structMember id member span scope) := by
  obtain ⟨d, hd⟩ := hid
  refine .ofGet ?_
  rw [hd]
  dsimp only
  split
  · exact yields_fail h rfl span
  next found hfound =>
    split
    · exact yields_fail h rfl span
    · exact yields_some h not_false
        (h.wellTyped.members id d hd found (List.mem_of_find?_eq_some hfound))

theorem typed_structMemberType (h : Account start c False)
    (hid : ∃ d, c.structs.get? id = some d) (member : String) :
    Typed start c (structMemberType id member span scope) := by
  refine (yields_structMember span scope h hid member).cases (yields_none · trivial) ?_
  intro found h hfound
  exact yields_some h not_false hfound.known

theorem typed_enumMember (h : Account start c False) (enum member : String) {found : Option Symbol}
    (hfound : ∀ symbol ∈ found, c.scopes.Declares symbol) :
    Typed start c (enumMember enum member found span) := by
  cases found with
  | none => exact yields_fail h rfl span
  | some symbol =>
    exact yields_some h not_false (h.wellTyped.symbols symbol (hfound symbol rfl)).known

/-- What `object.member` comes to where the object may be a name: a known type, a failure, or
nothing said yet. -/
abbrev Named (start c : Checker) (m : CheckM (Option (Option Ty))) : Prop :=
  Judged start c m (· = some none) fun t result => ∀ ty, result = some (some ty) → ty.KnownIn t

theorem named_none (h : Account start c False) : Named start c (pure none) :=
  .ofPure h (by simp) nofun

theorem named_some {m : CheckM (Option Ty)} (hm : Typed start c m) :
    Named start c (m >>= fun ty => pure (some ty)) := by
  refine hm.bind (.ofPure hm.account (by simp) ?_)
  intro ty hty
  exact hm.good ty (Option.some.inj hty)

theorem named_staticMember (h : Account start c False) (object : Expr) (member : String) :
    Named start c (staticMember object member span scope) := by
  refine .ofGet ?_
  split
  next name _ =>
    split
    next symbol hlookup =>
      have hsymbol := h.wellTyped.symbols symbol (declares_of_lookup? hlookup)
      split
      · dsimp only
        refine named_some (typed_enumMember span h name member ?_)
        intro found hfound
        exact declares_of_lookup? hfound
      next hkind =>
        obtain ⟨id, name, hty⟩ := hsymbol.struct hkind
        have hid : symbol.ty.structId? = some id := by rw [hty]; rfl
        obtain ⟨d, hd⟩ := hsymbol.known.structId? hid
        rw [hid]
        exact named_some (typed_structMemberType span scope h ⟨d, hd⟩ member)
      · exact named_none h
    · split
      · exact named_some (yields_fail h rfl span)
      · exact named_none h
  next module name _ =>
    split
    · dsimp only
      refine named_some (typed_enumMember span h name member ?_)
      intro found hfound
      exact declares_of_qualified? hfound
    · exact named_none h
  · exact named_none h

theorem typed_valueMember (h : Account start c (objectTy = none))
    (hty : ∀ ty ∈ objectTy, ty.KnownIn c.structs) (member : String) :
    Typed start c (valueMember objectTy member span scope) := by
  cases objectTy with
  | none => exact yields_none h rfl
  | some ty =>
    unfold valueMember
    dsimp only
    split
    · exact yields_fail h rfl span
    next id hid =>
      exact typed_structMemberType span scope (h.congr (by simp)) ((hty ty rfl).structId? hid)
        member

/-! ### Struct literals -/

theorem yields_literalSymbol (h : Account start c False) (module : Option String) (name : String) :
    Yields (fun t symbol => symbol.WellTyped t) start c (literalSymbol module name span scope) := by
  cases module with
  | some module => exact yields_qualifiedSymbol span scope h module name
  | none =>
    refine .ofGet ?_
    split
    next symbol hlookup =>
      exact yields_some h not_false
        (h.wellTyped.symbols symbol (declares_of_lookup? hlookup))
    · exact yields_fail h rfl span

/-- Whatever the privacy check has said, the value of a field is compared with the field's type. -/
theorem judged_fieldValue (fieldTy : Ty) (value : Expr) (ty : Option Ty) (ok : Bool) :
    Account start c ((q ∨ ty = none) ∨ ok = false) →
      Judged start c (match ty with
        | none => pure false
        | some ty => if fieldTy.assignable ty then pure ok
          else reject (.mismatch fieldTy ty) value.span : CheckM Bool)
        (fun ok => q ∨ ok = false) fun _ _ => True := by
  intro h
  split
  · exact .ofPure h (by simp) trivial
  · split
    · exact .ofPure h (by simp) trivial
    · exact .ofReject h rfl _ (.inr rfl)

/-- A field is refused if its value has no type, or for a reason that is reported. What has failed
elsewhere, `q`, stays as it was. -/
theorem judged_literalField (d : StructDef) (module : String) (seen : List String) (field : String)
    (value : Expr) (ty : Option Ty) (h : Account start c (q ∨ ty = none)) :
    Judged start c (literalField d module seen field value ty) (fun ok => q ∨ ok = false)
      fun _ _ => True := by
  unfold literalField
  split
  · exact .ofReject h rfl _ (.inr rfl)
  · split
    · exact .ofReject h rfl _ (.inr rfl)
    next found _ =>
      dsimp only
      split
      · have hprivate : Passes start c (reject (.privateField field d.name) value.span) :=
          passes_reject h rfl _
        exact hprivate.bind
          (judged_fieldValue found.ty value ty _ (hprivate.account.congr (by simp)))
      · exact judged_fieldValue found.ty value ty true (h.congr (by simp))

theorem judged_literalFields (d : StructDef) (module : String) :
    (fields : List (String × Expr)) → (tys : List (Option Ty)) → fields.length = tys.length →
      ∀ {c : Checker} {q : Prop} (seen : List String), Account start c (q ∨ none ∈ tys) →
        Judged start c (literalFields d module seen fields tys) (fun ok => q ∨ ok = false)
          fun _ _ => True
  | [], [], _, _, _, _, h => .ofPure h (by simp) trivial
  | (field, value) :: fields, ty :: tys, hlen, c, q, seen, h => by
    have hfield := judged_literalField (q := q ∨ none ∈ tys) d module seen field value ty
      (h.congr (by grind))
    have hrest := judged_literalFields d module fields tys (Nat.succ.inj hlen) (field :: seen)
      (hfield.account.congr or_right_comm)
    exact hfield.bind hrest.conj

theorem known_of_structOfSymbol? (h : c.WellTyped) {symbol : Symbol} {d : StructDef}
    (hd : structOfSymbol? c symbol = some d) : d.ty.KnownIn c.structs := by
  unfold structOfSymbol? at hd
  split at hd
  · obtain ⟨id, -, hget⟩ := Option.bind_eq_some_iff.mp hd
    unfold StructDef.ty
    rw [h.ids id d hget]
    exact .struct hget
  · cases hd

theorem typed_structLiteral {symbol : Option Symbol}
    (h : Account start c (symbol = none ∨ none ∈ tys)) (name : String)
    (fields : List (String × Expr)) (hlen : fields.length = tys.length) :
    Typed start c (structLiteral symbol name fields tys span scope) := by
  cases symbol with
  | none => exact yields_none h (.inl rfl)
  | some symbol =>
    refine .ofGet ?_
    split
    · exact yields_fail h rfl span
    next d hd =>
      have hfields := judged_literalFields d (c.moduleAt scope) fields tys hlen [] h
      refine hfields.bind ?_
      dsimp only
      split
      · exact yields_fail hfields.account rfl span
      · split
        next hok =>
          have hty := known_of_structOfSymbol? h.wellTyped hd
          exact yields_some hfields.account (by simp [hok]) (hty.mono hfields.extend)
        next hok => exact yields_none hfields.account (.inr (by simpa using hok))

/-! ### Operators -/

theorem known_of_binary {op : BinaryOp} {lhs rhs ty : Ty} (hlhs : lhs.KnownIn t)
    (h : op.resultType lhs rhs = .ok ty) : ty.KnownIn t := by
  unfold BinaryOp.resultType at h
  split at h
  · split at h
    next wider hwider =>
      cases h
      simp only [Ty.promote?, Option.bind_eq_bind, Option.bind_eq_some_iff,
        Option.map_eq_some_iff] at hwider
      obtain ⟨_, -, _, -, name, -, rfl⟩ := hwider
      exact .basic name
    · split at h
      · cases h
        exact hlhs
      · cases h
  · split at h
    · cases h
      exact .basic _
    · cases h
  · split at h
    · cases h
      exact .basic _
    · cases h

theorem known_of_unary {op : UnaryOp} {operand ty : Ty} (hoperand : operand.KnownIn t)
    (h : op.resultType operand = .ok ty) : ty.KnownIn t := by
  cases op with
  | neg =>
    simp only [UnaryOp.resultType] at h
    split at h
    · cases h
      exact hoperand
    · cases h
  | not =>
    simp only [UnaryOp.resultType] at h
    split at h
    · cases h
      exact .basic _
    · cases h
  | deref =>
    cases hoperand with
    | pointer hpointee =>
      cases h
      exact hpointee
    | _ => cases h
  | addrOf =>
    cases h
    exact .pointer hoperand

theorem typed_binary {lhs rhs : Option Ty} (h : Account start c (lhs = none ∨ rhs = none))
    (hlhs : ∀ ty ∈ lhs, ty.KnownIn c.structs) (op : BinaryOp) :
    Typed start c (binary op lhs rhs span) := by
  cases lhs with
  | none => exact yields_none h (.inl rfl)
  | some lhs =>
    cases rhs with
    | none => exact yields_none h (.inr rfl)
    | some rhs =>
      refine yields_settle h (by simp) span ?_ ?_
      · intro cause herror
        exact Cause.isFault_of_isOperand (BinaryOp.isOperand_of_error herror)
      · intro ty hok
        exact known_of_binary (hlhs lhs rfl) hok

theorem judged_useOf {p : Prop} (h : Account start c p) (e : Expr) :
    Judged start c (useOf e scope) (fun _ => p) fun _ _ => True := by
  unfold useOf
  split
  · exact .ofMemoryOp h (.checkUse ..)
  · exact .ofPure h Iff.rfl trivial

theorem typed_unary (h : Account start c (ty = none)) (hty : ∀ x ∈ ty, x.KnownIn c.structs)
    (op : UnaryOp) (operand : Expr) : Typed start c (unary op operand ty span scope) := by
  cases ty with
  | none => exact yields_none h rfl
  | some ty =>
    have hsettle : ∀ {d}, Account start d (some ty = none) → ty.KnownIn d.structs →
        Typed start d (settle (op.resultType ty) span) := by
      intro d h hknown
      refine yields_settle h nofun span ?_ ?_
      · intro cause herror
        exact Cause.isFault_of_isOperand (UnaryOp.isOperand_of_error herror)
      · intro result hok
        exact known_of_unary hknown hok
    unfold unary
    dsimp only
    split
    · have huse := judged_useOf scope h operand
      exact huse.bind (hsettle huse.account ((hty ty rfl).mono huse.extend))
    · exact hsettle h (hty ty rfl)

theorem typed_index {indexTy : Option Ty} (h : Account start c (objectTy = none ∨ indexTy = none))
    (hty : ∀ ty ∈ objectTy, ty.KnownIn c.structs) (object index : Expr) :
    Typed start c (Check.index object index objectTy indexTy scope) := by
  cases objectTy with
  | none => exact yields_none h (.inl rfl)
  | some objectTy =>
    cases indexTy with
    | none => exact yields_none h (.inr rfl)
    | some indexTy =>
      unfold Check.index
      dsimp only
      split
      · exact yields_fail h rfl _
      · split
        · exact yields_fail h rfl _
        next element helement =>
          have huse := judged_useOf scope h object
          have hknown := ((hty objectTy rfl).element? helement).mono huse.extend
          exact huse.bind (yields_some huse.account (by simp) hknown)

theorem judged_bindValue {p : Prop} (h : Account start c p) (name : String) (value : Expr)
    (owns sharesPointer : Bool) :
    Judged start c (bindValue name value owns sharesPointer span scope) (fun _ => p)
      fun _ _ => True := by
  unfold bindValue
  split
  · exact .ofMemoryOp h (.allocate ..)
  · split
    · split
      · exact .ofMemoryOp h (.rename ..)
      · exact .ofPure h Iff.rfl trivial
    · exact .ofPure h Iff.rfl trivial

theorem typed_assign {targetTy valueTy : Option Ty}
    (h : Account start c (targetTy = none ∨ valueTy = none))
    (hty : ∀ ty ∈ targetTy, ty.KnownIn c.structs) (target value : Expr) (owns : Checker → Bool) :
    Typed start c (assign target value targetTy valueTy owns scope) := by
  cases targetTy with
  | none => exact yields_none h (.inl rfl)
  | some targetTy =>
    cases valueTy with
    | none => exact yields_none h (.inr rfl)
    | some valueTy =>
      unfold assign
      dsimp only
      split
      · exact yields_fail h rfl _
      · split
        next name _ =>
          refine .ofGet ?_
          have hbind := judged_bindValue target.span scope h name value (owns c)
            (targetTy.isPointer && valueTy.isPointer)
          exact hbind.bind (yields_some hbind.account (by simp) ((hty _ rfl).mono hbind.extend))
        · exact yields_some h (by simp) (hty _ rfl)

/-! ### Ranges and arrays -/

theorem judged_wantInt (h : Account start c q) (e : Expr) (ty : Ty) :
    Judged start c (wantInt e ty) (fun ok => q ∨ ok = false) fun _ _ => True := by
  unfold wantInt
  split
  · exact .ofPure h (by simp) trivial
  · exact .ofReject h rfl _ (.inr rfl)

theorem typed_range {startTy stopTy : Option Ty}
    (h : Account start c (startTy = none ∨ stopTy = none)) (lo hi : Expr) :
    Typed start c (range lo hi startTy stopTy) := by
  cases startTy with
  | none => exact yields_none h (.inl rfl)
  | some startTy =>
    cases stopTy with
    | none => exact yields_none h (.inr rfl)
    | some stopTy =>
      have hlo := judged_wantInt h lo startTy
      have hhi := judged_wantInt hlo.account hi stopTy
      refine hlo.bind (hhi.bind ?_)
      split
      next hok => exact yields_some hhi.account (by simp_all) (.array _ (.basic _))
      next hok => exact yields_none hhi.account (by simp_all; grind)

theorem passes_arrayElement (h : Account start c (ty = none)) (expected : Option Ty) (e : Expr) :
    Passes start c (arrayElement expected e ty) := by
  unfold arrayElement
  split
  · exact .ofPure h (by simp) trivial
  · exact .ofPure h (by simp) trivial
  · split
    · exact .ofPure h (by simp) trivial
    · exact .ofReject h rfl _ rfl

theorem yields_arraySize (h : Account start c (ty = none)) (size : Expr) :
    Yields (fun _ _ => True) start c (arraySize size ty) := by
  cases ty with
  | none => exact yields_none h rfl
  | some ty =>
    unfold arraySize
    dsimp only
    split
    · exact yields_some h nofun trivial
    · split
      · exact yields_some h nofun trivial
      · exact yields_fail h rfl _

/-! ### Arguments -/

theorem judged_argumentTypes : (params : List Ty) → (args : List Expr) → (tys : List (Option Ty)) →
      params.length = args.length → args.length = tys.length →
      ∀ {c : Checker} {q : Prop}, Account start c (q ∨ none ∈ tys) →
        Judged start c (argumentTypes params args tys) (fun ok => q ∨ ok = false) fun _ _ => True
  | [], [], [], _, _, _, _, h => .ofPure h (by simp) trivial
  | param :: params, arg :: args, ty :: tys, hparams, htys, c, q, h => by
    have hrest : ∀ {d} (ok : Bool), Account start d ((q ∨ ok = false) ∨ none ∈ tys) →
        Judged start d (do let rest ← argumentTypes params args tys; return ok && rest)
          (fun ok => q ∨ ok = false) fun _ _ => True := by
      intro d ok h
      exact (judged_argumentTypes params args tys (Nat.succ.inj hparams) (Nat.succ.inj htys) h).conj
    unfold argumentTypes
    dsimp only
    cases ty with
    | none => exact hrest false (h.congr (by simp))
    | some ty =>
      dsimp only
      split
      · exact hrest true (h.congr (by simp))
      · have hreject : Passes start c (reject (.mismatch param ty) arg.span) :=
          passes_reject h rfl _
        exact hreject.bind (hrest false (hreject.account.congr (by simp)))

theorem judged_arguments (h : Account start c (q ∨ none ∈ tys)) (callee : String) (params : List Ty)
    (hlen : args.length = tys.length) :
    Judged start c (arguments callee params args tys span) (fun ok => q ∨ ok = false)
      fun _ _ => True := by
  unfold arguments
  split
  · exact .ofReject h rfl span (.inr rfl)
  next hcount =>
    exact judged_argumentTypes params args tys (by simpa using hcount) hlen h

/-- Handing pointers over is work of the memory analysis. -/
theorem judged_transfer (consumes : Nat → Bool) :
    (args : List Expr) → (tys : List (Option Ty)) → ∀ (index : Nat) {c : Checker} {p : Prop},
      Account start c p →
        Judged start c (transfer consumes scope index args tys) (fun _ => p) fun _ _ => True
  | [], _, _, _, _, h => .ofPure h Iff.rfl trivial
  | _ :: _, [], _, _, _, h => .ofPure h Iff.rfl trivial
  | arg :: args, ty :: tys, index, c, p, h => by
    unfold transfer
    dsimp only
    split
    · split
      next name _ =>
        refine (Judged.ofMemoryOp h (.release scope name arg.span .transfer)).andThen fun h _ => ?_
        exact judged_transfer consumes args tys (index + 1) h
      · exact judged_transfer consumes args tys (index + 1) h
    · exact judged_transfer consumes args tys (index + 1) h

/-! ### Calls -/

theorem typed_alloc (h : Account start c (none ∈ tys))
    (hlen : args.length = tys.length) : Typed start c (alloc args tys span) := by
  have hargs := judged_arguments (q := False) span (h.congr (by simp)) "alloc" [.int] hlen
  refine hargs.bind ?_
  split
  next hok => exact yields_some hargs.account (by simp [hok]) (.pointer (.basic _))
  next hok => exact yields_none hargs.account (.inr (by simpa using hok))

theorem typed_free (h : Account start c (none ∈ tys))
    (hlen : args.length = tys.length) : Typed start c (free args tys span scope) := by
  unfold free
  split
  next arg ty =>
    split
    · exact yields_none h (by simp)
    next ty =>
      split
      · exact yields_fail h rfl _
      · have hok : ¬none ∈ [some ty] := by simp
        split
        next name _ =>
          refine .ofGet ?_
          cases c.walk.deferTarget with
          | some target =>
            have hdefer := Judged.ofMemoryOp h (.deferFree target name span)
            exact hdefer.bind (yields_some hdefer.account hok (.basic _))
          | none =>
            have hfree := Judged.ofMemoryOp h (.release scope name span .explicit)
            exact hfree.bind (yields_some hfree.account hok (.basic _))
        · exact yields_some h hok (.basic _)
  · exact yields_fail h rfl span

/-- The result of a call whose arguments have been judged. -/
theorem typed_verdict {ok : Bool} (h : Account start c (q ∨ ok = false)) (hq : ¬q) {ret : Ty}
    (hret : ret.KnownIn c.structs) : Typed start c (pure (if ok then some ret else none)) := by
  cases ok with
  | true => exact yields_some h (by simp [hq]) hret
  | false => exact yields_none h (.inr rfl)

theorem typed_plainCall {calleeTy : Option Ty} (h : Account start c (calleeTy = none ∨ none ∈ tys))
    (hty : ∀ ty ∈ calleeTy, ty.KnownIn c.structs) (callee : Expr)
    (hlen : args.length = tys.length) :
    Typed start c (plainCall callee calleeTy args tys span scope) := by
  unfold plainCall
  split
  · exact yields_none h (.inl rfl)
  next params ret =>
    have hargs := judged_arguments span h (calleeName callee) params hlen
    have hret := (hty _ rfl).ret.mono hargs.extend
    refine hargs.bind (.ofGet ?_)
    dsimp only
    cases namedSymbol? ((arguments (calleeName callee) params args tys span).exec c) callee
      scope with
    | some symbol =>
      have hmove := judged_transfer scope symbol.consumesArg args tys 0 hargs.account
      exact hmove.bind (typed_verdict hmove.account nofun (hret.mono hmove.extend))
    | none => exact typed_verdict hargs.account nofun hret
  · exact yields_fail h rfl _

/-! ### Method calls -/

/-- The receiver leads to a struct with a definition, or has a known type if it has one. -/
def Receiver.KnownIn (t : StructTable) : Receiver → Prop
  | .type id => ∃ d, t.get? id = some d
  | .value ty => ∀ x ∈ ty, x.KnownIn t

theorem Receiver.KnownIn.mono {u : StructTable} (hu : t.Extends u) {receiver : Receiver}
    (h : receiver.KnownIn t) : receiver.KnownIn u := by
  cases receiver with
  | type id =>
    obtain ⟨d, hd⟩ := h
    obtain ⟨d', hd', -⟩ := hu id d hd
    exact ⟨d', hd'⟩
  | value ty => exact fun x hx => (h x hx).mono hu

/-- A method with `self` has a parameter to take it, so that nothing is given up in silence. -/
theorem yields_explicitParams (h : Account start c False) {found : StructMember}
    (hfound : found.WellTyped c.structs) {params : List Ty} {ret : Ty}
    (hty : found.ty = .function params ret) (receiver : Option Ty) :
    Yields (fun _ _ => True) start c (explicitParams found params receiver span) := by
  unfold explicitParams
  split
  next receiver returnsOwnership takesOwnership ownedParams hkind =>
    obtain ⟨self, rest, ret', hself⟩ := hfound.self _ hkind rfl
    rw [hty] at hself
    cases hself
    dsimp only
    split
    · exact yields_some h not_false trivial
    · exact yields_fail h rfl span
  · exact yields_some h not_false trivial

theorem typed_memberCall (h : Account start c (none ∈ tys))
    (hid : ∃ d, c.structs.get? id = some d) (callee : Expr) (receiver : Option Ty) (member : String)
    (hlen : args.length = tys.length) :
    Typed start c (memberCall callee id receiver member args tys span scope) := by
  have hmember := (yields_structMember callee.span scope (.refl h.wellTyped) hid member).after h
  refine hmember.bind ?_
  cases hfound : (structMember id member callee.span scope).eval c with
  | none => exact yields_none hmember.account (.inr hfound)
  | some found =>
    have hwell := hmember.good found hfound
    have hrecord := Judged.ofRecord (p := none ∈ tys) (hmember.account.congr (by simp [hfound]))
      callee.id hwell.known
    refine hrecord.bind ?_
    split
    next params ret hty =>
      have hret : ret.KnownIn _ := (hty ▸ hwell.known).ret
      have hexplicit := (yields_explicitParams callee.span (.refl hrecord.account.wellTyped) hwell
        hty receiver).after hrecord.account
      refine hexplicit.bind ?_
      split
      next hnone => exact yields_none hexplicit.account (.inr hnone)
      next params' offset hsome =>
        have hargs := judged_arguments (q := False) span
          (hexplicit.account.congr (by rw [hsome]; simp)) member params' hlen
        have hmove := judged_transfer scope (fun i => found.consumesParam (i + offset)) args tys 0
          hargs.account
        have hret := ((hret.mono hexplicit.extend).mono hargs.extend).mono hmove.extend
        exact hargs.bind (hmove.bind (typed_verdict hmove.account not_false hret))
    · exact yields_fail hrecord.account rfl _

theorem typed_methodCall {receiver : Receiver}
    (h : Account start c (receiver = .value none ∨ none ∈ tys))
    (hreceiver : receiver.KnownIn c.structs) (callee : Expr) (hlen : args.length = tys.length) :
    Typed start c (methodCall callee receiver args tys span scope) := by
  cases receiver with
  | type id =>
    exact typed_memberCall span scope (h.congr (by simp)) hreceiver callee none _ hlen
  | value ty =>
    cases ty with
    | none => exact yields_none h (.inl rfl)
    | some ty =>
      unfold methodCall
      dsimp only
      split
      · exact yields_fail h rfl _
      next id hid =>
        have hstruct := (hreceiver ty rfl).structId? hid
        exact typed_memberCall span scope (h.congr (by simp)) hstruct callee (some ty) _ hlen

/-! ### Forms of a call -/

/-- Where `alloc` or `free` is called, the callee is a name that is bound to a function. -/
theorem callee_of_builtin (h : callForm c callee scope = .alloc ∨ callForm c callee scope = .free) :
    ∃ name symbol, callee.kind = .ident name ∧ c.scopes.lookup? scope name = some symbol ∧
      symbol.isType = false := by
  unfold callForm at h
  split at h
  next name hname =>
    cases hlookup : c.scopes.lookup? scope name with
    | none => simp [hlookup] at h
    | some symbol =>
      refine ⟨name, symbol, hname, hlookup, ?_⟩
      by_cases hkind : symbol.kind = .builtin
      · simp [Symbol.isType, hkind]
      · simp [hlookup, hkind] at h
  · split at h <;> simp at h
  · simp at h

/-- A method is called on a member. -/
theorem callee_of_method (h : callForm c callee scope = .method) :
    ∃ object member, callee.kind = .member object member := by
  unfold callForm at h
  split at h
  · split at h
    · split at h
      · cases h
      · split at h <;> cases h
    · cases h
  next object member hmember => exact ⟨object, member, hmember⟩
  · cases h

/-- The struct that an object names has a definition. -/
theorem definition_of_namedStruct? (h : c.WellTyped) {object : Expr}
    (hid : namedStruct? c object scope = some id) : ∃ d, c.structs.get? id = some d := by
  unfold namedStruct? at hid
  split at hid
  · cases hid
  next symbol hsymbol =>
    have hdeclared : c.scopes.Declares symbol := by
      unfold namedSymbol? at hsymbol
      split at hsymbol
      · exact declares_of_lookup? hsymbol
      · exact declares_of_qualified? hsymbol
      · cases hsymbol
    split at hid
    · exact (h.symbols symbol hdeclared).known.structId? hid
    · cases hid

end Warden.Check

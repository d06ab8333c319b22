import Warden.Proofs.Emitted
import Warden.Proofs.Encapsulation

/-!
# Members through a pointer

A member of a struct can be reached from a pointer in two ways: `p.f` follows the pointer by itself,
and `(*p).f` says so. The two are typed alike and find the same faults of the rules, since both end
in the same rule for the struct behind the pointer (`check_direct`, `check_explicit`). But only to
follow a pointer explicitly is to use it: where `p` has been freed, `(*p).f` is one use after free
and `p.f` is none. `auto_dereference_agrees_iff` says exactly when the two agree, and
`freed_pointer_read_unnoticed` is a program that reads freed memory and in which nothing is found.
-/

namespace Warden

open CheckM Check

variable {ty : Ty}

/-! ### The use of a name -/

theorem Ledger.useCause?_eq (l : Ledger) (name : String) :
    l.useCause? name = ((l.allocation? name).filter (·.isFreed)).map fun a =>
      .useAfterFree name a.freeLine := by
  unfold useCause?
  cases l.allocation? name with
  | none => rfl
  | some a => cases hfreed : a.isFreed <;> simp [Option.filter_some, hfreed]

namespace Checker

/-- The record that answers for a name used in a scope. -/
def recordBehind? (c : Checker) (scope : ScopeId) (name : String) : Option Allocation :=
  (c.scopes.ledgerFor? scope name).bind fun id =>
    (c.scopes.scope id).ledger.bind (·.allocation? name)

/-- The record behind a name, if it has been freed. -/
def freedBehind? (c : Checker) (scope : ScopeId) (name : String) : Option Allocation :=
  (c.recordBehind? scope name).filter (·.isFreed)

/-- A use is an offence exactly if the record behind the name has been freed. -/
theorem checkUse_eq (c : Checker) (scope : ScopeId) (name : String) (span : Span) :
    c.checkUse scope name span =
      { c with
        context := c.context.reportAny span
          ((c.freedBehind? scope name).map fun a => .useAfterFree name a.freeLine) } := by
  simp only [checkUse, freedBehind?, recordBehind?, Ledger.useCause?_eq]
  cases c.scopes.ledgerFor? scope name with
  | none => rfl
  | some id => cases hl : (c.scopes.scope id).ledger <;> simp [hl]

end Checker

/-! ### Members of the struct behind a pointer -/

namespace Check

/-- Why a scope cannot use a member of a struct. -/
def memberFault? (c : Checker) (id : StructId) (member : String) (scope : ScopeId) :
    Option Cause :=
  (c.structs.get? id).bind fun d =>
    match d.member? member with
    | none => some (.noStructMember d.name member)
    | some found =>
      if !found.isPublic && d.module != c.moduleAt scope then
        some (.privateMember found.isMethod member d.name d.module)
      else none

/-- The type of a struct's member, as far as a scope can use it. -/
def memberType? (c : Checker) (id : StructId) (member : String) (scope : ScopeId) : Option Ty :=
  (c.structs.get? id).bind fun d => (d.member? member).bind fun found =>
    if !found.isPublic && d.module != c.moduleAt scope then none else some found.ty

variable (id : StructId) (member : String) (span : Span) (scope : ScopeId) (c : Checker)

theorem structMemberType_spec :
    (structMemberType id member span scope).eval c = memberType? c id member scope ∧
      (structMemberType id member span scope).exec c =
        { c with context := c.context.reportAny span (memberFault? c id member scope) } := by
  rw [structMemberType, eval_bind, eval_pure, exec_bind, exec_pure, structMember, eval_get_bind,
    exec_get_bind, memberType?, memberFault?]
  cases c.structs.get? id with
  | none => exact ⟨rfl, rfl⟩
  | some d =>
    simp only [Option.bind_some]
    cases d.member? member with
    | none => exact ⟨rfl, rfl⟩
    | some found =>
      simp only [Option.bind_some]
      by_cases hprivate : (!found.isPublic && d.module != c.moduleAt scope) = true
      · simp only [if_pos hprivate]
        exact ⟨rfl, rfl⟩
      · simp only [if_neg hprivate]
        exact ⟨rfl, rfl⟩

theorem moduleAt_reportAny (types : TypeTable) (place : Span) (cause? : Option Cause) :
    Checker.moduleAt { c with types, context := c.context.reportAny place cause? } scope =
      c.moduleAt scope := by
  cases cause? <;> rfl

theorem tag_memberFault? {cause : Cause} (h : cause ∈ memberFault? c id member scope) :
    cause.tag ≠ .useAfterFree := by
  obtain ⟨d, -, hcause⟩ := Option.bind_eq_some_iff.mp h
  split at hcause
  · cases hcause
    simp [Cause.tag]
  · split at hcause
    · cases hcause
      simp [Cause.tag]
    · cases hcause

end Check

/-! ### The two ways -/

/-- To record the type of an expression changes neither the type nor what has been found. -/
theorem check_eq_kind (scope : ScopeId) (id : NodeId) (span : Span) (kind : ExprKind)
    (c : Checker) : (Expr.check scope ⟨id, span, kind⟩).eval c = (kind.check span scope).eval c ∧
      (Expr.check scope ⟨id, span, kind⟩).emitted c = (kind.check span scope).emitted c := by
  rw [Expr.check]
  refine ⟨by rw [eval_bind, eval_recorded], ?_⟩
  rw [emitted, emitted, exec_bind]
  cases (kind.check span scope).eval c <;> rfl

/-- The member of a value is that of the struct which the value is or points to. -/
theorem check_valueMember {c : Checker} {scope : ScopeId} {object : Expr} {member : String}
    {span : Span} (heval : (staticMember object member span scope).eval c = none)
    (hty : (object.check scope).eval c = some ty) {id : StructId} (hid : ty.structId? = some id) :
    (ExprKind.check span scope (.member object member)).eval c =
        (structMemberType id member span scope).eval ((object.check scope).exec c) ∧
      (ExprKind.check span scope (.member object member)).exec c =
        (structMemberType id member span scope).exec ((object.check scope).exec c) := by
  have hexec := exec_staticMember_of_none heval
  constructor
  · simp only [ExprKind.check, eval_bind, heval, hexec, hty, valueMember, hid]
  · simp only [ExprKind.check, exec_bind, heval, hexec, hty, valueMember, hid]

section

variable {c : Checker} {scope : ScopeId} {p : String} {i : NodeId} {place : Span} {id : StructId}
  {struct : String}

section

variable (h : (Expr.check scope ⟨i, place, .ident p⟩).eval c = some ty)

include h

/-- A name that has a type as a value. -/
theorem lookup?_of_eval_ident :
    ∃ symbol, c.scopes.lookup? scope p = some symbol ∧ symbol.isType = false ∧
      symbol.ty = ty := by
  simp only [Expr.check, ExprKind.check, Check.ident, eval_bind, eval_recorded, eval_get,
    exec_get] at h
  split at h
  next symbol hlookup =>
    split at h
    · cases h
    next htype =>
      refine ⟨symbol, hlookup, by simpa using htype, ?_⟩
      simpa using h
  · cases h

theorem exec_ident : (Expr.check scope ⟨i, place, .ident p⟩).exec c = c.record i ty := by
  obtain ⟨symbol, hlookup, htype, rfl⟩ := lookup?_of_eval_ident h
  rw [Expr.check, exec_bind, ExprKind.check, Check.ident, eval_get_bind, exec_get_bind, hlookup]
  simp only [htype]
  rfl

/-- A value is no enum, struct or module. -/
theorem eval_staticMember_of_eval_ident (member : String) (span : Span) :
    (staticMember ⟨i, place, .ident p⟩ member span scope).eval c = none := by
  obtain ⟨symbol, hlookup, htype, rfl⟩ := lookup?_of_eval_ident h
  simp only [staticMember, eval_bind, eval_get, exec_get, hlookup]
  cases hkind : symbol.kind with
  | struct => simp [Symbol.isType, hkind] at htype
  | enum members => simp [Symbol.isType, hkind] at htype
  | _ => rfl

end

variable (hp : (Expr.check scope ⟨i, place, .ident p⟩).eval c = some (.pointer (.struct id struct)))
  (j k : NodeId) (span around : Span) (member : String)

include hp

/-- `p.f` is the member of the struct that `p` points to. -/
theorem check_direct :
    let direct := Expr.check scope ⟨j, span, .member ⟨i, place, .ident p⟩ member⟩
    direct.eval c = memberType? c id member scope ∧
      direct.emitted c = c.context.filed span (memberFault? c id member scope) := by
  obtain ⟨hvalue, hemitted⟩ :=
    check_eq_kind scope j span (.member ⟨i, place, .ident p⟩ member) c
  obtain ⟨hmember, hfound⟩ :=
    check_valueMember (eval_staticMember_of_eval_ident hp member span) hp rfl
  rw [exec_ident hp] at hmember hfound
  dsimp only
  rw [hvalue, hemitted]
  constructor
  · rw [hmember]
    exact (structMemberType_spec id member span scope (c.record i _)).1
  · apply emitted_eq
    rw [hfound, (structMemberType_spec ..).2]
    exact c.context.findings_reportAny span _

/-- `*p` is the struct that `p` points to, after a use of `p`. -/
theorem check_deref : ∃ types,
    (Expr.check scope ⟨k, around, .unary .deref ⟨i, place, .ident p⟩⟩).eval c =
      some (.struct id struct) ∧
    (Expr.check scope ⟨k, around, .unary .deref ⟨i, place, .ident p⟩⟩).exec c =
      { c with
        types
        context := c.context.reportAny place
          ((c.freedBehind? scope p).map fun a => .useAfterFree p a.freeLine) } := by
  have hoperand : (ExprKind.check around scope (.unary .deref ⟨i, place, .ident p⟩)).eval c =
      some (.struct id struct) := by
    simp [ExprKind.check, hp, exec_ident hp, Check.unary, Ty.isPointer, useOf, Expr.ident?,
      settle, UnaryOp.resultType]
  have huse : (ExprKind.check around scope (.unary .deref ⟨i, place, .ident p⟩)).exec c =
      (c.record i (.pointer (.struct id struct))).checkUse scope p place := by
    simp [ExprKind.check, hp, exec_ident hp, Check.unary, Ty.isPointer, useOf, Expr.ident?,
      settle, UnaryOp.resultType]
  refine ⟨(c.types.insert i (.pointer (.struct id struct))).insert k (.struct id struct), ?_, ?_⟩
  · rw [(check_eq_kind scope k around _ c).1, hoperand]
  · rw [Expr.check, exec_bind, hoperand, huse, exec_recorded_some, Checker.checkUse_eq]
    rfl

/-- `(*p).f` is the member of the struct that `p` points to, after a use of `p`. -/
theorem check_explicit :
    let explicit := Expr.check scope
      ⟨j, span, .member ⟨k, around, .unary .deref ⟨i, place, .ident p⟩⟩ member⟩
    explicit.eval c = memberType? c id member scope ∧
      explicit.emitted c =
        c.context.filed place ((c.freedBehind? scope p).map fun a => .useAfterFree p a.freeLine) ++
          c.context.filed span (memberFault? c id member scope) := by
  obtain ⟨hvalue, hemitted⟩ := check_eq_kind scope j span
    (.member ⟨k, around, .unary .deref ⟨i, place, .ident p⟩⟩ member) c
  obtain ⟨types, hobjectTy, hobject⟩ := check_deref hp k around
  obtain ⟨hmember, hfound⟩ := check_valueMember rfl hobjectTy rfl
  rw [hobject] at hmember hfound
  dsimp only
  rw [hvalue, hemitted]
  constructor
  · rw [hmember, (structMemberType_spec ..).1, memberType?, memberType?, moduleAt_reportAny]
  · apply emitted_eq
    rw [hfound, (structMemberType_spec ..).2, memberFault?, memberFault?, moduleAt_reportAny]
    simp only [Context.findings_reportAny, Context.filed_reportAny, List.append_assoc]

end

/-! ### When the two agree -/

/-- What an action finds under one tag: the notes, in order. -/
def CheckM.notes {α : Type} (m : CheckM α) (tag : Tag) (c : Checker) : List (Option String) :=
  ((m.emitted c).filter (·.tag == tag)).map (·.cause.note?)

/-- A fault of the rules is no use after free. -/
theorem filter_filed_memberFault? (id : StructId) (member : String) (span : Span)
    (scope : ScopeId) (c : Checker) :
    (c.context.filed span (memberFault? c id member scope)).filter (·.tag == .useAfterFree) =
      [] := by
  rw [List.filter_eq_nil_iff]
  intro f hf
  obtain ⟨cause, hcause, rfl⟩ := List.mem_map.mp hf
  have htag := tag_memberFault? id member scope c (Option.mem_toList.mp hcause)
  simpa [Finding.tag] using htag

/-- **A member through a pointer: following it by itself and explicitly.** Let a name `p` point to a
struct. Then `p.f` and `(*p).f` come to the same type, for every member, and to the same findings
apart from uses after free. Of these `p.f` makes none, and `(*p).f` makes one exactly if the record
that answers for `p` has been freed, with a note that says where. So the two agree in all they find
exactly if it has not been freed. -/
theorem auto_dereference_agrees_iff {c : Checker} {scope : ScopeId} {p : String} {i : NodeId}
    {place : Span} {id : StructId} {struct : String}
    (hp : (Expr.check scope ⟨i, place, .ident p⟩).eval c = some (.pointer (.struct id struct)))
    (j k : NodeId) (span around : Span) (member : String) :
    let direct := Expr.check scope ⟨j, span, .member ⟨i, place, .ident p⟩ member⟩
    let explicit := Expr.check scope
      ⟨j, span, .member ⟨k, around, .unary .deref ⟨i, place, .ident p⟩⟩ member⟩
    direct.eval c = explicit.eval c ∧
      direct.emitted c = (explicit.emitted c).filter (·.tag != .useAfterFree) ∧
      direct.notes .useAfterFree c = [] ∧
      explicit.notes .useAfterFree c = (c.freedBehind? scope p).toList.map (fun a =>
        a.freeLine.map fun line => s!"freed at line {line}") ∧
      (direct.notes .useAfterFree c = explicit.notes .useAfterFree c ↔
        c.freedBehind? scope p = none) := by
  obtain ⟨hdirect, hdirectFound⟩ := check_direct hp j span member
  obtain ⟨hexplicit, hexplicitFound⟩ := check_explicit hp j k span around member
  have hfault := filter_filed_memberFault? id member span scope c
  have hfaultKept : (c.context.filed span (memberFault? c id member scope)).filter
      (·.tag != .useAfterFree) = c.context.filed span (memberFault? c id member scope) := by
    rw [List.filter_eq_self]
    intro f hf
    simpa using List.filter_eq_nil_iff.mp hfault f hf
  dsimp only
  simp only [CheckM.notes, hdirectFound, hexplicitFound, List.filter_append, hfault, hfaultKept]
  refine ⟨hdirect.trans hexplicit.symm, ?_, rfl, ?_, ?_⟩
  · cases c.freedBehind? scope p <;> rfl
  · cases c.freedBehind? scope p <;> rfl
  · cases c.freedBehind? scope p <;> simp [Context.filed, Finding.tag, Cause.tag]

/-- The statements that declare a struct `S` with a field `x`, allocate a pointer `p` to one in line
2 and free it in line 3. -/
def freesStruct : List Stmt :=
  [⟨{}, .struct ⟨"S", false, [{ name := "x", ty := .named {} none "int" }], []⟩⟩,
    ⟨{ line := 2 }, .var {
      name := "p", ty := some (.pointer {} (.named {} none "S"))
      value := some ⟨1, {}, .call ⟨2, {}, .ident "alloc"⟩ [⟨3, {}, .int 8⟩]⟩ }⟩,
    ⟨{}, .expr ⟨4, { line := 3 }, .call ⟨5, {}, .ident "free"⟩ [⟨6, {}, .ident "p"⟩]⟩⟩]

/-- The state after these statements, in a module. -/
def structFreed : Checker :=
  Program.check { modules := [{ name := "main", body := freesStruct }] } {}

/-- In that module, `p.x` is no use of freed memory, but `(*p).x` is one. -/
theorem auto_dereference_disagrees_when_freed :
    let direct := Expr.check 1 ⟨9, {}, .member ⟨7, {}, .ident "p"⟩ "x"⟩
    let explicit := Expr.check 1 ⟨9, {}, .member ⟨8, {}, .unary .deref ⟨7, {}, .ident "p"⟩⟩ "x"⟩
    structFreed.context.findings = [] ∧ explicit.eval structFreed = some .int ∧
      direct.eval structFreed = explicit.eval structFreed ∧
      direct.notes .useAfterFree structFreed ≠ explicit.notes .useAfterFree structFreed := by
  have hp : (Expr.check 1 ⟨7, {}, .ident "p"⟩).eval structFreed =
      some (.pointer (.struct 0 "S")) := by decide +kernel
  have hfreed : structFreed.freedBehind? 1 "p" ≠ none := by decide +kernel
  obtain ⟨heval, -, -, -, hnotes⟩ := auto_dereference_agrees_iff hp 9 8 {} {} "x"
  exact ⟨by decide +kernel, by decide +kernel, heval, fun h => hfreed (hnotes.mp h)⟩

/-- A function that frees a pointer and reads a field of the struct that it has pointed to. -/
def readsFreed (object : Expr) : Program :=
  let read : Stmt := ⟨{}, .var { name := "y", value := some ⟨9, {}, .member object "x"⟩ }⟩
  { modules := [{
      name := "main"
      body := [⟨{}, .fn ⟨"f", [], .named {} none "void", ⟨{}, freesStruct ++ [read]⟩, false, false,
        false⟩⟩] }] }

/-- Nothing is found where the pointer is followed by itself. -/
theorem freed_pointer_read_unnoticed :
    ((readsFreed ⟨7, {}, .ident "p"⟩).check {}).context.findings = [] ∧
      ((readsFreed ⟨8, {}, .unary .deref ⟨7, {}, .ident "p"⟩⟩).check {}).context.findings.map
        (·.cause) = [.useAfterFree "p" (some 3)] := by
  decide +kernel

end Warden

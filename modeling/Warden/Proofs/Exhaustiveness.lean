import Warden.Proofs.Emitted
import Warden.Proofs.Encapsulation
import Warden.Proofs.Names

/-!
# Switches over an enum

A switch without `default` over a value of an enum is to name every member. Two things are compared
here: the members that the case values denote, which is a matter of declarations
(`Expr.denotes`), and the members that the check takes to be named, which are the last parts of all
values `object.member` that can be used as the enum (`namedMembers`).

What a case value denotes is the same at every stop of the walk over the cases, since bodies declare
in scopes of their own. So a member that is denoted is taken to be named, and what is listed as
missing is missing. The converse fails: the check does not ask what `object` is, and a field of type
`int` passes for the member of the same name (`field_passes_for_member`).
-/

namespace Warden

open CheckM Check

variable {d c : Checker} {ty : Ty}

theorem Ty.assignable_self (a : Ty) : a.assignable a = true := by
  have hverdict : a.verdict a = .exact := by
    unfold verdict
    rw [if_pos rfl]
  rw [assignable, hverdict]
  rfl

/-! ### Denoting a member -/

/-- The name under which a member is declared beside what the expression refers to. -/
def ExprKind.dot (member : String) : ExprKind → ExprKind
  | .ident name => .ident s!"{name}.{member}"
  | .qualified module name => .qualified module s!"{name}.{member}"
  | kind => kind

/-- Whether the expression is `object.member`, where `object` refers to the declaration `enum` in
the scope `home`, and the member of that name is declared there with it. -/
def Expr.denotes (t : ScopeTree) (scope home : ScopeId) (enum : Symbol) (member : String)
    (e : Expr) : Bool :=
  match e.kind with
  | .member object last =>
    last == member && t.declaration? scope object.kind == some (home, enum) &&
      (t.declaration? scope (object.kind.dot member)).any fun found =>
        found.1 == home && found.2.kind == .enumMember && found.2.ty == enum.ty
  | _ => false

variable {scope home : ScopeId} {enum : Symbol} {member : String} {members : List String}

theorem Expr.denotes_iff {t : ScopeTree} {e : Expr} : e.denotes t scope home enum member = true ↔
      ∃ object, e.kind = .member object member ∧
        t.declaration? scope object.kind = some (home, enum) ∧
        ∃ found, t.declaration? scope (object.kind.dot member) = some (home, found) ∧
          found.kind = .enumMember ∧ found.ty = enum.ty := by
  unfold denotes
  constructor
  · intro h
    split at h
    next object last hkind =>
      simp only [Bool.and_eq_true, beq_iff_eq, Option.any_eq_true] at h
      obtain ⟨⟨rfl, hobject⟩, ⟨i, found⟩, hfound, ⟨rfl, henumMember⟩, hty⟩ := h
      exact ⟨object, hkind, hobject, found, hfound, henumMember, hty⟩
    · cases h
  · rintro ⟨object, hkind, hobject, found, hfound, henumMember, hty⟩
    simp [hkind, hobject, hfound, henumMember, hty]

/-! ### What is denoted has the type of the enum -/

/-- After a name that refers to an enum, a member is the symbol declared for it. -/
theorem eval_staticMember {object : Expr} (henum : enum.kind = .enum members)
    (hobject : d.scopes.declaration? scope object.kind = some (home, enum)) (member : String)
    (span : Span) : (staticMember object member span scope).eval d =
      some ((d.scopes.declaration? scope (object.kind.dot member)).map (·.2.ty)) := by
  cases hkind : object.kind with
  | ident name =>
    have hlookup : d.scopes.lookup? scope name = some enum := by
      rw [hkind] at hobject
      exact congrArg (Option.map (·.2)) hobject
    rw [staticMember, eval_get_bind]
    simp only [hkind, hlookup, henum, eval_bind, eval_pure]
    simp only [ScopeTree.lookup?, ScopeTree.declaration?, ExprKind.dot]
    cases d.scopes.locate? scope s!"{name}.{member}" <;> rfl
  | qualified module name =>
    have hqualified : d.scopes.qualified? scope module name = some enum := by
      rw [hkind] at hobject
      rw [ScopeTree.qualified?_eq]
      exact congrArg (Option.map (·.2)) hobject
    have hisEnum : (d.scopes.qualified? scope module name).any isEnumSymbol = true := by
      simp [hqualified, isEnumSymbol, Symbol.enumMembers?, henum]
    rw [eval_staticMember_enum member span hkind hisEnum, ScopeTree.qualified?_eq, Option.map_map]
    rfl
  | _ => simp [hkind, ScopeTree.declaration?] at hobject

/-- A value that denotes a member of an enum has the type of the enum. -/
theorem Expr.eval_check_of_denotes {e : Expr} (henum : enum.kind = .enum members)
    (h : e.denotes d.scopes scope home enum member = true) :
    (e.check scope).eval d = some enum.ty := by
  obtain ⟨id, span, kind⟩ := e
  obtain ⟨object, rfl, hobject, found, hfound, -, hty⟩ := denotes_iff.mp h
  have hstatic := eval_staticMember henum hobject member span
  rw [hfound, Option.map_some, hty] at hstatic
  rw [eval_check_member, hstatic]
  rfl

/-! ### Walking over the cases -/

/-- A value of a case, with the state in which it is checked. -/
structure CaseStop where
  state : Checker
  value : Expr

/-- The member that a value is taken to name: the last part of `object.member`, if that can be used
as a value of the type `ty`. -/
def CaseStop.named? (ty : Ty) (scope : ScopeId) (stop : CaseStop) : Option String :=
  match stop.value.kind with
  | .member _ member =>
    if ((stop.value.check scope).eval stop.state).any (ty.assignable ·) then some member else none
  | _ => none

theorem CaseStop.named?_eq_some_iff {stop : CaseStop} : stop.named? ty scope = some member ↔
      ∃ object, stop.value.kind = .member object member ∧
        ((stop.value.check scope).eval stop.state).any (ty.assignable ·) = true := by
  unfold named?
  split
  next object last hkind =>
    rw [hkind]
    by_cases haccepted : ((stop.value.check scope).eval stop.state).any (ty.assignable ·) = true
    · simp [haccepted]
    · simp [haccepted]
  next hother =>
    constructor
    · intro h
      cases h
    · rintro ⟨object, hkind, -⟩
      exact absurd hkind (hother object member)

section

variable (ty : Ty) (scope : ScopeId)

/-- The stops at the values of one case. -/
def valueStops : List Expr → Checker → List CaseStop
  | [], _ => []
  | value :: values, c =>
    ⟨c, value⟩ :: valueStops values ((caseValues (some ty) scope [value]).exec c)

/-- The stops at the values of all cases. The body of a case is checked before the next one. -/
def caseStops : List SwitchCase → Checker → List CaseStop
  | [], _ => []
  | ⟨_, values, body⟩ :: cases, c =>
    valueStops ty scope values c ++ caseStops cases
      ((body.checkIn scope "case").exec ((caseValues (some ty) scope values).exec c))

theorem named_caseValue (value : Expr) (c : Checker) :
    ((caseValues (some ty) scope [value]).eval c).2 =
      (CaseStop.named? ty scope ⟨c, value⟩).toList := by
  simp only [caseValues, CaseStop.named?, eval_bind]
  cases (value.check scope).eval c with
  | none => cases value.kind <;> simp
  | some found =>
    dsimp only
    by_cases h : ty.assignable found = true
    · cases value.kind <;> simp [h]
    · cases value.kind <;> simp [h]

/-- The members collected from one case are those named at its stops. -/
theorem named_valueStops (values : List Expr) (c : Checker) :
    ((caseValues (some ty) scope values).eval c).2 =
      (valueStops ty scope values c).filterMap (CaseStop.named? ty scope) := by
  induction values generalizing c with
  | nil => rfl
  | cons value values ih =>
    rw [caseValues_cons, eval_bind, eval_bind, eval_pure, ih, named_caseValue, valueStops,
      List.filterMap_cons]
    cases CaseStop.named? ty scope ⟨c, value⟩ <;> rfl

/-- The members collected from all cases are those named at the stops. -/
theorem named_caseStops (cases : List SwitchCase) (c : Checker) :
    ((checkCases scope (some ty) cases).eval c).2 =
      (caseStops ty scope cases c).filterMap (CaseStop.named? ty scope) := by
  induction cases generalizing c with
  | nil => rfl
  | cons case cases ih =>
    obtain ⟨span, values, body⟩ := case
    rw [caseStops, List.filterMap_append, ← named_valueStops, ← ih]
    rfl

theorem value_valueStops (values : List Expr) (c : Checker) :
    (valueStops ty scope values c).map (·.value) = values := by
  induction values generalizing c with
  | nil => rfl
  | cons value values ih => rw [valueStops, List.map_cons, ih]

/-- Every value of the cases has its stop. -/
theorem value_caseStops (cases : List SwitchCase) (c : Checker) :
    (caseStops ty scope cases c).map (·.value) = cases.flatMap (·.values) := by
  induction cases generalizing c with
  | nil => rfl
  | cons case cases ih =>
    obtain ⟨span, values, body⟩ := case
    rw [caseStops, List.map_append, value_valueStops, ih, List.flatMap_cons]

end

/-! ### Names mean the same at all stops -/

theorem keepsNames_caseValues (expected : Option Ty) (scope : ScopeId) (values : List Expr) :
    KeepsNames scope (caseValues expected scope values) :=
  .observing (rule_caseValues scope expected values).observes

theorem keepsNames_cases (expected : Option Ty) (scope : ScopeId) (cases : List SwitchCase) :
    KeepsNames scope (checkCases scope expected cases) := by
  induction cases with
  | nil => exact .ofPure _
  | cons case cases ih =>
    obtain ⟨span, values, body⟩ := case
    exact (keepsNames_caseValues expected scope values).bind fun _ =>
      (KeepsNames.block "case" body).bind fun _ => ih.bind fun _ => .ofPure _

section

variable {ty : Ty} {scope : ScopeId} {t : ScopeTree} (hscope : scope < t.size)

include hscope

theorem sameNames_exec {α : Type} {m : CheckM α} (hm : KeepsNames scope m)
    (h : t.SameNames c.scopes) : t.SameNames (m.exec c).scopes :=
  h.trans (hm c h.arena (Nat.lt_of_lt_of_le hscope h.size))

theorem sameNames_valueStops (values : List Expr) (h : t.SameNames c.scopes) :
    ∀ stop ∈ valueStops ty scope values c, t.SameNames stop.state.scopes := by
  induction values generalizing c with
  | nil => exact List.forall_mem_nil _
  | cons value values ih =>
    have hnext := sameNames_exec hscope (keepsNames_caseValues (some ty) scope [value]) h
    exact List.forall_mem_cons.mpr ⟨h, ih hnext⟩

theorem sameNames_caseStops (cases : List SwitchCase) (h : t.SameNames c.scopes) :
    ∀ stop ∈ caseStops ty scope cases c, t.SameNames stop.state.scopes := by
  induction cases generalizing c with
  | nil => exact List.forall_mem_nil _
  | cons case cases ih =>
    obtain ⟨span, values, body⟩ := case
    have hvalues := sameNames_exec hscope (keepsNames_caseValues (some ty) scope values) h
    have hbody := sameNames_exec hscope (.block "case" body) hvalues
    rw [caseStops, List.forall_mem_append]
    exact ⟨sameNames_valueStops hscope values h, ih hbody⟩

end

/-! ### The last step -/

/-- The members that a switch over the type of that name is to name. The enum is looked up again by
the name of its type, and types with built-in names are passed over. -/
def ScopeTree.switchMembers (t : ScopeTree) (scope : ScopeId) (name : String) : List String :=
  if Ty.isBuiltin name then [] else (t.enumMembers? scope name).getD []

/-- No member may be missing, and those that are missing are filed. -/
theorem exhaustiveness_basic (name : String) (covered : List String) (span : Span)
    (scope : ScopeId) (d : Checker) :
    let last := exhaustiveness (some (.basic name)) covered false span scope
    let missing := (d.scopes.switchMembers scope name).filter (!covered.contains ·)
    last.eval d = missing.isEmpty ∧
      last.emitted d = d.context.filed span
        (if missing = [] then none else some (.nonExhaustiveSwitch name missing)) := by
  dsimp only
  rw [emitted, exhaustiveness, ScopeTree.switchMembers]
  by_cases hbuiltin : Ty.isBuiltin name = true
  · simp [hbuiltin, Context.filed]
  · rw [if_neg hbuiltin, if_neg hbuiltin, eval_get_bind, exec_get_bind]
    cases d.scopes.enumMembers? scope name with
    | none => simp [Context.filed]
    | some members =>
      rw [Option.getD_some]
      dsimp only
      generalize members.filter (!covered.contains ·) = missing
      cases missing with
      | nil => simp [Context.filed]
      | cons member missing => simp [Context.filed, Checker.report, Context.report]

/-- The scrutinee and the cases of a switch. -/
def switchParts (scope : ScopeId) (scrutinee : Expr) (cases : List SwitchCase) :
    CheckM (Bool × List String) := do
  checkCases scope (← scrutinee.check scope) cases

section

variable {scope : ScopeId} {scrutinee : Expr} {c : Checker} {name : String}
  (hty : (scrutinee.check scope).eval c = some (.basic name)) (cases : List SwitchCase)
  (span : Span)

include hty

/-- A switch without `default` passes if its parts do and no member is missing. -/
theorem eval_switch : (Stmt.check scope ⟨span, .switch scrutinee cases none⟩).eval c =
      (((switchParts scope scrutinee cases).eval c).1 &&
        (exhaustiveness (some (.basic name)) ((switchParts scope scrutinee cases).eval c).2 false
          span scope).eval ((switchParts scope scrutinee cases).exec c)) := by
  simp only [Stmt.check, checkOptionalBlock, switchParts, eval_bind, exec_bind, eval_pure,
    exec_pure, hty, Option.isSome_some, Option.isSome_none, Bool.true_and, Bool.and_true]

/-- What is found in a switch without `default` is found in its parts, or is that members are
missing. -/
theorem emitted_switch : (Stmt.check scope ⟨span, .switch scrutinee cases none⟩).emitted c =
      (switchParts scope scrutinee cases).emitted c ++
        (exhaustiveness (some (.basic name)) ((switchParts scope scrutinee cases).eval c).2 false
          span scope).emitted ((switchParts scope scrutinee cases).exec c) := by
  have hparts : (switchParts scope scrutinee cases).Steady :=
    (rule_expr scope scrutinee).steady.bind fun ty => steady_cases scope ty cases
  have hexec : (Stmt.check scope ⟨span, .switch scrutinee cases none⟩).exec c =
      (exhaustiveness (some (.basic name)) ((switchParts scope scrutinee cases).eval c).2 false
        span scope).exec ((switchParts scope scrutinee cases).exec c) := by
    simp only [Stmt.check, checkOptionalBlock, switchParts, eval_bind, exec_bind, exec_pure, hty,
      Option.isSome_none]
  apply emitted_eq
  rw [hexec, (reports_exhaustiveness scope _ _ false span).isRule.steady.findings, hparts.findings,
    List.append_assoc]

end

/-! ### Named and denoted members -/

/-- The members that the cases of a switch over the type `ty` are taken to name. -/
def namedMembers (ty : Ty) (scope : ScopeId) (scrutinee : Expr) (cases : List SwitchCase)
    (c : Checker) : List String :=
  (caseStops ty scope cases ((scrutinee.check scope).exec c)).filterMap (CaseStop.named? ty scope)

/-- Whether one of the case values denotes the member. -/
def denotedIn (cases : List SwitchCase) (t : ScopeTree) (scope home : ScopeId) (enum : Symbol)
    (member : String) : Bool :=
  (cases.flatMap (·.values)).any (·.denotes t scope home enum member)

section

variable {home : ScopeId} {enum : Symbol}

variable {c : Checker} {scope : ScopeId} {scrutinee : Expr} {cases : List SwitchCase}
  {member : String}

/-- Where case values with the name of a member denote it, the member is denoted if it is named. -/
theorem denotedIn_of_named
    (hvalues : ∀ value ∈ cases.flatMap (·.values), ∀ object, value.kind = .member object member →
      value.denotes c.scopes scope home enum member = true)
    (h : member ∈ namedMembers ty scope scrutinee cases c) :
    denotedIn cases c.scopes scope home enum member = true := by
  obtain ⟨stop, hstop, hnamed⟩ := List.mem_filterMap.mp h
  obtain ⟨object, hkind, -⟩ := CaseStop.named?_eq_some_iff.mp hnamed
  have hvalue : stop.value ∈ cases.flatMap (·.values) := by
    rw [← value_caseStops ty scope cases ((scrutinee.check scope).exec c)]
    exact List.mem_map_of_mem hstop
  exact List.any_eq_true.mpr ⟨stop.value, hvalue, hvalues stop.value hvalue object hkind⟩

variable (hc : c.Attained) (hscope : scope < c.scopes.size)

include hc hscope

theorem sameNames_switchParts :
    c.scopes.SameNames ((switchParts scope scrutinee cases).exec c).scopes := by
  have hparts : KeepsNames scope (switchParts scope scrutinee cases) :=
    (KeepsNames.observing (rule_expr scope scrutinee).observes).bind fun ty =>
      keepsNames_cases ty scope cases
  exact hparts c hc.arena hscope

theorem switchMembers_eq (h : c.scopes.SameNames d.scopes) (name : String) :
    d.scopes.switchMembers scope name = c.scopes.switchMembers scope name := by
  rw [ScopeTree.switchMembers, ScopeTree.switchMembers,
    h.enumMembers?_eq hscope hc.arena hc.reachable.modulesKnown]

/-- A member that is denoted is taken to be named. -/
theorem named_of_denotedIn {members : List String} (henum : enum.kind = .enum members)
    (h : denotedIn cases c.scopes scope home enum member = true) :
    member ∈ namedMembers enum.ty scope scrutinee cases c := by
  obtain ⟨value, hvalue, hdenotes⟩ := List.any_eq_true.mp h
  rw [← value_caseStops enum.ty scope cases ((scrutinee.check scope).exec c)] at hvalue
  obtain ⟨stop, hstop, rfl⟩ := List.mem_map.mp hvalue
  have hsame := sameNames_caseStops hscope cases
    (KeepsNames.observing (rule_expr scope scrutinee).observes c hc.arena hscope) stop hstop
  have hstays : stop.value.denotes stop.state.scopes scope home enum member = true := by
    have hdeclaration := hsame.declaration?_eq hscope hc.arena hc.reachable.modulesKnown
    simpa only [Expr.denotes, hdeclaration] using hdenotes
  obtain ⟨object, hkind, -⟩ := Expr.denotes_iff.mp hdenotes
  refine List.mem_filterMap.mpr ⟨stop, hstop, CaseStop.named?_eq_some_iff.mpr ⟨object, hkind, ?_⟩⟩
  rw [Expr.eval_check_of_denotes henum hstays, Option.any_some]
  exact enum.ty.assignable_self

variable (cases) in
/-- A switch passes if its parts do and its cases name all members; the others are filed. -/
theorem check_switch {name : String}
    (hty : (scrutinee.check scope).eval c = some (.basic name)) (span : Span) :
    let switch := Stmt.check scope ⟨span, .switch scrutinee cases none⟩
    let parts := switchParts scope scrutinee cases
    let named := namedMembers (.basic name) scope scrutinee cases c
    let listed := (c.scopes.switchMembers scope name).filter (!named.contains ·)
    switch.eval c = ((parts.eval c).1 && listed.isEmpty) ∧
      switch.emitted c = parts.emitted c ++ (parts.exec c).context.filed span
        (if listed = [] then none else some (.nonExhaustiveSwitch name listed)) := by
  intro switch parts named listed
  have hnamed : (parts.eval c).2 = named := by
    rw [show parts = switchParts scope scrutinee cases from rfl, switchParts, eval_bind, hty]
    exact named_caseStops _ scope cases _
  obtain ⟨hlast, hfiled⟩ := exhaustiveness_basic name named span scope (parts.exec c)
  rw [switchMembers_eq hc hscope (sameNames_switchParts hc hscope)] at hlast hfiled
  constructor
  · rw [eval_switch hty cases span, hnamed, hlast]
  · rw [emitted_switch hty cases span, hnamed, hfiled]

end

/-- Two ways to strike members from a list come to the same if they strike the same ones. -/
theorem filter_eq_filter_iff {named : List String} {denoted : String → Bool}
    (h : ∀ member, denoted member = true → member ∈ named) :
    members.filter (!named.contains ·) = members.filter (!denoted ·) ↔
      ∀ member ∈ members, member ∈ named → denoted member = true := by
  constructor
  · intro heq member hmember hnamed
    by_contra hdenoted
    have hstays : member ∈ members.filter (!denoted ·) :=
      List.mem_filter.mpr ⟨hmember, by simpa using hdenoted⟩
    rw [← heq, List.mem_filter] at hstays
    simp [hnamed] at hstays
  · intro hall
    refine List.filter_congr fun member hmember => ?_
    rw [Bool.eq_iff_iff]
    simp only [Bool.not_eq_true', List.contains_eq_mem, decide_eq_false_iff_not]
    constructor
    · intro hunnamed
      by_contra hdenoted
      exact hunnamed (h member (by simpa using hdenoted))
    · intro hundenoted hnamed
      rw [hall member hmember hnamed] at hundenoted
      cases hundenoted

/-- **What a switch over an enum lists as missing.** In every state of a check that works in scopes
that exist, let a switch without `default` be over a value of the type of an enum, declared in the
scope `home` of this module or of an imported one. It passes exactly if its scrutinee and cases do
and nothing is listed as missing; otherwise one finding at its place lists, in order, the members
that its cases are not taken to name.

If the name of the type leads to the members of this enum, no member that a case value denotes is
listed. What is listed are exactly the members that no case value denotes, if and only if every
member taken to be named is also denoted. That is so where all case values `object.member` with the
name of a member denote it, and then a switch that passes denotes every member. -/
theorem switch_lists_unnamed_members {c : Checker} (hc : c.Attained) {scope : ScopeId}
    (hscope : scope < c.scopes.size) {scrutinee : Expr} {enum : Symbol} {name : String}
    {members : List String} (henum : enum.kind = .enum members) (hname : enum.ty = .basic name)
    (hty : (scrutinee.check scope).eval c = some enum.ty) (home : ScopeId)
    (cases : List SwitchCase) (span : Span) :
    let switch := Stmt.check scope ⟨span, .switch scrutinee cases none⟩
    let parts := switchParts scope scrutinee cases
    let named := namedMembers enum.ty scope scrutinee cases c
    let listed := (c.scopes.switchMembers scope name).filter (!named.contains ·)
    let denoted := denotedIn cases c.scopes scope home enum
    switch.eval c = ((parts.eval c).1 && listed.isEmpty) ∧
      (∃ found, switch.emitted c = parts.emitted c ++ found ∧
        found.map (fun f => (f.tag, f.cause.note?, f.span)) =
          if listed = [] then []
          else [(.nonExhaustiveSwitch, some ("missing: " ++ Cause.quotedList
            (listed.map fun member => s!"{name}.{member}")), span)]) ∧
      (c.scopes.switchMembers scope name = members →
        (∀ member ∈ listed, denoted member = false) ∧
        (listed = members.filter (!denoted ·) ↔
          ∀ member ∈ members, member ∈ named → denoted member = true) ∧
        ((∀ value ∈ cases.flatMap (·.values), ∀ object, ∀ member ∈ members,
            value.kind = .member object member →
              value.denotes c.scopes scope home enum member = true) →
          listed = members.filter (!denoted ·) ∧
            (switch.eval c = true → ∀ member ∈ members, denoted member = true))) := by
  intro switch parts named listed denoted
  obtain ⟨hpasses, hfound⟩ := check_switch cases hc hscope (hname ▸ hty) span
  rw [← hname] at hpasses hfound
  refine ⟨hpasses, ⟨_, hfound, ?_⟩, fun hmembers => ?_⟩
  · by_cases hlisted : listed = []
    · rw [if_pos hlisted, if_pos hlisted]
      rfl
    · rw [if_neg hlisted, if_neg hlisted]
      rfl
  · have hsound : ∀ member, denoted member = true → member ∈ named :=
      fun member => named_of_denotedIn hc hscope henum
    have hexact : listed = members.filter (!denoted ·) ↔
        ∀ member ∈ members, member ∈ named → denoted member = true := by
      rw [← filter_eq_filter_iff hsound, ← hmembers]
    refine ⟨fun member hmember => ?_, hexact, fun hvalues => ?_⟩
    · by_contra hdenoted
      have hunnamed := (List.mem_filter.mp hmember).2
      simp [hsound member (by simpa using hdenoted)] at hunnamed
    · have hlisted : listed = members.filter (!denoted ·) :=
        hexact.mpr fun member hmember => denotedIn_of_named fun value hvalue object =>
          hvalues value hvalue object member hmember
      refine ⟨hlisted, fun hpass => ?_⟩
      rw [hpasses, Bool.and_eq_true, List.isEmpty_iff] at hpass
      have hnone : members.filter (!denoted ·) = [] := hlisted ▸ hpass.2
      simpa [List.filter_eq_nil_iff] using hnone

/-- A module that imports a public enum and has a variable of its type. -/
def importedColor : Checker :=
  ((Checker.ofConfig {}).resolve { modules := [
    { name := "paint", body := [
      ⟨{}, .enum { name := "Color", members := ["Red", "Green", "Blue"], isPublic := true }⟩] },
    { name := "main", body := [
      ⟨{}, .importModule "paint" none⟩,
      ⟨{}, .var {
        name := "c"
        value := some ⟨1, {}, .member ⟨2, {}, .qualified "paint" "Color"⟩ "Red"⟩ }⟩] }] }).checker

/-- The cases `paint::Color.Green`, in whose body another enum of that name is declared, and
`paint::Color.Blue`. -/
def importedCases : List SwitchCase :=
  [⟨{}, [⟨4, {}, .member ⟨5, {}, .qualified "paint" "Color"⟩ "Green"⟩],
      ⟨{}, [⟨{}, .enum { name := "Color", members := ["Blue"] }⟩]⟩⟩,
    ⟨{}, [⟨6, {}, .member ⟨7, {}, .qualified "paint" "Color"⟩ "Blue"⟩], ⟨{}, []⟩⟩]

/-- In that module, a switch over the imported enum with these cases lacks `Red`. -/
theorem imported_switch_lists_missing :
    let enum := ((importedColor.scopes.declaration? 2 (.qualified "paint" "Color")).map
      (·.2)).getD default
    let named := namedMembers enum.ty 2 ⟨3, {}, .ident "c"⟩ importedCases importedColor
    let listed := (importedColor.scopes.switchMembers 2 "Color").filter (!named.contains ·)
    enum.kind = .enum ["Red", "Green", "Blue"] ∧
      (Expr.check 2 ⟨3, {}, .ident "c"⟩).eval importedColor = some enum.ty ∧ listed = ["Red"] ∧
      (Stmt.check 2 ⟨{}, .switch ⟨3, {}, .ident "c"⟩ importedCases none⟩).eval importedColor =
        false := by
  intro enum named listed
  have hattained : importedColor.Attained := .resolve _ (.start {})
  have hscope : 2 < importedColor.scopes.size := by decide +kernel
  have henum : enum.kind = .enum ["Red", "Green", "Blue"] := by decide +kernel
  have hname : enum.ty = .basic "Color" := by decide +kernel
  have hty : (Expr.check 2 ⟨3, {}, .ident "c"⟩).eval importedColor = some enum.ty := by
    decide +kernel
  have hmembers : importedColor.scopes.switchMembers 2 "Color" = ["Red", "Green", "Blue"] := by
    decide +kernel
  obtain ⟨hpasses, -, hexact⟩ := switch_lists_unnamed_members hattained hscope henum hname hty 1
    importedCases {}
  have hhonest : ∀ value ∈ importedCases.flatMap (·.values), ∀ object,
      ∀ member ∈ ["Red", "Green", "Blue"], value.kind = .member object member →
        value.denotes importedColor.scopes 2 1 enum member = true := by
    intro value hvalue object member _ hkind
    simp only [importedCases, List.flatMap_cons, List.flatMap_nil, List.cons_append,
      List.nil_append, List.mem_cons, List.not_mem_nil, or_false] at hvalue
    rcases hvalue with rfl | rfl
    · cases hkind
      decide +kernel
    · cases hkind
      decide +kernel
  have hlisted : listed = ["Red"] := ((hexact hmembers).2.2 hhonest).1.trans (by decide +kernel)
  refine ⟨henum, hty, hlisted, hpasses.trans ?_⟩
  show (_ && listed.isEmpty) = false
  rw [hlisted]
  exact Bool.and_false _

/-- A module with an enum, a struct that has a field with the name of a member, and a variable of
each of the types. -/
def colorWithField : Checker :=
  ((Checker.ofConfig {}).resolve { modules := [{ name := "main", body := [
    ⟨{}, .enum { name := "Color", members := ["Red", "Green"] }⟩,
    ⟨{}, .struct ⟨"S", false, [{ name := "Red", ty := .named {} none "int" }], []⟩⟩,
    ⟨{}, .var { name := "c", ty := some (.named {} none "Color") }⟩,
    ⟨{}, .var { name := "s", ty := some (.named {} none "S") }⟩] }] }).checker

/-- The field passes for the member: a switch over the enum with the cases `Color.Green` and `s.Red`
passes and nothing is found, although no value denotes `Red`. -/
theorem field_passes_for_member :
    let cases : List SwitchCase :=
      [⟨{}, [⟨2, {}, .member ⟨3, {}, .ident "Color"⟩ "Green"⟩], ⟨{}, []⟩⟩,
        ⟨{}, [⟨4, {}, .member ⟨5, {}, .ident "s"⟩ "Red"⟩], ⟨{}, []⟩⟩]
    let switch := Stmt.check 1 ⟨{}, .switch ⟨1, {}, .ident "c"⟩ cases none⟩
    let enum := (colorWithField.scopes.lookup? 1 "Color").getD default
    enum.kind = .enum ["Red", "Green"] ∧
      (Expr.check 1 ⟨1, {}, .ident "c"⟩).eval colorWithField = some enum.ty ∧
      switch.eval colorWithField = true ∧ switch.emitted colorWithField = [] ∧
      denotedIn cases colorWithField.scopes 1 1 enum "Green" = true ∧
      denotedIn cases colorWithField.scopes 1 1 enum "Red" = false := by
  decide +kernel

end Warden

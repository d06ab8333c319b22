import Warden.Proofs.Visits.Structs

/-!
# Encapsulation

An expression may use what other modules have declared in two ways. It names an item of an imported
module, `module::name`, or it names a member of a struct. `Visit.Uses` says what is used, as the
names have it, whether it is public or not. What is used by an expression that has a type is public,
or else it is the module's own (`Visit.Uses.allowed`).

In a program without faults all expressions have types. So it never uses what another module keeps
to itself (`encapsulation`).
-/

namespace Warden

open CheckM Check

variable {node : NodeId → Prop} {found : Symbol} {c₀ c : Checker} {id : NodeId}

/-! ### What is used -/

/-- Something that is used by its name. -/
inductive Use where
  /-- An item of a module, with the scope that holds it. -/
  | item (home : ScopeId) (symbol : Symbol)
  /-- A member of a struct. -/
  | member (struct : StructId) (member : StructMember)

namespace Use

def ty : Use → Ty
  | .item _ symbol => symbol.ty
  | .member _ found => found.ty

/-- What is used is public, or the module's own. -/
def AllowedTo (module : String) (c : Checker) : Use → Prop
  | .item home symbol => symbol.isPublic = true ∨ c.scopes.owningModule? home = some module
  | .member struct found => found.isPublic = true ∨ c.structs.module? struct = some module

end Use

/-- The item that stands under a name in the module imported as `localName`. -/
def ScopeTree.imported? (t : ScopeTree) (scope : ScopeId) (localName name : String) :
    Option (ScopeId × Symbol) :=
  (t.findImport? scope localName).bind fun i => ((t.scope i.scope).symbol? name).map (i.scope, ·)

namespace Check

/-- The struct before a dot: the one that is named, or the one that the value is or points to. -/
def objectStruct? (c : Checker) (object : Expr) (scope : ScopeId) : Option StructId :=
  (namedStruct? c object scope).or (((object.check scope).eval c).bind (·.structId?))

/-- What stands under the name of a struct literal. -/
def literalNamed? (c : Checker) (module : Option String) (name : String) (scope : ScopeId) :
    Option Symbol :=
  module.elim (c.scopes.lookup? scope name) fun localName =>
    (c.scopes.imported? scope localName name).map (·.2)

end Check

/-- What the visited part uses. -/
inductive Visit.Uses : Visit → Use → Prop where
  /-- The value `module::name`. -/
  | value {role id span scope c localName name home symbol} :
    c.scopes.imported? scope localName name = some (home, symbol) →
      Uses ⟨.value role ⟨id, span, .qualified localName name⟩, scope, c⟩ (.item home symbol)
  /-- The enum or struct `module::name` before a dot. -/
  | object {id span scope c localName name home symbol} :
    c.scopes.imported? scope localName name = some (home, symbol) →
      Uses ⟨.name ⟨id, span, .qualified localName name⟩, scope, c⟩ (.item home symbol)
  /-- The type `module::name`. -/
  | type {span scope c localName name home symbol} :
    c.scopes.imported? scope localName name = some (home, symbol) →
      Uses ⟨.type (.named span (some localName) name), scope, c⟩ (.item home symbol)
  /-- The literal `module::name { … }`. -/
  | literal {role id span scope c localName name fields home symbol} :
    c.scopes.imported? scope localName name = some (home, symbol) →
      Uses ⟨.value role ⟨id, span, .structLit (some localName) name fields⟩, scope, c⟩
        (.item home symbol)
  /-- The member of an enum in `module::name.member`. -/
  | enumMember {role id span scope c object localName name member enumHome enum home symbol} :
    object.kind = .qualified localName name →
      c.scopes.imported? scope localName name = some (enumHome, enum) → isEnumSymbol enum = true →
      c.scopes.imported? scope localName s!"{name}.{member}" = some (home, symbol) →
      Uses ⟨.value role ⟨id, span, .member object member⟩, scope, c⟩ (.item home symbol)
  /-- The field or method in `object.name`. -/
  | access {role id span scope c object name struct member} :
    objectStruct? c object scope = some struct → c.structs.member? struct name = some member →
      Uses ⟨.value role ⟨id, span, .member object name⟩, scope, c⟩ (.member struct member)
  /-- The method in `object.name(…)`. -/
  | call {callee receiver scope c struct member} :
    receiver.structId? = some struct →
      c.structs.member? struct (calleeName callee) = some member →
      Uses ⟨.callee callee receiver, scope, c⟩ (.member struct member)
  /-- A field that is set in a literal. -/
  | field {role id span scope c module name fields symbol struct field value member} :
    literalNamed? c module name scope = some symbol → symbol.ty.structId? = some struct →
      (field, value) ∈ fields → c.structs.member? struct field = some member →
      Uses ⟨.value role ⟨id, span, .structLit module name fields⟩, scope, c⟩ (.member struct member)

/-- The visited part is an expression whose type is that of something it names: `module::name`, the
callee of a method call, or `object.name` unless that is the member of an enum. -/
def Visit.Refers (v : Visit) : Prop :=
  match v.part with
  | .value _ e =>
    match e.kind with
    | .qualified .. => True
    | .member object _ => (namedSymbol? v.state object v.scope).any isEnumSymbol = false
    | _ => False
  | .callee .. => True
  | _ => False

/-! ### Items -/

theorem Quiet.owningModule? (h : Quiet node c₀ c) (scope : ScopeId) :
    c.scopes.owningModule? scope = c₀.scopes.owningModule? scope := by
  rw [← ScopeTree.owningModule?_withoutMemory, h.scopes, ScopeTree.owningModule?_withoutMemory]

theorem Use.AllowedTo.congr {use : Use} {module : String} (h : use.AllowedTo module c)
    (hquiet : Quiet node c₀ c) : use.AllowedTo module c₀ := by
  cases use with
  | item home symbol => exact h.imp_right (hquiet.owningModule? home ▸ ·)
  | member struct found => exact h.imp_right (hquiet.structs ▸ ·)

section

variable {c : Checker} {scope : ScopeId} {module : String}

variable {localName name member : String} {symbol : Symbol} {span : Span} {home : ScopeId}
  {object : Expr}

/-- An item that is found stands under its name, and it is public or the module's own. -/
theorem imported_of_found (howner : c.scopes.owningModule? scope = some module)
    (h : c.scopes.qualifiedLookup scope localName name = .found symbol) :
    ∃ home, c.scopes.imported? scope localName name = some (home, symbol) ∧
      (Use.item home symbol).AllowedTo module c := by
  unfold ScopeTree.qualifiedLookup ScopeTree.visible? at h
  unfold ScopeTree.imported?
  cases himport : c.scopes.findImport? scope localName with
  | none => simp [himport] at h
  | some i =>
    cases hsymbol : (c.scopes.scope i.scope).symbol? name with
    | none => simp [himport, hsymbol] at h
    | some found =>
      simp only [himport, hsymbol, howner, Option.getD_some] at h
      split at h
      next _ hvisible =>
        cases h
        split at hvisible
        next hallowed =>
          cases hvisible
          exact ⟨i.scope, by simp [hsymbol], by simpa [Use.AllowedTo] using hallowed⟩
        · cases hvisible
      · cases h

theorem found_of_qualifiedSymbol
    (h : (qualifiedSymbol localName name span scope).eval c = some symbol) :
    c.scopes.qualifiedLookup scope localName name = .found symbol := by
  cases hlookup : c.scopes.qualifiedLookup scope localName name <;>
    simp_all [qualifiedSymbol]

theorem found_of_qualified?
    (h : c.scopes.qualified? scope localName name = some symbol) :
    c.scopes.qualifiedLookup scope localName name = .found symbol := by
  cases hlookup : c.scopes.qualifiedLookup scope localName name <;>
    simp_all [ScopeTree.qualified?]

section

variable (howner : c.scopes.owningModule? scope = some module)

include howner

/-- What is found under a name is what is used by that name. -/
theorem allowed_of_found (hfound : c.scopes.qualifiedLookup scope localName name = .found found)
    (hitem : c.scopes.imported? scope localName name = some (home, symbol)) :
    found = symbol ∧ (Use.item home symbol).AllowedTo module c := by
  obtain ⟨_, hfound, hallowed⟩ := imported_of_found howner hfound
  cases hfound.symm.trans hitem
  exact ⟨rfl, hallowed⟩

/-- The name of a value, a type or a literal that has been resolved is allowed. -/
theorem allowed_of_qualifiedSymbol (span : Span)
    (h : (qualifiedSymbol localName name span scope).eval c ≠ none)
    (hitem : c.scopes.imported? scope localName name = some (home, symbol)) :
    (Use.item home symbol).AllowedTo module c := by
  obtain ⟨found, hfound⟩ := Option.ne_none_iff_exists'.mp h
  exact (allowed_of_found howner (found_of_qualifiedSymbol hfound) hitem).2

/-! ### Members -/

/-- A member that is found stands under its name, and it is public or of a struct of the module. -/
theorem member_of_structMember {id : StructId} {found : StructMember}
    (h : (structMember id name span scope).eval c = some found) :
    c.structs.member? id name = some found ∧ (Use.member id found).AllowedTo module c := by
  have hmodule : c.moduleAt scope = module := by
    rw [Checker.moduleAt, howner, Option.getD_some]
  simp only [structMember, eval_bind, eval_get, exec_get, hmodule] at h
  cases hd : c.structs.get? id with
  | none => simp [hd] at h
  | some d =>
    cases hmember : d.member? name with
    | none => simp [hd, hmember] at h
    | some member =>
      simp only [hd, hmember] at h
      split at h
      · simp at h
      next hvisible =>
        cases h
        refine ⟨by simp [StructTable.member?, hd, hmember], ?_⟩
        have hallowed : found.isPublic = true ∨ d.module = module := by
          cases hpublic : found.isPublic with
          | true => exact .inl rfl
          | false => exact .inr (by simpa [hpublic] using hvisible)
        refine hallowed.imp_right ?_
        rintro rfl
        rw [StructTable.module?, hd, Option.map_some]

end

/-! ### Member accesses -/

/-- A name that stands for a type is no value. -/
theorem eval_check_of_isType {e : Expr} (h : (namedSymbol? c e scope).any (·.isType) = true) :
    (e.check scope).eval c = none := by
  obtain ⟨id, span, kind⟩ := e
  rw [Expr.check, eval_bind, eval_recorded]
  cases kind with
  | ident name =>
    cases hsymbol : c.scopes.lookup? scope name <;>
      simp_all [namedSymbol?, ExprKind.check, Check.ident]
  | qualified localName name =>
    cases hlookup : c.scopes.qualifiedLookup scope localName name <;>
      simp_all [namedSymbol?, ScopeTree.qualified?, ExprKind.check, Check.qualified,
        qualifiedSymbol]
  | _ => simp [namedSymbol?] at h

/-- Where the object is no name, looking at it changes nothing. -/
theorem exec_staticMember_of_none
    (h : (staticMember object member span scope).eval c = none) :
    (staticMember object member span scope).exec c = c := by
  unfold staticMember at h ⊢
  cases hkind : object.kind with
  | ident name =>
    cases hsymbol : c.scopes.lookup? scope name with
    | none => by_cases himport : (c.scopes.findImport? scope name).isSome <;> simp_all
    | some symbol =>
      cases hsort : symbol.kind <;> cases hid : symbol.ty.structId? <;> simp_all
  | qualified module name =>
    by_cases henum : (c.scopes.qualified? scope module name).any isEnumSymbol <;> simp_all
  | _ => simp

/-- The type of `object.member` is that of a static member, or else that of a member of the object's
type. -/
theorem eval_check_member (id : NodeId) (span : Span) (object : Expr) (member : String) :
    ((⟨id, span, .member object member⟩ : Expr).check scope).eval c =
      ((staticMember object member span scope).eval c).elim
        ((valueMember ((object.check scope).eval c) member span scope).eval
          ((object.check scope).exec c)) fun result => result := by
  rw [Expr.check, eval_bind, eval_recorded, ExprKind.check, eval_bind]
  cases hstatic : (staticMember object member span scope).eval c with
  | none =>
    rw [exec_staticMember_of_none hstatic]
    rfl
  | some result => rfl

/-- A member access that has a type is that of an enum's member, or of a struct's member that is
allowed to the module. -/
theorem access_cases (howner : c.scopes.owningModule? scope = some module) {ty : Ty}
    (h : ((⟨id, span, .member object member⟩ : Expr).check scope).eval c = some ty) :
    (namedSymbol? c object scope).any isEnumSymbol = true ∨
      ∃ struct found, objectStruct? c object scope = some struct ∧
        c.structs.member? struct member = some found ∧ found.ty = ty ∧
        (Use.member struct found).AllowedTo module c := by
  rw [eval_check_member] at h
  cases hstatic : (staticMember object member span scope).eval c with
  | some result =>
    rw [hstatic, Option.elim_some] at h
    subst h
    refine (structMember_of_static hstatic).imp_right ?_
    rintro ⟨struct, found, hnamed, hfound, hty⟩
    obtain ⟨hmember, hallowed⟩ := member_of_structMember howner hfound
    exact ⟨struct, found, by simp [objectStruct?, hnamed], hmember, hty, hallowed⟩
  | none =>
    rw [hstatic, Option.elim_none] at h
    cases hobject : (object.check scope).eval c with
    | none => simp [hobject, valueMember] at h
    | some objectTy =>
      have hnamed : namedStruct? c object scope = none := by
        cases hnamed : namedStruct? c object scope with
        | none => rfl
        | some id =>
          rw [eval_check_of_isType (isType_of_namedStruct? hnamed)] at hobject
          cases hobject
      cases hid : objectTy.structId? with
      | none => simp [hobject, valueMember, hid] at h
      | some struct =>
        -- typing the object declares nothing
        have hquiet := (rule_expr scope object).observes.quiet c
        obtain ⟨found, hfound, hty⟩ : ∃ found, (structMember struct member span scope).eval
            ((object.check scope).exec c) = some found ∧ found.ty = ty := by
          simpa [hobject, valueMember, hid, structMemberType] using h
        obtain ⟨hmember, hallowed⟩ :=
          member_of_structMember (hquiet.owningModule? scope ▸ howner) hfound
        exact .inr ⟨struct, found, by simp [objectStruct?, hnamed, hobject, hid],
          hquiet.structs ▸ hmember, hty, hallowed.congr hquiet⟩

/-- The name of an enum is no struct. -/
theorem objectStruct?_of_enum
    (h : (namedSymbol? c object scope).any isEnumSymbol = true) :
    objectStruct? c object scope = none := by
  cases hsymbol : namedSymbol? c object scope with
  | none => simp [hsymbol] at h
  | some symbol =>
    have hnamed : namedStruct? c object scope = none := by
      unfold namedStruct?
      cases hkind : symbol.kind <;> simp_all [isEnumSymbol, Symbol.enumMembers?]
    simp [objectStruct?, hnamed, eval_check_of_isType (isType_of_isEnumSymbol h)]

theorem allowed_of_access (howner : c.scopes.owningModule? scope = some module) {id : NodeId}
    {struct : StructId} {found : StructMember}
    (h : ((⟨id, span, .member object member⟩ : Expr).check scope).eval c ≠ none)
    (hstruct : objectStruct? c object scope = some struct)
    (hmember : c.structs.member? struct member = some found) :
    (Use.member struct found).AllowedTo module c := by
  obtain ⟨ty, hty⟩ := Option.ne_none_iff_exists'.mp h
  rcases access_cases howner hty with henum | ⟨_, _, hstruct', hmember', -, hallowed⟩
  · rw [objectStruct?_of_enum henum] at hstruct
    cases hstruct
  · cases hstruct'.symm.trans hstruct
    cases hmember'.symm.trans hmember
    exact hallowed

/-- After the name of an enum comes one of its members. -/
theorem eval_staticMember_enum (member : String)
    (span : Span) (hkind : object.kind = .qualified localName name)
    (henum : (c.scopes.qualified? scope localName name).any isEnumSymbol = true) :
    (staticMember object member span scope).eval c =
      some ((c.scopes.qualified? scope localName s!"{name}.{member}").map (·.ty)) := by
  rw [staticMember, eval_bind, eval_get, exec_get, hkind]
  dsimp only
  rw [if_pos henum, eval_bind, eval_pure]
  cases c.scopes.qualified? scope localName s!"{name}.{member}" <;> rfl

/-- Where nothing is found under its name, the object of an access has no type. -/
theorem eval_check_of_not_found {e : Expr} (hkind : e.kind = .qualified localName name)
    (h : c.scopes.qualified? scope localName name = none) : (e.check scope).eval c = none := by
  obtain ⟨id, span, kind⟩ := e
  cases hkind
  rw [Expr.check, eval_bind, eval_recorded, ExprKind.check]
  cases hlookup : c.scopes.qualifiedLookup scope localName name <;>
    simp_all [Check.qualified, qualifiedSymbol, ScopeTree.qualified?]

theorem eval_staticMember_of_not_found
    (hkind : object.kind = .qualified localName name)
    (h : c.scopes.qualified? scope localName name = none) :
    (staticMember object member span scope).eval c = none := by
  rw [staticMember, eval_bind, eval_get, exec_get, hkind]
  dsimp only
  rw [if_neg (by simp [h]), eval_pure]

/-- The member of an enum that has a type is the one that stands under its name. -/
theorem allowed_of_enumMember (howner : c.scopes.owningModule? scope = some module)
    {enumHome : ScopeId} {enum : Symbol}
    (h : ((⟨id, span, .member object member⟩ : Expr).check scope).eval c ≠ none)
    (hkind : object.kind = .qualified localName name)
    (henum : c.scopes.imported? scope localName name = some (enumHome, enum))
    (hsort : isEnumSymbol enum = true)
    (hitem : c.scopes.imported? scope localName s!"{name}.{member}" = some (home, symbol)) :
    (Use.item home symbol).AllowedTo module c := by
  rw [eval_check_member] at h
  cases hlookup : c.scopes.qualifiedLookup scope localName name with
  | found found =>
    obtain ⟨rfl, -⟩ := allowed_of_found howner hlookup henum
    have hnamed : (c.scopes.qualified? scope localName name).any isEnumSymbol = true := by
      simpa [ScopeTree.qualified?, hlookup] using hsort
    rw [eval_staticMember_enum member span hkind hnamed, Option.elim_some, ne_eq,
      Option.map_eq_none_iff] at h
    obtain ⟨found, hmember⟩ := Option.ne_none_iff_exists'.mp h
    exact (allowed_of_found howner (found_of_qualified? hmember) hitem).2
  | _ =>
    -- the enum may not be used, so that the object is taken for a value, which it is not
    have hnamed : c.scopes.qualified? scope localName name = none := by
      rw [ScopeTree.qualified?, hlookup]
    rw [eval_staticMember_of_not_found hkind hnamed, Option.elim_none,
      eval_check_of_not_found hkind hnamed] at h
    exact absurd rfl h

/-! ### Struct literals -/

theorem length_checkFields (scope : ScopeId) (fields : List (String × Expr)) (c : Checker) :
    ((checkFields scope fields).eval c).length = fields.length := by
  induction fields generalizing c with
  | nil => rfl
  | cons field fields ih => exact congrArg Nat.succ (ih _)

/-- A field that has been set without fault is public, or the literal is in the module of the
struct. -/
theorem allowed_of_literalField {d : StructDef} {seen : List String} {field : String} {value : Expr}
    {ty : Option Ty} {found : StructMember}
    (h : (literalField d module seen field value ty).eval c = true)
    (hmember : d.member? field = some found) : found.isPublic = true ∨ d.module = module := by
  by_cases hprivate : (!found.isPublic && d.module != module) = true
  · -- the field is reported, whatever its type
    unfold literalField at h
    by_cases hseen : field ∈ seen
    · simp [hseen] at h
    · by_cases hmethod : found.isMethod = true
      · simp [hmember, hmethod, hseen, Option.filter] at h
      · cases ty with
        | none => simp [hmember, hmethod, hseen, hprivate, Option.filter] at h
        | some ty =>
          by_cases hassignable : found.ty.assignable ty = true <;>
            simp [hmember, hmethod, hseen, hprivate, hassignable, Option.filter] at h
  · simp only [Bool.and_eq_true, Bool.not_eq_true', bne_iff_ne, ne_eq, not_and, not_not] at hprivate
    by_cases hpublic : found.isPublic = true
    · exact .inl hpublic
    · exact .inr (hprivate (by simpa using hpublic))

theorem allowed_of_literalFields {d : StructDef} {found : StructMember} {field : String}
    {value : Expr} (hmember : d.member? field = some found) :
    (fields : List (String × Expr)) → (tys : List (Option Ty)) →
      ∀ {seen : List String} {c : Checker},
      fields.length = tys.length → (literalFields d module seen fields tys).eval c = true →
      (field, value) ∈ fields → found.isPublic = true ∨ d.module = module
  | [], _, _, _, _, _, hmem => by cases hmem
  | (_, _) :: _, [], _, _, hlength, _, _ => by cases hlength
  | (first, e) :: fields, ty :: tys, seen, c, hlength, h, hmem => by
    simp only [literalFields, eval_bind, eval_pure, Bool.and_eq_true] at h
    rcases List.mem_cons.mp hmem with heq | hmem
    · cases heq
      exact allowed_of_literalField h.1 hmember
    · exact allowed_of_literalFields hmember fields tys (Nat.succ.inj hlength) h.2 hmem

/-- The symbol that a literal takes for its struct is the one that stands under its name. -/
theorem literalSymbol_eq (howner : c.scopes.owningModule? scope = some module)
    {qualifier : Option String}
    (hfound : (literalSymbol qualifier name span scope).eval c = some found)
    (hsymbol : literalNamed? c qualifier name scope = some symbol) : found = symbol := by
  cases qualifier with
  | none =>
    have hlookup : c.scopes.lookup? scope name = some symbol := hsymbol
    simpa [literalSymbol, hlookup, eq_comm] using hfound
  | some localName =>
    obtain ⟨⟨home, _⟩, hitem, rfl⟩ := Option.map_eq_some_iff.mp hsymbol
    exact (allowed_of_found howner (found_of_qualifiedSymbol hfound) hitem).1

/-- A literal that has a type sets the fields of its struct without fault. -/
theorem literalFields_of_structLiteral
    {fields : List (String × Expr)} {tys : List (Option Ty)}
    (h : (structLiteral (some symbol) name fields tys span scope).eval c ≠ none) :
    ∃ d, structOfSymbol? c symbol = some d ∧
      (literalFields d (c.moduleAt scope) [] fields tys).eval c = true := by
  cases hstruct : structOfSymbol? c symbol with
  | none => simp [structLiteral, hstruct] at h
  | some d =>
    refine ⟨d, rfl, ?_⟩
    by_contra hfields
    refine h ?_
    simp only [structLiteral, eval_bind, eval_get, exec_get, hstruct]
    rw [Bool.not_eq_true] at hfields
    simp only [hfields]
    split <;> rfl

theorem allowed_of_field (howner : c.scopes.owningModule? scope = some module) {id : NodeId}
    {qualifier : Option String} {fields : List (String × Expr)}
    {struct : StructId} {field : String} {value : Expr} {found : StructMember}
    (h : ((⟨id, span, .structLit qualifier name fields⟩ : Expr).check scope).eval c ≠ none)
    (hsymbol : literalNamed? c qualifier name scope = some symbol)
    (hid : symbol.ty.structId? = some struct) (hfield : (field, value) ∈ fields)
    (hmember : c.structs.member? struct field = some found) :
    (Use.member struct found).AllowedTo module c := by
  -- typing the values declares nothing
  have hobserves : Observes (fun _ => True) (do
      let _ ← literalSymbol qualifier name span scope
      checkFields scope fields) :=
    observes_of_inStep scope fun hR => (hR.inStep_literalSymbol qualifier name span).bind
      fun _ _ _ => hR.inStep_fields fields fun _ _ => trivial
  have hquiet := hobserves.quiet c
  rw [Expr.check, eval_bind, eval_recorded, ExprKind.check, eval_bind, eval_bind] at h
  rw [exec_bind] at hquiet
  have hlength := length_checkFields scope fields ((literalSymbol qualifier name span scope).exec c)
  generalize (checkFields scope fields).eval _ = tys at h hlength
  generalize (checkFields scope fields).exec _ = d at h hquiet
  cases hfound : (literalSymbol qualifier name span scope).eval c with
  | none => simp [hfound, structLiteral] at h
  | some sym =>
    obtain rfl := literalSymbol_eq howner hfound hsymbol
    rw [hfound] at h
    obtain ⟨s, hs, hfields⟩ := literalFields_of_structLiteral h
    have hstruct : c.structs.get? struct = some s := by
      rw [← hquiet.structs]
      cases hkind : sym.kind <;> simp_all [structOfSymbol?]
    have hname : s.member? field = some found := by
      simpa [StructTable.member?, hstruct] using hmember
    have hmodule : d.moduleAt scope = module := by
      rw [Checker.moduleAt, hquiet.owningModule?, howner, Option.getD_some]
    rw [hmodule] at hfields
    refine (allowed_of_literalFields hname fields tys hlength.symm hfields hfield).imp_right ?_
    rintro rfl
    rw [StructTable.module?, hstruct, Option.map_some]

/-! ### Visits -/

/-- What is used by a visit that comes to what it is for is allowed to the module of its scope. -/
theorem Visit.Uses.allowed {v : Visit} {use : Use} (h : v.Uses use)
    (howner : v.state.scopes.owningModule? v.scope = some module) (hsettled : v.Settled) :
    use.AllowedTo module v.state := by
  cases h with
  | @value _ _ span _ _ _ _ _ _ hitem =>
    refine allowed_of_qualifiedSymbol howner span (fun hnone => ?_) hitem
    simp [Visit.Settled, Expr.check, ExprKind.check, Check.qualified, hnone] at hsettled
  | @object _ _ scope c localName name _ _ hitem =>
    have hsome : (c.scopes.qualified? scope localName name).any (·.isType) = true := hsettled
    cases hfound : c.scopes.qualified? scope localName name with
    | none => simp [hfound] at hsome
    | some found => exact (allowed_of_found howner (found_of_qualified? hfound) hitem).2
  | @type span _ _ _ _ _ _ hitem =>
    refine allowed_of_qualifiedSymbol howner span (fun hnone => ?_) hitem
    simp [Visit.Settled, TypeExpr.resolve, qualifiedType, hnone] at hsettled
  | @literal _ _ span _ _ _ _ _ _ _ hitem =>
    refine allowed_of_qualifiedSymbol howner span (fun hnone => ?_) hitem
    simp [Visit.Settled, Expr.check, ExprKind.check, literalSymbol, hnone, structLiteral]
      at hsettled
  | enumMember hkind henum hsort hitem =>
    exact allowed_of_enumMember howner (Option.isSome_iff_ne_none.mp hsettled) hkind henum hsort
      hitem
  | access hstruct hmember =>
    exact allowed_of_access howner (Option.isSome_iff_ne_none.mp hsettled) hstruct hmember
  | call hstruct hmember =>
    obtain ⟨found, -, -, hfound, -⟩ := hsettled
    rw [calledMember, hstruct] at hfound
    obtain ⟨hname, hallowed⟩ := member_of_structMember howner hfound
    cases hname.symm.trans hmember
    exact hallowed
  | field hsymbol hid hfield hmember =>
    exact allowed_of_field howner (Option.isSome_iff_ne_none.mp hsettled) hsymbol hid hfield hmember

/-- An expression that refers to something has the type of what it uses. -/
theorem Visit.Settled.exists_uses {v : Visit} (h : v.Settled) (hrefers : v.Refers)
    (howner : v.state.scopes.owningModule? v.scope = some module) :
    ∃ use, v.Uses use ∧ v.found = some use.ty := by
  obtain ⟨part, scope, c⟩ := v
  cases part with
  | value role e =>
    obtain ⟨id, span, kind⟩ := e
    obtain ⟨ty, hty⟩ := Option.isSome_iff_exists.mp h
    cases kind with
    | qualified localName name =>
      have htype : (Check.qualified localName name span scope).eval c = some ty := by
        simpa [Expr.check, ExprKind.check] using hty
      cases hsymbol : (qualifiedSymbol localName name span scope).eval c with
      | none => simp [Check.qualified, hsymbol] at htype
      | some symbol =>
        obtain ⟨home, hitem, -⟩ := imported_of_found howner (found_of_qualifiedSymbol hsymbol)
        have hsame : symbol.ty = ty := by
          cases hsort : symbol.isType <;> simp_all [Check.qualified]
        exact ⟨.item home symbol, .value hitem, hty.trans (congrArg some hsame.symm)⟩
    | member object name =>
      rcases access_cases howner hty with henum | ⟨struct, found, hstruct, hmember, hsame, -⟩
      · exact absurd henum (by simpa [Visit.Refers] using hrefers)
      · exact ⟨.member struct found, .access hstruct hmember,
          hty.trans (congrArg some hsame.symm)⟩
    | _ => exact hrefers.elim
  | callee e receiver =>
    obtain ⟨found, -, -, hfound, -⟩ := h
    cases hstruct : receiver.structId? with
    | none => simp [calledMember, hstruct] at hfound
    | some struct =>
      have hmember : (structMember struct (calleeName e) e.span scope).eval c = some found := by
        simpa [calledMember, hstruct] using hfound
      refine ⟨.member struct found, .call hstruct (member_of_structMember howner hmember).1, ?_⟩
      exact congrArg (Option.map _) hfound
  | _ => exact hrefers.elim

end

/-! ### Programs -/

/-- The module may use it: it is public, or it is an item of the module, or a member of a struct
that the check of the module declares. -/
def Program.Permits (p : Program) (config : Config) (m : Module) (c : Checker) : Use → Prop
  | .item home symbol => symbol.isPublic = true ∨ c.scopes.owningModule? home = some m.name
  | .member struct found => found.isPublic = true ∨ p.DeclaresStruct config m struct

theorem Program.Visits.permits {p : Program} {config : Config} {m : Module} {v : Visit}
    (h : p.Visits config m v) (hsettled : v.Settled) {use : Use} (huse : v.Uses use) :
    p.Permits config m v.state use := by
  have hallowed := huse.allowed h.owner hsettled
  cases use with
  | item home symbol => exact hallowed
  | member struct found => exact hallowed.imp_right h.declaresStruct

/-- **Encapsulation.** All that the check of a module visits is in scopes of the module. Where an
expression or a written type has been typed, what it uses is public, or an item of the module
itself, or a member of a struct that the module declares; and an expression that refers to something
has the type of what it uses. If the check of the program finds no fault, every expression and every
written type of every module is visited, and none uses what another module keeps to itself. -/
theorem encapsulation (config : Config) (p : Program) :
    (∀ m v, p.Visits config m v → v.state.scopes.owningModule? v.scope = some m.name ∧
      (v.Settled → (∀ use, v.Uses use → p.Permits config m v.state use) ∧
        (v.Refers → ∃ use, v.Uses use ∧ v.found = some use.ty))) ∧
    (p.Clean config →
      (∀ m ∈ p.modules, ∀ site ∈ m.sites, ∃ v, p.Visits config m v ∧ v.site = site) ∧
        ∀ m v, p.Visits config m v → ∀ use, v.Uses use → p.Permits config m v.state use) := by
  refine ⟨fun m v hv => ⟨hv.owner, fun hsettled => ?_⟩,
    fun hclean => ⟨fun m hm site hsite => ?_, ?_⟩⟩
  · exact ⟨fun use huse => hv.permits hsettled huse,
      fun hrefers => hsettled.exists_uses hrefers hv.owner⟩
  · exact hclean.exists_visits hm hsite
  · intro m v hv use huse
    exact hv.permits (hclean.settled hv) huse

/-- A module with a struct, one of whose fields it keeps to itself. -/
def vault : Module :=
  { name := "vault"
    body :=
      [⟨{}, .struct ⟨"Box", true,
          [{ name := "size", ty := .named {} none "int", isPublic := true },
            { name := "secret", ty := .named {} none "int" }], []⟩⟩,
        ⟨{}, .fn ⟨"open", [{ name := "box", ty := .named {} none "Box" }], .named {} none "int",
          ⟨{}, [⟨{}, .ret (some ⟨2, {}, .member ⟨1, {}, .ident "box"⟩ "secret"⟩)⟩]⟩,
          true, false, false⟩⟩] }

/-- A module that reads a field of the struct. -/
def bank (field : String) : Module :=
  { name := "bank"
    body :=
      [⟨{}, .importModule "vault" none⟩,
        ⟨{}, .fn ⟨"look", [{ name := "box", ty := .named {} (some "vault") "Box" }],
          .named {} none "int",
          ⟨{}, [⟨{}, .ret (some ⟨4, {}, .member ⟨3, {}, .ident "box"⟩ field⟩)⟩]⟩,
          true, false, false⟩⟩] }

/-- Reading the public field is no fault, and reading the other one is. -/
theorem encapsulation_vault :
    let p : Program := { modules := [vault, bank "size"] }
    let q : Program := { modules := [vault, bank "secret"] }
    p.Clean {} ∧
      (∀ m ∈ p.modules, ∀ site ∈ m.sites, ∃ v, p.Visits {} m v ∧ v.site = site) ∧
      (∀ m v, p.Visits {} m v → ∀ use, v.Uses use → p.Permits {} m v.state use) ∧
      (q.check {}).context.toReport.diagnostics.map (·.message) =
        ["Field `secret` of struct `Box` is private"] := by
  have hclean : Program.Clean { modules := [vault, bank "size"] } {} := by
    unfold Program.Clean
    decide +kernel
  have hmain := (encapsulation {} { modules := [vault, bank "size"] }).2 hclean
  exact ⟨hclean, hmain.1, hmain.2, by decide +kernel⟩

end Warden

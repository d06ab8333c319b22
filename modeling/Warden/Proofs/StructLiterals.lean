import Warden.Proofs.StructBuilding
import Warden.Proofs.Typing

/-!
# Struct literals

A struct literal is accepted exactly if it is complete: its name stands for a struct, the fields
that it sets are the data fields of that struct, each once and each one that the module may use, and
the values fit (`struct_literal_accepted_iff`).

The check goes through the fields one by one, with the names that came before at hand, and looks for
missing fields afterwards. `eval_literalFields` says what the first part comes to as a whole. There
a field is looked up among all members and then refused if it is a method; that this finds a data
field of the name if there is one rests on the names of members being distinct.
-/

namespace Warden

open CheckM Check

variable {module name : String}

/-! ### What a literal is about -/

/-- What stands under the name of a literal, as far as the scope may use it. -/
def Checker.literalSymbol? (c : Checker) (scope : ScopeId) :
    Option String → String → Option Symbol
  | none, name => c.scopes.lookup? scope name
  | some module, name => c.scopes.qualified? scope module name

/-- The name of a literal stands for a struct. -/
def Checker.NamesStruct (c : Checker) (scope : ScopeId) (module : Option String) (name : String)
    (d : StructDef) : Prop :=
  ∃ symbol, c.literalSymbol? scope module name = some symbol ∧ symbol.kind = .struct ∧
    symbol.ty = d.ty ∧ c.structs.get? d.id = some d

/-- The literal sets each data field of the struct once, with a value that fits. -/
structure StructDef.CompletedBy (d : StructDef) (module : String) (c : Checker) (scope : ScopeId)
    (fields : List (String × Expr)) : Prop where
  typed : ∀ f ∈ fields, ∃ ty, (f.2.check scope).eval c = some ty
  distinct : (fields.map (·.1)).Nodup
  complete : ∀ name, name ∈ fields.map (·.1) ↔ name ∈ d.fields.map (·.name)
  allowed : ∀ m ∈ d.fields, m.isPublic = true ∨ d.module = module
  assignable : ∀ f ∈ fields, ∀ m ∈ d.fields, m.name = f.1 →
    ∀ ty, (f.2.check scope).eval c = some ty → m.ty.assignable ty = true

/-! ### The name -/

theorem eval_literalSymbol (module : Option String) (name : String) (span : Span) (scope : ScopeId)
    (c : Checker) :
    (literalSymbol module name span scope).eval c = c.literalSymbol? scope module name := by
  cases module with
  | some module =>
    rw [literalSymbol, qualifiedSymbol, eval_get_bind, Checker.literalSymbol?, ScopeTree.qualified?]
    cases c.scopes.qualifiedLookup scope module name <;> rfl
  | none =>
    rw [literalSymbol, eval_get_bind, Checker.literalSymbol?]
    cases c.scopes.lookup? scope name <;> rfl

variable {c : Checker} {scope : ScopeId} {symbol : Symbol} {d : StructDef}

theorem Checker.declares_of_literalSymbol? {module : Option String}
    (h : c.literalSymbol? scope module name = some symbol) : c.scopes.Declares symbol := by
  cases module with
  | none => exact ScopeTree.declares_of_lookup? h
  | some module => exact ScopeTree.declares_of_qualified? h

/-- A symbol that is declared as a struct has the type of its definition. -/
theorem structOfSymbol?_eq_some_iff (hc : c.Occurs) (hsymbol : c.scopes.Declares symbol) :
    structOfSymbol? c symbol = some d ↔
      symbol.kind = .struct ∧ symbol.ty = d.ty ∧ c.structs.get? d.id = some d := by
  have hwell := hc.reachable.wellTyped.symbols symbol hsymbol
  constructor
  · intro hfound
    have hkind : symbol.kind = .struct := by
      cases hkind : symbol.kind <;> simp [structOfSymbol?, hkind] at hfound ⊢
    obtain ⟨id, name, hty⟩ := hwell.struct hkind
    have hget : c.structs.get? id = some d := by
      simpa [structOfSymbol?, hkind, hty, Ty.structId?] using hfound
    have hid := hc.developed.id_eq hget
    have hname : d.name = name := by
      have hknown := hwell.known
      rw [hty] at hknown
      cases hknown with
      | struct hget' =>
        cases hget.symm.trans hget'
        rfl
    exact ⟨hkind, by rw [hty, StructDef.ty, hid, hname], by rw [hid, hget]⟩
  · rintro ⟨hkind, hty, hget⟩
    simp [structOfSymbol?, hkind, hty, StructDef.ty, Ty.structId?, hget]

/-! ### The fields -/

theorem eval_checkFields (scope : ScopeId) (fields : List (String × Expr)) (c : Checker) :
    (checkFields scope fields).eval c = fields.map fun f => (f.2.check scope).eval c := by
  induction fields with
  | nil => rfl
  | cons f fields ih =>
    -- the values after the first are typed as if it were not there
    have hrest := Agree.fields scope fields _ _ (Agree.ofObserves (rule_expr scope f.2).observes c)
    rw [checkFields, eval_bind, eval_bind, eval_pure, hrest.1, ih, List.map_cons]

/-- One field of a literal, with a value of the given type, is in order. -/
def StructDef.Accepts (d : StructDef) (module field : String) (ty : Option Ty) : Prop :=
  ∃ m ∈ d.fields, m.name = field ∧ (m.isPublic = true ∨ d.module = module) ∧
    ∃ found, ty = some found ∧ m.ty.assignable found = true

section

variable {t : StructTable} (ht : t.Developed) {id : StructId} {d : StructDef}
  (hd : t.get? id = some d)

include ht hd

theorem field_eq_some_iff {m : StructMember} :
    (d.member? name).filter (!·.isMethod) = some m ↔ m ∈ d.fields ∧ m.name = name := by
  rw [Option.filter_eq_some_iff, ht.member?_eq_some_iff hd, StructDef.fields, List.mem_filter]
  exact and_right_comm

theorem accepts_iff {field : String} {ty : Option Ty} :
    d.Accepts module field ty ↔ ∃ m, (d.member? field).filter (!·.isMethod) = some m ∧
      (m.isPublic = true ∨ d.module = module) ∧
        ∃ found, ty = some found ∧ m.ty.assignable found = true := by
  simp only [StructDef.Accepts, field_eq_some_iff ht hd, and_assoc]

theorem eval_literalField (module : String) (seen : List String) (field : String) (value : Expr)
    (ty : Option Ty) (c : Checker) : (literalField d module seen field value ty).eval c = true ↔
      field ∉ seen ∧ d.Accepts module field ty := by
  rw [accepts_iff ht hd]
  unfold literalField
  by_cases hseen : field ∈ seen
  · simp [hseen]
  · cases (d.member? field).filter (!·.isMethod) with
    | none => simp [hseen]
    | some m =>
      by_cases hpublic : m.isPublic = true ∨ d.module = module
      · have hvisible : (!m.isPublic && d.module != module) = false := by
          rcases hpublic with hpublic | hmodule
          · simp [hpublic]
          · simp [hmodule]
        cases ty with
        | none => simp [hseen, hvisible]
        | some ty =>
          by_cases hfits : m.ty.assignable ty = true <;> simp [hseen, hvisible, hfits, hpublic]
      · have hhidden : (!m.isPublic && d.module != module) = true := by
          simpa using hpublic
        cases ty with
        | none => simp [hseen, hhidden]
        | some ty =>
          by_cases hfits : m.ty.assignable ty = true <;> simp [hseen, hhidden, hfits, hpublic]

theorem eval_literalFields (module : String) (value : String × Expr → Option Ty)
    (fields : List (String × Expr)) (seen : List String) (c : Checker) :
    (literalFields d module seen fields (fields.map value)).eval c = true ↔
      (∀ f ∈ fields, f.1 ∉ seen) ∧ (fields.map (·.1)).Nodup ∧
        ∀ f ∈ fields, d.Accepts module f.1 (value f) := by
  induction fields generalizing seen c with
  | nil => simp [literalFields]
  | cons f fields ih =>
    rw [List.map_cons, literalFields, eval_bind, eval_bind, eval_pure, Bool.and_eq_true,
      eval_literalField ht hd, ih]
    -- a later field repeats the first one exactly if the first one has been seen by then
    have hseen : (∀ g ∈ fields, g.1 ∉ f.1 :: seen) ↔
        f.1 ∉ fields.map (·.1) ∧ ∀ g ∈ fields, g.1 ∉ seen := by
      simp only [List.mem_cons, List.mem_map, not_or, not_exists, not_and, forall_and]
    rw [hseen, List.map_cons, List.nodup_cons, List.forall_mem_cons, List.forall_mem_cons]
    tauto

end

/-! ### The literal -/

/-- A literal of a struct has a type if the fields are in order and none is missing. -/
theorem eval_structLiteral
    (hd : structOfSymbol? c symbol = some d) (name : String) (fields : List (String × Expr))
    (tys : List (Option Ty)) (span : Span) (ty : Ty) :
    (structLiteral (some symbol) name fields tys span scope).eval c = some ty ↔
      (∀ m ∈ d.fields, m.name ∈ fields.map (·.1)) ∧
        (literalFields d (c.moduleAt scope) [] fields tys).eval c = true ∧ ty = d.ty := by
  have hmissing : ((d.fields.map (·.name)).filter fun f => !(fields.any (·.1 == f))).isEmpty =
      true ↔ ∀ m ∈ d.fields, m.name ∈ fields.map (·.1) := by
    simp [List.isEmpty_iff, List.filter_eq_nil_iff]
  rw [← hmissing, structLiteral, eval_get_bind, hd]
  dsimp only
  rw [eval_bind]
  generalize ((d.fields.map (·.name)).filter fun f => !(fields.any (·.1 == f))) = missing
  generalize (literalFields d (c.moduleAt scope) [] fields tys).eval c = ok
  generalize (literalFields d (c.moduleAt scope) [] fields tys).exec c = c'
  cases missing <;> cases ok <;> simp [eq_comm]

/-- Neither the name nor the values before have a say in how the literal is judged. -/
theorem eval_check_structLit (scope : ScopeId) (id : NodeId) (span : Span) (module : Option String)
    (name : String) (fields : List (String × Expr)) (c : Checker) :
    (Expr.check scope ⟨id, span, .structLit module name fields⟩).eval c =
      (structLiteral (c.literalSymbol? scope module name) name fields
        (fields.map fun f => (f.2.check scope).eval c) span scope).eval c := by
  have hname : Observes (fun _ => False) (literalSymbol module name span scope) :=
    observes_of_inStep scope fun hR => hR.inStep_literalSymbol module name span
  have hfields : Observes (fun _ => True) (checkFields scope fields) :=
    observes_of_inStep scope fun hR => hR.inStep_fields fields fun _ _ => trivial
  have hsymbol := Agree.ofObserves hname c
  have hvalues := Agree.ofObserves hfields ((literalSymbol module name span scope).exec c)
  have htyped := (Agree.fields scope fields _ _ hsymbol).1
  rw [Expr.check, eval_bind, eval_recorded, ExprKind.check, eval_bind, eval_bind,
    eval_literalSymbol, htyped, eval_checkFields]
  exact (Agree.structLiteral scope _ name fields _ span _ _ (hvalues.trans hsymbol)).1

/-- The fields are in order one by one, and none is missing, exactly if the literal completes the
struct. -/
theorem completedBy_iff {t : StructTable} (ht : t.Developed) {id : StructId}
    (hd : t.get? id = some d) {fields : List (String × Expr)} :
    d.CompletedBy module c scope fields ↔
      (∀ m ∈ d.fields, m.name ∈ fields.map (·.1)) ∧ (fields.map (·.1)).Nodup ∧
        ∀ f ∈ fields, d.Accepts module f.1 ((f.2.check scope).eval c) := by
  -- the data field that accepts a value is the only one of its name
  have hunique : ∀ {m m'}, m ∈ d.fields → m' ∈ d.fields → m.name = m'.name → m = m' := by
    intro m m' hm hm' hname
    have hfound := (field_eq_some_iff ht hd).mpr ⟨hm, hname⟩
    exact Option.some.inj (hfound.symm.trans ((field_eq_some_iff ht hd).mpr ⟨hm', rfl⟩))
  constructor
  · intro h
    refine ⟨fun m hm => (h.complete m.name).mpr (List.mem_map_of_mem hm), h.distinct, ?_⟩
    intro f hf
    obtain ⟨ty, hty⟩ := h.typed f hf
    obtain ⟨m, hm, hname⟩ := List.mem_map.mp ((h.complete f.1).mp (List.mem_map_of_mem hf))
    exact ⟨m, hm, hname, h.allowed m hm, ty, hty, h.assignable f hf m hm hname ty hty⟩
  · rintro ⟨hcomplete, hdistinct, haccepts⟩
    refine ⟨?_, hdistinct, fun name => ⟨?_, ?_⟩, ?_, ?_⟩
    · intro f hf
      obtain ⟨-, -, -, -, ty, hty, -⟩ := haccepts f hf
      exact ⟨ty, hty⟩
    · intro hname
      obtain ⟨f, hf, rfl⟩ := List.mem_map.mp hname
      obtain ⟨m, hm, hname, -⟩ := haccepts f hf
      exact List.mem_map.mpr ⟨m, hm, hname⟩
    · intro hname
      obtain ⟨m, hm, rfl⟩ := List.mem_map.mp hname
      exact hcomplete m hm
    · intro m hm
      obtain ⟨f, hf, hname⟩ := List.mem_map.mp (hcomplete m hm)
      obtain ⟨m', hm', hname', hallowed, -⟩ := haccepts f hf
      rwa [hunique hm hm' (hname.symm.trans hname'.symm)]
    · intro f hf m hm hname ty hty
      obtain ⟨m', hm', hname', -, found, hfound, hfits⟩ := haccepts f hf
      cases hty.symm.trans hfound
      rwa [hunique hm hm' (hname.trans hname'.symm)]

/-- A struct literal has a type exactly if its name stands for a struct that the scope may use and
the literal completes it: every value has a type, the fields that are set are pairwise distinct and
are the data fields of the struct, each of them is public or the struct is of the same module, and
each value can be put into its field. The type is then that of the struct. -/
theorem struct_literal_accepted_iff {c : Checker} (hc : c.Occurs) {scope : ScopeId} {home : String}
    (howner : c.scopes.owningModule? scope = some home) (id : NodeId) (span : Span)
    (module : Option String) (name : String) (fields : List (String × Expr)) (ty : Ty) :
    (Expr.check scope ⟨id, span, .structLit module name fields⟩).eval c = some ty ↔
      ∃ d, c.NamesStruct scope module name d ∧ d.CompletedBy home c scope fields ∧ ty = d.ty := by
  have hmodule : c.moduleAt scope = home := by
    rw [Checker.moduleAt, howner, Option.getD_some]
  rw [eval_check_structLit]
  cases hsymbol : c.literalSymbol? scope module name with
  | none => simp [Checker.NamesStruct, hsymbol, structLiteral]
  | some symbol =>
    have hstruct := fun d => structOfSymbol?_eq_some_iff hc
      (Checker.declares_of_literalSymbol? hsymbol) (d := d)
    have hnames : ∀ d, c.NamesStruct scope module name d ↔ structOfSymbol? c symbol = some d := by
      intro d
      rw [hstruct]
      simp [Checker.NamesStruct, hsymbol]
    simp only [hnames]
    cases hfound : structOfSymbol? c symbol with
    | none => simp [structLiteral, hfound]
    | some d =>
      have hget := ((hstruct d).mp hfound).2.2
      rw [eval_structLiteral hfound, hmodule, eval_literalFields hc.developed hget]
      simp [completedBy_iff hc.developed hget, and_assoc]

/-- A module with a struct of two fields and a method, and one that may use it. -/
def plane : Program :=
  let int : TypeExpr := .named {} none "int"
  let zero : Stmt := ⟨{}, .ret (some ⟨0, {}, .int 0⟩)⟩
  let point : StructDecl :=
    ⟨"Point", true, [{ name := "x", ty := int, isPublic := true },
        { name := "y", ty := int, isPublic := true }],
      [⟨{}, "zero", [], int, ⟨{}, [zero]⟩, true, false, false⟩]⟩
  { modules :=
      [{ name := "shapes", body := [⟨{}, .struct point⟩] },
        { name := "main", body := [⟨{}, .importModule "shapes" none⟩] }] }

/-- In the second module, `shapes::Point { y: 1, x: 2 }` is accepted, and `shapes::Point { y: 1 }`
does not complete the struct. -/
theorem point_literal_accepted :
    let c := plane.check {}
    let y : String × Expr := ("y", ⟨1, {}, .int 1⟩)
    let x : String × Expr := ("x", ⟨2, {}, .int 2⟩)
    c.Occurs ∧ c.scopes.owningModule? 2 = some "main" ∧
      (∃ d, c.NamesStruct 2 (some "shapes") "Point" d ∧ d.CompletedBy "main" c 2 [y, x] ∧
        Ty.struct 0 "Point" = d.ty) ∧
      ∀ d, c.NamesStruct 2 (some "shapes") "Point" d → ¬d.CompletedBy "main" c 2 [y] := by
  intro c y x
  have hoccurs : c.Occurs := .program plane {}
  have howner : c.scopes.owningModule? 2 = some "main" := by decide +kernel
  have hboth : (Expr.check 2 ⟨3, {}, .structLit (some "shapes") "Point" [y, x]⟩).eval c =
      some (.struct 0 "Point") := by
    decide +kernel
  have hone : (Expr.check 2 ⟨3, {}, .structLit (some "shapes") "Point" [y]⟩).eval c = none := by
    decide +kernel
  refine ⟨hoccurs, howner, (struct_literal_accepted_iff hoccurs howner 3 {} _ _ _ _).mp hboth, ?_⟩
  intro d hnames hcompleted
  have hsome := (struct_literal_accepted_iff hoccurs howner 3 {} _ _ _ _).mpr
    ⟨d, hnames, hcompleted, rfl⟩
  rw [hone] at hsome
  cases hsome

end Warden

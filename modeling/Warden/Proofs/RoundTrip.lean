import Mathlib.Data.List.Nodup
import Warden.Syntax.Decode
import Warden.Syntax.Encode

/-!
# The JSON form of a program loses nothing

Decoding what encoding has written gives back the program, with all places, identities and flags,
and with its optional parts present or absent as they were; and it hands out no identity
(`Program.ofJson?_toJson`). Floating-point numbers are handed through as they are.

* **Records.** In an object that is written field by field, a reader finds a field by its name
  (`Json.part?_cons`), and if no name is written twice, the object is a record to every reader
  (`Decoding.record_obj`). A part that is written is never `null`, so that it is not taken for an
  absent one.
* **Syntax.** Every decoder undoes its encoder, by induction over the syntax, one case per form.
  Each object names its form first, so the decoder is led to the case (`Decoding.form_obj`).
-/

namespace Warden

/-! ### Records -/

namespace Json

theorem sizeOf_head_lt (key : String) (value : Json) (fields : List (String × Json)) :
    sizeOf value < sizeOf (obj ((key, value) :: fields)) := by
  simp
  omega

variable {fields : List (String × Json)}

theorem sizeOf_lt_cons {part : Json}
    (h : sizeOf part < sizeOf (obj fields)) (field : String × Json) :
    sizeOf part < sizeOf (obj (field :: fields)) := by
  simp at h ⊢
  omega

/-- What a reader finds is what is written under the name. -/
theorem part?_eq_some {key : String} {value : Json}
    (h : fields.lookup key = some value) (hlt : sizeOf value < sizeOf (obj fields)) :
    (obj fields).part? key = some ⟨value, hlt⟩ := by
  unfold part?
  dsimp only
  split
  next hnone =>
    rw [h] at hnone
    cases hnone
  next hsome =>
    rw [h] at hsome
    cases hsome
    rfl

theorem part?_eq_none {key : String}
    (h : fields.lookup key = none) : (obj fields).part? key = none := by
  unfold part?
  dsimp only
  split
  · rfl
  next hsome =>
    rw [h] at hsome
    cases hsome

@[simp] theorem part?_nil (key : String) : (obj []).part? key = none := rfl

@[simp] theorem part?_cons (key other : String) (value : Json) (fields : List (String × Json)) :
    (obj ((other, value) :: fields)).part? key =
      if key == other then some ⟨value, sizeOf_head_lt other value fields⟩
      else ((obj fields).part? key).map fun part =>
        ⟨part.1, sizeOf_lt_cons part.2 (other, value)⟩ := by
  cases hkey : key == other with
  | true =>
    have hlookup : ((other, value) :: fields).lookup key = some value := by
      rw [List.lookup_cons, hkey]
    rw [part?_eq_some hlookup (sizeOf_head_lt other value fields), if_pos rfl]
  | false =>
    have hlookup : ((other, value) :: fields).lookup key = fields.lookup key := by
      rw [List.lookup_cons, hkey]
    cases hfound : fields.lookup key with
    | none =>
      rw [part?_eq_none hfound, part?_eq_none (hlookup.trans hfound)]
      rfl
    | some found =>
      have hlt : sizeOf found < sizeOf (obj fields) := by
        have := sizeOf_lt_of_lookup_eq_some hfound
        simp
        omega
      rw [part?_eq_some hfound hlt, part?_eq_some (hlookup.trans hfound) (sizeOf_lt_cons hlt _)]
      rfl

/-- An object without a name written twice is a record to every reader. -/
theorem isRecord_of_nodup (h : (fields.map Prod.fst).Nodup)
    (known : List String) : (obj fields).isRecord known = true := by
  simp only [isRecord, List.all_eq_true, decide_eq_true_eq]
  intro key _
  have hcount : occurrences key fields = (fields.map Prod.fst).count key := by
    rw [occurrences, List.count, List.countP_map]
    rfl
  rw [hcount]
  exact List.nodup_iff_count_le_one.mp h key

end Json

namespace Decoding

open Json

@[simp] theorem record_obj {fields : List (String × Json)} (h : (fields.map Prod.fst).Nodup)
    (known : List String) : record known (.obj fields) = pure () := by
  rw [record, if_pos (isRecord_of_nodup h known)]

/-- A node that names its form first has that form. -/
theorem form_obj (forms : List String) (name : String) (fields : List (String × Json)) :
    form forms (.obj (("kind", .str name) :: fields)) = pure name := by
  simp [form, required, formName]

/-- A list is read item by item. -/
theorem readAll {α : Type} (item : Json → Decoding α) (all : List Json → Decoding (List α))
    (hnil : all [] = pure [])
    (hcons : ∀ j js, all (j :: js) = do return (← item j) :: (← all js)) {encode : α → Json}
    (h : ∀ a, item (encode a) = pure a) (as : List α) : all (as.map encode) = pure as := by
  induction as with
  | nil => exact hnil
  | cons a as ih =>
    rw [List.map_cons, hcons, h, ih]
    rfl

/-! ### Leaves -/

@[simp] theorem natural_nat (n : Nat) : natural (.nat n) = pure n := rfl

@[simp] theorem string_str (s : String) : string (.str s) = pure s := rfl

@[simp] theorem boolean_bool (b : Bool) : boolean (.bool b) = pure b := rfl

@[simp] theorem float_float (x : Float) : float (.float x) = pure x := rfl

@[simp] theorem word_toInt (n : Int64) : word (.int n.toInt) = pure n := by
  rw [word, if_pos ⟨n.minValue_le_toInt, n.toInt_le⟩, Int64.ofInt_toInt]

@[simp] theorem character_singleton (c : Char) :
    character (.str (String.singleton c)) = pure c := by
  simp [character]

@[simp] theorem binaryOp_name (op : BinaryOp) : binaryOp op.name = pure op := by
  cases op <;> rfl

@[simp] theorem unaryOp_name (op : UnaryOp) : unaryOp op.name = pure op := by
  cases op <;> rfl

theorem strings_map (ss : List String) : strings (ss.map .str) = pure ss :=
  readAll string strings rfl (fun _ _ => rfl) string_str ss

-- the readers of fields, which the cases below run on the fields as they are written
attribute [local simp] required requiredItems optionalItems items items? presentPart? optionalField
  stringField stringField? flag naturalOr spanField opField opName

@[simp] theorem span_toJson (s : Span) : span s.toJson = pure s := by
  simp [span, Span.toJson]

/-! ### Types and expressions -/

@[simp] theorem expr_toJson_ne_null (e : Expr) : e.toJson ≠ .null := by
  obtain ⟨id, span, kind⟩ := e
  simp [Expr.toJson]

@[simp] theorem typeExpr_toJson_ne_null (t : TypeExpr) : t.toJson ≠ .null := by
  rcases t with _ | _ | ⟨_, _, _ | _⟩ | _ <;> simp [TypeExpr.toJson]

mutual

theorem typeExpr_toJson : ∀ t : TypeExpr, typeExpr t.toJson = pure t
  | .named span module name => by
    rw [TypeExpr.toJson, typeExpr, List.cons_append, form_obj, pure_bind]
    cases module <;> simp
  | .pointer span pointee => by
    rw [TypeExpr.toJson, typeExpr, form_obj, pure_bind]
    simp [typeExpr_toJson pointee]
  | .array span element none => by
    rw [TypeExpr.toJson, typeExpr, form_obj, pure_bind]
    simp [typeExpr_toJson element]
  | .array span element (some size) => by
    rw [TypeExpr.toJson, typeExpr, form_obj, pure_bind]
    simp [typeExpr_toJson element, expr_toJson size]
  | .function span params ret => by
    rw [TypeExpr.toJson, typeExpr, form_obj, pure_bind]
    simp [typeExprs_toJson params, typeExpr_toJson ret]

theorem typeExprs_toJson : ∀ ts : List TypeExpr, typeExprs (typesToJson ts) = pure ts
  | [] => by rw [typesToJson, typeExprs]
  | t :: ts => by
    rw [typesToJson, typeExprs]
    simp [typeExpr_toJson t, typeExprs_toJson ts]

theorem expr_toJson : ∀ e : Expr, expr e.toJson = pure e
  | ⟨id, span, kind⟩ => by
    rw [Expr.toJson, expr]
    simp [exprKind_toJson kind]

theorem exprKind_toJson : ∀ k : ExprKind, exprKind k.toJson = pure k
  | .int value | .float value | .bool value | .char value | .str value | .ident value
  | .qualified module value => by
    rw [ExprKind.toJson, exprKind, form_obj, pure_bind]
    simp
  | .binary op lhs rhs => by
    rw [ExprKind.toJson, exprKind, form_obj, pure_bind]
    simp [expr_toJson lhs, expr_toJson rhs]
  | .unary op operand => by
    rw [ExprKind.toJson, exprKind, form_obj, pure_bind]
    simp [expr_toJson operand]
  | .call callee args => by
    rw [ExprKind.toJson, exprKind, form_obj, pure_bind]
    simp [expr_toJson callee, exprs_toJson args]
  | .member object member => by
    rw [ExprKind.toJson, exprKind, form_obj, pure_bind]
    simp [expr_toJson object]
  | .index first second | .assign first second | .range first second => by
    rw [ExprKind.toJson, exprKind, form_obj, pure_bind]
    simp [expr_toJson first, expr_toJson second]
  | .structLit module name fields => by
    rw [ExprKind.toJson, exprKind, List.cons_append, form_obj, pure_bind]
    cases module <;> simp [namedExprs_toJson fields]
  | .arrayLit elements => by
    rw [ExprKind.toJson, exprKind, form_obj, pure_bind]
    simp [exprs_toJson elements]
  | .cast ty value => by
    rw [ExprKind.toJson, exprKind, form_obj, pure_bind]
    simp [typeExpr_toJson ty, expr_toJson value]
  | .sizeOfType ty => by
    rw [ExprKind.toJson, exprKind, form_obj, pure_bind]
    simp [typeExpr_toJson ty]

theorem exprs_toJson : ∀ es : List Expr, exprs (exprsToJson es) = pure es
  | [] => by rw [exprsToJson, exprs]
  | e :: es => by
    rw [exprsToJson, exprs]
    simp [expr_toJson e, exprs_toJson es]

theorem namedExprs_toJson :
    ∀ fields : List (String × Expr), namedExprs (fieldsToJson fields) = pure fields
  | [] => by rw [fieldsToJson, namedExprs]
  | (name, e) :: fields => by
    rw [fieldsToJson, namedExprs]
    simp [expr_toJson e, namedExprs_toJson fields]

end

/-! ### Declarations -/

section

attribute [local simp] typeExpr_toJson expr_toJson exprs_toJson typeField? exprField?

theorem nodup_varDecl (kind : Json) (d : VarDecl) :
    ((("kind", kind) :: d.jsonFields).map Prod.fst).Nodup := by
  obtain ⟨name, ty, value, isMutable, isPublic⟩ := d
  cases ty <;> cases value <;> simp [VarDecl.jsonFields]

theorem varDecl_jsonFields (kind : Json) (d : VarDecl) :
    varDecl (.obj (("kind", kind) :: d.jsonFields)) = pure d := by
  rw [varDecl, record_obj (nodup_varDecl kind d)]
  obtain ⟨name, ty, value, isMutable, isPublic⟩ := d
  cases ty <;> cases value <;> simp [VarDecl.jsonFields]

theorem nodup_enumDecl (kind : Json) (d : EnumDecl) :
    ((("kind", kind) :: d.jsonFields).map Prod.fst).Nodup := by
  simp [EnumDecl.jsonFields]

theorem enumDecl_jsonFields (kind : Json) (d : EnumDecl) :
    enumDecl (.obj (("kind", kind) :: d.jsonFields)) = pure d := by
  rw [enumDecl, record_obj (nodup_enumDecl kind d)]
  simp [EnumDecl.jsonFields, strings_map]

theorem param_toJson (p : Param) : param p.toJson = pure p := by
  simp [param, Param.toJson]

theorem params_toJson (ps : List Param) : params (ps.map Param.toJson) = pure ps :=
  readAll param params rfl (fun _ _ => rfl) param_toJson ps

theorem nodup_fnDecl (kind : Option Json) (d : FnDecl) :
    ((optionalField "kind" id kind ++ d.jsonFields).map Prod.fst).Nodup := by
  obtain ⟨name, params, returnType, body, isPublic, returnsOwnership, takesOwnership⟩ := d
  cases kind <;> simp [FnDecl.jsonFields]

theorem fieldDecl_toJson (f : FieldDecl) : fieldDecl f.toJson = pure f := by
  simp [fieldDecl, FieldDecl.toJson]

theorem nodup_structDecl (kind : Json) (d : StructDecl) :
    ((("kind", kind) :: d.jsonFields).map Prod.fst).Nodup := by
  obtain ⟨name, isPublic, fields, inner⟩ := d
  simp [StructDecl.jsonFields]

/-! ### Statements -/

@[simp] theorem block_toJson_ne_null (b : Block) : b.toJson ≠ .null := by
  obtain ⟨span, stmts⟩ := b
  simp [Block.toJson]

@[simp] theorem stmt_toJson_ne_null (s : Stmt) : s.toJson ≠ .null := by
  obtain ⟨span, kind⟩ := s
  simp [Stmt.toJson]

mutual

theorem stmt_toJson : ∀ s : Stmt, stmt s.toJson = pure s
  | ⟨span, kind⟩ => by
    rw [Stmt.toJson, stmt]
    simp [stmtKind_toJson kind]

theorem stmtKind_toJson : ∀ k : StmtKind, stmtKind k.toJson = pure k
  | .var decl => by
    rw [StmtKind.toJson, stmtKind, record_obj (nodup_varDecl _ decl), pure_bind, form_obj,
      pure_bind]
    simp [varDecl_jsonFields]
  | .fn decl => by
    have hkeys : ((("kind", .str "Fn") :: decl.jsonFields).map Prod.fst).Nodup :=
      nodup_fnDecl (some (.str "Fn")) decl
    have hdecl : fnDecl (.obj (("kind", .str "Fn") :: decl.jsonFields)) = pure decl :=
      fnDecl_jsonFields (some (.str "Fn")) decl
    rw [StmtKind.toJson, stmtKind, record_obj hkeys, pure_bind, form_obj, pure_bind]
    simp [hdecl]
  | .struct decl => by
    rw [StmtKind.toJson, stmtKind, record_obj (nodup_structDecl _ decl), pure_bind, form_obj,
      pure_bind]
    simp [structDecl_jsonFields _ decl]
  | .enum decl => by
    rw [StmtKind.toJson, stmtKind, record_obj (nodup_enumDecl _ decl), pure_bind, form_obj,
      pure_bind]
    simp [enumDecl_jsonFields]
  | .importModule module localName => by
    rw [StmtKind.toJson, stmtKind, form_obj, pure_bind]
    cases localName <;> simp
  | .ret value => by
    rw [StmtKind.toJson, stmtKind, form_obj, pure_bind]
    cases value <;> simp
  | .conditional branches none => by
    rw [StmtKind.toJson, stmtKind, form_obj, pure_bind]
    simp [conditionals_toJson branches]
  | .conditional branches (some otherwise) => by
    rw [StmtKind.toJson, stmtKind, form_obj, pure_bind]
    simp [conditionals_toJson branches, block_toJson otherwise]
  | .loop none cond step body => by
    rw [StmtKind.toJson, stmtKind, List.cons_append, List.cons_append, form_obj, pure_bind]
    cases cond <;> cases step <;> simp [block_toJson body]
  | .loop (some init) cond step body => by
    rw [StmtKind.toJson, stmtKind, List.cons_append, List.cons_append, form_obj, pure_bind]
    cases cond <;> cases step <;> simp [block_toJson body, stmt_toJson init]
  | .breakLoop | .continueLoop => by
    rw [StmtKind.toJson, stmtKind, form_obj, pure_bind]
    simp
  | .switch scrutinee cases none => by
    rw [StmtKind.toJson, stmtKind, form_obj, pure_bind]
    simp [switchCases_toJson cases]
  | .switch scrutinee cases (some otherwise) => by
    rw [StmtKind.toJson, stmtKind, form_obj, pure_bind]
    simp [switchCases_toJson cases, block_toJson otherwise]
  | .defer inner => by
    rw [StmtKind.toJson, stmtKind, form_obj, pure_bind]
    simp [stmt_toJson inner]
  | .block inner => by
    rw [StmtKind.toJson, stmtKind, form_obj, pure_bind]
    simp [block_toJson inner]
  | .expr e => by
    rw [StmtKind.toJson, stmtKind, form_obj, pure_bind]
    simp

theorem block_toJson : ∀ b : Block, block b.toJson = pure b
  | ⟨span, inner⟩ => by
    rw [Block.toJson, block]
    simp [stmts_toJson inner]

theorem stmts_toJson : ∀ ss : List Stmt, stmts (stmtsToJson ss) = pure ss
  | [] => by rw [stmtsToJson, stmts]
  | s :: ss => by
    rw [stmtsToJson, stmts]
    simp [stmt_toJson s, stmts_toJson ss]

theorem conditionals_toJson :
    ∀ branches : List (Expr × Block), conditionals (branchesToJson branches) = pure branches
  | [] => by rw [branchesToJson, conditionals]
  | (cond, body) :: branches => by
    rw [branchesToJson, conditionals]
    simp [block_toJson body, conditionals_toJson branches]

theorem switchCases_toJson : ∀ cases : List SwitchCase, switchCases (casesToJson cases) = pure cases
  | [] => by rw [casesToJson, switchCases]
  | ⟨span, values, body⟩ :: cases => by
    rw [casesToJson, switchCases, switchCase]
    simp [block_toJson body, switchCases_toJson cases]

theorem fnDecl_jsonFields (kind : Option Json) :
    ∀ d : FnDecl, fnDecl (.obj (optionalField "kind" id kind ++ d.jsonFields)) = pure d
  | ⟨_, _, _, body, _, _, _⟩ => by
    rw [fnDecl, record_obj (nodup_fnDecl kind _)]
    cases kind <;> simp [FnDecl.jsonFields, params_toJson, block_toJson body]

theorem structDecl_jsonFields (kind : Json) :
    ∀ d : StructDecl, structDecl (.obj (("kind", kind) :: d.jsonFields)) = pure d
  | ⟨_, _, _, inner⟩ => by
    rw [structDecl, record_obj (nodup_structDecl kind _)]
    simp [StructDecl.jsonFields, methods_toJson inner,
      readAll fieldDecl fieldDecls rfl (fun _ _ => rfl) fieldDecl_toJson]

theorem methods_toJson : ∀ ms : List MethodDecl, methods (methodsToJson ms) = pure ms
  | [] => by rw [methodsToJson, methods]
  | ⟨span, decl⟩ :: ms => by
    have hdecl : fnDecl (.obj decl.jsonFields) = pure decl := fnDecl_jsonFields none decl
    rw [methodsToJson, methods, method]
    simp [methods_toJson ms, hdecl]

end

/-! ### Programs -/

/-- Every statement gives its form by name, and first of all. -/
theorem exists_toJson_eq (k : StmtKind) :
    ∃ name fields, k.toJson = .obj (("kind", .str name) :: fields) := by
  cases k with
  | conditional branches otherwise =>
    cases otherwise <;> exact ⟨_, _, by rw [StmtKind.toJson]⟩
  | loop init cond step body =>
    cases init <;>
      exact ⟨_, _, by rw [StmtKind.toJson, List.cons_append, List.cons_append]⟩
  | switch scrutinee cases otherwise =>
    cases otherwise <;> exact ⟨_, _, by rw [StmtKind.toJson]⟩
  | _ => exact ⟨_, _, by rw [StmtKind.toJson]⟩

theorem namesForm_toJson (s : Stmt) : namesForm s.toJson = true := by
  obtain ⟨span, kind⟩ := s
  obtain ⟨name, fields, hkind⟩ := exists_toJson_eq kind
  simp [namesForm, Stmt.toJson, field?, List.lookup_cons, hkind]

theorem body_toJson (ss : List Stmt) : body (stmtsToJson ss) = pure ss := by
  have hnames : (stmtsToJson ss).all namesForm = true := by
    induction ss with
    | nil => rfl
    | cons s ss ih => rw [stmtsToJson, List.all_cons, namesForm_toJson, ih, Bool.true_and]
  rw [body, if_pos hnames, stmts_toJson]

theorem module_toJson (m : Module) : module m.toJson = pure m := by
  obtain ⟨span, name, filePath, source, inner⟩ := m
  rw [Module.toJson, module]
  cases source <;> simp [body_toJson]

theorem modules_toJson (ms : List Module) : modules (ms.map Module.toJson) = pure ms :=
  readAll module modules rfl (fun _ _ => rfl) module_toJson ms

theorem program_toJson (p : Program) : program p.toJson = pure p := by
  rw [Program.toJson, program]
  simp [modules_toJson]

end

end Decoding

/-- **The JSON form loses nothing**: a program that is encoded and decoded is the same program, and
no identity has been handed out. -/
theorem Program.ofJson?_toJson (p : Program) (next : NodeId) :
    Program.ofJson? p.toJson next = some (p, next) := by
  rw [Program.ofJson?, Decoding.program_toJson]
  rfl

end Warden

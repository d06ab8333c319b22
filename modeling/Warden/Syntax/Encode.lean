import Warden.Json.Basic
import Warden.Syntax.Basic

/-!
# Programs as JSON

Every node becomes an object whose fields are named after the parts of the node. The forms of types,
expressions and statements are told apart by a field `kind`. Absent optional parts are left out;
everything else is written, places, identities and flags included, so that nothing is lost.
-/

namespace Warden

namespace Span

def toJson (s : Span) : Json :=
  .obj [("line", .nat s.line), ("column", .nat s.column), ("length", .nat s.length)]

end Span

namespace BinaryOp

/-- The operator's name in the JSON form. -/
def name : BinaryOp → String
  | .add => "Add" | .sub => "Sub" | .mul => "Mul" | .div => "Div" | .mod => "Mod"
  | .eq => "Eq" | .ne => "Ne" | .lt => "Lt" | .le => "Le" | .gt => "Gt" | .ge => "Ge"
  | .and => "And" | .or => "Or"

end BinaryOp

namespace UnaryOp

/-- The operator's name in the JSON form. -/
def name : UnaryOp → String
  | .neg => "Neg" | .not => "Not" | .deref => "Deref" | .addrOf => "AddrOf"

end UnaryOp

namespace Json

/-- An optional field: present with a value, left out without one. -/
def optionalField {α : Type} (key : String) (encode : α → Json) : Option α → List (String × Json)
  | none => []
  | some a => [(key, encode a)]

end Json

mutual

def TypeExpr.toJson : TypeExpr → Json
  | .named span module name =>
    .obj <| ("kind", .str "Named") :: ("span", span.toJson) ::
      Json.optionalField "module" .str module ++ [("name", .str name)]
  | .pointer span pointee =>
    .obj [("kind", .str "Pointer"), ("span", span.toJson), ("pointee", pointee.toJson)]
  | .array span element none =>
    .obj [("kind", .str "Array"), ("span", span.toJson), ("element", element.toJson)]
  | .array span element (some size) =>
    .obj [("kind", .str "Array"), ("span", span.toJson), ("element", element.toJson),
      ("size", size.toJson)]
  | .function span params ret =>
    .obj [("kind", .str "Function"), ("span", span.toJson), ("params", .arr (typesToJson params)),
      ("ret", ret.toJson)]

def typesToJson : List TypeExpr → List Json
  | [] => []
  | t :: ts => t.toJson :: typesToJson ts

def Expr.toJson : Expr → Json
  | ⟨id, span, kind⟩ => .obj [("id", .nat id), ("span", span.toJson), ("kind", kind.toJson)]

def ExprKind.toJson : ExprKind → Json
  | .int value => .obj [("kind", .str "Int"), ("value", .int value.toInt)]
  | .float value => .obj [("kind", .str "Float"), ("value", .float value)]
  | .bool value => .obj [("kind", .str "Bool"), ("value", .bool value)]
  | .char value => .obj [("kind", .str "Char"), ("value", .str (String.ofList [value]))]
  | .str value => .obj [("kind", .str "Str"), ("value", .str value)]
  | .ident name => .obj [("kind", .str "Ident"), ("name", .str name)]
  | .qualified module name =>
    .obj [("kind", .str "Qualified"), ("module", .str module), ("name", .str name)]
  | .binary op lhs rhs =>
    .obj [("kind", .str "Binary"), ("op", .str op.name), ("lhs", lhs.toJson), ("rhs", rhs.toJson)]
  | .unary op operand =>
    .obj [("kind", .str "Unary"), ("op", .str op.name), ("operand", operand.toJson)]
  | .call callee args =>
    .obj [("kind", .str "Call"), ("callee", callee.toJson), ("args", .arr (exprsToJson args))]
  | .member object member =>
    .obj [("kind", .str "Member"), ("object", object.toJson), ("member", .str member)]
  | .index object index =>
    .obj [("kind", .str "Index"), ("object", object.toJson), ("index", index.toJson)]
  | .assign target value =>
    .obj [("kind", .str "Assign"), ("target", target.toJson), ("value", value.toJson)]
  | .range start stop =>
    .obj [("kind", .str "Range"), ("start", start.toJson), ("end", stop.toJson)]
  | .structLit module name fields =>
    .obj <| ("kind", .str "StructLit") :: Json.optionalField "module" .str module ++
      [("name", .str name), ("fields", .arr (fieldsToJson fields))]
  | .arrayLit elements =>
    .obj [("kind", .str "ArrayLit"), ("elements", .arr (exprsToJson elements))]
  | .cast ty value => .obj [("kind", .str "Cast"), ("ty", ty.toJson), ("value", value.toJson)]
  | .sizeOfType ty => .obj [("kind", .str "SizeOf"), ("ty", ty.toJson)]

def exprsToJson : List Expr → List Json
  | [] => []
  | e :: es => e.toJson :: exprsToJson es

def fieldsToJson : List (String × Expr) → List Json
  | [] => []
  | (name, e) :: fields => .arr [.str name, e.toJson] :: fieldsToJson fields

end

namespace VarDecl

def jsonFields (d : VarDecl) : List (String × Json) :=
  ("name", .str d.name) :: Json.optionalField "ty" TypeExpr.toJson d.ty ++
    Json.optionalField "value" Expr.toJson d.value ++
    [("is_mutable", .bool d.isMutable), ("is_public", .bool d.isPublic)]

end VarDecl

namespace Param

def toJson (p : Param) : Json :=
  .obj [("span", p.span.toJson), ("name", .str p.name), ("ty", p.ty.toJson),
    ("takes_ownership", .bool p.takesOwnership)]

end Param

namespace FieldDecl

def toJson (f : FieldDecl) : Json :=
  .obj [("span", f.span.toJson), ("name", .str f.name), ("ty", f.ty.toJson),
    ("is_public", .bool f.isPublic)]

end FieldDecl

namespace EnumDecl

def jsonFields (d : EnumDecl) : List (String × Json) :=
  [("name", .str d.name), ("is_public", .bool d.isPublic), ("members", .arr (d.members.map .str))]

end EnumDecl

mutual

def Stmt.toJson : Stmt → Json
  | ⟨span, kind⟩ => .obj [("span", span.toJson), ("kind", kind.toJson)]

def StmtKind.toJson : StmtKind → Json
  | .var decl => .obj (("kind", .str "Var") :: decl.jsonFields)
  | .fn decl => .obj (("kind", .str "Fn") :: decl.jsonFields)
  | .struct decl => .obj (("kind", .str "Struct") :: decl.jsonFields)
  | .enum decl => .obj (("kind", .str "Enum") :: decl.jsonFields)
  | .importModule module localName =>
    .obj <| ("kind", .str "Use") :: ("module", .str module) ::
      Json.optionalField "alias" .str localName
  | .ret value => .obj (("kind", .str "Return") :: Json.optionalField "value" Expr.toJson value)
  | .conditional branches none =>
    .obj [("kind", .str "If"), ("branches", .arr (branchesToJson branches))]
  | .conditional branches (some block) =>
    .obj [("kind", .str "If"), ("branches", .arr (branchesToJson branches)),
      ("else_block", block.toJson)]
  | .loop none cond step body =>
    .obj <| ("kind", .str "Loop") :: Json.optionalField "cond" Expr.toJson cond ++
      Json.optionalField "step" Expr.toJson step ++ [("body", body.toJson)]
  | .loop (some init) cond step body =>
    .obj <| ("kind", .str "Loop") :: ("init", init.toJson) ::
      Json.optionalField "cond" Expr.toJson cond ++
      Json.optionalField "step" Expr.toJson step ++ [("body", body.toJson)]
  | .breakLoop => .obj [("kind", .str "Break")]
  | .continueLoop => .obj [("kind", .str "Continue")]
  | .switch scrutinee cases none =>
    .obj [("kind", .str "Switch"), ("scrutinee", scrutinee.toJson),
      ("cases", .arr (casesToJson cases))]
  | .switch scrutinee cases (some block) =>
    .obj [("kind", .str "Switch"), ("scrutinee", scrutinee.toJson),
      ("cases", .arr (casesToJson cases)), ("default", block.toJson)]
  | .defer stmt => .obj [("kind", .str "Defer"), ("stmt", stmt.toJson)]
  | .block block => .obj [("kind", .str "Block"), ("block", block.toJson)]
  | .expr e => .obj [("kind", .str "Expr"), ("expr", e.toJson)]

def Block.toJson : Block → Json
  | ⟨span, stmts⟩ => .obj [("span", span.toJson), ("stmts", .arr (stmtsToJson stmts))]

def stmtsToJson : List Stmt → List Json
  | [] => []
  | s :: ss => s.toJson :: stmtsToJson ss

def branchesToJson : List (Expr × Block) → List Json
  | [] => []
  | (cond, block) :: branches => .arr [cond.toJson, block.toJson] :: branchesToJson branches

def casesToJson : List SwitchCase → List Json
  | [] => []
  | ⟨span, values, body⟩ :: cases =>
    .obj [("span", span.toJson), ("values", .arr (exprsToJson values)), ("body", body.toJson)] ::
      casesToJson cases

def FnDecl.jsonFields : FnDecl → List (String × Json)
  | ⟨name, params, returnType, body, isPublic, returnsOwnership, takesOwnership⟩ =>
    [("name", .str name), ("params", .arr (params.map Param.toJson)),
      ("return_type", returnType.toJson), ("body", body.toJson), ("is_public", .bool isPublic),
      ("returns_ownership", .bool returnsOwnership), ("takes_ownership", .bool takesOwnership)]

def StructDecl.jsonFields : StructDecl → List (String × Json)
  | ⟨name, isPublic, fields, methods⟩ =>
    [("name", .str name), ("is_public", .bool isPublic),
      ("fields", .arr (fields.map FieldDecl.toJson)),
      ("methods", .arr (methodsToJson methods))]

def methodsToJson : List MethodDecl → List Json
  | [] => []
  | ⟨span, decl⟩ :: methods =>
    .obj [("span", span.toJson), ("decl", .obj decl.jsonFields)] :: methodsToJson methods

end

namespace Module

def toJson (m : Module) : Json :=
  .obj <| ("span", m.span.toJson) :: ("name", .str m.name) :: ("file_path", .str m.filePath) ::
    Json.optionalField "source" .str m.source ++ [("body", .arr (stmtsToJson m.body))]

end Module

namespace Program

def toJson (p : Program) : Json :=
  .obj [("modules", .arr (p.modules.map Module.toJson))]

end Program

end Warden

import Warden.Json.Record
import Warden.Syntax.Basic

/-!
# Programs from JSON

The inverse of `Warden.Syntax.Encode`, generous in what it takes: fields may come in any order,
unknown ones are skipped, and parts that have a natural default may be left out. A missing span is
the unplaced one, a missing flag is off, and an expression without identity is given the next free
one. Everything else that does not fit makes the value no program, and there is no further detail to
that failure.

The running state is the next free identity.
-/

namespace Warden

/-- Decoding may fail, and hands out identities. -/
abbrev Decoding := StateT NodeId Option

namespace Decoding

/-- The value does not fit. -/
def unfit {α : Type} : Decoding α :=
  fun _ => none

/-- Takes the next identity. -/
def fresh : Decoding NodeId := do
  let next ← get
  set (next + 1)
  return next

/-- Insists on an object without a known field written twice. -/
def record (known : List String) (j : Json) : Decoding Unit :=
  if j.isRecord known then pure () else unfit

/-- A field that must be there. -/
def required (j : Json) (key : String) : Decoding (Json.Part j) :=
  match j.part? key with
  | some part => pure part
  | none => unfit

/-- Insists on an array. -/
def items (j : Json) : Decoding (Json.Items j) :=
  match j.items? with
  | some items => pure items
  | none => unfit

/-- The items of an array that must be there. -/
def requiredItems (j : Json) (key : String) : Decoding (Json.Items j) := do
  let ⟨part, h⟩ ← required j key
  let ⟨items, h'⟩ ← items part
  return ⟨items, Nat.lt_trans h' h⟩

/-- The items of an array that may be left out. -/
def optionalItems (j : Json) (key : String) : Decoding (Option (Json.Items j)) :=
  match j.part? key with
  | none => return none
  | some ⟨part, h⟩ => do
    let ⟨items, h'⟩ ← items part
    return some ⟨items, Nat.lt_trans h' h⟩

/-! ### Leaves -/

def natural : Json → Decoding Nat
  | .int (.ofNat n) => return n
  | _ => unfit

def string : Json → Decoding String
  | .str s => return s
  | _ => unfit

def boolean : Json → Decoding Bool
  | .bool b => return b
  | _ => unfit

/-- A whole number of 64 bits with sign. -/
def word : Json → Decoding Int64
  | .int n => if Int64.minValue.toInt ≤ n ∧ n ≤ Int64.maxValue.toInt then return .ofInt n else unfit
  | _ => unfit

/-- Any number; a whole one is rounded to the nearest floating-point number. -/
def float : Json → Decoding Float
  | .float x => return x
  | .int (.ofNat n) => return n.toUInt64.toFloat
  | .int (.negSucc n) => return -(n + 1).toUInt64.toFloat
  | _ => unfit

/-- A string of exactly one character. -/
def character : Json → Decoding Char
  | .str s =>
    match s.toList with
    | [c] => return c
    | _ => unfit
  | _ => unfit

def strings : List Json → Decoding (List String)
  | [] => return []
  | j :: js => return (← string j) :: (← strings js)

/-! ### Fields that are leaves -/

def stringField (j : Json) (key : String) : Decoding String := do
  string (← required j key).1

/-- A string that may be left out. -/
def stringField? (j : Json) (key : String) : Decoding (Option String) :=
  match j.presentPart? key with
  | none => return none
  | some ⟨part, _⟩ => return some (← string part)

/-- A flag, off unless it is there. -/
def flag (j : Json) (key : String) : Decoding Bool :=
  match j.part? key with
  | none => return false
  | some ⟨part, _⟩ => boolean part

def naturalOr (j : Json) (key : String) (default : Nat) : Decoding Nat :=
  match j.part? key with
  | none => return default
  | some ⟨part, _⟩ => natural part

def span (j : Json) : Decoding Span := do
  record ["line", "column", "length"] j
  let line ← natural (← required j "line").1
  let column ← natural (← required j "column").1
  let length ← naturalOr j "length" 1
  return { line, column, length }

/-- The field `span`, unplaced unless it is there. -/
def spanField (j : Json) : Decoding Span :=
  match j.part? "span" with
  | none => return {}
  | some ⟨part, _⟩ => span part

/-! ### Forms

Every node names its form in the field `kind`. Inside a statement a form may also be given by its
place in the list of forms. -/

/-- The forms of a type. -/
def typeForms : List String :=
  ["Named", "Pointer", "Array", "Function"]

/-- The forms of an expression. -/
def exprForms : List String :=
  ["Int", "Float", "Bool", "Char", "Str", "Ident", "Qualified", "Binary", "Unary", "Call", "Member",
    "Index", "Assign", "Range", "StructLit", "ArrayLit", "Cast", "SizeOf"]

/-- The forms of a statement. -/
def stmtForms : List String :=
  ["Var", "Fn", "Struct", "Enum", "Use", "Return", "If", "Loop", "Break", "Continue", "Switch",
    "Defer", "Block", "Expr"]

/-- The name of a form, given as it is or by its place. -/
def formName (forms : List String) : Json → Decoding String
  | .str s => return s
  | .int (.ofNat n) =>
    match forms[n]? with
    | some s => return s
    | none => unfit
  | _ => unfit

/-- The form of a node. -/
def form (forms : List String) (j : Json) : Decoding String := do
  formName forms (← required j "kind").1

/-- Whether a statement gives its form by name. -/
def namesForm (j : Json) : Bool :=
  match (j.field? "kind").bind (·.field? "kind") with
  | some (.str _) => true
  | _ => false

/-! ### Operators -/

/-- The name of an operator, perhaps as the only field of an object with nothing in it. -/
def opName : Json → Decoding String
  | .str s => return s
  | .obj [(s, .null)] => return s
  | .obj [(s, .obj [])] => return s
  | _ => unfit

/-- The field `op`. -/
def opField (j : Json) : Decoding String := do
  opName (← required j "op").1

def binaryOp : String → Decoding BinaryOp
  | "Add" => return .add | "Sub" => return .sub | "Mul" => return .mul | "Div" => return .div
  | "Mod" => return .mod | "Eq" => return .eq | "Ne" => return .ne | "Lt" => return .lt
  | "Le" => return .le | "Gt" => return .gt | "Ge" => return .ge | "And" => return .and
  | "Or" => return .or | _ => unfit

def unaryOp : String → Decoding UnaryOp
  | "Neg" => return .neg | "Not" => return .not | "Deref" => return .deref
  | "AddrOf" => return .addrOf | _ => unfit

/-! ### Types and expressions -/

mutual

def typeExpr (j : Json) : Decoding TypeExpr := do
  match ← form typeForms j with
  | "Named" =>
    record ["kind", "span", "module", "name"] j
    return .named (← spanField j) (← stringField? j "module") (← stringField j "name")
  | "Pointer" =>
    record ["kind", "span", "pointee"] j
    let ⟨pointee, _⟩ ← required j "pointee"
    return .pointer (← spanField j) (← typeExpr pointee)
  | "Array" =>
    record ["kind", "span", "element", "size"] j
    let ⟨element, _⟩ ← required j "element"
    let element ← typeExpr element
    match j.presentPart? "size" with
    | none => return .array (← spanField j) element none
    | some ⟨size, _⟩ => return .array (← spanField j) element (some (← expr size))
  | "Function" =>
    record ["kind", "span", "params", "ret"] j
    let ⟨params, _⟩ ← requiredItems j "params"
    let ⟨ret, _⟩ ← required j "ret"
    return .function (← spanField j) (← typeExprs params) (← typeExpr ret)
  | _ => unfit
termination_by sizeOf j

def typeExprs : List Json → Decoding (List TypeExpr)
  | [] => return []
  | j :: js => return (← typeExpr j) :: (← typeExprs js)
termination_by js => sizeOf js

def expr (j : Json) : Decoding Expr := do
  record ["id", "span", "kind"] j
  let span ← spanField j
  let ⟨kind, _⟩ ← required j "kind"
  let kind ← exprKind kind
  match j.part? "id" with
  | none => return ⟨← fresh, span, kind⟩
  | some ⟨id, _⟩ => return ⟨← natural id, span, kind⟩
termination_by sizeOf j

def exprKind (j : Json) : Decoding ExprKind := do
  match ← form exprForms j with
  | "Int" =>
    record ["kind", "value"] j
    return .int (← word (← required j "value").1)
  | "Float" =>
    record ["kind", "value"] j
    return .float (← float (← required j "value").1)
  | "Bool" =>
    record ["kind", "value"] j
    return .bool (← boolean (← required j "value").1)
  | "Char" =>
    record ["kind", "value"] j
    return .char (← character (← required j "value").1)
  | "Str" =>
    record ["kind", "value"] j
    return .str (← stringField j "value")
  | "Ident" =>
    record ["kind", "name"] j
    return .ident (← stringField j "name")
  | "Qualified" =>
    record ["kind", "module", "name"] j
    return .qualified (← stringField j "module") (← stringField j "name")
  | "Binary" =>
    record ["kind", "op", "lhs", "rhs"] j
    let op ← binaryOp (← opField j)
    let ⟨lhs, _⟩ ← required j "lhs"
    let ⟨rhs, _⟩ ← required j "rhs"
    return .binary op (← expr lhs) (← expr rhs)
  | "Unary" =>
    record ["kind", "op", "operand"] j
    let op ← unaryOp (← opField j)
    let ⟨operand, _⟩ ← required j "operand"
    return .unary op (← expr operand)
  | "Call" =>
    record ["kind", "callee", "args"] j
    let ⟨callee, _⟩ ← required j "callee"
    let ⟨args, _⟩ ← requiredItems j "args"
    return .call (← expr callee) (← exprs args)
  | "Member" =>
    record ["kind", "object", "member"] j
    let ⟨object, _⟩ ← required j "object"
    return .member (← expr object) (← stringField j "member")
  | "Index" =>
    record ["kind", "object", "index"] j
    let ⟨object, _⟩ ← required j "object"
    let ⟨index, _⟩ ← required j "index"
    return .index (← expr object) (← expr index)
  | "Assign" =>
    record ["kind", "target", "value"] j
    let ⟨target, _⟩ ← required j "target"
    let ⟨value, _⟩ ← required j "value"
    return .assign (← expr target) (← expr value)
  | "Range" =>
    record ["kind", "start", "end"] j
    let ⟨start, _⟩ ← required j "start"
    let ⟨stop, _⟩ ← required j "end"
    return .range (← expr start) (← expr stop)
  | "StructLit" =>
    record ["kind", "module", "name", "fields"] j
    let ⟨fields, _⟩ ← requiredItems j "fields"
    return .structLit (← stringField? j "module") (← stringField j "name") (← namedExprs fields)
  | "ArrayLit" =>
    record ["kind", "elements"] j
    let ⟨elements, _⟩ ← requiredItems j "elements"
    return .arrayLit (← exprs elements)
  | "Cast" =>
    record ["kind", "ty", "value"] j
    let ⟨ty, _⟩ ← required j "ty"
    let ⟨value, _⟩ ← required j "value"
    return .cast (← typeExpr ty) (← expr value)
  | "SizeOf" =>
    record ["kind", "ty"] j
    let ⟨ty, _⟩ ← required j "ty"
    return .sizeOfType (← typeExpr ty)
  | _ => unfit
termination_by sizeOf j

def exprs : List Json → Decoding (List Expr)
  | [] => return []
  | j :: js => return (← expr j) :: (← exprs js)
termination_by js => sizeOf js

/-- Pairs of a name and an expression. -/
def namedExprs : List Json → Decoding (List (String × Expr))
  | [] => return []
  | .arr [name, value] :: js => do
    let name ← string name
    return (name, ← expr value) :: (← namedExprs js)
  | _ => unfit
termination_by js => sizeOf js

end

/-! ### Declarations and statements -/

def typeField? (j : Json) (key : String) : Decoding (Option TypeExpr) :=
  match j.presentPart? key with
  | none => return none
  | some ⟨part, _⟩ => return some (← typeExpr part)

def exprField? (j : Json) (key : String) : Decoding (Option Expr) :=
  match j.presentPart? key with
  | none => return none
  | some ⟨part, _⟩ => return some (← expr part)

def varDecl (j : Json) : Decoding VarDecl := do
  record ["name", "ty", "value", "is_mutable", "is_public"] j
  return {
    name := ← stringField j "name"
    ty := ← typeField? j "ty"
    value := ← exprField? j "value"
    isMutable := ← flag j "is_mutable"
    isPublic := ← flag j "is_public" }

def param (j : Json) : Decoding Param := do
  record ["span", "name", "ty", "takes_ownership"] j
  return {
    span := ← spanField j
    name := ← stringField j "name"
    ty := ← typeExpr (← required j "ty").1
    takesOwnership := ← flag j "takes_ownership" }

def params : List Json → Decoding (List Param)
  | [] => return []
  | j :: js => return (← param j) :: (← params js)

def fieldDecl (j : Json) : Decoding FieldDecl := do
  record ["span", "name", "ty", "is_public"] j
  return {
    span := ← spanField j
    name := ← stringField j "name"
    ty := ← typeExpr (← required j "ty").1
    isPublic := ← flag j "is_public" }

def fieldDecls : List Json → Decoding (List FieldDecl)
  | [] => return []
  | j :: js => return (← fieldDecl j) :: (← fieldDecls js)

def enumDecl (j : Json) : Decoding EnumDecl := do
  record ["name", "is_public", "members"] j
  return {
    name := ← stringField j "name"
    isPublic := ← flag j "is_public"
    members := ← strings (← requiredItems j "members").1 }

mutual

def stmt (j : Json) : Decoding Stmt := do
  record ["span", "kind"] j
  let ⟨kind, _⟩ ← required j "kind"
  return ⟨← spanField j, ← stmtKind kind⟩
termination_by (sizeOf j, 0)

def stmtKind (j : Json) : Decoding StmtKind := do
  record ["kind"] j
  match ← form stmtForms j with
  | "Var" => return .var (← varDecl j)
  | "Fn" => return .fn (← fnDecl j)
  | "Struct" => return .struct (← structDecl j)
  | "Enum" => return .enum (← enumDecl j)
  | "Use" =>
    record ["module", "alias"] j
    return .importModule (← stringField j "module") (← stringField? j "alias")
  | "Return" =>
    record ["value"] j
    return .ret (← exprField? j "value")
  | "If" =>
    record ["branches", "else_block"] j
    let ⟨branches, _⟩ ← requiredItems j "branches"
    let branches ← conditionals branches
    match j.presentPart? "else_block" with
    | none => return .conditional branches none
    | some ⟨part, _⟩ => return .conditional branches (some (← block part))
  | "Loop" =>
    record ["init", "cond", "step", "body"] j
    let cond ← exprField? j "cond"
    let step ← exprField? j "step"
    let ⟨body, _⟩ ← required j "body"
    let body ← block body
    match j.presentPart? "init" with
    | none => return .loop none cond step body
    | some ⟨init, _⟩ => return .loop (some (← stmt init)) cond step body
  | "Break" => return .breakLoop
  | "Continue" => return .continueLoop
  | "Switch" =>
    record ["scrutinee", "cases", "default"] j
    let scrutinee ← expr (← required j "scrutinee").1
    let ⟨cases, _⟩ ← requiredItems j "cases"
    let cases ← switchCases cases
    match j.presentPart? "default" with
    | none => return .switch scrutinee cases none
    | some ⟨part, _⟩ => return .switch scrutinee cases (some (← block part))
  | "Defer" =>
    record ["stmt"] j
    let ⟨inner, _⟩ ← required j "stmt"
    return .defer (← stmt inner)
  | "Block" =>
    record ["block"] j
    let ⟨inner, _⟩ ← required j "block"
    return .block (← block inner)
  | "Expr" =>
    record ["expr"] j
    return .expr (← expr (← required j "expr").1)
  | _ => unfit
termination_by (sizeOf j, 1)

def block (j : Json) : Decoding Block := do
  record ["span", "stmts"] j
  let ⟨inner, _⟩ ← requiredItems j "stmts"
  return ⟨← spanField j, ← stmts inner⟩
termination_by (sizeOf j, 0)

def stmts : List Json → Decoding (List Stmt)
  | [] => return []
  | j :: js => return (← stmt j) :: (← stmts js)
termination_by js => (sizeOf js, 0)

/-- Pairs of a condition and a block. -/
def conditionals : List Json → Decoding (List (Expr × Block))
  | [] => return []
  | .arr [cond, body] :: js => do
    let cond ← expr cond
    return (cond, ← block body) :: (← conditionals js)
  | _ => unfit
termination_by js => (sizeOf js, 0)

def switchCases : List Json → Decoding (List SwitchCase)
  | [] => return []
  | j :: js => return (← switchCase j) :: (← switchCases js)
termination_by js => (sizeOf js, 0)

def switchCase (j : Json) : Decoding SwitchCase := do
  record ["span", "values", "body"] j
  let values ← exprs (← requiredItems j "values").1
  let ⟨body, _⟩ ← required j "body"
  return ⟨← spanField j, values, ← block body⟩
termination_by (sizeOf j, 0)

/-- The fields of a function; they may stand beside a `kind`. -/
def fnDecl (j : Json) : Decoding FnDecl := do
  record ["name", "params", "return_type", "body", "is_public", "returns_ownership",
    "takes_ownership"] j
  let name ← stringField j "name"
  let params ← params (← requiredItems j "params").1
  let returnType ← typeExpr (← required j "return_type").1
  let ⟨body, _⟩ ← required j "body"
  return ⟨name, params, returnType, ← block body, ← flag j "is_public",
    ← flag j "returns_ownership", ← flag j "takes_ownership"⟩
termination_by (sizeOf j, 0)

/-- The fields of a struct; they may stand beside a `kind`. -/
def structDecl (j : Json) : Decoding StructDecl := do
  record ["name", "is_public", "fields", "methods"] j
  let name ← stringField j "name"
  let isPublic ← flag j "is_public"
  let fields ← fieldDecls (← requiredItems j "fields").1
  match ← optionalItems j "methods" with
  | none => return ⟨name, isPublic, fields, []⟩
  | some ⟨items, _⟩ => return ⟨name, isPublic, fields, ← methods items⟩
termination_by (sizeOf j, 0)

def methods : List Json → Decoding (List MethodDecl)
  | [] => return []
  | j :: js => return (← method j) :: (← methods js)
termination_by js => (sizeOf js, 0)

def method (j : Json) : Decoding MethodDecl := do
  record ["span", "decl"] j
  let ⟨decl, _⟩ ← required j "decl"
  return ⟨← spanField j, ← fnDecl decl⟩
termination_by (sizeOf j, 0)

end

/-! ### Modules -/

/-- The statements of a module, which give their forms by name. -/
def body (js : List Json) : Decoding (List Stmt) :=
  if js.all namesForm then stmts js else unfit

def module (j : Json) : Decoding Module := do
  record ["span", "name", "file_path", "source", "body"] j
  let filePath ← match j.part? "file_path" with
    | none => pure ""
    | some ⟨part, _⟩ => string part
  return {
    span := ← spanField j
    name := ← stringField j "name"
    filePath
    source := ← stringField? j "source"
    body := ← body (← requiredItems j "body").1 }

def modules : List Json → Decoding (List Module)
  | [] => return []
  | j :: js => return (← module j) :: (← modules js)

def program (j : Json) : Decoding Program := do
  record ["modules"] j
  return ⟨← modules (← requiredItems j "modules").1⟩

end Decoding

namespace Program

/-- Reads a program from its JSON form, giving identities from `next` on where they are missing. -/
def ofJson? (j : Json) (next : NodeId) : Option (Program × NodeId) :=
  (Decoding.program j).run next

end Program

end Warden

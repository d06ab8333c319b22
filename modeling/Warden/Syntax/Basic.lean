import Warden.Span

/-!
# Abstract syntax

A program is a list of modules, a module a list of statements. Expressions carry an identity, under
which the checker records their types, and every node carries the place it was written at.

Type expressions and expressions contain each other (an array type may state its length, a cast
names a type), and so do statements, blocks and function declarations. Lists and optional parts are
plain `List` and `Option`, so that functions on the syntax are structural recursions with one
companion per list.
-/

namespace Warden

/-- Identity of an expression. -/
abbrev NodeId := Nat

/-- Operators between two operands. -/
inductive BinaryOp where
  | add | sub | mul | div | mod
  | eq | ne | lt | le | gt | ge
  | and | or
  deriving DecidableEq, Repr, Inhabited

namespace BinaryOp

/-- The operator as it is written in a program. -/
def symbol : BinaryOp → String
  | .add => "+" | .sub => "-" | .mul => "*" | .div => "/" | .mod => "%"
  | .eq => "==" | .ne => "!=" | .lt => "<" | .le => "<=" | .gt => ">" | .ge => ">="
  | .and => "&&" | .or => "||"

end BinaryOp

/-- Operators on one operand. -/
inductive UnaryOp where
  | neg
  | not
  /-- As in `*p`. -/
  | deref
  /-- As in `&x`. -/
  | addrOf
  deriving DecidableEq, Repr, Inhabited

/-! ### Types and expressions -/

mutual

/-- A type as it is written. -/
inductive TypeExpr where
  /-- A name, such as `int`, `Point` or `geo::Point`. -/
  | named (span : Span) (module : Option String) (name : String)
  /-- As in `*T`. -/
  | pointer (span : Span) (pointee : TypeExpr)
  /-- As in `[T; N]` or `[T]`. -/
  | array (span : Span) (element : TypeExpr) (size : Option Expr)
  /-- As in `fn(A, B) -> R`. -/
  | function (span : Span) (params : List TypeExpr) (ret : TypeExpr)

/-- An expression with its identity and place. -/
structure Expr where
  id : NodeId
  span : Span
  kind : ExprKind

/-- The forms of an expression. -/
inductive ExprKind where
  | int (value : Int64)
  | float (value : Float)
  | bool (value : Bool)
  | char (value : Char)
  | str (value : String)
  | ident (name : String)
  /-- As in `module::name`. -/
  | qualified (module name : String)
  | binary (op : BinaryOp) (lhs rhs : Expr)
  | unary (op : UnaryOp) (operand : Expr)
  | call (callee : Expr) (args : List Expr)
  /-- As in `object.member`. -/
  | member (object : Expr) (member : String)
  | index (object index : Expr)
  | assign (target value : Expr)
  /-- As in `start..stop`, both bounds included. -/
  | range (start stop : Expr)
  | structLit (module : Option String) (name : String) (fields : List (String × Expr))
  | arrayLit (elements : List Expr)
  /-- As in `cast<T>(value)`. -/
  | cast (ty : TypeExpr) (value : Expr)
  /-- As in `sizeof<T>`. -/
  | sizeOfType (ty : TypeExpr)

end

/-- The place of a written type. -/
def TypeExpr.span : TypeExpr → Span
  | .named span .. | .pointer span .. | .array span .. | .function span .. => span

/-! ### Declarations without a body -/

/-- A declaration with `let`, `var` or `const`. -/
structure VarDecl where
  name : String
  ty : Option TypeExpr := none
  value : Option Expr := none
  isMutable : Bool := false
  isPublic : Bool := false

structure Param where
  span : Span := {}
  name : String
  ty : TypeExpr
  takesOwnership : Bool := false

/-- A data field of a struct declaration. -/
structure FieldDecl where
  span : Span := {}
  name : String
  ty : TypeExpr
  isPublic : Bool := false

structure EnumDecl where
  name : String
  isPublic : Bool := false
  members : List String
  deriving DecidableEq, Repr

/-! ### Statements -/

mutual

/-- A list of statements between braces. -/
structure Block where
  span : Span
  stmts : List Stmt

/-- A statement with its place. -/
structure Stmt where
  span : Span
  kind : StmtKind

/-- The forms of a statement. -/
inductive StmtKind where
  | var (decl : VarDecl)
  | fn (decl : FnDecl)
  | struct (decl : StructDecl)
  | enum (decl : EnumDecl)
  /-- As in `use "module" as localName;`. -/
  | importModule (module : String) (localName : Option String)
  | ret (value : Option Expr)
  /-- One `if`, any number of `elif`, and perhaps `else`. -/
  | conditional (branches : List (Expr × Block)) (otherwise : Option Block)
  /-- As in `loop`, `loop (cond)` or `loop (init; cond; step)`. -/
  | loop (init : Option Stmt) (cond step : Option Expr) (body : Block)
  | breakLoop
  | continueLoop
  | switch (scrutinee : Expr) (cases : List SwitchCase) (otherwise : Option Block)
  | defer (stmt : Stmt)
  | block (block : Block)
  | expr (expr : Expr)

/-- A function or method. -/
structure FnDecl where
  name : String
  params : List Param
  returnType : TypeExpr
  body : Block
  isPublic : Bool
  /-- Whether the caller owns the returned pointer. -/
  returnsOwnership : Bool
  /-- Whether the function takes over every pointer it is given. -/
  takesOwnership : Bool

/-- A function declared in a struct. -/
structure MethodDecl where
  span : Span
  decl : FnDecl

structure StructDecl where
  name : String
  isPublic : Bool
  fields : List FieldDecl
  methods : List MethodDecl

/-- As in `case a, b: { … }`. -/
structure SwitchCase where
  span : Span
  values : List Expr
  body : Block

end

/-! ### Modules -/

/-- One source file. -/
structure Module where
  span : Span := {}
  name : String
  filePath : String := ""
  /-- The text it was parsed from, where diagnostics should quote it. -/
  source : Option String := none
  body : List Stmt

/-- All modules to be checked together. -/
structure Program where
  modules : List Module := []

end Warden

import Warden.Syntax.Basic

/-!
# Building syntax by hand

Short constructors for front ends that make syntax in code rather than read it. They leave every
span unplaced and every identity 0: `Module.numbered` gives lines and `Program.identified` gives
identities.
-/

namespace Warden

namespace TypeExpr

def ofName (name : String) : TypeExpr :=
  .named {} none name

def ofQualified (module name : String) : TypeExpr :=
  .named {} (some module) name

def toPointee (pointee : TypeExpr) : TypeExpr :=
  .pointer {} pointee

end TypeExpr

namespace Expr

/-- An expression of that form, without place and identity. -/
def ofKind (kind : ExprKind) : Expr :=
  { id := 0, span := {}, kind }

def ofInt (value : Int64) : Expr :=
  ofKind (.int value)

def ofIdent (name : String) : Expr :=
  ofKind (.ident name)

/-- The call `alloc(size)`. -/
def alloc (size : Int64) : Expr :=
  ofKind (.call (ofIdent "alloc") [ofInt size])

/-- The expression `cast<*T>(alloc(size))`. -/
def allocAs (pointee : TypeExpr) (size : Int64) : Expr :=
  ofKind (.cast pointee.toPointee (alloc size))

end Expr

namespace TypeExpr

/-- An array type, with a length if it is given. -/
def arrayOf (element : TypeExpr) (size : Option Int64) : TypeExpr :=
  .array {} element (size.map Expr.ofInt)

def functionOf (params : List TypeExpr) (ret : TypeExpr) : TypeExpr :=
  .function {} params ret

end TypeExpr

namespace Block

def ofStmts (stmts : List Stmt) : Block :=
  { span := {}, stmts }

end Block

namespace Stmt

/-- A statement of that form, without place. -/
def ofKind (kind : StmtKind) : Stmt :=
  { span := {}, kind }

/-- Pins the statement to the start of a line. -/
def atLine (s : Stmt) (line : Nat) : Stmt :=
  { s with span := .point line 1 }

def ofExpr (e : Expr) : Stmt :=
  ofKind (.expr e)

/-- The statement `free(name);`. -/
def free (name : String) : Stmt :=
  ofExpr (.ofKind (.call (.ofIdent "free") [.ofIdent name]))

/-- A mutable variable. -/
def mutableVar (name : String) (ty : Option TypeExpr) (value : Option Expr) : Stmt :=
  ofKind (.var { name, ty, value, isMutable := true })

/-- A constant. -/
def constant (name : String) (ty : Option TypeExpr) (value : Expr) : Stmt :=
  ofKind (.var { name, ty, value := some value })

/-- A loop with a condition only. -/
def whileLoop (cond : Expr) (body : List Stmt) : Stmt :=
  ofKind (.loop none (some cond) none (.ofStmts body))

/-- A loop with all three parts of its head. -/
def forLoop (init : Stmt) (cond step : Expr) (body : List Stmt) : Stmt :=
  ofKind (.loop (some init) (some cond) (some step) (.ofStmts body))

end Stmt

end Warden

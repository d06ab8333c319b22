import Warden.Check.State
import Warden.Ty.Verdict

/-!
# Operators

The typing rules of operators, indexing, assignment, ranges and array literals. The rules proper are
functions from the operands' types to a type or the cause of its absence. An operand without a type
has been reported already, so that the whole then stays silent.
-/

namespace Warden

namespace BinaryOp

/-- Groups of operators with one rule each. -/
inductive Family where
  | arithmetic
  | comparison
  | logical
  deriving DecidableEq, Repr

def family : BinaryOp → Family
  | .add | .sub | .mul | .div | .mod => .arithmetic
  | .eq | .ne | .lt | .le | .gt | .ge => .comparison
  | .and | .or => .logical

/-- Whether the operator may shift a pointer. -/
def shiftsPointers : BinaryOp → Bool
  | .add | .sub => true
  | _ => false

/-- The type of an operation. Arithmetic takes numbers, or shifts a pointer by an integer;
comparison takes types that go together; logic takes `bool`. -/
def resultType (op : BinaryOp) (lhs rhs : Ty) : Except Cause Ty :=
  match op.family with
  | .arithmetic =>
    match lhs.promote? rhs with
    | some ty => .ok ty
    | none =>
      if op.shiftsPointers && lhs.isPointer && rhs.isIntegerLike then .ok lhs
      else .error (.nonNumericOperands op lhs rhs)
  | .comparison => if lhs.assignable rhs then .ok .bool else .error (.incomparable lhs rhs)
  | .logical =>
    if lhs = .bool ∧ rhs = .bool then .ok .bool else .error (.nonBoolOperands op lhs rhs)

end BinaryOp

namespace UnaryOp

/-- The type of an operation on one operand. -/
def resultType (op : UnaryOp) (operand : Ty) : Except Cause Ty :=
  match op, operand with
  | .neg, ty => if ty.isNumeric then .ok ty else .error (.badOperand .neg ty)
  | .not, ty => if ty = .bool then .ok .bool else .error (.badOperand .not ty)
  | .deref, .pointer pointee => .ok pointee
  | .deref, ty => .error (.badOperand .deref ty)
  | .addrOf, ty => .ok (.pointer ty)

end UnaryOp

namespace Ty

/-- The type of the elements, if values of the type can be indexed. -/
def element? : Ty → Option Ty
  | .array element _ => some element
  | .pointer pointee => some pointee
  | .basic name => if name == "string" then some char else none
  | _ => none

end Ty

namespace Expr

/-- The name, if the expression is just a name. -/
def ident? (e : Expr) : Option String :=
  match e.kind with
  | .ident name => some name
  | _ => none

/-- Whether the expression denotes a place that can be assigned to. -/
def isPlace (e : Expr) : Bool :=
  match e.kind with
  | .ident _ | .member .. | .index .. | .unary .deref _ => true
  | _ => false

end Expr

namespace Check

open CheckM

def binary (op : BinaryOp) (lhs rhs : Option Ty) (span : Span) : CheckM (Option Ty) :=
  match lhs, rhs with
  | some lhs, some rhs => settle (op.resultType lhs rhs) span
  | _, _ => return none

/-- Reports the use of an expression that is a freed name. -/
def useOf (e : Expr) (scope : ScopeId) : CheckM Unit :=
  match e.ident? with
  | some name => modify (·.checkUse scope name e.span)
  | none => return

/-- An operation on one operand. To follow a pointer is to use it. -/
def unary (op : UnaryOp) (operand : Expr) (ty : Option Ty) (span : Span) (scope : ScopeId) :
    CheckM (Option Ty) := do
  match ty with
  | none => return none
  | some ty =>
    if op == .deref && ty.isPointer then useOf operand scope
    settle (op.resultType ty) span

/-- The type of `object[index]`, which uses the object. -/
def index (object index : Expr) (objectTy indexTy : Option Ty) (scope : ScopeId) :
    CheckM (Option Ty) := do
  match objectTy, indexTy with
  | some objectTy, some indexTy =>
    if !indexTy.isIntegerLike then fail (.mismatch .int indexTy) index.span
    else
      match objectTy.element? with
      | none => fail (.notIndexable objectTy) object.span
      | some element =>
        useOf object scope
        return some element
  | _, _ => return none

/-- Why an expression cannot be assigned to, judged before anything is typed. -/
def assignmentFault? (c : Checker) (target : Expr) (scope : ScopeId) : Option Cause :=
  if !target.isPlace then some .badAssignmentTarget
  else
    match target.ident? with
    | none => none
    | some name =>
      if (c.scopes.lookup? scope name).any (!·.isMutable) then some (.immutableAssignment name)
      else none

/-- Keeps the ledger in step with a name that has been given a value. A value that the receiver owns
opens a record; a pointer held by another name is shared with it. -/
def bindValue (name : String) (value : Expr) (owns sharesPointer : Bool) (span : Span)
    (scope : ScopeId) : CheckM Unit :=
  if owns then modify (·.allocate scope name span)
  else
    match value.ident? with
    | some source => if sharesPointer then modify (·.rename scope name source) else return
    | none => return

/-- The type of `target = value` once both are typed. `owns` says whether the value hands over a
pointer. -/
def assign (target value : Expr) (targetTy valueTy : Option Ty) (owns : Checker → Bool)
    (scope : ScopeId) : CheckM (Option Ty) := do
  match targetTy, valueTy with
  | some targetTy, some valueTy =>
    if !targetTy.assignable valueTy then fail (.mismatch targetTy valueTy) value.span
    else
      if let some name := target.ident? then
        bindValue name value (owns (← get)) (targetTy.isPointer && valueTy.isPointer) target.span
          scope
      return some targetTy
  | _, _ => return none

/-! ### Ranges and arrays -/

/-- Whether a number fits 64 bits with sign. -/
def fitsWord (n : Int) : Bool :=
  Int64.minValue.toInt ≤ n && n ≤ Int64.maxValue.toInt

/-- The length of a range between two numbers, both included. It is left open if the distance of the
bounds, or the length, does not fit 64 bits. -/
def rangeSize (lo hi : Int64) : Option ArraySize :=
  let distance := hi.toInt - lo.toInt
  if fitsWord distance && fitsWord (distance + 1) then some (.literal (max (distance + 1) 0))
  else none

/-- The length of a range whose bounds are written as numbers. -/
def literalRangeSize : ExprKind → ExprKind → Option ArraySize
  | .int lo, .int hi => rangeSize lo hi
  | _, _ => none

/-- Insists on an integer. -/
def wantInt (e : Expr) (ty : Ty) : CheckM Bool :=
  if ty = .int then return true else reject (.mismatch .int ty) e.span

/-- The type of `start..stop`. -/
def range (start stop : Expr) (startTy stopTy : Option Ty) : CheckM (Option Ty) := do
  match startTy, stopTy with
  | some startTy, some stopTy =>
    let startOk ← wantInt start startTy
    let stopOk ← wantInt stop stopTy
    if startOk && stopOk then
      return some (.array .int (literalRangeSize start.kind stop.kind))
    else return none
  | _, _ => return none

/-- Compares an element of an array literal with the first one. -/
def arrayElement (expected : Option Ty) (e : Expr) (ty : Option Ty) : CheckM Bool :=
  match ty, expected with
  | none, _ => return false
  | some _, none => return true
  | some ty, some expected =>
    if (expected.verdict ty).isMatch then return true else reject (.mismatch expected ty) e.span

/-- The length written in an array type, from the type of the expression that states it. -/
def arraySize (size : Expr) (ty : Option Ty) : CheckM (Option ArraySize) :=
  match ty with
  | none => return none
  | some ty =>
    match size.ident? with
    | some name => return some (.symbolic name)
    | none =>
      if ty = .int then return some (.symbolic "<expr>")
      else fail (.mismatch .int ty) size.span

end Check

end Warden

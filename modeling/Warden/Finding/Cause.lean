import Warden.Diagnostic.Basic
import Warden.Syntax.Basic
import Warden.Ty.Basic

/-!
# What can be found

A `Cause` says what is wrong with a program, with the names, types and lines that matter, and
nothing about how it is worded. The wording is in one place: `Cause.tag`, `Cause.severity`,
`Cause.message`, `Cause.note?` and `Cause.help?`.

Only three causes are warnings: a leak, the free of something never allocated, and a superfluous
`default`.
-/

namespace Warden

/-- The stable names under which findings are filed. -/
inductive Tag where
  | duplicateSymbol
  | undefinedIdentifier
  | argumentCountMismatch
  | invalidControlFlow
  | missingField
  | typeMismatch
  | unknownType
  | notCallable
  | invalidOperand
  | notIndexable
  | unknownMember
  | privateAccess
  | immutableAssignment
  | returnMismatch
  | nonExhaustiveSwitch
  | duplicateModule
  | moduleNotFound
  | circularDependency
  | invalidModuleAccess
  | doubleFree
  | useAfterFree
  | memoryLeak
  | untrackedFree
  | redundantDefault
  deriving DecidableEq, Repr, Inhabited

namespace Tag

def name : Tag → String
  | .duplicateSymbol => "Duplicate Symbol"
  | .undefinedIdentifier => "Undefined Identifier"
  | .argumentCountMismatch => "Argument Count Mismatch"
  | .invalidControlFlow => "Invalid Control Flow"
  | .missingField => "Missing Field"
  | .typeMismatch => "Type Mismatch"
  | .unknownType => "Unknown Type"
  | .notCallable => "Not Callable"
  | .invalidOperand => "Invalid Operand"
  | .notIndexable => "Not Indexable"
  | .unknownMember => "Unknown Member"
  | .privateAccess => "Private Access"
  | .immutableAssignment => "Immutable Assignment"
  | .returnMismatch => "Return Mismatch"
  | .nonExhaustiveSwitch => "Non Exhaustive Switch"
  | .duplicateModule => "Duplicate Module"
  | .moduleNotFound => "Module Not Found"
  | .circularDependency => "Circular Dependency"
  | .invalidModuleAccess => "Invalid Module Access"
  | .doubleFree => "Double Free"
  | .useAfterFree => "Use After Free"
  | .memoryLeak => "Memory Leak"
  | .untrackedFree => "Untracked Free"
  | .redundantDefault => "Redundant Default"

/-- Whether findings of that name come from the memory analysis. -/
def isMemory : Tag → Bool
  | .doubleFree | .useAfterFree | .memoryLeak | .untrackedFree => true
  | _ => false

end Tag

/-- Who an allocation is charged to. -/
inductive AllocationOwner where
  | function (name : String)
  | module (name : String)
  deriving DecidableEq, Repr, Inhabited

namespace AllocationOwner

def render : AllocationOwner → String
  | .function name => s!"function `{name}`"
  | .module name => s!"module `{name}`"

end AllocationOwner

/-- What is wrong. -/
inductive Cause where
  -- declarations
  | duplicateSymbol (name : String) (previousLine : Nat)
  | duplicateEnumMember (enum member : String)
  | duplicateMember (owner name : String)
  | fieldSetTwice (field : String)
  | localNameTaken (name : String)
  -- names
  | undefinedIdentifier (name : String) (isModule : Bool)
  | undefinedItem (module name : String)
  | privateItem (module name : String)
  | moduleNotImported (name : String)
  | dotOnModule (module member : String)
  -- calls
  | argumentCount (callee : String) (expected found : Nat)
  | notCallable (ty : Ty)
  | fieldNotCallable (field : String) (ty : Ty)
  | freeOfNonPointer (ty : Ty)
  -- control flow
  | breakOutsideLoop
  | continueOutsideLoop
  | returnOutsideFunction
  | missingReturn (function : String) (ty : Ty)
  | missingReturnValue (ty : Ty)
  | valueFromVoid
  | returnMismatch (expected found : Ty)
  | nonExhaustiveSwitch (enum : String) (missing : List String)
  | redundantDefault (enum : String)
  -- types
  | mismatch (expected found : Ty)
  | voidVariable (name : String)
  | incomparable (lhs rhs : Ty)
  | unknownType (name : String)
  | notAType (module name : String)
  | cannotInfer (name : String)
  | emptyArrayLiteral
  -- operators
  | typeAsValue (name : String)
  | nonNumericOperands (op : BinaryOp) (lhs rhs : Ty)
  | nonBoolOperands (op : BinaryOp) (lhs rhs : Ty)
  | badOperand (op : UnaryOp) (found : Ty)
  | badAssignmentTarget
  | immutableAssignment (name : String)
  | notIndexable (ty : Ty)
  -- structs and enums
  | containsItself (struct : String)
  | unknownStruct (name : String)
  | notAStruct (name : String)
  | noMember (ty : Ty) (member : String)
  | noStructMember (struct member : String)
  | noEnumMember (enum member : String)
  | noField (struct field : String)
  | privateMember (isMethod : Bool) (member struct module : String)
  | privateField (field struct : String)
  | missingFields (struct : String) (fields : List String)
  -- modules
  | duplicateModule (name : String)
  | moduleNotFound (name : String)
  | circularDependency (path : List String) (user used : String)
  | importNotAtTop (module : String)
  -- memory
  | untrackedFree (name : String)
  | doubleFree (name : String) (allocated freed : Nat)
  | transferAfterFree (name : String) (freed : Nat)
  | useAfterFree (name : String) (freed : Option Nat)
  | leak (name : String) (allocated : Nat) (owner : AllocationOwner)
  deriving DecidableEq, Repr

namespace Cause

/-- The name under which the cause is filed. -/
def tag : Cause → Tag
  | .duplicateSymbol .. | .duplicateEnumMember .. | .duplicateMember .. | .fieldSetTwice ..
  | .localNameTaken .. => .duplicateSymbol
  | .undefinedIdentifier .. | .undefinedItem .. => .undefinedIdentifier
  | .privateItem .. | .privateMember .. | .privateField .. => .privateAccess
  | .moduleNotImported .. | .moduleNotFound .. => .moduleNotFound
  | .dotOnModule .. | .importNotAtTop .. => .invalidModuleAccess
  | .argumentCount .. => .argumentCountMismatch
  | .notCallable .. | .fieldNotCallable .. => .notCallable
  | .breakOutsideLoop | .continueOutsideLoop | .returnOutsideFunction => .invalidControlFlow
  | .missingReturn .. | .missingReturnValue .. | .valueFromVoid | .returnMismatch .. =>
    .returnMismatch
  | .nonExhaustiveSwitch .. => .nonExhaustiveSwitch
  | .redundantDefault .. => .redundantDefault
  | .mismatch .. | .voidVariable .. | .incomparable .. | .freeOfNonPointer .. => .typeMismatch
  | .unknownType .. | .notAType .. | .cannotInfer .. | .emptyArrayLiteral | .containsItself ..
  | .unknownStruct .. | .notAStruct .. => .unknownType
  | .typeAsValue .. | .nonNumericOperands .. | .nonBoolOperands .. | .badOperand ..
  | .badAssignmentTarget => .invalidOperand
  | .immutableAssignment .. => .immutableAssignment
  | .notIndexable .. => .notIndexable
  | .noMember .. | .noStructMember .. | .noEnumMember .. | .noField .. => .unknownMember
  | .missingFields .. => .missingField
  | .duplicateModule .. => .duplicateModule
  | .circularDependency .. => .circularDependency
  | .untrackedFree .. => .untrackedFree
  | .doubleFree .. => .doubleFree
  | .transferAfterFree .. | .useAfterFree .. => .useAfterFree
  | .leak .. => .memoryLeak

def severity : Cause → Severity
  | .redundantDefault .. | .untrackedFree .. | .leak .. => .warning
  | _ => .error

/-- What an operator wants its operand to be. -/
def wanted : UnaryOp → String
  | .neg => "a numeric"
  | .not => "a `bool`"
  | .deref => "a pointer"
  | .addrOf => ""

/-- Names between backticks, with commas. -/
def quotedList (names : List String) : String :=
  ", ".intercalate (names.map fun name => s!"`{name}`")

def message : Cause → String
  | .duplicateSymbol name _ => s!"`{name}` is already defined in this scope"
  | .duplicateEnumMember enum member => s!"Enum member `{enum}.{member}` is declared more than once"
  | .duplicateMember owner name => s!"`{owner}` already has a member named `{name}`"
  | .fieldSetTwice field => s!"Field `{field}` is set more than once"
  | .localNameTaken name => s!"Module alias `{name}` is already in use"
  | .undefinedIdentifier name _ => s!"Undefined identifier `{name}`"
  | .undefinedItem module name => s!"Module `{module}` has no item named `{name}`"
  | .privateItem module name => s!"`{name}` is private to module `{module}`"
  | .moduleNotImported name => s!"No module is imported as `{name}`"
  | .dotOnModule module _ => s!"Cannot use `.` to access module `{module}`"
  | .argumentCount callee expected found =>
    s!"`{callee}` expects {expected} argument(s), found {found}"
  | .notCallable ty => s!"Type `{ty.render}` is not callable"
  | .fieldNotCallable field ty => s!"Field `{field}` of type `{ty.render}` is not callable"
  | .freeOfNonPointer ty => s!"`free` expects a pointer, found `{ty.render}`"
  | .breakOutsideLoop => "`break` outside of a loop"
  | .continueOutsideLoop => "`continue` outside of a loop"
  | .returnOutsideFunction => "`return` outside of a function"
  | .missingReturn function ty => s!"`{function}` must return a value of type `{ty.render}`"
  | .missingReturnValue ty => s!"Expected a return value of type `{ty.render}`"
  | .valueFromVoid => "A function returning `void` cannot return a value"
  | .returnMismatch expected found =>
    s!"Expected return type `{expected.render}`, found `{found.render}`"
  | .nonExhaustiveSwitch enum _ => s!"Switch over `{enum}` is not exhaustive"
  | .redundantDefault enum => s!"`default` is unreachable: every member of `{enum}` is covered"
  | .mismatch expected found => s!"Expected `{expected.render}`, found `{found.render}`"
  | .voidVariable name => s!"`{name}` cannot have type `void`"
  | .incomparable lhs rhs => s!"Cannot compare `{lhs.render}` with `{rhs.render}`"
  | .unknownType name => s!"Unknown type `{name}`"
  | .notAType module name => s!"`{module}::{name}` is not a type"
  | .cannotInfer name => s!"Cannot infer the type of `{name}`"
  | .emptyArrayLiteral => "Cannot infer the element type of an empty array literal"
  | .typeAsValue name => s!"`{name}` is a type, not a value"
  | .nonNumericOperands op lhs rhs =>
    s!"Operator `{op.symbol}` requires numeric operands, found `{lhs.render}` and `{rhs.render}`"
  | .nonBoolOperands op lhs rhs =>
    s!"Operator `{op.symbol}` requires `bool` operands, found `{lhs.render}` and `{rhs.render}`"
  | .badOperand op found =>
    s!"Unary operator expects {wanted op} operand, found `{found.render}`"
  | .badAssignmentTarget => "Invalid assignment target"
  | .immutableAssignment name => s!"Cannot assign twice to immutable variable `{name}`"
  | .notIndexable ty => s!"Type `{ty.render}` cannot be indexed"
  | .containsItself struct => s!"Struct `{struct}` cannot contain itself by value"
  | .unknownStruct name => s!"Unknown struct `{name}`"
  | .notAStruct name => s!"`{name}` is not a struct"
  | .noMember ty member => s!"Type `{ty.render}` has no member `{member}`"
  | .noStructMember struct member => s!"Struct `{struct}` has no member `{member}`"
  | .noEnumMember enum member => s!"Enum `{enum}` has no member `{member}`"
  | .noField struct field => s!"Struct `{struct}` has no field `{field}`"
  | .privateMember true member struct _ => s!"Method `{member}` of struct `{struct}` is private"
  | .privateMember false member struct _ => s!"Field `{member}` of struct `{struct}` is private"
  | .privateField field struct => s!"Field `{field}` of struct `{struct}` is private"
  | .missingFields struct fields => s!"Missing field(s) {quotedList fields} in `{struct}` literal"
  | .duplicateModule name => s!"Module `{name}` is defined more than once"
  | .moduleNotFound name => s!"Module `{name}` not found"
  | .circularDependency path _ _ =>
    "Circular dependency between modules: " ++ " -> ".intercalate path
  | .importNotAtTop module => s!"`use \"{module}\"` must appear at the top level of a module"
  | .untrackedFree name => s!"free of `{name}` without a matching alloc"
  | .doubleFree name _ _ => s!"`{name}` is freed more than once"
  | .transferAfterFree name _ => s!"ownership of `{name}` passed on after it was freed"
  | .useAfterFree name _ => s!"`{name}` is used after it was freed"
  | .leak name _ _ => s!"potential leak: `{name}` is never freed"

/-- Further detail. -/
def note? : Cause → Option String
  | .duplicateSymbol _ line => if line > 0 then some s!"previously defined at line {line}" else none
  | .missingReturn .. => some "not every path through the body ends in `return`"
  | .nonExhaustiveSwitch enum missing =>
    some ("missing: " ++ quotedList (missing.map fun member => s!"{enum}.{member}"))
  | .privateMember _ _ struct module => some s!"`{struct}` is declared in module `{module}`"
  | .circularDependency _ user used =>
    some s!"`{user}` uses `{used}`, which is still being checked"
  | .untrackedFree _ => some "the analyzer never saw an allocation bound to this name"
  | .doubleFree _ allocated freed =>
    some s!"allocated at line {allocated}, first freed at line {freed}"
  | .transferAfterFree _ freed => some s!"freed at line {freed}"
  | .useAfterFree _ freed => freed.map fun line => s!"freed at line {line}"
  | .leak _ allocated owner => some s!"allocated at line {allocated} in {owner.render}"
  | _ => none

/-- What to do about it. -/
def help? : Cause → Option String
  | .undefinedIdentifier name true =>
    some s!"`{name}` is a module; access its items with `{name}::name`"
  | .privateItem module name => some s!"mark `{name}` as `pub` in `{module}`"
  | .moduleNotImported name => some s!"add `use \"{name}\";` at the top of the module"
  | .dotOnModule module member => some s!"use `{module}::{member}` instead"
  | .nonExhaustiveSwitch .. => some "add the missing cases or a `default` branch"
  | .cannotInfer _ => some "add a type annotation or an initializer"
  | .emptyArrayLiteral => some "give the variable an explicit array type"
  | .immutableAssignment name => some s!"declare `{name}` with `var` to make it mutable"
  | .containsItself struct => some s!"store a pointer instead: `*{struct}`"
  | .leak name _ _ => some s!"add `defer free({name});` after the allocation"
  | _ => none

/-- The cause in words, not yet placed. -/
def draft (c : Cause) : Diagnostic.Draft :=
  { tag := c.tag.name
    severity := c.severity
    message := c.message
    note := c.note?
    help := c.help? }

end Cause

end Warden

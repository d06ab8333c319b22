/-!
# Types of the checked language

A `Ty` is what the checker computes for an expression. Struct types carry only an identity and a
name; their members live in the struct table (`Warden.StructTable`), so that a struct can mention
itself while it is being declared. An enum has no type former of its own: its values have the basic
type named after it, and every basic name that is not built in is read as an enum.

Equality of types is structural and decidable: `Ty.same` decides it, and `Ty.same_iff` says so.
-/

namespace Warden

/-- Position of a struct in the struct table. -/
abbrev StructId := Nat

/-- The length of an array, where the type states one. -/
inductive ArraySize where
  /-- A number known while checking. -/
  | literal (count : Int)
  /-- A length only named, such as `N` in `[int; N]`. -/
  | symbolic (name : String)
  deriving DecidableEq, Repr, Inhabited

/-- A checked type. -/
inductive Ty where
  /-- A built-in type, or an enum by its name. -/
  | basic (name : String)
  | pointer (pointee : Ty)
  | array (element : Ty) (size : Option ArraySize)
  | struct (id : StructId) (name : String)
  | function (params : List Ty) (ret : Ty)
  deriving Repr, Inhabited

namespace Ty

/-! ### Equality -/

mutual

/-- Whether two types are the same tree. -/
def same : Ty → Ty → Bool
  | .basic a, .basic b => a == b
  | .pointer a, .pointer b => same a b
  | .array a m, .array b n => same a b && m == n
  | .struct i a, .struct j b => i == j && a == b
  | .function ps a, .function qs b => sameAll ps qs && same a b
  | _, _ => false

/-- Whether two lists of types are the same, position by position. -/
def sameAll : List Ty → List Ty → Bool
  | [], [] => true
  | a :: as, b :: bs => same a b && sameAll as bs
  | _, _ => false

end

mutual

/-- Equality of types is decided by `same`. -/
theorem same_iff : ∀ a b : Ty, same a b = true ↔ a = b
  | .basic a, b => by cases b <;> simp [same]
  | .pointer a, b => by
    cases b <;> simp [same]
    exact same_iff a _
  | .array a m, b => by
    cases b <;> simp [same]
    intro _
    exact same_iff a _
  | .struct i a, b => by cases b <;> simp [same]
  | .function ps a, b => by
    cases b <;> simp [same]
    exact and_congr (sameAll_iff ps _) (same_iff a _)

/-- Equality of lists of types is decided by `sameAll`. -/
theorem sameAll_iff : ∀ as bs : List Ty, sameAll as bs = true ↔ as = bs
  | [], bs => by cases bs <;> simp [sameAll]
  | a :: as, bs => by
    cases bs <;> simp [sameAll]
    exact and_congr (same_iff a _) (sameAll_iff as _)

end

instance : DecidableEq Ty := fun a b =>
  decidable_of_iff (same a b = true) (same_iff a b)

/-! ### Built-in types -/

def int : Ty := .basic "int"
def bool : Ty := .basic "bool"
def char : Ty := .basic "char"
def string : Ty := .basic "string"
def void : Ty := .basic "void"

/-- The numeric types, narrowest first. -/
def numericNames : List String := ["int", "float", "double"]

/-- The names that are types without a declaration. -/
def builtinNames : List String := ["int", "float", "double", "bool", "char", "string", "void"]

/-- Whether a name is a built-in type. -/
def isBuiltin (name : String) : Bool :=
  builtinNames.contains name

/-! ### Questions about a type -/

def isVoid : Ty → Bool
  | .basic name => name == "void"
  | _ => false

/-- Whether the type is an enum: a basic name that is not built in. -/
def isEnum : Ty → Bool
  | .basic name => !isBuiltin name
  | _ => false

def isNumeric : Ty → Bool
  | .basic name => numericNames.contains name
  | _ => false

def isPointer : Ty → Bool
  | .pointer _ => true
  | _ => false

def isArray : Ty → Bool
  | .array _ _ => true
  | _ => false

/-- Whether values of the type can index an array: integers, characters and enums. -/
def isIntegerLike : Ty → Bool
  | .basic name => name == "int" || name == "char" || !isBuiltin name
  | _ => false

/-- The struct behind a struct value or a pointer to one. -/
def structId? : Ty → Option StructId
  | .struct id _ => some id
  | .pointer (.struct id _) => some id
  | _ => none

/-- Place of a numeric type on the ladder `int`, `float`, `double`. -/
def rank? : Ty → Option Nat
  | .basic name => numericNames.findIdx? (· == name)
  | _ => none

/-- The type of an arithmetic result: the wider of two numeric operands. -/
def promote? (a b : Ty) : Option Ty := do
  let i ← a.rank?
  let j ← b.rank?
  (numericNames[max i j]?).map .basic

/-! ### Text -/

/-- The type as diagnostics write it. Array lengths and parameter types are left out. -/
def render : Ty → String
  | .basic name => name
  | .pointer pointee => pointee.render ++ "*"
  | .array element _ => element.render ++ "[]"
  | .struct _ name => s!"struct {name}"
  | .function params ret => s!"fn({params.length} params) -> {ret.render}"

end Ty

end Warden

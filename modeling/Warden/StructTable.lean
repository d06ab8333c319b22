import Warden.Ty.Basic

/-!
# Struct definitions

A struct is declared in two steps. `StructTable.reserve` gives it an identity and an empty
definition, so that the types of its fields and methods can mention it before they are known.
`StructTable.finalize` then installs the members that a `StructDraft` has collected. A definition is
finalized at most once and never changes afterwards.
-/

namespace Warden

/-- What a method declares about `self` and about ownership. -/
structure MethodTraits where
  /-- Whether the first parameter is named `self`. -/
  hasSelf : Bool := false
  /-- Whether the caller owns the pointer that the method returns. -/
  returnsOwnership : Bool := false
  /-- Whether the method takes over every pointer it is given. -/
  takesOwnership : Bool := false
  /-- Per declared parameter, `self` included, whether the method takes it over. -/
  ownedParams : List Bool := []
  deriving DecidableEq, Repr, Inhabited

/-- A member is a data field or a method. -/
inductive MemberKind where
  | field
  | method (traits : MethodTraits)
  deriving DecidableEq, Repr, Inhabited

/-- A named member of a struct. -/
structure StructMember where
  name : String
  ty : Ty
  isPublic : Bool
  kind : MemberKind
  deriving DecidableEq, Repr, Inhabited

namespace StructMember

def isMethod (m : StructMember) : Bool :=
  match m.kind with
  | .field => false
  | .method _ => true

/-- Whether the method takes over the argument for its declared parameter `index`. -/
def consumesParam (m : StructMember) (index : Nat) : Bool :=
  match m.kind with
  | .field => false
  | .method traits => traits.takesOwnership || traits.ownedParams.getD index false

end StructMember

/-- The definition of one struct. -/
structure StructDef where
  id : StructId
  name : String
  /-- The module that declares the struct. -/
  module : String
  isPublic : Bool
  /-- Fields, then methods, each in order of declaration; empty until the struct is finalized. -/
  members : List StructMember := []
  isFinalized : Bool := false
  deriving DecidableEq, Repr, Inhabited

namespace StructDef

def member? (d : StructDef) (name : String) : Option StructMember :=
  d.members.find? (·.name == name)

def fields (d : StructDef) : List StructMember :=
  d.members.filter (!·.isMethod)

def methods (d : StructDef) : List StructMember :=
  d.members.filter (·.isMethod)

/-- The type of the struct's values. -/
def ty (d : StructDef) : Ty :=
  .struct d.id d.name

end StructDef

/-- The members collected for a reserved struct. -/
structure StructDraft where
  id : StructId
  fields : List StructMember := []
  methods : List StructMember := []
  deriving DecidableEq, Repr, Inhabited

namespace StructDraft

/-- The collected members in the order in which a definition lists them. -/
def members (d : StructDraft) : List StructMember :=
  d.fields ++ d.methods

/-- Whether a member of that name has been collected. -/
def contains (d : StructDraft) (name : String) : Bool :=
  d.members.any (·.name == name)

/-- Adds a data field, unless its name is taken. -/
def addField? (d : StructDraft) (name : String) (ty : Ty) (isPublic : Bool) : Option StructDraft :=
  if d.contains name then none
  else some { d with fields := d.fields ++ [{ name, ty, isPublic, kind := .field }] }

/-- Adds a method, unless its name is taken. -/
def addMethod? (d : StructDraft) (name : String) (ty : Ty) (isPublic : Bool)
    (traits : MethodTraits) : Option StructDraft :=
  if d.contains name then none
  else some { d with methods := d.methods ++ [{ name, ty, isPublic, kind := .method traits }] }

end StructDraft

/-- Every struct of a program; a struct's identity is its position. -/
structure StructTable where
  defs : Array StructDef := #[]
  deriving DecidableEq, Repr, Inhabited

namespace StructTable

def size (t : StructTable) : Nat :=
  t.defs.size

def get? (t : StructTable) (id : StructId) : Option StructDef :=
  t.defs[id]?

/-- Appends an empty definition; its identity is the table's size before. -/
def reserve (t : StructTable) (name module : String) (isPublic : Bool) : StructTable :=
  { t with defs := t.defs.push { id := t.size, name, module, isPublic } }

/-- Installs the members of a draft. Refused if the struct is unknown or already finalized. -/
def finalize? (t : StructTable) (d : StructDraft) : Option StructTable :=
  match t.get? d.id with
  | none => none
  | some s =>
    if s.isFinalized then none
    else some ⟨t.defs.set! d.id { s with members := d.members, isFinalized := true }⟩

/-- The member of that name of the struct `id`. -/
def member? (t : StructTable) (id : StructId) (name : String) : Option StructMember := do
  (← t.get? id).member? name

end StructTable

end Warden

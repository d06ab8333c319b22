import Mathlib.Logic.Relation
import Warden.Proofs.Observing

/-!
# A check as a chain of moves

What a check does to its state can be cut into moves (`Checker.Move`). Expressions and written types
are looked at without declaring anything; scopes are added and left; a symbol is declared; an enum
is declared together with its members; a struct is reserved, and later its members are installed. A
move says what is known where it is made. When the members of a struct are installed, the struct is
the latest one, their types are known, and none of the data fields has the type of the struct.

Every part of a check goes by moves. This is proved together with what it finds (`Judged`).
-/

namespace Warden

open CheckM Check

/-- Whether the symbol is an enum or a member of one. -/
def Symbol.isOfEnum (s : Symbol) : Bool :=
  match s.kind with
  | .enum _ | .enumMember => true
  | _ => false

/-- What has been collected for a struct is well typed. -/
def DraftWellTyped (t : StructTable) (draft : StructDraft) : Prop :=
  ∀ m ∈ draft.members, m.WellTyped t

/-- What has been collected for the struct that was reserved last: the types are known, and no data
field has the type of the struct itself. -/
structure StructDraft.Completes (draft : StructDraft) (t : StructTable) : Prop where
  latest : t.size = draft.id + 1
  wellTyped : DraftWellTyped t draft
  fields : ∀ s, t.get? draft.id = some s → ∀ m ∈ draft.members, m.isMethod = false → m.ty ≠ s.ty

namespace Checker

/-- One move of a check. -/
inductive Move : Checker → Checker → Prop where
  | enter {c} (m : Module) : Move c { c with context := c.context.enter m }
  | report {c} (cause : Cause) (span : Span) : Move c (c.report cause span)
  | observe {c} {α : Type} {node : NodeId → Prop} {m : CheckM α} : Observes node m →
      (m.exec c).WellTyped → Move c (m.exec c)
  | memory {c f} : MemoryOp f → Move c (f c)
  | setWalk {c walk} : (∀ f ∈ walk.frames, f.returnType.KnownIn c.structs) → Move c { c with walk }
  | addModule {c name scopes} : c.scopes.addModule? name = some scopes → Move c { c with scopes }
  | addImport {c id module localName scopes} :
      c.scopes.addImport? id module localName = some scopes → Move c { c with scopes }
  | addBlock {c} (parent : ScopeId) (name : String) :
      Move c { c with scopes := c.scopes.addBlock parent name }
  | addFunction {c} (parent : ScopeId) (name : String) :
      Move c { c with scopes := c.scopes.addFunction parent name }
  | declare {c symbol scope scopes} : symbol.WellTyped c.structs → symbol.isOfEnum = false →
      c.scopes.insert? scope symbol = some scopes → Move c { c with scopes }
  | enum {c} (decl : EnumDecl) (span : Span) (scope : ScopeId) :
      Move c ((enumDecl decl span scope).exec c)
  | reserve {c} (name module : String) (isPublic : Bool) :
      Move c { c with structs := c.structs.reserve name module isPublic }
  | finalize {c draft structs} : draft.Completes c.structs →
      c.structs.finalize? draft = some structs → Move c { c with structs }

/-- Moves, one after the other. -/
def Moves : Checker → Checker → Prop :=
  Relation.ReflTransGen Move

/-- No struct is lost, and each keeps its name. -/
theorem Move.extend {c d : Checker} (hmove : Move c d) : c.structs.Extends d.structs := by
  cases hmove with
  | observe hm _ => exact (hm.quiet c).structs ▸ .refl _
  | memory hf => exact (hf.step c).structs ▸ .refl _
  | enum decl span scope =>
    have hstructs : ((enumDecl decl span scope).exec c).structs = c.structs := by
      refine binds_enumDecl scope decl span (fun d => d.structs = c.structs) ⟨?_, ?_, ?_, ?_⟩ c rfl
      · exact fun _ _ h => h
      · exact fun _ h => h
      · exact fun name span h => ((memoryStep_allocate _ scope name span).structs).trans h
      · exact fun target source h => ((memoryStep_rename _ scope target source).structs).trans h
    exact hstructs ▸ .refl _
  | reserve name module isPublic => exact c.structs.extends_reserve name module isPublic
  | finalize _ hstructs => exact StructTable.extends_finalize? hstructs
  | _ => exact .refl _

namespace Moves

variable {c d e : Checker}

theorem refl (c : Checker) : Moves c c :=
  Relation.ReflTransGen.refl

theorem one (h : Move c d) : Moves c d :=
  Relation.ReflTransGen.single h

theorem trans (h : Moves c d) (h' : Moves d e) : Moves c e :=
  Relation.ReflTransGen.trans h h'

theorem extend (hmoves : Moves c d) : c.structs.Extends d.structs := by
  induction hmoves with
  | refl => exact .refl _
  | tail _ hmove ih => exact ih.trans hmove.extend

end Moves

end Checker

end Warden

import Warden.Proofs.Imports
import Warden.Proofs.Scoping

/-!
# What names mean while a check goes on

What a name means is read off the symbols, imports, owners and parents of scopes (`Scope.names`). A
tree in which the scopes of another one are found unchanged in these (`ScopeTree.SameNames`) gives
the same answers from them, whatever has been added below and whatever has become of the memory:
names lead to the same declarations, modules to the same items, and the names of types to the same
enums.

The check of an expression and the check of a block in a scope of its own both leave such a tree.
-/

namespace Warden

open CheckM Check

/-- What a scope says about names. -/
def Scope.names (s : Scope) : Scope :=
  { owner := s.owner, parent := s.parent, symbols := s.symbols, imports := s.imports }

theorem Scope.names_of_outline {s s' : Scope} (houtline : s'.outline = s.outline)
    (hsymbols : s'.symbols = s.symbols) : s'.names = s.names := by
  have howner : s'.owner = s.owner := (congrArg Scope.owner houtline :)
  have hparent : s'.parent = s.parent := (congrArg Scope.parent houtline :)
  have himports : s'.imports = s.imports := (congrArg Scope.imports houtline :)
  simp only [names, howner, hparent, himports, hsymbols]

namespace ScopeTree

/-! ### Declarations behind names -/

/-- The declaration behind `module::name`, with the scope that holds it, if it may be used. -/
def locateQualified? (t : ScopeTree) (id : ScopeId) (module name : String) :
    Option (ScopeId × Symbol) :=
  (t.findImport? id module).bind fun i =>
    (t.visible? i.scope name ((t.owningModule? id).getD "")).map (i.scope, ·)

theorem qualified?_eq (t : ScopeTree) (id : ScopeId) (module name : String) :
    t.qualified? id module name = (t.locateQualified? id module name).map (·.2) := by
  rw [qualified?, qualifiedLookup, locateQualified?]
  cases t.findImport? id module with
  | none => rfl
  | some i =>
    dsimp only [Option.bind_some]
    cases t.visible? i.scope name ((t.owningModule? id).getD "") with
    | some symbol => rfl
    | none => cases (t.scope i.scope).symbol? name <;> rfl

/-- The declaration that an expression refers to by its name alone. -/
def declaration? (t : ScopeTree) (id : ScopeId) : ExprKind → Option (ScopeId × Symbol)
  | .ident name => t.locate? id name
  | .qualified module name => t.locateQualified? id module name
  | _ => none

/-! ### Trees that agree on names -/

/-- The scopes of `t` are found in `u` with the same names. -/
structure SameNames (t u : ScopeTree) : Prop where
  arena : u.Arena
  size : t.size ≤ u.size
  names : ∀ i < t.size, (u.scope i).names = (t.scope i).names

namespace SameNames

variable {t u v : ScopeTree}

theorem refl (h : t.Arena) : t.SameNames t :=
  ⟨h, Nat.le_refl _, fun _ _ => rfl⟩

theorem trans (h : t.SameNames u) (h' : u.SameNames v) : t.SameNames v where
  arena := h'.arena
  size := Nat.le_trans h.size h'.size
  names i hi := (h'.names i (Nat.lt_of_lt_of_le hi h.size)).trans (h.names i hi)

/-- Memory has no part in what names mean. -/
theorem ofMemory (ht : t.Arena) (h : u.withoutMemory = t.withoutMemory) : t.SameNames u := by
  have hscope : ∀ i, (u.scope i).withoutMemory = (t.scope i).withoutMemory := by
    intro i
    rw [← scope_withoutMemory, h, scope_withoutMemory]
  refine ⟨ht.congr fun i => (congrArg Scope.parent (hscope i) :), ?_, fun i _ => ?_⟩
  · rw [← u.size_withoutMemory, h, size_withoutMemory]
  · exact (congrArg Scope.names (hscope i) :)

section

variable (h : t.SameNames u) {i : ScopeId} (hi : i < t.size)

include h hi

theorem symbol?_eq (name : String) : (u.scope i).symbol? name = (t.scope i).symbol? name :=
  (congrArg (fun s : Scope => s.symbol? name) (h.names i hi) :)

theorem imports_eq : (u.scope i).imports = (t.scope i).imports :=
  (congrArg Scope.imports (h.names i hi) :)

theorem owner_eq : (u.scope i).owner = (t.scope i).owner :=
  (congrArg Scope.owner (h.names i hi) :)

variable (ht : t.Arena)

include ht

theorem ancestors_eq : u.ancestors i = t.ancestors i :=
  ht.ancestors_eq_of_lt h.arena (fun j hj => (congrArg Scope.parent (h.names j hj) :)) hi

/-- What is looked for on the way outwards is found alike. -/
theorem findSome?_eq {α : Type} {f g : ScopeId → Option α} (hfg : ∀ j < t.size, f j = g j) :
    (u.ancestors i).findSome? f = (t.ancestors i).findSome? g := by
  rw [h.ancestors_eq hi ht]
  refine findSome?_congr_of_mem fun j hj => hfg j ?_
  exact Nat.lt_of_le_of_lt (ht.le_of_mem_ancestors hj) hi

theorem locate?_eq (name : String) : u.locate? i name = t.locate? i name :=
  h.findSome?_eq hi ht fun j hj => by rw [h.symbol?_eq hj]

theorem owningModule?_eq : u.owningModule? i = t.owningModule? i :=
  h.findSome?_eq hi ht fun j hj => by rw [h.owner_eq hj]

theorem findImport?_eq (name : String) : u.findImport? i name = t.findImport? i name :=
  h.findSome?_eq hi ht fun j hj => by rw [Scope.import?, Scope.import?, h.imports_eq hj]

variable (hknown : t.ModulesKnown)

include hknown

theorem locateQualified?_eq (module name : String) :
    u.locateQualified? i module name = t.locateQualified? i module name := by
  rw [locateQualified?, locateQualified?, h.findImport?_eq hi ht, h.owningModule?_eq hi ht]
  cases hfound : t.findImport? i module with
  | none => rfl
  | some m =>
    obtain ⟨j, -, hj⟩ := List.exists_of_findSome?_eq_some hfound
    have hm : m.scope < t.size := hknown.imported (List.mem_of_find?_eq_some hj)
    rw [Option.bind_some, Option.bind_some, visible?, visible?, h.symbol?_eq hm,
      h.owningModule?_eq hm ht]

theorem declaration?_eq (kind : ExprKind) : u.declaration? i kind = t.declaration? i kind := by
  cases kind with
  | ident name => exact h.locate?_eq hi ht name
  | qualified module name => exact h.locateQualified?_eq hi ht hknown module name
  | _ => rfl

theorem enumMembers?_eq (name : String) : u.enumMembers? i name = t.enumMembers? i name := by
  rw [enumMembers?, enumMembers?, lookup?, lookup?, h.locate?_eq hi ht]
  congr 1
  refine h.findSome?_eq hi ht fun j hj => ?_
  rw [h.imports_eq hj]
  refine findSome?_congr_of_mem fun m hm => ?_
  rw [h.symbol?_eq (hknown.imported hm)]

end

end SameNames

end ScopeTree

/-! ### Checks that leave names alone -/

/-- The action leaves what names mean from the scopes that were there. -/
def KeepsNames {α : Type} (scope : ScopeId) (m : CheckM α) : Prop :=
  ∀ c : Checker, c.scopes.Arena → scope < c.scopes.size → c.scopes.SameNames (m.exec c).scopes

namespace KeepsNames

variable {α β : Type} {scope : ScopeId}

theorem bind {m : CheckM α} {k : α → CheckM β} (hm : KeepsNames scope m)
    (hk : ∀ a, KeepsNames scope (k a)) : KeepsNames scope (m >>= k) := by
  intro c harena hscope
  have hsame := hm c harena hscope
  exact hsame.trans (hk _ _ hsame.arena (Nat.lt_of_lt_of_le hscope hsame.size))

theorem ofPure (a : α) : KeepsNames scope (pure a : CheckM α) :=
  fun _ harena _ => .refl harena

theorem observing {node : NodeId → Prop} {m : CheckM α} (hm : Observes node m) :
    KeepsNames scope m :=
  fun c harena _ => .ofMemory harena (hm.quiet c).scopes

/-- A block declares in a scope of its own. -/
theorem block (name : String) (b : Block) : KeepsNames scope (b.checkIn scope name) := by
  intro c harena hscope
  have hstays : Stays scope (b.checkIn scope name) :=
    .of_inStep fun _ h => (unconditional_true.lockstep h).inStep_block name b fun _ _ => trivial
  have hconfined := hstays c c harena hscope (.refl harena hscope false)
  have hdeclares : Declares [] scope (b.checkIn scope name) := declares_block name b
  obtain ⟨-, -, new, hnew, hnone⟩ := hdeclares c harena hscope
  have hnil : new = [] := by
    rw [List.eq_nil_iff_forall_not_mem]
    exact fun symbol hsymbol => List.not_mem_nil (hnone symbol hsymbol)
  refine ⟨hconfined.arena, hconfined.size, fun i hi => ?_⟩
  apply Scope.names_of_outline (hconfined.touched i hi).outline
  by_cases hhere : i = scope
  · rw [hhere, hnew, hnil, List.append_nil]
  · exact hconfined.symbols_eq hi hhere

end KeepsNames

end Warden

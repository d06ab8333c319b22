import Warden.Proofs.Arena

/-!
# The modules that scopes and structs belong to

A scope belongs to the module that is met first on the way outwards. The way of a scope never
changes, so a scope that belongs to a module goes on to do so, whatever is declared and whichever
scopes are added (`owningModule?_of_unmoved`). A scope that is added, unless it is a module, belongs
to the module of its parent (`owningModule?_addScope`).

A struct belongs to the module that it was reserved for (`StructTable.module?`).
-/

namespace Warden.ScopeTree

variable {name : String} {i : ScopeId}

variable {t u : ScopeTree}

/-- All scopes of the first tree are in the second one, at their places and with their owners. -/
def Unmoved (t u : ScopeTree) : Prop :=
  ∀ i < t.size, (u.scope i).parent = (t.scope i).parent ∧ (u.scope i).owner = (t.scope i).owner

/-- What is met first on a way outwards is still met first if the tree has grown, and if the way is
followed further. -/
theorem findSome?_climb {α : Type} {f g : ScopeId → Option α} {a : α}
    (hparent : ∀ i < t.size, (u.scope i).parent = (t.scope i).parent)
    (hsame : ∀ i < t.size, g i = f i) (hout : ∀ i, t.size ≤ i → f i = none) {m n : Nat} :
    m ≤ n → ∀ {i : ScopeId}, (t.climb m i).findSome? f = some a →
      (u.climb n i).findSome? g = some a := by
  induction m generalizing n with
  | zero =>
    intro _ i h
    cases h
  | succ m ih =>
    intro hmn i h
    obtain ⟨n, rfl⟩ : ∃ k, n = k + 1 := ⟨n - 1, by omega⟩
    by_cases hi : i < t.size
    · rw [climb, List.findSome?_cons] at h ⊢
      rw [hsame i hi, hparent i hi]
      cases hf : f i with
      | some b =>
        rw [hf] at h
        exact h
      | none =>
        rw [hf] at h
        cases hp : (t.scope i).parent with
        | none => simp [hp] at h
        | some p =>
          rw [hp] at h
          exact ih (Nat.le_of_succ_le_succ hmn) h
    · -- a place outside of the tree has no parent
      have hsize := Nat.not_lt.mp hi
      rw [climb, scope_of_size_le hsize, List.findSome?_cons, hout i hsize] at h
      cases h

theorem owningModule?_of_unmoved (h : t.Unmoved u) (hname : t.owningModule? i = some name) :
    u.owningModule? i = some name := by
  refine findSome?_climb (fun i hi => (h i hi).1) (fun i hi => ?_) (fun i hi => ?_)
    (Nat.le_refl _) hname
  · rw [(h i hi).2]
  · rw [scope_of_size_le hi]

/-- A module belongs to itself. -/
theorem owningModule?_of_owner (h : (t.scope i).owner = .module name) :
    t.owningModule? i = some name := by
  simp [owningModule?, ancestors, climb, h]

theorem lt_size_of_owningModule? (h : t.owningModule? i = some name) : i < t.size := by
  refine Nat.lt_of_not_le fun hi => ?_
  simp [owningModule?, ancestors, climb, scope_of_size_le hi] at h

theorem Unmoved.modify (t : ScopeTree) (id : ScopeId) {f : Scope → Scope}
    (hparent : ∀ s, (f s).parent = s.parent) (howner : ∀ s, (f s).owner = s.owner) :
    t.Unmoved (t.modify id f) := by
  intro i _
  exact ⟨t.field_modify id Scope.parent hparent i, t.field_modify id Scope.owner howner i⟩

theorem Unmoved.insert? {id : ScopeId} {symbol : Symbol} (h : t.insert? id symbol = some u) :
    t.Unmoved u := by
  obtain ⟨-, rfl⟩ := ScopeTree.eq_of_insert? h
  exact .modify t id (fun _ => rfl) fun _ => rfl

section addScope

variable (t : ScopeTree) (parent : ScopeId) (name : String) (owner : ScopeOwner)
  (ledger : Option Ledger)

theorem Unmoved.addScope : t.Unmoved (t.addScope parent name owner ledger) := by
  intro i hi
  have hne := Nat.ne_of_lt hi
  exact ⟨t.field_addScope parent name owner ledger Scope.parent (fun _ _ => rfl) hne,
    t.field_addScope parent name owner ledger Scope.owner (fun _ _ => rfl) hne⟩

/-- A new scope that is no module belongs to the module of its parent. -/
theorem owningModule?_addScope (howner : ∀ module, owner ≠ .module module) {module : String}
    (h : (t.addScope parent name owner ledger).owningModule? parent = some module) :
    (t.addScope parent name owner ledger).owningModule? t.size = some module := by
  have hlt := lt_size_of_owningModule? h
  rw [size_addScope] at hlt
  by_cases hparent : parent = t.size
  · exact hparent ▸ h
  · have hfuel : parent + 1 ≤ t.size :=
      (Nat.lt_succ_iff_lt_or_eq.mp hlt).resolve_right hparent
    have hclimb := findSome?_climb (fun _ _ => rfl) (fun _ _ => rfl)
      (fun i hi => by rw [scope_of_size_le hi]) hfuel h
    rw [owningModule?, ancestors, climb, List.findSome?_cons, scope_addScope_size]
    cases owner with
    | module module => exact absurd rfl (howner module)
    | _ => exact hclimb

end addScope

end Warden.ScopeTree

namespace Warden.StructTable

/-- The module that a struct belongs to. -/
def module? (t : StructTable) (id : StructId) : Option String :=
  (t.get? id).map (·.module)

theorem module?_reserve (t : StructTable) (name module : String) (isPublic : Bool) (id : StructId) :
    (t.reserve name module isPublic).module? id =
      if id = t.size then some module else t.module? id := by
  rw [module?, get?_reserve]
  split <;> rfl

theorem module?_finalize (t : StructTable) (draft : StructDraft) (id : StructId) :
    ((t.finalize? draft).getD t).module? id = t.module? id := by
  cases hfinal : t.finalize? draft with
  | none => rfl
  | some u =>
    obtain ⟨d, hd, hget⟩ := get?_finalize? hfinal
    rw [Option.getD_some, module?, hget]
    split
    next hid =>
      rw [module?, hid, hd]
      rfl
    · rfl

theorem lt_size_of_module? {t : StructTable} {id : StructId} {name : String}
    (h : t.module? id = some name) : id < t.size := by
  obtain ⟨d, hd, -⟩ := Option.map_eq_some_iff.mp h
  exact (Array.getElem?_eq_some_iff.mp hd).1

end Warden.StructTable

import Warden.Proofs.WellTyped

/-!
# The shape of the tree of scopes

Scopes stand in one table, and a scope comes after its parent (`ScopeTree.Arena`). So the way
outwards from a scope goes to smaller positions and is never cut short: it is the scope itself and
then the way outwards from its parent (`ScopeTree.Arena.ancestors_eq`).

A change of one scope that leaves its parent alone keeps every way outwards
(`ScopeTree.ancestors_modify`), and a new scope lengthens the way from the scope it is put in
(`ScopeTree.Arena.ancestors_addScope`).
-/

namespace Warden

variable {f g : Scope → Scope} {i : ScopeId} {α : Type}

theorem array_modify_modify (xs : Array α) (i : Nat) (f g : α → α) :
    (xs.modify i f).modify i g = xs.modify i fun x => g (f x) := by
  apply Array.ext_getElem?
  intro n
  simp only [Array.getElem?_modify]
  split
  · simp only [Option.map_map]
    rfl
  · rfl

theorem array_modify_eq_self {xs : Array α} {i : Nat} {f : α → α}
    (h : ∀ x, xs[i]? = some x → f x = x) : xs.modify i f = xs := by
  apply Array.ext_getElem?
  intro n
  rw [Array.getElem?_modify]
  split
  next heq =>
    subst heq
    cases hx : xs[i]? with
    | none => rfl
    | some x => rw [Option.map_some, h x hx]
  · rfl

namespace ScopeTree

variable {t u : ScopeTree}

/-! ### Changing one scope -/

theorem scope_of_size_le (h : t.size ≤ i) : t.scope i = {} := by
  have hnone : t.scopes[i]? = none := Array.getElem?_eq_none h
  simp [scope, Array.getD_eq_getD_getElem?, hnone]

theorem lt_size_of_scope_ne (h : t.scope i ≠ {}) : i < t.size :=
  Nat.lt_of_not_le fun hge => h (scope_of_size_le hge)

section

variable (t : ScopeTree)

@[simp] theorem size_modify (id : ScopeId) (f : Scope → Scope) : (t.modify id f).size = t.size := by
  simp [modify, size]

/-- What a change of one scope leaves alone in that scope, it leaves alone in all. -/
theorem field_modify (id : ScopeId) (field : Scope → α) (hf : ∀ s, field (f s) = field s)
    (i : ScopeId) : field ((t.modify id f).scope i) = field (t.scope i) := by
  rw [scope_modify]
  split
  · exact hf _
  · rfl

theorem field_updateLedger (id : ScopeId) (f : Ledger → Ledger) (field : Scope → α)
    (hfield : ∀ s ledger, field { s with ledger } = field s) (i : ScopeId) :
    field ((t.updateLedger id f).scope i) = field (t.scope i) :=
  t.field_modify id field (fun s => hfield s _) i

theorem ledger_updateLedger (id : ScopeId) (f : Ledger → Ledger) (i : ScopeId) :
    ((t.updateLedger id f).scope i).ledger =
      if i = id then (t.scope i).ledger.map f else (t.scope i).ledger := by
  rw [updateLedger, scope_modify]
  by_cases hid : i = id
  · by_cases hlt : i < t.size
    · simp [hid, hid ▸ hlt]
    · simp [hid, hid ▸ hlt, scope_of_size_le (Nat.le_of_not_lt (hid ▸ hlt))]
  · simp [hid]

theorem modify_comm {j : ScopeId} (h : i = j → ∀ s, f (g s) = g (f s)) :
    (t.modify i f).modify j g = (t.modify j g).modify i f := by
  have hscopes : (t.scopes.modify i f).modify j g = (t.scopes.modify j g).modify i f := by
    apply Array.ext_getElem?
    intro n
    simp only [Array.getElem?_modify]
    by_cases hi : i = n <;> by_cases hj : j = n
    · simp only [hi, hj, if_true, Option.map_map]
      exact congrArg (t.scopes[n]?.map ·) (funext fun s => (h (hi.trans hj.symm) s).symm)
    all_goals simp [hi, hj]
  simp only [modify, hscopes]

theorem modify_modify (i : ScopeId) (f g : Scope → Scope) :
    (t.modify i f).modify i g = t.modify i fun s => g (f s) := by
  simp only [modify, array_modify_modify]

end

/-- Only the scope at the position matters to a change. -/
theorem modify_congr (h : f (t.scope i) = g (t.scope i)) : t.modify i f = t.modify i g := by
  have hscopes : t.scopes.modify i f = t.scopes.modify i g := by
    apply Array.ext_getElem?
    intro n
    simp only [Array.getElem?_modify]
    split
    next heq =>
      subst heq
      cases hs : t.scopes[i]? with
      | none => rfl
      | some s =>
        have hscope : t.scope i = s := by simp [scope, Array.getD_eq_getD_getElem?, hs]
        rw [hscope] at h
        simp [h]
    · rfl
  simp only [modify, hscopes]

theorem modify_eq_self (h : f (t.scope i) = t.scope i) : t.modify i f = t := by
  rw [modify_congr (g := fun s => s) h, modify, array_modify_eq_self fun _ _ => rfl]

/-! ### The way outwards -/

/-- Every scope comes after its parent. -/
def Arena (t : ScopeTree) : Prop :=
  ∀ i p, (t.scope i).parent = some p → p < i

theorem climb_congr (h : ∀ i, (u.scope i).parent = (t.scope i).parent) (n : Nat) (i : ScopeId) :
    u.climb n i = t.climb n i := by
  induction n generalizing i with
  | zero => rfl
  | succ n ih =>
    simp only [climb, h]
    cases (t.scope i).parent with
    | none => rfl
    | some p => simp only [ih]

theorem ancestors_congr (h : ∀ i, (u.scope i).parent = (t.scope i).parent) (i : ScopeId) :
    u.ancestors i = t.ancestors i :=
  climb_congr h (i + 1) i

theorem ancestors_updateLedger (t : ScopeTree) (id : ScopeId) (f : Ledger → Ledger) (i : ScopeId) :
    (t.updateLedger id f).ancestors i = t.ancestors i :=
  ancestors_congr (t.field_updateLedger id f Scope.parent fun _ _ => rfl) i

namespace Arena

variable (ht : t.Arena)

include ht

theorem congr (h : ∀ i, (u.scope i).parent = (t.scope i).parent) : u.Arena :=
  fun i p hp => ht i p (h i ▸ hp)

theorem modify (id : ScopeId) (hf : ∀ s, (f s).parent = s.parent) : (t.modify id f).Arena :=
  ht.congr (t.field_modify id Scope.parent hf)

/-- A climb that may take more steps than the position needs goes all the way. -/
theorem climb_eq (n : Nat) : ∀ {i : ScopeId}, i < n → t.climb n i = t.ancestors i := by
  induction n using Nat.strongRecOn with
  | ind n ih =>
    intro i hi
    cases n with
    | zero => exact absurd hi (Nat.not_lt_zero _)
    | succ n =>
      simp only [ancestors, climb]
      cases hp : (t.scope i).parent with
      | none => rfl
      | some p =>
        have hlt := ht i p hp
        dsimp only
        rw [ih n (Nat.lt_succ_self n) (Nat.lt_of_lt_of_le hlt (Nat.le_of_lt_succ hi)), ih i hi hlt]

/-- The way outwards from a scope leads through its parent. -/
theorem ancestors_eq (i : ScopeId) :
    t.ancestors i = i :: ((t.scope i).parent.elim [] t.ancestors) := by
  rw [ancestors, climb]
  cases hp : (t.scope i).parent with
  | none => rfl
  | some p => exact congrArg (i :: ·) (ht.climb_eq i (ht i p hp))

theorem le_of_mem_ancestors : ∀ {j : ScopeId}, j ∈ t.ancestors i → j ≤ i := by
  induction i using Nat.strongRecOn with
  | ind i ih =>
    intro j hj
    rw [ht.ancestors_eq] at hj
    rcases List.mem_cons.mp hj with rfl | hj
    · exact Nat.le_refl _
    · cases hp : (t.scope i).parent with
      | none => simp [hp] at hj
      | some p =>
        rw [hp] at hj
        exact Nat.le_trans (ih p (ht i p hp) hj) (Nat.le_of_lt (ht i p hp))

/-- Parents below a position make the ways outwards from there. -/
theorem ancestors_eq_of_lt (hu : u.Arena) {n : Nat}
    (h : ∀ i < n, (u.scope i).parent = (t.scope i).parent) (hi : i < n) :
    u.ancestors i = t.ancestors i := by
  induction i using Nat.strongRecOn with
  | ind i ih =>
    rw [hu.ancestors_eq, ht.ancestors_eq, h i hi]
    cases hp : (t.scope i).parent with
    | none => rfl
    | some p =>
      have hlt := ht i p hp
      exact congrArg (i :: ·) (ih p hlt (Nat.lt_trans hlt hi))

end Arena

theorem self_mem_ancestors (t : ScopeTree) (i : ScopeId) : i ∈ t.ancestors i :=
  List.mem_cons_self ..

/-! ### New scopes -/

section addScope

variable (t : ScopeTree) (parent : ScopeId) (name : String) (owner : ScopeOwner)
  (ledger : Option Ledger)

@[simp] theorem size_addScope : (t.addScope parent name owner ledger).size = t.size + 1 := by
  simp [addScope, modify, size]

/-- The new scope is the last one, and only the list of children of its parent changes. -/
theorem scope_addScope (i : ScopeId) : (t.addScope parent name owner ledger).scope i =
    if i = t.size then
      { name, parent := some parent, depth := (t.scope parent).depth + 1, owner, ledger }
    else (t.modify parent fun s => { s with children := s.children ++ [t.size] }).scope i := by
  simp only [addScope, modify, scope, size, Array.getD_eq_getD_getElem?, Array.getElem?_push,
    Array.size_modify]
  split <;> rfl

/-- What does not look at children is the same in all scopes but the new one. -/
theorem field_addScope (field : Scope → α)
    (hfield : ∀ s children, field { s with children } = field s) (hi : i ≠ t.size) :
    field ((t.addScope parent name owner ledger).scope i) = field (t.scope i) := by
  rw [scope_addScope, if_neg hi]
  exact t.field_modify parent field (fun s => hfield s _) i

theorem scope_addScope_size : (t.addScope parent name owner ledger).scope t.size =
    { name, parent := some parent, depth := (t.scope parent).depth + 1, owner, ledger } := by
  rw [scope_addScope, if_pos rfl]

variable {t parent}

theorem Arena.addScope (ht : t.Arena) (hparent : parent < t.size) :
    (t.addScope parent name owner ledger).Arena := by
  intro i p hp
  by_cases hi : i = t.size
  · rw [hi, scope_addScope_size] at hp
    cases hp
    exact hi ▸ hparent
  · rw [t.field_addScope parent name owner ledger Scope.parent (fun _ _ => rfl) hi] at hp
    exact ht i p hp

/-- The ways outwards that were there before stay as they are. -/
theorem Arena.ancestors_addScope_of_lt (ht : t.Arena) (hparent : parent < t.size)
    (hi : i < t.size) : (t.addScope parent name owner ledger).ancestors i = t.ancestors i :=
  ht.ancestors_eq_of_lt (ht.addScope name owner ledger hparent)
    (fun _ hj => t.field_addScope parent name owner ledger Scope.parent (fun _ _ => rfl)
      (Nat.ne_of_lt hj)) hi

/-- The way outwards from the new scope. -/
theorem Arena.ancestors_addScope (ht : t.Arena) (hparent : parent < t.size) :
    (t.addScope parent name owner ledger).ancestors t.size = t.size :: t.ancestors parent := by
  rw [(ht.addScope name owner ledger hparent).ancestors_eq, scope_addScope_size]
  exact congrArg (t.size :: ·) (ht.ancestors_addScope_of_lt name owner ledger hparent hparent)

end addScope

end ScopeTree

end Warden

import Warden.Proofs.Arena
import Warden.Proofs.Lockstep.Invariant

/-!
# The scopes that a check has entered

A check enters scopes one inside the other, so those it has entered and not left are the way
outwards from the innermost one (`Nested`). Whatever it changes stands in them: symbols and children
in the innermost, waiting calls of `free` in the target of a `defer`, and ledgers anywhere on the
way (`ScopeTree.Arena.mem_ancestors_of_ledgerFor?`).

All scopes outside keep their contents (`Untouched`), and so does the global scope, which is never
the innermost one and owns no ledger.
-/

namespace Warden

open ScopeTree

namespace ScopeTree

variable {t : ScopeTree}

/-! ### Ledgers on the way outwards -/

variable {i j : ScopeId} {name : String}

theorem Arena.ancestors_subset (ht : t.Arena) :
    ∀ {j : ScopeId}, j ∈ t.ancestors i → t.ancestors j ⊆ t.ancestors i := by
  induction i using Nat.strongRecOn with
  | ind i ih =>
    intro j hj
    rw [ht.ancestors_eq i] at hj
    rcases List.mem_cons.mp hj with rfl | hj
    · exact List.Subset.refl _
    · cases hp : (t.scope i).parent with
      | none => simp [hp] at hj
      | some p =>
        rw [hp] at hj
        rw [ht.ancestors_eq i, hp]
        exact fun k hk => List.mem_cons_of_mem _ (ih p (ht i p hp) hj hk)

theorem mem_ancestors_of_ledgerOwner? (h : t.ledgerOwner? i = some j) : j ∈ t.ancestors i :=
  List.mem_of_find?_eq_some h

theorem mem_ancestors_of_locate? {symbol : Symbol}
    (h : t.locate? i name = some (j, symbol)) : j ∈ t.ancestors i := by
  obtain ⟨k, hk, hsymbol⟩ := List.exists_of_findSome?_eq_some h
  obtain ⟨s, -, heq⟩ := Option.map_eq_some_iff.mp hsymbol
  cases heq
  exact hk

/-- The search outwards ends at a ledger that knows the name. -/
theorem knows_of_route {home : Option ScopeId} {way : List ScopeId} :
    ∀ {within : Bool}, t.route name home within way = some j →
      j ∈ way ∧ t.ledgerKnows name j = true := by
  induction way with
  | nil =>
    intro within h
    simp [route] at h
  | cons i way ih =>
    intro within h
    rw [route] at h
    by_cases hi : (if within then t.ledgerKnows name i else t.ledgerTracksRenamed name i) = true
    · rw [if_pos hi, Option.some.injEq] at h
      subst h
      refine ⟨List.mem_cons_self .., ?_⟩
      cases within with
      | true => exact hi
      | false =>
        simp only [ledgerTracksRenamed, Ledger.tracksRenamed, Bool.false_eq_true, if_false,
          Option.any_eq_true, Bool.and_eq_true] at hi
        obtain ⟨l, hl, -, hknows⟩ := hi
        exact Option.any_eq_true _ _ |>.mpr ⟨l, hl, hknows⟩
    · rw [if_neg hi] at h
      obtain ⟨hmem, hknows⟩ := ih h
      exact ⟨List.mem_cons_of_mem _ hmem, hknows⟩

/-- The ledger that answers for a name knows it, or it is the nearest to a scope on the way. -/
theorem knows_or_owner_of_ledgerFor? (h : t.ledgerFor? i name = some j) :
    (j ∈ t.ancestors i ∧ t.ledgerKnows name j = true) ∨
      ∃ k ∈ t.ancestors i, t.ledgerOwner? k = some j := by
  unfold ledgerFor? at h
  split at h
  · rcases Option.or_eq_some_iff.mp h with hknows | ⟨-, howner⟩
    · exact .inl ⟨List.mem_of_find?_eq_some hknows, List.find?_some hknows⟩
    · exact .inr ⟨i, t.self_mem_ancestors i, howner⟩
  next declared symbol hlocate =>
    rcases Option.or_eq_some_iff.mp h with hinner | ⟨-, howner⟩
    · rcases Option.or_eq_some_iff.mp hinner with hroute | ⟨-, hhome⟩
      · exact .inl (knows_of_route hroute)
      · exact .inr ⟨declared, mem_ancestors_of_locate? hlocate, hhome⟩
    · exact .inr ⟨i, t.self_mem_ancestors i, howner⟩

/-- The ledger that answers for a name is on the way outwards. -/
theorem Arena.mem_ancestors_of_ledgerFor? (ht : t.Arena)
    (h : t.ledgerFor? i name = some j) : j ∈ t.ancestors i := by
  rcases knows_or_owner_of_ledgerFor? h with ⟨hmem, -⟩ | ⟨k, hk, howner⟩
  · exact hmem
  · exact ht.ancestors_subset hk (mem_ancestors_of_ledgerOwner? howner)

end ScopeTree

/-- The check has entered these scopes, innermost first: they are the way outwards from the
innermost one, which is not the global scope. -/
structure Nested (S : List Level) (c : Checker) : Prop where
  arena : c.scopes.Arena
  way : ∃ l T, S = l :: T ∧ l.scope ≠ 0 ∧ c.scopes.ancestors l.scope = S.map (·.scope)
  bound : ∀ l ∈ S, l.scope < c.scopes.size
  owner : ∀ l ∈ S, (c.scopes.scope l.scope).ledger.isSome = l.isBody
  target : ∀ t ∈ c.walk.deferTarget, t ≠ 0 ∧ t ∈ S.map (·.scope)

namespace Nested

variable {l : Level} {S : List Level} {c d : Checker}

section

variable (h : Nested (l :: S) c)

include h

theorem ancestors : c.scopes.ancestors l.scope = l.scope :: S.map (·.scope) := by
  obtain ⟨_, _, heq, -, hway⟩ := h.way
  cases heq
  exact hway

theorem scope_ne_zero : l.scope ≠ 0 := by
  obtain ⟨_, _, heq, hne, -⟩ := h.way
  cases heq
  exact hne

theorem scope_lt : l.scope < c.scopes.size :=
  h.bound l (List.mem_cons_self ..)

theorem mem_of_ledgerFor? {name : String} {id : ScopeId}
    (hid : c.scopes.ledgerFor? l.scope name = some id) : id ∈ (l :: S).map (·.scope) := by
  rw [List.map_cons, ← h.ancestors]
  exact h.arena.mem_ancestors_of_ledgerFor? hid

theorem mem_of_ledgerOwner? {id : ScopeId} (hid : c.scopes.ledgerOwner? l.scope = some id) :
    id ∈ (l :: S).map (·.scope) := by
  rw [List.map_cons, ← h.ancestors]
  exact mem_ancestors_of_ledgerOwner? hid

/-- The innermost scope comes after those around it. -/
theorem scope_notMem : l.scope ∉ S.map (·.scope) := by
  intro hmem
  have hway := h.ancestors
  rw [h.arena.ancestors_eq] at hway
  cases hp : (c.scopes.scope l.scope).parent with
  | none =>
    rw [hp] at hway
    rw [← List.tail_eq_of_cons_eq hway] at hmem
    exact List.not_mem_nil hmem
  | some p =>
    rw [hp] at hway
    rw [← List.tail_eq_of_cons_eq hway] at hmem
    have hle := h.arena.le_of_mem_ancestors hmem
    exact Nat.not_lt.mpr hle (h.arena _ p hp)

end

/-! ### What keeps the scopes entered -/

/-- Only parents, the places of ledgers and the target of `defer` matter. -/
theorem congr (h : Nested S c) (hsize : d.scopes.size = c.scopes.size)
    (hparent : ∀ i, (d.scopes.scope i).parent = (c.scopes.scope i).parent)
    (hledger : ∀ i, (d.scopes.scope i).ledger.isSome = (c.scopes.scope i).ledger.isSome)
    (htarget : d.walk.deferTarget = c.walk.deferTarget) : Nested S d where
  arena := h.arena.congr hparent
  way := by
    obtain ⟨l, T, hS, hne, hway⟩ := h.way
    exact ⟨l, T, hS, hne, (ancestors_congr hparent _).trans hway⟩
  bound l hl := hsize ▸ h.bound l hl
  owner l hl := (hledger l.scope).trans (h.owner l hl)
  target t ht := h.target t (htarget ▸ ht)

theorem memory (h : Nested S c) {f : Checker → Checker} (hf : MemoryOp f) : Nested S (f c) := by
  have hscope : ∀ i, ((f c).scopes.scope i).withoutMemory = (c.scopes.scope i).withoutMemory := by
    intro i
    rw [← scope_withoutMemory, (hf.step c).scopes, scope_withoutMemory]
  refine h.congr ?_ (fun i => ?_) (fun i => ?_) (congrArg Walk.deferTarget (hf.step c).walk)
  · rw [← size_withoutMemory, (hf.step c).scopes, size_withoutMemory]
  · exact congrArg (·.parent) (hscope i)
  · have hledger := congrArg (fun s => s.ledger.isSome) (hscope i)
    simpa [Scope.withoutMemory] using hledger

theorem modify (h : Nested S c) (id : ScopeId) {f : Scope → Scope}
    (hparent : ∀ s, (f s).parent = s.parent) (hledger : ∀ s, (f s).ledger = s.ledger) :
    Nested S { c with scopes := c.scopes.modify id f } :=
  h.congr (c.scopes.size_modify id f) (c.scopes.field_modify id Scope.parent hparent)
    (fun i => congrArg Option.isSome (c.scopes.field_modify id Scope.ledger hledger i)) rfl

theorem setWalk (h : Nested S c) {walk : Walk}
    (htarget : ∀ t ∈ walk.deferTarget, t ≠ 0 ∧ t ∈ S.map (·.scope)) : Nested S { c with walk } :=
  ⟨h.arena, h.way, h.bound, h.owner, htarget⟩

/-- A new scope inside the innermost one is entered. -/
theorem push (h : Nested (l :: S) c) (name : String) (owner : ScopeOwner) (ledger : Option Ledger) :
    Nested (⟨c.scopes.size, ledger.isSome⟩ :: l :: S)
      { c with scopes := c.scopes.addScope l.scope name owner ledger } where
  arena := h.arena.addScope name owner ledger h.scope_lt
  way := by
    refine ⟨_, _, rfl, Nat.ne_of_gt (Nat.zero_lt_of_lt h.scope_lt), ?_⟩
    rw [h.arena.ancestors_addScope name owner ledger h.scope_lt, h.ancestors]
    rfl
  bound l' hl' := by
    rw [size_addScope]
    rcases List.mem_cons.mp hl' with rfl | hl'
    · exact Nat.lt_succ_self _
    · exact Nat.lt_succ_of_lt (h.bound l' hl')
  owner l' hl' := by
    rcases List.mem_cons.mp hl' with rfl | hl'
    · rw [scope_addScope_size]
    · rw [c.scopes.field_addScope l.scope name owner ledger Scope.ledger (fun _ _ => rfl)
        (Nat.ne_of_lt (h.bound l' hl'))]
      exact h.owner l' hl'
  target t ht := by
    obtain ⟨hne, hmem⟩ := h.target t ht
    exact ⟨hne, List.mem_cons_of_mem _ hmem⟩

/-- The innermost scope is left, with the walk with which it was entered. -/
theorem pop {c₀ : Checker} (h₀ : Nested S c₀) (h : Nested (l :: S) c) :
    Nested S { c with walk := c₀.walk } := by
  obtain ⟨l', T, rfl, hne, -⟩ := h₀.way
  refine ⟨h.arena, ⟨l', T, rfl, hne, ?_⟩, fun k hk => h.bound k (List.mem_cons_of_mem _ hk),
    fun k hk => h.owner k (List.mem_cons_of_mem _ hk), h₀.target⟩
  -- the way from the innermost scope leads through its parent, which must be the next one
  have hway := h.ancestors
  rw [h.arena.ancestors_eq] at hway
  cases hp : (c.scopes.scope l.scope).parent with
  | none => simp [hp] at hway
  | some p =>
    rw [hp] at hway
    have htail : c.scopes.ancestors p = (l' :: T).map (·.scope) := List.tail_eq_of_cons_eq hway
    have hhead : p = l'.scope := by
      rw [h.arena.ancestors_eq] at htail
      exact (List.cons.inj htail).1
    rw [← hhead, htail]

end Nested

/-- Whatever a check does, it is in the scopes that it has entered. -/
theorem nested_unconditional : Unconditional Nested where
  report _ _ _ h := h.congr rfl (fun _ => rfl) (fun _ => rfl) rfl
  record _ _ _ h := h.congr rfl (fun _ => rfl) (fun _ => rfl) rfl
  insert ht _ h := by
    obtain ⟨-, rfl⟩ := eq_of_insert? ht
    exact h.modify _ (fun _ => rfl) fun _ => rfl
  reserve _ _ _ h := ⟨trivial, h.congr rfl (fun _ => rfl) (fun _ => rfl) rfl⟩
  finalize _ _ h := h.congr rfl (fun _ => rfl) (fun _ => rfl) rfl
  allocate _ _ _ h := h.memory (.allocate ..)
  rename _ _ _ h := h.memory (.rename ..)
  release _ _ _ _ h := h.memory (.release ..)
  checkUse _ _ _ h := h.memory (.checkUse ..)
  deferFree _ _ _ _ h := h.modify _ (fun _ => rfl) fun _ => rfl
  clearDeferred _ h := h.modify _ (fun _ => rfl) fun _ => rfl
  enterLoop _ h := h.setWalk h.target
  enterDefer {l _ _} _ h := by
    refine h.setWalk fun t ht => ?_
    cases ht
    exact ⟨h.scope_ne_zero, List.mem_cons_self ..⟩
  restore _ h₀ _ h := h.setWalk h₀.target
  pushBlock name _ h := h.push name .block none
  popBlock _ h₀ hwalk _ h := by
    have hleft := h₀.pop h
    rw [← hwalk] at hleft
    exact hleft
  pushBody frame name _ h := (h.push name (.function name) (some {})).setWalk nofun
  popBody {i _ _ _} _ h₀ _ h := by
    have hleaks := h.memory (.reportLeaks i)
    exact h₀.pop hleaks

end Warden

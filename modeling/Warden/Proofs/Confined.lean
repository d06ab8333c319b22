import Warden.Proofs.Frame

/-!
# Where a check leaves traces

A check that starts in a scope enters that scope and scopes that it adds below it, and no others
(`Confined`). So what it does to the scopes that were there before is limited (`Scope.Touched`):
only the scope where it started gets symbols and children, only that scope and the one that collects
deferred calls get more of these, and only ledgers on the way outwards can change.

Nothing is asked of the state in which the check starts but that scopes come after their parents.
-/

namespace Warden

open ScopeTree

variable {i : ScopeId}

/-! ### One scope -/

/-- What may have become of a scope: it may have got symbols and children if it is `here`, deferred
calls if it is here or their `target`, and another ledger if it is on the `way` outwards. -/
structure Scope.Touched (here target way : Prop) (s s' : Scope) : Prop where
  outline : s'.outline = s.outline
  symbols : ∃ new, s'.symbols = s.symbols ++ new ∧ (new ≠ [] → here)
  children : ∃ new, s'.children = s.children ++ new ∧ (new ≠ [] → here)
  deferred : ∃ new, s'.deferred = s.deferred ++ new ∧ (new ≠ [] → here ∨ target)
  ledger : s'.ledger = s.ledger ∨ way

namespace Scope.Touched

variable {here target way : Prop} {s s' s'' : Scope}

theorem refl (here target way : Prop) (s : Scope) : Touched here target way s s where
  outline := rfl
  symbols := ⟨[], by simp⟩
  children := ⟨[], by simp⟩
  deferred := ⟨[], by simp⟩
  ledger := .inl rfl

theorem trans (h : Touched here target way s s') (h' : Touched here target way s' s'') :
    Touched here target way s s'' := by
  obtain ⟨symbols, hsymbols, hhere⟩ := h.symbols
  obtain ⟨symbols', hsymbols', hhere'⟩ := h'.symbols
  obtain ⟨children, hchildren, hinside⟩ := h.children
  obtain ⟨children', hchildren', hinside'⟩ := h'.children
  obtain ⟨deferred, hdeferred, htarget⟩ := h.deferred
  obtain ⟨deferred', hdeferred', htarget'⟩ := h'.deferred
  have hsplit : ∀ {α : Type} {xs ys : List α} {p : Prop}, (xs ≠ [] → p) → (ys ≠ [] → p) →
      xs ++ ys ≠ [] → p := by
    intro α xs ys p hxs hys hne
    by_cases hnil : xs = []
    · exact hys fun hnil' => hne (by rw [hnil, hnil', List.append_nil])
    · exact hxs hnil
  refine ⟨h'.outline.trans h.outline, ⟨symbols ++ symbols', ?_, hsplit hhere hhere'⟩,
    ⟨children ++ children', ?_, hsplit hinside hinside'⟩,
    ⟨deferred ++ deferred', ?_, hsplit htarget htarget'⟩, ?_⟩
  · rw [hsymbols', hsymbols, List.append_assoc]
  · rw [hchildren', hchildren, List.append_assoc]
  · rw [hdeferred', hdeferred, List.append_assoc]
  · rcases h'.ledger with heq | hway
    · rw [heq]
      exact h.ledger
    · exact .inr hway

theorem addDeferred (htarget : here ∨ target) (waiting : DeferredFree) :
    Touched here target way s { s with deferred := s.deferred ++ [waiting] } :=
  { refl here target way s with deferred := ⟨[waiting], rfl, fun _ => htarget⟩ }

theorem updateLedger (hway : way) (f : Ledger → Ledger) :
    Touched here target way s { s with ledger := s.ledger.map f } :=
  { refl here target way s with
    outline := Scope.outline_of_withoutLedger
    ledger := .inr hway }

end Scope.Touched

/-! ### All scopes -/

/-- What has become of the scopes since a check started in `c₀` in the scope `s₀`. -/
structure Confined (s₀ : ScopeId) (c₀ : Checker) (S : List Level) (c : Checker) : Prop where
  arena : c.scopes.Arena
  /-- Below the scope of the start, the scopes entered are new ones. -/
  stack : ∃ T b, S = T ++ [⟨s₀, b⟩] ∧ ∀ l ∈ T, c₀.scopes.size ≤ l.scope
  bound : ∀ l ∈ S, l.scope < c.scopes.size
  size : c₀.scopes.size ≤ c.scopes.size
  target : ∀ t ∈ c.walk.deferTarget, t ∈ c₀.walk.deferTarget ∨ t = s₀ ∨ c₀.scopes.size ≤ t
  /-- A new scope is inside the scope of the start or inside another new one. -/
  created : ∀ i, c₀.scopes.size ≤ i → i < c.scopes.size →
    ∃ p, (c.scopes.scope i).parent = some p ∧ (p = s₀ ∨ c₀.scopes.size ≤ p)
  touched : ∀ i < c₀.scopes.size, Scope.Touched (i = s₀) (i ∈ c₀.walk.deferTarget)
    (i ∈ c₀.scopes.ancestors s₀) (c₀.scopes.scope i) (c.scopes.scope i)

namespace Confined

variable {s₀ : ScopeId} {c₀ : Checker} {l : Level} {S : List Level} {c d : Checker}

theorem refl (harena : c₀.scopes.Arena) (hs₀ : s₀ < c₀.scopes.size) (b : Bool) :
    Confined s₀ c₀ [⟨s₀, b⟩] c₀ where
  arena := harena
  stack := ⟨[], b, rfl, List.forall_mem_nil _⟩
  bound := by simpa using hs₀
  size := Nat.le_refl _
  target _ ht := .inl ht
  created i hge hlt := absurd hlt (Nat.not_lt.mpr hge)
  touched _ _ := .refl ..

theorem head (h : Confined s₀ c₀ (l :: S) c) : l.scope = s₀ ∨ c₀.scopes.size ≤ l.scope := by
  obtain ⟨T, b, hS, hnew⟩ := h.stack
  rcases List.mem_append.mp (hS ▸ List.mem_cons_self) with hl | hl
  · exact .inr (hnew l hl)
  · exact .inl (by rw [List.mem_singleton.mp hl])

theorem scope_lt (h : Confined s₀ c₀ (l :: S) c) : l.scope < c.scopes.size :=
  h.bound l (List.mem_cons_self ..)

/-- A scope that has been entered from another one is new. -/
theorem head_new {m : Level} (h : Confined s₀ c₀ (l :: m :: S) c) : c₀.scopes.size ≤ l.scope := by
  obtain ⟨T, b, hS, hnew⟩ := h.stack
  cases T with
  | nil => cases hS
  | cons l' T =>
    rw [(List.cons.inj hS).1]
    exact hnew l' (List.mem_cons_self ..)

/-- Every new scope is below the scope of the start. -/
theorem mem_ancestors (h : Confined s₀ c₀ S c) : c₀.scopes.size ≤ i →
    i < c.scopes.size → s₀ ∈ c.scopes.ancestors i := by
  induction i using Nat.strongRecOn with
  | ind i ih =>
    intro hi hlt
    obtain ⟨p, hp, hinside⟩ := h.created i hi hlt
    have hpi := h.arena i p hp
    rw [h.arena.ancestors_eq, hp, Option.elim_some]
    apply List.mem_cons_of_mem
    rcases hinside with rfl | hnew
    · exact c.scopes.self_mem_ancestors p
    · exact ih p hpi hnew (Nat.lt_trans hpi hlt)

section

variable (harena : c₀.scopes.Arena)

include harena

/-- The ways outwards from the scopes that were there before are the same. -/
theorem ancestors_eq (h : Confined s₀ c₀ S c) (hi : i < c₀.scopes.size) :
    c.scopes.ancestors i = c₀.scopes.ancestors i :=
  harena.ancestors_eq_of_lt h.arena (fun j hj => congrArg (·.parent) (h.touched j hj).outline) hi

/-- From the scopes that can be entered, the way outwards leads to the scope of the start and on. -/
theorem mem_way (h : Confined s₀ c₀ S c) (hs₀ : s₀ < c₀.scopes.size) {j : ScopeId}
    (hj : j < c₀.scopes.size) : (i = s₀ ∨ c₀.scopes.size ≤ i) →
      i < c.scopes.size → j ∈ c.scopes.ancestors i → j ∈ c₀.scopes.ancestors s₀ := by
  induction i using Nat.strongRecOn with
  | ind i ih =>
    intro hi hlt hmem
    rcases hi with rfl | hi
    · rwa [h.ancestors_eq harena hs₀] at hmem
    · obtain ⟨p, hp, hinside⟩ := h.created i hi hlt
      have hpi := h.arena i p hp
      rw [h.arena.ancestors_eq, hp, Option.elim_some] at hmem
      rcases List.mem_cons.mp hmem with rfl | hmem
      · exact absurd hj (Nat.not_lt.mpr hi)
      · exact ih p hpi hinside (Nat.lt_trans hpi hlt) hmem

end

/-! ### What keeps a check confined -/

theorem congr (h : Confined s₀ c₀ S c) (hscopes : d.scopes = c.scopes)
    (htarget : d.walk.deferTarget = c.walk.deferTarget) : Confined s₀ c₀ S d := by
  obtain ⟨harena, hstack, hbound, hsize, ht, hcreated, htouched⟩ := h
  rw [← hscopes] at harena hbound hsize hcreated htouched
  rw [← htarget] at ht
  exact ⟨harena, hstack, hbound, hsize, ht, hcreated, htouched⟩

theorem modify (h : Confined s₀ c₀ S c) (j : ScopeId) {f : Scope → Scope}
    (hparent : ∀ s, (f s).parent = s.parent)
    (hf : j < c₀.scopes.size → ∀ s, Scope.Touched (j = s₀) (j ∈ c₀.walk.deferTarget)
      (j ∈ c₀.scopes.ancestors s₀) s (f s)) :
    Confined s₀ c₀ S { c with scopes := c.scopes.modify j f } where
  __ := h
  arena := h.arena.modify j hparent
  bound := by
    simp only [size_modify]
    exact h.bound
  size := by
    rw [size_modify]
    exact h.size
  created i hge hlt := by
    rw [size_modify] at hlt
    rw [c.scopes.field_modify j Scope.parent hparent]
    exact h.created i hge hlt
  touched i hi := by
    refine (h.touched i hi).trans ?_
    rw [scope_modify]
    split
    next hij =>
      rw [hij.1] at hi ⊢
      exact hf hi _
    · exact .refl ..

section

variable (h : Confined s₀ c₀ (l :: S) c)

include h

/-- The ledger of a scope on the way from the innermost one may change. -/
theorem updateLedger (harena : c₀.scopes.Arena) (hs₀ : s₀ < c₀.scopes.size) {id : ScopeId}
    (hid : id ∈ c.scopes.ancestors l.scope) (f : Ledger → Ledger) :
    Confined s₀ c₀ (l :: S) { c with scopes := c.scopes.updateLedger id f } :=
  h.modify id (fun _ => rfl) fun hlt _ =>
    .updateLedger (h.mem_way harena hs₀ hlt h.head h.scope_lt hid) f

theorem release (harena : c₀.scopes.Arena) (hs₀ : s₀ < c₀.scopes.size) (name : String) (span : Span)
    (kind : FreeKind) : Confined s₀ c₀ (l :: S) (c.release l.scope name span kind) := by
  rw [Checker.release]
  split
  · exact h
  next id hid =>
    split
    · exact h
    · have hmem := h.arena.mem_ancestors_of_ledgerFor? hid
      exact (h.updateLedger harena hs₀ hmem _).congr rfl rfl

/-- A new scope is put inside the innermost one and entered. -/
theorem push (name : String) (owner : ScopeOwner) (ledger : Option Ledger) (b : Bool) :
    Confined s₀ c₀ (⟨c.scopes.size, b⟩ :: l :: S)
      { c with scopes := c.scopes.addScope l.scope name owner ledger } := by
  have hchild := h.modify l.scope
    (f := fun s => { s with children := s.children ++ [c.scopes.size] }) (fun _ => rfl)
    fun hlt _ => { Scope.Touched.refl .. with
      children := ⟨_, rfl, fun _ => h.head.resolve_right (Nat.not_le.mpr hlt)⟩ }
  obtain ⟨T, b', hT, hnew⟩ := h.stack
  refine ⟨h.arena.addScope name owner ledger h.scope_lt,
    ⟨⟨c.scopes.size, b⟩ :: T, b', by rw [hT]; rfl, ?_⟩, ?_, ?_, h.target, ?_, ?_⟩
  · exact List.forall_mem_cons.mpr ⟨h.size, hnew⟩
  · intro k hk
    rw [size_addScope]
    rcases List.mem_cons.mp hk with rfl | hk
    · exact Nat.lt_succ_self _
    · exact Nat.lt_succ_of_lt (h.bound k hk)
  · rw [size_addScope]
    exact Nat.le_succ_of_le h.size
  · intro i hge hlt
    by_cases hi : i = c.scopes.size
    · subst hi
      exact ⟨l.scope, by rw [scope_addScope_size], h.head⟩
    · rw [size_addScope] at hlt
      rw [c.scopes.field_addScope l.scope name owner ledger Scope.parent (fun _ _ => rfl) hi]
      exact h.created i hge (by omega)
  · intro i hi
    rw [scope_addScope, if_neg (Nat.ne_of_lt (Nat.lt_of_lt_of_le hi h.size))]
    exact hchild.touched i hi

end

theorem pop {c₁ : Checker} (h₁ : Confined s₀ c₀ S c₁) (h : Confined s₀ c₀ (l :: S) c) :
    Confined s₀ c₀ S { c with walk := c₁.walk } :=
  ⟨h.arena, h₁.stack, fun k hk => h.bound k (List.mem_cons_of_mem _ hk), h.size, h₁.target,
    h.created, h.touched⟩

theorem setTarget (h : Confined s₀ c₀ S c) {walk : Walk}
    (htarget : ∀ t ∈ walk.deferTarget, t ∈ c₀.walk.deferTarget ∨ t = s₀ ∨ c₀.scopes.size ≤ t) :
    Confined s₀ c₀ S { c with walk } :=
  ⟨h.arena, h.stack, h.bound, h.size, htarget, h.created, h.touched⟩

end Confined

/-- A check that starts in a scope is confined to it. -/
theorem confined_unconditional {s₀ : ScopeId} {c₀ : Checker} (harena : c₀.scopes.Arena)
    (hs₀ : s₀ < c₀.scopes.size) : Unconditional (Confined s₀ c₀) where
  report _ _ _ h := h.congr rfl rfl
  record _ _ _ h := h.congr rfl rfl
  insert ht _ h := by
    obtain ⟨-, rfl⟩ := eq_of_insert? ht
    exact h.modify _ (fun _ => rfl) fun hlt _ => { Scope.Touched.refl .. with
      symbols := ⟨_, rfl, fun _ => h.head.resolve_right (Nat.not_le.mpr hlt)⟩ }
  reserve _ _ _ h := ⟨trivial, h.congr rfl rfl⟩
  finalize _ _ h := h.congr rfl rfl
  allocate {l S c} name span _ h := by
    rw [Checker.allocate]
    split
    · exact h
    next id hid => exact h.updateLedger harena hs₀ (mem_ancestors_of_ledgerOwner? hid) _
  rename {l S c} target source _ h := by
    rw [Checker.rename]
    split
    · exact h
    next id hid => exact h.updateLedger harena hs₀ (h.arena.mem_ancestors_of_ledgerFor? hid) _
  release name span kind _ h := h.release harena hs₀ name span kind
  checkUse _ _ _ h := h.congr rfl rfl
  deferFree {S c t} name span ht _ h := by
    refine h.modify t (fun _ => rfl) fun hlt _ => .addDeferred ?_ _
    rcases h.target t ht with hold | hhere | hnew
    · exact .inr hold
    · exact .inl hhere
    · exact absurd hlt (Nat.not_lt.mpr hnew)
  clearDeferred _ h :=
    h.modify _ (fun _ => rfl) fun hlt _ => absurd hlt (Nat.not_lt.mpr h.head_new)
  enterLoop _ h := h.setTarget h.target
  enterDefer {l S c} _ h := by
    refine h.setTarget fun t ht => ?_
    cases ht
    exact .inr h.head
  restore _ h₁ _ h := h.setTarget h₁.target
  pushBlock name _ h := h.push name .block none false
  popBlock _ h₁ hwalk _ h := by
    have hleft := h₁.pop h
    rw [← hwalk] at hleft
    exact hleft
  pushBody frame name _ h := (h.push name (.function name) (some {}) true).setTarget nofun
  popBody {i _ _ c} _ h₁ _ h := by
    have hwalk : (c.reportLeaks i).walk = c.walk := ((MemoryOp.reportLeaks i).step c).walk
    exact h₁.pop (h.congr (c.scopes_reportLeaks i) (congrArg Walk.deferTarget hwalk))

end Warden

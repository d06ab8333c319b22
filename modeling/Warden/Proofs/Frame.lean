import Warden.Proofs.Nested

/-!
# What a check leaves alone

A check that starts with certain scopes entered changes the innermost of them and the scopes that it
adds. In the scopes around it changes ledgers only, and all other scopes stay as they are
(`Framed`). Structs that were declared before keep their definitions, and expressions that do not
occur in what is checked keep their types (`Grown`).
-/

namespace Warden

open ScopeTree StructTable

variable {draft : StructDraft} {f : Scope → Scope} {s : Scope}

namespace Scope

/-- A scope without what a check may add to it; of its ledger only the place is left. -/
def outline (s : Scope) : Scope :=
  { s with symbols := [], children := [], deferred := [], ledger := s.ledger.map fun _ => {} }

/-- A scope without its ledger. -/
def contents (s : Scope) : Scope :=
  { s with ledger := none }

theorem outline_of_withoutLedger {f : Ledger → Ledger} :
    outline { s with ledger := s.ledger.map f } = s.outline := by
  cases hledger : s.ledger <;> simp [outline, hledger]

theorem eq_of_contents {s' : Scope} (hcontents : s.contents = s'.contents)
    (hledger : s.ledger = s'.ledger) : s = s' := by
  cases s
  cases s'
  simp_all [contents]

theorem isSome_ledger_of_outline {s' : Scope} (h : s.outline = s'.outline) :
    s.ledger.isSome = s'.ledger.isSome := by
  simpa [outline] using congrArg (fun s => s.ledger.isSome) h

end Scope

/-- What has become of the scopes since a check started in `c₀` with `l₀` as innermost scope and
`S₀` around it. -/
structure Framed (l₀ : Level) (S₀ : List Level) (c₀ : Checker) (S : List Level) (c : Checker) :
    Prop where
  /-- The scopes entered since are new ones. -/
  stack : ∃ T, S = T ++ l₀ :: S₀ ∧ ∀ l ∈ T, c₀.scopes.size ≤ l.scope
  size : c₀.scopes.size ≤ c.scopes.size
  target : ∀ t ∈ c.walk.deferTarget, t ∉ S₀.map (·.scope)
  outline : ∀ i < c₀.scopes.size, (c.scopes.scope i).outline = (c₀.scopes.scope i).outline
  contents : ∀ i < c₀.scopes.size, i ≠ l₀.scope →
    (c.scopes.scope i).contents = (c₀.scopes.scope i).contents
  ledger : ∀ i < c₀.scopes.size, i ∉ (l₀ :: S₀).map (·.scope) →
    (c.scopes.scope i).ledger = (c₀.scopes.scope i).ledger

namespace Framed

variable {l₀ : Level} {S₀ : List Level} {c₀ : Checker} {l : Level} {S : List Level} {c d : Checker}

theorem refl (l₀ : Level) (S₀ : List Level) {c₀ : Checker}
    (htarget : ∀ t ∈ c₀.walk.deferTarget, t ∉ S₀.map (·.scope)) :
    Framed l₀ S₀ c₀ (l₀ :: S₀) c₀ where
  stack := ⟨[], rfl, List.forall_mem_nil _⟩
  size := Nat.le_refl _
  target := htarget
  outline _ _ := rfl
  contents _ _ _ := rfl
  ledger _ _ _ := rfl

/-- Of the scopes entered, those that were there at the start were entered then. -/
theorem mem_start (h : Framed l₀ S₀ c₀ S c) {i : ScopeId} (hi : i < c₀.scopes.size)
    (hmem : i ∈ S.map (·.scope)) : i ∈ (l₀ :: S₀).map (·.scope) := by
  obtain ⟨T, rfl, hnew⟩ := h.stack
  rw [List.map_append, List.mem_append] at hmem
  rcases hmem with hmem | hmem
  · obtain ⟨l, hl, rfl⟩ := List.mem_map.mp hmem
    exact absurd hi (Nat.not_lt.mpr (hnew l hl))
  · exact hmem

/-- The innermost scope is a new one, unless it was the innermost at the start. -/
theorem head_eq (h : Framed l₀ S₀ c₀ (l :: S) c) (hl : l.scope < c₀.scopes.size) :
    l.scope = l₀.scope := by
  obtain ⟨T, hS, hnew⟩ := h.stack
  cases T with
  | nil =>
    cases hS
    rfl
  | cons l' T =>
    cases hS
    exact absurd hl (Nat.not_lt.mpr (hnew l (List.mem_cons_self ..)))

section

variable (h : Framed l₀ S₀ c₀ S c)

include h

theorem target_eq (hS : Nested S c) {t : ScopeId} (ht : t ∈ c.walk.deferTarget)
    (hlt : t < c₀.scopes.size) : t = l₀.scope := by
  have hmem := h.mem_start hlt (hS.target t ht).2
  rcases List.mem_cons.mp hmem with heq | hmem
  · exact heq
  · exact absurd hmem (h.target t ht)

/-! ### What keeps the frame -/

theorem congr (hscopes : d.scopes = c.scopes) (htarget : d.walk.deferTarget = c.walk.deferTarget) :
    Framed l₀ S₀ c₀ S d := by
  obtain ⟨hstack, hsize, ht, houtline, hcontents, hledger⟩ := h
  rw [← hscopes] at hsize houtline hcontents hledger
  rw [← htarget] at ht
  exact ⟨hstack, hsize, ht, houtline, hcontents, hledger⟩

theorem modify (j : ScopeId) (houtline : ∀ s, (f s).outline = s.outline)
    (hcontents : j < c₀.scopes.size → j ≠ l₀.scope → ∀ s, (f s).contents = s.contents)
    (hledger : j < c₀.scopes.size → j ∉ (l₀ :: S₀).map (·.scope) → ∀ s, (f s).ledger = s.ledger) :
    Framed l₀ S₀ c₀ S { c with scopes := c.scopes.modify j f } where
  __ := h
  size := by
    rw [size_modify]
    exact h.size
  outline i hi := by
    rw [c.scopes.field_modify j Scope.outline houtline]
    exact h.outline i hi
  contents i hi hne := by
    rw [← h.contents i hi hne, scope_modify]
    split
    next hij => exact hcontents (hij.1 ▸ hi) (hij.1 ▸ hne) _
    · rfl
  ledger i hi hout := by
    rw [← h.ledger i hi hout, scope_modify]
    split
    next hij => exact hledger (hij.1 ▸ hi) (hij.1 ▸ hout) _
    · rfl

end

/-- The innermost scope may change in what is not a ledger. -/
theorem modify_head (h : Framed l₀ S₀ c₀ (l :: S) c) (houtline : ∀ s, (f s).outline = s.outline)
    (hledger : ∀ s, (f s).ledger = s.ledger) :
    Framed l₀ S₀ c₀ (l :: S) { c with scopes := c.scopes.modify l.scope f } :=
  h.modify l.scope houtline (fun hlt hne => absurd (h.head_eq hlt) hne) fun _ _ => hledger

/-- The ledger of a scope that has been entered may change. -/
theorem updateLedger (h : Framed l₀ S₀ c₀ S c) {id : ScopeId} (hid : id ∈ S.map (·.scope))
    (f : Ledger → Ledger) : Framed l₀ S₀ c₀ S { c with scopes := c.scopes.updateLedger id f } :=
  h.modify id (fun _ => Scope.outline_of_withoutLedger) (fun _ _ _ => rfl)
    fun hlt hout => absurd (h.mem_start hlt hid) hout

section

variable (h : Framed l₀ S₀ c₀ (l :: S) c)

include h

theorem allocate (hS : Nested (l :: S) c) (name : String) (span : Span) :
    Framed l₀ S₀ c₀ (l :: S) (c.allocate l.scope name span) := by
  rw [Checker.allocate]
  split
  · exact h
  next id hid => exact h.updateLedger (hS.mem_of_ledgerOwner? hid) _

theorem rename (hS : Nested (l :: S) c) (target source : String) :
    Framed l₀ S₀ c₀ (l :: S) (c.rename l.scope target source) := by
  rw [Checker.rename]
  split
  · exact h
  next id hid => exact h.updateLedger (hS.mem_of_ledgerFor? hid) _

theorem release (hS : Nested (l :: S) c) (name : String) (span : Span) (kind : FreeKind) :
    Framed l₀ S₀ c₀ (l :: S) (c.release l.scope name span kind) := by
  rw [Checker.release]
  split
  · exact h
  next id hid =>
    split
    · exact h
    · exact (h.updateLedger (hS.mem_of_ledgerFor? hid) _).congr rfl rfl

/-- A new scope stands behind all that were there. -/
theorem push (name : String) (owner : ScopeOwner) (ledger : Option Ledger) :
    Framed l₀ S₀ c₀ (⟨c.scopes.size, ledger.isSome⟩ :: l :: S)
      { c with scopes := c.scopes.addScope l.scope name owner ledger } := by
  have hchildren := h.modify_head
    (f := fun s => { s with children := s.children ++ [c.scopes.size] }) (fun _ => rfl) fun _ => rfl
  have hscope : ∀ i < c₀.scopes.size,
      (c.scopes.addScope l.scope name owner ledger).scope i =
        (c.scopes.modify l.scope fun s =>
          { s with children := s.children ++ [c.scopes.size] }).scope i := by
    intro i hi
    rw [scope_addScope, if_neg (Nat.ne_of_lt (Nat.lt_of_lt_of_le hi h.size))]
  obtain ⟨T, hT, hnew⟩ := h.stack
  refine ⟨⟨⟨c.scopes.size, ledger.isSome⟩ :: T, by rw [hT]; rfl, ?_⟩, ?_, h.target, ?_, ?_, ?_⟩
  · exact List.forall_mem_cons.mpr ⟨h.size, hnew⟩
  · rw [size_addScope]
    exact Nat.le_succ_of_le h.size
  · intro i hi
    rw [hscope i hi]
    exact hchildren.outline i hi
  · intro i hi hne
    rw [hscope i hi]
    exact hchildren.contents i hi hne
  · intro i hi hout
    rw [hscope i hi]
    exact hchildren.ledger i hi hout

end

theorem pop {c₁ : Checker} (h₁ : Framed l₀ S₀ c₀ S c₁) (h : Framed l₀ S₀ c₀ (l :: S) c) :
    Framed l₀ S₀ c₀ S { c with walk := c₁.walk } :=
  ⟨h₁.stack, h.size, h₁.target, h.outline, h.contents, h.ledger⟩

end Framed

theorem Checker.scopes_reportLeaks (c : Checker) (scope : ScopeId) :
    (c.reportLeaks scope).scopes = c.scopes := by
  rw [reportLeaks]
  split
  · split <;> rfl
  · rfl

/-- The frame of a check is kept, in the scopes that the check has entered. -/
theorem framed_invariant {l₀ : Level} {S₀ : List Level} {c₀ : Checker} (h₀ : Nested (l₀ :: S₀) c₀) :
    StackInvariant (fun _ => True) (fun _ => True) Nested (Framed l₀ S₀ c₀) where
  report _ _ _ h := h.congr rfl rfl
  record _ _ _ h := h.congr rfl rfl
  insert ht _ h := by
    obtain ⟨-, rfl⟩ := eq_of_insert? ht
    exact h.modify_head (fun _ => rfl) fun _ => rfl
  reserve _ _ _ h := ⟨trivial, h.congr rfl rfl⟩
  finalize _ _ h := h.congr rfl rfl
  allocate name span hS h := h.allocate hS name span
  rename target source hS h := h.rename hS target source
  release name span kind hS h := h.release hS name span kind
  checkUse _ _ _ h := h.congr rfl rfl
  deferFree _ _ ht hS h :=
    h.modify _ (fun _ => rfl) (fun hlt hne => absurd (h.target_eq hS ht hlt) hne) fun _ _ _ => rfl
  clearDeferred _ h := h.modify_head (fun _ => rfl) fun _ => rfl
  enterLoop _ h := h.congr rfl rfl
  enterDefer {l S c} hS h := by
    refine ⟨h.stack, h.size, fun t ht => ?_, h.outline, h.contents, h.ledger⟩
    cases ht
    intro hmem
    have hlt : l.scope < c₀.scopes.size := by
      obtain ⟨l', hl', heq⟩ := List.mem_map.mp hmem
      exact heq ▸ h₀.bound l' (List.mem_cons_of_mem _ hl')
    exact h₀.scope_notMem (h.head_eq hlt ▸ hmem)
  restore _ h₁ _ h := ⟨h.stack, h.size, h₁.target, h.outline, h.contents, h.ledger⟩
  pushBlock name _ h := h.push name .block none
  popBlock _ h₁ hwalk _ h := by
    have hleft := h₁.pop h
    rw [← hwalk] at hleft
    exact hleft
  pushBody frame name _ h := by
    have hpushed := h.push name (.function name) (some {})
    refine ⟨hpushed.stack, hpushed.size, fun _ ht => ?_, hpushed.outline, hpushed.contents,
      hpushed.ledger⟩
    cases ht
  popBody {i _ _ c} _ h₁ _ h := by
    have hwalk : (c.reportLeaks i).walk = c.walk := ((MemoryOp.reportLeaks i).step c).walk
    exact h₁.pop (h.congr (c.scopes_reportLeaks i) (congrArg Walk.deferTarget hwalk))

theorem TypeTable.get?_insert (t : TypeTable) (id : NodeId) (ty : Ty) (i : NodeId) :
    (t.insert id ty).get? i = if i = id then some ty else t.get? i := by
  rw [insert, get?, List.lookup_cons]
  by_cases hi : i = id
  · rw [if_pos hi, beq_iff_eq.mpr hi]
  · rw [if_neg hi, beq_false_of_ne hi]
    rfl

theorem StructTable.size_reserve (t : StructTable) (name module : String) (isPublic : Bool) :
    (t.reserve name module isPublic).size = t.size + 1 :=
  Array.size_push _

theorem StructTable.size_finalize? {t u : StructTable} (h : t.finalize? draft = some u) :
    u.size = t.size := by
  unfold finalize? at h
  split at h
  · cases h
  · split at h
    · cases h
    · cases h
      simp [size]

/-- What has become of structs, types and findings since a check started in `c₀`, if it has recorded
types of expressions in `node` only. -/
structure Grown (node : NodeId → Prop) (c₀ c : Checker) : Prop where
  structs_size : c₀.structs.size ≤ c.structs.size
  structs : ∀ id < c₀.structs.size, c.structs.get? id = c₀.structs.get? id
  types : ∀ id, ¬node id → c.types.get? id = c₀.types.get? id
  modules : c.scopes.modules = c₀.scopes.modules
  context : { c.context with findings := [] } = { c₀.context with findings := [] }
  findings : c₀.context.findings <+: c.context.findings

namespace Grown

variable {node : NodeId → Prop} {c₀ c d : Checker}

theorem refl (node : NodeId → Prop) (c : Checker) : Grown node c c :=
  ⟨Nat.le_refl _, fun _ _ => rfl, fun _ _ => rfl, rfl, rfl, List.prefix_refl _⟩

section

variable (h : Grown node c₀ c)

include h

theorem setScopes {t : ScopeTree} (ht : t.modules = c.scopes.modules) :
    Grown node c₀ { c with scopes := t } :=
  ⟨h.structs_size, h.structs, h.types, ht.trans h.modules, h.context, h.findings⟩

theorem setWalk (walk : Walk) : Grown node c₀ { c with walk } :=
  ⟨h.structs_size, h.structs, h.types, h.modules, h.context, h.findings⟩

theorem report (cause : Cause) (span : Span) : Grown node c₀ (c.report cause span) :=
  ⟨h.structs_size, h.structs, h.types, h.modules, h.context,
    h.findings.trans (List.prefix_append ..)⟩

theorem memory {f : Checker → Checker} (hf : MemoryOp f) : Grown node c₀ (f c) := by
  have hstep := hf.step c
  obtain ⟨new, hnew, -⟩ := hstep.findings
  refine ⟨?_, ?_, ?_, ?_, ?_, ?_⟩
  · rw [hstep.structs]
    exact h.structs_size
  · rw [hstep.structs]
    exact h.structs
  · rw [hstep.types]
    exact h.types
  · have hmodules : (f c).scopes.withoutMemory.modules = c.scopes.withoutMemory.modules := by
      rw [hstep.scopes]
    exact hmodules.trans h.modules
  · have hcontext : (f c).context.withoutMemory = c.context.withoutMemory :=
      congrArg Checker.context hstep.withoutMemory
    have hblank := congrArg (fun context : Context => { context with findings := [] }) hcontext
    exact hblank.trans h.context
  · rw [hnew]
    exact h.findings.trans (List.prefix_append ..)

theorem record {id : NodeId} (hid : node id) (ty : Ty) : Grown node c₀ (c.record id ty) := by
  refine ⟨h.structs_size, h.structs, fun i hi => ?_, h.modules, h.context, h.findings⟩
  rw [← h.types i hi]
  exact (c.types.get?_insert id ty i).trans (if_neg fun heq : i = id => hi (heq ▸ hid))

theorem reserve (name module : String) (isPublic : Bool) :
    Grown node c₀ { c with structs := c.structs.reserve name module isPublic } := by
  refine ⟨?_, fun id hid => ?_, h.types, h.modules, h.context, h.findings⟩
  · rw [size_reserve]
    exact Nat.le_succ_of_le h.structs_size
  · rw [get?_reserve, if_neg (Nat.ne_of_lt (Nat.lt_of_lt_of_le hid h.structs_size))]
    exact h.structs id hid

theorem finalize (hdraft : c₀.structs.size ≤ draft.id) :
    Grown node c₀ { c with structs := (c.structs.finalize? draft).getD c.structs } := by
  cases hfinal : c.structs.finalize? draft with
  | none => exact h
  | some t =>
    obtain ⟨_, -, hget⟩ := get?_finalize? hfinal
    refine ⟨?_, fun id hid => ?_, h.types, h.modules, h.context, h.findings⟩
    · rw [Option.getD_some, size_finalize? hfinal]
      exact h.structs_size
    · rw [Option.getD_some, hget, if_neg (Nat.ne_of_lt (Nat.lt_of_lt_of_le hid hdraft))]
      exact h.structs id hid

end

/-- Only structs that are declared since the start are finalized. -/
theorem invariant (node : NodeId → Prop) (c₀ : Checker) (I : List Level → Checker → Prop) :
    StackInvariant (c₀.structs.size ≤ ·) node I (fun _ => Grown node c₀) where
  report span _ _ h := h.report _ span
  record ty hid _ h := h.record hid ty
  insert ht _ h := by
    obtain ⟨-, rfl⟩ := eq_of_insert? ht
    exact h.setScopes rfl
  reserve _ _ _ h := ⟨h.structs_size, h.reserve ..⟩
  finalize hid _ h := h.finalize hid
  allocate _ _ _ h := h.memory (.allocate ..)
  rename _ _ _ h := h.memory (.rename ..)
  release _ _ _ _ h := h.memory (.release ..)
  checkUse _ _ _ h := h.memory (.checkUse ..)
  deferFree _ _ _ _ h := h.setScopes rfl
  clearDeferred _ h := h.setScopes rfl
  enterLoop _ h := h.setWalk _
  enterDefer _ h := h.setWalk _
  restore _ _ _ h := h.setWalk _
  pushBlock _ _ h := h.setScopes rfl
  popBlock _ _ _ _ h := h
  pushBody {l _ c} _ name _ h := by
    have hpushed := h.setScopes (t := c.scopes.addFunction l.scope name) rfl
    exact hpushed.setWalk _
  popBody {i _ _ _} _ _ _ h := by
    have hleaks := h.memory (.reportLeaks i)
    exact hleaks.setWalk _

end Grown

end Warden

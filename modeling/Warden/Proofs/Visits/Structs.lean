import Warden.Proofs.Visits.Program

/-!
# The module that a struct belongs to

The check of a module declares structs in scopes of this module only, so each of them belongs to it
(`structModule_check`). Modules have their turns one after the other: what was declared before the
turn of a module belongs to modules that have been checked by then. So a struct that belongs to the
module whose turn it is was declared in this turn (`Program.Visits.declaresStruct`).
-/

namespace Warden

open CheckM Check Resolver StructTable

variable {checked : List Nat}

/-! ### One module -/

/-- All scopes that have been entered belong to the module, but for the global one, and so do the
structs from the number `n` on. -/
structure DeclaresFor (name : String) (n : Nat) (S : List Level) (c : Checker) : Prop where
  owner : ∀ l ∈ S, l.scope ≠ 0 → c.scopes.owningModule? l.scope = some name
  struct : ∀ id, n ≤ id → id < c.structs.size → c.structs.module? id = some name

namespace DeclaresFor

variable {name : String} {n : Nat} {l : Level} {S : List Level} {c d : Checker}

section

variable (h : DeclaresFor name n S c)

include h

theorem later (hlater : Later c d) (hstructs : d.structs = c.structs) : DeclaresFor name n S d := by
  refine ⟨fun l hl hne => hlater.owner (h.owner l hl hne), fun id hn hlt => ?_⟩
  rw [hstructs] at hlt ⊢
  exact h.struct id hn hlt

theorem memory {f : Checker → Checker} (hf : MemoryOp f) : DeclaresFor name n S (f c) :=
  h.later (.memory hf c) (hf.step c).structs

theorem setScopes {t : ScopeTree} (ht : c.scopes.Unmoved t) :
    DeclaresFor name n S { c with scopes := t } :=
  h.later (.setScopes c ht) rfl

theorem modify (id : ScopeId) {f : Scope → Scope} (hparent : ∀ s, (f s).parent = s.parent)
    (howner : ∀ s, (f s).owner = s.owner) :
    DeclaresFor name n S { c with scopes := c.scopes.modify id f } :=
  h.setScopes (.modify c.scopes id hparent howner)

end

/-- A struct that is declared in the innermost scope belongs to the module. -/
theorem reserve (h : DeclaresFor name n (l :: S) c) (hl : l.scope ≠ 0) (struct : String)
    (isPublic : Bool) : DeclaresFor name n (l :: S)
      { c with structs := c.structs.reserve struct (c.moduleAt l.scope) isPublic } := by
  refine ⟨h.owner, fun id hn hlt => ?_⟩
  have hmodule : c.moduleAt l.scope = name := by
    rw [Checker.moduleAt, h.owner l (.head _) hl, Option.getD_some]
  rw [size_reserve] at hlt
  rw [module?_reserve, hmodule]
  split
  · rfl
  next hne => exact h.struct id hn (Nat.lt_of_le_of_ne (Nat.le_of_lt_succ hlt) hne)

theorem finalize (h : DeclaresFor name n S c) (draft : StructDraft) :
    DeclaresFor name n S { c with structs := (c.structs.finalize? draft).getD c.structs } := by
  refine ⟨h.owner, fun id hn hlt => ?_⟩
  rw [module?_finalize]
  refine h.struct id hn ?_
  cases hfinal : c.structs.finalize? draft with
  | none => simpa [hfinal] using hlt
  | some u => simpa [hfinal, size_finalize? hfinal] using hlt

/-- A scope that is entered, and is no module, belongs to the module of the scope around it. -/
theorem push (h : DeclaresFor name n (l :: S) c) (hl : l.scope ≠ 0) (inner : String)
    (owner : ScopeOwner) (howner : ∀ module, owner ≠ .module module) (ledger : Option Ledger)
    (ownsLedger : Bool) : DeclaresFor name n (⟨c.scopes.size, ownsLedger⟩ :: l :: S)
      { c with scopes := c.scopes.addScope l.scope inner owner ledger } := by
  have hold := h.setScopes (.addScope c.scopes l.scope inner owner ledger)
  refine ⟨fun l' hl' hne => ?_, hold.struct⟩
  rcases List.mem_cons.mp hl' with rfl | hl'
  · exact ScopeTree.owningModule?_addScope _ _ _ _ _ howner (hold.owner l (.head _) hl)
  · exact hold.owner l' hl' hne

theorem pop (h : DeclaresFor name n (l :: S) c) : DeclaresFor name n S c :=
  ⟨fun l' hl' => h.owner l' (.tail _ hl'), h.struct⟩

theorem setWalk (h : DeclaresFor name n S c) (walk : Walk) : DeclaresFor name n S { c with walk } :=
  h.later (.of_eq rfl rfl rfl) rfl

variable (name n) in
theorem invariant : StackInvariant (fun _ => True) (fun _ => True) Nested (DeclaresFor name n) where
  report _ _ _ h := h.later ((Idle.report _ _).later _) rfl
  record _ _ _ h := h.later (.of_eq rfl rfl rfl) rfl
  insert ht _ h := h.setScopes (.insert? ht)
  reserve _ _ hnested h := ⟨trivial, h.reserve hnested.scope_ne_zero ..⟩
  finalize _ _ h := h.finalize _
  allocate _ _ _ h := h.memory (.allocate ..)
  rename _ _ _ h := h.memory (.rename ..)
  release _ _ _ _ h := h.memory (.release ..)
  checkUse _ _ _ h := h.memory (.checkUse ..)
  deferFree _ _ _ _ h := h.modify _ (fun _ => rfl) fun _ => rfl
  clearDeferred _ h := h.modify _ (fun _ => rfl) fun _ => rfl
  enterLoop _ h := h.setWalk _
  enterDefer _ h := h.setWalk _
  restore _ _ _ h := h.setWalk _
  pushBlock inner hnested h := h.push hnested.scope_ne_zero inner .block (by simp) none false
  popBlock _ _ _ _ h := h.pop
  pushBody _ inner hnested h :=
    (h.push hnested.scope_ne_zero inner (.function inner) (by simp) (some {}) true).setWalk _
  popBody _ _ _ h := (h.pop.memory (.reportLeaks _)).setWalk _

end DeclaresFor

/-- The structs that the check of a module adds belong to the module. -/
theorem structModule_check {m : Module} {scope : ScopeId} {c : Checker}
    (hnested : Nested (moduleStack scope) c)
    (howner : c.scopes.owningModule? scope = some m.name) {id : StructId}
    (hid : c.structs.size ≤ id) (hlt : id < ((m.check scope).exec c).structs.size) :
    ((m.check scope).exec c).structs.module? id = some m.name := by
  have hentered : Nested (moduleStack scope) (c.entered m) :=
    hnested.congr rfl (fun _ => rfl) (fun _ => rfl) rfl
  have hstart : DeclaresFor m.name c.structs.size (moduleStack scope) (c.entered m) := by
    refine ⟨fun l hl hne => ?_, fun id hid hlt => absurd hlt (Nat.not_lt.mpr hid)⟩
    rcases List.mem_cons.mp hl with rfl | hl
    · exact howner
    · cases List.mem_singleton.mp hl
      exact absurd rfl hne
  obtain ⟨-, hleft, -⟩ := nested_unconditional.leftModule
    (DeclaresFor.invariant m.name c.structs.size) (fun _ _ => trivial) hentered hstart
  exact (hleft.memory (.reportLeaks scope)).struct id hid hlt

/-! ### All modules -/

namespace Resolver

variable {config : Config} {linkageOf : Nat → Linkage} {r : Resolver} {c : Checker}

/-- Every struct belongs to a module that has been checked. -/
def StructsFrom (r : Resolver) (checked : List Nat) (c : Checker) : Prop :=
  ∀ id < c.structs.size, ∃ j ∈ checked, ∃ s, r.slots[j]? = some s ∧
    c.structs.module? id = some s.module.name

theorem StructsFrom.perform (h : r.StructsFrom checked c) (hwell : c.WellTyped)
    (hbetween : Between config r checked c)
    (howner : ∀ (i : Nat) s, r.slots[i]? = some s → c.scopes.owningModule? s.scope =
      some s.module.name)
    (e : Event) : r.StructsFrom (checked ++ checkedIn [e]) (r.perform c e) := by
  have hold : ∀ id < c.structs.size, ∃ j ∈ checked ++ checkedIn [e], ∃ s, r.slots[j]? = some s ∧
      (r.perform c e).structs.module? id = some s.module.name := by
    intro id hid
    obtain ⟨j, hj, s, hs, hmodule⟩ := h id hid
    exact ⟨j, List.mem_append_left _ hj, s, hs, (later_perform hwell e).struct hmodule⟩
  intro id hid
  by_cases hlt : id < c.structs.size
  · exact hold id hlt
  · cases e with
    | check i =>
      cases hs : r.slots[i]? with
      | none =>
        simp only [Resolver.perform, hs] at hid
        exact absurd hid hlt
      | some s =>
        simp only [Resolver.perform, hs] at hid ⊢
        refine ⟨i, List.mem_append_right _ (.head _), s, hs, ?_⟩
        exact structModule_check (hbetween.nested i s hs) (howner i s hs) (Nat.not_lt.mp hlt) hid
    | cycle path user used span =>
      have hstructs : (r.perform c (.cycle path user used span)).structs = c.structs := by
        rw [Resolver.perform]
        split <;> rfl
      exact absurd (hstructs ▸ hid) hlt

/-- Between the turns of modules, every struct belongs to a module that has had its turn. -/
theorem StructsFrom.events (h : r.StructsFrom checked c) (hlayout : Layout config linkageOf r)
    (hwell : c.WellTyped) (hbetween : Between config r checked c)
    (howner : ∀ (i : Nat) s, r.slots[i]? = some s → c.scopes.owningModule? s.scope =
      some s.module.name)
    (events : List Event) :
    r.StructsFrom (checked ++ checkedIn events) (events.foldl r.perform c) := by
  induction events generalizing checked c with
  | nil => simpa [checkedIn] using h
  | cons e events ih =>
    have hlater := later_perform (r := r) hwell e
    have hrest := ih (h.perform hwell hbetween howner e)
      (Checker.WellTyped.moduleInvariant.perform r hwell e) (hbetween.perform hlayout e)
      fun i s hs => hlater.owner (howner i s hs)
    rw [List.append_assoc, ← checkedIn_append] at hrest
    exact hrest

end Resolver

namespace Program

variable {p : Program} {config : Config} {m : Module} {v : Visit} {id : StructId}

/-- The struct is one that the check of the module declares. -/
def DeclaresStruct (p : Program) (config : Config) (m : Module) (id : StructId) : Prop :=
  ∃ events i, ∃ s : Slot, p.IsCourse config events ∧
    ((Checker.ofConfig config).linked p).slots[i]? = some s ∧ s.module = m ∧
      (p.turn config events i).structs.size ≤ id ∧
      id < ((m.check s.scope).exec (p.turn config events i)).structs.size

theorem structsFrom_turn (p : Program) (config : Config) (events : List Event) (i : Nat) :
    ((Checker.ofConfig config).linked p).StructsFrom (checkedIn (beforeTurn events i))
      (p.turn config events i) := by
  obtain ⟨hlayout, -⟩ := Checker.layout_linked config p
  have hnone : ((Checker.ofConfig config).linked p).StructsFrom []
      ((Checker.ofConfig config).linked p).checker := by
    intro id hid
    rw [hlayout.structs] at hid
    cases hid
  exact hnone.events hlayout
    (p.wellTyped_linked config) (.start hlayout) (fun _ _ hs => owningModule?_linked hs) _

/-- A struct that belongs to the module whose turn it is has been declared in this turn. -/
theorem Visits.declaresStruct (h : p.Visits config m v)
    (hmodule : v.state.structs.module? id = some m.name) : p.DeclaresStruct config m id := by
  obtain ⟨events, i, s, hevents, hs, rfl, hv⟩ := h
  have hduring :=
    (traced_module s.module s.scope (p.wellTyped_turn config events i)).during v hv
  refine ⟨events, i, s, hevents, hs, rfl, Nat.le_of_not_lt fun hlt => ?_, ?_⟩
  · -- what was there before belongs to a module of another name
    obtain ⟨j, hj, t, ht, hother⟩ := p.structsFrom_turn config events i id hlt
    have hname : t.module.name = s.module.name :=
      Option.some.inj ((hduring.after.struct hother).symm.trans hmodule)
    have hprepared := Checker.prepared_linked config p
    have hsame : j = i := by
      have hj := hprepared.find?_eq_some ht
      rw [hname, hprepared.find?_eq_some hs] at hj
      exact (Option.some.inj hj).symm
    exact Earlier.irrefl events i (hsame ▸ hj)
  · exact lt_size_of_module? (hduring.before.struct hmodule)

end Program

end Warden

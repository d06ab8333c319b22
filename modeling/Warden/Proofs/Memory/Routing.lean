import Warden.Proofs.Memory.Detection
import Warden.Proofs.Memory.Receivers
import Warden.Proofs.Memory.Releases
import Warden.Proofs.Tree

/-!
# No release is dropped

A release goes to the ledger that answers for the name. Inside a module there always is one, on the
way outwards: either it knows the name, or it is the nearest ledger to the scope or to the
declaration. So no release goes unnoticed (`Checker.releases_are_never_dropped`). It frees a record,
or it is reported; only what hands over a name without a record does neither.
-/

namespace Warden

open Ledger

namespace ScopeTree

variable {t : ScopeTree} {scope module owner : ScopeId} {name : String}

theorem WellFormed.modulesOwnLedgers (h : t.WellFormed) : t.ModulesOwnLedgers := by
  intro i hmodule
  have hi : i < t.size := lt_size_of_scope_ne fun hout => by simp [hout, Scope.isModule] at hmodule
  exact (h.ledger i hi).mpr (.inr hmodule)

theorem ledger_isSome_of_ledgerFor? (h : t.ledgerFor? scope name = some owner) :
    (t.scope owner).ledger.isSome = true := by
  rcases knows_or_owner_of_ledgerFor? h with ⟨-, hknows⟩ | ⟨_, -, howner⟩
  · exact ledger_isSome_of_knows hknows
  · exact ledger_isSome_of_ledgerOwner? howner

/-- Below a module some ledger answers for every name. -/
theorem ModulesOwnLedgers.exists_ledgerFor? (h : t.ModulesOwnLedgers)
    (hmem : module ∈ t.ancestors scope) (hmodule : (t.scope module).isModule = true)
    (name : String) : ∃ owner, t.ledgerFor? scope name = some owner := by
  have howner : (t.ledgerOwner? scope).isSome = true :=
    List.find?_isSome.mpr ⟨module, hmem, h module hmodule⟩
  rw [← Option.isSome_iff_exists, ledgerFor?]
  split <;> simp [howner]

end ScopeTree

namespace Checker

variable {c : Checker} {scope owner : ScopeId} {name : String}

/-- What a release comes to, if nothing drops it. -/
inductive Heeds (c : Checker) (scope : ScopeId) (name : String) (span : Span) (kind : FreeKind)
    (d : Checker) : Prop where
  /-- It frees the record behind the name and no other, and nothing is reported. -/
  | frees (x : RecordId) (behind : c.recordId? scope name = some x) (held : c.freed? x = some false)
      (freed : ∀ y, d.freed? y = if y = x then some true else c.freed? y)
      (quiet : d.context = c.context)
  /-- It frees nothing, and one cause is reported. -/
  | reports (cause : Cause) (kept : ∀ y, d.freed? y = c.freed? y)
      (reported : d.context = c.context.report cause span)
  /-- It hands over a name without a record, and nothing changes. -/
  | ignores (transfer : kind = .transfer) (untracked : c.recordId? scope name = none)
      (same : d = c)

theorem heeds_release (hid : c.scopes.ledgerFor? scope name = some owner)
    (hledger : (c.scopes.scope owner).ledger.isSome = true) (span : Span) (kind : FreeKind) :
    c.Heeds scope name span kind (c.release scope name span kind) := by
  obtain ⟨l, hl⟩ := Option.isSome_iff_exists.mp hledger
  have hfreed : ∀ y, (c.release scope name span kind).freed? y =
      (c.freed? y).map (· || c.recordId? scope name == some y) := freed?_release span kind
  have hcontext := congrArg context (release_eq hid hl span kind)
  cases ha : l.allocation? name with
  | none =>
    have hnone : c.recordId? scope name = none := by
      simp [recordId?, hid, hl, position?_of_none ha]
    cases kind with
    | explicit =>
      rw [release_of_none ha] at hcontext
      exact .reports _ (fun y => by simp [hfreed, hnone]) hcontext
    | transfer =>
      have hbehind : c.recordBehind? scope name = none := by simp [recordBehind?, hid, hl, ha]
      exact .ignores rfl hnone (release_of_recordBehind?_eq_none hbehind span)
  | some a =>
    obtain ⟨hname, older, newer, hsplit, hnewer⟩ := exists_split_of_allocation? ha
    have hsome : c.recordId? scope name = some ⟨owner, older.length⟩ := by
      simp [recordId?, hid, hl, position?_of_split hsplit hname hnewer]
    have hold : c.freed? ⟨owner, older.length⟩ = some a.isFreed := by
      simp [freed?, Scope.records, hl, hsplit]
    have hmarks : ∀ y, (c.release scope name span kind).freed? y =
        if y = ⟨owner, older.length⟩ then some true else c.freed? y := by
      intro y
      rw [hfreed, hsome]
      split
      next heq => simp [heq, hold]
      next hne => simp [beq_eq_false_iff_ne.mpr (Ne.symm hne)]
    rw [release_of_some hsplit hname hnewer] at hcontext
    cases hfree : a.isFreed with
    | false =>
      simp only [Ledger.outcomeOf, hfree] at hcontext
      exact .frees _ hsome (hfree ▸ hold) hmarks hcontext
    | true =>
      have hkept : ∀ y, (c.release scope name span kind).freed? y = c.freed? y := by
        intro y
        rw [hmarks]
        split
        next heq => rw [heq, hold, hfree]
        · rfl
      simp only [Ledger.outcomeOf, hfree] at hcontext
      cases kind <;> exact .reports _ hkept hcontext

/-- **No release is dropped.** Below a module of a well-formed tree some ledger on the way outwards
answers for every name, declared or not. So a release frees exactly one record, or it is reported
exactly once, unless it hands over a name without a record. -/
theorem releases_are_never_dropped (hc : c.scopes.WellFormed) {module : ScopeId}
    (hmem : module ∈ c.scopes.ancestors scope) (hmodule : (c.scopes.scope module).isModule = true)
    (name : String) :
    ∃ owner, c.scopes.ledgerFor? scope name = some owner ∧ owner ∈ c.scopes.ancestors scope ∧
      (c.scopes.scope owner).ledger.isSome = true ∧
      ∀ span kind, c.Heeds scope name span kind (c.release scope name span kind) := by
  obtain ⟨owner, howner⟩ := hc.modulesOwnLedgers.exists_ledgerFor? hmem hmodule name
  have hledger := ScopeTree.ledger_isSome_of_ledgerFor? howner
  exact ⟨owner, howner, hc.arena.mem_ancestors_of_ledgerFor? howner, hledger,
    heeds_release howner hledger⟩

/-- In a block, the ledger of the function around it answers for a name that is not declared, and to
free the name is reported. -/
theorem releases_are_never_dropped_in_block : ∃ c : Checker, c.scopes.WellFormed ∧
    c.scopes.ancestors 3 = [3, 2, 1, 0] ∧ (c.scopes.scope 1).isModule = true ∧
    c.scopes.ledgerFor? 3 "p" = some 2 ∧
    ∃ cause, (c.release 3 "p" {} .explicit).context = c.context.report cause {} := by
  have hmain := ScopeTree.WellFormed.initial.step
    (.addModule (show ScopeTree.initial.addModule? "main" = some _ from rfl))
  have hf := hmain.step (.addFunction "f" (show 1 < _ by decide))
  have hblock := hf.step (.addBlock "block" (show 2 < _ by decide))
  refine ⟨{ scopes := _ }, hblock, rfl, rfl, rfl, ?_⟩
  obtain ⟨owner, -, -, -, hheeds⟩ := releases_are_never_dropped (c := { scopes := _ }) hblock
    (show 1 ∈ ScopeTree.ancestors _ 3 by decide) rfl "p"
  cases hheeds {} .explicit with
  | frees x behind => cases behind
  | reports cause kept reported => exact ⟨cause, reported⟩
  | ignores transfer => cases transfer

end Checker

end Warden

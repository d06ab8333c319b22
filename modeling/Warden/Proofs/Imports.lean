import Warden.Proofs.Reachable
import Warden.Proofs.Resolution.Layout

/-!
# Modules have scopes

A module that is registered, or that a scope has imported, has a scope in the tree
(`ScopeTree.ModulesKnown`). The passes over a program see to that, and checks change neither the
registry nor imports, so it holds in every state that a check can come to
(`Checker.Reachable.modulesKnown`).
-/

namespace Warden

open ScopeTree

/-- Every module that is registered or imported has a scope in the tree. -/
structure ScopeTree.ModulesKnown (t : ScopeTree) : Prop where
  registered : ∀ {name id}, t.moduleScope? name = some id → id < t.size
  imported : ∀ {i m}, m ∈ (t.scope i).imports → m.scope < t.size

namespace ScopeTree.ModulesKnown

variable {t u : ScopeTree}

variable (h : t.ModulesKnown)

include h

/-- A tree that has grown, with the same registry and imports. -/
theorem mono (hsize : t.size ≤ u.size) (hregistry : u.moduleScope? = t.moduleScope?)
    (himports : ∀ i, (u.scope i).imports = (t.scope i).imports) : u.ModulesKnown where
  registered hid := Nat.lt_of_lt_of_le (h.registered (hregistry ▸ hid)) hsize
  imported hm := Nat.lt_of_lt_of_le (h.imported (himports _ ▸ hm)) hsize

theorem addScope (parent : ScopeId) (name : String) (owner : ScopeOwner) (ledger : Option Ledger) :
    (t.addScope parent name owner ledger).ModulesKnown := by
  refine h.mono ?_ rfl fun i => ?_
  · rw [size_addScope]
    exact Nat.le_succ _
  · by_cases hi : i = t.size
    · rw [hi, scope_addScope_size, scope_of_size_le (Nat.le_refl _)]
    · exact t.field_addScope parent name owner ledger Scope.imports (fun _ _ => rfl) hi

theorem addModule? {name : String} (hu : t.addModule? name = some u) : u.ModulesKnown := by
  obtain ⟨hsize, hregistry, hscope⟩ := Resolver.addModule?_spec hu
  refine ⟨fun {other id} hid => ?_, fun {i m} hm => ?_⟩
  · rw [hregistry] at hid
    rw [hsize]
    rcases Option.or_eq_some_iff.mp hid with hold | ⟨-, hnew⟩
    · exact Nat.lt_succ_of_lt (h.registered hold)
    · split at hnew
      · cases hnew
        exact Nat.lt_succ_self _
      · cases hnew
  · rw [hscope] at hm
    rw [hsize]
    split at hm
    · cases hm
    · split at hm
      · exact Nat.lt_succ_of_lt (h.imported hm)
      · exact Nat.lt_succ_of_lt (h.imported hm)

theorem addImport? {id : ScopeId} {module localName : String}
    (hu : t.addImport? id module localName = some u) : u.ModulesKnown := by
  obtain ⟨scope, hscope, rfl⟩ := ScopeTree.eq_of_addImport? hu
  refine ⟨fun hid => ?_, fun {i m} hm => ?_⟩
  · rw [size_modify]
    exact h.registered hid
  · rw [size_modify]
    rw [scope_modify] at hm
    split at hm
    · rcases List.mem_append.mp hm with hold | hnew
      · exact h.imported hold
      · cases List.mem_singleton.mp hnew
        exact h.registered hscope
    · exact h.imported hm

end ScopeTree.ModulesKnown

namespace Checker

theorem modulesKnown_memory {c d : Checker} (h : c.scopes.ModulesKnown) (hstep : MemoryStep c d) :
    d.scopes.ModulesKnown := by
  have hregistry : d.scopes.modules = c.scopes.modules :=
    (congrArg ScopeTree.modules hstep.scopes :)
  refine h.mono (Nat.le_of_eq ?_) ?_ fun i => ?_
  · rw [← c.scopes.size_withoutMemory, ← hstep.scopes, d.scopes.size_withoutMemory]
  · funext name
    rw [ScopeTree.moduleScope?, hregistry]
    rfl
  · have hscope : (d.scopes.scope i).withoutMemory = (c.scopes.scope i).withoutMemory := by
      rw [← scope_withoutMemory, hstep.scopes, scope_withoutMemory]
    exact congrArg (·.imports) hscope

theorem modulesKnown_ofConfig (config : Config) : (ofConfig config).scopes.ModulesKnown where
  registered h := by simp [ofConfig, ScopeTree.moduleScope?, ScopeTree.initial] at h
  imported {i m} h := by
    rcases Nat.lt_or_ge i 1 with hi | hi
    · obtain rfl : i = 0 := Nat.lt_one_iff.mp hi
      cases h
    · rw [scope_of_size_le hi] at h
      cases h

/-- The passes over a program give every module a scope, and checks change neither the registry nor
imports. -/
theorem modulesKnown_runInvariant : RunInvariant fun c => c.scopes.ModulesKnown where
  start config := modulesKnown_ofConfig config
  report _ _ h := h
  enter _ h := h
  record _ _ h := h
  memory {c _} hf h := modulesKnown_memory h (hf.step c)
  setWalk _ h := h
  setStructs _ h := h
  addBlock parent name h := h.addScope parent name .block none
  addFunction parent name h := h.addScope parent name (.function name) (some {})
  insert h ht := by
    obtain ⟨-, rfl⟩ := eq_of_insert? ht
    exact h.mono (Nat.le_of_eq (size_modify ..).symm) rfl
      (field_modify _ _ Scope.imports fun _ => rfl)
  addModule h ht := h.addModule? ht
  addImport h ht := h.addImport? ht

/-- In every state that a check can come to, modules have scopes. -/
theorem Reachable.modulesKnown {c : Checker} (h : c.Reachable) : c.scopes.ModulesKnown :=
  h.keeps modulesKnown_runInvariant

end Checker

end Warden

import Warden.Proofs.Resolution.Layout
import Warden.Proofs.Resolution.Order

/-!
# The state between two modules

While a tour goes on, modules that have not been checked keep the scopes that they had before the
tour, as does the global scope, and the check can enter each of them (`Between`). A module's check
changes its own scope and adds new ones behind all others. It never changes how scopes lie and what
they import.
-/

namespace Warden

namespace Resolver

/-- The state of the check when certain modules have been checked and no other has been begun. -/
structure Between (config : Config) (r : Resolver) (checked : List Nat) (c : Checker) : Prop where
  size : r.checker.scopes.size ≤ c.scopes.size
  nested : ∀ (i : Nat) s, r.slots[i]? = some s → Nested (moduleStack s.scope) c
  scope : ∀ i < r.checker.scopes.size, (∀ slot ∈ checked, i ≠ slot + 1) →
    c.scopes.scope i = r.checker.scopes.scope i
  outline : ∀ i < r.checker.scopes.size,
    (c.scopes.scope i).outline = (r.checker.scopes.scope i).outline
  modules : c.scopes.modules = r.checker.scopes.modules
  walk : c.walk = {}
  config : c.context.config = config

namespace Between

variable {config : Config} {linkageOf : Nat → Linkage} {r : Resolver} {checked : List Nat}
  {c : Checker}

theorem start (h : Layout config linkageOf r) : Between config r [] r.checker where
  __ := h
  size := Nat.le_refl _
  nested _ _ hs := h.nested hs
  scope _ _ _ := rfl
  outline _ _ := rfl
  modules := rfl

variable (h : Between config r checked c)

include h

/-- One more module is checked. -/
theorem check (hlayout : Layout config linkageOf r) {i : Nat} {s : Slot}
    (hs : r.slots[i]? = some s) :
    Between config r (checked ++ [i]) ((s.module.check s.scope).exec c) := by
  have hnested := h.nested i s hs
  have hframe := s.module.frame_check hnested
  refine ⟨Nat.le_trans h.size hframe.framed.size, fun j t ht => hframe.nested_of (h.nested j t ht),
    fun j hj hne => ?_, fun j hj => ?_, hframe.grown.modules.trans h.modules,
    hframe.walk.trans h.walk, ?_⟩
  · have hother : j ≠ s.scope := (hlayout.slot i s hs).1 ▸ hne i (by simp)
    rw [hframe.scope_eq hnested (Nat.lt_of_lt_of_le hj h.size) hother]
    exact h.scope j hj fun slot hslot => hne slot (List.mem_append_left _ hslot)
  · exact (hframe.framed.outline j (Nat.lt_of_lt_of_le hj h.size)).trans (h.outline j hj)
  · have hconfig := congrArg Context.config hframe.grown.context
    exact hconfig.trans h.config

theorem perform (hlayout : Layout config linkageOf r) (e : Event) :
    Between config r (checked ++ checkedIn [e]) (r.perform c e) := by
  cases e with
  | check i =>
    cases hs : r.slots[i]? with
    | none =>
      simp only [Resolver.perform, hs]
      exact ⟨h.size, h.nested, fun j hj hne => h.scope j hj fun slot hslot =>
        hne slot (List.mem_append_left _ hslot), h.outline, h.modules, h.walk, h.config⟩
    | some s =>
      simp only [Resolver.perform, hs]
      exact h.check hlayout hs
  | cycle path user used span =>
    have hnone : checked ++ checkedIn [.cycle path user used span] = checked :=
      List.append_nil checked
    rw [hnone, Resolver.perform]
    split
    · exact h
    · exact { h with
        nested := fun i s hs => (h.nested i s hs).congr rfl (fun _ => rfl) (fun _ => rfl) rfl }

theorem events (hlayout : Layout config linkageOf r) (events : List Event) :
    Between config r (checked ++ checkedIn events) (events.foldl r.perform c) := by
  induction events generalizing checked c with
  | nil => simpa [checkedIn] using h
  | cons e events ih =>
    have hrest := ih (h.perform hlayout e)
    rw [List.append_assoc, ← checkedIn_append] at hrest
    exact hrest

end Between

end Resolver

/-- When a program has been resolved, the check can enter each of its modules. -/
theorem Checker.nested_resolve (config : Config) (p : Program) {i : Nat} {s : Slot}
    (hs : ((ofConfig config).linked p).slots[i]? = some s) :
    Nested (moduleStack s.scope) ((ofConfig config).resolve p).checker := by
  obtain ⟨events, -, hresolve, -, -⟩ := exists_course_resolve config p
  obtain ⟨hlayout, -⟩ := layout_linked config p
  rw [hresolve]
  exact ((Resolver.Between.start hlayout).events hlayout events).nested i s hs

end Warden

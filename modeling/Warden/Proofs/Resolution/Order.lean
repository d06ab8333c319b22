import Mathlib.Data.List.Dedup
import Mathlib.Data.List.Range
import Warden.Proofs.Filing
import Warden.Proofs.Resolution.Course

/-!
# Modules in order of their dependencies

Resolving a program from the start checks its modules in order of their dependencies
(`inDependencyOrder_resolve`), whatever names they have and whatever they import. The proof reads
the statement off the course of the tour. What the tour reports is never lost, so that a cycle among
its events is among the findings at the end (`exists_finding_of_cycle`).
-/

namespace Warden

namespace Resolver

open ResolveM

/-! ### What a tour reports -/

/-- In a state of the check, an event makes a finding in a module. -/
inductive Makes (r : Resolver) (c : Checker) : Event → Module → Finding → Prop where
  | check {slot s f} : r.slots[slot]? = some s → f ∈ (s.module.check s.scope).emitted c →
      Makes r c (.check slot) s.module f
  | cycle {path user used span s} : r.slots[user]? = some s →
      Makes r c (.cycle path user used span) s.module (s.module.finding
        (.circularDependency (path.map r.nameOf) (r.nameOf user) (r.nameOf used)) span)

theorem findings_perform (r : Resolver) (c : Checker) (e : Event) :
    ∃ new, (r.perform c e).context.findings = c.context.findings ++ new ∧
      ∀ f ∈ new, ∃ m, r.Makes c e m f := by
  cases e with
  | check slot =>
    rw [perform]
    cases hs : r.slots[slot]? with
    | none => exact ⟨[], by simp⟩
    | some s => exact ⟨_, (s.module.findings_check s.scope c).1, fun f hf => ⟨_, .check hs hf⟩⟩
  | cycle path user used span =>
    rw [perform]
    cases hs : r.slots[user]? with
    | none => exact ⟨[], by simp⟩
    | some s =>
      refine ⟨_, rfl, fun f hf => ?_⟩
      cases List.mem_singleton.mp hf
      exact ⟨_, .cycle hs⟩

/-- The events of a tour add findings, each of which one of the events makes. -/
theorem findings_foldl (r : Resolver) (events : List Event) (c : Checker) :
    ∃ new, (events.foldl r.perform c).context.findings = c.context.findings ++ new ∧
      ∀ f ∈ new, ∃ before e later m, events = before ++ e :: later ∧
        r.Makes (before.foldl r.perform c) e m f := by
  induction events generalizing c with
  | nil => exact ⟨[], by simp⟩
  | cons e events ih =>
    obtain ⟨new, hnew, hone⟩ := findings_perform r c e
    obtain ⟨more, hmore, hall⟩ := ih (r.perform c e)
    refine ⟨new ++ more, ?_, fun f hf => ?_⟩
    · rw [List.foldl_cons, hmore, hnew, List.append_assoc]
    · rcases List.mem_append.mp hf with hf | hf
      · obtain ⟨m, hm⟩ := hone f hf
        exact ⟨[], e, events, m, rfl, hm⟩
      · obtain ⟨before, e', later, m, rfl, hm⟩ := hall f hf
        exact ⟨e :: before, e', later, m, rfl, hm⟩

/-- The finding says that the module of a slot closes a cycle with one of its uses. -/
def ClosesCycle (s : Slot) (use : String × Span) (f : Finding) : Prop :=
  (∃ path, f.cause = .circularDependency path s.module.name use.1) ∧ f.span = use.2 ∧
    f.filePath = s.module.filePath

/-- A cycle that a tour comes across is reported, at the place of the import that closes it. -/
theorem exists_finding_of_cycle {r : Resolver} {events : List Event} {path : List Nat}
    {user used : Nat} {use : String × Span} (hmem : .cycle path user used use.2 ∈ events) {s : Slot}
    (hs : r.slots[user]? = some s) (hused : r.find? use.1 = some used) (c : Checker) :
    ∃ f ∈ (events.foldl r.perform c).context.findings, ClosesCycle s use f := by
  obtain ⟨before, later, rfl⟩ := List.append_of_mem hmem
  rw [List.foldl_append, List.foldl_cons]
  generalize before.foldl r.perform c = d
  obtain ⟨new, hnew, -⟩ := findings_foldl r later (r.perform d (.cycle path user used use.2))
  rw [hnew, perform, hs]
  rw [(nameOf_of_find? hused).2, nameOf_eq hs]
  exact ⟨_, List.mem_append_left _ (List.mem_append_right _ (.head _)), ⟨path.map r.nameOf, rfl⟩,
    rfl, rfl⟩

/-! ### The order -/

/-- In the order of the modules, a use comes before its user, or it is reported to close a cycle. -/
def UsedBeforeOrReported (r : Resolver) (s : Slot) (use : String × Span) : Prop :=
  [use.1, s.module.name].Sublist r.order ∨ ∃ f ∈ r.checker.context.findings, ClosesCycle s use f

theorem map_nameOf_range (r : Resolver) : (List.range r.slots.size).map r.nameOf = r.names := by
  apply List.ext_getElem?
  intro i
  rw [names, List.getElem?_map, List.getElem?_map, modules_getElem?]
  by_cases hi : i < r.slots.size
  · rw [List.getElem?_range hi, Array.getElem?_eq_getElem hi]
    simp [nameOf, hi]
  · rw [List.getElem?_eq_none (by simpa using hi), Array.getElem?_eq_none (by omega)]
    rfl

namespace Course

variable {r : Resolver} {events : List Event} (h : Course r events [])
  (hall : ∀ slot < r.slots.size, slot ∈ checkedIn events)

include h hall

/-- Every module is checked, and none twice. -/
theorem perm : (checkedIn events).Perm (List.range r.slots.size) := by
  have hnodup := h.nodup
  have hbound := h.bound
  rw [List.append_nil] at hnodup hbound
  rw [List.perm_ext_iff_of_nodup hnodup List.nodup_range]
  intro i
  rw [List.mem_range]
  exact ⟨hbound i, hall i⟩

theorem order_perm : (r.after events []).order.Perm r.names := by
  rw [← map_nameOf_range]
  exact (h.perm hall).map r.nameOf

theorem usedBeforeOrReported {s : Slot} (hs : s ∈ (r.after events []).slots) {use : String × Span}
    (huse : use ∈ s.uses) : UsedBeforeOrReported (r.after events []) s use := by
  obtain ⟨i, s, hi, rfl⟩ := mem_slots_after hs
  have hlt : i < r.slots.size := (Array.getElem?_eq_some_iff.mp hi).1
  obtain ⟨before, later, rfl⟩ := List.append_of_mem (mem_checkedIn.mp (hall i hlt))
  obtain ⟨used, hused, hbefore | ⟨path, hpath⟩⟩ := h.ordered before i later rfl s hi use huse
  · left
    have horder : (r.after (before ++ .check i :: later) []).order =
        (checkedIn before).map r.nameOf ++ r.nameOf i :: (checkedIn later).map r.nameOf := by
      simp [after, checkedIn]
    rw [horder, nameOf_eq hi, ← (nameOf_of_find? hused).2]
    exact (List.singleton_sublist.mpr (List.mem_map_of_mem hbefore)).append
      (List.singleton_sublist.mpr (.head _))
  · right
    exact exists_finding_of_cycle (List.mem_append_left _ hpath) hi hused r.checker

end Course

end Resolver

namespace Checker

open Resolver ResolveM

variable (config : Config) (p : Program)

/-- Resolving a program from the start ends where the course of a tour ends. -/
theorem exists_course_resolve : ∃ events,
    (∀ fuel > ((ofConfig config).linked p).slots.size,
      exec (forEach (visit fuel) (List.range ((ofConfig config).linked p).slots.size))
        ((ofConfig config).linked p) = (ofConfig config).resolve p) ∧
    (ofConfig config).resolve p = ((ofConfig config).linked p).after events [] ∧
    Track ((ofConfig config).linked p) events [] ∧
    ∀ slot < ((ofConfig config).linked p).slots.size, slot ∈ checkedIn events := by
  obtain ⟨events, hexec, hcourse, hall⟩ := exists_course (prepared_linked config p)
  have hresolve : (ofConfig config).resolve p = ((ofConfig config).linked p).after events [] := by
    rw [← hexec _ (Nat.lt_succ_self _), ← size_linked]
    rfl
  exact ⟨events, fun fuel hfuel => (hexec fuel hfuel).trans hresolve.symm, hresolve, hcourse, hall⟩

end Checker

open Resolver ResolveM

/-- How a program ends that is resolved with the modules and imports of a prepared state. -/
structure InDependencyOrder (p : Program) (prepared r : Resolver) : Prop where
  /-- No visit is cut short: with more depth it comes to the same. -/
  finished : ∀ fuel > prepared.slots.size,
    exec (forEach (visit fuel) (List.range prepared.slots.size)) prepared = r
  /-- The modules are the first ones of each name. -/
  modules : FirstOfEachName r p.modules
  /-- The order names each module of the program once. -/
  order : r.order.Perm (p.modules.map (·.name)).dedup
  /-- All that happens to the state of the check is that cycles are reported and, in that order, the
  body of each module is checked once. -/
  once : ∃ events, r.checker = events.foldl prepared.perform prepared.checker ∧
    (checkedIn events).Perm (List.range prepared.slots.size) ∧
    (checkedIn events).map prepared.nameOf = r.order
  done : ∀ s ∈ r.slots, s.progress = .done
  /-- What a module is noted to use it does import, at the place that is noted. -/
  written : ∀ s ∈ r.slots, ∀ use ∈ s.uses, s.module.ImportsAt use
  uses : ∀ s ∈ r.slots, ∀ use ∈ s.uses, UsedBeforeOrReported r s use

/-- Resolving a program from the start checks its modules in order of their dependencies. -/
theorem inDependencyOrder_resolve (config : Config) (p : Program) :
    InDependencyOrder p ((Checker.ofConfig config).linked p)
      ((Checker.ofConfig config).resolve p) := by
  obtain ⟨events, hexec, hresolve, hcourse, hall⟩ := Checker.exists_course_resolve config p
  have hr := Checker.prepared_linked config p
  have hfirst := Checker.firstOfEachName_linked config p
  rw [hresolve] at hexec ⊢
  generalize (Checker.ofConfig config).linked p = r at *
  refine ⟨hexec, fun name => modules_after r events [] ▸ hfirst name, ?_,
    ⟨events, rfl, hcourse.perm hall, rfl⟩, ?_, ?_,
    fun s hs use huse => hcourse.usedBeforeOrReported hall hs huse⟩
  · refine (hcourse.order_perm hall).trans ?_
    rw [List.perm_ext_iff_of_nodup hr.nodup (List.nodup_dedup _)]
    intro name
    rw [hfirst.mem_names, List.mem_dedup]
  · intro s hs
    obtain ⟨i, s, hi, rfl⟩ := mem_slots_after hs
    exact if_pos (hall i (Array.getElem?_eq_some_iff.mp hi).1)
  · intro s hs
    obtain ⟨i, s, hi, rfl⟩ := mem_slots_after hs
    exact hr.written s (Array.mem_of_getElem? hi)

end Warden

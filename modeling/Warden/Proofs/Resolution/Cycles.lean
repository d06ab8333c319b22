import Mathlib.Logic.Relation
import Warden.Proofs.Resolution.Order

/-!
# Cycles among the modules

A cycle is reported exactly if the dependencies of the modules have one
(`reportsCyclesExactly_resolve`).

* If none is reported, every module stands behind those it uses. Going from user to used then always
  leads forward in the order, and never comes back (`dependsOn_irrefl`).
* If one is reported, it is an event of the tour and so a cycle of slots. The names of the modules
  are different, so that it is a cycle of names as well (`IsCycle.map`).
-/

namespace Warden

variable {r : Resolver}

/-! ### Cycles along a relation -/

section relation

variable {α β : Type} {R : α → α → Prop} {S : β → β → Prop}

theorem transGen_of_isChain {x y : α} {xs : List α} (h : (x :: xs ++ [y]).IsChain R) :
    Relation.TransGen R x y := by
  induction xs generalizing x with
  | nil => exact .single (by simpa using h)
  | cons z zs ih =>
    obtain ⟨hxz, hrest⟩ := List.isChain_cons_cons.mp h
    exact .head hxz (ih hrest)

theorem IsCycle.transGen {path : List α} (h : IsCycle R path) : ∃ x, Relation.TransGen R x x := by
  obtain ⟨x, xs, rfl, -, hchain⟩ := h
  exact ⟨x, transGen_of_isChain hchain⟩

/-- Everything on a cycle has a successor. -/
theorem exists_rel_of_mem {x y : α} {xs : List α} (h : (xs ++ [y]).IsChain R) (hx : x ∈ xs) :
    ∃ z, R x z := by
  obtain ⟨before, later, rfl⟩ := List.append_of_mem hx
  have hsuffix : (x :: (later ++ [y])).IsChain R := h.suffix ⟨before, by simp⟩
  cases later with
  | nil => exact ⟨y, (List.isChain_cons_cons.mp hsuffix).1⟩
  | cons z later => exact ⟨z, (List.isChain_cons_cons.mp hsuffix).1⟩

/-- A map that keeps a relation, and what stands in it apart, keeps its cycles. -/
theorem IsCycle.map {f : α → β} (hf : ∀ a b, R a b → S (f a) (f b))
    (hinj : ∀ a a' b b', R a a' → R b b' → f a = f b → a = b) {path : List α}
    (h : IsCycle R path) : IsCycle S (path.map f) := by
  obtain ⟨x, xs, rfl, hnodup, hchain⟩ := h
  refine ⟨f x, xs.map f, by simp, ?_, List.isChain_map_of_isChain f hf hchain⟩
  rw [← List.map_cons]
  refine List.Nodup.map_on (fun a ha b hb hab => ?_) hnodup
  obtain ⟨a', ha'⟩ := exists_rel_of_mem hchain ha
  obtain ⟨b', hb'⟩ := exists_rel_of_mem hchain hb
  exact hinj a a' b b' ha' hb' hab

end relation

theorem idxOf_lt_of_sublist {α : Type} [DecidableEq α] {a b : α} {l : List α} (hl : l.Nodup)
    (h : [a, b].Sublist l) : l.idxOf a < l.idxOf b := by
  obtain ⟨before, later, rfl, ha, hb⟩ := List.cons_sublist_iff.mp h
  have hb : b ∈ later := List.singleton_sublist.mp hb
  have hbefore : b ∉ before := fun hmem => (List.nodup_append.mp hl).2.2 b hmem b hb rfl
  rw [List.idxOf_append_of_mem ha, List.idxOf_append_of_notMem hbefore]
  have hlt := List.idxOf_lt_length_of_mem ha
  omega

namespace Resolver

/-! ### Dependencies by name -/

/-- The module of one name is noted to use the one of another name. -/
def DependsOn (r : Resolver) (user used : String) : Prop :=
  ∃ s ∈ r.slots, s.module.name = user ∧ ∃ use ∈ s.uses, use.1 = used

/-- Where every use comes first, the dependencies lead forward. -/
theorem dependsOn_irrefl (horder : r.order.Nodup)
    (huses : ∀ s ∈ r.slots, ∀ use ∈ s.uses, [use.1, s.module.name].Sublist r.order)
    (name : String) : ¬ Relation.TransGen r.DependsOn name name := by
  intro hcycle
  have hstep : ∀ user used, r.DependsOn user used → r.order.idxOf used < r.order.idxOf user := by
    rintro _ _ ⟨s, hs, rfl, use, huse, rfl⟩
    exact idxOf_lt_of_sublist horder (huses s hs use huse)
  have hlt := hcycle.lift (p := (· > ·)) r.order.idxOf hstep
  rw [Relation.transGen_eq_self] at hlt
  exact Nat.lt_irrefl _ hlt

/-- A use of one slot by another one is a dependency of their names. -/
theorem Uses.dependsOn {user used : Nat} (h : r.Uses user used) (events : List Event)
    (stack : List Nat) : (r.after events stack).DependsOn (r.nameOf user) (r.nameOf used) := by
  obtain ⟨s, hs, use, huse, hfind⟩ := h
  refine ⟨{ s with progress := progressAfter events stack user }, ?_, (nameOf_eq hs).symm, use,
    huse, (nameOf_of_find? hfind).2.symm⟩
  apply Array.mem_of_getElem? (i := user)
  rw [slots_after, hs]
  rfl

theorem Prepared.nameOf_inj (h : Prepared r) {i j : Nat} (hi : i < r.slots.size)
    (hj : j < r.slots.size) (heq : r.nameOf i = r.nameOf j) : i = j := by
  have hnodup := h.nodup
  rw [← map_nameOf_range] at hnodup
  exact List.inj_on_of_nodup_map hnodup (List.mem_range.mpr hi) (List.mem_range.mpr hj) heq

/-- A cycle of slots is a cycle of names. -/
theorem Prepared.isCycle_names (h : Prepared r) {path : List Nat} (hpath : IsCycle r.Uses path)
    (events : List Event) (stack : List Nat) :
    IsCycle (r.after events stack).DependsOn (path.map r.nameOf) := by
  have hlt : ∀ user used, r.Uses user used → user < r.slots.size :=
    fun _ _ ⟨_, hs, _⟩ => (Array.getElem?_eq_some_iff.mp hs).1
  refine hpath.map (fun _ _ huse => huse.dependsOn events stack) ?_
  exact fun a a' b b' ha hb heq => h.nameOf_inj (hlt a a' ha) (hlt b b' hb) heq

/-! ### Findings about cycles -/

/-- The finding names the modules of a cycle, from one of them back to it. -/
def NamesCycle (r : Resolver) (f : Finding) : Prop :=
  ∃ path user used, f.cause = .circularDependency path user used ∧ IsCycle r.DependsOn path ∧
    f.toDiagnostic.message = "Circular dependency between modules: " ++ " -> ".intercalate path

namespace Course

variable {r : Resolver} {events : List Event}

/-- Only cycles are reported as such. -/
theorem namesCycle (h : Course r events []) (hr : Prepared r) {f : Finding}
    (hf : f ∈ (r.after events []).checker.context.findings) (htag : f.tag = .circularDependency) :
    (r.after events []).NamesCycle f := by
  obtain ⟨new, hnew, hmakes⟩ := findings_foldl r events r.checker
  rcases List.mem_append.mp (hnew ▸ hf) with hold | hmem
  · exact absurd htag (hr.findings f hold)
  · obtain ⟨before, e, later, m, rfl, hmade⟩ := hmakes f hmem
    cases hmade with
    | @check _ s _ _ hf =>
      exact absurd htag (f.tag_ne_circularDependency ((s.module.findings_check _ _).2 f hf))
    | cycle hs =>
      have hcycle := h.cycles _ _ _ _ (List.mem_append_right _ (.head _))
      exact ⟨_, _, _, rfl, hr.isCycle_names hcycle _ [], rfl⟩

/-- Where the dependencies have a cycle, one is reported. -/
theorem exists_circularDependency (h : Course r events []) (hr : Prepared r)
    (hall : ∀ slot < r.slots.size, slot ∈ checkedIn events) {name : String}
    (hname : Relation.TransGen (r.after events []).DependsOn name name) :
    ∃ f ∈ (r.after events []).checker.context.findings, f.tag = .circularDependency := by
  by_contra hnone
  refine dependsOn_irrefl ?_ ?_ name hname
  · rw [(h.order_perm hall).nodup_iff]
    exact hr.nodup
  · intro s hs use huse
    refine (h.usedBeforeOrReported hall hs huse).resolve_right ?_
    rintro ⟨f, hf, ⟨path, hcause⟩, -⟩
    exact hnone ⟨f, hf, congrArg Cause.tag hcause⟩

end Course

end Resolver

open Resolver

/-- The findings of a resolved program are right about cycles. -/
structure ReportsCyclesExactly (r : Resolver) : Prop where
  /-- A cycle is reported exactly if there is one. -/
  reported_iff : (∃ f ∈ r.checker.context.findings, f.tag = .circularDependency) ↔
    ∃ name, Relation.TransGen r.DependsOn name name
  namesCycle : ∀ f ∈ r.checker.context.findings, f.tag = .circularDependency → r.NamesCycle f

/-- Resolving a program from the start reports the cycles of its dependencies exactly. -/
theorem reportsCyclesExactly_resolve (config : Config) (p : Program) :
    ReportsCyclesExactly ((Checker.ofConfig config).resolve p) := by
  obtain ⟨events, -, hresolve, hcourse, hall⟩ := Checker.exists_course_resolve config p
  have hr := Checker.prepared_linked config p
  rw [hresolve]
  refine ⟨⟨?_, ?_⟩, fun f hf htag => hcourse.namesCycle hr hf htag⟩
  · rintro ⟨f, hf, htag⟩
    obtain ⟨path, _, _, _, hpath, _⟩ := hcourse.namesCycle hr hf htag
    exact hpath.transGen
  · rintro ⟨name, hname⟩
    exact hcourse.exists_circularDependency hr hall hname

end Warden

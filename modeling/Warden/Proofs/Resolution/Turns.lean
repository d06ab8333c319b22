import Warden.Proofs.Faults.Reported
import Warden.Proofs.Resolution.Between
import Warden.Proofs.Resolution.Cycles

/-!
# The turn of a module

A `Tour` is a prepared state together with the events of a tour that checks every module. Each
module has its turn in it: the check comes to it in a certain state (`Tour.turn`) and leaves another
one (`Tour.past`).

Between the turns of two modules the scope of the first one stays as it is, and so do the structs
that were there (`Tour.elapsed`). The structs that are declared in different modules are different
ones (`Tour.DeclaredIn.unique`), and when a module has its turn, no type has been recorded for its
expressions yet (`Tour.types_turn`). A module that is on no cycle has its turn after all that it
uses (`Tour.earlier_of_uses`).
-/

namespace Warden

variable {P : Checker → Prop} {r : Resolver} {c : Checker}

/-- From everything on a cycle, the relation leads back to it. -/
theorem IsCycle.transGen_of_mem {α : Type} {R : α → α → Prop} {path : List α} {y : α}
    (h : IsCycle R path) (hy : y ∈ path) : Relation.TransGen R y y := by
  obtain ⟨x, xs, rfl, -, hchain⟩ := h
  have hback := transGen_of_isChain hchain
  have hcases : y = x ∨ y ∈ xs := by simpa [or_comm] using hy
  rcases hcases with rfl | hmem
  · exact hback
  · obtain ⟨before, later, rfl⟩ := List.append_of_mem hmem
    have hsplit : x :: (before ++ y :: later) ++ [x] = (x :: before ++ [y]) ++ (later ++ [x]) := by
      simp
    have hsplit' : x :: (before ++ y :: later) ++ [x] = x :: before ++ (y :: later ++ [x]) := by
      simp
    have hto : (x :: before ++ [y]).IsChain R := (hsplit ▸ hchain).left_of_append
    have hfrom : (y :: later ++ [x]).IsChain R := (hsplit' ▸ hchain).right_of_append
    exact (transGen_of_isChain hfrom).trans (transGen_of_isChain hto)

namespace Resolver

/-! ### The events before a turn -/

/-- The event is the check of a slot. -/
def Event.checks (slot : Nat) : Event → Bool
  | .check i => i == slot
  | .cycle .. => false

/-- The events before the first check of a slot. -/
def beforeTurn (events : List Event) (slot : Nat) : List Event :=
  events.takeWhile (!·.checks slot)

/-- The one slot is checked before the other one. -/
def Earlier (events : List Event) (first second : Nat) : Prop :=
  first ∈ checkedIn (beforeTurn events second)

section events

variable {events before later : List Event} {i j k : Nat}

theorem not_checks_of_mem (h : i ∉ checkedIn before) {e : Event} (he : e ∈ before) :
    (!e.checks i) = true := by
  cases e with
  | check j =>
    have hne : j ≠ i := fun heq => h (heq ▸ mem_checkedIn.mpr he)
    simp [Event.checks, hne]
  | cycle => rfl

theorem beforeTurn_append (h : i ∉ checkedIn before) :
    beforeTurn (before ++ later) i = before ++ beforeTurn later i :=
  List.takeWhile_append_of_pos fun _ he => not_checks_of_mem h he

theorem beforeTurn_check_self : beforeTurn (.check i :: later) i = [] :=
  List.takeWhile_cons_of_neg (by simp [Event.checks])

theorem beforeTurn_check (hne : i ≠ j) :
    beforeTurn (.check i :: later) j = .check i :: beforeTurn later j :=
  List.takeWhile_cons_of_pos (by simp [Event.checks, hne])

theorem beforeTurn_eq (h : i ∉ checkedIn before) :
    beforeTurn (before ++ .check i :: later) i = before := by
  rw [beforeTurn_append h, beforeTurn_check_self, List.append_nil]

/-- The events up to a turn, the turn itself, and what comes later. -/
theorem exists_turn (h : i ∈ checkedIn events) :
    ∃ later, events = beforeTurn events i ++ .check i :: later := by
  obtain ⟨before, later, heq, hfirst⟩ := List.eq_append_cons_of_mem (mem_checkedIn.mp h)
  have hbefore : i ∉ checkedIn before := fun hmem => hfirst (mem_checkedIn.mp hmem)
  refine ⟨later, ?_⟩
  rw [heq, beforeTurn_eq hbefore]

theorem Earlier.irrefl (events : List Event) (i : Nat) : ¬Earlier events i i := by
  intro h
  have hnot := List.mem_takeWhile_imp (mem_checkedIn.mp h)
  simp [Event.checks] at hnot

/-- The events between the turns of two modules. -/
theorem Earlier.between (h : Earlier events i j) :
    ∃ between, beforeTurn events j = beforeTurn events i ++ .check i :: between := by
  obtain ⟨between, hbetween⟩ := exists_turn h
  have hi : i ∉ checkedIn (beforeTurn (beforeTurn events j) i) := Earlier.irrefl _ i
  generalize hfirst : beforeTurn (beforeTurn events j) i = first at hbetween hi
  have hevents : events =
      first ++ .check i :: (between ++ events.dropWhile (!·.checks j)) := by
    rw [← List.cons_append, ← List.append_assoc, ← hbetween]
    exact List.takeWhile_append_dropWhile.symm
  have hturn : beforeTurn events i = first := by rw [hevents, beforeTurn_eq hi]
  exact ⟨between, hturn ▸ hbetween⟩

theorem Earlier.trans (h : Earlier events i j) (h' : Earlier events j k) : Earlier events i k := by
  obtain ⟨between, hbetween⟩ := h'.between
  rw [Earlier, hbetween, checkedIn_append]
  exact List.mem_append_left _ h

/-- Of two slots that are checked, one comes first. -/
theorem Earlier.total (hj : j ∈ checkedIn events) (hne : i ≠ j) :
    Earlier events i j ∨ Earlier events j i := by
  by_cases hi : i ∈ checkedIn (beforeTurn events j)
  · exact .inl hi
  · right
    obtain ⟨later, hlater⟩ := exists_turn hj
    generalize beforeTurn events j = before at hlater hi
    rw [Earlier, hlater, beforeTurn_append hi, beforeTurn_check hne.symm, mem_checkedIn]
    exact List.mem_append_right _ (.head _)

end events

/-! ### Stretches of a tour -/

/-- What stays while certain modules are checked. -/
structure Elapsed (r : Resolver) (checked : List Nat) (c d : Checker) : Prop where
  scope : ∀ i < r.checker.scopes.size, (∀ slot ∈ checked, i ≠ slot + 1) →
    d.scopes.scope i = c.scopes.scope i
  structs_size : c.structs.size ≤ d.structs.size
  structs : ∀ id < c.structs.size, d.structs.get? id = c.structs.get? id
  types : ∀ id, (∀ slot ∈ checked, ∀ s, r.slots[slot]? = some s → id ∉ s.module.nodes) →
    d.types.get? id = c.types.get? id

namespace Elapsed

variable {config : Config} {linkageOf : Nat → Linkage} {r : Resolver} {checked : List Nat}
  {c d e : Checker}

theorem refl (r : Resolver) (c : Checker) : Elapsed r [] c c :=
  ⟨fun _ _ _ => rfl, Nat.le_refl _, fun _ _ => rfl, fun _ _ => rfl⟩

theorem trans {more : List Nat} (h : Elapsed r checked c d) (h' : Elapsed r more d e) :
    Elapsed r (checked ++ more) c e where
  scope i hi hne := by
    rw [h'.scope i hi fun slot hslot => hne slot (List.mem_append_right _ hslot)]
    exact h.scope i hi fun slot hslot => hne slot (List.mem_append_left _ hslot)
  structs_size := Nat.le_trans h.structs_size h'.structs_size
  structs id hid := by
    rw [h'.structs id (Nat.lt_of_lt_of_le hid h.structs_size)]
    exact h.structs id hid
  types id hid := by
    rw [h'.types id fun slot hslot => hid slot (List.mem_append_right _ hslot)]
    exact h.types id fun slot hslot => hid slot (List.mem_append_left _ hslot)

theorem perform (hlayout : Layout config linkageOf r) (hc : Between config r checked c)
    (e : Event) : Elapsed r (checkedIn [e]) c (r.perform c e) := by
  cases e with
  | check i =>
    cases hs : r.slots[i]? with
    | none =>
      simp only [Resolver.perform, hs]
      exact ⟨fun _ _ _ => rfl, Nat.le_refl _, fun _ _ => rfl, fun _ _ => rfl⟩
    | some s =>
      have hnested := hc.nested i s hs
      have hframe := s.module.frame_check hnested
      simp only [Resolver.perform, hs]
      refine ⟨fun j hj hne => ?_, hframe.grown.structs_size, hframe.grown.structs, fun id hid => ?_⟩
      · have hother : j ≠ s.scope := (hlayout.slot i s hs).1 ▸ hne i (.head _)
        exact hframe.scope_eq hnested (Nat.lt_of_lt_of_le hj hc.size) hother
      · exact hframe.grown.types id (hid i (.head _) s hs)
  | cycle path user used span =>
    rw [Resolver.perform]
    split <;> exact ⟨fun _ _ _ => rfl, Nat.le_refl _, fun _ _ => rfl, fun _ _ => rfl⟩

/-- What each event leaves alone stays to the end. -/
theorem events (hlayout : Layout config linkageOf r) (hc : Between config r checked c)
    (events : List Event) : Elapsed r (checkedIn events) c (events.foldl r.perform c) := by
  induction events generalizing checked c with
  | nil => exact .refl r c
  | cons e events ih =>
    have hrest := (perform hlayout hc e).trans (ih (hc.perform hlayout e))
    rw [← checkedIn_append] at hrest
    exact hrest

end Elapsed

theorem ModuleInvariant.perform (hP : ModuleInvariant P) (r : Resolver) (h : P c) (e : Event) :
    P (r.perform c e) := by
  cases e with
  | check i =>
    rw [Resolver.perform]
    split
    · exact h
    · exact hP.check _ _ trivial h
  | cycle path user used span =>
    rw [Resolver.perform]
    split
    · exact h
    next s _ => exact hP.report _ span (hP.enter s.module h)

theorem ModuleInvariant.events (hP : ModuleInvariant P) (r : Resolver) (h : P c)
    (events : List Event) : P (events.foldl r.perform c) := by
  induction events generalizing c with
  | nil => exact h
  | cons e events ih => exact ih (hP.perform r h e)

theorem Layout.size_pos {config : Config} {linkageOf : Nat → Linkage}
    (h : Layout config linkageOf r) : 0 < r.checker.scopes.size :=
  h.size ▸ Nat.succ_pos _

/-- A slot is found under the name of its module. -/
theorem Prepared.find?_eq_some (h : Prepared r) {i : Nat} {s : Slot} (hs : r.slots[i]? = some s) :
    r.find? s.module.name = some i := by
  have hmem : s.module.name ∈ r.names := by
    refine List.mem_map_of_mem (List.mem_of_getElem? (i := i) ?_)
    rw [modules_getElem?, hs, Option.map_some]
  obtain ⟨j, hj⟩ := exists_find? hmem
  obtain ⟨hlt, hname⟩ := nameOf_of_find? hj
  rw [← nameOf_eq hs] at hname
  rw [hj, h.nameOf_inj hlt (Array.getElem?_eq_some_iff.mp hs).1 hname]

/-! ### Tours -/

/-- The modules of a program, none of which share an expression, and a tour that checks them all. -/
structure Tour (config : Config) where
  resolver : Resolver
  events : List Event
  prepared : Prepared resolver
  layout : Layout config resolver.linkageAt resolver
  wellTyped : resolver.checker.WellTyped
  disjoint : ∀ {i j : Nat} {s t : Slot}, resolver.slots[i]? = some s →
    resolver.slots[j]? = some t → i ≠ j → ∀ id ∈ s.module.nodes, id ∉ t.module.nodes
  course : Course resolver events []
  all : ∀ slot < resolver.slots.size, slot ∈ checkedIn events

namespace Tour

variable {config : Config} (T : Tour config) {i j : Nat} {s : Slot}

/-- The state in which a module has its turn. -/
def turn (i : Nat) : Checker :=
  (beforeTurn T.events i).foldl T.resolver.perform T.resolver.checker

/-- The state after a module has had its turn. -/
def past (i : Nat) : Checker :=
  T.resolver.perform (T.turn i) (.check i)

/-- The one module has its turn before the other one. -/
def Earlier (i j : Nat) : Prop :=
  Resolver.Earlier T.events i j

/-- The expressions of the module in a slot. -/
def nodes (i : Nat) (id : NodeId) : Prop :=
  ∃ s, T.resolver.slots[i]? = some s ∧ id ∈ s.module.nodes

theorem between (i : Nat) :
    Between config T.resolver (checkedIn (beforeTurn T.events i)) (T.turn i) :=
  (Between.start T.layout).events T.layout _

theorem scopes_pos (i : Nat) : 0 < (T.turn i).scopes.size :=
  Nat.lt_of_lt_of_le T.layout.size_pos (T.between i).size

theorem wellTyped_past (i : Nat) : (T.past i).WellTyped := by
  have hturn := Checker.WellTyped.moduleInvariant.events T.resolver T.wellTyped
    (beforeTurn T.events i)
  exact Checker.WellTyped.moduleInvariant.perform T.resolver hturn (.check i)

variable {T}

section

variable (hs : T.resolver.slots[i]? = some s)

include hs

theorem past_eq : T.past i = (s.module.check s.scope).exec (T.turn i) := by
  simp only [past, perform, hs]

theorem scope_eq : s.scope = i + 1 :=
  (T.layout.slot i s hs).1

theorem uses_eq : s.uses = (s.module.linkage T.resolver.checker.scopes.moduleScope?).uses := by
  have hmodule : T.resolver.modules[i]? = some s.module := by
    rw [modules_getElem?, hs, Option.map_some]
  rw [(T.layout.slot i s hs).2, linkageAt, hmodule]
  rfl

theorem mem_checkedIn : i ∈ checkedIn T.events :=
  T.all i (Array.getElem?_eq_some_iff.mp hs).1

theorem frame : ModuleFrame s.module s.scope (T.turn i) (T.past i) := by
  rw [past_eq hs]
  exact s.module.frame_check ((T.between i).nested i s hs)

end

/-- What stays from the turn of one module to that of another one. -/
theorem elapsed (h : T.Earlier j i) :
    ∃ checked, j ∉ checked ∧ Elapsed T.resolver checked (T.past j) (T.turn i) := by
  obtain ⟨between, hbetween⟩ := Resolver.Earlier.between h
  refine ⟨checkedIn between, ?_, ?_⟩
  · -- no module is checked twice
    have hprefix : checkedIn (beforeTurn T.events i) <+: checkedIn T.events :=
      (List.takeWhile_prefix _).filterMap _
    have hnodup := (List.nodup_append.mp T.course.nodup).1.sublist hprefix.sublist
    rw [hbetween, checkedIn_append] at hnodup
    have hchecked : (j :: checkedIn between).Nodup := (List.nodup_append.mp hnodup).2.1
    exact (List.nodup_cons.mp hchecked).1
  · have hturn : T.turn i = between.foldl T.resolver.perform (T.past j) := by
      rw [turn, hbetween, List.foldl_append, List.foldl_cons]
      rfl
    rw [hturn]
    exact Elapsed.events T.layout ((T.between j).perform T.layout (.check j)) between

/-- The scope of a module that has had its turn stays as it is. -/
theorem scope_turn_of_earlier (hs : T.resolver.slots[j]? = some s) (h : T.Earlier j i) :
    (T.turn i).scopes.scope (j + 1) = (T.past j).scopes.scope (j + 1) := by
  obtain ⟨checked, hj, helapsed⟩ := elapsed h
  refine helapsed.scope (j + 1) (scope_eq hs ▸ T.layout.scope_lt hs) fun slot hslot heq => hj ?_
  rw [Nat.succ.inj heq]
  exact hslot

/-- When a module has its turn, its scope is empty but for the imports. -/
theorem scope_turn_self (hs : T.resolver.slots[i]? = some s) : (T.turn i).scopes.scope (i + 1) =
      { Scope.ofModule s.module.name with
        imports := (s.module.linkage T.resolver.checker.scopes.moduleScope?).imports } := by
  have hmodule : T.resolver.modules[i]? = some s.module := by
    rw [modules_getElem?, hs, Option.map_some]
  rw [(T.between i).scope (i + 1) (scope_eq hs ▸ T.layout.scope_lt hs), T.layout.module i s hs,
    linkageAt, hmodule]
  · rfl
  · intro slot hslot heq
    rw [← Nat.succ.inj heq] at hslot
    exact Resolver.Earlier.irrefl T.events i hslot

variable (T) in
theorem scope_turn_global (i : Nat) :
    { (T.turn i).scopes.scope 0 with children := [] } = ScopeTree.initial.scope 0 := by
  rw [(T.between i).scope 0 T.layout.size_pos fun slot _ => (Nat.succ_ne_zero slot).symm]
  exact T.layout.global

/-- Of its outline, the scope of a module keeps what it had before. -/
theorem outline_past (hs : T.resolver.slots[i]? = some s) :
    ((T.past i).scopes.scope (i + 1)).parent = some 0 ∧
      ((T.past i).scopes.scope (i + 1)).imports =
        (s.module.linkage T.resolver.checker.scopes.moduleScope?).imports := by
  have hlt : i + 1 < (T.turn i).scopes.size :=
    Nat.lt_of_lt_of_le (scope_eq hs ▸ T.layout.scope_lt hs) (T.between i).size
  have houtline := (frame hs).framed.outline (i + 1) hlt
  rw [scope_turn_self hs] at houtline
  exact ⟨congrArg (·.parent) houtline, congrArg (·.imports) houtline⟩

variable (T) in
/-- No type has been recorded for the expressions of a module before its turn. -/
theorem types_turn {id : NodeId} (hid : T.nodes i id) : (T.turn i).types.get? id = none := by
  obtain ⟨s, hs, hmem⟩ := hid
  have helapsed := Elapsed.events T.layout (Between.start T.layout) (beforeTurn T.events i)
  rw [turn, helapsed.types id fun slot hslot t ht => ?_, T.layout.types]
  · rfl
  · have hne : i ≠ slot := fun heq => Resolver.Earlier.irrefl T.events i (heq ▸ hslot)
    exact T.disjoint hs ht hne id hmem

/-! ### Structs -/

variable (T) in
/-- The struct is the one that is declared after `n` others in the module of a slot. -/
def DeclaredIn (i id n : Nat) : Prop :=
  id = (T.turn i).structs.size + n ∧ id < (T.past i).structs.size

theorem DeclaredIn.lt {id n : Nat} (hid : T.DeclaredIn j id n) (h : T.Earlier j i) :
    id < (T.turn i).structs.size := by
  obtain ⟨_, -, helapsed⟩ := elapsed h
  exact Nat.lt_of_lt_of_le hid.2 helapsed.structs_size

/-- A struct is declared in one module only. -/
theorem DeclaredIn.unique (hi : i ∈ checkedIn T.events) {id m n : Nat}
    (h : T.DeclaredIn i id m) (h' : T.DeclaredIn j id n) : i = j ∧ m = n := by
  have hsame : i = j := by
    by_contra hne
    -- what is declared in the earlier module is there when the later one has its turn
    rcases Resolver.Earlier.total hi (Ne.symm hne) with hearlier | hearlier
    · have hlt := h'.lt hearlier
      have hid := h.1
      omega
    · have hlt := h.lt hearlier
      have hid := h'.1
      omega
  subst hsame
  exact ⟨rfl, Nat.add_left_cancel (h.1.symm.trans h'.1)⟩

/-! ### Diagnostics -/

variable (T) in
/-- The diagnostics that the turn of a module adds. -/
def emits (i : Nat) : List Diagnostic :=
  ((T.past i).context.findings.drop (T.turn i).context.findings.length).map Finding.toDiagnostic

theorem emits_eq_of_findings {new : List Finding}
    (h : (T.past i).context.findings = (T.turn i).context.findings ++ new) :
    T.emits i = new.map Finding.toDiagnostic := by
  rw [emits, h, List.drop_left]

variable (T) in
theorem diagnostics_past (i : Nat) : (T.past i).context.findings.map Finding.toDiagnostic =
      (T.turn i).context.findings.map Finding.toDiagnostic ++ T.emits i := by
  obtain ⟨new, hnew, -⟩ := findings_perform T.resolver (T.turn i) (.check i)
  rw [emits_eq_of_findings hnew, ← List.map_append]
  exact congrArg (List.map _) hnew

/-- What the turn of a module adds is there in the end. -/
theorem emits_infix (hi : i ∈ checkedIn T.events) :
    T.emits i <:+: (T.resolver.after T.events []).checker.context.findings.map
      Finding.toDiagnostic := by
  obtain ⟨later, hlater⟩ := exists_turn hi
  obtain ⟨new, hnew, -⟩ := findings_foldl T.resolver later (T.past i)
  have hend : (T.resolver.after T.events []).checker =
      later.foldl T.resolver.perform (T.past i) := by
    rw [after, hlater, List.foldl_append, List.foldl_cons, ← hlater]
    rfl
  rw [hend, hnew, List.map_append, T.diagnostics_past]
  exact ⟨_, _, rfl⟩

/-- Where no cycle is found, the diagnostics are those of the turns one after the other. -/
theorem diagnostics_foldl (hchecks : ∀ e ∈ T.events, ∃ i, e = .check i)
    (before : List Event) : ∀ later, T.events = before ++ later →
    (before.foldl T.resolver.perform T.resolver.checker).context.findings.map Finding.toDiagnostic =
      T.resolver.checker.context.findings.map Finding.toDiagnostic ++
        (checkedIn before).flatMap T.emits := by
  induction before using List.reverseRecOn with
  | nil => exact fun _ _ => (List.append_nil _).symm
  | append_singleton before e ih =>
    intro later hevents
    obtain ⟨i, rfl⟩ := hchecks e (hevents ▸ List.mem_append_left _ (by simp))
    rw [List.append_assoc] at hevents
    have hnodup := (List.nodup_append.mp T.course.nodup).1
    rw [hevents, checkedIn_append] at hnodup
    have hi : i ∉ checkedIn before :=
      fun hmem => (List.nodup_append.mp hnodup).2.2 i hmem i (.head _) rfl
    have hturn : before.foldl T.resolver.perform T.resolver.checker = T.turn i := by
      rw [turn, hevents]
      exact congrArg _ (beforeTurn_eq hi).symm
    rw [List.foldl_append, checkedIn_append, List.flatMap_append, ← List.append_assoc,
      ← ih _ hevents, hturn]
    refine (T.diagnostics_past i).trans (congrArg (_ ++ ·) ?_)
    exact (List.flatMap_singleton ..).symm

/-- Without cycles, the order of the turns matters to the order of the diagnostics only. -/
theorem diagnostics_perm (hacyclic : ∀ i, ¬Relation.TransGen T.resolver.Uses i i) :
    ((T.resolver.after T.events []).checker.context.findings.map Finding.toDiagnostic).Perm
      (T.resolver.checker.context.findings.map Finding.toDiagnostic ++
        (List.range T.resolver.slots.size).flatMap T.emits) := by
  have hchecks : ∀ e ∈ T.events, ∃ i, e = .check i := by
    intro e he
    cases e with
    | check i => exact ⟨i, rfl⟩
    | cycle path user used span =>
      obtain ⟨i, hi⟩ := (T.course.cycles path user used span he).transGen
      exact absurd hi (hacyclic i)
  rw [after, diagnostics_foldl hchecks T.events [] (List.append_nil _).symm]
  exact ((T.course.perm T.all).flatMap_right _).append_left _

/-! ### Uses -/

/-- A module that is on no cycle has its turn after all that it uses. -/
theorem earlier_of_uses (hcycle : ¬Relation.TransGen T.resolver.Uses i i)
    (huses : T.resolver.Uses i j) : T.Earlier j i := by
  obtain ⟨s, hs, use, huse, hfind⟩ := huses
  obtain ⟨later, hlater⟩ := exists_turn (mem_checkedIn hs)
  obtain ⟨used, hused, hchecked | ⟨path, hpath⟩⟩ :=
    T.course.ordered _ i later hlater s hs use huse
  · cases hused.symm.trans hfind
    exact hchecked
  · have hmem := (List.takeWhile_subset _) hpath
    exact absurd ((T.course.cycles path i used _ hmem).transGen_of_mem
      (T.course.closing path i used _ hmem)) hcycle

/-- An import of a module is of one that it uses. -/
theorem uses_of_import (hs : T.resolver.slots[i]? = some s) {m : Import}
    (hm : m ∈ (s.module.linkage T.resolver.checker.scopes.moduleScope?).imports) :
    ∃ j, T.resolver.find? m.module = some j ∧ m.scope = j + 1 ∧ T.resolver.Uses i j ∧
      m.module ∈ s.module.targets := by
  obtain ⟨log, -, -, hlog⟩ := s.module.exists_log T.resolver.checker.scopes.moduleScope?
  have hscope := hlog.scopes m hm
  obtain ⟨use, huse, hname⟩ :=
    List.mem_map.mp ((hlog.mem_uses _).mpr (List.mem_map_of_mem hm))
  rw [← uses_eq hs] at huse
  rw [T.layout.registry] at hscope
  obtain ⟨j, hj, hscope⟩ := Option.map_eq_some_iff.mp hscope
  have hwritten := T.prepared.written s (Array.mem_of_getElem? hs) use huse
  exact ⟨j, hj, hscope.symm, ⟨s, hs, use, huse, hname ▸ hj⟩, hname ▸ hwritten.mem_targets⟩

end Tour

end Resolver

end Warden

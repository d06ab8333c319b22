import Warden.Proofs.Resolution.Correspondence

/-!
# A module depends on what it imports only

What the check of a module emits depends on the module itself and on the modules that it leads to
by imports. It does not matter what other modules a program has, nor in which order they are given.
So the modules of a program without cycles can be given in any order: the diagnostics are the same,
each as often (`diagnostics_depend_on_imports_only`).
-/

namespace Warden

open Resolver Checker Tour

variable {ds : List Diagnostic} {events : List Event}

namespace Program

/-- The module of a name. -/
def module? (p : Program) (name : String) : Option Module :=
  p.modules.find? (·.name == name)

/-- There is a module of the one name, and it imports the other name. -/
def Imports (p : Program) (user used : String) : Prop :=
  ∃ m, p.module? user = some m ∧ used ∈ m.targets

/-- The modules have different names, and all expressions different identities. -/
structure Distinct (p : Program) : Prop where
  names : (p.modules.map (·.name)).Nodup
  nodes : (p.modules.flatMap Module.nodes).Nodup

/-- From a name on, imports never lead back to where they started. -/
def AcyclicFrom (p : Program) (name : String) : Prop :=
  ∀ x, Relation.ReflTransGen p.Imports name x → ¬Relation.TransGen p.Imports x x

/-- To all names that imports lead to, the programs have the same module or none. -/
def AgreesFrom (p q : Program) (name : String) : Prop :=
  ∀ x, Relation.ReflTransGen p.Imports name x → p.module? x = q.module? x

/-- The events are those of checking the program. -/
structure IsCourse (p : Program) (config : Config) (events : List Event) : Prop where
  ends : (Checker.ofConfig config).resolve p = ((Checker.ofConfig config).linked p).after events []
  course : Course ((Checker.ofConfig config).linked p) events []
  all : ∀ slot < ((Checker.ofConfig config).linked p).slots.size, slot ∈ checkedIn events

/-- While the program is checked, the check of the module of that name emits these diagnostics. -/
def Emits (p : Program) (config : Config) (name : String) (ds : List Diagnostic) : Prop :=
  let r := (Checker.ofConfig config).linked p
  ∃ events i, ∃ s : Slot, p.IsCourse config events ∧ r.slots[i]? = some s ∧ s.module.name = name ∧
    (s.module.check s.scope).emits ((beforeTurn events i).foldl r.perform r.checker) = ds

variable {p q : Program} {name : String}

theorem module?_eq_some_iff (h : (p.modules.map (·.name)).Nodup) {m : Module} :
    p.module? name = some m ↔ m ∈ p.modules ∧ m.name = name := by
  constructor
  · intro hm
    exact ⟨List.mem_of_find?_eq_some hm, by simpa using List.find?_some hm⟩
  · rintro ⟨hm, rfl⟩
    obtain ⟨m', hm'⟩ := Option.isSome_iff_exists.mp (isSome_find?_name.mpr (List.mem_map_of_mem hm))
    have hname : m'.name = m.name := by simpa using List.find?_some hm'
    obtain rfl := List.inj_on_of_nodup_map h (List.mem_of_find?_eq_some hm') hm hname
    exact hm'

theorem modules_linked (h : (p.modules.map (·.name)).Nodup) (config : Config) :
    ((Checker.ofConfig config).linked p).modules = p.modules := by
  rw [(links_linked config p).modules]
  exact (registerAll_of_nodup p.modules (.ofConfig config) h).1

/-- Different modules share no expression. -/
theorem Distinct.disjoint (h : p.Distinct) {i j : Nat} {m n : Module}
    (hm : p.modules[i]? = some m) (hn : p.modules[j]? = some n) (hne : i ≠ j) :
    ∀ id ∈ m.nodes, id ∉ n.nodes := by
  have hpairwise := (List.nodup_flatMap.mp h.nodes).2
  rw [List.pairwise_iff_getElem] at hpairwise
  obtain ⟨hi, rfl⟩ := List.getElem?_eq_some_iff.mp hm
  obtain ⟨hj, rfl⟩ := List.getElem?_eq_some_iff.mp hn
  intro id hid hid'
  rcases Nat.lt_or_gt_of_ne hne with hlt | hlt
  · exact hpairwise i j hi hj hlt hid hid'
  · exact hpairwise j i hj hi hlt hid' hid

/-- The check of a program has a course. -/
theorem exists_isCourse (p : Program) (config : Config) : ∃ events, p.IsCourse config events := by
  obtain ⟨events, -, hends, hcourse, hall⟩ := exists_course_resolve config p
  exact ⟨events, hends, hcourse.toCourse, hall⟩

end Program

namespace Resolver.Tour

variable {config : Config} {T T' : Tour config} {p q : Program} {name : String} {i j : Nat}
  {s : Slot}

/-- The tour is one that the check of a program makes. -/
structure Through (T : Tour config) (p : Program) : Prop where
  distinct : p.Distinct
  resolver : T.resolver = (Checker.ofConfig config).linked p
  isCourse : p.IsCourse config T.events

/-- The course of a check makes a tour. -/
theorem exists_through (h : p.Distinct) (hevents : p.IsCourse config events) :
    ∃ T : Tour config, T.Through p ∧ T.events = events := by
  refine ⟨⟨(Checker.ofConfig config).linked p, events, prepared_linked config p,
    (layout_linked config p).1,
    linked_invariant Checker.WellTyped.moduleInvariant (.ofConfig config) p, ?_,
    hevents.course, hevents.all⟩, ⟨h, rfl, hevents⟩, rfl⟩
  intro i j s t hs ht hne
  have hmodules := Program.modules_linked h.names config
  refine h.disjoint (i := i) (j := j) ?_ ?_ hne
  · rw [← hmodules, modules_getElem?, hs, Option.map_some]
  · rw [← hmodules, modules_getElem?, ht, Option.map_some]

namespace Through

variable (h : T.Through p)

include h

theorem modules : T.resolver.modules = p.modules := by
  rw [h.resolver]
  exact Program.modules_linked h.distinct.names config

theorem check_eq : p.check config = (T.resolver.after T.events []).checker := by
  rw [h.resolver]
  exact congrArg Resolver.checker h.isCourse.ends

theorem module?_of_slot (hs : T.resolver.slots[i]? = some s) :
    p.module? s.module.name = some s.module := by
  refine (Program.module?_eq_some_iff h.distinct.names).mpr ⟨?_, rfl⟩
  refine List.mem_of_getElem? (i := i) ?_
  rw [← h.modules, modules_getElem?, hs, Option.map_some]

/-- Under a name stands the module of the slot that is found. -/
theorem module?_of_find? (hfind : T.resolver.find? name = some i) :
    ∃ s, T.resolver.slots[i]? = some s ∧ p.module? name = some s.module := by
  obtain ⟨hlt, hname⟩ := nameOf_of_find? hfind
  have hs := Array.getElem?_eq_getElem hlt
  refine ⟨_, hs, ?_⟩
  rw [← hname, nameOf_eq hs]
  exact h.module?_of_slot hs

theorem isSome_find? (name : String) :
    (T.resolver.find? name).isSome = (p.module? name).isSome := by
  rw [find?_eq, h.modules, List.findIdx?_isSome, Program.module?, List.isSome_find?]

/-- A use of one slot by another one is an import. -/
theorem imports_of_uses (huses : T.resolver.Uses i j) :
    p.Imports (T.resolver.nameOf i) (T.resolver.nameOf j) := by
  obtain ⟨s, hs, use, huse, hfind⟩ := huses
  have hwritten := T.prepared.written s (Array.mem_of_getElem? hs) use huse
  rw [nameOf_eq hs, (nameOf_of_find? hfind).2]
  exact ⟨s.module, h.module?_of_slot hs, hwritten.mem_targets⟩

theorem imports_of_cycle (hcycle : Relation.TransGen T.resolver.Uses i i) :
    Relation.TransGen p.Imports (T.resolver.nameOf i) (T.resolver.nameOf i) :=
  hcycle.lift T.resolver.nameOf fun _ _ => h.imports_of_uses

/-- The modules that a name leads to correspond, if the programs agree on them. -/
theorem corresponding (h' : T'.Through q) (hagree : p.AgreesFrom q name)
    (hacyclic : p.AcyclicFrom name) : Corresponding T T' fun i i' =>
      ∃ x, Relation.ReflTransGen p.Imports name x ∧ T.resolver.find? x = some i ∧
        T'.resolver.find? x = some i' where
  module := by
    rintro i i' ⟨x, hx, hi, hi'⟩
    obtain ⟨s, hs, hm⟩ := h.module?_of_find? hi
    obtain ⟨s', hs', hm'⟩ := h'.module?_of_find? hi'
    refine ⟨s, s', hs, hs', ?_⟩
    rw [hagree x hx, hm'] at hm
    exact Option.some.inj hm
  targets := by
    rintro i i' s ⟨x, hx, hi, -⟩ hs target htarget
    obtain ⟨t, ht, hm⟩ := h.module?_of_find? hi
    cases ht.symm.trans hs
    have hleads : Relation.ReflTransGen p.Imports name target := hx.tail ⟨_, hm, htarget⟩
    have hsome := h.isSome_find? target
    rw [hagree target hleads, ← h'.isSome_find? target] at hsome
    cases hj : T.resolver.find? target with
    | none =>
      have hj' : T'.resolver.find? target = none := by simpa [hj] using hsome.symm
      rw [hj']
      exact .none
    | some j =>
      obtain ⟨j', hj'⟩ : ∃ j', T'.resolver.find? target = some j' := by
        simpa [hj, Option.isSome_iff_exists] using hsome.symm
      rw [hj']
      exact .some ⟨target, hleads, hj, hj'⟩
  acyclic := by
    rintro i i' ⟨x, hx, hi, -⟩ hcycle
    rw [← (nameOf_of_find? hi).2] at hx
    exact hacyclic _ hx (h.imports_of_cycle hcycle)

/-! ### What the check of one module emits -/

/-- The module of a name emits the same in both tours. -/
theorem emits_eq (h' : T'.Through q) (hagree : p.AgreesFrom q name) (hacyclic : p.AcyclicFrom name)
    {i i' : Nat} (hi : T.resolver.find? name = some i) (hi' : T'.resolver.find? name = some i') :
    T.emits i = T'.emits i' :=
  (h.corresponding h' hagree hacyclic).emits_eq ⟨name, .refl, hi, hi'⟩

/-- What is emitted in the turn of a module is what its check emits. -/
theorem emits (hi : T.resolver.find? name = some i) : p.Emits config name (T.emits i) := by
  obtain ⟨hlt, hname⟩ := nameOf_of_find? hi
  have hs := Array.getElem?_eq_getElem hlt
  refine ⟨T.events, i, _, h.isCourse, h.resolver ▸ hs, nameOf_eq hs ▸ hname, ?_⟩
  rw [← h.resolver, Tour.emits, Tour.past_eq hs]
  rfl

end Through

/-- What the check of a module emits is emitted in its turn, in some tour through the program. -/
theorem exists_emits (hp : p.Distinct) (hds : p.Emits config name ds) :
    ∃ (T : Tour config) (i : Nat), T.Through p ∧ T.resolver.find? name = some i ∧
      T.emits i = ds := by
  obtain ⟨events, i, s, hevents, hs, rfl, rfl⟩ := hds
  obtain ⟨T, hT, rfl⟩ := exists_through hp hevents
  rw [← hT.resolver] at hs ⊢
  refine ⟨T, i, hT, T.prepared.find?_eq_some hs, ?_⟩
  rw [Tour.emits, Tour.past_eq hs]
  rfl

namespace Through

/-- In every program that agrees on it, the check of a module emits this and nothing else. -/
theorem emits_iff (h : T.Through p) (hq : q.Distinct) (hagree : p.AgreesFrom q name)
    (hacyclic : p.AcyclicFrom name) (hi : T.resolver.find? name = some i)
    (ds : List Diagnostic) : q.Emits config name ds ↔ ds = T.emits i := by
  constructor
  · intro hds
    obtain ⟨T', i', h', hi', rfl⟩ := exists_emits hq hds
    exact (h.emits_eq h' hagree hacyclic hi hi').symm
  · rintro rfl
    obtain ⟨events, hevents⟩ := q.exists_isCourse config
    obtain ⟨T', h', -⟩ := exists_through hq hevents
    obtain ⟨i', hi'⟩ : ∃ i', T'.resolver.find? name = some i' := by
      rw [← Option.isSome_iff_exists, h'.isSome_find?, ← hagree name .refl, ← h.isSome_find?, hi]
      rfl
    rw [h.emits_eq h' hagree hacyclic hi hi']
    exact h'.emits hi'

end Through

theorem infix_of_emits (hp : p.Distinct) (hds : p.Emits config name ds) :
    ds <:+: (p.check config).context.toReport.diagnostics := by
  obtain ⟨T, i, hT, hi, rfl⟩ := exists_emits hp hds
  rw [hT.check_eq]
  exact Tour.emits_infix (T.all i (nameOf_of_find? hi).1)

/-! ### All diagnostics of a program -/

namespace Through

variable (h : T.Through p)

include h

/-- Linking reports nothing but what the imports of each module come to. -/
theorem findings_linked :
    T.resolver.checker.context.findings = p.modules.flatMap T.resolver.linkFindings := by
  have hcontext := (registerAll_of_nodup p.modules (.ofConfig config) h.distinct.names).2
  have hregistered : ((Checker.ofConfig config).registered p).checker.context.findings = [] :=
    congrArg Context.findings hcontext
  have hlinked := (layout_linked config p).2
  rw [hregistered, List.nil_append, ← h.resolver, h.modules] at hlinked
  exact hlinked

/-- The turns of all modules, by their names. -/
theorem flatMap_emits : (List.range T.resolver.slots.size).flatMap T.emits =
      p.modules.flatMap fun m => (T.resolver.find? m.name).elim [] T.emits := by
  have hnames : T.resolver.names.flatMap (fun x => (T.resolver.find? x).elim [] T.emits) =
      p.modules.flatMap fun m => (T.resolver.find? m.name).elim [] T.emits := by
    rw [names, h.modules, List.flatMap_map]
  rw [← hnames, ← map_nameOf_range, List.flatMap_map]
  refine List.flatMap_congr fun i hi => ?_
  have hs := Array.getElem?_eq_getElem (List.mem_range.mp hi)
  rw [nameOf_eq hs, T.prepared.find?_eq_some hs]
  rfl

/-- The diagnostics of a program without cycles: what linking reports, and what the check of each
module emits. -/
theorem diagnostics_perm (hacyclic : ∀ x, ¬Relation.TransGen p.Imports x x) :
    (p.check config).context.toReport.diagnostics.Perm
      ((p.modules.flatMap T.resolver.linkFindings).map Finding.toDiagnostic ++
        p.modules.flatMap fun m => (T.resolver.find? m.name).elim [] T.emits) := by
  have hturns := Tour.diagnostics_perm (T := T) fun i hcycle =>
    hacyclic _ (h.imports_of_cycle hcycle)
  rw [h.findings_linked, h.flatMap_emits] at hturns
  rw [h.check_eq]
  exact hturns

/-- Where the same modules are there under all names, the same imports are bound. -/
theorem linkFindings_eq (h' : T'.Through q) (hmodules : ∀ x, p.module? x = q.module? x)
    (m : Module) : T.resolver.linkFindings m = T'.resolver.linkFindings m := by
  have halike : (m.linkage T.resolver.checker.scopes.moduleScope?).Alike
      (m.linkage T'.resolver.checker.scopes.moduleScope?) := by
    refine m.alike_linkage fun target _ => ?_
    rw [T.layout.registry, T'.layout.registry, Option.isSome_map, Option.isSome_map,
      h.isSome_find?, h'.isSome_find?, hmodules]
  rw [linkFindings, linkFindings, halike.reports]

end Through

end Resolver.Tour

namespace Program

variable {p q : Program}

theorem Distinct.perm (h : p.Distinct) (hperm : p.modules.Perm q.modules) : q.Distinct :=
  ⟨(hperm.map _).nodup_iff.mp h.names, (hperm.flatMap_right _).nodup_iff.mp h.nodes⟩

theorem module?_perm (h : p.Distinct) (hperm : p.modules.Perm q.modules) (name : String) :
    p.module? name = q.module? name := by
  apply Option.ext
  intro m
  rw [module?_eq_some_iff h.names, module?_eq_some_iff (h.perm hperm).names, hperm.mem_iff]

/-- Without cycles, the order of the modules matters to the order of the diagnostics only. -/
theorem diagnostics_perm (config : Config) (hp : p.Distinct) (hperm : p.modules.Perm q.modules)
    (hacyclic : ∀ x, ¬Relation.TransGen p.Imports x x) :
    (p.check config).context.toReport.diagnostics.Perm
      (q.check config).context.toReport.diagnostics := by
  have hmodules := module?_perm hp hperm
  have himports : p.Imports = q.Imports := by
    funext user used
    rw [Imports, Imports, hmodules]
  obtain ⟨events, hevents⟩ := p.exists_isCourse config
  obtain ⟨events', hevents'⟩ := q.exists_isCourse config
  obtain ⟨T, h, -⟩ := exists_through hp hevents
  obtain ⟨T', h', -⟩ := exists_through (hp.perm hperm) hevents'
  refine (h.diagnostics_perm hacyclic).trans (.trans ?_ (h'.diagnostics_perm
    (himports ▸ hacyclic)).symm)
  refine .append (.map _ (hperm.flatMap fun m _ => ?_)) (hperm.flatMap fun m hm => ?_)
  · rw [h.linkFindings_eq h' hmodules]
  · obtain ⟨i, hi⟩ : ∃ i, T.resolver.find? m.name = some i := by
      rw [← Option.isSome_iff_exists, h.isSome_find?]
      exact isSome_find?_name.mpr (List.mem_map_of_mem hm)
    obtain ⟨i', hi'⟩ : ∃ i', T'.resolver.find? m.name = some i' := by
      rw [← Option.isSome_iff_exists, h'.isSome_find?, ← hmodules]
      exact isSome_find?_name.mpr (List.mem_map_of_mem hm)
    rw [hi, hi', Option.elim_some, Option.elim_some,
      h.emits_eq h' (fun x _ => hmodules x) (fun x _ => hacyclic x) hi hi']

end Program

/-- **Diagnostics depend on imports only.** Take a program whose modules have different names and
whose expressions have different identities, and another such program. Where they agree on a module
and on all that it leads to by imports, without cycles, the check of its body emits the same
diagnostics in both of them, in the same order, and these are among the diagnostics of both
programs. So without any cycles, a program whose modules are given in another order has the same
diagnostics, each as often. -/
theorem diagnostics_depend_on_imports_only (config : Config) {p : Program} (hp : p.Distinct) :
    (∀ q : Program, q.Distinct → ∀ name, (p.module? name).isSome = true → p.AgreesFrom q name →
      p.AcyclicFrom name → ∃ ds, (∀ ds', p.Emits config name ds' ↔ ds' = ds) ∧
        (∀ ds', q.Emits config name ds' ↔ ds' = ds) ∧
        ds <:+: (p.check config).context.toReport.diagnostics ∧
        ds <:+: (q.check config).context.toReport.diagnostics) ∧
    ∀ q : Program, p.modules.Perm q.modules → (∀ x, ¬Relation.TransGen p.Imports x x) →
      (p.check config).context.toReport.diagnostics.Perm
        (q.check config).context.toReport.diagnostics := by
  refine ⟨fun q hq name hname hagree hacyclic => ?_, fun q hperm hacyclic =>
    Program.diagnostics_perm config hp hperm hacyclic⟩
  obtain ⟨events, hevents⟩ := p.exists_isCourse config
  obtain ⟨T, h, -⟩ := Tour.exists_through hp hevents
  rw [← h.isSome_find?, Option.isSome_iff_exists] at hname
  obtain ⟨i, hi⟩ := hname
  have hpemits := h.emits_iff hp (fun _ _ => rfl) hacyclic hi
  have hqemits := h.emits_iff hq hagree hacyclic hi
  exact ⟨T.emits i, hpemits, hqemits, Tour.infix_of_emits hp ((hpemits _).mpr rfl),
    Tour.infix_of_emits hq ((hqemits _).mpr rfl)⟩

/-- A module that declares a struct `Point`. -/
def geometry : Module :=
  { name := "geometry", body := [⟨{}, .struct ⟨"Point", true, [], []⟩⟩] }

/-- A module that imports the struct, and gives a number where one is expected. -/
def drawing : Module :=
  { name := "drawing"
    body :=
      [⟨{}, .importModule "geometry" none⟩,
        ⟨{}, .var { name := "origin", ty := some (.named {} (some "geometry") "Point")
                    value := some ⟨1, {}, .int 0⟩ }⟩] }

/-- A module that has nothing to do with these. -/
def colours : Module :=
  { name := "colours"
    body :=
      [⟨{}, .struct ⟨"Colour", true, [], []⟩⟩,
        ⟨{}, .var { name := "sky", value := some ⟨2, {}, .ident "blue"⟩ }⟩] }

theorem imports_drawing {user used : String}
    (h : Program.Imports { modules := [drawing, geometry] } user used) :
    user = "drawing" ∧ used = "geometry" := by
  obtain ⟨m, hm, hused⟩ := h
  obtain ⟨hmem, rfl⟩ := (Program.module?_eq_some_iff (by decide)).mp hm
  rcases List.mem_cons.mp hmem with rfl | hmem
  · exact ⟨rfl, List.mem_singleton.mp hused⟩
  · cases List.mem_singleton.mp hmem
    cases hused

theorem acyclic_drawing (x : String) :
    ¬Relation.TransGen (Program.Imports { modules := [drawing, geometry] }) x x := by
  intro hcycle
  obtain ⟨y, hfirst, -⟩ := Relation.TransGen.head'_iff.mp hcycle
  obtain ⟨z, -, hlast⟩ := Relation.TransGen.tail'_iff.mp hcycle
  rw [(imports_drawing hfirst).1] at hlast
  exact absurd (imports_drawing hlast).2 (by decide)

/-- The module `drawing` emits the same beside another module, where its structs have other
numbers, and the program emits the same when its modules are given the other way round. -/
theorem drawing_emits_the_same_beside_colours :
    let p : Program := { modules := [drawing, geometry] }
    let q : Program := { modules := [colours, geometry, drawing] }
    p.Distinct ∧ q.Distinct ∧ p.AgreesFrom q "drawing" ∧ p.AcyclicFrom "drawing" ∧
      (∃ ds, (∀ ds', p.Emits {} "drawing" ds' ↔ ds' = ds) ∧
        ∀ ds', q.Emits {} "drawing" ds' ↔ ds' = ds) ∧
      (p.check {}).context.toReport.diagnostics.map (·.message) =
        ["Expected `struct Point`, found `int`"] ∧
      (q.check {}).context.toReport.diagnostics.map (·.message) =
        ["Undefined identifier `blue`", "Expected `struct Point`, found `int`"] ∧
      (p.check {}).context.toReport.diagnostics.Perm
        (Program.check { modules := [geometry, drawing] } {}).context.toReport.diagnostics := by
  have hp : Program.Distinct { modules := [drawing, geometry] } := ⟨by decide, by decide⟩
  have hq : Program.Distinct { modules := [colours, geometry, drawing] } := ⟨by decide, by decide⟩
  have hagree : Program.AgreesFrom { modules := [drawing, geometry] }
      { modules := [colours, geometry, drawing] } "drawing" := by
    intro x hx
    rcases Relation.ReflTransGen.cases_tail hx with rfl | ⟨y, -, himports⟩
    · rfl
    · rw [(imports_drawing himports).2]
      rfl
  have hmain := diagnostics_depend_on_imports_only {} hp
  obtain ⟨ds, hpemits, hqemits, -⟩ := hmain.1 _ hq "drawing" rfl hagree fun x _ => acyclic_drawing x
  exact ⟨hp, hq, hagree, fun x _ => acyclic_drawing x, ⟨ds, hpemits, hqemits⟩, by decide +kernel,
    by decide +kernel, hmain.2 _ (.swap ..) acyclic_drawing⟩

end Warden

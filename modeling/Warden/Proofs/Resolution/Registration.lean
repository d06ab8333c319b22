import Warden.Proofs.Resolution.Basic

/-!
# Before any module is visited

The first two passes prepare the visits (`Resolver.Prepared`): the registered modules have different
names, every import that was bound stands in its module and leads to a registered one, and nothing
is visited or in order yet. The registered modules of a program are the first ones of each name
(`Checker.firstOfEachName_linked`).
-/

namespace Warden

variable {f : Slot → Slot} {c : Checker}

/-- The module has an import of that name at that place. -/
def Module.ImportsAt (m : Module) (use : String × Span) : Prop :=
  ∃ localName, (⟨use.2, .importModule use.1 localName⟩ : Stmt) ∈ m.body

namespace Resolver

open ResolveM

/-- The registered modules in order. -/
def modules (r : Resolver) : List Module :=
  r.slots.toList.map (·.module)

/-- The names of the registered modules in order. -/
def names (r : Resolver) : List String :=
  r.modules.map (·.name)

theorem modules_getElem? (r : Resolver) (slot : Nat) :
    r.modules[slot]? = r.slots[slot]?.map (·.module) := by
  rw [modules, List.getElem?_map, Array.getElem?_toList]

/-- The state between the passes that prepare the visits. -/
structure Prepared (r : Resolver) : Prop where
  registry : r.checker.scopes.modules.map (·.1) = r.names
  nodup : r.names.Nodup
  uses : ∀ s ∈ r.slots, ∀ use ∈ s.uses, use.1 ∈ r.names
  written : ∀ s ∈ r.slots, ∀ use ∈ s.uses, s.module.ImportsAt use
  unvisited : ∀ s ∈ r.slots, s.progress = .unvisited
  stack : r.stack = []
  order : r.order = []
  findings : ∀ f ∈ r.checker.context.findings, f.tag ≠ .circularDependency

namespace Prepared

variable {r : Resolver}

theorem enter (h : Prepared r) (m : Module) : Prepared (exec (enter m) r) :=
  { h with registry := h.registry, findings := h.findings }

theorem report (h : Prepared r) {cause : Cause} (hcause : cause.tag ≠ .circularDependency)
    (span : Span) : Prepared { r with checker := r.checker.report cause span } := by
  refine { h with registry := h.registry, findings := fun f hf => ?_ }
  rcases List.mem_append.mp hf with hold | hnew
  · exact h.findings f hold
  · rw [List.mem_singleton.mp hnew]
    exact hcause

/-- A fresh check has registered nothing. -/
theorem ofConfig (config : Config) : Prepared { checker := .ofConfig config } where
  registry := rfl
  nodup := .nil
  uses := by simp
  written := by simp
  unvisited := by simp
  stack := rfl
  order := rfl
  findings := by simp [Checker.ofConfig]

end Prepared

/-! ### Registering -/

variable {t : ScopeTree} {name target : String} {r : Resolver} {seen : List Module} {slot : Nat}
  {span : Span} {m : Module}

theorem moduleScope?_isSome : (t.moduleScope? name).isSome = true ↔ name ∈ t.modules.map (·.1) := by
  rw [ScopeTree.moduleScope?, List.lookup_isSome_iff, List.mem_map]
  simp only [beq_iff_eq, @eq_comm _ name]

/-- A module is registered if its name is free, and otherwise reported. -/
theorem register_cases (h : Prepared r) (m : Module) : (m.name ∉ r.names ∧ ∃ scopes : ScopeTree,
      scopes.modules = r.checker.scopes.modules ++ [(m.name, r.checker.scopes.size)] ∧
      exec (register m) r =
        { r with
          checker := { r.checker with scopes }
          slots := r.slots.push { module := m, scope := r.checker.scopes.size } }) ∨
    (m.name ∈ r.names ∧ exec (register m) r =
      { r with
        checker := (exec (enter m) r).checker.report (.duplicateModule m.name) m.span }) := by
  by_cases hname : m.name ∈ r.names
  · have hnone : r.checker.scopes.addModule? m.name = none := by
      rw [ScopeTree.addModule?, if_pos (moduleScope?_isSome.mpr (h.registry ▸ hname))]
    refine .inr ⟨hname, ?_⟩
    simp only [register, exec_get, hnone]
    rfl
  · have hfree : ¬(r.checker.scopes.moduleScope? m.name).isSome = true := by
      rwa [moduleScope?_isSome, h.registry]
    refine .inl ⟨hname, ?_⟩
    simp only [register, exec_get, ScopeTree.addModule?, if_neg hfree]
    exact ⟨_, And.symm ⟨rfl, rfl⟩⟩

theorem names_push (r : Resolver) (c : Checker) (s : Slot) :
    ({ r with checker := c, slots := r.slots.push s } : Resolver).names =
      r.names ++ [s.module.name] := by
  simp [names, modules]

theorem Prepared.register (h : Prepared r) (m : Module) : Prepared (exec (register m) r) := by
  rcases register_cases h m with ⟨hname, scopes, hmodules, hexec⟩ | ⟨-, hexec⟩
  · rw [hexec]
    constructor
    · rw [names_push, hmodules, List.map_append, h.registry]
      rfl
    · rw [names_push, List.nodup_append]
      refine ⟨h.nodup, by simp, fun a ha b hb hab => hname ?_⟩
      rw [List.mem_singleton.mp hb] at hab
      exact hab ▸ ha
    · intro s hs use huse
      rw [names_push]
      rcases Array.mem_push.mp hs with hold | rfl
      · exact List.mem_append_left _ (h.uses s hold use huse)
      · cases huse
    · intro s hs use huse
      rcases Array.mem_push.mp hs with hold | rfl
      · exact h.written s hold use huse
      · cases huse
    · intro s hs
      rcases Array.mem_push.mp hs with hold | rfl
      · exact h.unvisited s hold
      · rfl
    · exact h.stack
    · exact h.order
    · exact h.findings
  · rw [hexec]
    exact (h.enter m).report (by nofun) m.span

/-- Under each name stands the first of the modules that have it. -/
def FirstOfEachName (r : Resolver) (seen : List Module) : Prop :=
  ∀ name, r.modules.find? (·.name == name) = seen.find? (·.name == name)

theorem isSome_find?_name {ms : List Module} :
    (ms.find? (·.name == name)).isSome = true ↔ name ∈ ms.map (·.name) := by
  simp [List.find?_isSome]

theorem FirstOfEachName.mem_names (h : FirstOfEachName r seen)
    (name : String) : name ∈ r.names ↔ name ∈ seen.map (·.name) := by
  rw [names, ← isSome_find?_name, h name, isSome_find?_name]

theorem firstOfEachName_register (h : Prepared r) (hfirst : FirstOfEachName r seen) (m : Module) :
    FirstOfEachName (exec (register m) r) (seen ++ [m]) := by
  intro name
  rcases register_cases h m with ⟨-, scopes, -, hexec⟩ | ⟨hname, hexec⟩
  · have hmodules : (exec (register m) r).modules = r.modules ++ [m] := by
      rw [hexec]
      simp [modules]
    rw [hmodules, List.find?_append, List.find?_append, hfirst name]
  · have hmodules : (exec (register m) r).modules = r.modules := by
      rw [hexec]
      rfl
    rw [hmodules, List.find?_append, hfirst name]
    by_cases heq : m.name = name
    · -- the name is taken, so that an earlier module stands under it
      rw [hfirst.mem_names, ← isSome_find?_name, heq] at hname
      rw [Option.or_of_isSome hname]
    · have hnone : [m].find? (·.name == name) = none := by simp [heq]
      rw [hnone, Option.or_none]

theorem prepared_registerAll (ms : List Module) (h : Prepared r) (hfirst : FirstOfEachName r seen) :
    Prepared (exec (registerAll ms) r) ∧
      FirstOfEachName (exec (registerAll ms) r) (seen ++ ms) := by
  induction ms generalizing r seen with
  | nil => exact ⟨h, (List.append_nil seen).symm ▸ hfirst⟩
  | cons m ms ih =>
    rw [List.append_cons]
    exact ih (h.register m) (firstOfEachName_register h hfirst m)

/-- Where no name is given twice, all modules are registered in order, and nothing is reported. -/
theorem registerAll_of_nodup (ms : List Module) (h : Prepared r)
    (hnodup : (r.names ++ ms.map (·.name)).Nodup) :
    (exec (registerAll ms) r).modules = r.modules ++ ms ∧
      (exec (registerAll ms) r).checker.context = r.checker.context := by
  induction ms generalizing r with
  | nil => exact ⟨(List.append_nil _).symm, rfl⟩
  | cons m ms ih =>
    rw [List.map_cons, List.append_cons] at hnodup
    have hfree : m.name ∉ r.names := by
      have hnames := (List.nodup_append.mp hnodup).1
      exact fun hmem => (List.nodup_append.mp hnames).2.2 _ hmem _ (.head _) rfl
    rcases register_cases h m with ⟨-, scopes, -, hexec⟩ | ⟨hname, -⟩
    · have hmodules : (exec (register m) r).modules = r.modules ++ [m] := by
        rw [hexec]
        simp [modules]
      have hrest := ih (h.register m) (by rwa [names, hmodules, List.map_append])
      rw [hmodules, hexec, List.append_assoc] at hrest
      rw [registerAll, exec_bind, hexec]
      exact hrest
    · exact absurd hname hfree

/-! ### Linking -/

theorem modules_modifySlot (r : Resolver) (c : Checker) (slot : Nat)
    (hf : ∀ s, (f s).module = s.module) :
    ({ r with checker := c, slots := r.slots.modify slot f } : Resolver).modules = r.modules := by
  apply List.ext_getElem?
  intro i
  simp only [modules_getElem?, Array.getElem?_modify]
  split
  · simp [Function.comp_def, hf]
  · rfl

/-- A slot of the changed table is an old one, or the one that was changed. -/
theorem mem_modify {slots : Array Slot} {s : Slot} (h : s ∈ slots.modify slot f) :
    s ∈ slots ∨ ∃ old, slots[slot]? = some old ∧ s = f old := by
  obtain ⟨i, hi⟩ := Array.mem_iff_getElem?.mp h
  rw [Array.getElem?_modify] at hi
  split at hi
  next heq =>
    subst heq
    obtain ⟨old, hold, rfl⟩ := Option.map_eq_some_iff.mp hi
    exact .inr ⟨old, hold, rfl⟩
  · exact .inl (Array.mem_of_getElem? hi)

/-- An import can only be bound to a registered module. -/
theorem mem_modules_of_addImport? {u : ScopeTree} {id : ScopeId} {module localName : String}
    (h : t.addImport? id module localName = some u) :
    module ∈ t.modules.map (·.1) ∧ u.modules = t.modules := by
  unfold ScopeTree.addImport? at h
  split at h
  · cases h
  next scope hscope =>
    cases h
    exact ⟨moduleScope?_isSome.mp (by rw [hscope]; rfl), rfl⟩

theorem addUse_module (s : Slot) (target : String) (span : Span) :
    (s.addUse target span).module = s.module := by
  unfold Slot.addUse
  split <;> rfl

theorem mem_uses_addUse {s : Slot} {use : String × Span}
    (h : use ∈ (s.addUse target span).uses) : use ∈ s.uses ∨ use = (target, span) := by
  unfold Slot.addUse at h
  split at h
  · exact .inl h
  · exact (List.mem_append.mp h).imp_right List.mem_singleton.mp

/-- The pass has come from the first state to the second one without touching the modules. -/
structure Links (r r' : Resolver) : Prop where
  prepared : Prepared r'
  modules : r'.modules = r.modules

namespace Links

variable {r r' r'' : Resolver}

theorem refl (h : Prepared r) : Links r r := ⟨h, rfl⟩

theorem trans (h : Links r r') (h' : Links r' r'') : Links r r'' :=
  ⟨h'.prepared, h'.modules.trans h.modules⟩

end Links

/-- An import that stands in the module of a slot and leads to a registered one can be noted. -/
theorem links_addUse (h : Prepared r) (hm : r.modules[slot]? = some m) (htarget : target ∈ r.names)
    (hwritten : m.ImportsAt (target, span)) :
    Links r { r with slots := r.slots.modify slot (·.addUse target span) } := by
  have hmodules := modules_modifySlot r r.checker slot (f := (·.addUse target span))
    (addUse_module · target span)
  have hnames : ({ r with slots := r.slots.modify slot (·.addUse target span) } : Resolver).names =
      r.names := by
    rw [names, hmodules, names]
  refine ⟨⟨?_, ?_, ?_, ?_, ?_, h.stack, h.order, h.findings⟩, hmodules⟩
  · rw [hnames]
    exact h.registry
  · rw [hnames]
    exact h.nodup
  · intro s hs use huse
    rw [hnames]
    dsimp only at hs
    rcases mem_modify hs with hmem | ⟨old, hold, rfl⟩
    · exact h.uses s hmem use huse
    · rcases mem_uses_addUse huse with hmem | rfl
      · exact h.uses old (Array.mem_of_getElem? hold) use hmem
      · exact htarget
  · intro s hs use huse
    dsimp only at hs
    rcases mem_modify hs with hmem | ⟨old, hold, rfl⟩
    · exact h.written s hmem use huse
    · rw [addUse_module]
      rcases mem_uses_addUse huse with hmem | rfl
      · exact h.written old (Array.mem_of_getElem? hold) use hmem
      · rw [modules_getElem?, hold] at hm
        cases hm
        exact hwritten
  · intro s hs
    dsimp only at hs
    rcases mem_modify hs with hmem | ⟨old, hold, rfl⟩
    · exact h.unvisited s hmem
    · unfold Slot.addUse
      split <;> exact h.unvisited old (Array.mem_of_getElem? hold)

theorem links_linkImport (h : Prepared r) (hm : r.modules[slot]? = some m) (scope : ScopeId)
    {localName : Option String} (hmem : (⟨span, .importModule target localName⟩ : Stmt) ∈ m.body) :
    Links r (exec (linkImport slot scope target localName span) r) := by
  unfold linkImport
  dsimp only
  rw [exec_get]
  split
  · exact ⟨h.report (by nofun) span, rfl⟩
  · split
    · exact ⟨h.report (by nofun) span, rfl⟩
    next scopes hscopes =>
      obtain ⟨htarget, hmodules⟩ := mem_modules_of_addImport? hscopes
      have hbound : Links r { r with checker := { r.checker with scopes } } :=
        ⟨{ h with registry := hmodules ▸ h.registry }, rfl⟩
      exact hbound.trans
        (links_addUse hbound.prepared hm (h.registry ▸ htarget) ⟨localName, hmem⟩)

theorem links_linkStmts (scope : ScopeId) (stmts : List Stmt)
    (h : Prepared r) (hm : r.modules[slot]? = some m) (hstmts : stmts ⊆ m.body) :
    Links r (exec (linkStmts slot scope stmts) r) := by
  fun_induction linkStmts slot scope stmts generalizing r with
  | case1 => exact .refl h
  | case2 span target localName stmts ih =>
    obtain ⟨hmem, hrest⟩ := List.cons_subset.mp hstmts
    have hone := links_linkImport h hm scope hmem
    exact hone.trans (ih hone.prepared (hone.modules ▸ hm) hrest)
  | case3 s stmts _ ih => exact ih h hm (List.cons_subset.mp hstmts).2

theorem links_link (h : Prepared r) (slot : Nat) : Links r (exec (link slot) r) := by
  unfold link
  rw [exec_get]
  split
  · exact .refl h
  next s hs =>
    have hentered : Links r (exec (enter s.module) r) := ⟨h.enter s.module, rfl⟩
    have hm : r.modules[slot]? = some s.module := by rw [modules_getElem?, hs, Option.map_some]
    exact hentered.trans
      (links_linkStmts s.scope s.module.body hentered.prepared hm (List.Subset.refl _))

theorem links_forEach (slots : List Nat) (h : Prepared r) :
    Links r (exec (forEach link slots) r) := by
  induction slots generalizing r with
  | nil => exact .refl h
  | cons slot slots ih =>
    have hone := links_link h slot
    exact hone.trans (ih hone.prepared)

end Resolver

namespace Checker

open Resolver ResolveM

/-- After the first pass over a program. -/
def registered (c : Checker) (p : Program) : Resolver :=
  exec (registerAll p.modules) { checker := c }

/-- After the first two passes over a program. -/
def linked (c : Checker) (p : Program) : Resolver :=
  exec (forEach link (List.range (c.registered p).slots.size)) (c.registered p)

/-- What the passes keep holds after the first two of them. -/
theorem linked_invariant {P : Checker → Prop} (hP : ModuleInvariant P) (h : P c) (p : Program) :
    P (c.linked p).checker := by
  have hregistered : Keeps (fun _ => True) P (c.registered p) :=
    ⟨hP.registerAll (r := { checker := c }) p.modules h, fun _ _ => trivial⟩
  exact (Keeps.forEach (Q := Keeps (fun _ => True) P) (fun slot h => hP.link h slot) _
    hregistered).1

variable (config : Config) (p : Program)

theorem prepared_registered : Prepared ((ofConfig config).registered p) ∧
    FirstOfEachName ((ofConfig config).registered p) p.modules :=
  prepared_registerAll p.modules (.ofConfig config) fun _ => rfl

theorem links_linked : Links ((ofConfig config).registered p) ((ofConfig config).linked p) :=
  links_forEach _ (prepared_registered config p).1

theorem prepared_linked : Prepared ((ofConfig config).linked p) :=
  (links_linked config p).prepared

theorem firstOfEachName_linked : FirstOfEachName ((ofConfig config).linked p) p.modules := by
  intro name
  rw [(links_linked config p).modules]
  exact (prepared_registered config p).2 name

theorem size_linked :
    ((ofConfig config).registered p).slots.size = ((ofConfig config).linked p).slots.size := by
  have hlength := congrArg List.length (links_linked config p).modules
  simpa [modules] using hlength.symm

end Checker

end Warden

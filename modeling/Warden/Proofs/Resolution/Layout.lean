import Warden.Proofs.Resolution.Requests

/-!
# The state before the tour

After the first two passes the tree of scopes has a simple shape (`Layout`): behind the global scope
stands one scope for each registered module, in the order of the slots, and nothing else. These
scopes are empty but for their imports, and nothing has been declared, recorded or allocated
(`Checker.layout_linked`). So a check can enter any of them (`Layout.nested`).
-/

namespace Warden

open ScopeTree

variable {r : Resolver} {config : Config} {t : ScopeTree} {s : Slot}

/-- The scope of a module before it is checked and linked. -/
def Scope.ofModule (name : String) : Scope :=
  { name, parent := some 0, depth := 1, owner := .module name, ledger := some {} }

namespace Resolver

open ResolveM

/-- How scopes and slots stand to each other before the tour, where certain linkages have been put
in place. -/
structure Layout (config : Config) (linkageOf : Nat → Linkage) (r : Resolver) : Prop where
  size : r.checker.scopes.size = r.slots.size + 1
  registry : ∀ name, r.checker.scopes.moduleScope? name = (r.find? name).map (· + 1)
  global : { r.checker.scopes.scope 0 with children := [] } = ScopeTree.initial.scope 0
  slot : ∀ (i : Nat) s, r.slots[i]? = some s → s.scope = i + 1 ∧ s.uses = (linkageOf i).uses
  module : ∀ (i : Nat) s, r.slots[i]? = some s → r.checker.scopes.scope (i + 1) =
    { Scope.ofModule s.module.name with imports := (linkageOf i).imports }
  structs : r.checker.structs = {}
  types : r.checker.types = {}
  walk : r.checker.walk = {}
  config : r.checker.context.config = config

theorem find?_push (r : Resolver) (c : Checker) (s : Slot) (name : String) :
    ({ r with checker := c, slots := r.slots.push s } : Resolver).find? name =
      (r.find? name).or (if s.module.name = name then some r.slots.size else none) := by
  have hmodules : ({ r with checker := c, slots := r.slots.push s } : Resolver).modules =
      r.modules ++ [s.module] := by simp [modules]
  have hlength : r.modules.length = r.slots.size := by simp [modules]
  rw [find?_eq, find?_eq, hmodules, List.findIdx?_append, hlength]
  by_cases hname : s.module.name = name <;> simp [hname]

theorem addModule?_spec {u : ScopeTree} {name : String} (h : t.addModule? name = some u) :
    u.size = t.size + 1 ∧
    (∀ other, u.moduleScope? other =
      (t.moduleScope? other).or (if name = other then some t.size else none)) ∧
    ∀ i, u.scope i =
      if i = t.size then
        { Scope.ofModule name with depth := (t.scope 0).depth + 1 }
      else if i = 0 then { t.scope 0 with children := (t.scope 0).children ++ [t.size] }
      else t.scope i := by
  obtain ⟨-, rfl⟩ := eq_of_addModule? h
  refine ⟨size_addScope .., fun other => ?_, fun i => ?_⟩
  · change (t.modules ++ [(name, t.size)]).lookup other = (t.modules.lookup other).or _
    rw [List.lookup_append]
    by_cases hname : name = other
    · simp [hname]
    · rw [if_neg hname, List.lookup_cons, beq_false_of_ne (Ne.symm hname)]
      rfl
  · change (t.addScope 0 name (.module name) (some {})).scope i = _
    rw [scope_addScope]
    split
    · rfl
    next hi =>
      rw [scope_modify]
      by_cases hzero : i = 0
      · subst hzero
        rw [if_pos ⟨rfl, Nat.pos_of_ne_zero (Ne.symm hi)⟩, if_pos rfl]
      · rw [if_neg fun h => hzero h.1, if_neg hzero]

namespace Layout

variable {config : Config} {linkageOf : Nat → Linkage} {r : Resolver}

/-! ### Registering -/

theorem ofConfig (config : Config) :
    Layout config (fun _ => {}) { checker := .ofConfig config } where
  size := rfl
  registry name := by simp [find?, Checker.ofConfig, ScopeTree.moduleScope?, ScopeTree.initial]
  global := rfl
  slot i s hs := by simp at hs
  module i s hs := by simp at hs
  structs := rfl
  types := rfl
  walk := rfl
  config := rfl

/-- A module is put behind the others, in the tree as in the slots. -/
theorem addModule (h : Layout config (fun _ => {}) r) {m : Module}
    (ht : r.checker.scopes.addModule? m.name = some t) : Layout config (fun _ => {}) { r with
      checker := { r.checker with scopes := t }
      slots := r.slots.push { module := m, scope := r.checker.scopes.size } } := by
  obtain ⟨hsize, hregistry, hscope⟩ := addModule?_spec ht
  have hzero : 0 ≠ r.checker.scopes.size := by
    rw [h.size]
    exact Nat.zero_ne_add_one _
  have hdepth : (r.checker.scopes.scope 0).depth = 0 := congrArg Scope.depth h.global
  refine ⟨?_, fun name => ?_, ?_, fun i s hs => ?_, fun i s hs => ?_, h.structs, h.types, h.walk,
    h.config⟩
  · rw [hsize, h.size, Array.size_push]
  · rw [hregistry, find?_push, h.registry, Option.map_or, h.size]
    by_cases hname : m.name = name <;> simp [hname]
  · rw [← h.global, hscope 0, if_neg hzero, if_pos rfl]
  · rw [Array.getElem?_push] at hs
    split at hs
    next hi =>
      cases hs
      exact ⟨hi ▸ h.size, rfl⟩
    · exact h.slot i s hs
  · rw [Array.getElem?_push] at hs
    split at hs
    next hi =>
      cases hs
      rw [hi, ← h.size, hscope, if_pos rfl, hdepth]
      rfl
    · have hlt : i + 1 ≠ r.checker.scopes.size := by
        rw [h.size]
        exact Nat.ne_of_lt (Nat.succ_lt_succ (Array.getElem?_eq_some_iff.mp hs).1)
      rw [hscope, if_neg hlt, if_neg (Nat.succ_ne_zero i)]
      exact h.module i s hs

theorem register (h : Layout config (fun _ => {}) r) (m : Module) :
    Layout config (fun _ => {}) (exec (register m) r) := by
  unfold Resolver.register
  rw [exec_get]
  split
  next t ht => exact h.addModule ht
  · exact { h with config := h.config }

theorem registerAll (ms : List Module) (h : Layout config (fun _ => {}) r) :
    Layout config (fun _ => {}) (exec (registerAll ms) r) := by
  induction ms generalizing r with
  | nil => exact h
  | cons m ms ih => exact ih (h.register m)

/-! ### Linking -/

theorem scope_lt (h : Layout config linkageOf r) {i : Nat} (hs : r.slots[i]? = some s) :
    s.scope < r.checker.scopes.size := by
  rw [(h.slot i s hs).1, h.size]
  exact Nat.succ_lt_succ (Array.getElem?_eq_some_iff.mp hs).1

/-- One more linkage is put in place. -/
theorem linkedWith (h : Layout config linkageOf r) {slot : Nat} (hs : r.slots[slot]? = some s)
    (b : Linkage) : Layout config (Function.update linkageOf slot b) (r.linkedWith slot s b) := by
  have hscope := (h.slot slot s hs).1
  have hlt := h.scope_lt hs
  refine ⟨?_, fun name => ?_, ?_, fun i s' hs' => ?_, fun i s' hs' => ?_, h.structs, h.types,
    h.walk, ?_⟩
  · simpa [Resolver.linkedWith] using h.size
  · rw [find?_eq, modules_linkedWith, ← find?_eq, ← h.registry]
    rfl
  · rw [← h.global, scope_linkedWith hlt, if_neg (hscope ▸ (Nat.succ_ne_zero slot).symm)]
  · rw [slots_linkedWith] at hs'
    obtain ⟨old, hold, rfl⟩ := Option.map_eq_some_iff.mp hs'
    obtain ⟨hscope', huses⟩ := h.slot i old hold
    refine ⟨hscope', ?_⟩
    by_cases hi : i = slot
    · simp [hi]
    · simp [hi, huses]
  · rw [slots_linkedWith] at hs'
    obtain ⟨old, hold, rfl⟩ := Option.map_eq_some_iff.mp hs'
    rw [scope_linkedWith hlt, h.module i old hold, hscope]
    by_cases hi : i = slot
    · simp [hi]
    · simp [hi]
  · rw [← h.config, Resolver.linkedWith, Context.reportEach_enter]
    rfl

end Layout

/-- What the second pass comes to in a slot. -/
def linkageAt (r : Resolver) (i : Nat) : Linkage :=
  (r.modules[i]?.map (·.linkage r.checker.scopes.moduleScope?)).getD {}

/-- What it has come to after the first `n` slots. -/
def linkagesUpTo (r : Resolver) (n i : Nat) : Linkage :=
  if i < n then r.linkageAt i else {}

theorem linkagesUpTo_succ {n : Nat} {m : Module} (hm : r.modules[n]? = some m) :
    r.linkagesUpTo (n + 1) =
      Function.update (r.linkagesUpTo n) n (m.linkage r.checker.scopes.moduleScope?) := by
  funext i
  by_cases hi : i = n
  · simp [linkagesUpTo, linkageAt, hi, hm]
  · have hiff : i < n + 1 ↔ i < n := by omega
    simp [linkagesUpTo, hi, hiff]

/-- What linking a module adds to the findings. -/
def linkFindings (r : Resolver) (m : Module) : List Finding :=
  (m.linkage r.checker.scopes.moduleScope?).reports.map fun x => m.finding x.1 x.2

theorem exec_forEach_append (action : Nat → ResolveM Unit) (slots more : List Nat) (r : Resolver) :
    exec (forEach action (slots ++ more)) r =
      exec (forEach action more) (exec (forEach action slots) r) := by
  induction slots generalizing r with
  | nil => rfl
  | cons slot slots ih => exact ih _

/-- The second pass puts the linkages in place, one after the other. -/
theorem layout_forEach_link (hr : Prepared r) (h : Layout config (fun _ => {}) r) (n : Nat)
    (hn : n ≤ r.slots.size) : let r' := exec (forEach link (List.range n)) r
    Layout config (r.linkagesUpTo n) r' ∧
      r'.checker.scopes.moduleScope? = r.checker.scopes.moduleScope? ∧
      r'.checker.context.findings =
        r.checker.context.findings ++ (r.modules.take n).flatMap r.linkFindings := by
  induction n with
  | zero =>
    refine ⟨?_, rfl, by simp [forEach]⟩
    have hnone : r.linkagesUpTo 0 = fun _ => {} := by
      funext i
      exact if_neg (Nat.not_lt_zero i)
    rw [hnone]
    exact h
  | succ n ih =>
    obtain ⟨hlayout, hregistry, hfindings⟩ := ih (Nat.le_of_succ_le hn)
    have hmodules := (links_forEach (List.range n) hr).modules
    rw [List.range_succ, exec_forEach_append]
    generalize exec (forEach link (List.range n)) r = r' at *
    have hsize : r'.slots.size = r.slots.size := by
      simpa [modules] using congrArg List.length hmodules
    obtain ⟨s, hs⟩ : ∃ s, r'.slots[n]? = some s := ⟨_, Array.getElem?_eq_getElem (hsize ▸ hn)⟩
    have hmodule : r.modules[n]? = some s.module := by
      rw [← hmodules, modules_getElem?, hs, Option.map_some]
    have hempty : r.linkagesUpTo n n = {} := if_neg (Nat.lt_irrefl n)
    have huses : s.uses = [] := by rw [(hlayout.slot n s hs).2, hempty]
    have himports : (r'.checker.scopes.scope s.scope).imports = [] := by
      rw [(hlayout.slot n s hs).1, hlayout.module n s hs, hempty]
    have hlink : exec (forEach link [n]) r' = r'.linkedWith n s _ :=
      exec_link hs (hlayout.scope_lt hs) huses himports
    rw [hlink, hregistry]
    refine ⟨?_, hregistry, ?_⟩
    · rw [linkagesUpTo_succ hmodule]
      exact hlayout.linkedWith hs _
    · change ((r'.checker.context.enter s.module).reportEach _).findings = _
      rw [Context.reportEach_enter, hfindings, List.take_add_one, hmodule]
      simp [linkFindings]

/-- Once all modules are linked, the linkages are those of the state itself. -/
theorem layout_link_all (hr : Prepared r) (h : Layout config (fun _ => {}) r) :
    let r' := exec (forEach link (List.range r.slots.size)) r
    Layout config r'.linkageAt r' ∧ r'.checker.context.findings =
      r.checker.context.findings ++ r'.modules.flatMap r'.linkFindings := by
  obtain ⟨hlayout, hregistry, hfindings⟩ := layout_forEach_link hr h _ (Nat.le_refl _)
  have hmodules := (links_forEach (List.range r.slots.size) hr).modules
  generalize exec (forEach link (List.range r.slots.size)) r = r' at *
  have hlength : r.modules.length = r.slots.size := by simp [modules]
  refine ⟨?_, ?_⟩
  · have hlinkages : r'.linkageAt = r.linkagesUpTo r.slots.size := by
      funext i
      rw [linkageAt, linkagesUpTo, linkageAt, hmodules, hregistry]
      split
      · rfl
      next hi =>
        rw [List.getElem?_eq_none (hlength ▸ Nat.le_of_not_lt hi)]
        rfl
    exact hlinkages ▸ hlayout
  · have hreports : r'.linkFindings = r.linkFindings := by
      funext m
      rw [linkFindings, linkFindings, hregistry]
    rw [hfindings, hmodules, hreports, ← hlength, List.take_length]

namespace Layout

variable {config : Config} {linkageOf : Nat → Linkage} {r : Resolver}

/-! ### Entering modules -/

variable (h : Layout config linkageOf r)

include h

/-- Apart from the global scope and those of modules there are no scopes. -/
theorem cases_scope (i : ScopeId) :
    i = 0 ∨ (∃ (slot : Nat) (s : Slot), r.slots[slot]? = some s ∧ i = slot + 1) ∨
      r.checker.scopes.size ≤ i := by
  rcases Nat.eq_zero_or_pos i with hi | hi
  · exact .inl hi
  · obtain ⟨slot, rfl⟩ := Nat.exists_eq_succ_of_ne_zero (Nat.ne_of_gt hi)
    rcases Nat.lt_or_ge slot r.slots.size with hlt | hge
    · exact .inr (.inl ⟨slot, _, Array.getElem?_eq_getElem hlt, rfl⟩)
    · refine .inr (.inr ?_)
      rw [h.size]
      exact Nat.succ_le_succ hge

theorem arena : r.checker.scopes.Arena := by
  intro i p hp
  rcases h.cases_scope i with rfl | ⟨slot, s, hs, rfl⟩ | hge
  · rw [congrArg Scope.parent h.global] at hp
    cases hp
  · rw [h.module slot s hs] at hp
    cases hp
    exact Nat.succ_pos slot
  · rw [scope_of_size_le hge] at hp
    cases hp

/-- A check can enter the scope of any module. -/
theorem nested {i : Nat} (hs : r.slots[i]? = some s) :
    Nested [⟨s.scope, true⟩, ⟨0, false⟩] r.checker := by
  have hscope := (h.slot i s hs).1
  have hmodule := h.module i s hs
  rw [← hscope] at hmodule
  have hglobal : (r.checker.scopes.scope 0).parent = none := congrArg Scope.parent h.global
  have hnone : (r.checker.scopes.scope 0).ledger = none := congrArg Scope.ledger h.global
  have harena := h.arena
  have hlt := h.scope_lt hs
  refine ⟨harena, ⟨_, _, rfl, hscope ▸ Nat.succ_ne_zero i, ?_⟩, ?_, ?_, ?_⟩
  · rw [harena.ancestors_eq, hmodule, Scope.ofModule, Option.elim_some, harena.ancestors_eq,
      hglobal]
    rfl
  · simpa using ⟨hlt, Nat.zero_lt_of_lt hlt⟩
  · simp [hmodule, hnone, Scope.ofModule]
  · rw [h.walk]
    nofun

end Layout

end Resolver

/-! ### Findings before the tour -/

/-- The finding says that a module has the name of an earlier one. -/
def Finding.Repeats (f : Finding) (ms : List Module) : Prop :=
  ∃ earlier m later, ms = earlier ++ m :: later ∧ m.name ∈ earlier.map (·.name) ∧
    f = m.finding (.duplicateModule m.name) m.span

/-- The first pass reports modules that have the name of an earlier one. -/
theorem Resolver.repeats_registerAll (ms : List Module) {seen : List Module} (h : Prepared r)
    (hfirst : FirstOfEachName r seen)
    (hfindings : ∀ f ∈ r.checker.context.findings, f.Repeats seen) :
    ∀ f ∈ (ResolveM.exec (registerAll ms) r).checker.context.findings, f.Repeats (seen ++ ms) := by
  induction ms generalizing r seen with
  | nil =>
    rw [List.append_nil]
    exact hfindings
  | cons m ms ih =>
    have hold : ∀ f ∈ r.checker.context.findings, f.Repeats (seen ++ [m]) := by
      intro f hf
      obtain ⟨earlier, m', later, rfl, hrepeats⟩ := hfindings f hf
      exact ⟨earlier, m', later ++ [m], by simp, hrepeats⟩
    have hnext : ∀ f ∈ (ResolveM.exec (register m) r).checker.context.findings,
        f.Repeats (seen ++ [m]) := by
      rcases register_cases h m with ⟨-, scopes, -, hexec⟩ | ⟨hname, hexec⟩
      · rw [hexec]
        exact hold
      · rw [hexec]
        refine List.forall_mem_append.mpr ⟨hold, fun f hf => ?_⟩
        exact ⟨seen, m, [], rfl, (hfirst.mem_names _).mp hname, List.mem_singleton.mp hf⟩
    rw [List.append_cons]
    exact ih (h.register m) (firstOfEachName_register h hfirst m) hnext

namespace Checker

open Resolver

variable (config : Config) (p : Program)

/-- The state before the tour. -/
theorem layout_linked :
    Layout config ((ofConfig config).linked p).linkageAt ((ofConfig config).linked p) ∧
      ((ofConfig config).linked p).checker.context.findings =
        ((ofConfig config).registered p).checker.context.findings ++
          ((ofConfig config).linked p).modules.flatMap
            ((ofConfig config).linked p).linkFindings :=
  layout_link_all (prepared_registered config p).1
    ((Layout.ofConfig config).registerAll p.modules)

theorem repeats_registered :
    ∀ f ∈ ((ofConfig config).registered p).checker.context.findings, f.Repeats p.modules :=
  repeats_registerAll p.modules (.ofConfig config) (fun _ => rfl) (by simp [ofConfig])

/-- Before the tour, all findings are about how the modules fit together. -/
theorem isLinking_linked :
    ∀ f ∈ ((ofConfig config).linked p).checker.context.findings, f.cause.isLinking = true := by
  rw [(layout_linked config p).2, List.forall_mem_append]
  refine ⟨fun f hf => ?_, fun f hf => ?_⟩
  · obtain ⟨_, m, _, -, -, rfl⟩ := repeats_registered config p f hf
    rfl
  · obtain ⟨m, -, hm⟩ := List.mem_flatMap.mp hf
    obtain ⟨x, hx, rfl⟩ := List.mem_map.mp hm
    obtain ⟨log, -, -, hlog⟩ := m.exists_log _
    rw [hlog.reports] at hx
    rcases ImportLog.cases_of_mem_reports hx with ⟨name, hcause⟩ | ⟨name, hcause⟩ <;>
      simp [Module.finding, hcause, Cause.isLinking]

end Checker

end Warden

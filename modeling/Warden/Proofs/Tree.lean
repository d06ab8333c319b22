import Mathlib.Data.List.Chain
import Mathlib.Logic.Relation
import Warden.Proofs.Arena

/-!
# Trees of scopes are well formed

`ScopeTree.Step` are the operations on a tree, each in a scope that exists. Whatever is built with
them from the first tree is *well formed* (`ScopeTree.WellFormed`):

* **nesting**: the global scope alone has no parent, every other scope comes after its parent and is
  one deeper, and each scope lists its children in order;
* **modules**: the registry has exactly the module scopes, by name, and they are children of the
  global scope;
* **contents**: names are declared once per scope, symbols know their depth, and imports lead to the
  registered scope of their module;
* **ledgers**: functions and modules have one, and no other scope does.

An operation changes the contents of one scope (`WellFormed.modify`) or adds a scope
(`WellFormed.grow`). In a well-formed tree the way outwards from a scope follows the parents, ends
in the global scope after as many steps as the scope is deep, and meets at most one module
(`WellFormed.leadsOut`).
-/

namespace Warden

variable {u : ScopeTree} {i id p : ScopeId}

namespace Scope

/-- A scope without what is declared, imported and recorded in it. -/
def shell (s : Scope) : Scope :=
  { s with symbols := [], imports := [], deferred := [], ledger := s.ledger.map fun _ => {} }

/-- A scope holds each name once, its symbols are as deep as it is, and its imports lead to the
modules that they name. -/
structure Consistent (t : ScopeTree) (s : Scope) : Prop where
  symbols : ∀ name symbol, s.symbol? name = some symbol ↔ symbol ∈ s.symbols ∧ symbol.name = name
  depths : ∀ symbol ∈ s.symbols, symbol.depth = s.depth
  imports : ∀ i ∈ s.imports, t.moduleScope? i.module = some i.scope

/-- A symbol whose name is free joins the others: it is found under its name and hides none. -/
theorem symbol?_insert_iff {s : Scope} (new : Symbol) (hfree : s.symbol? new.name = none)
    (h : ∀ name symbol, s.symbol? name = some symbol ↔ symbol ∈ s.symbols ∧ symbol.name = name)
    (name : String) (symbol : Symbol) :
    { s with symbols := s.symbols ++ [new] }.symbol? name = some symbol ↔
      symbol ∈ s.symbols ++ [new] ∧ symbol.name = name := by
  have hfind : { s with symbols := s.symbols ++ [new] }.symbol? name =
      (s.symbol? name).or ([new].find? (·.name == name)) := List.find?_append
  rw [hfind, List.mem_append, List.mem_singleton]
  by_cases hname : new.name = name
  · subst hname
    have hmem : ∀ symbol ∈ s.symbols, symbol.name ≠ new.name := by
      intro symbol hs heq
      have hsome := (h new.name symbol).mpr ⟨hs, heq⟩
      rw [hfree] at hsome
      cases hsome
    rw [hfree, Option.none_or, List.find?_singleton, if_pos (beq_self_eq_true _)]
    constructor
    · rintro ⟨⟩
      exact ⟨.inr rfl, rfl⟩
    · rintro ⟨hs | rfl, heq⟩
      · exact absurd heq (hmem symbol hs)
      · rfl
  · have hnone : [new].find? (·.name == name) = none := by simp [hname]
    rw [hnone, Option.or_none, h]
    constructor
    · rintro ⟨hs, heq⟩
      exact ⟨.inl hs, heq⟩
    · rintro ⟨hs | rfl, heq⟩
      · exact ⟨hs, heq⟩
      · exact absurd heq hname

end Scope

namespace ScopeTree

/-- One operation on a tree, in a scope that exists. One that fails leaves the tree alone. -/
inductive Step : ScopeTree → ScopeTree → Prop where
  | addBlock {t : ScopeTree} {parent : ScopeId} (name : String) : parent < t.size →
      Step t (t.addBlock parent name)
  | addFunction {t : ScopeTree} {parent : ScopeId} (name : String) : parent < t.size →
      Step t (t.addFunction parent name)
  | addModule {t u : ScopeTree} {name : String} : t.addModule? name = some u → Step t u
  | insert {t u : ScopeTree} {id : ScopeId} {symbol : Symbol} : id < t.size →
      t.insert? id symbol = some u → Step t u
  | addImport {t u : ScopeTree} {id : ScopeId} {module localName : String} : id < t.size →
      t.addImport? id module localName = some u → Step t u
  | deferFree {t : ScopeTree} {id : ScopeId} (name : String) (span : Span) : id < t.size →
      Step t (t.deferFree id name span)
  | clearDeferred {t : ScopeTree} {id : ScopeId} : id < t.size → Step t (t.clearDeferred id)
  | updateLedger {t : ScopeTree} {id : ScopeId} (f : Ledger → Ledger) : id < t.size →
      Step t (t.updateLedger id f)

/-- What holds of the table of scopes between operations. -/
structure WellFormed (t : ScopeTree) : Prop where
  pos : 0 < t.size
  root : ∀ i < t.size, (t.scope i).parent = none ↔ i = 0
  depth_root : (t.scope 0).depth = 0
  nesting : ∀ i p, (t.scope i).parent = some p → p < i ∧ (t.scope i).depth = (t.scope p).depth + 1
  children : ∀ p < t.size,
    (t.scope p).children = (List.range t.size).filter fun i => (t.scope i).parent == some p
  registry : ∀ name i, t.moduleScope? name = some i ↔ i < t.size ∧ (t.scope i).owner = .module name
  module_parent : ∀ i < t.size, (t.scope i).isModule = true → (t.scope i).parent = some 0
  ledger : ∀ i < t.size,
    (t.scope i).ledger.isSome = true ↔ (t.scope i).isFunction = true ∨ (t.scope i).isModule = true
  contents : ∀ i < t.size, (t.scope i).Consistent t

/-- The way outwards from a scope goes from parent to parent, ends in the global scope after as
many steps as the scope is deep, and meets at most one module. -/
structure LeadsOut (t : ScopeTree) (i : ScopeId) : Prop where
  head : (t.ancestors i).head? = some i
  chain : (t.ancestors i).IsChain fun j p => (t.scope j).parent = some p
  last : (t.ancestors i).getLast? = some 0
  length : (t.ancestors i).length = (t.scope i).depth + 1
  modules : (t.ancestors i).countP (fun j => (t.scope j).isModule) ≤ 1

namespace WellFormed

variable {t : ScopeTree}

theorem arena (h : t.WellFormed) : t.Arena :=
  fun i p hp => (h.nesting i p hp).1

/-! ### Changing the contents of a scope -/

/-- A change of one scope keeps the tree well formed if it leaves the shell of the scope alone and
its contents consistent. -/
theorem modify (h : t.WellFormed) (id : ScopeId) {f : Scope → Scope}
    (hf : ∀ s, (f s).shell = s.shell)
    (hcontents : (t.scope id).Consistent t → (f (t.scope id)).Consistent t) :
    (t.modify id f).WellFormed := by
  have hshell := t.field_modify id Scope.shell hf
  have hparent : ∀ i, ((t.modify id f).scope i).parent = (t.scope i).parent :=
    fun i => congrArg (·.parent) (hshell i)
  have hdepth : ∀ i, ((t.modify id f).scope i).depth = (t.scope i).depth :=
    fun i => congrArg (·.depth) (hshell i)
  have howner : ∀ i, ((t.modify id f).scope i).owner = (t.scope i).owner :=
    fun i => congrArg (·.owner) (hshell i)
  have hledger : ∀ i, ((t.modify id f).scope i).ledger.isSome = (t.scope i).ledger.isSome := by
    intro i
    have hempty := congrArg (fun s : Scope => s.ledger.isSome) (hshell i)
    simpa only [Scope.shell, Option.isSome_map] using hempty
  have hchildren : ∀ i, ((t.modify id f).scope i).children = (t.scope i).children :=
    fun i => congrArg (·.children) (hshell i)
  constructor
  case pos => simpa using h.pos
  case root => simpa only [size_modify, hparent] using h.root
  case depth_root => rw [hdepth, h.depth_root]
  case nesting => simpa only [hparent, hdepth] using h.nesting
  case children => simpa only [size_modify, hparent, hchildren] using h.children
  case registry =>
    intro name i
    rw [size_modify, howner]
    exact h.registry name i
  case module_parent =>
    simpa only [size_modify, hparent, Scope.isModule, howner] using h.module_parent
  case ledger =>
    simpa only [size_modify, hledger, Scope.isFunction, Scope.isModule, howner] using h.ledger
  case contents =>
    intro i hi
    rw [size_modify] at hi
    have hold := h.contents i hi
    have hnew : ((t.modify id f).scope i).Consistent t := by
      rw [scope_modify]
      split
      next hid =>
        obtain ⟨rfl, -⟩ := hid
        exact hcontents hold
      · exact hold
    exact ⟨hnew.symbols, hnew.depths, hnew.imports⟩

theorem insert (h : t.WellFormed) {symbol : Symbol} (hu : t.insert? id symbol = some u) :
    u.WellFormed := by
  obtain ⟨hnone, rfl⟩ := ScopeTree.eq_of_insert? hu
  refine h.modify id (fun _ => rfl) fun hold => ⟨?_, fun s hs => ?_, hold.imports⟩
  · exact Scope.symbol?_insert_iff _ hnone hold.symbols
  · rcases List.mem_append.mp hs with hs | hs
    · exact hold.depths s hs
    · rw [List.mem_singleton.mp hs]

theorem addImport (h : t.WellFormed) {module localName : String}
    (hu : t.addImport? id module localName = some u) : u.WellFormed := by
  obtain ⟨scope, hscope, rfl⟩ := ScopeTree.eq_of_addImport? hu
  refine h.modify id (fun _ => rfl) fun hold => ⟨hold.symbols, hold.depths, fun i hi => ?_⟩
  rcases List.mem_append.mp hi with hi | hi
  · exact hold.imports i hi
  · rw [List.mem_singleton.mp hi]
    exact hscope

/-! ### Adding a scope -/

section addScope

variable {parent : ScopeId} (name : String) (owner : ScopeOwner) (ledger : Option Ledger)

/-- The parent of an old scope stays, and the new scope has the one it is given. -/
theorem parent_addScope (i : ScopeId) : ((t.addScope parent name owner ledger).scope i).parent =
      if i = t.size then some parent else (t.scope i).parent := by
  split
  next hi => rw [hi, scope_addScope_size]
  next hi => exact t.field_addScope parent name owner ledger Scope.parent (fun _ _ => rfl) hi

theorem children_addScope_of_lt (hi : i < t.size) :
    ((t.addScope parent name owner ledger).scope i).children =
      if i = parent then (t.scope i).children ++ [t.size] else (t.scope i).children := by
  rw [scope_addScope, if_neg (Nat.ne_of_lt hi), scope_modify]
  simp only [hi, and_true]
  split <;> rfl

/-- The new scope is the last of its parent's children, and has none. -/
theorem children_addScope (h : t.WellFormed) (hparent : parent < t.size) (hp : p < t.size + 1) :
    ((t.addScope parent name owner ledger).scope p).children =
      (List.range (t.size + 1)).filter fun i =>
        ((t.addScope parent name owner ledger).scope i).parent == some p := by
  have hold : (List.range t.size).filter (fun i =>
      ((t.addScope parent name owner ledger).scope i).parent == some p) =
      (List.range t.size).filter fun i => (t.scope i).parent == some p := by
    refine List.filter_congr fun i hi => ?_
    rw [parent_addScope, if_neg (Nat.ne_of_lt (List.mem_range.mp hi))]
  rw [List.range_succ, List.filter_append, hold, List.filter_singleton, parent_addScope, if_pos rfl]
  rcases Nat.lt_succ_iff_lt_or_eq.mp hp with hp | rfl
  · rw [children_addScope_of_lt name owner ledger hp, h.children p hp]
    by_cases hpp : p = parent
    · simp [hpp]
    · have hne : (some parent == some p) = false :=
        beq_eq_false_iff_ne.mpr (by simpa using Ne.symm hpp)
      simp [hpp, hne]
  · -- nothing can be in the new scope yet
    have hnone : (List.range t.size).filter (fun i => (t.scope i).parent == some t.size) = [] := by
      rw [List.filter_eq_nil_iff]
      intro i hi hp
      have hlt := (h.nesting i _ (eq_of_beq hp)).1
      exact Nat.lt_asymm hlt (List.mem_range.mp hi)
    have hne : (some parent == some t.size) = false :=
      beq_eq_false_iff_ne.mpr (by simpa using Nat.ne_of_lt hparent)
    simp only [scope_addScope_size, hnone, hne, List.nil_append, cond_false]

/-- Old scopes are nested as before, and the new one is nested in its parent. -/
theorem nesting_addScope (h : t.WellFormed) (hparent : parent < t.size)
    (hp : ((t.addScope parent name owner ledger).scope i).parent = some p) :
    p < i ∧ ((t.addScope parent name owner ledger).scope i).depth =
      ((t.addScope parent name owner ledger).scope p).depth + 1 := by
  have hold : ∀ {j}, j < t.size → ((t.addScope parent name owner ledger).scope j).depth =
      (t.scope j).depth := fun hj =>
    t.field_addScope parent name owner ledger Scope.depth (fun _ _ => rfl) (Nat.ne_of_lt hj)
  rw [parent_addScope] at hp
  split at hp
  next hi =>
    cases hp
    rw [hi, scope_addScope_size, hold hparent]
    exact ⟨hparent, rfl⟩
  · have hi : i < t.size := lt_size_of_scope_ne fun hout => by simp [hout] at hp
    obtain ⟨hlt, hdepth⟩ := h.nesting i p hp
    rw [hold hi, hold (Nat.lt_trans hlt hi)]
    exact ⟨hlt, hdepth⟩

/-- A new scope, with the registry that goes with it. Only modules are registered, and they stand in
the global scope. -/
theorem grow (h : t.WellFormed) (hparent : parent < t.size)
    (howner : ∀ module, owner = .module module → parent = 0) (hledger : ledger.isSome = true ↔
      (∃ function, owner = .function function) ∨ ∃ module, owner = .module module)
    {modules : List (String × ScopeId)} (hmodules : ∀ module i, modules.lookup module = some i ↔
      t.moduleScope? module = some i ∨ i = t.size ∧ owner = .module module) :
    { t.addScope parent name owner ledger with modules }.WellFormed := by
  let u : ScopeTree := { t.addScope parent name owner ledger with modules }
  have hsize : u.size = t.size + 1 := t.size_addScope parent name owner ledger
  have hnew : u.scope t.size =
      { name, parent := some parent, depth := (t.scope parent).depth + 1, owner, ledger } :=
    t.scope_addScope_size parent name owner ledger
  have hkept {α : Type} (field : Scope → α)
      (hfield : ∀ s children, field { s with children } = field s) {i : ScopeId} (hi : i < t.size) :
      field (u.scope i) = field (t.scope i) :=
    t.field_addScope parent name owner ledger field hfield (Nat.ne_of_lt hi)
  have hbound : ∀ i < u.size, i < t.size ∨ i = t.size := by
    intro i hi
    rw [hsize] at hi
    exact Nat.lt_succ_iff_lt_or_eq.mp hi
  show u.WellFormed
  constructor
  case pos => rw [hsize]; exact Nat.succ_pos _
  case root =>
    intro i hi
    rcases hbound i hi with hi | rfl
    · rw [hkept Scope.parent (fun _ _ => rfl) hi]
      exact h.root i hi
    · rw [hnew]
      exact ⟨nofun, fun hzero => absurd h.pos (by rw [hzero]; exact Nat.lt_irrefl 0)⟩
  case depth_root => rw [hkept Scope.depth (fun _ _ => rfl) h.pos, h.depth_root]
  case nesting => exact fun i p hp => h.nesting_addScope name owner ledger hparent hp
  case children =>
    rw [hsize]
    intro p hp
    exact h.children_addScope name owner ledger hparent hp
  case registry =>
    intro module i
    rw [show u.moduleScope? module = modules.lookup module from rfl, hmodules, h.registry, hsize]
    constructor
    · rintro (⟨hi, hmodule⟩ | ⟨rfl, hmodule⟩)
      · rw [hkept Scope.owner (fun _ _ => rfl) hi]
        exact ⟨Nat.lt_succ_of_lt hi, hmodule⟩
      · rw [hnew]
        exact ⟨Nat.lt_succ_self _, hmodule⟩
    · rintro ⟨hi, hmodule⟩
      rcases Nat.lt_succ_iff_lt_or_eq.mp hi with hi | rfl
      · rw [hkept Scope.owner (fun _ _ => rfl) hi] at hmodule
        exact .inl ⟨hi, hmodule⟩
      · rw [hnew] at hmodule
        exact .inr ⟨rfl, hmodule⟩
  case module_parent =>
    intro i hi hmodule
    rcases hbound i hi with hi | rfl
    · rw [hkept Scope.isModule (fun _ _ => rfl) hi] at hmodule
      rw [hkept Scope.parent (fun _ _ => rfl) hi]
      exact h.module_parent i hi hmodule
    · rw [hnew] at hmodule ⊢
      cases owner with
      | module module => rw [howner module rfl]
      | _ => cases hmodule
  case ledger =>
    intro i hi
    rcases hbound i hi with hi | rfl
    · rw [hkept (fun s => s.ledger) (fun _ _ => rfl) hi, hkept Scope.isFunction (fun _ _ => rfl) hi,
        hkept Scope.isModule (fun _ _ => rfl) hi]
      exact h.ledger i hi
    · rw [hnew, hledger]
      cases owner <;> simp [Scope.isFunction, Scope.isModule]
  case contents =>
    intro i hi
    rcases hbound i hi with hi | rfl
    · have hold := h.contents i hi
      refine ⟨?_, ?_, fun m hm => ?_⟩
      · simpa only [Scope.symbol?, hkept Scope.symbols (fun _ _ => rfl) hi] using hold.symbols
      · simpa only [hkept Scope.symbols (fun _ _ => rfl) hi, hkept Scope.depth (fun _ _ => rfl) hi]
          using hold.depths
      · rw [hkept Scope.imports (fun _ _ => rfl) hi] at hm
        exact (hmodules _ _).mpr (.inl (hold.imports m hm))
    · rw [hnew]
      exact ⟨by simp [Scope.symbol?], List.forall_mem_nil _, List.forall_mem_nil _⟩

end addScope

theorem addModule (h : t.WellFormed) {name : String} (hu : t.addModule? name = some u) :
    u.WellFormed := by
  obtain ⟨hfree, rfl⟩ := ScopeTree.eq_of_addModule? hu
  refine h.grow name (.module name) (some {}) h.pos (fun _ _ => rfl) (by simp) fun module i => ?_
  have hlookup : (t.modules ++ [(name, t.size)]).lookup module =
      (t.moduleScope? module).or ([(name, t.size)].lookup module) := List.lookup_append
  rw [hlookup]
  by_cases hname : module = name
  · rw [hname, hfree]
    simp [eq_comm]
  · have hnone : [(name, t.size)].lookup module = none := by
      simp [List.lookup_cons, beq_eq_false_iff_ne.mpr hname]
    simp [hnone, Ne.symm hname]

/-! ### All trees -/

theorem initial : ScopeTree.initial.WellFormed where
  pos := Nat.one_pos
  root i hi := by
    obtain rfl : i = 0 := Nat.lt_one_iff.mp hi
    exact ⟨fun _ => rfl, fun _ => rfl⟩
  depth_root := rfl
  nesting i p hp := by
    cases i with
    | zero => cases hp
    | succ i =>
      rw [scope_of_size_le (t := ScopeTree.initial) (Nat.succ_le_succ (Nat.zero_le i))] at hp
      cases hp
  children p hp := by
    obtain rfl : p = 0 := Nat.lt_one_iff.mp hp
    rfl
  registry name i := by
    constructor
    · intro h
      cases h
    · rintro ⟨hi, hmodule⟩
      obtain rfl : i = 0 := Nat.lt_one_iff.mp hi
      cases hmodule
  module_parent i hi hmodule := by
    obtain rfl : i = 0 := Nat.lt_one_iff.mp hi
    cases hmodule
  ledger i hi := by
    obtain rfl : i = 0 := Nat.lt_one_iff.mp hi
    decide
  contents i hi := by
    obtain rfl : i = 0 := Nat.lt_one_iff.mp hi
    -- the built-in functions are declared one after the other
    have hempty : ∀ name symbol, ({ owner := .global } : Scope).symbol? name = some symbol ↔
        symbol ∈ [] ∧ symbol.name = name := by simp [Scope.symbol?]
    have halloc := Scope.symbol?_insert_iff allocSymbol rfl hempty
    have hfree := Scope.symbol?_insert_iff freeSymbol rfl halloc
    exact ⟨hfree, by decide, List.forall_mem_nil _⟩

variable (h : t.WellFormed)

include h

/-- Every operation keeps the tree well formed. -/
theorem step (hstep : Step t u) : u.WellFormed := by
  cases hstep with
  | addBlock name hparent =>
    exact h.grow name .block none hparent (by simp) (by simp) fun module i => by
      simp [ScopeTree.modify, moduleScope?]
  | addFunction name hparent =>
    exact h.grow name (.function name) (some {}) hparent (by simp) (by simp) fun module i => by
      simp [ScopeTree.modify, moduleScope?]
  | addModule hu => exact h.addModule hu
  | insert _ hu => exact h.insert hu
  | addImport _ hu => exact h.addImport hu
  | deferFree name span _ =>
    exact h.modify _ (fun _ => rfl) fun hold => ⟨hold.symbols, hold.depths, hold.imports⟩
  | clearDeferred _ =>
    exact h.modify _ (fun _ => rfl) fun hold => ⟨hold.symbols, hold.depths, hold.imports⟩
  | updateLedger f _ =>
    refine h.modify _ (fun s => ?_) fun hold => ⟨hold.symbols, hold.depths, hold.imports⟩
    simp [Scope.shell, Function.comp_def]

theorem steps (hsteps : Relation.ReflTransGen Step t u) : u.WellFormed := by
  induction hsteps with
  | refl => exact h
  | tail _ hstep ih => exact ih.step hstep

/-! ### The way outwards -/

theorem isModule_root : (t.scope 0).isModule = false := by
  cases hmodule : (t.scope 0).isModule with
  | false => rfl
  | true =>
    have hparent := h.module_parent 0 h.pos hmodule
    rw [(h.root 0 h.pos).mpr rfl] at hparent
    cases hparent

theorem ancestors_root : t.ancestors 0 = [0] := by
  rw [h.arena.ancestors_eq, (h.root 0 h.pos).mpr rfl]
  rfl

/-- One step further in, the way is one step longer. A module is one step from the global scope, so
no other module can follow on its way. -/
theorem leadsOut_of_parent (hp : (t.scope i).parent = some p) (hi : i < t.size)
    (ih : t.LeadsOut p) : t.LeadsOut i := by
  have hway : t.ancestors i = i :: t.ancestors p := by
    rw [h.arena.ancestors_eq, hp]
    rfl
  obtain ⟨rest, hrest⟩ : ∃ rest, t.ancestors p = p :: rest := ⟨_, h.arena.ancestors_eq p⟩
  constructor
  case head => rw [hway, List.head?_cons]
  case chain =>
    have hchain := ih.chain
    rw [hrest] at hchain
    rw [hway, hrest]
    exact hchain.cons_cons hp
  case last =>
    have hlast := ih.last
    rw [hrest] at hlast
    rw [hway, hrest, List.getLast?_cons_cons, hlast]
  case length => rw [hway, List.length_cons, ih.length, (h.nesting i p hp).2]
  case modules =>
    rw [hway, List.countP_cons]
    cases hmodule : (t.scope i).isModule with
    | false => simpa using ih.modules
    | true =>
      have hglobal := h.module_parent i hi hmodule
      rw [hp, Option.some.injEq] at hglobal
      simp [hglobal, h.ancestors_root, h.isModule_root]

theorem leadsOut (hi : i < t.size) : t.LeadsOut i := by
  induction i using Nat.strongRecOn with
  | ind i ih =>
    cases hp : (t.scope i).parent with
    | none =>
      obtain rfl := (h.root i hi).mp hp
      have hway := h.ancestors_root
      constructor
      · rw [hway, List.head?_cons]
      · rw [hway]
        exact .singleton 0
      · rw [hway, List.getLast?_singleton]
      · rw [hway, h.depth_root, List.length_singleton]
      · simp [hway, h.isModule_root]
    | some p =>
      have hlt := (h.nesting i p hp).1
      exact h.leadsOut_of_parent hp hi (ih p hlt (Nat.lt_trans hlt hi))

end WellFormed

/-- Every tree that operations build from the first one is well formed, and every way outwards in it
ends in the global scope. -/
theorem trees_are_well_formed {t : ScopeTree} (h : Relation.ReflTransGen Step initial t) :
    t.WellFormed ∧ ∀ i < t.size, t.LeadsOut i := by
  have hformed := WellFormed.initial.steps h
  exact ⟨hformed, fun _ hi => hformed.leadsOut hi⟩

/-- A tree with a block in a function of a module, which declares a name and imports a module. -/
theorem trees_are_well_formed_nested : ∃ t : ScopeTree, Relation.ReflTransGen Step initial t ∧
    t.ancestors 4 = [4, 3, 2, 0] ∧ (t.scope 4).symbols.map (·.depth) = [3] ∧
    (t.scope 4).imports.map (·.scope) = [1] ∧ t.WellFormed ∧ ∀ i < t.size, t.LeadsOut i := by
  have hlib : Relation.ReflTransGen Step initial _ :=
    .single (.addModule (show initial.addModule? "lib" = some _ from rfl))
  have hmain := hlib.tail (.addModule (show ScopeTree.addModule? _ "main" = some _ from rfl))
  have hf := hmain.tail (.addFunction "f" (show 2 < _ by decide))
  have hblock := hf.tail (.addBlock "block" (show 3 < _ by decide))
  have hx := hblock.tail (.insert (show 4 < _ by decide)
    (show ScopeTree.insert? _ 4 (.ofVariable "x" .int false) = some _ from rfl))
  have himport := hx.tail (.addImport (show 4 < _ by decide)
    (show ScopeTree.addImport? _ 4 "lib" "lib" = some _ from rfl))
  exact ⟨_, himport, rfl, rfl, rfl, trees_are_well_formed himport⟩

end ScopeTree

end Warden

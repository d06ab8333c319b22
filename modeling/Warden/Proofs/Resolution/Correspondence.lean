import Warden.Proofs.Mirror.Transfer
import Warden.Proofs.Resolution.Turns

/-!
# Modules that come out alike in two tours

Two tours may go through different programs, in different orders. Some of their modules correspond
(`Corresponding`): they are the same, what they import corresponds in turn, and none is on a cycle.
Then each of them comes out alike in both tours (`Corresponding.comesOutAlike`), and the check of
its body emits the same diagnostics (`Corresponding.emits_eq`).

The proof goes along the first tour. When a module has its turn, all modules that it leads to have
had theirs, in both tours. By induction they have come out alike. So the states mirror each other,
where scopes stand for each other if their modules do, and structs if they were declared in such
modules at the same place. Nothing else is in sight of the module.
-/

namespace Warden

variable {a b : Nat}

/-! ### Linkages -/

/-- The linkages are the same but for the scopes of the modules. -/
structure Linkage.Alike (b b' : Linkage) : Prop where
  imports : List.Forall₂ (fun m m' : Import => m' = { m with scope := m'.scope })
    b.imports b'.imports
  uses : b.uses = b'.uses
  reports : b.reports = b'.reports

namespace Linkage.Alike

variable {scopeOf scopeOf' : String → Option ScopeId} {b b' : Linkage}

theorem bind (h : b.Alike b') {target : String}
    (hscope : (scopeOf target).isSome = (scopeOf' target).isSome) (localName : Option String)
    (span : Span) :
    (b.bind scopeOf target localName span).Alike (b'.bind scopeOf' target localName span) := by
  have htaken : (b.imports.find? (·.localName == localName.getD target)).isSome =
      (b'.imports.find? (·.localName == localName.getD target)).isSome :=
    (rel_find? (fun m m' hmm => by rw [hmm]) h.imports).isSome_eq
  unfold Linkage.bind
  dsimp only
  rw [htaken]
  split
  · exact ⟨h.imports, h.uses, congrArg (· ++ _) h.reports⟩
  · cases hs : scopeOf target with
    | none =>
      have hs' : scopeOf' target = none := by simpa [hs] using hscope
      rw [hs']
      exact ⟨h.imports, h.uses, congrArg (· ++ _) h.reports⟩
    | some scope =>
      obtain ⟨scope', hs'⟩ : ∃ scope', scopeOf' target = some scope' := by
        simpa [hs, Option.isSome_iff_exists] using hscope.symm
      rw [hs', h.uses]
      exact ⟨List.rel_append h.imports (.cons rfl .nil), rfl, h.reports⟩

theorem bindAll (stmts : List Stmt) (h : b.Alike b')
    (hscopes : ∀ target ∈ stmts.filterMap Stmt.target?,
      (scopeOf target).isSome = (scopeOf' target).isSome) :
    (b.bindAll scopeOf stmts).Alike (b'.bindAll scopeOf' stmts) := by
  induction stmts generalizing b b' with
  | nil => exact h
  | cons s stmts ih =>
    obtain ⟨span, kind⟩ := s
    cases kind with
    | importModule target localName =>
      have hrest := ih (h.bind (hscopes target (.head _)) localName span) fun t ht =>
        hscopes t (.tail _ ht)
      exact hrest
    | _ => exact ih h hscopes

end Linkage.Alike

/-- The linkage of a module depends on which of its imports are registered only. -/
theorem Module.alike_linkage (m : Module) {scopeOf scopeOf' : String → Option ScopeId}
    (h : ∀ target ∈ m.targets, (scopeOf target).isSome = (scopeOf' target).isSome) :
    (m.linkage scopeOf).Alike (m.linkage scopeOf') :=
  Linkage.Alike.bindAll m.body ⟨.nil, rfl, rfl⟩ h

/-! ### The check of a module -/

namespace Resolver

section

variable {config : Config}

/-- The slots correspond: their modules are the same and on no cycle, and wherever they import a
module, both import corresponding ones or none is registered. -/
structure Corresponding (T T' : Tour config) (C : Nat → Nat → Prop) : Prop where
  module : ∀ {i i'}, C i i' → ∃ s s', T.resolver.slots[i]? = some s ∧
    T'.resolver.slots[i']? = some s' ∧ s'.module = s.module
  targets : ∀ {i i' s}, C i i' → T.resolver.slots[i]? = some s → ∀ target ∈ s.module.targets,
    Option.Rel C (T.resolver.find? target) (T'.resolver.find? target)
  acyclic : ∀ {i i'}, C i i' → ¬Relation.TransGen T.resolver.Uses i i

/-- The slots correspond, and have had their turns before certain others. -/
def Before (T T' : Tour config) (C : Nat → Nat → Prop) (i i' j j' : Nat) : Prop :=
  C j j' ∧ T.Earlier j i ∧ T'.Earlier j' i'

/-- The scopes that stand for each other when certain modules have their turns. -/
inductive ScopesAt (T T' : Tour config) (C : Nat → Nat → Prop) (i i' : Nat) : Nat → Nat → Prop
  | global : ScopesAt T T' C i i' 0 0
  | before {j j' : Nat} : Before T T' C i i' j j' → ScopesAt T T' C i i' (j + 1) (j' + 1)
  | self : C i i' → ScopesAt T T' C i i' (i + 1) (i' + 1)

/-- The structs that stand for each other when certain modules have their turns. -/
def StructsAt (T T' : Tour config) (C : Nat → Nat → Prop) (i i' id id' : Nat) : Prop :=
  ∃ j j' n, Before T T' C i i' j j' ∧ T.DeclaredIn j id n ∧ T'.DeclaredIn j' id' n

end

variable {config : Config} {T T' : Tour config} {C : Nat → Nat → Prop} {i i' j j' : Nat}
  {s s' : Slot}

theorem Before.trans {k k' : Nat} (h : Before T T' C i i' j j') (h' : Before T T' C j j' k k') :
    Before T T' C i i' k k' :=
  ⟨h'.1, Earlier.trans h'.2.1 h.2.1, Earlier.trans h'.2.2 h.2.2⟩

namespace Corresponding

section

variable (h : Corresponding T T' C)

include h

theorem symm_module (hc : C i i') (hs : T.resolver.slots[i]? = some s) :
    ∃ s', T'.resolver.slots[i']? = some s' ∧ s'.module = s.module := by
  obtain ⟨t, s', ht, hs', hmodule⟩ := h.module hc
  cases ht.symm.trans hs
  exact ⟨s', hs', hmodule⟩

theorem left_unique (hi : C i i') (hj : C j i') : i = j := by
  obtain ⟨s, s', hs, hs', hmodule⟩ := h.module hi
  obtain ⟨t, t', ht, ht', hmodule'⟩ := h.module hj
  cases hs'.symm.trans ht'
  refine T.prepared.nameOf_inj (Array.getElem?_eq_some_iff.mp hs).1
    (Array.getElem?_eq_some_iff.mp ht).1 ?_
  rw [nameOf_eq hs, nameOf_eq ht, ← hmodule, ← hmodule']

theorem right_unique (hi : C i i') (hj : C i j') : i' = j' := by
  obtain ⟨s, s', hs, hs', hmodule⟩ := h.module hi
  obtain ⟨t', ht', hmodule'⟩ := h.symm_module hj hs
  refine T'.prepared.nameOf_inj (Array.getElem?_eq_some_iff.mp hs').1
    (Array.getElem?_eq_some_iff.mp ht').1 ?_
  rw [nameOf_eq hs', nameOf_eq ht', hmodule, hmodule']

/-! ### Uses -/

theorem alike_linkage (hc : C i i') (hs : T.resolver.slots[i]? = some s) :
    (s.module.linkage T.resolver.checker.scopes.moduleScope?).Alike
      (s.module.linkage T'.resolver.checker.scopes.moduleScope?) := by
  refine s.module.alike_linkage fun target htarget => ?_
  rw [T.layout.registry, T'.layout.registry, Option.isSome_map, Option.isSome_map]
  exact (h.targets hc hs target htarget).isSome_eq

/-- Whatever the one module uses has a counterpart that the other one uses. -/
theorem exists_uses (hc : C i i') (huses : T'.resolver.Uses i' j') :
    ∃ j, T.resolver.Uses i j ∧ C j j' := by
  obtain ⟨s, s', hs, hs', hmodule⟩ := h.module hc
  obtain ⟨t', ht', use, huse, hfind⟩ := huses
  cases hs'.symm.trans ht'
  rw [Tour.uses_eq hs', hmodule, ← (h.alike_linkage hc hs).uses, ← Tour.uses_eq hs] at huse
  have himports := T.prepared.written s (Array.mem_of_getElem? hs) use huse
  have htargets := h.targets hc hs use.1 himports.mem_targets
  rw [hfind] at htargets
  rcases htargets.inv with ⟨-, hnone⟩ | ⟨j, k', hj, hk', hjk⟩
  · cases hnone
  · cases hk'
    exact ⟨j, ⟨s, hs, use, huse, hj⟩, hjk⟩

theorem acyclic_right (hc : C i i') : ¬Relation.TransGen T'.resolver.Uses i' i' := by
  have hback : ∀ k', Relation.TransGen T'.resolver.Uses i' k' →
      ∃ k, C k k' ∧ Relation.TransGen T.resolver.Uses i k := by
    intro k' hpath
    induction hpath with
    | single huses =>
      obtain ⟨k, hk, hck⟩ := h.exists_uses hc huses
      exact ⟨k, hck, .single hk⟩
    | tail _ huses ih =>
      obtain ⟨k, hck, hpath⟩ := ih
      obtain ⟨l, hl, hcl⟩ := h.exists_uses hck huses
      exact ⟨l, hcl, hpath.tail hl⟩
  intro hcycle
  obtain ⟨k, hck, hpath⟩ := hback i' hcycle
  rw [h.left_unique hck hc] at hpath
  exact h.acyclic hc hpath

/-- What corresponding modules import has come before. -/
theorem alike_imports (hc : C i i') (hs : T.resolver.slots[i]? = some s) :
    List.Forall₂ (fun m m' : Import => ScopesAt T T' C i i' m.scope m'.scope ∧
        m' = { m with scope := m'.scope })
      (s.module.linkage T.resolver.checker.scopes.moduleScope?).imports
      (s.module.linkage T'.resolver.checker.scopes.moduleScope?).imports := by
  obtain ⟨s', hs', hmodule⟩ := h.symm_module hc hs
  have himports := (h.alike_linkage hc hs).imports
  refine List.forall₂_iff_zip.mpr ⟨himports.length_eq, fun {m m'} hmem => ?_⟩
  have hsame := (List.forall₂_iff_zip.mp himports).2 hmem
  obtain ⟨hm, hm'⟩ := List.of_mem_zip hmem
  obtain ⟨j, hfind, hscope, huses, hmem⟩ := Tour.uses_of_import hs hm
  obtain ⟨j', hfind', hscope', huses', -⟩ := Tour.uses_of_import hs' (hmodule.symm ▸ hm')
  have hname : m'.module = m.module := by rw [hsame]
  have htarget := h.targets hc hs m.module hmem
  rw [← hname, hfind'] at htarget
  rw [hname, hfind] at htarget
  cases htarget with
  | some hjj =>
    rw [hscope, hscope']
    exact ⟨.before ⟨hjj, Tour.earlier_of_uses (h.acyclic hc) huses,
      Tour.earlier_of_uses (h.acyclic_right hc) huses'⟩, hscope' ▸ hsame⟩

end

/-! ### What stands for what -/

theorem lt_scopes (hs : T.resolver.slots[i]? = some s) (j : Nat) : i + 1 < (T.turn j).scopes.size :=
  Nat.lt_of_lt_of_le (Tour.scope_eq hs ▸ T.layout.scope_lt hs) (T.between j).size

/-- Apart from the global scope, it is scopes of corresponding modules that stand for each other. -/
theorem cases_scopesAt (hab : ScopesAt T T' C i i' a b) :
    a = 0 ∧ b = 0 ∨ ∃ j j', C j j' ∧ a = j + 1 ∧ b = j' + 1 := by
  cases hab with
  | global => exact .inl ⟨rfl, rfl⟩
  | before hbefore => exact .inr ⟨_, _, hbefore.1, rfl, rfl⟩
  | self hc => exact .inr ⟨_, _, hc, rfl, rfl⟩

/-- The matching of scopes when certain modules have their turns. -/
def scopes (h : Corresponding T T' C) (i i' : Nat) : Matching where
  old := ScopesAt T T' C i i'
  left := (T.turn i).scopes.size
  right := (T'.turn i').scopes.size
  bound {a b} hab := by
    rcases cases_scopesAt hab with ⟨rfl, rfl⟩ | ⟨j, j', hj, rfl, rfl⟩
    · exact ⟨T.scopes_pos i, T'.scopes_pos i'⟩
    · obtain ⟨s, s', hs, hs', -⟩ := h.module hj
      exact ⟨lt_scopes hs i, lt_scopes hs' i'⟩
  left_unique {a a' b} hab hab' := by
    rcases cases_scopesAt hab with ⟨rfl, rfl⟩ | ⟨j, j', hj, rfl, rfl⟩ <;>
      rcases cases_scopesAt hab' with ⟨rfl, hb⟩ | ⟨k, k', hk, rfl, hb⟩
    · rfl
    · cases hb
    · cases hb
    · cases hb
      rw [h.left_unique hj hk]
  right_unique {a b b'} hab hab' := by
    rcases cases_scopesAt hab with ⟨rfl, rfl⟩ | ⟨j, j', hj, rfl, rfl⟩ <;>
      rcases cases_scopesAt hab' with ⟨ha, rfl⟩ | ⟨k, k', hk, ha, rfl⟩
    · rfl
    · cases ha
    · cases ha
    · cases ha
      rw [h.right_unique hj hk]

/-- The matching of structs when certain modules have their turns. -/
def structs (h : Corresponding T T' C) (i i' : Nat) : Matching where
  old := StructsAt T T' C i i'
  left := (T.turn i).structs.size
  right := (T'.turn i').structs.size
  bound := by
    rintro a b ⟨j, j', n, hbefore, hdeclared, hdeclared'⟩
    exact ⟨hdeclared.lt hbefore.2.1, hdeclared'.lt hbefore.2.2⟩
  left_unique := by
    rintro a a' b ⟨j, j', n, hj, ha, hb⟩ ⟨k, k', n', hk, ha', hb'⟩
    obtain ⟨s, s', -, hs', -⟩ := h.module hj.1
    obtain ⟨rfl, rfl⟩ := hb.unique (Tour.mem_checkedIn hs') hb'
    obtain rfl := h.left_unique hj.1 hk.1
    exact ha.1.trans ha'.1.symm
  right_unique := by
    rintro a b b' ⟨j, j', n, hj, ha, hb⟩ ⟨k, k', n', hk, ha', hb'⟩
    obtain ⟨s, s', hs, -, -⟩ := h.module hj.1
    obtain ⟨rfl, rfl⟩ := ha.unique (Tour.mem_checkedIn hs) ha'
    obtain rfl := h.right_unique hj.1 hk.1
    exact hb.1.trans hb'.1.symm

/-- The states after corresponding modules have had their turns mirror each other. -/
def ComesOutAlike (h : Corresponding T T' C) (i i' : Nat) : Prop :=
  Mirror (h.scopes i i') (h.structs i i') (T.nodes i) (T.turn i).context.findings
    (T'.turn i').context.findings (T.past i) (T'.past i')

/-! ### When an earlier module has come out alike -/

section before

variable (h : Corresponding T T' C) (hbefore : Before T T' C i i' j j')

include hbefore

/-- Scopes from before the tours that stood for each other still do. -/
theorem scopes_of_before (ha : a < T.resolver.checker.scopes.size) (hab : (h.scopes j j').Rel a b) :
    (h.scopes i i').Rel a b := by
  rcases hab with (_ | hold | _) | ⟨n, hleft, -⟩
  · exact .inl .global
  · exact .inl (.before (hbefore.trans hold))
  · exact .inl (.before hbefore)
  · have hle : (h.scopes j j').left ≤ a := hleft ▸ Nat.le_add_right ..
    exact absurd ha (Nat.not_lt.mpr (Nat.le_trans (T.between j).size hle))

variable (halike : h.ComesOutAlike j j')

include halike

/-- Structs that stood for each other still do. -/
theorem structs_of_before :
    ((h.structs j j').pairing (T.nodes j)).CarriesTo ((h.structs i i').pairing (T.nodes i))
      (T.past j).structs := by
  intro a b ha hab
  rcases hab with ⟨k, k', n, hold, hdeclared⟩ | ⟨n, hleft, hright⟩
  · exact .inl ⟨k, k', n, hbefore.trans hold, hdeclared⟩
  · -- the struct was declared in the module itself
    obtain ⟨m, hsize, hsize'⟩ := halike.structs.size
    refine .inl ⟨j, j', n, hbefore, ⟨hleft, ha⟩, hright, ?_⟩
    omega

theorem alike_scope_of_before : ((T.turn i).scopes.scope (j + 1)).Alike (h.scopes i i')
      ((h.structs i i').pairing (T.nodes i)) ((T'.turn i').scopes.scope (j' + 1)) := by
  obtain ⟨s, s', hs, hs', -⟩ := h.module hbefore.1
  rw [Tour.scope_turn_of_earlier hs hbefore.2.1, Tour.scope_turn_of_earlier hs' hbefore.2.2]
  have hold : (h.scopes j j').Rel (j + 1) (j' + 1) := .inl (.self hbefore.1)
  obtain ⟨hparent, himports⟩ := Tour.outline_past hs
  refine (halike.scopes.scope hold).transfer (h.structs_of_before hbefore halike)
    (fun x hx => (T.wellTyped_past j).symbols x ⟨_, hx⟩) (fun p hp q hpq => ?_) fun m hm q hmq => ?_
  · rw [hparent] at hp
    cases hp
    exact h.scopes_of_before hbefore T.layout.size_pos hpq
  · rw [himports] at hm
    obtain ⟨k, hfind, hscope, -⟩ := Tour.uses_of_import hs hm
    refine h.scopes_of_before hbefore ?_ hmq
    rw [hscope, T.layout.size]
    exact Nat.succ_lt_succ (nameOf_of_find? hfind).1

theorem alike_struct_of_before {n : Nat} (ha : T.DeclaredIn j a n) (hb : T'.DeclaredIn j' b n) :
    Option.Rel (StructDef.Alike ((h.structs i i').pairing (T.nodes i)))
      ((T.turn i).structs.get? a) ((T'.turn i').structs.get? b) := by
  obtain ⟨_, -, helapsed⟩ := Tour.elapsed hbefore.2.1
  obtain ⟨_, -, helapsed'⟩ := Tour.elapsed hbefore.2.2
  rw [helapsed.structs a ha.2, helapsed'.structs b hb.2]
  have hwell := T.wellTyped_past j
  rcases (halike.structs.get? (.inr ⟨n, ha.1, hb.1⟩)).inv with ⟨hd, hd'⟩ | ⟨d, d', hd, hd', hdd⟩
  · rw [hd, hd']
    exact .none
  · rw [hd, hd']
    refine .some (hdd.transfer (h.structs_of_before hbefore halike) ?_ (hwell.members a d hd))
    rw [hwell.ids a d hd]
    exact ha.2

end before

/-! ### The turns of corresponding modules -/

theorem alike_scope_global (h : Corresponding T T' C) (i i' : Nat) :
    ((T.turn i).scopes.scope 0).Alike (h.scopes i i') ((h.structs i i').pairing (T.nodes i))
      ((T'.turn i').scopes.scope 0) := by
  have hinitial : (ScopeTree.initial.scope 0).Alike (h.scopes i i')
      ((h.structs i i').pairing (T.nodes i)) (ScopeTree.initial.scope 0) :=
    Scope.alike_self (c := .ofConfig config) (fun id hid => absurd hid (Nat.not_lt_zero id)) _
      (fun x hx => (Checker.WellTyped.ofConfig config).symbols x ⟨0, hx⟩) nofun nofun
  have hglobal : Scope.Alike (h.scopes i i') ((h.structs i i').pairing (T.nodes i))
      { (T.turn i).scopes.scope 0 with children := [] }
      { (T'.turn i').scopes.scope 0 with children := [] } := by
    rw [T.scope_turn_global, T'.scope_turn_global]
    exact hinitial
  exact { hglobal with }

section turn

variable (h : Corresponding T T' C) (hc : C i i') (hs : T.resolver.slots[i]? = some s)
  (hbefore : ∀ {j j'}, Before T T' C i i' j j' → h.ComesOutAlike j j')

include h hc hs

theorem alike_scope_self : ((T.turn i).scopes.scope (i + 1)).Alike (h.scopes i i')
      ((h.structs i i').pairing (T.nodes i)) ((T'.turn i').scopes.scope (i' + 1)) := by
  obtain ⟨s', hs', hmodule⟩ := h.symm_module hc hs
  rw [Tour.scope_turn_self hs, Tour.scope_turn_self hs', hmodule]
  refine ⟨.some (.inl .global), rfl, rfl, .nil, ?_, rfl, rfl⟩
  exact (h.alike_imports hc hs).imp fun m m' hmm => ⟨.inl hmm.1, hmm.2⟩

theorem types_turn {id : NodeId} (hid : T.nodes i id) :
    (T.turn i).types.get? id = none ∧ (T'.turn i').types.get? id = none := by
  obtain ⟨s', hs', hmodule⟩ := h.symm_module hc hs
  refine ⟨T.types_turn hid, T'.types_turn ⟨s', hs', ?_⟩⟩
  obtain ⟨t, ht, hmem⟩ := hid
  cases ht.symm.trans hs
  rw [hmodule]
  exact hmem

include hbefore

theorem alike_scopes : (T.turn i).scopes.Alike (h.scopes i i')
    ((h.structs i i').pairing (T.nodes i)) (T'.turn i').scopes := by
  obtain ⟨s', hs', -⟩ := h.symm_module hc hs
  refine ⟨((T.between i).nested i s hs).arena, ((T'.between i').nested i' s' hs').arena,
    ⟨0, rfl, rfl⟩, fun {a b} hab => ?_⟩
  rcases hab with hold | ⟨n, hleft, hright⟩
  · cases hold with
    | global => exact h.alike_scope_global i i'
    | before hold => exact h.alike_scope_of_before hold (hbefore hold)
    | self hc => exact h.alike_scope_self hc hs
  · rw [ScopeTree.scope_of_size_le (hleft ▸ Nat.le_add_right ..),
      ScopeTree.scope_of_size_le (hright ▸ Nat.le_add_right ..)]
    exact ⟨.none, rfl, rfl, .nil, .nil, rfl, rfl⟩

omit hc hs in
theorem alike_structs : (T.turn i).structs.Alike (h.structs i i')
    ((h.structs i i').pairing (T.nodes i)) (T'.turn i').structs := by
  refine ⟨⟨0, rfl, rfl⟩, fun {a b} hab => ?_⟩
  rcases hab with ⟨j, j', n, hold, ha, hb⟩ | ⟨n, hleft, hright⟩
  · exact h.alike_struct_of_before hold (hbefore hold) ha hb
  · have hnone : (T.turn i).structs.get? a = none :=
      Array.getElem?_eq_none (hleft ▸ Nat.le_add_right ..)
    have hnone' : (T'.turn i').structs.get? b = none :=
      Array.getElem?_eq_none (hright ▸ Nat.le_add_right ..)
    rw [hnone, hnone']
    exact .none

/-- When corresponding modules have their turns, the states mirror each other. -/
theorem mirrored_turn : Mirrored (h.scopes i i') (h.structs i i') (T.nodes i)
    (T.turn i).context.findings (T'.turn i').context.findings (moduleStack (i + 1))
    (moduleStack (i' + 1)) ((T.turn i).entered s.module) ((T'.turn i').entered s.module) where
  levels := .cons (.inl (.self hc)) (.cons (.inl .global) .nil)
  nested := by
    have hnested := (T.between i).nested i s hs
    rw [Tour.scope_eq hs] at hnested
    exact hnested.congr rfl (fun _ => rfl) (fun _ => rfl) rfl
  mirror :=
    { scopes := h.alike_scopes hc hs hbefore
      structs := h.alike_structs hbefore
      types := fun {id} hid => by
        obtain ⟨hnone, hnone'⟩ := h.types_turn hc hs hid
        rw [Checker.entered, Checker.entered, hnone, hnone']
        exact .none
      walk := by
        rw [Checker.entered, Checker.entered, (T.between i).walk, (T'.between i').walk]
        exact ⟨.nil, rfl, .none⟩
      context := by
        refine ⟨?_, [], [], by simp [Checker.entered, Context.enter]⟩
        simp [Checker.entered, Context.enter, (T.between i).config, (T'.between i').config] }

end turn

/-- Corresponding modules come out alike. -/
theorem comesOutAlike (h : Corresponding T T' C) (hc : C i i') : h.ComesOutAlike i i' := by
  -- along the first tour; all that comes before in both tours comes before in the first one
  induction hn : (beforeTurn T.events i).length using Nat.strongRecOn generalizing i i' with
  | ind n ih =>
    subst hn
    obtain ⟨s, s', hs, hs', hmodule⟩ := h.module hc
    have hbefore : ∀ {j j'}, Before T T' C i i' j j' → h.ComesOutAlike j j' := by
      intro j j' hj
      obtain ⟨between, hbetween⟩ := Earlier.between hj.2.1
      refine ih _ ?_ hj.1 rfl
      rw [hbetween, List.length_append, List.length_cons]
      omega
    have hturn := h.mirrored_turn hc hs hbefore
    have hstmts := (mirror_lockstep _ _ (T.nodes i) _ _).inStep_stmts s.module.statements
      (fun id hid => ⟨s, hs, Module.mem_nodes_of_mem_statements hid⟩) _ _ hturn
    have hcheck := (hstmts.states.mirror.leaveScope hturn.head).reportLeaks hturn.head
    rw [ComesOutAlike, Tour.past_eq hs, Tour.past_eq hs', hmodule, Tour.scope_eq hs,
      Tour.scope_eq hs']
    exact hcheck

/-- The turns of corresponding modules emit the same diagnostics. -/
theorem emits_eq (h : Corresponding T T' C) (hc : C i i') : T.emits i = T'.emits i' := by
  obtain ⟨new, new', hnew, hnew', hshown⟩ := (h.comesOutAlike hc).context.findings
  rw [Tour.emits_eq_of_findings hnew, Tour.emits_eq_of_findings hnew']
  exact map_toDiagnostic_eq_of_shown hshown

end Corresponding

end Resolver

end Warden

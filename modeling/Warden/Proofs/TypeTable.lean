import Warden.Proofs.Visits.Program

/-!
# The table of types is complete

In the end the table of types holds what each visit came to (`Program.Clean.get?_eq_found`): under
the identity of an expression stands the type that its check returned, and under that of a method's
callee the type of the method. Only the name of an enum or struct before a dot and a number that is
the length of an array are left out. So the later stages, which look types up by identity, find one
for every expression that has a value (`type_table_complete`).
-/

namespace Warden

open CheckM Check Resolver

/-! ### The entries of a trace -/

theorem lookup_entries_eq_none {visits : List Visit} {id : NodeId}
    (h : id ∉ visits.filterMap Visit.id?) : (visits.filterMap Visit.entry?).lookup id = none := by
  rw [List.lookup_eq_none_iff]
  rintro ⟨key, ty⟩ hentry
  obtain ⟨v, hv, hentry⟩ := List.mem_filterMap.mp hentry
  obtain ⟨id', hid, hfound⟩ := Option.bind_eq_some_iff.mp hentry
  obtain ⟨_, -, hkey⟩ := Option.map_eq_some_iff.mp hfound
  cases hkey
  exact bne_iff_ne.mpr fun heq => h (heq ▸ List.mem_filterMap.mpr ⟨v, hv, hid⟩)

/-- Where each expression is visited once, its entry is what that visit came to. -/
theorem lookup_entries {visits : List Visit} (hnodup : (visits.filterMap Visit.id?).Nodup)
    {v : Visit} (hv : v ∈ visits) {id : NodeId} (hid : v.id? = some id) :
    (visits.filterMap Visit.entry?).lookup id = v.found := by
  obtain ⟨before, later, rfl⟩ := List.append_of_mem hv
  rw [List.filterMap_append, List.filterMap_cons_some hid, List.nodup_append] at hnodup
  obtain ⟨-, hlater, hbefore⟩ := hnodup
  have hentry : v.entry? = v.found.map (id, ·) := by rw [Visit.entry?, hid, Option.bind_some]
  have hnone : (before.filterMap Visit.entry?).lookup id = none :=
    lookup_entries_eq_none fun hmem => hbefore _ hmem _ (.head _) rfl
  rw [List.filterMap_append, List.lookup_append, hnone, Option.none_or, List.filterMap_cons, hentry]
  cases v.found with
  | none => exact lookup_entries_eq_none (List.nodup_cons.mp hlater).1
  | some ty => exact List.lookup_cons_self

/-! ### The table of a program -/

namespace Program

variable {p : Program} {config : Config} {m : Module} {v : Visit} {id : NodeId}

/-- The table of types holds what each visit came to. -/
theorem Clean.get?_eq_found (h : p.Clean config) (hnodes : (p.modules.flatMap Module.nodes).Nodup)
    (hv : p.Visits config m v) (hid : v.id? = some id) :
    (p.check config).types.get? id = v.found := by
  obtain ⟨events, i, s, hevents, hs, rfl, hv⟩ := hv
  -- the visits come to each expression of the module once
  have hids : ((s.module.visits s.scope (p.turn config events i)).filterMap Visit.id?).Perm
      s.module.nodes := by
    have hsites := (h.complete hevents hs).sites.filterMap Site.id?
    rw [Module.filterMap_sites, List.filterMap_map] at hsites
    exact hsites
  have hnode : id ∈ s.module.nodes := hids.mem_iff.mp (List.mem_filterMap.mpr ⟨v, hv, hid⟩)
  -- the turn of the module records what its visits come to
  obtain ⟨T, hT, rfl⟩ := Tour.exists_through ⟨h.names, hnodes⟩ hevents
  have hturn : T.turn i = p.turn config T.events i := by rw [Tour.turn, turn, hT.resolver]
  have hslot : T.resolver.slots[i]? = some s := hT.resolver ▸ hs
  have hnone := T.types_turn ⟨s, hslot, hnode⟩
  rw [hturn] at hnone
  have hnodup : ((s.module.visits s.scope (p.turn config T.events i)).reverse.filterMap
      Visit.id?).Nodup := by
    rw [List.filterMap_reverse, List.nodup_reverse]
    refine hids.nodup_iff.mpr ((List.nodup_flatMap.mp hnodes).1 _ ?_)
    rw [← hT.modules]
    exact List.mem_of_getElem? (i := i) (by rw [modules_getElem?, hslot, Option.map_some])
  have hpast : ((s.module.check s.scope).exec (p.turn config T.events i)).types.get? id =
      v.found := by
    have htraced := traced_module s.module s.scope (p.wellTyped_turn config T.events i)
    rw [TypeTable.get?, htraced.types, ← List.filterMap_reverse, List.lookup_append,
      lookup_entries hnodup (List.mem_reverse.mpr hv) hid]
    rw [TypeTable.get?] at hnone
    rw [hnone, Option.or_none]
  -- the other modules have other expressions
  obtain ⟨later, hnot, hend⟩ := hevents.exists_later hs
  rw [hend, ← hpast, ← hT.resolver, ← hturn, ← Tour.past_eq hslot]
  refine (Elapsed.events T.layout ((T.between i).perform T.layout (.check i)) later).types _ ?_
  intro slot hchecked t ht
  exact T.disjoint hslot ht (fun heq => hnot (heq ▸ hchecked)) _ hnode

end Program

/-- The table of types holds what later stages need to know about the visited part: the type that
was returned for an expression, and the type of a called method. A name that stands for a type has
no entry, and neither has a length that is written as a number. -/
def Visit.TabledIn (types : TypeTable) (v : Visit) : Prop :=
  match v.part with
  | .value _ e => ∃ ty, (e.check v.scope).eval v.state = some ty ∧ types.get? e.id = some ty
  | .callee e receiver => ∃ member params ret,
    (Check.calledMember e receiver v.scope).eval v.state = some member ∧
      member.ty = .function params ret ∧ types.get? e.id = some member.ty
  | .name e => (Check.namedSymbol? v.state e v.scope).any (·.isType) = true ∧
    types.get? e.id = none
  | .length e => (∃ n, e.kind = .int n) ∧ types.get? e.id = none
  | .type _ => True

theorem Visit.Settled.tabledIn {v : Visit} (h : v.Settled) {types : TypeTable}
    (htypes : ∀ id, v.id? = some id → types.get? id = v.found) : v.TabledIn types := by
  obtain ⟨part, scope, state⟩ := v
  cases part with
  | value role e =>
    obtain ⟨ty, hty⟩ := Option.isSome_iff_exists.mp h
    exact ⟨ty, hty, (htypes _ rfl).trans hty⟩
  | callee e receiver =>
    obtain ⟨member, params, ret, hmember, hfunction⟩ := h
    refine ⟨member, params, ret, hmember, hfunction, (htypes _ rfl).trans ?_⟩
    exact congrArg (Option.map _) hmember
  | name e => exact ⟨h, htypes _ rfl⟩
  | length e => exact ⟨h, htypes _ rfl⟩
  | type t => trivial

/-- **The table of types is complete.** Take a program whose expressions have different identities,
and whose check finds no error but what is freed twice or used after it was freed. Every expression
of every module is visited by the check, in whatever place it stands. For each visit the table holds
the type that the check returned there, or the type of the method that is called; the only visits
without an entry are those of an enum's or struct's name before a dot and of a number that is the
length of an array. -/
theorem type_table_complete (config : Config) {p : Program}
    (hnodes : (p.modules.flatMap Module.nodes).Nodup) (hclean : p.Clean config) :
    (∀ m ∈ p.modules, ∀ site ∈ m.sites, ∃ v, p.Visits config m v ∧ v.site = site) ∧
      ∀ m v, p.Visits config m v → v.TabledIn (p.check config).types := by
  refine ⟨fun m hm site hsite => hclean.exists_visits hm hsite, fun m v hv => ?_⟩
  exact (hclean.settled hv).tabledIn fun id hid => hclean.get?_eq_found hnodes hv hid

/-- An enum and a struct whose names stand before a dot, a call of a method, and an array with a
written length. -/
def palette : Module :=
  { name := "palette"
    body :=
      [⟨{}, .enum { name := "Colour", members := ["red"] }⟩,
        ⟨{}, .struct ⟨"Mix", false, [],
          [⟨{}, ⟨"parts", [], .named {} none "int", ⟨{}, [⟨{}, .ret (some ⟨1, {}, .int 2⟩)⟩]⟩,
            false, false, false⟩⟩]⟩⟩,
        ⟨{}, .var { name := "hue", value := some ⟨3, {}, .member ⟨2, {}, .ident "Colour"⟩ "red"⟩ }⟩,
        ⟨{}, .var {
          name := "count"
          value := some ⟨6, {}, .call ⟨5, {}, .member ⟨4, {}, .ident "Mix"⟩ "parts"⟩ []⟩ }⟩,
        ⟨{}, .var { name := "shades"
                    ty := some (.array {} (.named {} none "int") (some ⟨7, {}, .int 1⟩))
                    value := some ⟨9, {}, .arrayLit [⟨8, {}, .ident "count"⟩]⟩ }⟩] }

/-- In the module `palette`, only the names `Colour` and `Mix` and the length of the array have no
entry. -/
theorem type_table_palette :
    let p : Program := { modules := [palette] }
    (p.modules.flatMap Module.nodes).Nodup ∧ p.Clean {} ∧
      (∀ m ∈ p.modules, ∀ site ∈ m.sites, ∃ v, p.Visits {} m v ∧ v.site = site) ∧
      (∀ m v, p.Visits {} m v → v.TabledIn (p.check {}).types) ∧
      [1, 3, 5, 6, 8, 9].map (p.check {}).types.get? =
        [some .int, some (.basic "Colour"), some (.function [] .int), some .int, some .int,
          some (.array .int (some (.literal 1)))] ∧
      [2, 4, 7].map (p.check {}).types.get? = [none, none, none] := by
  have hnodes : ([palette].flatMap Module.nodes).Nodup := by decide
  have hclean : Program.Clean { modules := [palette] } {} := by
    unfold Program.Clean
    decide +kernel
  have hmain := type_table_complete {} hnodes hclean
  exact ⟨hnodes, hclean, hmain.1, hmain.2, by decide +kernel, by decide +kernel⟩

end Warden

import Warden.Proofs.Resolution.Locality
import Warden.Proofs.Visits.Stmt

/-!
# The visits of a program

Each module of a program has its turn, and its visits are those of its statements from the state in
which its turn comes (`Program.Visits`). They are in scopes of that module (`Program.Visits.owner`).

If the check finds no fault (`Program.Clean`), no name is given to two modules, so that all of them
are registered. Then every site of every module is visited (`Program.Clean.exists_visits`), and
each visit comes to what it is for (`Program.Clean.settled`).
-/

namespace Warden

open CheckM Check Resolver

/-! ### Modules -/

theorem stmtSites_filter (ss : List Stmt) : stmtSites (ss.filter (!·.isImport)) = stmtSites ss := by
  induction ss with
  | nil => rfl
  | cons s ss ih =>
    rw [List.filter_cons]
    split
    · rw [stmtSites, stmtSites, ih]
    · -- an import has no expressions
      obtain ⟨span, kind⟩ := s
      cases kind <;> simp_all [Stmt.isImport, stmtSites, Stmt.sites]

theorem idle_enter (m : Module) :
    Idle (modify fun c : Checker => { c with context := c.context.enter m }) :=
  .ofModify (fun _ => .of_eq rfl rfl rfl) fun _ => rfl

theorem traced_module (m : Module) (scope : ScopeId) {c : Checker} (h : c.WellTyped) :
    Traced c scope m.sites (m.visits scope c) (m.check scope) := by
  have hwell : (c.entered m).WellTyped := h.setContext _
  have henter : Judged c c (modify fun c : Checker => { c with context := c.context.enter m })
      (fun _ => False) fun _ _ => True :=
    ⟨(Account.refl h).quiet hwell rfl, .one (.enter m), trivial⟩
  refine .first (idle_enter m) henter fun h => ?_
  have hstmts := (walked_stmts scope m.statements _).traced h
  rw [Module.statements, stmtSites_filter] at hstmts
  refine hstmts.last ((Idle.memory (.leaveScope scope)).bind fun _ => ?_)
  exact .memory (.reportLeaks scope)

/-! ### Events -/

namespace Resolver

variable {r : Resolver} {c : Checker}

theorem later_perform (hwell : c.WellTyped) (e : Event) : Later c (r.perform c e) := by
  cases e with
  | check i =>
    rw [perform]
    split
    · exact .refl c
    next s _ => exact (traced_module s.module s.scope hwell).later
  | cycle path user used span =>
    rw [perform]
    split
    · exact .refl c
    next s _ => exact ((idle_enter s.module).later c).trans ((Idle.report _ span).later _)

theorem later_events (hwell : c.WellTyped) (events : List Event) :
    Later c (events.foldl r.perform c) := by
  induction events generalizing c with
  | nil => exact .refl c
  | cons e events ih =>
    have hnext := Checker.WellTyped.moduleInvariant.perform r hwell e
    exact (later_perform hwell e).trans (ih hnext)

end Resolver

/-! ### What has been found -/

/-- What has been found once is there in the end. -/
theorem found_moduleInvariant (f : Finding) : ModuleInvariant fun c => f ∈ c.context.findings where
  enter _ h := h
  report _ _ h := List.mem_append_left _ h
  addModule h _ := h
  addImport h _ := h
  check m scope _ h := by
    rw [(m.findings_check scope _).1]
    exact List.mem_append_left _ h

/-- Registering two modules of one name is a fault. -/
theorem nodup_of_registerAll (ms : List Module) {r : Resolver} (h : Prepared r)
    (hclean : ∀ f ∈ (ResolveM.exec (registerAll ms) r).checker.context.findings,
      f.isFault = false) : (r.names ++ ms.map (·.name)).Nodup := by
  induction ms generalizing r with
  | nil =>
    rw [List.map_nil, List.append_nil]
    exact h.nodup
  | cons m ms ih =>
    have hrest := ih (h.register m) hclean
    rcases register_cases h m with ⟨-, scopes, -, hexec⟩ | ⟨-, hexec⟩
    · rw [hexec, names_push] at hrest
      rw [List.map_cons, List.append_cons]
      exact hrest
    · let f : Finding := m.finding (.duplicateModule m.name) m.span
      have hfound : f ∈ (ResolveM.exec (register m) r).checker.context.findings := by
        rw [hexec]
        exact List.mem_append_right _ (.head _)
      have hkept := (found_moduleInvariant f).registerAll ms hfound
      have hfault : f.isFault = true := rfl
      exact absurd (hclean f hkept) (by rw [hfault]; decide)

namespace Program

variable {p : Program} {config : Config} {events : List Event} {i : Nat} {s : Slot} {m : Module}
  {v : Visit}

/-- The check of the program finds no fault, but perhaps something freed twice or used after it was
freed. -/
def Clean (p : Program) (config : Config) : Prop :=
  ∀ f ∈ (p.check config).context.findings, f.isFault = false

/-- The state in which the module of a slot has its turn. -/
def turn (p : Program) (config : Config) (events : List Event) (i : Nat) : Checker :=
  let r := (Checker.ofConfig config).linked p
  (beforeTurn events i).foldl r.perform r.checker

/-- While the program is checked, the check of the module makes this visit. -/
def Visits (p : Program) (config : Config) (m : Module) (v : Visit) : Prop :=
  ∃ events i, ∃ s : Slot, p.IsCourse config events ∧
    ((Checker.ofConfig config).linked p).slots[i]? = some s ∧ s.module = m ∧
      v ∈ m.visits s.scope (p.turn config events i)

/-! ### Turns -/

/-- What comes after the turn of a module. -/
theorem IsCourse.exists_later (h : p.IsCourse config events)
    (hs : ((Checker.ofConfig config).linked p).slots[i]? = some s) :
    ∃ later, i ∉ checkedIn later ∧ p.check config =
      later.foldl ((Checker.ofConfig config).linked p).perform
        ((s.module.check s.scope).exec (p.turn config events i)) := by
  obtain ⟨later, hlater⟩ := exists_turn (h.all i (Array.getElem?_eq_some_iff.mp hs).1)
  refine ⟨later, ?_, ?_⟩
  · have hnodup := (List.nodup_append.mp h.course.nodup).1
    rw [hlater, checkedIn_append] at hnodup
    have hchecked : (i :: checkedIn later).Nodup := (List.nodup_append.mp hnodup).2.1
    exact (List.nodup_cons.mp hchecked).1
  · have hend : p.check config =
        (((Checker.ofConfig config).linked p).after events []).checker :=
      congrArg Resolver.checker h.ends
    rw [hend, after, hlater, List.foldl_append, List.foldl_cons, ← hlater, Resolver.perform, hs]
    rfl

theorem wellTyped_linked (p : Program) (config : Config) :
    ((Checker.ofConfig config).linked p).checker.WellTyped :=
  Checker.linked_invariant Checker.WellTyped.moduleInvariant (.ofConfig config) p

theorem wellTyped_turn (p : Program) (config : Config) (events : List Event) (i : Nat) :
    (p.turn config events i).WellTyped :=
  Checker.WellTyped.moduleInvariant.events _ (p.wellTyped_linked config) _

/-- The scopes that modules are checked in belong to them. -/
theorem owningModule?_linked (hs : ((Checker.ofConfig config).linked p).slots[i]? = some s) :
    ((Checker.ofConfig config).linked p).checker.scopes.owningModule? s.scope =
      some s.module.name := by
  obtain ⟨hlayout, -⟩ := Checker.layout_linked config p
  refine ScopeTree.owningModule?_of_owner ?_
  rw [(hlayout.slot i s hs).1, hlayout.module i s hs]
  rfl

/-- The visits of a module are in scopes of the module. -/
theorem Visits.owner (h : p.Visits config m v) :
    v.state.scopes.owningModule? v.scope = some m.name := by
  obtain ⟨events, i, s, -, hs, rfl, hv⟩ := h
  have htraced := traced_module s.module s.scope (p.wellTyped_turn config events i)
  have hlater : Later ((Checker.ofConfig config).linked p).checker (p.turn config events i) :=
    later_events (wellTyped_linked p config) _
  exact (htraced.during v hv).owner (hlater.owner (owningModule?_linked hs))

/-! ### Programs without faults -/

namespace Clean

variable (h : p.Clean config)

include h

theorem names : (p.modules.map (·.name)).Nodup := by
  refine nodup_of_registerAll (r := { checker := .ofConfig config }) p.modules (.ofConfig config)
    fun f hf => h f ?_
  -- what is found while the modules are registered is there in the end
  obtain ⟨events, hevents⟩ := p.exists_isCourse config
  have hlinked : f ∈ ((Checker.ofConfig config).linked p).checker.context.findings := by
    rw [(Checker.layout_linked config p).2]
    exact List.mem_append_left _ hf
  have hfinal :=
    (found_moduleInvariant f).events ((Checker.ofConfig config).linked p) hlinked events
  have hend : p.check config = (((Checker.ofConfig config).linked p).after events []).checker :=
    congrArg Resolver.checker hevents.ends
  rw [hend]
  exact hfinal

/-- The turn of a module finds no fault. -/
theorem noFault (hevents : p.IsCourse config events)
    (hs : ((Checker.ofConfig config).linked p).slots[i]? = some s) :
    NoFault (p.turn config events i)
      ((s.module.check s.scope).exec (p.turn config events i)) := by
  obtain ⟨later, -, hend⟩ := hevents.exists_later hs
  intro new hnew f hf
  refine h f ?_
  rw [hend]
  refine (found_moduleInvariant f).events _ ?_ later
  rw [hnew]
  exact List.mem_append_right _ hf

theorem complete (hevents : p.IsCourse config events)
    (hs : ((Checker.ofConfig config).linked p).slots[i]? = some s) :
    Complete (s.module.visits s.scope (p.turn config events i)) s.module.sites :=
  (traced_module s.module s.scope (p.wellTyped_turn config events i)).complete
    (h.noFault hevents hs)

/-- Each visit comes to what it is for. -/
theorem settled (hv : p.Visits config m v) : v.Settled := by
  obtain ⟨events, i, s, hevents, hs, rfl, hv⟩ := hv
  exact (h.complete hevents hs).settled v hv

/-- All modules have a slot. -/
theorem exists_slot (hm : m ∈ p.modules) : ∃ (i : Nat) (s : Slot),
      ((Checker.ofConfig config).linked p).slots[i]? = some s ∧ s.module = m := by
  rw [← modules_linked h.names config] at hm
  obtain ⟨i, hi⟩ := List.getElem?_of_mem hm
  rw [modules_getElem?] at hi
  obtain ⟨s, hs, rfl⟩ := Option.map_eq_some_iff.mp hi
  exact ⟨i, s, hs, rfl⟩

/-- Every site of every module is visited. -/
theorem exists_visits (hm : m ∈ p.modules) {site : Site} (hsite : site ∈ m.sites) :
    ∃ v, p.Visits config m v ∧ v.site = site := by
  obtain ⟨i, s, hs, rfl⟩ := h.exists_slot hm
  obtain ⟨events, hevents⟩ := p.exists_isCourse config
  have hmem := (h.complete hevents hs).sites.mem_iff.mpr hsite
  obtain ⟨v, hv, hvisit⟩ := List.mem_map.mp hmem
  exact ⟨v, ⟨events, i, s, hevents, hs, rfl, hv⟩, hvisit⟩

end Clean

end Program

end Warden

import Warden.Proofs.Journal.Course
import Warden.Proofs.Journal.Stmt

/-!
# Calls of `free` that wait

A call of `free` that waits for the end of a scope is neither lost nor carried out twice: what has
been carried out from a scope is what was queued there, in the same order, and in the end no queue
holds anything (`deferred_frees_run_once`).

For one module this is what its journal says. Modules are checked one after the other, each in a
scope of its own, and each leaves no queue behind for the next one (`Drained`).
-/

namespace Warden

open CheckM Check

variable {scope : ScopeId} {c : Checker}

/-! ### Modules, one after the other -/

/-- After these entries nothing waits. The scopes that they are about belong to the past. -/
structure Drained (past : ScopeId → Prop) (c : Checker) (entries : List Entry) : Prop where
  empty : ∀ i, (c.scopes.scope i).deferred = []
  applied : ∀ i, appliedFrom i entries = queuedOn i entries
  uses : ∀ x ∈ entries, ∀ i, x.Uses i → i < c.scopes.size ∧ past i
  leaks : ∀ o, .leaks o ∈ entries → o < c.scopes.size ∧ past o
  ordered : entries.Pairwise Entry.Precedes
  owned : ∀ e, .left e ∈ entries → ∃ o, e.owner? = some o ∧ .leaks o ∈ entries

namespace Drained

variable {past past' : ScopeId → Prop} {c d : Checker} {entries entries' : List Entry}

theorem start (h : ∀ i, (c.scopes.scope i).deferred = []) : Drained past c [] :=
  ⟨h, fun _ => rfl, by simp, by simp, .nil, by simp⟩

variable (h : Drained past c entries)

include h

theorem congr (hscopes : d.scopes = c.scopes) (hpast : ∀ i, past i → past' i) :
    Drained past' d entries where
  __ := h
  empty := hscopes ▸ h.empty
  uses x hx i hi := ⟨hscopes ▸ (h.uses x hx i hi).1, hpast i (h.uses x hx i hi).2⟩
  leaks o ho := ⟨hscopes ▸ (h.leaks o ho).1, hpast o (h.leaks o ho).2⟩

/-- Entries that are about none of the past scopes. -/
theorem append (h' : Drained past' d entries') (hsize : c.scopes.size ≤ d.scopes.size)
    (hpast : ∀ i, past i → past' i)
    (hnew : ∀ y ∈ entries', ∀ i, y.Uses i → past i → c.scopes.size ≤ i)
    (hleaks : ∀ o, .leaks o ∈ entries' → past o → c.scopes.size ≤ o) :
    Drained past' d (entries ++ entries') := by
  refine ⟨h'.empty, fun i => ?_, fun x hx i hi => ?_, fun o ho => ?_, ?_, fun s hs => ?_⟩
  · rw [appliedFrom_append, queuedOn_append, h.applied, h'.applied]
  · rcases List.mem_append.mp hx with hx | hx
    · obtain ⟨hlt, hi⟩ := h.uses x hx i hi
      exact ⟨Nat.lt_of_lt_of_le hlt hsize, hpast i hi⟩
    · exact h'.uses x hx i hi
  · rcases List.mem_append.mp ho with ho | ho
    · obtain ⟨hlt, hi⟩ := h.leaks o ho
      exact ⟨Nat.lt_of_lt_of_le hlt hsize, hpast o hi⟩
    · exact h'.leaks o ho
  · refine List.pairwise_append.mpr ⟨h.ordered, h'.ordered, fun x hx y hy => ?_⟩
    refine Entry.precedes_of ?_ ?_
    · rintro s rfl huse
      obtain ⟨hlt, hold⟩ := h.uses _ hx s.scope rfl
      exact Nat.not_lt.mpr (hnew y hy s.scope huse hold) hlt
    · rintro o s rfl rfl hs
      obtain ⟨o', ho', hin⟩ := h'.owned s hy
      cases hs.symm.trans ho'
      obtain ⟨hlt, hold⟩ := h.leaks o hx
      exact Nat.not_lt.mpr (hleaks o hin hold) hlt
  · rcases List.mem_append.mp hs with hs | hs
    · obtain ⟨o, ho, hin⟩ := h.owned s hs
      exact ⟨o, ho, List.mem_append_left _ hin⟩
    · obtain ⟨o, ho, hin⟩ := h'.owned s hs
      exact ⟨o, ho, List.mem_append_right _ hin⟩

end Drained

/-- A module is checked in a state in which nothing waits, and afterwards nothing does. -/
theorem Module.drained (m : Module) (hc : InPlace scope c)
    (howner : c.scopes.ledgerOwner? scope = some scope) (htarget : c.walk.deferTarget = none)
    (hempty : ∀ i, (c.scopes.scope i).deferred = []) :
    Drained (fun i => i = scope ∨ c.scopes.size ≤ i) ((m.check scope).exec c)
      (m.journal scope c) ∧ c.scopes.size ≤ ((m.check scope).exec c).scopes.size := by
  have hin : InPlace scope (c.entered m) := ⟨hc.arena, hc.bound, hc.target, hc.owned⟩
  have h := (journal_stmts scope [] m.statements (c.entered m)).chronicled hin
  rw [m.exec_check, Checker.leftModule, m.journal_eq]
  generalize (checkStmts scope m.statements).exec (c.entered m) = d at h
  generalize stmtJournal scope [] m.statements (c.entered m) = entries at h
  have hsize : ((d.leaveScope scope).reportLeaks scope).scopes.size = d.scopes.size :=
    (Plain.leaveBody scope d).size
  have hbound := Nat.lt_of_lt_of_le hc.bound h.scopes.size
  have huses : ∀ x ∈ entries, ∀ i, x.Uses i → i = scope ∨ c.scopes.size ≤ i := by
    intro x hx i hi
    rcases h.reach.uses x hx i hi with hscope | hdefer | ⟨hge, -⟩
    · exact .inl hscope
    · rw [show (c.entered m).walk.deferTarget = none from htarget] at hdefer
      cases hdefer
    · exact .inr hge
  have hqueued : ∀ i, i ≠ scope → i < c.scopes.size → queuedOn i entries = [] := by
    intro i hne hlt
    refine queuedOn_eq_nil fun x hx hi => ?_
    exact (huses x hx i hi).elim hne (Nat.not_le.mpr hlt)
  refine ⟨⟨fun i => ?_, fun i => ?_, fun x hx i hi => ?_, fun o ho => ?_,
    h.pairwise_end hin (some {}), fun s hs => ?_⟩, hsize ▸ h.scopes.size⟩
  · rw [Checker.scopes_reportLeaks, Checker.deferred_leaveScope]
    split
    · rfl
    next hne =>
      rcases Nat.lt_or_ge i c.scopes.size with hlt | hge
      · rw [h.queues i hlt, hqueued i hne hlt, List.append_nil]
        exact hempty i
      · exact h.drained i hge
  · rw [queuedOn_append, queuedOn_endOfScope, List.append_nil]
    by_cases heq : i = scope
    · subst heq
      have hstart : ((c.entered m).scopes.scope i).deferred = [] := hempty i
      rw [h.appliedFrom_end hin, hstart, List.nil_append]
    · rw [Chronicled.appliedFrom_end_of_ne heq]
      rcases Nat.lt_or_ge i c.scopes.size with hlt | hge
      · rw [hqueued i heq hlt]
        exact appliedFrom_eq_nil fun s hs hsi => Nat.not_lt.mpr (h.reach.left s hs) (hsi ▸ hlt)
      · exact h.applied i hge
  · rw [hsize]
    rcases List.mem_append.mp hx with hx | hx
    · exact ⟨h.reach.lt_size hin h.scopes.size hx hi, huses x hx i hi⟩
    · cases eq_of_uses_endOfScope hx hi
      exact ⟨hbound, .inl rfl⟩
  · rw [hsize]
    rcases List.mem_append.mp ho with ho | ho
    · exact ⟨(h.reach.leaks o ho).2, .inr (h.reach.leaks o ho).1⟩
    · obtain ⟨-, rfl⟩ := leaks_mem_endOfScope.mp ho
      exact ⟨hbound, .inl rfl⟩
  · obtain ⟨o, ho, hleaks | hthere⟩ := h.owned_end hin (some {}) hs
    · exact ⟨o, ho, List.mem_append_left _ hleaks⟩
    · cases howner.symm.trans hthere
      exact ⟨scope, ho, List.mem_append_right _ (leaks_mem_endOfScope.mpr ⟨rfl, rfl⟩)⟩

/-- The scope of a module belongs to itself. -/
theorem Nested.ledgerOwner?_module (h : Nested (moduleStack scope) c) :
    c.scopes.ledgerOwner? scope = some scope := by
  have hledger : (c.scopes.scope scope).ledger.isSome = true := h.owner _ (List.mem_cons_self ..)
  rw [ScopeTree.ledgerOwner?, h.arena.ancestors_eq, List.find?_cons, hledger]

namespace Resolver

/-- The scopes of modules that have been checked, and all that have been added on the way. -/
def Past (r : Resolver) (checked : List Nat) (i : ScopeId) : Prop :=
  (∃ slot ∈ checked, i = slot + 1) ∨ r.checker.scopes.size ≤ i

variable {config : Config} {linkageOf : Nat → Linkage} {r : Resolver} {checked : List Nat}

/-- Before the tour nothing waits. -/
theorem deferred_start (h : Layout config linkageOf r) (i : ScopeId) :
    (r.checker.scopes.scope i).deferred = [] := by
  rcases h.cases_scope i with rfl | ⟨slot, s, hs, rfl⟩ | hge
  · have hglobal := congrArg Scope.deferred h.global
    exact hglobal
  · rw [h.module slot s hs]
    rfl
  · rw [ScopeTree.scope_of_size_le hge]

theorem drainedInvariant (hlayout : Layout config linkageOf r) :
    CourseInvariant config r fun checked => Drained (r.Past checked) where
  start := .start (deferred_start hlayout)
  check {checked c entries i s} hbetween hs hnew h := by
    have hnested := hbetween.nested i s hs
    have hscope := (hlayout.slot i s hs).1
    have htarget : c.walk.deferTarget = none := by rw [hbetween.walk]
    have howner := hnested.ledgerOwner?_module
    have hplace : InPlace s.scope c :=
      ⟨hnested.arena, hnested.scope_lt, by simp [htarget], _, howner⟩
    obtain ⟨hmodule, hsize⟩ := s.module.drained hplace howner htarget h.empty
    -- the scope of this module is none of those that were checked before
    have hfresh : ¬r.Past checked s.scope := by
      rintro (⟨slot, hslot, heq⟩ | hge)
      · exact hnew (Nat.succ.inj (heq.symm.trans hscope) ▸ hslot)
      · exact Nat.not_lt.mpr hge (hlayout.scope_lt hs)
    have hpast : ∀ j, (j = s.scope ∨ c.scopes.size ≤ j) → r.Past (checked ++ [i]) j := by
      rintro j (rfl | hge)
      · exact .inl ⟨i, List.mem_append_right _ (.head _), hscope⟩
      · exact .inr (Nat.le_trans hbetween.size hge)
    refine h.append (hmodule.congr rfl hpast) hsize (fun j hj => hj.imp_left ?_) ?_ ?_
    · exact Exists.imp fun slot => And.imp_left (List.mem_append_left _)
    · intro y hy j hj hold
      exact (hmodule.uses y hy j hj).2.resolve_left fun heq => hfresh (heq ▸ hold)
    · intro o ho hold
      exact (hmodule.leaks o ho).2.resolve_left fun heq => hfresh (heq ▸ hold)
  cycle _ _ _ _ _ h := h.congr rfl fun _ hi => hi

end Resolver

/-- The state after a course is drained, with the journal of the course. -/
theorem Program.IsCourse.drained {p : Program} {config : Config} {events : List Resolver.Event}
    (h : p.IsCourse config events) : let r := (Checker.ofConfig config).linked p
    Drained (r.Past (Resolver.checkedIn events)) (p.check config) (r.journal r.checker events) :=
  h.keeps (Resolver.drainedInvariant (Checker.layout_linked config p).1)

end Warden

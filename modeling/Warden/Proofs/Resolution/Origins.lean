import Warden.Proofs.Resolution.Locality

/-!
# What imports and findings go back to

Before the tour, modules that repeat a name are reported, and each module reports the imports that
it is refused. The tour adds what the checks of modules find, and the cycles that it comes across.
Nothing that is found is lost, and no check touches the imports of a module.

So every import is accounted for when a program has been resolved
(`every_import_is_accounted_for`), and every finding is filed under the module that it is about,
whatever other modules have been checked in between (`diagnostics_point_into_their_module`).
-/

namespace Warden

open Resolver Checker

/-- Whether an import is refused. -/
def Cause.isRefusal : Cause → Bool
  | .localNameTaken .. | .moduleNotFound .. => true
  | _ => false

theorem ImportLog.isRefusal_of_mem_reports {log : ImportLog} {x : Cause × Span}
    (h : x ∈ log.reports) : x.1.isRefusal = true := by
  rcases cases_of_mem_reports h with ⟨name, hcause⟩ | ⟨name, hcause⟩ <;>
    rw [hcause, Cause.isRefusal]

theorem Finding.isLinking_of_isFromCheck {f : Finding} (h : f.isFromCheck = true) :
    f.cause.isLinking = false := by
  obtain ⟨cause, span, filePath, lineText⟩ := f
  cases cause <;> first | rfl | cases h

theorem Cause.isRefusal_of_isLinking {cause : Cause} (h : cause.isLinking = false) :
    cause.isRefusal = false := by
  cases cause <;> first | rfl | cases h

namespace Checker

variable (config : Config) (p : Program)

/-- The names of modules that can be imported are those of the program. -/
theorem isSome_moduleScope?_linked (name : String) :
    (((ofConfig config).linked p).checker.scopes.moduleScope? name).isSome = true ↔
      name ∈ p.modules.map (·.name) := by
  rw [moduleScope?_isSome, (prepared_linked config p).registry,
    (firstOfEachName_linked config p).mem_names]

/-- The modules that are registered are modules of the program. -/
theorem mem_modules_of_linked {m : Module} (h : m ∈ ((ofConfig config).linked p).modules) :
    m ∈ p.modules := by
  have hnodup := (prepared_linked config p).nodup
  have hfirst := firstOfEachName_linked config p m.name
  generalize (ofConfig config).linked p = r at *
  have hfind : r.modules.find? (·.name == m.name) = some m :=
    (Program.module?_eq_some_iff (p := ⟨r.modules⟩) hnodup).mpr ⟨h, rfl⟩
  rw [hfind] at hfirst
  exact List.mem_of_find?_eq_some hfirst.symm

end Checker

/-- **Every import is accounted for.** When a program has been resolved, each import that a module
has asked for was bound, or its name had been taken by an earlier one that was bound, or the program
has no module that it asks for. The imports of the module are those that were bound, under different
names; the module is noted to use each of their targets once, in the order and at the place of the
first import of it; and what was refused has been reported, and nothing else of this kind. -/
theorem every_import_is_accounted_for (p : Program) (config : Config) :
    let r := (Checker.ofConfig config).resolve p
    ∃ log : Module → ImportLog,
      (∀ s ∈ r.slots, (log s.module).map (·.1) = s.module.requests ∧
        (log s.module).Correct (· ∈ p.modules.map (·.name)) ∧
        (log s.module).Yields r.checker.scopes.moduleScope?
          ⟨(r.checker.scopes.scope s.scope).imports, s.uses, (log s.module).reports⟩) ∧
      r.checker.context.findings.filter (·.cause.isRefusal) =
        r.modules.flatMap fun m => (log m).reports.map fun x => m.finding x.1 x.2 := by
  obtain ⟨events, -, hresolve, -, -⟩ := Checker.exists_course_resolve config p
  obtain ⟨hlayout, hfindings⟩ := Checker.layout_linked config p
  have hknown := funext fun name => propext (Checker.isSome_moduleScope?_linked config p name)
  have hrepeats := Checker.repeats_registered config p
  have hend := (Between.start hlayout).events hlayout events
  rw [hresolve]
  generalize (Checker.ofConfig config).linked p = r at *
  choose log hrequests hcorrect hyields using
    fun m : Module => m.exists_log r.checker.scopes.moduleScope?
  rw [hknown] at hcorrect
  refine ⟨log, fun s hs => ⟨hrequests _, hcorrect _, ?_⟩, ?_⟩
  · obtain ⟨i, s, hi, rfl⟩ := mem_slots_after hs
    obtain ⟨hscope, huses⟩ := hlayout.slot i s hi
    have hlinkage : r.linkageAt i = s.module.linkage r.checker.scopes.moduleScope? := by
      simp [linkageAt, modules_getElem?, hi]
    have hregistry : (r.after events []).checker.scopes.moduleScope? =
        r.checker.scopes.moduleScope? := by
      funext name
      exact congrArg (List.lookup name) hend.modules
    have himports : ((r.after events []).checker.scopes.scope s.scope).imports =
        (r.linkageAt i).imports := by
      refine (congrArg Scope.imports (hend.outline s.scope (hlayout.scope_lt hi))).trans ?_
      rw [Scope.outline, hscope, hlayout.module i s hi]
    rw [hregistry, himports, huses, hlinkage, ← (hyields s.module).reports]
    exact hyields s.module
  · obtain ⟨new, hnew, hmade⟩ := findings_foldl r events r.checker
    have hlinks : r.linkFindings = fun m => (log m).reports.map fun x => m.finding x.1 x.2 := by
      funext m
      rw [linkFindings, (hyields m).reports]
    have hearlier : ∀ f ∈ ((Checker.ofConfig config).registered p).checker.context.findings,
        ¬f.cause.isRefusal = true := by
      intro f hf
      obtain ⟨_, m, _, -, -, rfl⟩ := hrepeats f hf
      exact Bool.false_ne_true
    have hall : ∀ f ∈ r.modules.flatMap r.linkFindings, f.cause.isRefusal = true := by
      intro f hf
      obtain ⟨m, -, hm⟩ := List.mem_flatMap.mp hf
      rw [hlinks] at hm
      obtain ⟨x, hx, rfl⟩ := List.mem_map.mp hm
      exact ImportLog.isRefusal_of_mem_reports hx
    have hlater : ∀ f ∈ new, ¬f.cause.isRefusal = true := by
      intro f hf
      obtain ⟨_, _, _, _, -, hm⟩ := hmade f hf
      cases hm with
      | check _ hf =>
        have hcheck := (Module.findings_check _ _ _).2 f hf
        rw [Cause.isRefusal_of_isLinking (Finding.isLinking_of_isFromCheck hcheck)]
        exact Bool.false_ne_true
      | cycle => exact Bool.false_ne_true
    have hsplit : (r.after events []).checker.context.findings =
      ((Checker.ofConfig config).registered p).checker.context.findings ++
        r.modules.flatMap r.linkFindings ++ new := hfindings ▸ hnew
    rw [hsplit, List.filter_append, List.filter_append, List.filter_eq_nil_iff.mpr hearlier,
      List.filter_eq_self.mpr hall, List.filter_eq_nil_iff.mpr hlater, modules_after, hlinks,
      List.nil_append, List.append_nil]

/-! ### Findings and modules -/

/-- The module in which a finding has been made while a program was checked, by what it is about. A
module repeats the name of an earlier one. An import is refused when its module is linked. An import
that closes a cycle stands in the module. All else is found while the module is checked. -/
def Finding.ArisesIn (p : Program) (config : Config) (m : Module) (f : Finding) : Prop :=
  let r := (Checker.ofConfig config).linked p
  match f.cause with
  | .duplicateModule name => name = m.name ∧ f.span = m.span ∧
    ∃ earlier later, p.modules = earlier ++ m :: later ∧ m.name ∈ earlier.map (·.name)
  | .localNameTaken _ | .moduleNotFound _ => m ∈ r.modules ∧
    (f.cause, f.span) ∈ (m.linkage r.checker.scopes.moduleScope?).reports
  | .circularDependency _ user used => m ∈ r.modules ∧ user = m.name ∧ m.ImportsAt (used, f.span)
  | _ => ∃ events before slot later s, p.IsCourse config events ∧
    events = before ++ .check slot :: later ∧ r.slots[slot]? = some s ∧ s.module = m ∧
      f ∈ (m.check s.scope).emitted (before.foldl r.perform r.checker)

namespace Finding.ArisesIn

variable {p : Program} {config : Config} {f : Finding}

theorem ofRepeats (h : f.Repeats p.modules) :
    ∃ m ∈ p.modules, m.Shows f.toDiagnostic ∧ f.ArisesIn p config m := by
  obtain ⟨earlier, m, later, hmodules, hname, rfl⟩ := h
  have hm : m ∈ p.modules := hmodules ▸ List.mem_append_right _ (.head _)
  exact ⟨m, hm, m.shows_finding _ _, rfl, rfl, earlier, later, hmodules, hname⟩

theorem ofLink {m : Module} (hm : m ∈ ((Checker.ofConfig config).linked p).modules)
    (h : f ∈ ((Checker.ofConfig config).linked p).linkFindings m) :
    ∃ m ∈ p.modules, m.Shows f.toDiagnostic ∧ f.ArisesIn p config m := by
  obtain ⟨⟨cause, span⟩, hx, rfl⟩ := List.mem_map.mp h
  refine ⟨m, mem_modules_of_linked config p hm, m.shows_finding _ _, ?_⟩
  obtain ⟨log, -, -, hlog⟩ :=
    m.exists_log ((Checker.ofConfig config).linked p).checker.scopes.moduleScope?
  rcases ImportLog.cases_of_mem_reports (hlog.reports ▸ hx) with ⟨name, rfl⟩ | ⟨name, rfl⟩
  · exact ⟨hm, hx⟩
  · exact ⟨hm, hx⟩

/-- What the check of a module finds has nothing to do with how modules fit together. -/
theorem ofEmitted {events before later : List Event} {slot : Nat} {s : Slot}
    (hcourse : p.IsCourse config events) (hevents : events = before ++ .check slot :: later)
    (hs : ((Checker.ofConfig config).linked p).slots[slot]? = some s)
    (h : f ∈ (s.module.check s.scope).emitted
      (before.foldl ((Checker.ofConfig config).linked p).perform
        ((Checker.ofConfig config).linked p).checker)) : f.ArisesIn p config s.module := by
  have hlinking := isLinking_of_isFromCheck ((s.module.findings_check _ _).2 f h)
  unfold ArisesIn
  split
  case h_5 => exact ⟨events, before, slot, later, s, hcourse, hevents, hs, rfl, h⟩
  all_goals simp_all [Cause.isLinking]

end Finding.ArisesIn

/-- **Diagnostics point into the right file.** What the check of a module emits names the file of
the module and shows its source, in whatever state the check starts. So does every finding of the
check of a program, for the module in which it has been made. -/
theorem diagnostics_point_into_their_module (p : Program) (config : Config) :
    (∀ (m : Module) scope c, ∀ d ∈ (m.check scope).emits c, m.Shows d) ∧
      ∀ f ∈ (p.check config).context.findings,
        ∃ m ∈ p.modules, m.Shows f.toDiagnostic ∧ f.ArisesIn p config m := by
  refine ⟨fun m scope c d hd => ?_, fun f hf => ?_⟩
  · obtain ⟨f, hf, rfl⟩ := List.mem_map.mp hd
    rw [Module.eq_finding_of_emitted hf]
    exact m.shows_finding _ _
  obtain ⟨events, -, hresolve, htrack, hall⟩ := Checker.exists_course_resolve config p
  obtain ⟨new, hnew, hmade⟩ := findings_foldl ((Checker.ofConfig config).linked p) events
    ((Checker.ofConfig config).linked p).checker
  have hmodule : ∀ {i : Nat} {s : Slot}, ((Checker.ofConfig config).linked p).slots[i]? = some s →
      s.module ∈ p.modules := fun hs => Checker.mem_modules_of_linked config p
    (List.mem_map_of_mem (Array.mem_toList_iff.mpr (Array.mem_of_getElem? hs)))
  rw [Program.check, hresolve] at hf
  rcases List.mem_append.mp (hnew ▸ hf) with hbefore | htour
  · rw [(Checker.layout_linked config p).2] at hbefore
    rcases List.mem_append.mp hbefore with hrepeats | hlink
    · exact Finding.ArisesIn.ofRepeats (Checker.repeats_registered config p f hrepeats)
    · obtain ⟨m, hm, hfm⟩ := List.mem_flatMap.mp hlink
      exact Finding.ArisesIn.ofLink hm hfm
  · obtain ⟨before, e, later, m, hevents, hmakes⟩ := hmade f htour
    cases hmakes with
    | @check slot s _ hs hemitted =>
      refine ⟨s.module, hmodule hs, ?_, ?_⟩
      · rw [Module.eq_finding_of_emitted hemitted]
        exact s.module.shows_finding _ _
      · exact .ofEmitted ⟨hresolve, htrack.toCourse, hall⟩ hevents hs hemitted
    | @cycle path user used span s hs =>
      obtain ⟨s', hs', target, huse, hfind⟩ :=
        htrack.placed path user used span (hevents ▸ List.mem_append_right _ (.head _))
      cases hs.symm.trans hs'
      have hwritten := (Checker.prepared_linked config p).written s (Array.mem_of_getElem? hs)
        (target, span) huse
      refine ⟨s.module, hmodule hs, s.module.shows_finding _ _, ?_, nameOf_eq hs, ?_⟩
      · exact List.mem_map_of_mem (Array.mem_toList_iff.mpr (Array.mem_of_getElem? hs))
      · rw [(nameOf_of_find? hfind).2]
        exact hwritten

end Warden

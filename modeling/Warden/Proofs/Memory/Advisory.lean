import Warden.Proofs.Findings

/-!
# The memory analysis is advisory

Ledgers, deferred calls of `free` and the findings of the memory analysis never decide how a check
goes on. Take two states that agree in everything else: every statement and every expression then
comes to the same result in both, finds the same apart from what the memory analysis finds, and
leaves two states that agree again (`memory_analysis_is_advisory`).

The proof is one instance of `Simulation`: agreement up to memory is kept by every elementary change
(`Checker.AgreeUpToMemory.simulation`), the operations of the memory analysis because they do not
show in the state without memory, all others because they commute with erasing it.
-/

namespace Warden

open CheckM ScopeTree

namespace Checker

/-- The states agree on everything but the memory analysis: on the scopes with their symbols,
imports and shape, the structs, the types of expressions, the walk, the configuration, the current
module, and the findings that other rules have made. -/
def AgreeUpToMemory (c d : Checker) : Prop :=
  c.withoutMemory = d.withoutMemory

namespace AgreeUpToMemory

variable {c d : Checker}

/-- A change that can be made before erasing as well as after it keeps agreement. -/
theorem map {f : Checker → Checker} (hf : ∀ x, (f x).withoutMemory = f x.withoutMemory)
    (h : AgreeUpToMemory c d) : AgreeUpToMemory (f c) (f d) := by
  unfold AgreeUpToMemory at h ⊢
  rw [hf c, hf d, h]

theorem view (h : AgreeUpToMemory c d) : SameView c d := by
  unfold AgreeUpToMemory at h
  have hscopes := congrArg Checker.scopes h
  have hstructs := congrArg Checker.structs h
  have htypes := congrArg Checker.types h
  have hwalk := congrArg Checker.walk h
  have hmodule := congrArg (fun x : Checker => x.context.moduleName) h
  exact ⟨hscopes, hstructs, htypes, hwalk, hmodule⟩

theorem memory {f : Checker → Checker} (hf : MemoryOp f) (h : AgreeUpToMemory c d) :
    AgreeUpToMemory (f c) (f d) := by
  unfold AgreeUpToMemory at h ⊢
  rw [(hf.step c).withoutMemory, (hf.step d).withoutMemory, h]

theorem insert {scope : ScopeId} {symbol : Symbol} {t u : ScopeTree} (h : AgreeUpToMemory c d)
    (ht : c.scopes.insert? scope symbol = some t) (hu : d.scopes.insert? scope symbol = some u) :
    AgreeUpToMemory { c with scopes := t } { d with scopes := u } := by
  have htree : some t.withoutMemory = some u.withoutMemory := by
    calc some t.withoutMemory = (c.scopes.insert? scope symbol).map ScopeTree.withoutMemory := by
          rw [ht, Option.map_some]
      _ = (d.scopes.insert? scope symbol).map ScopeTree.withoutMemory := by
          rw [insert?_withoutMemory, h.view.scopes, insert?_withoutMemory]
      _ = some u.withoutMemory := by rw [hu, Option.map_some]
  have hstate : { c.withoutMemory with scopes := t.withoutMemory } =
      { d.withoutMemory with scopes := u.withoutMemory } := by
    rw [Option.some.inj htree, show c.withoutMemory = d.withoutMemory from h]
  exact hstate

/-- Agreement up to memory is kept by every elementary change of a check. -/
theorem simulation : Simulation AgreeUpToMemory where
  view := view
  report span hcause :=
    map (f := (·.report _ span)) fun x => by
      simp only [withoutMemory, report, Context.withoutMemory, Context.report, List.filter_append]
      simp [Finding.isMemory, Finding.tag, Cause.isMemory_tag_of_isTyping hcause, Context.lineText?]
  enter m := map (f := fun x => { x with context := x.context.enter m }) fun _ => rfl
  record id ty := map (f := (·.record id ty)) fun _ => rfl
  memory := memory
  setWalk walk := map (f := fun x => { x with walk }) fun _ => rfl
  setStructs structs := map (f := fun x => { x with structs }) fun _ => rfl
  addBlock parent name :=
    map (f := fun x => { x with scopes := x.scopes.addBlock parent name }) fun x =>
      congrArg (fun scopes => { x.withoutMemory with scopes })
        (addScope_withoutMemory x.scopes parent name .block rfl)
  addFunction parent name :=
    map (f := fun x => { x with scopes := x.scopes.addFunction parent name }) fun x =>
      congrArg (fun scopes => { x.withoutMemory with scopes })
        (addScope_withoutMemory x.scopes parent name (.function name) rfl)
  insert := insert

theorem findings (h : AgreeUpToMemory c d) :
    c.context.findings.filter (!·.isMemory) = d.context.findings.filter (!·.isMemory) := by
  unfold AgreeUpToMemory at h
  have hfindings := congrArg (fun x : Checker => x.context.findings) h
  exact hfindings

end AgreeUpToMemory

end Checker

/-! ### What a check does apart from memory -/

/-- The action goes the same way from both states, up to the memory analysis: it returns the same,
it adds the same findings in the same order apart from those of that analysis, and it leaves states
that agree up to memory. -/
structure SameUpToMemory {α : Type} (m : CheckM α) (c d : Checker) : Prop where
  result : m.eval c = m.eval d
  findings : ∃ new new', (m.exec c).context.findings = c.context.findings ++ new ∧
    (m.exec d).context.findings = d.context.findings ++ new' ∧
    new.filter (!·.isMemory) = new'.filter (!·.isMemory)
  agree : (m.exec c).AgreeUpToMemory (m.exec d)

theorem SameUpToMemory.of_respects {α : Type} {m : CheckM α}
    (hm : ∀ {R : Checker → Checker → Prop}, Simulation R → Respects R m) {c d : Checker}
    (h : c.AgreeUpToMemory d) : SameUpToMemory m c d := by
  obtain ⟨heval, hexec⟩ := hm Checker.AgreeUpToMemory.simulation c d h
  obtain ⟨new, hnew, -⟩ := FindingsSince.of_respects hm c
  obtain ⟨new', hnew', -⟩ := FindingsSince.of_respects hm d
  refine ⟨heval, ⟨new, new', hnew, hnew', ?_⟩, hexec⟩
  -- the whole lists agree without memory, and so do the lists from before
  have hall := hexec.findings
  rw [hnew, hnew', List.filter_append, List.filter_append, h.findings] at hall
  exact List.append_cancel_left hall

/-- **The memory analysis is advisory**: from states that differ only in ledgers, deferred calls of
`free` and findings of the memory analysis, every statement and every expression is checked in the
same way, up to the memory analysis. -/
theorem memory_analysis_is_advisory {c d : Checker} (h : c.AgreeUpToMemory d) (scope : ScopeId) :
    (∀ s : Stmt, SameUpToMemory (s.check scope) c d) ∧
      ∀ e : Expr, SameUpToMemory (e.check scope) c d := by
  constructor
  · intro s
    exact .of_respects (fun hR => hR.respects_stmt scope s) h
  · intro e
    exact .of_respects (fun hR => hR.respects_expr scope e) h

namespace Checker

/-- A state in which the body of a function `main` is checked, in scope 1. -/
def inMain : Checker :=
  { ofConfig {} with scopes := ScopeTree.initial.addFunction 0 "main" }

/-- The same state after `p` has been allocated once and freed twice. -/
def inMainAfterDoubleFree : Checker :=
  ((inMain.allocate 1 "p" {}).release 1 "p" {} .explicit).release 1 "p" {} .explicit

end Checker

/-- A double free that has been found before changes nothing in what follows. -/
theorem memory_analysis_is_advisory_after_double_free :
    Checker.inMainAfterDoubleFree.context.findings.map (·.tag) = [.doubleFree] ∧
      Checker.inMain.AgreeUpToMemory Checker.inMainAfterDoubleFree ∧
      (∀ s : Stmt, SameUpToMemory (s.check 1) Checker.inMain Checker.inMainAfterDoubleFree) ∧
      ∀ e : Expr, SameUpToMemory (e.check 1) Checker.inMain Checker.inMainAfterDoubleFree := by
  have hsteps := ((Checker.memoryStep_allocate Checker.inMain 1 "p" {}).trans
    (Checker.memoryStep_release _ 1 "p" {} .explicit)).trans
    (Checker.memoryStep_release _ 1 "p" {} .explicit)
  have hagree : Checker.inMain.AgreeUpToMemory Checker.inMainAfterDoubleFree :=
    hsteps.withoutMemory.symm
  exact ⟨rfl, hagree, memory_analysis_is_advisory hagree 1⟩

end Warden

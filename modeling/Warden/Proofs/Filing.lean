import Mathlib.Data.List.Induction
import Warden.Proofs.Findings
import Warden.Proofs.Modules

/-!
# Findings and their modules

A finding is filed under the module that the context is at, with the line of its source. A check
never turns to another module: all that it does to the context is to report (`Context.Files`). So
what the check of a module finds is filed under this module (`Module.eq_finding_of_emitted`).
-/

namespace Warden

open CheckM

/-- A finding in a module. -/
def Module.finding (m : Module) (cause : Cause) (span : Span) : Finding :=
  { cause, span
    filePath := m.filePath
    lineText := (m.source.map SourceText.ofString).bind (·.line? span.line) }

/-- The diagnostic names the file of the module and shows the line of its source, where the source
has that line. -/
def Module.Shows (m : Module) (d : Diagnostic) : Prop :=
  d.filePath = m.filePath ∧
    d.lineText = (m.source.map SourceText.ofString).bind (·.line? d.line)

theorem Module.shows_finding (m : Module) (cause : Cause) (span : Span) :
    m.Shows (m.finding cause span).toDiagnostic :=
  ⟨rfl, rfl⟩

/-- Files a list of causes. -/
def Context.reportEach (c : Context) (reports : List (Cause × Span)) : Context :=
  reports.foldl (fun c r => c.report r.1 r.2) c

theorem Context.reportEach_enter (c : Context) (m : Module) (reports : List (Cause × Span)) :
    (c.enter m).reportEach reports =
      { c.enter m with findings := c.findings ++ reports.map fun r => m.finding r.1 r.2 } := by
  induction reports using List.reverseRecOn with
  | nil => simp [reportEach, enter]
  | append_singleton reports r ih =>
    rw [reportEach, List.foldl_append] at *
    rw [ih]
    simp [report, enter, Module.finding, lineText?]

/-- The context is an earlier one, in which reports have been filed. -/
def Context.Files (k k' : Context) : Prop :=
  ∃ reports, k' = k.reportEach reports

namespace Context.Files

variable {k k' : Context}

theorem report (h : k.Files k') (cause : Cause) (span : Span) : k.Files (k'.report cause span) := by
  obtain ⟨reports, rfl⟩ := h
  exact ⟨reports ++ [(cause, span)], by simp [reportEach]⟩

theorem reportAny (h : k.Files k') (span : Span) (cause? : Option Cause) :
    k.Files (k'.reportAny span cause?) := by
  cases cause? with
  | none => exact h
  | some cause => exact h.report cause span

theorem release {c : Checker} (h : k.Files c.context) (scope : ScopeId) (name : String)
    (span : Span) (kind : FreeKind) : k.Files (c.release scope name span kind).context := by
  unfold Checker.release
  split
  · exact h
  · split
    · exact h
    · exact h.reportAny span _

theorem memory {c : Checker} (h : k.Files c.context) {f : Checker → Checker} (hf : MemoryOp f) :
    k.Files (f c).context := by
  cases hf with
  | allocate scope name span =>
    simp only [Checker.allocate]
    split <;> exact h
  | rename scope target source =>
    simp only [Checker.rename]
    split <;> exact h
  | release scope name span kind => exact h.release scope name span kind
  | checkUse scope name span => exact h.reportAny span _
  | deferFree scope name span => exact h
  | leaveScope scope =>
    exact List.foldlRecOn _ _ (motive := fun c : Checker => k.Files c.context) h
      fun _ h d _ => h.release scope d.name d.span .explicit
  | reportLeaks scope =>
    simp only [Checker.reportLeaks]
    split
    · split
      · exact h
      · exact List.foldlRecOn _ _ (motive := k.Files) h fun _ h a _ => h.report _ a.leakSpan
    · exact h

/-- Whatever a check does, it stays in its module. -/
theorem unconditional (k : Context) : Unconditional fun _ c => k.Files c.context where
  report span _ _ h := h.report _ span
  record _ _ _ h := h
  insert _ _ h := h
  reserve _ _ _ h := ⟨trivial, h⟩
  finalize _ _ h := h
  allocate _ _ _ h := h.memory (.allocate ..)
  rename _ _ _ h := h.memory (.rename ..)
  release _ _ _ _ h := h.memory (.release ..)
  checkUse _ _ _ h := h.memory (.checkUse ..)
  deferFree _ _ _ _ h := h
  clearDeferred _ h := h
  enterLoop _ h := h
  enterDefer _ h := h
  restore _ _ _ h := h
  pushBlock _ _ h := h
  popBlock _ _ _ _ h := h
  pushBody _ _ _ h := h
  popBody {i _ _ _} _ _ _ h := by
    have hleaks := h.memory (.reportLeaks i)
    exact hleaks

end Context.Files

/-- All that the check of a module does to the context is to enter the module and to report. -/
theorem Module.files_check (m : Module) (scope : ScopeId) (c : Checker) :
    (c.context.enter m).Files ((m.check scope).exec c).context := by
  obtain ⟨-, hleft, -⟩ := unconditional_true.leftModule (Context.Files.unconditional _)
    (fun _ _ => trivial) trivial ⟨[], rfl⟩
  exact hleft.memory (.reportLeaks scope)

/-- What the check of a module finds is filed under the module. -/
theorem Module.eq_finding_of_emitted {m : Module} {scope : ScopeId} {c : Checker} {f : Finding}
    (h : f ∈ (m.check scope).emitted c) : f = m.finding f.cause f.span := by
  obtain ⟨reports, hcontext⟩ := m.files_check scope c
  rw [Context.reportEach_enter] at hcontext
  rw [emitted_eq (congrArg Context.findings hcontext)] at h
  obtain ⟨_, -, rfl⟩ := List.mem_map.mp h
  rfl

end Warden

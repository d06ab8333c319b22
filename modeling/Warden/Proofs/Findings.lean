import Warden.Proofs.Simulation.Walk

/-!
# The list of findings only grows

Whatever a check does, what was found before stays where it is, and new findings are put behind it.
A new finding comes from a rule of the check or from the memory analysis; in particular no check
says anything about the order of the modules.
-/

namespace Warden

open CheckM

namespace CheckM

variable {α : Type}

/-- What an action finds from a state on. -/
def emitted (m : CheckM α) (c : Checker) : List Finding :=
  (m.exec c).context.findings.drop c.context.findings.length

/-- The diagnostics that an action emits. -/
def emits (m : CheckM α) (c : Checker) : List Diagnostic :=
  (m.emitted c).map Finding.toDiagnostic

theorem emitted_eq {m : CheckM α} {c : Checker} {new : List Finding}
    (h : (m.exec c).context.findings = c.context.findings ++ new) : m.emitted c = new := by
  rw [emitted, h, List.drop_left]

end CheckM

namespace Finding

/-- Whether the finding can come from checking a module, as opposed to bringing modules in order. -/
def isFromCheck (f : Finding) : Bool :=
  f.cause.isTyping || f.isMemory

theorem tag_ne_circularDependency {f : Finding} (h : f.isFromCheck = true) :
    f.tag ≠ .circularDependency := by
  obtain ⟨cause, span, filePath, lineText⟩ := f
  cases cause <;> simp_all [isFromCheck, isMemory, tag, Cause.tag, Cause.isTyping, Tag.isMemory]

end Finding

/-- All that is found in a state beyond a list of earlier findings comes from checking. -/
def FindingsSince (old : List Finding) (c : Checker) : Prop :=
  ∃ new, c.context.findings = old ++ new ∧ ∀ f ∈ new, f.isFromCheck = true

namespace FindingsSince

variable {old : List Finding} {c d : Checker}

theorem refl (c : Checker) : FindingsSince c.context.findings c :=
  ⟨[], by simp⟩

section

variable (h : FindingsSince old c)

include h

theorem congr (hd : d.context.findings = c.context.findings) : FindingsSince old d := by
  obtain ⟨new, hnew, hfrom⟩ := h
  exact ⟨new, hd.trans hnew, hfrom⟩

theorem append {more : List Finding} (hd : d.context.findings = c.context.findings ++ more)
    (hmore : ∀ f ∈ more, f.isFromCheck = true) : FindingsSince old d := by
  obtain ⟨new, hnew, hfrom⟩ := h
  refine ⟨new ++ more, by rw [hd, hnew, List.append_assoc], ?_⟩
  intro f hf
  exact (List.mem_append.mp hf).elim (hfrom f) (hmore f)

theorem report {cause : Cause} (hcause : cause.isTyping = true) (span : Span) :
    FindingsSince old (c.report cause span) := by
  apply h.append rfl
  intro f hf
  rw [List.mem_singleton.mp hf]
  simp [Finding.isFromCheck, hcause]

theorem memory {f : Checker → Checker} (hf : MemoryOp f) : FindingsSince old (f c) := by
  obtain ⟨new, hnew, hmem⟩ := (hf.step c).findings
  apply h.append hnew
  intro g hg
  simp [Finding.isFromCheck, hmem g hg]

end

/-- Every elementary change of a check only adds findings. -/
theorem invariant (old : List Finding) : Invariant (FindingsSince old) where
  report span hcause h := h.report hcause span
  enter _ h := h.congr rfl
  record _ _ h := h.congr rfl
  memory hf h := h.memory hf
  setWalk _ h := h.congr rfl
  setStructs _ h := h.congr rfl
  addBlock _ _ h := h.congr rfl
  addFunction _ _ h := h.congr rfl
  insert h _ := h.congr rfl

/-- An action that keeps every simulation only adds findings. -/
theorem of_respects {α : Type} {m : CheckM α}
    (hm : ∀ {R : Checker → Checker → Prop}, Simulation R → Respects R m) (c : Checker) :
    FindingsSince c.context.findings (m.exec c) :=
  Respects.invariant (invariant c.context.findings) hm (refl c)

end FindingsSince

theorem Module.findings_check (m : Module) (scope : ScopeId) (c : Checker) :
    ((m.check scope).exec c).context.findings =
        c.context.findings ++ (m.check scope).emitted c ∧
      ∀ f ∈ (m.check scope).emitted c, f.isFromCheck = true := by
  obtain ⟨new, hnew, hfrom⟩ := FindingsSince.of_respects (fun hR => hR.respects_module m scope) c
  rw [emitted_eq hnew]
  exact ⟨hnew, hfrom⟩

end Warden

import Warden.Proofs.Resolution.Parallel
import Warden.Proofs.Simulation.Walk

/-!
# What the configuration decides

Of the two switches of a run, a check reads only the one for leaks, and reads it only where it
reports leaks. So the run under any configuration is known from the run in which leaks are reported:
`Checker.under` puts the other configuration in and, if leaks are not wanted, strikes them from the
findings. Nothing else differs (`Program.check_eq_under`).

The proof is a relation that every check keeps (`Checker.UnderConfig.simulation`): each elementary
change can be made before or after changing the configuration, and only for reporting leaks does it
matter that striking a leak from the findings and not reporting it come to the same.
-/

namespace Warden

variable {tag : Tag}

/-- What is handed out after a run. -/
structure Results where
  diagnostics : List Diagnostic
  scopes : ScopeTree
  structs : StructTable
  types : TypeTable

/-- The results of a finished check. -/
def Checker.results (c : Checker) : Results :=
  { diagnostics := c.context.toReport.diagnostics
    scopes := c.scopes
    structs := c.structs
    types := c.types }

/-! ### Wanted findings -/

theorem Tag.ne_memoryLeak (h : tag.isMemory = false) : tag ≠ .memoryLeak := by
  rintro rfl
  cases h

namespace Config

/-- Whether findings of that name are wanted under the configuration. -/
def wants (config : Config) (tag : Tag) : Bool :=
  config.checkMem || tag != .memoryLeak

theorem wants_of_ne (config : Config) (h : tag ≠ .memoryLeak) : config.wants tag = true := by
  simp [wants, h]

end Config

namespace Context

/-- The context under another configuration, with the findings that are wanted there. -/
def under (config : Config) (c : Context) : Context :=
  { c with config, findings := c.findings.filter fun f => config.wants f.tag }

variable (config : Config) (c : Context)

/-- To report what is not wanted and strike it is not to report it. -/
theorem under_report (cause : Cause) (span : Span) : (c.report cause span).under config =
    if config.wants cause.tag then (c.under config).report cause span else c.under config := by
  simp only [under, report, lineText?, List.filter_append, List.filter_singleton, Finding.tag]
  cases config.wants cause.tag with
  | false => simp
  | true => rfl

theorem under_reportAny {cause? : Option Cause} (h : ∀ cause ∈ cause?, cause.tag ≠ .memoryLeak)
    (span : Span) :
    (c.reportAny span cause?).under config = (c.under config).reportAny span cause? := by
  cases cause? with
  | none => rfl
  | some cause =>
    rw [reportAny, under_report, if_pos (config.wants_of_ne (h cause rfl))]
    rfl

theorem under_reportLeaks (ledger : Ledger) : (c.reportLeaks ledger).under config =
    if config.checkMem then (c.under config).reportLeaks ledger else c.under config := by
  unfold reportLeaks
  induction ledger.leaks generalizing c with
  | nil => simp
  | cons a leaks ih =>
    -- a leak is wanted just if leaks are reported
    have hwants : config.wants (a.leakCause c.moduleName).tag = config.checkMem :=
      Bool.or_false _
    rw [List.foldl_cons, ih, under_report, hwants]
    split <;> rfl

end Context

/-! ### Putting another configuration in -/

namespace FreeOutcome

theorem tag_ne_memoryLeak_of_mem_cause? {outcome : FreeOutcome} {name : String} {kind : FreeKind} :
    ∀ cause ∈ outcome.cause? name kind, cause.tag ≠ .memoryLeak := by
  intro cause h hleak
  cases outcome <;> cases kind <;> simp_all [cause?] <;> subst h <;> cases hleak

end FreeOutcome

namespace Checker

variable {f : Checker → Checker}

/-- The state as it would be under another configuration. -/
def under (config : Config) (c : Checker) : Checker :=
  { c with context := c.context.under config }

section

variable (config : Config) (c : Checker) (scope : ScopeId)

theorem under_report {cause : Cause} (h : cause.tag ≠ .memoryLeak) (span : Span) :
    (c.report cause span).under config = (c.under config).report cause span := by
  have hcontext := c.context.under_report config cause span
  rw [if_pos (config.wants_of_ne h)] at hcontext
  simp only [under, report, hcontext]

theorem under_release (name : String) (span : Span) (kind : FreeKind) :
    (c.release scope name span kind).under config =
      (c.under config).release scope name span kind := by
  simp only [release, under]
  split
  · rfl
  · split
    · rfl
    · rw [Context.under_reportAny config _ FreeOutcome.tag_ne_memoryLeak_of_mem_cause?]

theorem under_checkUse (name : String) (span : Span) :
    (c.checkUse scope name span).under config = (c.under config).checkUse scope name span := by
  simp only [checkUse, under]
  rw [Context.under_reportAny]
  intro cause hcause
  rw [tag_of_mem_useCause? c scope name hcause]
  decide

theorem under_leaveScope :
    (c.leaveScope scope).under config = (c.under config).leaveScope scope := by
  have hfold (waiting : List DeferredFree) (c : Checker) :
      (waiting.foldl (fun c d => c.release scope d.name d.span .explicit) c).under config =
        waiting.foldl (fun c d => c.release scope d.name d.span .explicit) (c.under config) := by
    induction waiting generalizing c with
    | nil => rfl
    | cons d waiting ih => rw [List.foldl_cons, List.foldl_cons, ih, under_release]
  exact hfold _ _

/-- Where leaks are reported, the other configuration decides which of them stay. -/
theorem under_reportLeaks (h : c.context.config.checkMem = true) :
    (c.reportLeaks scope).under config = (c.under config).reportLeaks scope := by
  unfold reportLeaks
  rw [if_pos h, show (c.under config).context.config.checkMem = config.checkMem from rfl,
    show (c.under config).scopes = c.scopes from rfl]
  cases (c.scopes.scope scope).ledger with
  | none => simp
  | some ledger =>
    have hcontext := c.context.under_reportLeaks config ledger
    simp only [under, hcontext]
    split <;> rfl

end

/-- The second state is the first one under another configuration, and leaks are reported in the
first one. -/
def UnderConfig (config : Config) (c d : Checker) : Prop :=
  c.context.config.checkMem = true ∧ d = c.under config

namespace UnderConfig

variable {config : Config} {c d : Checker}

/-- A change that leaves the configuration alone and can be made under both. -/
theorem map (h : UnderConfig config c d) (hconfig : (f c).context.config = c.context.config)
    (hf : (f c).under config = f (c.under config)) : UnderConfig config (f c) (f d) := by
  obtain ⟨hmem, rfl⟩ := h
  exact ⟨hconfig ▸ hmem, hf.symm⟩

theorem memory (hf : MemoryOp f) (h : UnderConfig config c d) : UnderConfig config (f c) (f d) := by
  have hconfig : (f c).context.config = c.context.config :=
    congrArg (·.context.config) (hf.step c).withoutMemory
  refine h.map hconfig ?_
  cases hf with
  | allocate =>
    simp only [allocate, under]
    split <;> rfl
  | rename =>
    simp only [rename, under]
    split <;> rfl
  | release scope name span kind => exact c.under_release config scope name span kind
  | checkUse scope name span => exact c.under_checkUse config scope name span
  | deferFree scope name span => rfl
  | leaveScope scope => exact c.under_leaveScope config scope
  | reportLeaks scope => exact c.under_reportLeaks config scope h.1

/-- Every elementary change of a check can be made under both configurations. -/
theorem simulation (config : Config) : Simulation (UnderConfig config) where
  view := by
    rintro c d ⟨-, rfl⟩
    exact ⟨rfl, rfl, rfl, rfl, rfl⟩
  report {c d cause} span hcause h := by
    have hne := Tag.ne_memoryLeak (Cause.isMemory_tag_of_isTyping hcause)
    exact h.map (f := (·.report cause span)) rfl (c.under_report config hne span)
  enter m h := h.map (f := fun x => { x with context := x.context.enter m }) rfl rfl
  record id ty h := h.map (f := (·.record id ty)) rfl rfl
  memory := memory
  setWalk walk h := h.map (f := fun x => { x with walk }) rfl rfl
  setStructs structs h := h.map (f := fun x => { x with structs }) rfl rfl
  addBlock parent name h :=
    h.map (f := fun x => { x with scopes := x.scopes.addBlock parent name }) rfl rfl
  addFunction parent name h :=
    h.map (f := fun x => { x with scopes := x.scopes.addFunction parent name }) rfl rfl
  insert := by
    rintro c d scope symbol t u ⟨hmem, rfl⟩ ht hu
    have htu : some t = some u := ht.symm.trans hu
    cases htu
    exact ⟨hmem, rfl⟩

theorem passRelation (config : Config) : Resolver.PassRelation (UnderConfig config) where
  scopes := by
    rintro c d ⟨-, rfl⟩
    rfl
  enter := (simulation config).enter
  report {c d cause} span hcause h :=
    h.map (f := (·.report cause span)) rfl (c.under_report config (Tag.ne_memoryLeak hcause) span)
  setScopes scopes h := h.map (f := fun x => { x with scopes }) rfl rfl
  check m scope h := ((simulation config).respects_module m scope _ _ h).2

end UnderConfig

end Checker

/-! ### Whole programs -/

/-- What a run finds under a configuration is what it finds with leaks reported, without the
findings that are not wanted. -/
theorem Program.check_eq_under (p : Program) (config : Config) (strict : Bool) :
    p.check config = (p.check { checkMem := true, strict }).under config := by
  have hstart : Checker.UnderConfig config (.ofConfig { checkMem := true, strict })
      (.ofConfig config) := ⟨rfl, rfl⟩
  exact ((Checker.UnderConfig.passRelation config).resolve hstart p).2

theorem Tag.name_eq_memoryLeak : tag.name = "Memory Leak" ↔ tag = .memoryLeak := by
  cases tag <;> decide

/-- Striking findings is striking diagnostics. -/
theorem Checker.results_under (c : Checker) (config : Config) : (c.under config).results =
    { c.results with diagnostics := c.results.diagnostics.filter fun d =>
        config.checkMem || d.tag != "Memory Leak" } := by
  have htag (f : Finding) : (config.checkMem || f.toDiagnostic.tag != "Memory Leak") =
      config.wants f.tag := by
    have hname : (f.toDiagnostic.tag != "Memory Leak") = (f.tag != .memoryLeak) := by
      rw [Bool.eq_iff_iff, bne_iff_ne, bne_iff_ne]
      exact not_congr Tag.name_eq_memoryLeak
    rw [hname, Config.wants]
  simp only [results, under, Context.under, Context.toReport, List.filter_map, Function.comp_def,
    htag]

/-- **The configuration only gates leaks**: with the memory check off, a program has the same
results, but for the diagnostics of leaks, which are missing; and `strict` has no part in the
results. -/
theorem configuration_gates_leaks (p : Program) (strict strict' : Bool) :
    (p.check { checkMem := false, strict }).results =
        { (p.check { checkMem := true, strict }).results with
          diagnostics := (p.check { checkMem := true, strict }).results.diagnostics.filter
            (·.tag != "Memory Leak") } ∧
      ∀ checkMem : Bool,
        (p.check { checkMem, strict }).results =
          (p.check { checkMem, strict := strict' }).results := by
  constructor
  · rw [p.check_eq_under { checkMem := false, strict } strict, Checker.results_under]
    rfl
  · intro checkMem
    rw [p.check_eq_under { checkMem, strict } true,
      p.check_eq_under { checkMem, strict := strict' } true, Checker.results_under,
      Checker.results_under]

/-- A module that allocates and never frees. -/
example :
    let value : Expr := ⟨0, {}, .call ⟨1, {}, .ident "alloc"⟩ [⟨2, {}, .int 8⟩]⟩
    let decl : VarDecl :=
      { name := "p", ty := some (.pointer {} (.named {} none "int")), value := some value }
    let p : Program := ⟨[{ name := "main", body := [⟨{}, .var decl⟩] }]⟩
    (p.check {}).results.diagnostics.map (·.tag) = ["Memory Leak"] ∧
      (p.check { checkMem := false }).results.diagnostics = [] := by
  decide

end Warden

import Warden.Proofs.Resolution.Linkage

/-!
# What becomes of imports

A module asks for other modules under names of its choice (`Request`), and each request has one of
three fates: it is bound, or its name has been taken by an earlier import that was bound, or there
is no such module. `ImportLog.Correct` says which of them is right, looking at the requests before
it. `ImportLog.Yields` says what a log comes to: the imports of the module, the modules that it is
noted to use, and what is reported. The linkage of a module is what the log of its requests comes to
(`Module.exists_log`).
-/

namespace Warden

/-- An import as a module writes it. -/
structure Request where
  target : String
  /-- The name that it shall go by. -/
  localName : String
  span : Span

/-- What a statement asks for, if it is an import. Without another name, the module goes by its
own. -/
def Stmt.request? (s : Stmt) : Option Request :=
  match s.kind with
  | .importModule target localName => some ⟨target, localName.getD target, s.span⟩
  | _ => none

def Module.requests (m : Module) : List Request :=
  m.body.filterMap Stmt.request?

/-- What becomes of a request. -/
inductive Fate where
  | bound
  | nameTaken
  | notFound
  deriving DecidableEq

/-- What is reported for a request. -/
def Fate.cause? (q : Request) : Fate → Option Cause
  | .bound => none
  | .nameTaken => some (.localNameTaken q.localName)
  | .notFound => some (.moduleNotFound q.target)

/-- Requests in order, with what has become of them. -/
abbrev ImportLog := List (Request × Fate)

namespace ImportLog

variable {log : ImportLog} {q : Request} {fate : Fate}

def bound (log : ImportLog) : List Request :=
  (log.filter (·.2 = .bound)).map (·.1)

def reports (log : ImportLog) : List (Cause × Span) :=
  log.filterMap fun x => (x.2.cause? x.1).map (·, x.1.span)

/-- Whether it is right that a request, coming after others, has a certain fate, where certain
modules are known. -/
def Fits (known : String → Prop) (earlier : ImportLog) (q : Request) : Fate → Prop
  | .nameTaken => q.localName ∈ earlier.bound.map (·.localName)
  | .notFound => q.localName ∉ earlier.bound.map (·.localName) ∧ ¬known q.target
  | .bound => q.localName ∉ earlier.bound.map (·.localName) ∧ known q.target

/-- Every request has the fate that is right after those before it. -/
def Correct (known : String → Prop) (log : ImportLog) : Prop :=
  ∀ earlier q fate later, log = earlier ++ (q, fate) :: later → Fits known earlier q fate

/-- All that is reported of imports are names that are taken and modules that do not exist. -/
theorem cases_of_mem_reports {x : Cause × Span} (h : x ∈ log.reports) :
    (∃ name, x.1 = .localNameTaken name) ∨ ∃ name, x.1 = .moduleNotFound name := by
  obtain ⟨⟨q, fate⟩, -, hx⟩ := List.mem_filterMap.mp h
  obtain ⟨cause, hcause, rfl⟩ := Option.map_eq_some_iff.mp hx
  cases fate with
  | bound => cases hcause
  | nameTaken => exact .inl ⟨_, (Option.some.inj hcause).symm⟩
  | notFound => exact .inr ⟨_, (Option.some.inj hcause).symm⟩

theorem Correct.snoc {known : String → Prop} (h : log.Correct known)
    (hfits : log.Fits known q fate) : Correct known (log ++ [(q, fate)]) := by
  intro earlier q' fate' later heq
  rcases List.eq_nil_or_concat later with rfl | ⟨later, x, rfl⟩
  · obtain ⟨rfl, hlast⟩ := List.append_inj' heq rfl
    cases hlast
    exact hfits
  · rw [List.concat_eq_append, ← List.cons_append, ← List.append_assoc] at heq
    exact h _ _ _ _ (List.append_inj' heq rfl).1

/-- The linkage is what the requests come to. -/
structure Yields (scopeOf : String → Option ScopeId) (log : ImportLog) (b : Linkage) : Prop where
  targets : b.imports.map (·.module) = log.bound.map (·.target)
  localNames : b.imports.map (·.localName) = log.bound.map (·.localName)
  scopes : ∀ m ∈ b.imports, scopeOf m.module = some m.scope
  different : (b.imports.map (·.localName)).Nodup
  reports : b.reports = log.reports
  /-- Of several imports of one module, the first one counts as use. -/
  uses : b.uses.map (·.1) = (b.imports.map (·.module)).eraseDups
  distinct : (b.uses.map (·.1)).Nodup
  spans : ∀ use ∈ b.uses, (log.bound.find? (·.target == use.1)).map (·.span) = some use.2

namespace Yields

variable {scopeOf : String → Option ScopeId} {log : ImportLog} {b : Linkage}

theorem start : Yields scopeOf [] {} :=
  ⟨rfl, rfl, nofun, .nil, rfl, rfl, .nil, nofun⟩

variable (h : log.Yields scopeOf b)

include h

theorem mem_uses (name : String) : name ∈ b.uses.map (·.1) ↔ name ∈ b.imports.map (·.module) := by
  rw [h.uses, List.mem_eraseDups]

/-- A request that is not bound is reported, and changes nothing else. -/
theorem refuse {cause : Cause} (hcause : fate.cause? q = some cause) :
    Yields scopeOf (log ++ [(q, fate)]) { b with reports := b.reports ++ [(cause, q.span)] } := by
  have hbound : bound (log ++ [(q, fate)]) = log.bound := by
    cases fate <;> simp_all [bound, Fate.cause?]
  obtain ⟨htargets, hnames, hscopes, hdifferent, hreports, huses, hdistinct, hspans⟩ := h
  rw [← hbound] at htargets hnames hspans
  exact ⟨htargets, hnames, hscopes, hdifferent, by simp [hreports, ImportLog.reports, hcause],
    huses, hdistinct, hspans⟩

/-- A request is bound. -/
theorem accept {scope : ScopeId} (hscope : scopeOf q.target = some scope)
    (hfree : q.localName ∉ log.bound.map (·.localName)) : Yields scopeOf (log ++ [(q, .bound)])
      { b with
        imports := b.imports ++ [{ module := q.target, localName := q.localName, scope }]
        uses := if b.uses.any (·.1 == q.target) then b.uses
          else b.uses ++ [(q.target, q.span)] } := by
  have hbound : bound (log ++ [(q, .bound)]) = log.bound ++ [q] := by simp [bound]
  have hany : b.uses.any (·.1 == q.target) = true ↔ q.target ∈ b.imports.map (·.module) := by
    rw [← h.mem_uses]
    simp
  have hspans : ∀ use ∈ b.uses,
      ((log.bound ++ [q]).find? (·.target == use.1)).map (·.span) = some use.2 := by
    intro use huse
    obtain ⟨first, hfirst, hspan⟩ := Option.map_eq_some_iff.mp (h.spans use huse)
    rw [List.find?_append, hfirst]
    exact congrArg some hspan
  refine ⟨by simp [hbound, h.targets], by simp [hbound, h.localNames], ?_, ?_,
    by simp [h.reports, ImportLog.reports, Fate.cause?], ?_, ?_, ?_⟩
  · exact List.forall_mem_append.mpr ⟨h.scopes, by simpa using hscope⟩
  · simpa using h.different.concat (h.localNames ▸ hfree)
  · rw [List.map_append, List.eraseDups_append, ← h.uses]
    generalize b.imports.map (·.module) = modules at hany ⊢
    by_cases hknown : q.target ∈ modules <;>
      simp [hany, List.removeAll, List.eraseDups_cons, hknown]
  · split
    · exact h.distinct
    next hnew => simpa using h.distinct.concat fun hmem => hnew (hany.mpr ((h.mem_uses _).mp hmem))
  · rw [hbound]
    split
    · exact hspans
    next hnew =>
      refine List.forall_mem_append.mpr ⟨hspans, ?_⟩
      rw [hany, h.targets] at hnew
      have hnone : log.bound.find? (·.target == q.target) = none := by simpa using hnew
      rw [List.forall_mem_singleton, List.find?_append, hnone]
      simp

/-- One more import has the fate that is right for it. -/
theorem bind (q : Request) (localName : Option String)
    (hname : localName.getD q.target = q.localName) :
    ∃ fate, log.Fits (fun name => (scopeOf name).isSome = true) q fate ∧
      Yields scopeOf (log ++ [(q, fate)]) (b.bind scopeOf q.target localName q.span) := by
  have htaken : (b.imports.find? (·.localName == q.localName)).isSome = true ↔
      q.localName ∈ log.bound.map (·.localName) := by
    rw [← h.localNames]
    simp
  unfold Linkage.bind
  dsimp only
  rw [hname]
  split
  next hfound => exact ⟨.nameTaken, htaken.mp hfound, h.refuse rfl⟩
  next hfree =>
    rw [htaken] at hfree
    cases hscope : scopeOf q.target with
    | none => exact ⟨.notFound, ⟨hfree, by simp [hscope]⟩, h.refuse rfl⟩
    | some scope => exact ⟨.bound, ⟨hfree, by simp [hscope]⟩, h.accept hscope hfree⟩

theorem bindAll (hcorrect : log.Correct fun name => (scopeOf name).isSome = true)
    (stmts : List Stmt) : ∃ more : ImportLog, more.map (·.1) = stmts.filterMap Stmt.request? ∧
      Correct (fun name => (scopeOf name).isSome = true) (log ++ more) ∧
        Yields scopeOf (log ++ more) (b.bindAll scopeOf stmts) := by
  fun_induction Linkage.bindAll scopeOf b stmts generalizing log with
  | case1 => exact ⟨[], rfl, by simpa using hcorrect, by simpa using h⟩
  | case2 b span target localName stmts ih =>
    obtain ⟨fate, hfits, hnext⟩ := h.bind ⟨target, localName.getD target, span⟩ localName rfl
    obtain ⟨more, hmore, hcorrect', hyields⟩ := ih hnext (hcorrect.snoc hfits)
    rw [List.append_assoc] at hcorrect' hyields
    exact ⟨_, by simp [hmore, Stmt.request?], hcorrect', hyields⟩
  | case3 b s stmts hother ih =>
    obtain ⟨more, hmore, hrest⟩ := ih h hcorrect
    refine ⟨more, ?_, hrest⟩
    have hnone : s.request? = none := by
      obtain ⟨span, kind⟩ := s
      cases kind with
      | importModule target localName => exact (hother span target localName rfl).elim
      | _ => rfl
    rw [hmore, List.filterMap_cons_none hnone]

end Yields

end ImportLog

/-- Linking a module comes to what its requests come to. -/
theorem Module.exists_log (scopeOf : String → Option ScopeId) (m : Module) :
    ∃ log : ImportLog, log.map (·.1) = m.requests ∧
      log.Correct (fun name => (scopeOf name).isSome = true) ∧
        log.Yields scopeOf (m.linkage scopeOf) :=
  ImportLog.Yields.start.bindAll (by simp [ImportLog.Correct]) m.body

end Warden

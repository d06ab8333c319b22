import Warden.Proofs.Memory.Shadowing

/-!
# A pointer from its allocation on

An allocation opens a record in the nearest ledger. What is done with the name afterwards is charged
to the ledger that answers for the name, which is searched for in another way. The two meet: the
nearest ledger comes before the home of any declaration, so as soon as it knows the name it answers
(`ScopeTree.ledgerFor?_of_knows`). And an allocation ends what the name stood for before, so that it
leads to the last record of that ledger, the one just opened (`Ledger.allocation?_push`).

`Checker.Follows` says that a name leads from a scope to a certain record. One event after another
keeps that up (`Follows.exec`, `Follows.run`), and `allocation_is_followed` says what comes of them.
-/

namespace Warden

open ScopeTree Ledger

/-! ### Modules own ledgers -/

/-- Every module scope owns a ledger. -/
def ScopeTree.ModulesOwnLedgers (t : ScopeTree) : Prop :=
  ∀ i, (t.scope i).isModule = true → (t.scope i).ledger.isSome = true

namespace ScopeTree.ModulesOwnLedgers

variable {t u : ScopeTree}

theorem congr (h : t.ModulesOwnLedgers) (howner : ∀ i, (u.scope i).owner = (t.scope i).owner)
    (hledger : ∀ i, (u.scope i).ledger.isSome = (t.scope i).ledger.isSome) :
    u.ModulesOwnLedgers := by
  intro i hi
  rw [hledger]
  apply h i
  rwa [Scope.isModule, ← howner]

theorem modify (h : t.ModulesOwnLedgers) (id : ScopeId) {f : Scope → Scope}
    (howner : ∀ s, (f s).owner = s.owner) (hledger : ∀ s, (f s).ledger = s.ledger) :
    (t.modify id f).ModulesOwnLedgers :=
  h.congr (t.field_modify id Scope.owner howner)
    (t.field_modify id (·.ledger.isSome) fun s => by rw [hledger])

/-- A scope that is added is no module, or owns a ledger. -/
theorem addScope (h : t.ModulesOwnLedgers) (parent : ScopeId) (name : String) {owner : ScopeOwner}
    {ledger : Option Ledger} (hnew : (∀ m, owner ≠ .module m) ∨ ledger.isSome = true) :
    (t.addScope parent name owner ledger).ModulesOwnLedgers := by
  intro i hi
  by_cases hsize : i = t.size
  · subst hsize
    rw [scope_addScope_size] at hi ⊢
    rcases hnew with hother | hledger
    · unfold Scope.isModule at hi
      split at hi
      next m hm => exact absurd hm (hother m)
      · cases hi
    · exact hledger
  · have howner := t.field_addScope parent name owner ledger Scope.owner (fun _ _ => rfl) hsize
    have hledger := t.field_addScope parent name owner ledger Scope.ledger (fun _ _ => rfl) hsize
    rw [hledger]
    apply h i
    rwa [Scope.isModule, ← howner]

theorem memory {c d : Checker} (h : c.scopes.ModulesOwnLedgers) (hstep : MemoryStep c d) :
    d.scopes.ModulesOwnLedgers := by
  have hscope : ∀ i, (d.scopes.scope i).withoutMemory = (c.scopes.scope i).withoutMemory := by
    intro i
    rw [← scope_withoutMemory, hstep.scopes, scope_withoutMemory]
  refine h.congr (fun i => ?_) fun i => ?_
  · simpa [Scope.withoutMemory] using congrArg Scope.owner (hscope i)
  · simpa [Scope.withoutMemory] using congrArg (·.ledger.isSome) (hscope i)

theorem runInvariant : Checker.RunInvariant fun c => c.scopes.ModulesOwnLedgers where
  start config := by
    intro i hi
    cases i with
    | zero => cases hi
    | succ i => cases hi
  report _ _ h := h
  enter _ h := h
  record _ _ h := h
  memory {c _} hf h := h.memory (hf.step c)
  setWalk _ h := h
  setStructs _ h := h
  addBlock parent name h := h.addScope parent name (.inl (by simp))
  addFunction parent name h := h.addScope parent name (.inl (by simp))
  insert h ht := by
    obtain ⟨-, rfl⟩ := ScopeTree.eq_of_insert? ht
    exact h.modify _ (fun _ => rfl) fun _ => rfl
  addModule {c name scopes} h ht := by
    obtain ⟨-, rfl⟩ := ScopeTree.eq_of_addModule? ht
    have hgrown : (c.scopes.addScope 0 name (.module name) (some {})).ModulesOwnLedgers :=
      h.addScope 0 name (.inr rfl)
    exact hgrown
  addImport h ht := by
    obtain ⟨_, -, rfl⟩ := ScopeTree.eq_of_addImport? ht
    exact h.modify _ (fun _ => rfl) fun _ => rfl

end ScopeTree.ModulesOwnLedgers

/-! ### The nearest ledger answers -/

namespace ScopeTree

variable {t : ScopeTree} {scope owner : ScopeId} {name : String}

theorem ledger_isSome_of_ledgerOwner? (h : t.ledgerOwner? scope = some owner) :
    (t.scope owner).ledger.isSome = true := by
  have hfound := List.find?_some h
  exact hfound

theorem ledger_isSome_of_knows (h : t.ledgerKnows name owner = true) :
    (t.scope owner).ledger.isSome = true := by
  simp only [ledgerKnows, Option.any_eq_true] at h
  obtain ⟨l, hl, -⟩ := h
  rw [hl, Option.isSome_some]

/-- In a module there is a ledger on every way outwards. -/
theorem exists_ledgerOwner? (ht : t.ModulesOwnLedgers) {module : String}
    (hmodule : t.owningModule? scope = some module) :
    ∃ owner l, t.ledgerOwner? scope = some owner ∧ (t.scope owner).ledger = some l := by
  obtain ⟨i, hi, hname⟩ := List.exists_of_findSome?_eq_some hmodule
  have hisModule : (t.scope i).isModule = true := by
    split at hname
    next m hm => simp [Scope.isModule, hm]
    · cases hname
  have hfound : (t.ledgerOwner? scope).isSome = true :=
    List.find?_isSome.mpr ⟨i, hi, ht i hisModule⟩
  obtain ⟨owner, howner⟩ := Option.isSome_iff_exists.mp hfound
  obtain ⟨l, hl⟩ := Option.isSome_iff_exists.mp (ledger_isSome_of_ledgerOwner? howner)
  exact ⟨owner, l, howner, hl⟩

/-- For a name without a declaration any record counts. -/
theorem route_none (t : ScopeTree) (name : String) (way : List ScopeId) :
    t.route name none true way = way.find? (t.ledgerKnows name) := by
  induction way with
  | nil => rfl
  | cons i way ih =>
    have hon : (some i != none) = true := rfl
    rw [route, List.find?_cons, hon, Bool.and_self, ih]
    cases t.ledgerKnows name i <;> rfl

/-- The search outwards stops at the first ledger, if that one knows the name: the home owns a
ledger too, so it does not come before. -/
theorem route_of_knows {home : Option ScopeId}
    (hhome : ∀ i ∈ home, (t.scope i).ledger.isSome = true)
    (hknows : t.ledgerKnows name owner = true) {way : List ScopeId}
    (hfirst : way.find? (fun i => (t.scope i).ledger.isSome) = some owner) :
    t.route name home true way = some owner := by
  induction way with
  | nil => cases hfirst
  | cons i way ih =>
    rw [List.find?_cons] at hfirst
    by_cases hledger : (t.scope i).ledger.isSome = true
    · simp only [hledger, Option.some.injEq] at hfirst
      subst hfirst
      simp [route, hknows]
    · have hunknown : t.ledgerKnows name i = false :=
        Bool.eq_false_iff.mpr fun h => hledger (ledger_isSome_of_knows h)
      have hne : (some i != home) = true := by
        rw [bne_iff_ne]
        intro heq
        exact hledger (hhome i (heq ▸ rfl))
      simp only [hledger] at hfirst
      simp only [route, if_true, hunknown, hne, Bool.and_self]
      exact ih hfirst

/-- As soon as the nearest ledger knows a name, it answers for it, wherever the name is declared. -/
theorem ledgerFor?_of_knows (howner : t.ledgerOwner? scope = some owner)
    (hknows : t.ledgerKnows name owner = true) : t.ledgerFor? scope name = some owner := by
  have hroute : ∀ home : Option ScopeId, (∀ i ∈ home, (t.scope i).ledger.isSome = true) →
      t.route name home true (t.ancestors scope) = some owner :=
    fun home hhome => route_of_knows hhome hknows howner
  unfold ledgerFor?
  cases hlocate : t.locate? scope name with
  | none =>
    simp only
    rw [← route_none, hroute none (by simp)]
    rfl
  | some declared =>
    have hhome : ∀ i ∈ t.ledgerOwner? declared.1, (t.scope i).ledger.isSome = true :=
      fun i hi => ledger_isSome_of_ledgerOwner? hi
    simp only
    rw [hroute _ hhome]
    rfl

theorem ledgerOwner?_updateLedger (id : ScopeId) (f : Ledger → Ledger) :
    (t.updateLedger id f).ledgerOwner? scope = t.ledgerOwner? scope := by
  have hledger : ∀ i,
      ((t.updateLedger id f).scope i).ledger.isSome = (t.scope i).ledger.isSome := by
    intro i
    rw [ledger_updateLedger]
    split
    · exact Option.isSome_map
    · rfl
  simp only [ledgerOwner?, ancestors_updateLedger, hledger]

end ScopeTree

/-! ### The record just opened -/

/-- The record that an allocation opens. -/
def Allocation.opened (span : Span) (name : String) (owner : Option Ownership) : Allocation :=
  { line := span.line, column := span.column, name := name, function := owner.map (·.function) }

namespace Ledger

/-- The ledger with one more record, whose name stands for itself from now on. -/
def push (l : Ledger) (a : Allocation) : Ledger :=
  { allocations := l.allocations ++ [a], renames := l.renames.filter (·.1 != a.name) }

theorem canonical_push (l : Ledger) (a : Allocation) : (l.push a).canonical a.name = a.name := by
  apply canonical_eq_self
  rw [List.lookup_eq_none_iff]
  intro edge hedge
  have hother : edge.1 ≠ a.name := by simpa using (List.mem_filter.mp hedge).2
  simpa using hother.symm

/-- The name of the last record leads to it, whatever the name stood for before. -/
theorem allocation?_push (l : Ledger) (a : Allocation) :
    (l.push a).allocation? a.name = some a := by
  rw [allocation?, canonical_push, latest?_eq_some]
  exact ⟨rfl, l.allocations, [], rfl, by simp⟩

/-- A release of the last record's name changes that record and no other. -/
theorem release_push (l : Ledger) (a : Allocation) (span : Span) (kind : FreeKind) :
    (l.push a).release a.name span kind = (l.push (released span kind a), outcomeOf kind a) := by
  have hrelease : (l.push a).release a.name span kind =
      ({ l.push a with allocations := l.allocations ++ [released span kind a] },
        outcomeOf kind a) :=
    release_of_some rfl (canonical_push l a).symm (by simp) span kind
  rw [hrelease]
  simp [push, released_name]

end Ledger

/-! ### Events -/

/-- Something that is done with a pointer. -/
inductive PointerEvent where
  /-- By `free(p)`. -/
  | free (span : Span)
  /-- By being passed to someone who takes it over. -/
  | transfer (span : Span)
  /-- By being read through. -/
  | use (span : Span)
  deriving DecidableEq, Repr, Inhabited

namespace PointerEvent

def span : PointerEvent → Span
  | .free span | .transfer span | .use span => span

/-- The event, as it is done with a name from a scope. -/
def exec (scope : ScopeId) (name : String) : PointerEvent → Checker → Checker
  | .free span, c => c.release scope name span .explicit
  | .transfer span, c => c.release scope name span .transfer
  | .use span, c => c.checkUse scope name span

/-- One event after another. -/
def run (scope : ScopeId) (name : String) (events : List PointerEvent) (c : Checker) : Checker :=
  events.foldl (fun c e => e.exec scope name c) c

/-- What is wrong with an event once the pointer has been freed, by the lines of its allocation and
of its first free. -/
def offence (name : String) (allocated freed : Nat) : PointerEvent → Cause
  | .free _ => .doubleFree name allocated freed
  | .transfer _ => .transferAfterFree name freed
  | .use _ => .useAfterFree name (some freed)

/-- The name under which the offence is filed. -/
def tag : PointerEvent → Tag
  | .free _ => .doubleFree
  | .transfer _ | .use _ => .useAfterFree

/-- The lines that the offence cites. -/
def note (allocated freed : Nat) : PointerEvent → String
  | .free _ => s!"allocated at line {allocated}, first freed at line {freed}"
  | .transfer _ | .use _ => s!"freed at line {freed}"

theorem tag_offence (name : String) (allocated freed : Nat) (e : PointerEvent) :
    (e.offence name allocated freed).tag = e.tag := by
  cases e <;> rfl

theorem note?_offence (name : String) (allocated freed : Nat) (e : PointerEvent) :
    (e.offence name allocated freed).note? = some (e.note allocated freed) := by
  cases e <;> rfl

end PointerEvent

namespace Checker

/-- The state with another ledger in a scope that owns one. -/
def withLedger (c : Checker) (owner : ScopeId) (l : Ledger) : Checker :=
  { c with scopes := c.scopes.updateLedger owner fun _ => l }

/-- From a scope, a name leads to the last record `a` of the nearest ledger. -/
structure Follows (c : Checker) (scope : ScopeId) (owner : ScopeId) (l : Ledger)
    (a : Allocation) : Prop where
  nearest : c.scopes.ledgerOwner? scope = some owner
  ledger : (c.scopes.scope owner).ledger = some (l.push a)

variable {c : Checker} {scope owner : ScopeId} {l : Ledger} {a : Allocation}

theorem withLedger_withLedger (c : Checker) (owner : ScopeId) (l m : Ledger) :
    (c.withLedger owner l).withLedger owner m = c.withLedger owner m := by
  have hscopes : (c.scopes.updateLedger owner fun _ => l).updateLedger owner (fun _ => m) =
      c.scopes.updateLedger owner fun _ => m := by
    simp only [ScopeTree.updateLedger, modify_modify]
    apply modify_congr
    cases (c.scopes.scope owner).ledger <;> rfl
  simp only [withLedger, hscopes]

theorem updateLedger_eq_withLedger (hl : (c.scopes.scope owner).ledger = some l)
    (f : Ledger → Ledger) :
    { c with scopes := c.scopes.updateLedger owner f } = c.withLedger owner (f l) := by
  have hscopes : c.scopes.updateLedger owner f = c.scopes.updateLedger owner fun _ => f l := by
    apply modify_congr
    simp [hl]
  simp only [withLedger, hscopes]

/-- An allocation that is recorded adds a record to the nearest ledger. -/
theorem allocate_eq_withLedger (hnearest : c.scopes.ledgerOwner? scope = some owner)
    (hl : (c.scopes.scope owner).ledger = some l)
    (hrecorded : Ledger.isRecorded c.ownership? = true) (name : String) (span : Span) :
    c.allocate scope name span =
      c.withLedger owner (l.push (.opened span name c.ownership?)) := by
  have hupdate := updateLedger_eq_withLedger hl (·.allocate span name c.ownership?)
  rw [Ledger.allocate, if_pos hrecorded] at hupdate
  refine Eq.trans ?_ hupdate
  simp only [allocate, hnearest]

theorem follows_withLedger (hnearest : c.scopes.ledgerOwner? scope = some owner) (l : Ledger)
    (a : Allocation) : (c.withLedger owner (l.push a)).Follows scope owner l a := by
  refine ⟨?_, ?_⟩
  · exact (ledgerOwner?_updateLedger owner _).trans hnearest
  · have hledger := ledger_isSome_of_ledgerOwner? hnearest
    obtain ⟨old, hold⟩ := Option.isSome_iff_exists.mp hledger
    simp [withLedger, ledger_updateLedger, hold]

namespace Follows

section

variable (h : c.Follows scope owner l a)

include h

theorem ledgerFor? : c.scopes.ledgerFor? scope a.name = some owner := by
  apply ledgerFor?_of_knows h.nearest
  simp [ScopeTree.ledgerKnows, h.ledger, Ledger.knows, allocation?_push]

/-- A release changes the record that is followed. -/
theorem release (span : Span) (kind : FreeKind) : c.release scope a.name span kind =
      { c.withLedger owner (l.push (Ledger.released span kind a)) with
        context := c.context.reportAny span ((Ledger.outcomeOf kind a).cause? a.name kind) } := by
  have hupdate := updateLedger_eq_withLedger h.ledger fun l => (l.release a.name span kind).1
  rw [release_push] at hupdate
  rw [release_eq h.ledgerFor? h.ledger, release_push, ← hupdate]

/-- A use is an offence exactly if the record that is followed has been freed. -/
theorem checkUse (span : Span) : c.checkUse scope a.name span =
      { c with
        context := c.context.reportAny span
          (if a.isFreed then some (.useAfterFree a.name a.freeLine) else none) } := by
  unfold Checker.checkUse
  simp [h.ledgerFor?, h.ledger, Ledger.useCause?, allocation?_push]

/-- The first free is silent and marks the record. -/
theorem release_unfreed (hunfreed : a.isFreed = false) (span : Span) :
    c.release scope a.name span .explicit =
      c.withLedger owner (l.push (Ledger.markFreed span a)) := by
  have hrelease := h.release span .explicit
  simp only [Ledger.released, Ledger.outcomeOf, hunfreed] at hrelease
  rw [hrelease]
  rfl

/-- A use before the first free is none that matters. -/
theorem checkUse_unfreed (hunfreed : a.isFreed = false) (span : Span) :
    c.checkUse scope a.name span = c := by
  rw [h.checkUse, hunfreed]
  rfl

/-- An event after the first free is one offence, and the record is followed on. -/
theorem exec (hfreed : a.isFreed = true) {freed : Nat} (hline : a.freeLine = some freed)
    (e : PointerEvent) :
    ∃ b : Allocation, (e.exec scope a.name c).Follows scope owner l b ∧ b.name = a.name ∧
      b.line = a.line ∧ b.isFreed = true ∧ b.freeLine = some freed ∧
      (e.exec scope a.name c).context =
        c.context.report (e.offence a.name a.line freed) e.span := by
  have hnext : ∀ b : Allocation, ∀ context,
      { c.withLedger owner (l.push b) with context }.Follows scope owner l b := by
    intro b context
    have hfollows := follows_withLedger h.nearest l b
    exact ⟨hfollows.nearest, hfollows.ledger⟩
  cases e with
  | free span =>
    refine ⟨Ledger.countFree a, ?_⟩
    have hrelease := h.release span .explicit
    simp only [Ledger.released, Ledger.outcomeOf, hfreed, if_true, hline] at hrelease
    rw [PointerEvent.exec, hrelease]
    exact ⟨hnext _ _, rfl, rfl, hfreed, hline, rfl⟩
  | transfer span =>
    refine ⟨a, ?_⟩
    have hrelease := h.release span .transfer
    simp only [Ledger.released, Ledger.outcomeOf, hfreed, if_true, hline] at hrelease
    rw [PointerEvent.exec, hrelease]
    exact ⟨hnext _ _, rfl, rfl, hfreed, hline, rfl⟩
  | use span =>
    refine ⟨a, ?_⟩
    have huse := h.checkUse span
    simp only [hfreed, if_true, hline] at huse
    rw [PointerEvent.exec, huse]
    exact ⟨⟨h.nearest, h.ledger⟩, rfl, rfl, hfreed, hline, rfl⟩

end

/-- After the first free, each of a run of events is one offence. -/
theorem run (events : List PointerEvent) :
    ∀ {c : Checker} {a : Allocation}, c.Follows scope owner l a → a.isFreed = true →
      ∀ {freed : Nat}, a.freeLine = some freed →
        (PointerEvent.run scope a.name events c).context =
          events.foldl (fun d e => d.report (e.offence a.name a.line freed) e.span) c.context := by
  induction events with
  | nil => exact fun _ _ _ _ => rfl
  | cons e events ih =>
    intro c a h hfreed freed hline
    obtain ⟨b, hnext, hname, hallocated, hbfreed, hbline, hcontext⟩ := h.exec hfreed hline e
    have hrest := ih hnext hbfreed hbline
    rw [hname, hallocated, hcontext] at hrest
    exact hrest

end Follows

/-- What becomes of a pointer that a scope allocates under a name, where `owner` has the nearest
ledger and `l` is that ledger before the allocation. -/
structure Detects (c : Checker) (scope : ScopeId) (name : String) (span : Span) (owner : ScopeId)
    (l : Ledger) : Prop where
  nearest : c.scopes.ledgerOwner? scope = some owner
  before : (c.scopes.scope owner).ledger = some l
  /-- The ledger gets one more record. -/
  opens : c.allocate scope name span =
    c.withLedger owner (l.push (.opened span name c.ownership?))
  /-- Before it is freed, it may be used. -/
  usable : ∀ use, (c.allocate scope name span).checkUse scope name use = c.allocate scope name span
  /-- The first free is silent and marks that record. -/
  frees : ∀ first, (c.allocate scope name span).release scope name first .explicit =
    c.withLedger owner (l.push (Ledger.markFreed first (.opened span name c.ownership?)))
  /-- After it, whatever is done with the pointer is reported, once each. -/
  reports : ∀ first events, ∃ offences : List Finding,
    (PointerEvent.run scope name events
        ((c.allocate scope name span).release scope name first .explicit)).context.findings =
      c.context.findings ++ offences ∧
    offences.map (fun f => (f.tag, f.cause.note?, f.span)) =
      events.map fun e => (e.tag, some (e.note span.line first.line), e.span)

end Checker

/-- Findings that are reported one after another stand at the end of the list. -/
theorem Context.exists_foldl_report (cause : PointerEvent → Cause) (events : List PointerEvent) :
    ∀ d : Context, ∃ offences : List Finding,
      (events.foldl (fun d e => d.report (cause e) e.span) d).findings = d.findings ++ offences ∧
      offences.map (fun f => (f.cause, f.span)) = events.map fun e => (cause e, e.span) := by
  induction events with
  | nil => exact fun d => ⟨[], by simp, rfl⟩
  | cons e events ih =>
    intro d
    obtain ⟨offences, hfindings, hcauses⟩ := ih (d.report (cause e) e.span)
    refine ⟨⟨cause e, e.span, d.filePath, d.lineText? e.span.line⟩ :: offences, ?_, ?_⟩
    · rw [List.foldl_cons, hfindings]
      simp [Context.report]
    · simp [hcauses]

open Checker in
/-- **An allocation is followed from then on.** In every state that a check can come to, let a scope
of a module allocate a pointer under a name, outside of functions that hand their pointers to the
caller. The nearest ledger gets a record of it. The pointer may be used; its first free is silent
and marks that record and nothing else. After that every free is one double free, which cites the
lines of the allocation and of the first free, and every transfer and every use is one use after
free, which cites the line of the first free. No record and no name in any ledger around changes
that. -/
theorem allocation_is_followed {c : Checker} (hc : c.Reachable) {scope : ScopeId} {module : String}
    (hmodule : c.scopes.owningModule? scope = some module)
    (hkeeps : ∀ o ∈ c.ownership?, o.returnsOwnership = false) (name : String) (span : Span) :
    ∃ owner l, c.Detects scope name span owner l := by
  obtain ⟨owner, l, hnearest, hl⟩ := ScopeTree.exists_ledgerOwner?
    (hc.keeps ScopeTree.ModulesOwnLedgers.runInvariant) hmodule
  have hrecorded : Ledger.isRecorded c.ownership? = true := by
    cases ho : c.ownership? with
    | none => rfl
    | some o => simp [Ledger.isRecorded, hkeeps o ho]
  have hopens := allocate_eq_withLedger hnearest hl hrecorded name span
  have hopened := follows_withLedger hnearest l (.opened span name c.ownership?)
  have hfrees : ∀ first, (c.allocate scope name span).release scope name first .explicit =
      c.withLedger owner
        (l.push (Ledger.markFreed first (.opened span name c.ownership?))) := by
    intro first
    have hrelease := hopened.release_unfreed rfl first
    rw [withLedger_withLedger, ← hopens] at hrelease
    exact hrelease
  refine ⟨owner, l, hnearest, hl, hopens, fun use => ?_, hfrees, fun first events => ?_⟩
  · rw [hopens]
    exact hopened.checkUse_unfreed rfl use
  · have hfreed := follows_withLedger hnearest l
      (Ledger.markFreed first (.opened span name c.ownership?))
    obtain ⟨offences, hfindings, hcauses⟩ := Context.exists_foldl_report
      (PointerEvent.offence name span.line first.line) events c.context
    refine ⟨offences, ?_, ?_⟩
    · rw [hfrees, ← hfindings]
      exact congrArg Context.findings (hfreed.run events rfl rfl)
    · have hshown := congrArg (List.map fun f : Cause × Span => (f.1.tag, f.1.note?, f.2)) hcauses
      simpa [Function.comp_def, Finding.tag, PointerEvent.tag_offence,
        PointerEvent.note?_offence] using hshown

/-- A function in scope 2, inside a module that has freed its pointer `p`, for which `q` stands. -/
def Checker.aliasOfFreed : Checker :=
  let empty := ((ofConfig {}).resolve { modules := [{ name := "main", body := [] }] }).checker
  let freed := ((empty.allocate 1 "p" { line := 1 }).rename 1 "q" "p").release 1 "p"
    { line := 2 } .explicit
  { freed with
    scopes := freed.scopes.addFunction 1 "f"
    walk := { frames := [{ returnType := .void, ownership := { function := "f" } }] } }

theorem Checker.reachable_aliasOfFreed : aliasOfFreed.Reachable := by
  have hempty := Reachable.resolve { modules := [{ name := "main", body := [] }] } (.start {})
  have hallocated := Reachable.step (.memory (.allocate 1 "p" { line := 1 })) hempty
  have hrenamed := Reachable.step (.memory (.rename 1 "q" "p")) hallocated
  have hfreed := Reachable.step (.memory (.release 1 "p" { line := 2 } .explicit)) hrenamed
  have hfunction := Reachable.step (.addFunction 1 "f") hfreed
  exact .step (.setWalk (by simpa using .basic "void")) hfunction

/-- The name `q` leads to what has been freed around the function. As soon as the function allocates
a `q` of its own, that one is followed. -/
theorem reallocated_alias_is_followed : ∃ c, c = Checker.aliasOfFreed ∧ c.Reachable ∧
    c.scopes.owningModule? 2 = some "main" ∧ c.ownership? = some { function := "f" } ∧
    (c.checkUse 2 "q" { line := 4 }).context.findings.map (·.cause) =
      [.useAfterFree "q" (some 2)] ∧
    ∃ owner l, c.Detects 2 "q" { line := 5 } owner l := by
  have hmodule : Checker.aliasOfFreed.scopes.owningModule? 2 = some "main" := by decide +kernel
  have hownership : Checker.aliasOfFreed.ownership? = some { function := "f" } := by decide +kernel
  refine ⟨_, rfl, Checker.reachable_aliasOfFreed, hmodule, hownership, by decide +kernel, ?_⟩
  refine allocation_is_followed Checker.reachable_aliasOfFreed hmodule (fun o ho => ?_) "q" _
  rw [hownership] at ho
  cases ho
  rfl

end Warden

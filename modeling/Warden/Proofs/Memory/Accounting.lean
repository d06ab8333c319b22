import Mathlib.Algebra.BigOperators.Group.Finset.Basic
import Mathlib.Algebra.GroupWithZero.Nat
import Mathlib.Algebra.Order.Group.Multiset
import Warden.Proofs.Memory.Hiding
import Warden.Proofs.Resolution.Between

/-!
# The findings of the memory analysis account for the ledgers

At the end of a check, the leaks that were reported are the records that were never freed, and there
are as many reports of double frees as there are frees beyond the first one of a record
(`leaks_and_double_frees_account_for_records`).

Leaks are reported when a function or module is left, not at the end. While the check is in certain
scopes, the leaks reported so far are those of the ledgers of all other scopes (`Accounts`). This
holds through every step, because the ledgers that change are those of scopes that have been
entered, and no scope is entered again once it has been left.
-/

namespace Warden

open ScopeTree Checker

variable {linkageOf : Nat → Linkage} {context : Context} {T : List Level} {i scope id : ScopeId}
  {config : Config} {cause : Cause} {l : Level} {r : Resolver}

/-! ### Totals over all scopes -/

namespace ScopeTree

variable {M : Type} [AddCommMonoid M] {t u : ScopeTree} {f g : ScopeId → Scope → M}

/-- The sum of a quantity over all scopes. -/
def total (t : ScopeTree) (f : ScopeId → Scope → M) : M :=
  ∑ i ∈ Finset.range t.size, f i (t.scope i)

theorem total_congr (hsize : u.size = t.size)
    (h : ∀ i < t.size, f i (u.scope i) = g i (t.scope i)) : u.total f = t.total g := by
  rw [total, total, hsize]
  exact Finset.sum_congr rfl fun i hi => h i (Finset.mem_range.mp hi)

/-- A change of one scope changes one summand. -/
theorem total_modify (t : ScopeTree) (hid : id < t.size) (h : Scope → Scope)
    (f : ScopeId → Scope → M) :
    (t.modify id h).total f + f id (t.scope id) = t.total f + f id (h (t.scope id)) := by
  have hmem : id ∈ Finset.range t.size := Finset.mem_range.mpr hid
  have hrest : ∑ i ∈ (Finset.range t.size).erase id, f i ((t.modify id h).scope i) =
      ∑ i ∈ (Finset.range t.size).erase id, f i (t.scope i) := by
    refine Finset.sum_congr rfl fun i hi => ?_
    rw [scope_modify, if_neg fun heq => (Finset.mem_erase.mp hi).1 heq.1]
  rw [total, total, size_modify, ← Finset.add_sum_erase _ _ hmem,
    ← Finset.add_sum_erase _ (fun i => f i (t.scope i)) hmem, hrest, scope_modify,
    if_pos ⟨rfl, hid⟩, add_comm (f id (h _)), add_comm (f id (t.scope id)), add_right_comm]

theorem total_addScope (t : ScopeTree) (parent : ScopeId) (name : String) (owner : ScopeOwner)
    (ledger : Option Ledger) (hf : ∀ i s children, f i { s with children } = f i s) :
    (t.addScope parent name owner ledger).total f =
      t.total f + f t.size ((t.addScope parent name owner ledger).scope t.size) := by
  rw [total, size_addScope, Finset.sum_range_succ]
  congr 1
  refine Finset.sum_congr rfl fun i hi => ?_
  exact t.field_addScope parent name owner ledger (f i) (hf i)
    (Nat.ne_of_lt (Finset.mem_range.mp hi))

/-- A quantity that does not look at positions is summed over the list of scopes. -/
theorem total_eq_sum (t : ScopeTree) (f : Scope → M) :
    (t.total fun _ => f) = (t.scopes.toList.map f).sum := by
  have hscopes : t.scopes.toList = (List.range t.size).map t.scope := by
    apply List.ext_getElem
    · simp [size]
    · intro i hi _
      rw [Array.length_toList] at hi
      simp [scope, hi]
  rw [hscopes, List.map_map]
  rfl

end ScopeTree

/-! ### Records and findings -/

/-- How many frees beyond the first one of a record an outcome stands for. -/
def FreeOutcome.refreed : FreeOutcome → Nat
  | .doubleFree .. => 1
  | _ => 0

namespace Ledger

/-- The records that were never freed, by name and place. -/
def unfreed (l : Ledger) : List (String × Nat × Nat) :=
  l.leaks.map fun a => (a.name, a.line, a.column)

/-- How often a record was freed after it had been freed. -/
def refrees (l : Ledger) : Nat :=
  (l.allocations.map (·.freeCount - 1)).sum

/-- A record is freed exactly if it was freed at least once. -/
def Counted (l : Ledger) : Prop :=
  ∀ a ∈ l.allocations, a.isFreed = true ↔ 0 < a.freeCount

variable {l : Ledger}

theorem Counted.empty : Counted {} :=
  List.forall_mem_nil _

theorem Counted.allocate (h : l.Counted) (span : Span) (name : String)
    (owner : Option Ownership) : (l.allocate span name owner).Counted := by
  unfold Ledger.allocate
  split
  · intro a ha
    rcases List.mem_append.mp ha with ha | ha
    · exact h a ha
    · simp [List.mem_singleton.mp ha]
  · exact h

theorem refrees_allocate (l : Ledger) (span : Span) (name : String) (owner : Option Ownership) :
    (l.allocate span name owner).refrees = l.refrees := by
  unfold Ledger.allocate
  split <;> simp [refrees]

theorem allocations_rename (l : Ledger) (target source : String) :
    (l.rename target source).allocations = l.allocations := by
  unfold rename
  dsimp only
  split <;> rfl

/-- A record that is released stays counted, and what is reported as a double free is a free beyond
the first one. -/
theorem released_counted {a : Allocation} (h : a.isFreed = true ↔ 0 < a.freeCount) (span : Span)
    (kind : FreeKind) :
    ((released span kind a).isFreed = true ↔ 0 < (released span kind a).freeCount) ∧
      (released span kind a).freeCount - 1 = a.freeCount - 1 + (outcomeOf kind a).refreed := by
  unfold released outcomeOf
  split
  next hfreed =>
    have hcount := h.mp hfreed
    cases kind with
    | explicit =>
      simp only [countFree, FreeOutcome.refreed]
      exact ⟨by simp [hfreed], by omega⟩
    | transfer => exact ⟨h, rfl⟩
  next hfreed =>
    have hcount : a.freeCount = 0 := by
      by_contra hne
      exact hfreed (h.mpr (Nat.pos_of_ne_zero hne))
    simp [markFreed, FreeOutcome.refreed, hcount]

/-- A release counts what it reports. -/
theorem Counted.release (h : l.Counted) (name : String) (span : Span) (kind : FreeKind) :
    (l.release name span kind).1.Counted ∧
      (l.release name span kind).1.refrees = l.refrees + (l.release name span kind).2.refreed := by
  cases hfound : l.allocation? name with
  | none =>
    rw [release_of_none hfound]
    exact ⟨h, rfl⟩
  | some a =>
    obtain ⟨ha, older, newer, hsplit, hnewer⟩ := exists_split_of_allocation? hfound
    rw [release_of_some hsplit ha hnewer]
    unfold Counted at h
    rw [hsplit] at h
    obtain ⟨hcounted, hrefreed⟩ := released_counted (h a (by simp)) span kind
    refine ⟨fun b hb => ?_, ?_⟩
    · rcases List.mem_append.mp hb with hb | hb
      · exact h b (List.mem_append_left _ hb)
      · rcases List.mem_cons.mp hb with rfl | hb
        · exact hcounted
        · exact h b (List.mem_append_right _ (List.mem_cons_of_mem _ hb))
    · simp only [refrees, hsplit, List.map_append, List.map_cons, List.sum_append, List.sum_cons,
        hrefreed]
      omega

end Ledger

namespace Scope

/-- The records of a scope. -/
def records (s : Scope) : List Allocation :=
  s.ledger.elim [] (·.allocations)

def unfreed (s : Scope) : Multiset (String × Nat × Nat) :=
  s.ledger.elim 0 fun l => l.unfreed

def refrees (s : Scope) : Nat :=
  s.ledger.elim 0 (·.refrees)

end Scope

namespace Finding

/-- The name and the place of a leak that is reported. -/
def leak? (f : Finding) : Option (String × Nat × Nat) :=
  match f.cause with
  | .leak name _ _ => some (name, f.span.line, f.span.column)
  | _ => none

def isDoubleFree (f : Finding) : Bool :=
  f.tag == .doubleFree

theorem leak?_eq_none {f : Finding} : f.leak? = none ↔ f.tag ≠ .memoryLeak := by
  obtain ⟨cause, span, filePath, lineText⟩ := f
  cases cause <;> simp [leak?, tag, Cause.tag]

end Finding

/-- What comes of a release is reported, and as many double frees as it stands for. -/
theorem Context.reportAny_outcome (c : Context) (span : Span) (name : String) (kind : FreeKind)
    (outcome : FreeOutcome) :
    let d := c.reportAny span (outcome.cause? name kind)
    d.config = c.config ∧ d.findings.filterMap Finding.leak? = c.findings.filterMap Finding.leak? ∧
      d.findings.countP Finding.isDoubleFree =
        c.findings.countP Finding.isDoubleFree + outcome.refreed := by
  cases outcome <;> cases kind <;>
    simp [FreeOutcome.cause?, reportAny, report, FreeOutcome.refreed, Finding.leak?,
      Finding.isDoubleFree, Finding.tag, Cause.tag]

/-- The leaks reported so far are those in the ledgers of all scopes outside `S`, and the double
frees reported are those in all ledgers. -/
structure Accounts (S : List ScopeId) (c : Checker) : Prop where
  wanted : c.context.config.checkMem = true
  counted : ∀ i l, (c.scopes.scope i).ledger = some l → l.Counted
  leaks : (c.context.findings.filterMap Finding.leak? : Multiset (String × Nat × Nat)) =
    c.scopes.total fun i s => if i ∈ S then 0 else s.unfreed
  doubleFrees : c.context.findings.countP Finding.isDoubleFree =
    c.scopes.total fun _ s => s.refrees

namespace Accounts

variable {S : List ScopeId} {c d : Checker}

section

variable (h : Accounts S c)

include h

/-- Only ledgers and what is found about them matter. -/
theorem congr (hsize : d.scopes.size = c.scopes.size)
    (hledger : ∀ i, (d.scopes.scope i).ledger = (c.scopes.scope i).ledger)
    (hcontext : d.context = c.context) : Accounts S d where
  wanted := hcontext ▸ h.wanted
  counted i l hl := h.counted i l (hledger i ▸ hl)
  leaks := by
    rw [hcontext, h.leaks]
    refine (total_congr hsize fun i _ => ?_).symm
    simp only [Scope.unfreed, hledger]
  doubleFrees := by
    rw [hcontext, h.doubleFrees]
    refine (total_congr hsize fun i _ => ?_).symm
    simp only [Scope.refrees, hledger]

/-- Findings that are neither of leaks nor of double frees. -/
theorem append (hconfig : context.config = c.context.config) {new : List Finding}
    (hnew : context.findings = c.context.findings ++ new) (hleaks : ∀ f ∈ new, f.tag ≠ .memoryLeak)
    (hdoubles : ∀ f ∈ new, f.tag ≠ .doubleFree) : Accounts S { c with context } where
  wanted := hconfig ▸ h.wanted
  counted := h.counted
  leaks := by
    have hnone : new.filterMap Finding.leak? = [] :=
      List.filterMap_eq_nil_iff.mpr fun f hf => Finding.leak?_eq_none.mpr (hleaks f hf)
    rw [hnew, List.filterMap_append, hnone, List.append_nil]
    exact h.leaks
  doubleFrees := by
    have hnone : new.countP Finding.isDoubleFree = 0 :=
      List.countP_eq_zero.mpr fun f hf => by simpa [Finding.isDoubleFree] using hdoubles f hf
    rw [hnew, List.countP_append, hnone, Nat.add_zero]
    exact h.doubleFrees

theorem report (hleak : cause.tag ≠ .memoryLeak) (hdouble : cause.tag ≠ .doubleFree) (span : Span) :
    Accounts S (c.report cause span) :=
  h.append rfl rfl (fun _ hf => by rwa [List.mem_singleton.mp hf])
    fun _ hf => by rwa [List.mem_singleton.mp hf]

theorem reportOther (hcause : cause.tag.isMemory = false) (span : Span) :
    Accounts S (c.report cause span) := by
  refine h.report ?_ ?_ span
  all_goals
    intro htag
    rw [htag] at hcause
    cases hcause

/-- The ledger of a scope in `S` changes, and as many double frees are reported as it counts. -/
theorem updateLedger (hid : id ∈ S) {l : Ledger} (hl : (c.scopes.scope id).ledger = some l)
    {f : Ledger → Ledger} (hcounted : (f l).Counted) (hconfig : context.config = c.context.config)
    (hleaks : context.findings.filterMap Finding.leak? = c.context.findings.filterMap Finding.leak?)
    (hdoubles : context.findings.countP Finding.isDoubleFree + l.refrees =
      c.context.findings.countP Finding.isDoubleFree + (f l).refrees) :
    Accounts S { c with scopes := c.scopes.updateLedger id f, context } := by
  have hlt : id < c.scopes.size := lt_size_of_scope_ne fun hout => by simp [hout] at hl
  refine ⟨hconfig ▸ h.wanted, fun i k hk => ?_, ?_, ?_⟩
  · rw [ledger_updateLedger] at hk
    split at hk
    next heq =>
      rw [heq, hl] at hk
      cases hk
      exact hcounted
    · exact h.counted i k hk
  · rw [hleaks, h.leaks]
    refine (total_congr (c.scopes.size_modify id _) fun i _ => ?_).symm
    by_cases hi : i ∈ S
    · rw [if_pos hi, if_pos hi]
    · have hne : i ≠ id := fun heq => hi (heq ▸ hid)
      rw [if_neg hi, if_neg hi, scope_modify, if_neg fun heq => hne heq.1]
  · have htotal := c.scopes.total_modify hlt (fun s => { s with ledger := s.ledger.map f })
      fun _ s => s.refrees
    simp only [Scope.refrees, hl, Option.map_some, Option.elim_some] at htotal
    have hold := h.doubleFrees
    simp only [Scope.refrees] at hold
    simp only [ScopeTree.updateLedger, Scope.refrees]
    omega

end

section

variable (h : Accounts ((l :: T).map (·.scope)) c)

include h

theorem allocate (hS : Nested (l :: T) c) (name : String) (span : Span) :
    Accounts ((l :: T).map (·.scope)) (c.allocate l.scope name span) := by
  rw [Checker.allocate]
  split
  · exact h
  next id hid =>
    have howns := List.find?_some (p := fun i => (c.scopes.scope i).ledger.isSome) hid
    obtain ⟨ledger, hledger⟩ := Option.isSome_iff_exists.mp howns
    have hcounted := (h.counted id ledger hledger).allocate span name c.ownership?
    have hrefrees := ledger.refrees_allocate span name c.ownership?
    exact h.updateLedger (f := (·.allocate span name c.ownership?)) (hS.mem_of_ledgerOwner? hid)
      hledger hcounted rfl rfl (by rw [hrefrees])

theorem rename (hS : Nested (l :: T) c) (target source : String) :
    Accounts ((l :: T).map (·.scope)) (c.rename l.scope target source) := by
  rw [Checker.rename]
  split
  · exact h
  next id hid =>
    cases hledger : (c.scopes.scope id).ledger with
    | none =>
      have hsame : c.scopes.updateLedger id (·.rename target source) = c.scopes :=
        modify_eq_self (by rw [hledger, Option.map_none, ← hledger])
      rw [hsame]
      exact h
    | some ledger =>
      have hsame := ledger.allocations_rename target source
      have hcounted : (ledger.rename target source).Counted := by
        rw [Ledger.Counted, hsame]
        exact h.counted id ledger hledger
      have hrefrees : (ledger.rename target source).refrees = ledger.refrees := by
        rw [Ledger.refrees, hsame, Ledger.refrees]
      exact h.updateLedger (hS.mem_of_ledgerFor? hid) hledger hcounted rfl rfl (by rw [hrefrees])

/-- A double free is reported exactly when it is counted. -/
theorem release (hS : Nested (l :: T) c) (name : String) (span : Span) (kind : FreeKind) :
    Accounts ((l :: T).map (·.scope)) (c.release l.scope name span kind) := by
  rw [Checker.release]
  split
  · exact h
  next id hid =>
    split
    · exact h
    next ledger hledger =>
      obtain ⟨hcounted, hrefrees⟩ := (h.counted id ledger hledger).release name span kind
      obtain ⟨hconfig, hleaks, hdoubles⟩ :=
        c.context.reportAny_outcome span name kind (ledger.release name span kind).2
      exact h.updateLedger (hS.mem_of_ledgerFor? hid) hledger hcounted hconfig hleaks
        (by rw [hdoubles, hrefrees, Nat.add_right_comm, Nat.add_assoc])

end

theorem checkUse (h : Accounts S c) (scope : ScopeId) (name : String) (span : Span) :
    Accounts S (c.checkUse scope name span) := by
  have htag := fun cause (hmem : cause ∈ _) => c.tag_of_mem_useCause? scope name hmem
  rw [Checker.checkUse]
  generalize (c.scopes.ledgerFor? scope name).bind _ = cause? at htag ⊢
  cases cause? with
  | none => exact h
  | some cause =>
    refine h.report ?_ ?_ span
    all_goals simp [htag cause rfl]

/-! ### Scopes that are entered and left -/

/-- A new scope is entered, which has no records. -/
theorem push (h : Accounts S c) (parent : ScopeId) (name : String) (owner : ScopeOwner)
    {ledger : Option Ledger} (hempty : ∀ l ∈ ledger, l = {}) : Accounts (c.scopes.size :: S)
      { c with scopes := c.scopes.addScope parent name owner ledger } := by
  have hnew := c.scopes.scope_addScope_size parent name owner ledger
  refine ⟨h.wanted, fun i l hl => ?_, ?_, ?_⟩
  · by_cases hi : i = c.scopes.size
    · rw [hi, hnew] at hl
      exact hempty l hl ▸ .empty
    · rw [c.scopes.field_addScope parent name owner ledger Scope.ledger (fun _ _ => rfl) hi] at hl
      exact h.counted i l hl
  · rw [total_addScope _ _ _ _ _ fun _ _ _ => rfl, if_pos (List.mem_cons_self ..),
      add_zero, h.leaks]
    refine total_congr rfl fun i hi => ?_
    simp [Nat.ne_of_lt hi]
  · rw [total_addScope _ _ _ _ _ fun _ _ _ => rfl, hnew, h.doubleFrees]
    cases ledger with
    | none => rfl
    | some l =>
      rw [hempty l rfl]
      rfl

/-- A scope is left after its leaks have been reported. -/
theorem leave (h : Accounts (i :: S) c) (hi : i ∉ S) (hlt : i < c.scopes.size)
    (hconfig : context.config = c.context.config)
    (hleaks : (context.findings.filterMap Finding.leak? : Multiset (String × Nat × Nat)) =
      c.context.findings.filterMap Finding.leak? + (c.scopes.scope i).unfreed)
    (hdoubles : context.findings.countP Finding.isDoubleFree =
      c.context.findings.countP Finding.isDoubleFree)
    (walk : Walk) : Accounts S { c with context, walk } := by
  refine ⟨hconfig ▸ h.wanted, h.counted, ?_, hdoubles.trans h.doubleFrees⟩
  have hmem : i ∈ Finset.range c.scopes.size := Finset.mem_range.mpr hlt
  rw [hleaks, h.leaks, ScopeTree.total, ScopeTree.total, ← Finset.sum_erase_add _ _ hmem,
    ← Finset.sum_erase_add _ _ hmem, if_pos (List.mem_cons_self ..), if_neg hi, add_zero]
  congr 1
  refine Finset.sum_congr rfl fun j hj => ?_
  simp [(Finset.mem_erase.mp hj).1]

end Accounts

/-- What is reported when a ledger is left. -/
theorem Context.reportLeaks_findings (c : Context) (l : Ledger) :
    let d := c.reportLeaks l
    d.config = c.config ∧
      d.findings.filterMap Finding.leak? = c.findings.filterMap Finding.leak? ++ l.unfreed ∧
      d.findings.countP Finding.isDoubleFree = c.findings.countP Finding.isDoubleFree := by
  unfold reportLeaks Ledger.unfreed
  generalize l.leaks = leaks
  induction leaks generalizing c with
  | nil => simp
  | cons a leaks ih =>
    obtain ⟨hconfig, hleaks, hdoubles⟩ := ih (c.report (a.leakCause c.moduleName) a.leakSpan)
    refine ⟨hconfig, ?_, ?_⟩
    · rw [List.foldl_cons, hleaks]
      simp [report, Finding.leak?, Allocation.leakCause, Allocation.leakSpan]
    · rw [List.foldl_cons, hdoubles]
      simp [report, Finding.isDoubleFree, Finding.tag, Allocation.leakCause, Cause.tag]

namespace Accounts

variable {S : List ScopeId} {c : Checker}

/-- The scope of a block is left, which owns no ledger. -/
theorem leaveBlock (h : Accounts (i :: S) c) (hi : i ∉ S) (hlt : i < c.scopes.size)
    (hledger : (c.scopes.scope i).ledger.isSome = false) (walk : Walk) :
    Accounts S { c with walk } := by
  rw [Option.isSome_eq_false_iff, Option.isNone_iff_eq_none] at hledger
  refine h.leave hi hlt rfl ?_ rfl walk
  rw [Scope.unfreed, hledger, Option.elim_none, add_zero]

/-- The scope of a function or module is left. -/
theorem leaveBody (h : Accounts (i :: S) c) (hi : i ∉ S) (hlt : i < c.scopes.size)
    (hledger : (c.scopes.scope i).ledger.isSome = true) (walk : Walk) :
    Accounts S { c.reportLeaks i with walk } := by
  obtain ⟨l, hl⟩ := Option.isSome_iff_exists.mp hledger
  obtain ⟨hconfig, hleaks, hdoubles⟩ := c.context.reportLeaks_findings l
  simp only [reportLeaks, h.wanted, if_true, hl]
  refine h.leave hi hlt hconfig ?_ hdoubles walk
  rw [hleaks, Scope.unfreed, hl, Option.elim_some, Multiset.coe_add]

end Accounts

/-- Every step of a check keeps the accounts. -/
theorem accounts_invariant : StackInvariant (fun _ => True) (fun _ => True) Nested
    fun S => Accounts (S.map (·.scope)) where
  report span htyping _ h := h.reportOther (Cause.isMemory_tag_of_isTyping htyping) span
  record _ _ _ h := h.congr rfl (fun _ => rfl) rfl
  insert ht _ h := by
    obtain ⟨-, rfl⟩ := eq_of_insert? ht
    exact h.congr (size_modify ..)
      (field_modify _ _ Scope.ledger fun _ => rfl) rfl
  reserve _ _ _ h := ⟨trivial, h.congr rfl (fun _ => rfl) rfl⟩
  finalize _ _ h := h.congr rfl (fun _ => rfl) rfl
  allocate name span hS h := h.allocate hS name span
  rename target source hS h := h.rename hS target source
  release name span kind hS h := h.release hS name span kind
  checkUse name span _ h := h.checkUse _ name span
  deferFree _ _ _ _ h :=
    h.congr (size_modify ..) (field_modify _ _ Scope.ledger fun _ => rfl) rfl
  clearDeferred _ h :=
    h.congr (size_modify ..) (field_modify _ _ Scope.ledger fun _ => rfl) rfl
  enterLoop _ h := h.congr rfl (fun _ => rfl) rfl
  enterDefer _ h := h.congr rfl (fun _ => rfl) rfl
  restore _ _ _ h := h.congr rfl (fun _ => rfl) rfl
  pushBlock name _ h := h.push _ name .block nofun
  popBlock _ _ _ hS h :=
    h.leaveBlock hS.scope_notMem hS.scope_lt (hS.owner _ (List.mem_cons_self ..)) _
  pushBody {l _ c} frame name _ h := by
    have hpushed := h.push l.scope name (.function name) (fun _ hl => (Option.some.inj hl).symm)
    exact hpushed.congr rfl (fun _ => rfl) rfl
  popBody _ _ hS h :=
    h.leaveBody hS.scope_notMem hS.scope_lt (hS.owner _ (List.mem_cons_self ..)) _

/-! ### Modules -/

namespace Accounts

variable {S : List ScopeId} {c : Checker}

/-- A scope without records is entered. -/
theorem enter (h : Accounts S c) (hi : (c.scopes.scope i).unfreed = 0) : Accounts (i :: S) c := by
  refine ⟨h.wanted, h.counted, ?_, h.doubleFrees⟩
  rw [h.leaks]
  refine total_congr rfl fun j _ => ?_
  by_cases hj : j = i
  · subst hj
    simp [hi]
  · simp [hj]

/-- The leaks of a module are reported when it is left. -/
theorem check (h : Accounts [] c) (m : Module) (hS : Nested (moduleStack scope) c)
    (hledger : (c.scopes.scope scope).ledger = some {}) : Accounts [] ((m.check scope).exec c) := by
  have hglobal : (c.scopes.scope 0).ledger.isSome = false := hS.owner ⟨0, false⟩ (by simp)
  rw [Option.isSome_eq_false_iff, Option.isNone_iff_eq_none] at hglobal
  have hentered : Accounts [scope, 0] (c.entered m) := by
    have hstart : Accounts [scope, 0] c :=
      (h.enter (by rw [Scope.unfreed, hglobal]; rfl)).enter (by rw [Scope.unfreed, hledger]; rfl)
    exact hstart.append rfl (List.append_nil _).symm (List.forall_mem_nil _) (List.forall_mem_nil _)
  obtain ⟨hleft, haccounts, -⟩ := nested_unconditional.leftModule accounts_invariant
    (fun _ _ => trivial) (hS.congr rfl (fun _ => rfl) (fun _ => rfl) rfl) hentered
  rw [Module.exec_check]
  have hbody := haccounts.leaveBody hleft.scope_notMem hleft.scope_lt
    (hleft.owner _ (List.mem_cons_self ..)) (c.leftModule m scope).walk
  have hscopes := (c.leftModule m scope).scopes_reportLeaks scope
  have hzero : 0 < ((c.leftModule m scope).reportLeaks scope).scopes.size := by
    rw [hscopes]
    exact Nat.zero_lt_of_lt hleft.scope_lt
  have hnone :
      (((c.leftModule m scope).reportLeaks scope).scopes.scope 0).ledger.isSome = false := by
    rw [hscopes]
    exact hleft.owner ⟨0, false⟩ (by simp)
  have hglobal := hbody.leaveBlock List.not_mem_nil hzero hnone c.walk
  exact hglobal.congr rfl (fun _ => rfl) rfl

end Accounts

/-! ### The findings before the tour -/

/-- Nothing is found about memory before the tour. -/
theorem Checker.isMemory_linked (config : Config) (p : Program) :
    ∀ f ∈ ((ofConfig config).linked p).checker.context.findings, f.isMemory = false :=
  fun f hf => (Cause.not_isMemory_of_isLinking (isLinking_linked config p f hf)).1

namespace Resolver

/-- Before the tour there are no records, and nothing has been found about any. -/
theorem accounts_start (h : Layout config linkageOf r) (hwanted : config.checkMem = true)
    (hfindings : ∀ f ∈ r.checker.context.findings, f.isMemory = false) : Accounts [] r.checker := by
  have hempty : ∀ i l, (r.checker.scopes.scope i).ledger = some l → l = {} := by
    intro i l hl
    rcases h.cases_scope i with rfl | ⟨slot, s, hs, rfl⟩ | hge
    · rw [congrArg Scope.ledger h.global] at hl
      cases hl
    · rw [h.module slot s hs] at hl
      exact (Option.some.inj hl).symm
    · rw [scope_of_size_le hge] at hl
      cases hl
  have hnone : ∀ f ∈ r.checker.context.findings, f.tag ≠ .memoryLeak ∧ f.tag ≠ .doubleFree := by
    intro f hf
    have hother := hfindings f hf
    rw [Finding.isMemory] at hother
    constructor <;> intro htag <;> simp [htag, Tag.isMemory] at hother
  refine ⟨h.config ▸ hwanted, fun i l hl => hempty i l hl ▸ .empty, ?_, ?_⟩
  · rw [List.filterMap_eq_nil_iff.mpr fun f hf => Finding.leak?_eq_none.mpr (hnone f hf).1]
    refine (Finset.sum_eq_zero fun i _ => ?_).symm
    cases hledger : (r.checker.scopes.scope i).ledger with
    | none => simp [Scope.unfreed, hledger]
    | some l => simp [Scope.unfreed, hledger, hempty i l hledger, Ledger.unfreed, Ledger.leaks]
  · rw [List.countP_eq_zero.mpr fun f hf => by simpa [Finding.isDoubleFree] using (hnone f hf).2]
    refine (Finset.sum_eq_zero fun i _ => ?_).symm
    cases hledger : (r.checker.scopes.scope i).ledger with
    | none => simp [Scope.refrees, hledger]
    | some l => simp [Scope.refrees, hledger, hempty i l hledger, Ledger.refrees]

/-- The accounts are kept by all events of a tour that checks no module twice. -/
theorem accounts_events (hlayout : Layout config linkageOf r) {checked : List Nat} {c : Checker}
    (hbetween : Between config r checked c) (h : Accounts [] c) (events : List Event)
    (hnodup : (checked ++ checkedIn events).Nodup) : Accounts [] (events.foldl r.perform c) := by
  induction events generalizing checked c with
  | nil => exact h
  | cons e events ih =>
    have hnodup' : (checked ++ checkedIn [e] ++ checkedIn events).Nodup := by
      rwa [List.append_assoc, ← checkedIn_append]
    refine ih (hbetween.perform hlayout e) ?_ hnodup'
    cases e with
    | check i =>
      rw [perform]
      split
      · exact h
      next s hs =>
        have hscope := (hlayout.slot i s hs).1
        have hnew : i ∉ checked := by
          intro hmem
          exact (List.nodup_append.mp hnodup).2.2 i hmem i (.head _) rfl
        refine h.check s.module (hbetween.nested i s hs) ?_
        rw [hbetween.scope s.scope (hlayout.scope_lt hs) ?_, hscope, hlayout.module i s hs]
        · rfl
        · rw [hscope]
          rintro slot hslot heq
          exact hnew (Nat.succ.inj heq ▸ hslot)
    | cycle path user used span =>
      rw [perform]
      split
      · exact h
      next s _ =>
        have hentered : Accounts [] (c.entered s.module) :=
          h.append rfl (List.append_nil _).symm (List.forall_mem_nil _) (List.forall_mem_nil _)
        exact hentered.reportOther rfl span

end Resolver

/-- All records that a check has made. -/
def Checker.records (c : Checker) : List Allocation :=
  c.scopes.scopes.toList.flatMap Scope.records

theorem Checker.unfreed_total (c : Checker) : (c.scopes.total fun _ s => s.unfreed) =
    ((c.records.filter (!·.isFreed)).map fun a => (a.name, a.line, a.column) :
      List (String × Nat × Nat)) := by
  rw [total_eq_sum, records]
  induction c.scopes.scopes.toList with
  | nil => rfl
  | cons s scopes ih =>
    rw [List.map_cons, List.sum_cons, ih, List.flatMap_cons, List.filter_append, List.map_append,
      ← Multiset.coe_add]
    congr 1
    cases hledger : s.ledger with
    | none => simp [Scope.unfreed, Scope.records, hledger]
    | some l => simp [Scope.unfreed, Scope.records, hledger, Ledger.unfreed, Ledger.leaks]

theorem Checker.refrees_total (c : Checker) : (c.scopes.total fun _ s => s.refrees) =
    (c.records.map (·.freeCount - 1)).sum := by
  rw [total_eq_sum, records]
  induction c.scopes.scopes.toList with
  | nil => rfl
  | cons s scopes ih =>
    rw [List.map_cons, List.sum_cons, ih, List.flatMap_cons, List.map_append, List.sum_append]
    congr 1
    cases hledger : s.ledger with
    | none => simp [Scope.refrees, Scope.records, hledger]
    | some l => simp [Scope.refrees, Scope.records, hledger, Ledger.refrees]

/-- **The findings of the memory analysis account for the records.** After the check of a program
with leaks wanted, the leaks reported are the records that were never freed, each with its name and
the place of its allocation. Double frees are reported as often as records were freed again. -/
theorem leaks_and_double_frees_account_for_records (p : Program) (config : Config)
    (hwanted : config.checkMem = true) :
    ((p.check config).context.findings.filterMap Finding.leak?).Perm
        (((p.check config).records.filter (!·.isFreed)).map fun a => (a.name, a.line, a.column)) ∧
      (p.check config).context.findings.countP Finding.isDoubleFree =
        ((p.check config).records.map (·.freeCount - 1)).sum := by
  obtain ⟨events, -, hresolve, hcourse, -⟩ := Checker.exists_course_resolve config p
  obtain ⟨hlayout, -⟩ := Checker.layout_linked config p
  have hfindings := Checker.isMemory_linked config p
  rw [Program.check, hresolve]
  generalize (Checker.ofConfig config).linked p = r at *
  have haccounts : Accounts [] (r.after events []).checker := by
    have hnodup := hcourse.nodup
    rw [List.append_nil] at hnodup
    exact Resolver.accounts_events hlayout (.start hlayout)
      (Resolver.accounts_start hlayout hwanted hfindings) events hnodup
  generalize (r.after events []).checker = c at *
  constructor
  · rw [← Multiset.coe_eq_coe, haccounts.leaks, ← c.unfreed_total]
    rfl
  · rw [haccounts.doubleFrees, c.refrees_total]

/-- A function that frees one pointer twice and another one not at all. -/
def leakAndDoubleFree : Program :=
  { modules := [{
      name := "main"
      body := [
        ⟨{}, .fn ⟨"f", [], .named {} none "void",
          ⟨{}, [
            ⟨⟨2, 5, 1⟩, .var {
              name := "p"
              ty := some (.pointer {} (.named {} none "int"))
              value := some ⟨1, {}, .call ⟨2, {}, .ident "alloc"⟩ [⟨3, {}, .int 8⟩]⟩ }⟩,
            ⟨⟨3, 5, 1⟩, .var {
              name := "q"
              ty := some (.pointer {} (.named {} none "int"))
              value := some ⟨4, {}, .call ⟨5, {}, .ident "alloc"⟩ [⟨6, {}, .int 8⟩]⟩ }⟩,
            ⟨{}, .expr ⟨7, ⟨4, 5, 1⟩, .call ⟨8, {}, .ident "free"⟩ [⟨9, {}, .ident "p"⟩]⟩⟩,
            ⟨{}, .expr ⟨10, ⟨5, 5, 1⟩, .call ⟨11, {}, .ident "free"⟩ [⟨12, {}, .ident "p"⟩]⟩⟩]⟩,
          false, false, false⟩⟩] }] }

/-- One leak and one double free are reported, and there is one record for each. -/
theorem leak_and_double_free_accounted :
    let c := leakAndDoubleFree.check { checkMem := true }
    c.context.findings.filterMap Finding.leak? = [("q", 3, 5)] ∧
      c.context.findings.countP Finding.isDoubleFree = 1 ∧
      [("q", 3, 5)].Perm ((c.records.filter (!·.isFreed)).map fun a => (a.name, a.line, a.column)) ∧
      (c.records.map (·.freeCount - 1)).sum = 1 := by
  have hleaks : (leakAndDoubleFree.check { checkMem := true }).context.findings.filterMap
      Finding.leak? = [("q", 3, 5)] := by decide +kernel
  have hdoubles : (leakAndDoubleFree.check { checkMem := true }).context.findings.countP
      Finding.isDoubleFree = 1 := by decide +kernel
  obtain ⟨hperm, hcount⟩ :=
    leaks_and_double_frees_account_for_records leakAndDoubleFree { checkMem := true } rfl
  exact ⟨hleaks, hdoubles, hleaks ▸ hperm, hcount.symm.trans hdoubles⟩

end Warden

import Warden.Proofs.Memory.Accounting
import Warden.Proofs.Memory.HandOff
import Warden.Proofs.Memory.Shadowing

/-!
# Rules that release nothing

Most rules of the check release no record and put nothing off. `Kept` compares two states between
which only such rules have been at work: each record is as it was and where it was, and so are the
queues. A rule is `Silent` if it leaves all scopes alone, and `Sparing` if it may declare names,
open records and let names stand for others, but no more. What is left are calls, which hand
pointers over or free them, and the ends of scopes.
-/

namespace Warden

open CheckM Check ScopeTree

variable {scope : ScopeId} {α : Type}

/-- Nothing that was there in the first state has been released or put off since. -/
structure Kept (c d : Checker) : Prop where
  size : c.scopes.size ≤ d.scopes.size
  records : ∀ i, (c.scopes.scope i).records <+: (d.scopes.scope i).records
  deferred : ∀ i, i < c.scopes.size → (d.scopes.scope i).deferred = (c.scopes.scope i).deferred
  walk : d.walk = c.walk

namespace Kept

variable {c d e : Checker}

theorem ofScopes (hscopes : d.scopes = c.scopes) (hwalk : d.walk = c.walk) : Kept c d :=
  ⟨by rw [hscopes], fun i => by rw [hscopes], fun i _ => by rw [hscopes], hwalk⟩

theorem refl (c : Checker) : Kept c c :=
  ofScopes rfl rfl

theorem trans (h : Kept c d) (h' : Kept d e) : Kept c e :=
  ⟨Nat.le_trans h.size h'.size, fun i => (h.records i).trans (h'.records i),
    fun i hi => (h'.deferred i (Nat.lt_of_lt_of_le hi h.size)).trans (h.deferred i hi),
    h'.walk.trans h.walk⟩

/-- A change of one scope that touches none of its records. -/
theorem ofModify {id : ScopeId} {f : Scope → Scope} (hd : d.scopes = c.scopes.modify id f)
    (hwalk : d.walk = c.walk) (hrecords : ∀ s, s.records <+: (f s).records)
    (hdeferred : ∀ s, (f s).deferred = s.deferred) : Kept c d := by
  refine ⟨by simp [hd], fun i => ?_, fun i _ => ?_, hwalk⟩
  · rw [hd, scope_modify]
    split
    · exact hrecords _
    · exact List.prefix_refl _
  · rw [hd, field_modify c.scopes id Scope.deferred hdeferred]

theorem allocate (scope : ScopeId) (name : String) (span : Span) :
    Kept c (c.allocate scope name span) := by
  unfold Checker.allocate
  split
  · exact refl c
  · refine ofModify rfl rfl (fun s => ?_) fun _ => rfl
    cases hl : s.ledger with
    | none => simp [Scope.records, hl]
    | some l =>
      simp only [Scope.records, hl, Option.map_some, Option.elim_some, Ledger.allocate]
      split
      · exact List.prefix_append _ _
      · exact List.prefix_refl _

theorem rename (scope : ScopeId) (target source : String) :
    Kept c (c.rename scope target source) := by
  unfold Checker.rename
  split
  · exact refl c
  · refine ofModify rfl rfl (fun s => ?_) fun _ => rfl
    cases hl : s.ledger <;> simp [Scope.records, hl, Ledger.allocations_rename]

/-- A new scope has no records and no queue. -/
theorem addScope (parent : ScopeId) (name : String) (owner : ScopeOwner) (ledger : Option Ledger)
    (hd : d.scopes = c.scopes.addScope parent name owner ledger) (hwalk : d.walk = c.walk) :
    Kept c d := by
  refine ⟨by simp [hd], fun i => ?_, fun i hi => ?_, hwalk⟩
  · by_cases hi : i = c.scopes.size
    · rw [hi, scope_of_size_le (Nat.le_refl _)]
      exact List.nil_prefix
    · rw [hd, field_addScope c.scopes parent name owner ledger Scope.records
        (fun _ _ => rfl) hi]
  · rw [hd, field_addScope c.scopes parent name owner ledger Scope.deferred
      (fun _ _ => rfl) (Nat.ne_of_lt hi)]

end Kept

/-- The action leaves all scopes and the walk as they are. -/
def Silent {α : Type} (m : CheckM α) : Prop :=
  ∀ c, (m.exec c).scopes = c.scopes ∧ (m.exec c).walk = c.walk

/-- The action releases nothing and puts nothing off. -/
def Sparing {α : Type} (m : CheckM α) : Prop :=
  ∀ c, Kept c (m.exec c)

namespace Silent

variable {α : Type}

theorem report (cause : Cause) (span : Span) : Silent (CheckM.report cause span) :=
  fun _ => ⟨rfl, rfl⟩

theorem reject (cause : Cause) (span : Span) : Silent (CheckM.reject cause span) :=
  fun _ => ⟨rfl, rfl⟩

theorem fail (cause : Cause) (span : Span) : Silent (CheckM.fail cause span : CheckM (Option α)) :=
  fun _ => ⟨rfl, rfl⟩

theorem recorded (id : NodeId) (ty : Option Ty) : Silent (CheckM.recorded id ty) := by
  cases ty <;> exact fun _ => ⟨rfl, rfl⟩

theorem sparing {m : CheckM α} (hm : Silent m) : Sparing m :=
  fun c => .ofScopes (hm c).1 (hm c).2

end Silent

/-- A rule that only reports leaves all scopes alone. -/
theorem CheckM.OnlyReports.silent {m : CheckM α} (h : m.OnlyReports scope) : Silent m := by
  intro c₀
  have hR : ReportLockstep (.same (fun _ => True) fun _ => True) scope scope
      (fun c d => c = d ∧ c.scopes = c₀.scopes ∧ c.walk = c₀.walk) := by
    constructor
    · rintro c d ⟨rfl, -⟩
      exact SameView.view ⟨rfl, rfl, rfl, rfl, rfl⟩ _ _ scope
    · rintro c d cause cause' span hcause - ⟨rfl, hsame⟩
      rw [← hcause.eq_of_same]
      exact ⟨rfl, hsame⟩
    · rintro c d name span ⟨rfl, hsame⟩
      exact ⟨rfl, hsame⟩
  exact (h _ _ hR c₀ c₀ ⟨rfl, rfl, rfl⟩).states.2

theorem CheckM.OnlyReports.sparing {m : CheckM α} (h : m.OnlyReports scope) : Sparing m :=
  h.silent.sparing

namespace Sparing

variable {α β : Type}

theorem ofPure (a : α) : Sparing (pure a : CheckM α) :=
  fun c => .refl c

theorem bind {m : CheckM α} {k : α → CheckM β} (hm : Sparing m) (hk : ∀ a, Sparing (k a)) :
    Sparing (m >>= k) :=
  fun c => (hm c).trans (hk _ _)

theorem ofGet {k : Checker → CheckM β} (hk : ∀ c, Sparing (k c)) : Sparing (get >>= k) :=
  fun c => hk c c

theorem reject (cause : Cause) (span : Span) : Sparing (CheckM.reject cause span) :=
  (Silent.reject cause span).sparing

theorem addBlock (parent : ScopeId) (name : String) : Sparing (CheckM.addBlock parent name) :=
  fun _ => .addScope parent name .block none rfl rfl

theorem addFunction (parent : ScopeId) (name : String) : Sparing (CheckM.addFunction parent name) :=
  fun _ => .addScope parent name (.function name) (some {}) rfl rfl

end Sparing

/-- What binds names opens records at most. -/
theorem CheckM.Binds.sparing {m : CheckM α} (hm : m.Binds scope) : Sparing m := by
  intro c
  refine hm (Kept c) ⟨fun _ _ h => h.trans (.ofScopes rfl rfl), fun hinsert h => ?_,
    fun _ _ h => h.trans (.allocate ..), fun _ _ h => h.trans (.rename ..)⟩ c (.refl c)
  obtain ⟨-, rfl⟩ := eq_of_insert? hinsert
  exact h.trans (.ofModify rfl rfl (fun _ => List.prefix_refl _) fun _ => rfl)

section

variable (scope : ScopeId)

theorem sparing_assign (target value : Expr) (targetTy valueTy : Option Ty)
    (owns : Checker → Bool) : Sparing (assign target value targetTy valueTy owns scope) := by
  unfold assign
  split
  · split
    · exact (Silent.fail _ _).sparing
    · cases target.ident? with
      | none => exact .ofPure _
      | some name =>
        refine .ofGet fun c => ?_
        exact (binds_bindValue scope name value _ _ target.span).sparing.bind fun _ => .ofPure _
  · exact .ofPure _

theorem silent_returned (expected : Option Ty) (value : Option Expr) (found : Option (Option Ty))
    (span : Span) : Silent (returned expected value found span) := by
  cases expected with
  | none => exact .reject _ span
  | some ty => exact (reports_returned 0 ty value found span).silent

theorem silent_reportLeaks : Silent (modify (·.reportLeaks scope)) :=
  fun c => ⟨c.scopes_reportLeaks scope, (MemoryOp.reportLeaks scope).step c |>.walk⟩

end

end Warden

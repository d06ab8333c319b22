import Warden.Proofs.Journal.Plain
import Warden.Proofs.Memory.Accounting

/-!
# Who holds a record

A record names the function it is charged to. This is the function around which the walk stands, but
the record itself is opened in a ledger that is found from the scope outwards. `Checker.Charges`
says for a state and a scope in which ledger a new record would stand and whom it would name.

Nothing but an allocation changes what records say about this, and a rule that is checked in a scope
allocates in that scope only. So what a rule adds is what the state in which it starts charges
(`Charged`).
-/

namespace Warden

open CheckM Check ScopeTree

variable {x : Option String} {scope i : ScopeId} {name : String} {span : Span} {d : Checker}

/-- The functions that the records of a scope are charged to, in the order of the records. -/
def Scope.holders (s : Scope) : List (Option String) :=
  s.records.map (·.function)

/-! ### Ledgers -/

theorem Ledger.function_released (span : Span) (kind : FreeKind) (a : Allocation) :
    (released span kind a).function = a.function := by
  unfold released
  split
  · cases kind <;> rfl
  · rfl

/-- A release leaves every record where it was charged. -/
theorem Ledger.holders_release (l : Ledger) (name : String) (span : Span) (kind : FreeKind) :
    (l.release name span kind).1.allocations.map (·.function) =
      l.allocations.map (·.function) := by
  cases hfound : l.allocation? name with
  | none => rw [release_of_none hfound]
  | some a =>
    obtain ⟨ha, older, newer, hsplit, hnewer⟩ := exists_split_of_allocation? hfound
    rw [release_of_some hsplit ha hnewer, hsplit]
    simp [function_released]

theorem Ledger.mem_holders_allocate {l : Ledger} {owner : Option Ownership}
    (hx : x ∈ (l.allocate span name owner).allocations.map (·.function)) :
    x ∈ l.allocations.map (·.function) ∨
      x = owner.map (·.function) ∧ isRecorded owner = true := by
  unfold Ledger.allocate at hx
  split at hx
  next hrecorded =>
    rw [List.map_append, List.mem_append] at hx
    rcases hx with hx | hx
    · exact .inl hx
    · exact .inr ⟨List.mem_singleton.mp hx, hrecorded⟩
  · exact .inl hx

/-- Ledgers may change, as long as no record is charged differently. -/
theorem ScopeTree.holders_updateLedger (t : ScopeTree) (id : ScopeId) {f : Ledger → Ledger}
    (hf : ∀ l, (f l).allocations.map (·.function) = l.allocations.map (·.function))
    (i : ScopeId) : ((t.updateLedger id f).scope i).holders = (t.scope i).holders := by
  refine t.field_modify id Scope.holders (fun s => ?_) i
  cases hledger : s.ledger with
  | none => simp [Scope.holders, Scope.records, hledger]
  | some l => simp [Scope.holders, Scope.records, hledger, hf l]

/-! ### What a state charges -/

namespace Checker

/-- In the state, an allocation in the scope is recorded in the ledger of `i` and charged to `x`. -/
structure Charges (c : Checker) (scope i : ScopeId) (x : Option String) : Prop where
  holder : x = c.ownership?.map (·.function)
  nearest : c.scopes.ledgerOwner? scope = some i
  recorded : Ledger.isRecorded c.ownership? = true

variable (c : Checker)

theorem Charges.congr {c : Checker} {scope' : ScopeId} (h : d.Charges scope' i x)
    (hframes : d.walk.frames = c.walk.frames)
    (hnearest : d.scopes.ledgerOwner? scope' = c.scopes.ledgerOwner? scope) :
    c.Charges scope i x := by
  have howner : d.ownership? = c.ownership? := by rw [ownership?, hframes, ownership?]
  exact ⟨howner ▸ h.holder, hnearest ▸ h.nearest, howner ▸ h.recorded⟩

theorem mem_holders_allocate (hx : x ∈ ((c.allocate scope name span).scopes.scope i).holders) :
    x ∈ (c.scopes.scope i).holders ∨ c.Charges scope i x := by
  rw [allocate] at hx
  split at hx
  · exact .inl hx
  next id hid =>
    rw [Scope.holders, Scope.records, ledger_updateLedger] at hx
    split at hx
    next heq =>
      subst heq
      cases hledger : (c.scopes.scope i).ledger with
      | none =>
        rw [hledger] at hx
        cases hx
      | some l =>
        rw [hledger] at hx
        rcases Ledger.mem_holders_allocate hx with hx | ⟨hholder, hrecorded⟩
        · exact .inl (by rwa [Scope.holders, Scope.records, hledger])
        · exact .inr ⟨hholder, hid, hrecorded⟩
    · exact .inl hx

theorem holders_rename (scope : ScopeId) (target source : String) (i : ScopeId) :
    ((c.rename scope target source).scopes.scope i).holders = (c.scopes.scope i).holders := by
  rw [rename]
  split
  · rfl
  · refine c.scopes.holders_updateLedger _ (fun l => ?_) i
    rw [l.allocations_rename]

theorem holders_release (scope : ScopeId) (name : String) (span : Span) (kind : FreeKind)
    (i : ScopeId) :
    ((c.release scope name span kind).scopes.scope i).holders = (c.scopes.scope i).holders := by
  rw [release]
  split
  · rfl
  · split
    · rfl
    · exact c.scopes.holders_updateLedger _ (fun l => l.holders_release name span kind) i

theorem holders_leaveScope (scope i : ScopeId) :
    ((c.leaveScope scope).scopes.scope i).holders = (c.scopes.scope i).holders := by
  have hreleases : ∀ (waiting : List DeferredFree) (c : Checker),
      ((waiting.foldl (fun c d => c.release scope d.name d.span .explicit) c).scopes.scope
        i).holders = (c.scopes.scope i).holders := by
    intro waiting
    induction waiting with
    | nil => exact fun _ => rfl
    | cons d waiting ih => exact fun c => (ih _).trans (c.holders_release ..)
  refine (hreleases _ _).trans (c.scopes.field_modify scope Scope.holders ?_ i)
  intro s
  rfl

end Checker

/-- A plain change leaves every scope with the ledger that it belongs to. -/
theorem Plain.ledgerOwner? {c : Checker} (h : Plain c d) (scope : ScopeId) :
    d.scopes.ledgerOwner? scope = c.scopes.ledgerOwner? scope := by
  have hparent : ∀ i, (d.scopes.scope i).parent = (c.scopes.scope i).parent := by
    intro i
    have hsame := congrArg Scope.parent (h.outline i)
    exact hsame
  have howns : ∀ i, (d.scopes.scope i).ledger.isSome = (c.scopes.scope i).ledger.isSome :=
    fun i => Scope.isSome_ledger_of_outline (h.outline i)
  rw [ScopeTree.ledgerOwner?, ScopeTree.ledgerOwner?, ancestors_congr hparent]
  simp only [howns]

/-! ### What a rule adds -/

/-- From the first state to the second, a rule has been checked in the scope. Records have been
opened only as the first state charges them. -/
structure Charged (scope : ScopeId) (c d : Checker) : Prop where
  plain : Plain c d
  holders : ∀ i, ∀ x ∈ (d.scopes.scope i).holders,
    x ∈ (c.scopes.scope i).holders ∨ c.Charges scope i x

namespace Charged

variable {scope : ScopeId} {c d e : Checker}

theorem ofKept (hplain : Plain c d)
    (h : ∀ i, (d.scopes.scope i).holders = (c.scopes.scope i).holders) : Charged scope c d :=
  ⟨hplain, fun i _ hx => .inl (h i ▸ hx)⟩

theorem refl (c : Checker) : Charged scope c c :=
  ofKept (.refl c) fun _ => rfl

theorem trans (h : Charged scope c d) (h' : Charged scope d e) : Charged scope c e := by
  refine ⟨h.plain.trans h'.plain, fun i x hx => ?_⟩
  rcases h'.holders i x hx with hx | hcharged
  · exact h.holders i x hx
  · exact .inr (hcharged.congr (congrArg _ h.plain.walk) (h.plain.ledgerOwner? scope))

/-- A symbol is no record. -/
theorem ofInsert {symbol : Symbol} {id : ScopeId} {scopes : ScopeTree}
    (h : c.scopes.insert? id symbol = some scopes) : Charged scope c { c with scopes } := by
  refine ofKept (.insert h) fun i => ?_
  obtain ⟨-, rfl⟩ := eq_of_insert? h
  refine c.scopes.field_modify id Scope.holders ?_ i
  intro s
  rfl

theorem ofStructs (structs : StructTable) (c : Checker) : Charged scope c { c with structs } :=
  ofKept ⟨rfl, fun _ => rfl, rfl, rfl, rfl⟩ fun _ => rfl

theorem ofMemory {f : Checker → Checker} (hf : MemoryOp f) {c : Checker}
    (h : ∀ i, ((f c).scopes.scope i).holders = (c.scopes.scope i).holders) :
    Charged scope c (f c) :=
  ofKept (.memory hf c) h

/-- What a rule for expressions does in its scope. -/
theorem invariant (scope : ScopeId) (c₀ : Checker) :
    ScopeInvariant scope (fun _ => True) (Charged scope c₀) where
  report span hrule h :=
    h.trans (ofKept (.report (Cause.isJump_of_isRule hrule) span _) fun _ => rfl)
  record _ _ h := h.trans (ofKept ⟨rfl, fun _ => rfl, rfl, rfl, rfl⟩ fun _ => rfl)
  allocate name span h :=
    h.trans ⟨.memory (.allocate scope name span) _, fun _ _ => Checker.mem_holders_allocate _⟩
  rename _ _ h := h.trans (ofMemory (.rename ..) fun _ => Checker.holders_rename ..)
  release _ _ _ h := h.trans (ofMemory (.release ..) fun _ => Checker.holders_release ..)
  checkUse _ _ h := h.trans (ofMemory (.checkUse ..) fun _ => rfl)
  deferFree target name span h := h.trans
    (ofMemory (.deferFree target name span) (field_modify _ target Scope.holders
      fun _ => rfl))

end Charged

end Warden

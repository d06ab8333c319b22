import Warden.Ledger

/-!
# Names that stand for other names

The edges of a ledger lead from a name to the one it stands for. A new edge is put in front of the
others, and leads to a name that has no edge by then. So the way from a name to the owner of its
record only ever leads to newer edges (`Ledger.Acyclic`), and ends at a name that stands for itself
(`Ledger.Acyclic.lookup_canonical`). Every event of a ledger keeps it so.
-/

namespace Warden.Ledger

variable {l : Ledger} {name : String}

/-- Of the edges, newest first, each has a source of its own and leads to a name whose edge, if it
has one, is newer. -/
structure Acyclic (l : Ledger) : Prop where
  newer : l.renames.Pairwise fun edge older => edge.1 ≠ older.1 ∧ edge.2 ≠ older.1
  proper : ∀ edge ∈ l.renames, edge.2 ≠ edge.1

theorem Acyclic.empty : Acyclic {} :=
  ⟨.nil, nofun⟩

/-- With more steps than there are edges that the way can still take, it comes to its end. -/
theorem Acyclic.lookup_follow (h : l.Acyclic) (n : Nat) :
    ∀ {newer older : List (String × String)} {name : String}, l.renames = newer ++ older →
      older.lookup name = none → newer.length < n → l.renames.lookup (l.follow n name) = none := by
  induction n with
  | zero => exact fun _ _ hlt => absurd hlt (Nat.not_lt_zero _)
  | succ n ih =>
    intro newer older name hsplit holder hlt
    cases hname : l.renames.lookup name with
    | none => simp only [follow, hname]
    | some next =>
      -- the edge is one of the newer ones, and all that follow it lead elsewhere
      rw [hsplit, List.lookup_append, holder, Option.or_none] at hname
      obtain ⟨first, last, rfl, -⟩ := List.lookup_eq_some_iff.mp hname
      rw [List.append_assoc] at hsplit
      have hproper : next ≠ name := h.proper (name, next) (by simp [hsplit])
      have hnewer := h.newer
      rw [hsplit, List.pairwise_append] at hnewer
      obtain ⟨-, hlater, -⟩ := hnewer
      rw [List.cons_append, List.pairwise_cons] at hlater
      have hnext : ((name, next) :: last ++ older).lookup next = none := by
        rw [List.lookup_eq_none_iff]
        intro edge hedge
        rcases List.mem_cons.mp hedge with rfl | hedge
        · simpa using hproper
        · simpa using (hlater.1 edge hedge).2
      have hfollow : l.follow (n + 1) name = l.follow n next := by
        have hfound : l.renames.lookup name = some next := by
          rw [hsplit, ← List.append_assoc, List.lookup_append, hname, Option.or_of_isSome rfl]
        simp [follow, hfound, hproper]
      rw [hfollow]
      refine ih hsplit hnext ?_
      simp only [List.length_append, List.length_cons] at hlt
      omega

/-- The owner of a record stands for itself. -/
theorem Acyclic.lookup_canonical (h : l.Acyclic) (name : String) :
    l.renames.lookup (l.canonical name) = none :=
  h.lookup_follow _ (List.append_nil _).symm rfl (Nat.lt_succ_self _)

/-- A name that stands for another one does not own a record. -/
theorem Acyclic.canonical_ne (h : l.Acyclic) (hname : (l.renames.lookup name).isSome = true) :
    l.canonical name ≠ name := by
  intro heq
  have hnone := h.lookup_canonical name
  rw [heq] at hnone
  rw [hnone] at hname
  cases hname

theorem canonical_eq_self (h : l.renames.lookup name = none) : l.canonical name = name := by
  simp only [canonical, follow, h]

/-! ### Events -/

theorem Acyclic.filter (h : l.Acyclic) (allocations : List Allocation)
    (keep : String × String → Bool) : Acyclic { allocations, renames := l.renames.filter keep } :=
  ⟨h.newer.filter keep, fun edge hedge => h.proper edge (List.mem_filter.mp hedge).1⟩

theorem Acyclic.allocate (h : l.Acyclic) (span : Span) (name : String) (owner : Option Ownership) :
    (l.allocate span name owner).Acyclic := by
  unfold Ledger.allocate
  split
  · exact h.filter _ _
  · exact h

theorem Acyclic.rename (h : l.Acyclic) (target source : String) :
    (l.rename target source).Acyclic := by
  unfold Ledger.rename
  dsimp only
  split
  · exact h
  next howner =>
    have hkept := h.filter l.allocations (·.1 != target)
    constructor
    · refine List.pairwise_cons.mpr ⟨fun edge hedge => ?_, hkept.newer⟩
      obtain ⟨hmem, hne⟩ := List.mem_filter.mp hedge
      have hend := List.lookup_eq_none_iff.mp (h.lookup_canonical source) edge hmem
      exact ⟨Ne.symm (by simpa using hne), by simpa using hend⟩
    · exact List.forall_mem_cons.mpr ⟨by simpa using howner, hkept.proper⟩

@[simp] theorem renames_release (l : Ledger) (name : String) (span : Span) (kind : FreeKind) :
    (l.release name span kind).1.renames = l.renames := by
  unfold release
  dsimp only
  split
  · rfl
  · split
    · split <;> rfl
    · rfl

theorem Acyclic.release (h : l.Acyclic) (name : String) (span : Span) (kind : FreeKind) :
    (l.release name span kind).1.Acyclic := by
  have hsame := l.renames_release name span kind
  exact ⟨hsame ▸ h.newer, hsame ▸ h.proper⟩

end Warden.Ledger

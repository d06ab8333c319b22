import Warden.Proofs.Memory.Aliases

/-!
# A ledger without the records of one name

To say that an event does not depend on the records bound to a name, they are taken out of the
ledger (`Ledger.without`) and the event is repeated. The records of a name lie *aside* if it stands
for another name, or if there is no record behind it (`Ledger.Aside`). Then using and releasing the
name comes to the same with them and without them, and leaves them as they are
(`Ledger.Acyclic.release_without`, `Ledger.Acyclic.recordsOf_release`). Otherwise an explicit free
changes one of them (`Ledger.recordsOf_release_ne`).
-/

namespace Warden.Ledger

variable {a : Allocation} {newer as : List Allocation}

variable {l m : Ledger} {name owner : String}

/-! ### The latest record of a name -/

theorem latest?_eq_none : latest? name as = none ↔ ∀ a ∈ as, a.name ≠ name := by
  simp [latest?]

/-- The latest record of a name is followed by records of other names only. -/
theorem latest?_eq_some : latest? name as = some a ↔ a.name = name ∧
      ∃ older newer, as = older ++ a :: newer ∧ ∀ b ∈ newer, b.name ≠ name := by
  rw [latest?, List.find?_eq_some_iff_append, beq_iff_eq]
  refine and_congr_right fun _ => ⟨?_, ?_⟩
  · rintro ⟨newer, older, hsplit, hnewer⟩
    refine ⟨older.reverse, newer.reverse, ?_, by simpa using hnewer⟩
    rw [← List.reverse_reverse as, hsplit]
    simp
  · rintro ⟨older, newer, rfl, hnewer⟩
    exact ⟨newer.reverse, older.reverse, by simp, by simpa using hnewer⟩

/-- Where a record is changed, it is the last one of its name. -/
theorem updateLatest_append (ha : a.name = name) (hnewer : ∀ b ∈ newer, b.name ≠ name)
    (f : Allocation → Allocation) (older : List Allocation) :
    updateLatest name f (older ++ a :: newer) = older ++ f a :: newer := by
  induction older with
  | nil =>
    have hlast : newer.any (·.name == name) = false := by simpa using hnewer
    simp [updateLatest, hlast, ha]
  | cons b older ih =>
    have hlater : (older ++ a :: newer).any (·.name == name) = true := by simp [ha]
    rw [List.cons_append, updateLatest, if_pos hlater, ih, List.cons_append]

/-! ### Releasing a name -/

theorem release_of_none (h : l.allocation? name = none) (span : Span) (kind : FreeKind) :
    l.release name span kind = (l, .untracked) := by
  rw [allocation?] at h
  simp only [release, h]

/-- What a release does to the record it finds. -/
def released (span : Span) (kind : FreeKind) (a : Allocation) : Allocation :=
  if a.isFreed then
    match kind with
    | .explicit => countFree a
    | .transfer => a
  else markFreed span a

/-- What comes of a release, by the record it finds. -/
def outcomeOf (kind : FreeKind) (a : Allocation) : FreeOutcome :=
  if a.isFreed then
    match kind with
    | .explicit => .doubleFree a.line (a.freeLine.getD 0)
    | .transfer => .useAfterFree (a.freeLine.getD 0)
  else .freed

theorem released_name (span : Span) (kind : FreeKind) (a : Allocation) :
    (released span kind a).name = a.name := by
  unfold released
  split
  · cases kind <;> rfl
  · rfl

/-- A release counts at most one free, and leaves the record freed. -/
theorem released_counts (span : Span) (kind : FreeKind) (a : Allocation) :
    (released span kind a).freeCount ≤ a.freeCount + 1 ∧ (released span kind a).isFreed = true := by
  unfold released
  split
  next hfreed => cases kind <;> simp [countFree, hfreed]
  next => simp [markFreed]

/-- A release changes the record behind the name and no other. -/
theorem release_of_some {older : List Allocation} (hsplit : l.allocations = older ++ a :: newer)
    (ha : a.name = l.canonical name) (hnewer : ∀ b ∈ newer, b.name ≠ l.canonical name) (span : Span)
    (kind : FreeKind) : l.release name span kind =
      ({ l with allocations := older ++ released span kind a :: newer }, outcomeOf kind a) := by
  have hlatest : latest? (l.canonical name) l.allocations = some a :=
    latest?_eq_some.mpr ⟨ha, older, newer, hsplit, hnewer⟩
  have hupdate := fun f => updateLatest_append ha hnewer f older
  rw [← hsplit] at hupdate
  unfold release released outcomeOf
  simp only [hlatest]
  split
  · cases kind with
    | explicit => simp [hupdate]
    | transfer => simp [← hsplit]
  · simp [hupdate]

/-- The records of a ledger behind a name, before and after its release. -/
theorem exists_split_of_allocation? (h : l.allocation? name = some a) :
    a.name = l.canonical name ∧ ∃ older newer, l.allocations = older ++ a :: newer ∧
      ∀ b ∈ newer, b.name ≠ l.canonical name :=
  latest?_eq_some.mp h

/-! ### Records of one name -/

/-- The ledger without the records bound to a name. -/
def without (l : Ledger) (name : String) : Ledger :=
  { l with allocations := l.allocations.filter (·.name != name) }

/-- The records bound to a name, in order. -/
def recordsOf (l : Ledger) (name : String) : List Allocation :=
  l.allocations.filter (·.name == name)

/-- The records bound to the name are not the ones behind it. -/
def Aside (l : Ledger) (name : String) : Prop :=
  (l.renames.lookup name).isSome = true ∨ l.knows name = false

theorem canonical_congr (h : m.renames = l.renames) (name : String) :
    m.canonical name = l.canonical name := by
  have hfollow : ∀ n name, m.follow n name = l.follow n name := by
    intro n
    induction n with
    | zero => exact fun _ => rfl
    | succ n ih =>
      intro name
      simp only [follow, h]
      cases l.renames.lookup name with
      | none => rfl
      | some next => simp only [ih]
  simp only [canonical, h, hfollow]

@[simp] theorem canonical_without (l : Ledger) (owner name : String) :
    (l.without owner).canonical name = l.canonical name :=
  canonical_congr (m := l.without owner) (l := l) rfl name

/-- Taking out the records of another name than the owner does not change what is behind a name. -/
theorem allocation?_without_of_ne (h : l.canonical name ≠ owner) :
    (l.without owner).allocation? name = l.allocation? name := by
  rw [allocation?, canonical_without, latest?, without, ← List.filter_reverse, List.find?_filter,
    allocation?, latest?]
  congr 1
  funext a
  by_cases ha : a.name = l.canonical name <;> simp [ha, h]

theorem Aside.canonical_ne (h : l.Acyclic) (haside : l.Aside name)
    (ha : l.allocation? name = some a) : l.canonical name ≠ name := by
  rcases haside with hrenamed | hunknown
  · exact h.canonical_ne hrenamed
  · simp [knows, ha] at hunknown

theorem Acyclic.allocation?_without (h : l.Acyclic) (haside : l.Aside name) :
    (l.without name).allocation? name = l.allocation? name := by
  cases ha : l.allocation? name with
  | some a => rw [allocation?_without_of_ne (haside.canonical_ne h ha), ha]
  | none =>
    rw [allocation?, canonical_without, latest?_eq_none]
    intro a hmem
    exact latest?_eq_none.mp ha a (List.mem_filter.mp hmem).1

/-- Releasing a name whose records lie aside comes to the same without them. -/
theorem Acyclic.release_without (h : l.Acyclic) (haside : l.Aside name) (span : Span)
    (kind : FreeKind) : (l.without name).release name span kind =
      ((l.release name span kind).1.without name, (l.release name span kind).2) := by
  have hwithout := h.allocation?_without haside
  cases ha : l.allocation? name with
  | none => rw [release_of_none ha, release_of_none (hwithout.trans ha)]
  | some a =>
    have hne := haside.canonical_ne h ha
    obtain ⟨howner, older, newer, hsplit, hnewer⟩ := exists_split_of_allocation? ha
    have hkept : a.name != name := by simpa [howner] using hne
    have hkept' : (released span kind a).name != name := by rwa [released_name]
    rw [release_of_some hsplit howner hnewer]
    have hsplit' : (l.without name).allocations =
        older.filter (·.name != name) ++ a :: newer.filter (·.name != name) := by
      simp [without, hsplit, hkept]
    have hnewer' : ∀ b ∈ newer.filter (·.name != name),
        b.name ≠ (l.without name).canonical name := by
      intro b hb
      rw [canonical_without]
      exact hnewer b (List.mem_filter.mp hb).1
    rw [release_of_some hsplit' (by rw [canonical_without, howner]) hnewer']
    simp [without, hkept']

/-- Releasing a name whose records lie aside leaves them as they are. -/
theorem Acyclic.recordsOf_release (h : l.Acyclic) (haside : l.Aside name) (span : Span)
    (kind : FreeKind) : (l.release name span kind).1.recordsOf name = l.recordsOf name := by
  cases ha : l.allocation? name with
  | none => rw [release_of_none ha]
  | some a =>
    have hne := haside.canonical_ne h ha
    obtain ⟨howner, older, newer, hsplit, hnewer⟩ := exists_split_of_allocation? ha
    have hother : (a.name == name) = false := by simpa [howner] using hne
    have hother' : ((released span kind a).name == name) = false := by rwa [released_name]
    rw [release_of_some hsplit howner hnewer]
    simp [recordsOf, hsplit, hother, hother']

theorem released_explicit_ne (span : Span) (a : Allocation) : released span .explicit a ≠ a := by
  intro heq
  have hcount := congrArg Allocation.freeCount heq
  have hfreed := congrArg Allocation.isFreed heq
  unfold released at hcount hfreed
  split at hcount
  · simp [countFree] at hcount
  next hnot => simp [hnot, markFreed] at hfreed

/-- An explicit free of a name that stands for itself changes its latest record. -/
theorem recordsOf_release_ne (haside : ¬l.Aside name) (span : Span) :
    (l.release name span .explicit).1.recordsOf name ≠ l.recordsOf name := by
  simp only [Aside, not_or, Bool.not_eq_true, Bool.not_eq_false, Option.isSome_eq_false_iff,
    Option.isNone_iff_eq_none] at haside
  obtain ⟨hlookup, hknows⟩ := haside
  obtain ⟨a, ha⟩ := Option.isSome_iff_exists.mp hknows
  obtain ⟨howner, older, newer, hsplit, hnewer⟩ := exists_split_of_allocation? ha
  rw [release_of_some hsplit howner hnewer]
  rw [canonical_eq_self hlookup] at howner
  have hname : (a.name == name) = true := by simpa using howner
  have hname' : ((released span .explicit a).name == name) = true := by rwa [released_name]
  simpa [recordsOf, hsplit, hname, hname'] using released_explicit_ne span a

/-! ### What a release does not show -/

theorem names_release (l : Ledger) (name : String) (span : Span) (kind : FreeKind) :
    (l.release name span kind).1.allocations.map (·.name) = l.allocations.map (·.name) := by
  cases ha : l.allocation? name with
  | none => rw [release_of_none ha]
  | some a =>
    obtain ⟨howner, older, newer, hsplit, hnewer⟩ := exists_split_of_allocation? ha
    rw [release_of_some hsplit howner hnewer, hsplit]
    simp [released_name]

/-- Whether a name is known depends on the edges and on the names of the records only. -/
theorem knows_congr (hrenames : m.renames = l.renames)
    (hnames : m.allocations.map (·.name) = l.allocations.map (·.name)) (name : String) :
    m.knows name = l.knows name := by
  have hsome : ∀ l : Ledger,
      l.knows name = (l.allocations.map (·.name)).contains (l.canonical name) := by
    intro l
    rw [Bool.eq_iff_iff, knows, ← Option.ne_none_iff_isSome, ne_eq, allocation?, latest?_eq_none]
    simp
  rw [hsome, hsome, hnames, canonical_congr hrenames]

@[simp] theorem knows_release (l : Ledger) (name : String) (span : Span) (kind : FreeKind)
    (other : String) : (l.release name span kind).1.knows other = l.knows other :=
  knows_congr (l.renames_release name span kind) (l.names_release name span kind) other

end Warden.Ledger

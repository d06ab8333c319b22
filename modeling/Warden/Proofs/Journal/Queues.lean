import Mathlib.Data.List.Find
import Warden.Proofs.Journal.Basic

/-!
# Queues and the journal

A call of `free` under a `defer` is put into the queue of a scope, and the queue is carried out when
the scope is left. Three facts about journals say that this goes right. What comes after the end of
a scope has nothing to do with that scope (`Entry.Uses`). Every scope that is left belongs to a
function or a module, whose leaks are reported later (`Entry.Precedes`). And the scopes that a check
adds are left before it is done, so that their queues are empty by then.

`Chronicled` puts them together for the part of a check between two states: it says how the scopes
have grown (`KeepsScopes`), which scopes the entries are about (`InReach`), and what has become of
the queues. Each case of `Journaled` keeps it (`Journaled.chronicled`).
-/

namespace Warden

open CheckM Check ScopeTree

variable {i o scope : ScopeId} {entries : List Entry} {x : Entry} {walk : Walk} {c d : Checker}

/-! ### Entries about a scope -/

/-- The calls of `free` that the end of the scope carries out. -/
def Ending.waiting (e : Ending) : List DeferredFree :=
  (e.state.scopes.scope e.scope).deferred

/-- The scope of the function or module that the scope belongs to. -/
def Ending.owner? (e : Ending) : Option ScopeId :=
  e.state.scopes.ledgerOwner? e.scope

namespace Entry

/-- The call of `free` that is queued on a scope. -/
def queued? (i : ScopeId) : Entry → Option DeferredFree
  | .visit v => v.putOffTo i
  | _ => none

/-- The calls of `free` that are carried out from a scope. -/
def applied (i : ScopeId) : Entry → List DeferredFree
  | .left e => if e.scope = i then e.waiting else []
  | _ => []

/-- A statement of the scope has been checked, something is queued on the scope, or it is left. -/
def Uses (i : ScopeId) : Entry → Prop
  | .visit v => (v.putOffTo i).isSome
  | .checked v => v.scope = i
  | .left e => e.scope = i
  | .leaks _ => False

/-- The one entry may come before the other: a scope is not used after its end, and it does not end
after the leaks of its function or module have been reported. -/
def Precedes : Entry → Entry → Prop
  | .left e, y => ¬y.Uses e.scope
  | .leaks o, .left e => e.owner? ≠ some o
  | _, _ => True

theorem precedes_of {y : Entry} (hleft : ∀ e, x = .left e → ¬y.Uses e.scope)
    (hleaks : ∀ o e, x = .leaks o → y = .left e → e.owner? ≠ some o) : x.Precedes y := by
  cases x with
  | left e => exact hleft e rfl
  | leaks o =>
    cases y with
    | left e => exact hleaks o e rfl rfl
    | _ => trivial
  | _ => trivial

end Entry

/-- What has been queued on a scope, in order. -/
def queuedOn (i : ScopeId) (entries : List Entry) : List DeferredFree :=
  entries.filterMap (Entry.queued? i)

/-- What has been carried out from a scope, in order. -/
def appliedFrom (i : ScopeId) (entries : List Entry) : List DeferredFree :=
  entries.flatMap (Entry.applied i)

section

variable {i : ScopeId} {entries more : List Entry}

@[simp] theorem queuedOn_append :
    queuedOn i (entries ++ more) = queuedOn i entries ++ queuedOn i more :=
  List.filterMap_append

@[simp] theorem appliedFrom_append :
    appliedFrom i (entries ++ more) = appliedFrom i entries ++ appliedFrom i more :=
  List.flatMap_append

theorem queuedOn_eq_nil (h : ∀ x ∈ entries, ¬x.Uses i) : queuedOn i entries = [] := by
  refine List.filterMap_eq_nil_iff.mpr fun x hx => ?_
  cases x with
  | visit v => exact Option.not_isSome_iff_eq_none.mp (h _ hx)
  | _ => rfl

theorem appliedFrom_eq_nil (h : ∀ e, .left e ∈ entries → e.scope ≠ i) :
    appliedFrom i entries = [] := by
  refine List.flatMap_eq_nil_iff.mpr fun x hx => ?_
  cases x with
  | left e => exact if_neg (h e hx)
  | _ => rfl

end

/-- The entries at the end of a scope: it is left, and if it has a ledger, leaks are reported. -/
def endOfScope (scope : ScopeId) (ledger : Option Ledger) (d : Checker) : List Entry :=
  .left ⟨scope, d⟩ :: (ledger.toList.map fun _ => .leaks scope)

theorem Module.journal_eq (m : Module) (scope : ScopeId) (c : Checker) :
    m.journal scope c = stmtJournal scope [] m.statements (c.entered m) ++
      endOfScope scope (some {}) ((checkStmts scope m.statements).exec (c.entered m)) := rfl

section

variable {scope : ScopeId} {ledger : Option Ledger} {d : Checker}

theorem mem_endOfScope : x ∈ endOfScope scope ledger d ↔
    x = .left ⟨scope, d⟩ ∨ ledger.isSome = true ∧ x = .leaks scope := by
  cases ledger <;> simp [endOfScope]

theorem left_mem_endOfScope {e : Ending} :
    .left e ∈ endOfScope scope ledger d ↔ e = ⟨scope, d⟩ := by
  simp [mem_endOfScope]

theorem leaks_mem_endOfScope :
    .leaks o ∈ endOfScope scope ledger d ↔ ledger.isSome = true ∧ o = scope := by
  simp [mem_endOfScope]

theorem eq_of_uses_endOfScope (hx : x ∈ endOfScope scope ledger d) (hi : x.Uses i) : scope = i := by
  rcases mem_endOfScope.mp hx with rfl | ⟨-, rfl⟩
  · exact hi
  · exact hi.elim

theorem queuedOn_endOfScope (i : ScopeId) : queuedOn i (endOfScope scope ledger d) = [] := by
  cases ledger <;> rfl

theorem appliedFrom_endOfScope (i : ScopeId) : appliedFrom i (endOfScope scope ledger d) =
    if scope = i then (d.scopes.scope scope).deferred else [] := by
  cases ledger <;> exact List.append_nil _

theorem pairwise_endOfScope : (endOfScope scope ledger d).Pairwise Entry.Precedes := by
  cases ledger with
  | none => exact List.pairwise_singleton _ _
  | some ledger => exact List.pairwise_pair.mpr id

end

/-! ### Owners of scopes -/

namespace ScopeTree.Arena

variable {t u : ScopeTree}

/-- The owner of a scope depends on the scopes up to it. -/
theorem ledgerOwner?_eq_of_lt (ht : t.Arena) (hu : u.Arena) {n : Nat}
    (h : ∀ i < n, (u.scope i).outline = (t.scope i).outline) (hi : i < n) :
    u.ledgerOwner? i = t.ledgerOwner? i := by
  have hparent : ∀ j < n, (u.scope j).parent = (t.scope j).parent := by
    intro j hj
    have hsame := congrArg Scope.parent (h j hj)
    exact hsame
  rw [ledgerOwner?, ledgerOwner?, ht.ancestors_eq_of_lt hu hparent hi]
  refine List.find?_congr fun j hj => ?_
  exact Scope.isSome_ledger_of_outline (h j (Nat.lt_of_le_of_lt (ht.le_of_mem_ancestors hj) hi))

variable {parent : ScopeId} (name : String) (owner : ScopeOwner) (ledger : Option Ledger)

theorem outline_addScope_of_lt (hi : i < t.size) :
    ((t.addScope parent name owner ledger).scope i).outline = (t.scope i).outline :=
  t.field_addScope parent name owner ledger Scope.outline (fun _ _ => rfl) (Nat.ne_of_lt hi)

/-- A new scope belongs to itself if it has a ledger, and otherwise to the owner of its parent. -/
theorem ledgerOwner?_addScope (ht : t.Arena) (hparent : parent < t.size) :
    (t.addScope parent name owner ledger).ledgerOwner? t.size =
      if ledger.isSome then some t.size else t.ledgerOwner? parent := by
  have hnew := ht.addScope name owner ledger hparent
  have hold := ht.ledgerOwner?_eq_of_lt hnew
    (fun _ hi => outline_addScope_of_lt name owner ledger hi) hparent
  rw [← hold, ledgerOwner?, ht.ancestors_addScope name owner ledger hparent, List.find?_cons,
    scope_addScope_size, ledgerOwner?,
    ht.ancestors_addScope_of_lt name owner ledger hparent hparent]
  cases ledger <;> rfl

end ScopeTree.Arena

/-! ### Where a check stands -/

theorem Walk.target_enterDefer (w : Walk) (scope : ScopeId) :
    ∀ t ∈ (w.enterDefer scope).deferTarget, t = scope ∨ t ∈ w.deferTarget :=
  fun _ ht => .inl (Option.some.inj ht).symm

theorem Walk.target_enterFunction (w : Walk) (frame : Frame) :
    ∀ t ∈ (w.enterFunction frame).deferTarget, t ∈ w.deferTarget :=
  fun t ht => absurd ht (Option.not_mem_none t)

/-- A check can stand in the scope. -/
structure InPlace (scope : ScopeId) (c : Checker) : Prop where
  arena : c.scopes.Arena
  bound : scope < c.scopes.size
  target : ∀ t ∈ c.walk.deferTarget, t < c.scopes.size
  owned : ∃ o, c.scopes.ledgerOwner? scope = some o

namespace InPlace

variable {scope : ScopeId} {c : Checker} {walk : Walk}

theorem owner_lt (h : InPlace scope c) (ho : c.scopes.ledgerOwner? scope = some o) :
    o < c.scopes.size :=
  Nat.lt_of_le_of_lt (h.arena.le_of_mem_ancestors (mem_ancestors_of_ledgerOwner? ho)) h.bound

theorem setWalk (h : InPlace scope c)
    (htarget : ∀ t ∈ walk.deferTarget, t = scope ∨ t ∈ c.walk.deferTarget) :
    InPlace scope { c with walk } := by
  refine ⟨h.arena, h.bound, fun t ht => ?_, h.owned⟩
  rcases htarget t ht with rfl | hin
  · exact h.bound
  · exact h.target t hin

/-- A new scope inside the present one. -/
theorem push (h : InPlace scope c) (name : String) (owner : ScopeOwner) (ledger : Option Ledger)
    (htarget : ∀ t ∈ walk.deferTarget, t ∈ c.walk.deferTarget) : InPlace c.scopes.size
      { c with scopes := c.scopes.addScope scope name owner ledger, walk } where
  arena := h.arena.addScope name owner ledger h.bound
  bound := by
    rw [size_addScope]
    exact Nat.lt_succ_self _
  target t ht := by
    rw [size_addScope]
    exact Nat.lt_succ_of_lt (h.target t (htarget t ht))
  owned := by
    rw [h.arena.ledgerOwner?_addScope name owner ledger h.bound]
    cases ledger with
    | none => exact h.owned
    | some ledger => exact ⟨_, rfl⟩

end InPlace

/-- From the first state to the second, scopes may have been added. Those that were there have kept
their place in the tree. -/
structure KeepsScopes (c d : Checker) : Prop where
  size : c.scopes.size ≤ d.scopes.size
  arena : d.scopes.Arena
  outline : ∀ i < c.scopes.size, (d.scopes.scope i).outline = (c.scopes.scope i).outline

namespace KeepsScopes

variable {scope : ScopeId} {c d e : Checker}

theorem ofPlain (hc : c.scopes.Arena) (h : Plain c d) : KeepsScopes c d := by
  refine ⟨Nat.le_of_eq h.size.symm, hc.congr fun i => ?_, fun i _ => h.outline i⟩
  have hparent := congrArg Scope.parent (h.outline i)
  exact hparent

theorem addScope (hc : c.scopes.Arena) (hscope : scope < c.scopes.size) (name : String)
    (owner : ScopeOwner) (ledger : Option Ledger) (walk : Walk) :
    KeepsScopes c { c with scopes := c.scopes.addScope scope name owner ledger, walk } where
  size := by
    rw [size_addScope]
    exact Nat.le_succ _
  arena := hc.addScope name owner ledger hscope
  outline _ hi := ScopeTree.Arena.outline_addScope_of_lt name owner ledger hi

variable (h : KeepsScopes c d)

include h

theorem trans (h' : KeepsScopes d e) : KeepsScopes c e :=
  ⟨Nat.le_trans h.size h'.size, h'.arena,
    fun i hi => (h'.outline i (Nat.lt_of_lt_of_le hi h.size)).trans (h.outline i hi)⟩

theorem congr (hscopes : e.scopes = d.scopes) : KeepsScopes c e :=
  ⟨hscopes ▸ h.size, hscopes ▸ h.arena, hscopes ▸ h.outline⟩

theorem ledgerOwner? (hc : InPlace scope c) :
    d.scopes.ledgerOwner? scope = c.scopes.ledgerOwner? scope :=
  hc.arena.ledgerOwner?_eq_of_lt h.arena h.outline hc.bound

theorem inPlace (hc : InPlace scope c) (hwalk : d.walk = c.walk) : InPlace scope d where
  arena := h.arena
  bound := Nat.lt_of_lt_of_le hc.bound h.size
  target t ht := Nat.lt_of_lt_of_le (hc.target t (hwalk ▸ ht)) h.size
  owned := by
    rw [h.ledgerOwner? hc]
    exact hc.owned

end KeepsScopes

/-! ### Which scopes entries are about -/

/-- Between two states, entries of a check that stands in a scope are about that scope, the one of
the `defer` around it, and new scopes. Only new scopes are left. -/
structure InReach (scope : ScopeId) (c : Checker) (entries : List Entry) (d : Checker) : Prop where
  uses : ∀ x ∈ entries, ∀ i, x.Uses i →
    i = scope ∨ i ∈ c.walk.deferTarget ∨ c.scopes.size ≤ i ∧ i < d.scopes.size
  left : ∀ e, .left e ∈ entries → c.scopes.size ≤ e.scope
  leaks : ∀ o, .leaks o ∈ entries → c.scopes.size ≤ o ∧ o < d.scopes.size

namespace InReach

variable {scope : ScopeId} {c d e : Checker} {entries entries' : List Entry}

theorem lt_size (h : InReach scope c entries d) (hc : InPlace scope c)
    (hsize : c.scopes.size ≤ d.scopes.size) (hx : x ∈ entries) (hi : x.Uses i) :
    i < d.scopes.size := by
  rcases h.uses x hx i hi with rfl | htarget | ⟨-, hlt⟩
  · exact Nat.lt_of_lt_of_le hc.bound hsize
  · exact Nat.lt_of_lt_of_le (hc.target i htarget) hsize
  · exact hlt

/-- Of the scopes that are left, none is the one in which the check stands. -/
theorem left_ne (h : InReach scope c entries d) (hc : InPlace scope c) {s : Ending}
    (hs : .left s ∈ entries) : s.scope ≠ scope :=
  fun heq => Nat.not_lt.mpr (h.left s hs) (heq ▸ hc.bound)

/-- What comes later is not about scopes that were new before. -/
theorem apart (h : InReach scope d entries' e) (hc : InPlace scope c) (hwalk : d.walk = c.walk)
    {y : Entry} (hy : y ∈ entries') (hge : c.scopes.size ≤ i) (hlt : i < d.scopes.size) :
    ¬y.Uses i := by
  intro hi
  rcases h.uses y hy i hi with rfl | htarget | ⟨hnew, -⟩
  · exact Nat.not_lt.mpr hge hc.bound
  · exact Nat.not_lt.mpr hge (hc.target i (hwalk ▸ htarget))
  · exact Nat.not_lt.mpr hnew hlt

theorem trans (h : InReach scope c entries d) (h' : InReach scope d entries' e)
    (hwalk : d.walk = c.walk) (hsize : c.scopes.size ≤ d.scopes.size)
    (hsize' : d.scopes.size ≤ e.scopes.size) : InReach scope c (entries ++ entries') e := by
  refine ⟨fun x hx i hi => ?_, fun s hs => ?_, fun o ho => ?_⟩
  · rcases List.mem_append.mp hx with hx | hx
    · have hreach := h.uses x hx i hi
      exact hreach.imp_right (.imp_right (.imp_right (Nat.lt_of_lt_of_le · hsize')))
    · have hreach := h'.uses x hx i hi
      rw [hwalk] at hreach
      exact hreach.imp_right (.imp_right (.imp_left (Nat.le_trans hsize)))
  · rcases List.mem_append.mp hs with hs | hs
    · exact h.left s hs
    · exact Nat.le_trans hsize (h'.left s hs)
  · rcases List.mem_append.mp ho with ho | ho
    · exact (h.leaks o ho).imp_right (Nat.lt_of_lt_of_le · hsize')
    · exact (h'.leaks o ho).imp_left (Nat.le_trans hsize)

/-- What is about the new scope is about a new one when seen from outside. -/
theorem leaving {name : String} {owner : ScopeOwner} {ledger : Option Ledger}
    (h : InReach c.scopes.size { c with scopes := c.scopes.addScope scope name owner ledger, walk }
      entries d)
    (htarget : ∀ t ∈ walk.deferTarget, t ∈ c.walk.deferTarget)
    (hsize : c.scopes.size < d.scopes.size) :
    InReach scope c (entries ++ endOfScope c.scopes.size ledger d) d := by
  have hgrow : ∀ {i}, (c.scopes.addScope scope name owner ledger).size ≤ i → c.scopes.size ≤ i := by
    intro i hi
    rw [size_addScope] at hi
    exact Nat.le_of_succ_le hi
  refine ⟨fun x hx i hi => ?_, fun s hs => ?_, fun o ho => ?_⟩
  · rcases List.mem_append.mp hx with hx | hx
    · rcases h.uses x hx i hi with rfl | hin | ⟨hge, hlt⟩
      · exact .inr (.inr ⟨Nat.le_refl _, hsize⟩)
      · exact .inr (.inl (htarget i hin))
      · exact .inr (.inr ⟨hgrow hge, hlt⟩)
    · cases eq_of_uses_endOfScope hx hi
      exact .inr (.inr ⟨Nat.le_refl _, hsize⟩)
  · rcases List.mem_append.mp hs with hs | hs
    · exact hgrow (h.left s hs)
    · cases left_mem_endOfScope.mp hs
      exact Nat.le_refl _
  · rcases List.mem_append.mp ho with ho | ho
    · exact (h.leaks o ho).imp_left hgrow
    · obtain ⟨-, rfl⟩ := leaks_mem_endOfScope.mp ho
      exact ⟨Nat.le_refl _, hsize⟩

end InReach

/-! ### Between two states -/

/-- From the first state to the second, a check that stands in a scope has made these entries. Old
queues have grown by what was queued, and new ones have been carried out. -/
structure Chronicled (scope : ScopeId) (c : Checker) (entries : List Entry) (d : Checker) :
    Prop where
  scopes : KeepsScopes c d
  walk : d.walk = c.walk
  reach : InReach scope c entries d
  queues : ∀ i < c.scopes.size,
    (d.scopes.scope i).deferred = (c.scopes.scope i).deferred ++ queuedOn i entries
  drained : ∀ i, c.scopes.size ≤ i → (d.scopes.scope i).deferred = []
  applied : ∀ i, c.scopes.size ≤ i → appliedFrom i entries = queuedOn i entries
  ordered : entries.Pairwise Entry.Precedes
  owned : ∀ e, .left e ∈ entries →
    ∃ o, e.owner? = some o ∧ (.leaks o ∈ entries ∨ c.scopes.ledgerOwner? scope = some o)

namespace Chronicled

variable {scope : ScopeId} {c d e : Checker} {entries entries' : List Entry}

/-- What a rule does. -/
theorem ofRuled {visits : List Visit} (h : Ruled scope visits c d) (hc : InPlace scope c) :
    Chronicled scope c (visits.map .visit) d := by
  have huses : ∀ x ∈ visits.map Entry.visit, ∀ i, x.Uses i → i ∈ c.walk.deferTarget := by
    intro x hx i hi
    obtain ⟨v, hv, rfl⟩ := List.mem_map.mp hx
    obtain ⟨f, hf⟩ := Option.isSome_iff_exists.mp hi
    rw [← h.inWalk v hv]
    exact Visit.target_of_putOffTo hf
  refine ⟨.ofPlain hc.arena h.plain, h.plain.walk,
    ⟨fun x hx i hi => .inr (.inl (huses x hx i hi)), by simp, by simp⟩, fun i hi => ?_,
    fun i hi => ?_, fun i hi => ?_, ?_, by simp⟩
  · rw [queuedOn, List.filterMap_map]
    exact h.explains.queues i hi
  · rw [scope_of_size_le (h.plain.size ▸ hi)]
  · rw [appliedFrom_eq_nil (by simp), queuedOn_eq_nil fun x hx hi' => ?_]
    exact Nat.not_lt.mpr hi (hc.target i (huses x hx i hi'))
  · exact List.pairwise_map.mpr (List.pairwise_of_forall fun _ _ => trivial)

section

variable (h : Chronicled scope c entries d)

include h

/-- One after the other. -/
theorem trans (hc : InPlace scope c) (h' : Chronicled scope d entries' e) :
    Chronicled scope c (entries ++ entries') e := by
  have hsize := h.scopes.size
  have howner := h.scopes.ledgerOwner? hc
  have hqueued : ∀ i, c.scopes.size ≤ i → i < d.scopes.size → queuedOn i entries' = [] :=
    fun i hge hlt => queuedOn_eq_nil fun y hy => h'.reach.apart hc h.walk hy hge hlt
  refine ⟨h.scopes.trans h'.scopes, h'.walk.trans h.walk,
    h.reach.trans h'.reach h.walk hsize h'.scopes.size, fun i hi => ?_, fun i hi => ?_,
    fun i hi => ?_, ?_, fun s hs => ?_⟩
  · rw [h'.queues i (Nat.lt_of_lt_of_le hi hsize), h.queues i hi, queuedOn_append,
      List.append_assoc]
  · rcases Nat.lt_or_ge i d.scopes.size with hlt | hge
    · rw [h'.queues i hlt, h.drained i hi, hqueued i hi hlt, List.append_nil]
    · exact h'.drained i hge
  · rw [appliedFrom_append, queuedOn_append, h.applied i hi]
    rcases Nat.lt_or_ge i d.scopes.size with hlt | hge
    · rw [hqueued i hi hlt, appliedFrom_eq_nil]
      exact fun s hs => h'.reach.apart hc h.walk hs hi hlt
    · rw [h'.applied i hge]
  · refine List.pairwise_append.mpr ⟨h.ordered, h'.ordered, fun x hx y hy => ?_⟩
    refine Entry.precedes_of ?_ ?_
    · rintro s rfl
      exact h'.reach.apart hc h.walk hy (h.reach.left s hx) (h.reach.lt_size hc hsize hx rfl)
    · -- an owner whose leaks were reported before is new, and too old to be one of those later
      rintro o s rfl rfl hs
      obtain ⟨hge, hlt⟩ := h.reach.leaks o hx
      obtain ⟨o', ho', hleaks | hthere⟩ := h'.owned s hy
      · cases hs.symm.trans ho'
        exact Nat.not_lt.mpr (h'.reach.leaks o hleaks).1 hlt
      · cases hs.symm.trans ho'
        exact Nat.not_lt.mpr hge (hc.owner_lt (howner ▸ hthere))
  · rcases List.mem_append.mp hs with hs | hs
    · obtain ⟨o, ho, hleaks⟩ := h.owned s hs
      exact ⟨o, ho, hleaks.imp_left (List.mem_append_left _)⟩
    · obtain ⟨o, ho, hleaks⟩ := h'.owned s hs
      exact ⟨o, ho, hleaks.imp (List.mem_append_right _) (howner ▸ ·)⟩

/-- Only scopes and walk matter. -/
theorem congr (hscopes : e.scopes = d.scopes) (hwalk : e.walk = c.walk) :
    Chronicled scope c entries e where
  __ := h
  scopes := h.scopes.congr hscopes
  walk := hwalk
  reach := ⟨hscopes ▸ h.reach.uses, h.reach.left, hscopes ▸ h.reach.leaks⟩
  queues := hscopes ▸ h.queues
  drained := hscopes ▸ h.drained

/-- A statement of the scope is done. -/
theorem stmt (hc : InPlace scope c) {v : StmtVisit} (hv : v.scope = scope) :
    Chronicled scope c (entries ++ [.checked v]) d := by
  refine ⟨h.scopes, h.walk, ⟨fun x hx i hi => ?_, fun s hs => h.reach.left s (by simpa using hs),
    fun o ho => h.reach.leaks o (by simpa using ho)⟩, fun i hi => ?_, h.drained, fun i hi => ?_, ?_,
    fun s hs => ?_⟩
  · rcases List.mem_append.mp hx with hx | hx
    · exact h.reach.uses x hx i hi
    · cases List.mem_singleton.mp hx
      exact .inl (hi.symm.trans hv)
  · rw [h.queues i hi, queuedOn_append]
    exact congrArg _ (List.append_nil _).symm
  · rw [appliedFrom_append, queuedOn_append, h.applied i hi]
    rfl
  · refine List.pairwise_append.mpr ⟨h.ordered, List.pairwise_singleton _ _, fun x hx y hy => ?_⟩
    cases List.mem_singleton.mp hy
    refine Entry.precedes_of ?_ (by simp)
    rintro s rfl huse
    exact h.reach.left_ne hc hx (huse.symm.trans hv)
  · obtain ⟨o, ho, hleaks⟩ := h.owned s (by simpa using hs)
    exact ⟨o, ho, hleaks.imp_left (List.mem_append_left _)⟩

end

/-- The walk is changed inside; a `defer` may stand in the scope. -/
theorem within (h : Chronicled scope { c with walk } entries d)
    (htarget : ∀ t ∈ walk.deferTarget, t = scope ∨ t ∈ c.walk.deferTarget) :
    Chronicled scope c entries { d with walk := c.walk } := by
  refine ⟨⟨h.scopes.size, h.scopes.arena, h.scopes.outline⟩, rfl,
    ⟨fun x hx i hi => ?_, h.reach.left, h.reach.leaks⟩, h.queues, h.drained, h.applied, h.ordered,
    h.owned⟩
  rcases h.reach.uses x hx i hi with hscope | hin | hnew
  · exact .inl hscope
  · exact (htarget i hin).imp_right .inl
  · exact .inr (.inr hnew)

/-! ### The end of the scope -/

/-- The scope is left when all that it holds has been checked. -/
theorem pairwise_end (h : Chronicled scope c entries d) (hc : InPlace scope c)
    (ledger : Option Ledger) : (entries ++ endOfScope scope ledger d).Pairwise Entry.Precedes := by
  refine List.pairwise_append.mpr ⟨h.ordered, pairwise_endOfScope, fun x hx y hy => ?_⟩
  refine Entry.precedes_of ?_ ?_
  · rintro s rfl huse
    exact h.reach.left_ne hc hx (eq_of_uses_endOfScope hy huse).symm
  · rintro o s rfl rfl hs
    cases left_mem_endOfScope.mp hy
    have hthere := (h.scopes.ledgerOwner? hc).symm.trans hs
    exact Nat.not_lt.mpr (h.reach.leaks o hx).1 (hc.owner_lt hthere)

/-- At the end of the scope, what waited there from the start and what was queued is carried out. -/
theorem appliedFrom_end (h : Chronicled scope c entries d) (hc : InPlace scope c)
    (ledger : Option Ledger) : appliedFrom scope (entries ++ endOfScope scope ledger d) =
      (c.scopes.scope scope).deferred ++ queuedOn scope entries := by
  rw [appliedFrom_append, appliedFrom_eq_nil fun s hs => h.reach.left_ne hc hs,
    appliedFrom_endOfScope, if_pos rfl, List.nil_append, h.queues scope hc.bound]

theorem appliedFrom_end_of_ne (hne : i ≠ scope) (ledger : Option Ledger) :
    appliedFrom i (entries ++ endOfScope scope ledger d) = appliedFrom i entries := by
  rw [appliedFrom_append, appliedFrom_endOfScope, if_neg (Ne.symm hne), List.append_nil]

/-- Every scope that has been left belongs to what the scope belongs to, or to something inside. -/
theorem owned_end (h : Chronicled scope c entries d) (hc : InPlace scope c)
    (ledger : Option Ledger) {s : Ending} (hs : .left s ∈ entries ++ endOfScope scope ledger d) :
    ∃ o, s.owner? = some o ∧ (.leaks o ∈ entries ∨ c.scopes.ledgerOwner? scope = some o) := by
  rcases List.mem_append.mp hs with hs | hs
  · exact h.owned s hs
  · cases left_mem_endOfScope.mp hs
    obtain ⟨o, ho⟩ := hc.owned
    exact ⟨o, (h.scopes.ledgerOwner? hc).trans ho, .inr ho⟩

end Chronicled

/-- At the end of a scope its queue is emptied, and no other one is touched. -/
theorem Checker.deferred_leaveScope (c : Checker) (scope i : ScopeId) :
    ((c.leaveScope scope).scopes.scope i).deferred =
      if i = scope then [] else (c.scopes.scope i).deferred := by
  by_cases hi : i = scope
  · subst hi
    obtain ⟨-, -, hdeferred, -⟩ := release_foldl i DeferredFree.name DeferredFree.span .explicit
      (c.scopes.scope i).deferred { c with scopes := c.scopes.clearDeferred i }
    rw [if_pos rfl]
    refine (hdeferred i).trans ?_
    by_cases hlt : i < c.scopes.size
    · simp [ScopeTree.clearDeferred, scope_modify, hlt]
    · simp [ScopeTree.clearDeferred, scope_modify, hlt,
        scope_of_size_le (Nat.not_lt.mp hlt)]
  · rw [if_neg hi]
    exact (c.leaveScope_spec scope).2.1 i hi

/-- When a new scope has been left, its queue has been carried out. -/
theorem Chronicled.leaving {e : Checker} (name : String) (owner : ScopeOwner)
    (ledger : Option Ledger) (hc : InPlace scope c)
    (htarget : ∀ t ∈ walk.deferTarget, t ∈ c.walk.deferTarget) (h : Chronicled c.scopes.size
      { c with scopes := c.scopes.addScope scope name owner ledger, walk } entries d)
    (hscopes : e.scopes = (d.leaveScope c.scopes.size).scopes) (hwalk : e.walk = c.walk) :
    Chronicled scope c (entries ++ endOfScope c.scopes.size ledger d) e := by
  have hin := hc.push name owner ledger htarget
  have hleave := Plain.memory (.leaveScope c.scopes.size) d
  have hold := KeepsScopes.addScope hc.arena hc.bound name owner ledger walk
  have hall := (hold.trans h.scopes).trans (.ofPlain h.scopes.arena hleave)
  have hsize : c.scopes.size < d.scopes.size := Nat.lt_of_lt_of_le hin.bound h.scopes.size
  have hreach := h.reach.leaving htarget hsize
  have hdeferred : ∀ i, (e.scopes.scope i).deferred =
      if i = c.scopes.size then [] else (d.scopes.scope i).deferred :=
    fun i => hscopes ▸ d.deferred_leaveScope c.scopes.size i
  have hsame : e.scopes.size = d.scopes.size := hscopes ▸ hleave.size
  have hnext : ∀ i, c.scopes.size ≤ i → i ≠ c.scopes.size →
      (c.scopes.addScope scope name owner ledger).size ≤ i := by
    intro i hle hne
    rw [size_addScope]
    exact Nat.lt_of_le_of_ne hle (Ne.symm hne)
  refine ⟨hall.congr hscopes, hwalk,
    ⟨hsame ▸ hreach.uses, hreach.left, hsame ▸ hreach.leaks⟩, fun i hi => ?_, fun i hi => ?_,
    fun i hi => ?_, h.pairwise_end hin ledger, fun s hs => ?_⟩
  · rw [hdeferred, if_neg (Nat.ne_of_lt hi), h.queues i (Nat.lt_of_lt_of_le hi hold.size),
      queuedOn_append, queuedOn_endOfScope, List.append_nil,
      c.scopes.field_addScope scope name owner ledger Scope.deferred (fun _ _ => rfl)
        (Nat.ne_of_lt hi)]
  · rw [hdeferred]
    split
    · rfl
    next hne => exact h.drained i (hnext i hi hne)
  · rw [queuedOn_append, queuedOn_endOfScope, List.append_nil]
    by_cases heq : i = c.scopes.size
    · subst heq
      rw [h.appliedFrom_end hin, scope_addScope_size, List.nil_append]
    · rw [Chronicled.appliedFrom_end_of_ne heq, h.applied i (hnext i hi heq)]
  · obtain ⟨o, ho, hleaks | hthere⟩ := h.owned_end hin ledger hs
    · exact ⟨o, ho, .inl (List.mem_append_left _ hleaks)⟩
    · rw [hc.arena.ledgerOwner?_addScope name owner ledger hc.bound] at hthere
      split at hthere
      · next hledger =>
        cases hthere
        exact ⟨_, ho, .inl (List.mem_append_right _ (leaks_mem_endOfScope.mpr ⟨hledger, rfl⟩))⟩
      · exact ⟨o, ho, .inr hthere⟩

/-- What a check does to queues, by its journal. -/
theorem Journaled.chronicled {around : List Enclosure} (h : Journaled scope around c entries d)
    (hc : InPlace scope c) : Chronicled scope c entries d := by
  induction h with
  | rule hrule => exact .ofRuled hrule hc
  | trans _ _ ih ih' =>
    have hfirst := ih hc
    exact hfirst.trans hc (ih' (hfirst.scopes.inPlace hc hfirst.walk))
  | stmt s _ ih => exact ((ih hc).stmt hc rfl).congr rfl (ih hc).walk
  | block name _ ih =>
    have hinside := ih (hc.push name .block none fun _ ht => ht)
    refine hinside.leaving name .block none hc (fun _ ht => ht) rfl ?_
    exact (Plain.memory (.leaveScope _) _).walk.trans hinside.walk
  | loopBody _ ih =>
    exact (ih (hc.setWalk fun _ ht => .inr ht)).within fun _ ht => .inr ht
  | @defer scope _ c _ _ _ ih =>
    have htarget := c.walk.target_enterDefer scope
    exact (ih (hc.setWalk htarget)).within htarget
  | @function scope _ c _ _ name frame _ ih =>
    have htarget := c.walk.target_enterFunction frame
    have hinside := ih (hc.push name (.function name) (some {}) htarget)
    refine hinside.leaving name (.function name) (some {}) hc htarget ?_ rfl
    exact Checker.scopes_reportLeaks _ _

end Warden

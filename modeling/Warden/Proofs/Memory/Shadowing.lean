import Warden.Proofs.Memory.Acyclic
import Warden.Proofs.Memory.Hiding

/-!
# Shadowing and the ledgers

A name that is declared again hides the earlier declaration. Is an allocation that was bound to the
hidden one out of reach as well? The ledger that answers for a name is searched from the scope
outwards to the ledger around the declaration that is meant, its *home*. Beyond the home only a name
that stands for another one counts. So a record of that name beyond the home is never touched. But
one in the home is, if the hidden declaration has left it there: a ledger knows names and not
declarations.

`Checker.OutOfReach` says that nothing that can be done with a name from a scope touches the records
of that name in a ledger, and `hidden_records_out_of_reach_iff` when that is so.
-/

namespace Warden

open ScopeTree

variable {scope owner home : ScopeId} {name : String} {t : ScopeTree} {c : Checker}

/-- Two searches find the same, if they differ at one place only and the first does not stop
there. -/
theorem find?_congr_of_ne {α : Type} {p q : α → Bool} {a : α} {as : List α}
    (hpq : ∀ b ≠ a, q b = p b) (ha : q a = true → p a = true) (h : as.find? p ≠ some a) :
    as.find? q = as.find? p := by
  induction as with
  | nil => rfl
  | cons b as ih =>
    rw [List.find?_cons] at h
    rw [List.find?_cons, List.find?_cons]
    have hb : q b = p b := by
      by_cases hba : b = a
      · subst hba
        cases hp : p b with
        | true => simp [hp] at h
        | false => simpa [hp] using ha
      · exact hpq b hba
    rw [hb]
    cases hp : p b with
    | true => rfl
    | false => exact ih (by simpa [hp] using h)

namespace Ledger

variable {l : Ledger} {name : String}

theorem Acyclic.knows_without (h : l.Acyclic) (haside : l.Aside name) :
    (l.without name).knows name = l.knows name := by
  rw [knows, h.allocation?_without haside, knows]

theorem Acyclic.tracksRenamed_without (h : l.Acyclic) :
    (l.without name).tracksRenamed name = l.tracksRenamed name := by
  cases hname : l.renames.lookup name with
  | none => simp [tracksRenamed, without, hname]
  | some next =>
    have haside : l.Aside name := .inl (by simp [hname])
    rw [tracksRenamed, h.knows_without haside, tracksRenamed]
    rfl

end Ledger

namespace ScopeTree

/-! ### The way to the home -/

/-- The scopes from one scope outwards to another one. -/
def reach (t : ScopeTree) (scope home : ScopeId) : List ScopeId :=
  (t.ancestors scope).takeWhile (· != home) ++ [home]

/-- Whether a name stands for itself in a scope's own ledger. -/
def ledgerNames (t : ScopeTree) (name : String) (id : ScopeId) : Bool :=
  (t.scope id).ledger.any fun l => (l.renames.lookup name).isNone

/-- From a scope, a name leads to the records that are bound to it in the ledger of `owner`: that
ledger is the first on the way to the home that knows the name, and the name stands for itself
there. -/
def Reaches (t : ScopeTree) (scope home : ScopeId) (name : String) (owner : ScopeId) : Prop :=
  (t.reach scope home).find? (t.ledgerKnows name) = some owner ∧ t.ledgerNames name owner = true

instance (t : ScopeTree) (scope home : ScopeId) (name : String) (owner : ScopeId) :
    Decidable (t.Reaches scope home name owner) :=
  inferInstanceAs (Decidable (_ ∧ _))

theorem Reaches.mem (h : t.Reaches scope home name owner) : owner ∈ t.reach scope home :=
  List.mem_of_find?_eq_some h.1

theorem route_beyond (t : ScopeTree) (name : String) (home : Option ScopeId) (way : List ScopeId) :
    t.route name home false way = way.find? (t.ledgerTracksRenamed name) := by
  induction way with
  | nil => rfl
  | cons i way ih =>
    rw [route, List.find?_cons]
    cases htracks : t.ledgerTracksRenamed name i with
    | true => simp
    | false => simpa using ih

/-- The search takes any record up to the home, and behind it only a name that stands for another
one. If there is none, the home answers. -/
theorem route_or_home (t : ScopeTree) (name : String) (home : ScopeId) (way : List ScopeId) :
    (t.route name (some home) true way).or (some home) =
      (((way.takeWhile (· != home) ++ [home]).find? (t.ledgerKnows name)).or
        (((way.dropWhile (· != home)).drop 1).find? (t.ledgerTracksRenamed name))).or
        (some home) := by
  induction way with
  | nil => cases hknows : t.ledgerKnows name home <;> simp [route, hknows]
  | cons i way ih =>
    rw [route]
    by_cases hi : i = home
    · subst hi
      cases hknows : t.ledgerKnows name i <;> simp [hknows, route_beyond]
    · have hne : (some i != some home) = true := by simp [hi]
      cases hknows : t.ledgerKnows name i
      · simpa [hi, hknows, hne] using ih
      · simp [hi, hknows]

/-- The tree without the records that are bound to a name in one ledger. -/
def hide (t : ScopeTree) (owner : ScopeId) (name : String) : ScopeTree :=
  t.updateLedger owner (·.without name)

/-- A declaration of the name is seen from the scope, and the home is the ledger around it. -/
structure DeclaredUnder (t : ScopeTree) (scope : ScopeId) (name : String) (home : ScopeId) :
    Prop where
  located : ∃ declared symbol, t.locate? scope name = some (declared, symbol) ∧
    t.ledgerOwner? declared = some home

namespace DeclaredUnder

variable {t u : ScopeTree} {scope home owner : ScopeId} {name : String}

variable (h : t.DeclaredUnder scope name home)

include h

/-- Declarations and homes show in the tree without memory. -/
theorem congr (hu : u.withoutMemory = t.withoutMemory) : u.DeclaredUnder scope name home := by
  obtain ⟨declared, symbol, hloc, hhome⟩ := h.located
  have hlocate : ∀ v : ScopeTree, v.withoutMemory.locate? scope name = v.locate? scope name :=
    fun v => by simp [locate?]
  have howner : ∀ v : ScopeTree, v.withoutMemory.ledgerOwner? declared = v.ledgerOwner? declared :=
    fun v => by simp [ledgerOwner?, Scope.withoutMemory]
  refine ⟨declared, symbol, ?_, ?_⟩
  · rw [← hlocate, hu, hlocate, hloc]
  · rw [← howner, hu, howner, hhome]

/-- The ledger that answers for a name. -/
theorem ledgerFor?_eq : t.ledgerFor? scope name =
    (((t.reach scope home).find? (t.ledgerKnows name)).or
      ((((t.ancestors scope).dropWhile (· != home)).drop 1).find?
        (t.ledgerTracksRenamed name))).or (some home) := by
  obtain ⟨declared, symbol, hloc, hhome⟩ := h.located
  rw [reach, ← route_or_home]
  simp [ledgerFor?, hloc, hhome]

/-- The ledger that answers is the first on the way to the home that knows the name, or one in which
the name leads to no record that is bound to it. -/
theorem ledgerFor?_cases : (∃ owner, (t.reach scope home).find? (t.ledgerKnows name) = some owner ∧
      t.ledgerFor? scope name = some owner) ∨
    ∃ owner, t.ledgerFor? scope name = some owner ∧
      (t.ledgerTracksRenamed name owner = true ∨ t.ledgerKnows name owner = false) := by
  rw [h.ledgerFor?_eq]
  cases hfirst : (t.reach scope home).find? (t.ledgerKnows name) with
  | some owner => exact .inl ⟨owner, rfl, rfl⟩
  | none =>
    right
    cases hbeyond : (((t.ancestors scope).dropWhile (· != home)).drop 1).find?
        (t.ledgerTracksRenamed name) with
    | some owner => exact ⟨owner, rfl, .inl (List.find?_some hbeyond)⟩
    | none =>
      have hhome := List.find?_eq_none.mp hfirst home (List.mem_append_right _ (.head _))
      exact ⟨home, rfl, .inr (by simpa using hhome)⟩

theorem ledgerFor?_of_reaches (hreach : t.Reaches scope home name owner) :
    t.ledgerFor? scope name = some owner := by
  rw [h.ledgerFor?_eq, hreach.1]
  rfl

/-- Where a name does not lead to its own records, the ledger that answers for it has them aside. -/
theorem aside (hreach : ¬t.Reaches scope home name owner)
    (hfor : t.ledgerFor? scope name = some owner) {l : Ledger}
    (hl : (t.scope owner).ledger = some l) : l.Aside name := by
  rcases h.ledgerFor?_cases with ⟨i, hfirst, hi⟩ | ⟨i, hi, hother⟩
  · cases hi.symm.trans hfor
    left
    have hrenamed : t.ledgerNames name owner ≠ true := fun h => hreach ⟨hfirst, h⟩
    simpa [ledgerNames, hl, Option.isSome_iff_ne_none] using hrenamed
  · cases hi.symm.trans hfor
    simp only [ledgerTracksRenamed, ledgerKnows, hl, Option.any_some, Ledger.tracksRenamed,
      Bool.and_eq_true] at hother
    exact hother.imp And.left id

/-- Hiding records that a name does not lead to does not change which ledger answers for it. -/
theorem ledgerFor?_hide (hacyclic : ∀ l, (t.scope owner).ledger = some l → l.Acyclic)
    (hreach : ¬t.Reaches scope home name owner) :
    (t.hide owner name).ledgerFor? scope name = t.ledgerFor? scope name := by
  have hmemory : (t.hide owner name).withoutMemory = t.withoutMemory :=
    t.updateLedger_withoutMemory owner _
  have hway : (t.hide owner name).ancestors scope = t.ancestors scope :=
    t.ancestors_updateLedger owner _ scope
  have hledger := t.ledger_updateLedger owner (·.without name)
  have hother : ∀ i ≠ owner, (t.hide owner name).ledgerKnows name i = t.ledgerKnows name i := by
    intro i hi
    simp only [ledgerKnows, hide, hledger, if_neg hi]
  have htracks : (t.hide owner name).ledgerTracksRenamed name = t.ledgerTracksRenamed name := by
    funext i
    simp only [ledgerTracksRenamed, hide, hledger]
    split
    next hi =>
      cases hl : (t.scope i).ledger with
      | none => rfl
      | some l => exact (hacyclic l (hi ▸ hl)).tracksRenamed_without
    · rfl
  have hknows :
      ((t.hide owner name).reach scope home).find? ((t.hide owner name).ledgerKnows name) =
      (t.reach scope home).find? (t.ledgerKnows name) := by
    rw [reach, hway, ← reach]
    cases hl : (t.scope owner).ledger with
    | none =>
      refine congrArg (List.find? · _) (funext fun i => ?_)
      by_cases hi : i = owner
      · simp [ledgerKnows, hide, hledger, hi, hl]
      · exact hother i hi
    | some l =>
      by_cases haside : l.Aside name
      · refine congrArg (List.find? · _) (funext fun i => ?_)
        by_cases hi : i = owner
        · have hsame := (hacyclic l hl).knows_without haside
          simp [ledgerKnows, hide, hledger, hi, hl, hsame]
        · exact hother i hi
      · -- the records are bound to the name and behind it, so the search has stopped before
        refine find?_congr_of_ne hother (fun _ => ?_) fun hfirst => hreach ⟨hfirst, ?_⟩
        · simp only [Ledger.Aside, not_or, Bool.not_eq_false] at haside
          simp [ledgerKnows, hl, haside.2]
        · simp only [Ledger.Aside, not_or, Bool.not_eq_true, Option.isSome_eq_false_iff] at haside
          simp [ledgerNames, hl, haside.1]
  rw [(h.congr hmemory).ledgerFor?_eq, h.ledgerFor?_eq, hknows, htracks, hway]

end DeclaredUnder

end ScopeTree

/-! ### Operations that touch nothing -/

namespace Checker

/-- The state without the records that are bound to a name in one ledger. -/
def hide (c : Checker) (owner : ScopeId) (name : String) : Checker :=
  { c with scopes := c.scopes.hide owner name }

/-- An operation leaves the records that are bound to a name in one ledger as they are, and it does
and reports the same where they are not there. -/
structure Untouched (f : Checker → Checker) (c : Checker) (owner : ScopeId) (name : String) :
    Prop where
  records : ((f c).scopes.scope owner).ledger.map (·.recordsOf name) =
    (c.scopes.scope owner).ledger.map (·.recordsOf name)
  hidden : f (c.hide owner name) = (f c).hide owner name

/-- Nothing that is done with a name from a scope touches the records that are bound to that name in
the ledger of `owner`: no free, now or deferred, no transfer and no use. -/
structure OutOfReach (c : Checker) (scope : ScopeId) (name : String) (owner : ScopeId) : Prop where
  release : ∀ span kind, Untouched (·.release scope name span kind) c owner name
  use : ∀ span, Untouched (·.checkUse scope name span) c owner name
  deferred : (∀ waiting ∈ (c.scopes.scope scope).deferred, waiting.name = name) →
    Untouched (·.leaveScope scope) c owner name

namespace Untouched

variable {f g : Checker → Checker} {c : Checker} {owner : ScopeId} {name : String}

theorem comp (hf : Untouched f c owner name) (hg : Untouched g (f c) owner name) :
    Untouched (fun c => g (f c)) c owner name :=
  ⟨hg.records.trans hf.records, by rw [hf.hidden, hg.hidden]⟩

/-- An operation that changes nothing. -/
theorem ofEq (h : f c = c) (hhide : f (c.hide owner name) = c.hide owner name) :
    Untouched f c owner name :=
  ⟨by rw [h], by rw [h, hhide]⟩

end Untouched

variable {c : Checker} {scope home owner : ScopeId} {name : String}

/-- A release that finds a ledger. -/
theorem release_eq {id : ScopeId} (hid : c.scopes.ledgerFor? scope name = some id) {l : Ledger}
    (hl : (c.scopes.scope id).ledger = some l) (span : Span) (kind : FreeKind) :
    c.release scope name span kind = { c with
      scopes := c.scopes.updateLedger id fun l => (l.release name span kind).1
      context := c.context.reportAny span ((l.release name span kind).2.cause? name kind) } := by
  simp only [release, hid, hl]

/-- What a release leaves alone in a ledger, it leaves alone in all scopes. -/
theorem map_ledger_release {α : Type} {f : Ledger → α} {span : Span} {kind : FreeKind}
    (hf : ∀ l : Ledger, f (l.release name span kind).1 = f l) (i : ScopeId) :
    ((c.release scope name span kind).scopes.scope i).ledger.map f =
      (c.scopes.scope i).ledger.map f := by
  cases hid : c.scopes.ledgerFor? scope name with
  | none => simp only [release, hid]
  | some id =>
    cases hl : (c.scopes.scope id).ledger with
    | none => simp only [release, hid, hl]
    | some l =>
      rw [release_eq hid hl, ledger_updateLedger]
      split
      · rw [Option.map_map]
        exact congrArg (fun g => (c.scopes.scope i).ledger.map g) (funext hf)
      · rfl

theorem any_ledger_release {q : Ledger → Bool} {span : Span} {kind : FreeKind}
    (hq : ∀ l : Ledger, q (l.release name span kind).1 = q l) (i : ScopeId) :
    ((c.release scope name span kind).scopes.scope i).ledger.any q =
      (c.scopes.scope i).ledger.any q := by
  have hmap : ((c.release scope name span kind).scopes.scope i).ledger.map q =
      (c.scopes.scope i).ledger.map q := map_ledger_release hq i
  simpa [Option.any_map] using congrArg (Option.any id) hmap

section

variable (hdeclared : c.scopes.DeclaredUnder scope name home) (hacyclic : c.LedgersAcyclic)
  (hreach : ¬c.scopes.Reaches scope home name owner)

include hdeclared hacyclic hreach

theorem untouched_release (span : Span) (kind : FreeKind) :
    Untouched (·.release scope name span kind) c owner name := by
  have hhide : (c.hide owner name).scopes.ledgerFor? scope name = c.scopes.ledgerFor? scope name :=
    hdeclared.ledgerFor?_hide (hacyclic owner) hreach
  have hledger : ∀ i, ((c.hide owner name).scopes.scope i).ledger =
      if i = owner then (c.scopes.scope i).ledger.map (·.without name)
      else (c.scopes.scope i).ledger := c.scopes.ledger_updateLedger owner _
  cases hid : c.scopes.ledgerFor? scope name with
  | none => exact .ofEq (by simp only [release, hid]) (by simp only [release, hhide, hid])
  | some id =>
    cases hl : (c.scopes.scope id).ledger with
    | none =>
      exact .ofEq (by simp only [release, hid, hl]) (by simp [release, hhide, hid, hledger, hl])
    | some l =>
      have hrelease := release_eq hid hl span kind
      by_cases howner : id = owner
      · subst howner
        have haside := hdeclared.aside hreach hid hl
        have hwithout := (hacyclic id l hl).release_without haside span kind
        have hrelease' := release_eq (c := c.hide id name) (hhide.trans hid)
          (by rw [hledger, if_pos rfl, hl, Option.map_some]) span kind
        refine ⟨?_, ?_⟩
        · rw [hrelease]
          simp [ledger_updateLedger, hl, (hacyclic id l hl).recordsOf_release haside]
        · rw [hrelease, hrelease', hwithout]
          have hscopes : (c.scopes.hide id name).updateLedger id
                (fun l => (l.release name span kind).1) =
              (c.scopes.updateLedger id fun l => (l.release name span kind).1).hide id name := by
            simp only [ScopeTree.hide, ScopeTree.updateLedger, modify_modify]
            apply modify_congr
            simp [hl, hwithout]
          simp only [hide, hscopes]
      · have hrelease' := release_eq (c := c.hide owner name) (hhide.trans hid)
          (by rw [hledger, if_neg howner, hl]) span kind
        refine ⟨?_, ?_⟩
        · rw [hrelease]
          simp [ledger_updateLedger, Ne.symm howner]
        · rw [hrelease, hrelease']
          have hscopes : (c.scopes.hide owner name).updateLedger id
                (fun l => (l.release name span kind).1) =
              (c.scopes.updateLedger id fun l => (l.release name span kind).1).hide owner name :=
            modify_comm _ fun heq => absurd heq.symm howner
          simp only [hide, hscopes]

theorem untouched_checkUse (span : Span) : Untouched (·.checkUse scope name span) c owner name := by
  have hhide := hdeclared.ledgerFor?_hide (hacyclic owner) hreach
  have hledger := c.scopes.ledger_updateLedger owner (·.without name)
  refine ⟨rfl, ?_⟩
  have hcause : ((c.scopes.hide owner name).ledgerFor? scope name).bind (fun id =>
        ((c.scopes.hide owner name).scope id).ledger.bind (·.useCause? name)) =
      (c.scopes.ledgerFor? scope name).bind fun id =>
        (c.scopes.scope id).ledger.bind (·.useCause? name) := by
    rw [hhide]
    cases hid : c.scopes.ledgerFor? scope name with
    | none => rfl
    | some id =>
      simp only [ScopeTree.hide, hledger, Option.bind_some]
      split
      next howner =>
        cases hl : (c.scopes.scope id).ledger with
        | none => rfl
        | some l =>
          have haside := hdeclared.aside hreach (howner ▸ hid) (howner ▸ hl)
          simp [Ledger.useCause?, (hacyclic id l hl).allocation?_without haside]
      · rfl
  simp only [checkUse, hide, hcause]

end

/-! ### Calls of `free` that have waited -/

/-- What a name leads to depends on the shape of the tree and on which ledgers know the name. -/
theorem reaches_congr {u : ScopeTree} (hmemory : u.withoutMemory = t.withoutMemory)
    (hknows : ∀ i, u.ledgerKnows name i = t.ledgerKnows name i)
    (hnames : ∀ i, u.ledgerNames name i = t.ledgerNames name i) :
    u.Reaches scope home name owner ↔ t.Reaches scope home name owner := by
  have hway : u.ancestors scope = t.ancestors scope := by
    rw [← ancestors_withoutMemory, hmemory, ancestors_withoutMemory]
  have hreach : u.reach scope home = t.reach scope home := by
    simp only [ScopeTree.reach, hway]
  simp only [ScopeTree.Reaches, hreach, funext hknows, hnames]

/-- A release changes neither which names are known nor what they stand for. -/
theorem reaches_release (span : Span) (kind : FreeKind) :
    (c.release scope name span kind).scopes.Reaches scope home name owner ↔
      c.scopes.Reaches scope home name owner := by
  refine reaches_congr ?_ (any_ledger_release fun l => by simp) (any_ledger_release fun l => by simp)
  exact (memoryStep_release c scope name span kind).scopes

theorem untouched_releaseAll (waiting : List DeferredFree) :
    ∀ {c : Checker}, c.scopes.DeclaredUnder scope name home → c.LedgersAcyclic →
      ¬c.scopes.Reaches scope home name owner → (∀ w ∈ waiting, w.name = name) →
      Untouched (fun c => waiting.foldl (fun c d => c.release scope d.name d.span .explicit) c) c
        owner name := by
  induction waiting with
  | nil => exact fun _ _ _ _ => .ofEq rfl rfl
  | cons w waiting ih =>
    intro c hdeclared hacyclic hreach hnames
    obtain ⟨rfl, hrest⟩ := List.forall_mem_cons.mp hnames
    refine (untouched_release hdeclared hacyclic hreach w.span .explicit).comp (ih ?_ ?_ ?_ hrest)
    · exact hdeclared.congr (memoryStep_release c scope w.name w.span .explicit).scopes
    · exact hacyclic.release scope w.name w.span .explicit
    · rwa [reaches_release]

theorem untouched_leaveScope (hdeclared : c.scopes.DeclaredUnder scope name home)
    (hacyclic : c.LedgersAcyclic) (hreach : ¬c.scopes.Reaches scope home name owner)
    (hnames : ∀ w ∈ (c.scopes.scope scope).deferred, w.name = name) :
    Untouched (·.leaveScope scope) c owner name := by
  have hledger : ∀ i, ((c.scopes.clearDeferred scope).scope i).ledger =
      (c.scopes.scope i).ledger := c.scopes.field_modify scope Scope.ledger fun _ => rfl
  have hwaiting : ((c.scopes.hide owner name).scope scope).deferred =
      (c.scopes.scope scope).deferred :=
    c.scopes.field_updateLedger owner _ Scope.deferred (fun _ _ => rfl) scope
  have hclear : Untouched (fun c => { c with scopes := c.scopes.clearDeferred scope }) c owner
      name := by
    refine ⟨by simp only [hledger], ?_⟩
    have hscopes : (c.scopes.hide owner name).clearDeferred scope =
        (c.scopes.clearDeferred scope).hide owner name :=
      modify_comm _ fun _ _ => rfl
    simp only [hide, hscopes]
  have hmemory := c.scopes.clearDeferred_withoutMemory scope
  have hreach' : ¬(c.scopes.clearDeferred scope).Reaches scope home name owner := by
    rwa [reaches_congr hmemory (fun i => by simp only [ScopeTree.ledgerKnows, hledger])
      (fun i => by simp only [ScopeTree.ledgerNames, hledger])]
  have hall := untouched_releaseAll (c := { c with scopes := c.scopes.clearDeferred scope })
    (c.scopes.scope scope).deferred (hdeclared.congr hmemory) (hacyclic.modify scope fun _ => rfl)
    hreach' hnames
  have hboth := hclear.comp hall
  have hhidden := hboth.hidden
  refine ⟨hboth.records, ?_⟩
  simp only [hide] at hhidden
  simpa only [leaveScope, hide, hwaiting] using hhidden

end Checker

/-! ### When hidden records are out of reach -/

open Checker

theorem outOfReach_of_not_reaches (hc : c.Reachable)
    (hdeclared : c.scopes.DeclaredUnder scope name home)
    (hreach : ¬c.scopes.Reaches scope home name owner) : c.OutOfReach scope name owner where
  release := untouched_release hdeclared hc.ledgersAcyclic hreach
  use := untouched_checkUse hdeclared hc.ledgersAcyclic hreach
  deferred := untouched_leaveScope hdeclared hc.ledgersAcyclic hreach

/-- A free of a name that leads to its own records changes one of them. -/
theorem not_outOfReach_of_reaches (hdeclared : c.scopes.DeclaredUnder scope name home)
    (hreach : c.scopes.Reaches scope home name owner) : ¬c.OutOfReach scope name owner := by
  intro hout
  have hfor := hdeclared.ledgerFor?_of_reaches hreach
  have hknows : c.scopes.ledgerKnows name owner = true := List.find?_some hreach.1
  have hnames := hreach.2
  simp only [ScopeTree.ledgerKnows, ScopeTree.ledgerNames, Option.any_eq_true] at hknows hnames
  obtain ⟨l, hl, hknows⟩ := hknows
  obtain ⟨l', hl', hlookup⟩ := hnames
  cases hl.symm.trans hl'
  have haside : ¬l.Aside name := by
    simp only [Ledger.Aside, hknows, not_or]
    rw [Option.isNone_iff_eq_none.mp hlookup]
    exact ⟨by simp, by simp⟩
  have hrecords := (hout.release {} .explicit).records
  rw [release_eq hfor hl] at hrecords
  simp only [ledger_updateLedger, if_true, hl, Option.map_some, Option.some.injEq]
    at hrecords
  exact Ledger.recordsOf_release_ne haside {} hrecords

/-- **Hidden records are out of reach beyond the home, and only there for certain.** Let a name be
declared where a scope sees it, and let the home be the ledger around that declaration. No free,
transfer or use of the name in the scope touches records of that name in a ledger beyond the home.
In any ledger it touches none, exactly unless the ledger is the first on the way to the home that
knows the name, and the name stands for itself there. -/
theorem hidden_records_out_of_reach_iff {c : Checker} (hc : c.Reachable)
    {scope declared home : ScopeId} {name : String} {symbol : Symbol}
    (hdeclared : c.scopes.locate? scope name = some (declared, symbol))
    (hhome : c.scopes.ledgerOwner? declared = some home) (owner : ScopeId) :
    (owner ∉ c.scopes.reach scope home → c.OutOfReach scope name owner) ∧
      (c.OutOfReach scope name owner ↔ ¬c.scopes.Reaches scope home name owner) := by
  have hunder : c.scopes.DeclaredUnder scope name home := ⟨declared, symbol, hdeclared, hhome⟩
  refine ⟨fun hbeyond => ?_, fun hout hreach => ?_, fun hreach => ?_⟩
  · exact outOfReach_of_not_reaches hc hunder fun hreach => hbeyond hreach.mem
  · exact not_outOfReach_of_reaches hunder hreach hout
  · exact outOfReach_of_not_reaches hc hunder hreach

/-- A module with a pointer `p` that it allocates, and a function with a parameter `p` that it
frees. -/
def shadowingParameter : Program :=
  { modules := [{
      name := "main"
      body := [
        ⟨{}, .var { name := "p", ty := some (.pointer {} (.named {} none "int"))
                    value := some ⟨1, {}, .call ⟨2, {}, .ident "alloc"⟩ [⟨3, {}, .int 8⟩]⟩ }⟩,
        ⟨{}, .fn ⟨"f", [{ name := "p", ty := .pointer {} (.named {} none "int") }],
          .named {} none "void",
          ⟨{}, [⟨{}, .expr ⟨4, {}, .call ⟨5, {}, .ident "free"⟩ [⟨6, {}, .ident "p"⟩]⟩⟩]⟩,
          false, false, false⟩⟩] }] }

/-- From the function, the parameter does not lead to the allocation of the module. -/
theorem parameter_out_of_reach_of_module_record : ∃ c, c = shadowingParameter.check {} ∧
    c.Reachable ∧ (c.scopes.locate? 2 "p").map (·.1) = some 2 ∧
    c.scopes.ledgerOwner? 2 = some 2 ∧ c.scopes.ledgerKnows "p" 1 = true ∧
    c.OutOfReach 2 "p" 1 := by
  have hc : (shadowingParameter.check {}).Reachable := .resolve shadowingParameter (.start {})
  have hlocated : ((shadowingParameter.check {}).scopes.locate? 2 "p").map (·.1) = some 2 := by
    decide +kernel
  have hhome : (shadowingParameter.check {}).scopes.ledgerOwner? 2 = some 2 := by decide +kernel
  have hknows : (shadowingParameter.check {}).scopes.ledgerKnows "p" 1 = true := by decide +kernel
  have hbeyond : 1 ∉ (shadowingParameter.check {}).scopes.reach 2 2 := by decide +kernel
  generalize shadowingParameter.check {} = c at *
  obtain ⟨⟨declared, symbol⟩, hlocate, rfl⟩ := Option.map_eq_some_iff.mp hlocated
  exact ⟨c, rfl, hc, hlocated, hhome, hknows,
    (hidden_records_out_of_reach_iff hc hlocate hhome 1).1 hbeyond⟩

/-- A function that allocates a pointer `p`, and in a block declares another `p` and frees it. -/
def shadowingInBlock : Program :=
  { modules := [{
      name := "main"
      body := [
        ⟨{}, .fn ⟨"f", [], .named {} none "void",
          ⟨{}, [
            ⟨{}, .var { name := "p", ty := some (.pointer {} (.named {} none "int"))
                        value := some ⟨1, {}, .call ⟨2, {}, .ident "alloc"⟩ [⟨3, {}, .int 8⟩]⟩ }⟩,
            ⟨{}, .block ⟨{}, [
              ⟨{}, .var { name := "p", ty := some (.pointer {} (.named {} none "int"))
                          isMutable := true }⟩,
              ⟨{}, .expr ⟨4, {}, .call ⟨5, {}, .ident "free"⟩ [⟨6, {}, .ident "p"⟩]⟩⟩]⟩⟩]⟩,
          false, false, false⟩⟩] }] }

/-- In the block, `p` is the pointer declared there, which was never allocated. To free it marks the
allocation of the hidden `p`, and nothing is reported. -/
theorem inner_block_frees_hidden_record :
    let c := shadowingInBlock.check {}
    (c.scopes.scope 3).parent = some 2 ∧ (c.scopes.locate? 3 "p").map (·.1) = some 3 ∧
      (c.scopes.locate? 2 "p").map (·.1) = some 2 ∧
      (c.scopes.scope 2).ledger.map (·.allocations.map fun a => (a.name, a.isFreed)) =
        some [("p", true)] ∧
      c.context.findings = [] := by
  decide +kernel

end Warden

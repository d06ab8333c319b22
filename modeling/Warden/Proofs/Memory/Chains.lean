import Mathlib.Logic.Relation
import Warden.Proofs.Memory.History

/-!
# Chains of names

A name may stand for another one, which may stand for a third one, and so on. `Ledger.canonical`
follows such a chain for a bounded number of steps. In a ledger that grew out of the empty one, no
chain comes back to a name it has passed, so that the bound does not matter: `canonical` gives the
end of the chain, which is the only name on it that stands for itself
(`Ledger.Acyclic.canonical_eq`).

A renaming redirects the edge of one name. Chains that avoid this name are as before, and the others
now end where the chain of the source ends (`Ledger.Acyclic.canonical_rename`).
-/

namespace Warden.Ledger

open Relation

variable {name : String}

variable {l : Ledger} {a b c : String}

/-- One name stands for the other by an edge of the ledger. -/
def StandsFor (l : Ledger) (a b : String) : Prop :=
  l.renames.lookup a = some b

/-- The chain of the first name passes through the second one, or ends there. -/
def Reaches (l : Ledger) : String → String → Prop :=
  ReflTransGen l.StandsFor

/-- The name has no edge. -/
def StandsForItself (l : Ledger) (a : String) : Prop :=
  l.renames.lookup a = none

theorem StandsFor.unique (h : l.StandsFor a b) (h' : l.StandsFor a c) : b = c :=
  Option.some.inj (h.symm.trans h')

theorem StandsFor.not_itself (h : l.StandsFor a b) : ¬l.StandsForItself a := by
  intro hnone
  rw [StandsForItself, h] at hnone
  cases hnone

/-- A chain has one end. -/
theorem Reaches.unique (hb : l.Reaches a b) (hb' : l.StandsForItself b) (hc : l.Reaches a c)
    (hc' : l.StandsForItself c) : b = c := by
  induction hb using ReflTransGen.head_induction_on with
  | refl =>
    rcases hc.cases_head with rfl | ⟨d, hd, -⟩
    · rfl
    · exact absurd hb' hd.not_itself
  | head hstep _ ih =>
    rcases hc.cases_head with rfl | ⟨d, hd, hrest⟩
    · exact absurd hc' hstep.not_itself
    · obtain rfl := hstep.unique hd
      exact ih hrest

/-- A chain that comes to an end does not come back to its start. -/
theorem Reaches.not_cycle (hb : l.Reaches a b) (hb' : l.StandsForItself b) :
    ¬TransGen l.StandsFor a a := by
  induction hb using ReflTransGen.head_induction_on with
  | refl =>
    intro hcycle
    obtain ⟨d, hd, -⟩ := TransGen.head'_iff.mp hcycle
    exact hd.not_itself hb'
  | head hstep _ ih =>
    intro hcycle
    obtain ⟨d, hd, hrest⟩ := TransGen.head'_iff.mp hcycle
    obtain rfl := hstep.unique hd
    exact ih (TransGen.tail' hrest hstep)

theorem reaches_follow (l : Ledger) (n : Nat) (name : String) :
    l.Reaches name (l.follow n name) := by
  induction n generalizing name with
  | zero => exact .refl
  | succ n ih =>
    cases hname : l.renames.lookup name with
    | none =>
      simp only [follow, hname]
      exact .refl
    | some next =>
      simp only [follow, hname]
      split
      · exact .refl
      · exact .head hname (ih next)

namespace Acyclic

variable (h : l.Acyclic)

include h

theorem canonical_eq {owner : String} (hreach : l.Reaches name owner)
    (howner : l.StandsForItself owner) : l.canonical name = owner :=
  (l.reaches_follow _ name).unique (h.lookup_canonical name) hreach howner

theorem follow_eq_canonical {n : Nat} (hn : l.renames.length < n) (name : String) :
    l.follow n name = l.canonical name :=
  (h.canonical_eq (l.reaches_follow n name)
    (h.lookup_follow n (List.append_nil _).symm rfl hn)).symm

theorem canonical_of_reaches (hreach : l.Reaches a b) : l.canonical a = l.canonical b :=
  h.canonical_eq (hreach.trans (l.reaches_follow _ b)) (h.lookup_canonical b)

theorem not_cycle (name : String) : ¬TransGen l.StandsFor name name :=
  (l.reaches_follow _ name).not_cycle (h.lookup_canonical name)

end Acyclic

/-! ### Renaming -/

/-- Taking out the edge of one name leaves the edges of all others. -/
theorem lookup_filter_ne (edges : List (String × String)) {target : String} (hne : name ≠ target) :
    (edges.filter (·.1 != target)).lookup name = edges.lookup name := by
  induction edges with
  | nil => rfl
  | cons edge edges ih =>
    obtain ⟨a, b⟩ := edge
    by_cases ha : a = target
    · have hname : (name == a) = false := by simpa [ha] using hne
      have hdropped : ((a, b) :: edges).filter (·.1 != target) = edges.filter (·.1 != target) := by
        simp [ha]
      rw [hdropped, ih, List.lookup_cons, hname]
    · have hkept : ((a, b) :: edges).filter (·.1 != target) =
          (a, b) :: edges.filter (·.1 != target) := by
        simp [ha]
      rw [hkept, List.lookup_cons, ih, List.lookup_cons]

section

variable {target source : String}

/-- A name that owns the record of the source already is not renamed. -/
theorem rename_of_eq (heq : l.canonical source = target) : l.rename target source = l := by
  simp [rename, heq]

/-- Any other name gets an edge to the owner of the source. All other edges stay. -/
theorem lookup_rename (hne : l.canonical source ≠ target) (name : String) :
    (l.rename target source).renames.lookup name =
      if name = target then some (l.canonical source) else l.renames.lookup name := by
  have hrename : (l.rename target source).renames =
      (target, l.canonical source) :: l.renames.filter (·.1 != target) := by
    simp [rename, hne]
  rw [hrename, List.lookup_cons]
  split
  next hname => simp [beq_iff_eq.mp hname]
  next hname => rw [if_neg (by simpa using hname), lookup_filter_ne _ (by simpa using hname)]

/-- A renaming changes what its target stands for, and no other name. -/
theorem StandsFor.rename (h : l.StandsFor a b) (ha : a ≠ target) :
    (l.rename target source).StandsFor a b := by
  by_cases hne : l.canonical source = target
  · rwa [rename_of_eq hne]
  · rwa [StandsFor, lookup_rename hne, if_neg ha]

/-- A chain that avoids the target of a renaming is not changed by it. -/
theorem Reaches.rename_of_avoids (h : l.Reaches a b) (havoid : ¬l.Reaches a target) :
    (l.rename target source).Reaches a b := by
  induction h using ReflTransGen.head_induction_on with
  | refl => exact .refl
  | head hstep _ ih =>
    have hnext := ih fun hnext => havoid (.head hstep hnext)
    exact .head (hstep.rename fun heq => havoid (heq ▸ .refl)) hnext

/-- A chain that leads to the target of a renaming still leads there. -/
theorem Reaches.rename_target (h : l.Reaches a target) :
    (l.rename target source).Reaches a target := by
  induction h using ReflTransGen.head_induction_on with
  | refl => exact .refl
  | @head a next hstep _ ih =>
    by_cases ha : a = target
    · exact ha ▸ .refl
    · exact .head (hstep.rename ha) ih

namespace Acyclic

theorem canonical_rename_of_avoids (h : l.Acyclic) (havoid : ¬l.Reaches name target) :
    (l.rename target source).canonical name = l.canonical name := by
  have hreach : l.Reaches name (l.canonical name) := l.reaches_follow _ name
  refine (h.rename target source).canonical_eq (hreach.rename_of_avoids havoid) ?_
  by_cases hne : l.canonical source = target
  · rw [rename_of_eq hne]
    exact h.lookup_canonical name
  · have howner : l.canonical name ≠ target := fun heq => havoid (heq ▸ hreach)
    rw [StandsForItself, lookup_rename hne, if_neg howner]
    exact h.lookup_canonical name

theorem canonical_rename_target (h : l.Acyclic) :
    (l.rename target source).canonical target = l.canonical source := by
  by_cases hne : l.canonical source = target
  · rw [rename_of_eq hne, hne]
    exact canonical_eq_self (hne ▸ h.lookup_canonical source)
  · have hstep : (l.rename target source).StandsFor target (l.canonical source) := by
      rw [StandsFor, lookup_rename hne, if_pos rfl]
    refine (h.rename target source).canonical_eq (.single hstep) ?_
    rw [StandsForItself, lookup_rename hne, if_neg hne]
    exact h.lookup_canonical source

/-- A chain that led to the target of a renaming now ends at the owner of the source. -/
theorem canonical_rename_of_reaches (h : l.Acyclic) (hreach : l.Reaches name target) :
    (l.rename target source).canonical name = l.canonical source := by
  rw [(h.rename target source).canonical_of_reaches hreach.rename_target]
  exact h.canonical_rename_target

/-- The source itself means what it meant, also if its chain led to the target. -/
theorem canonical_rename_source (h : l.Acyclic) :
    (l.rename target source).canonical source = l.canonical source := by
  by_cases hreach : l.Reaches source target
  · exact h.canonical_rename_of_reaches hreach
  · exact h.canonical_rename_of_avoids hreach

end Acyclic

end

/-! ### Histories -/

theorem Acyclic.apply (h : l.Acyclic) (e : Event) : (e.apply l).Acyclic := by
  cases e with
  | allocate span name owner => exact h.allocate span name owner
  | release name span kind => exact h.release name span kind
  | rename target source => exact h.rename target source

theorem Acyclic.after (h : l.Acyclic) (events : List Event) : (l.after events).Acyclic := by
  induction events generalizing l with
  | nil => exact h
  | cons e events ih => exact ih (h.apply e)

/-- **The meaning of a name is exact.** Let a ledger live through some events. No chain of names
comes back to where it started. `canonical` gives the end of the chain of a name, a name that stands
for itself, and a walk that may take more steps ends there as well. Directly after a renaming,
target and source mean what the source meant before; so does every name whose chain led to the
target, and all other names mean what they meant. -/
theorem canonical_is_exact (events : List Event) :
    (∀ name, ¬TransGen (after {} events).StandsFor name name) ∧
    (∀ name, (after {} events).Reaches name ((after {} events).canonical name) ∧
      (after {} events).StandsForItself ((after {} events).canonical name) ∧
      (after {} events).canonical ((after {} events).canonical name) =
        (after {} events).canonical name ∧
      ∀ n, (after {} events).renames.length < n →
        (after {} events).follow n name = (after {} events).canonical name) ∧
    ∀ target source,
      (after {} (events ++ [.rename target source])).canonical target =
        (after {} events).canonical source ∧
      (after {} (events ++ [.rename target source])).canonical source =
        (after {} events).canonical source ∧
      ∀ name,
        ((after {} events).Reaches name target →
          (after {} (events ++ [.rename target source])).canonical name =
            (after {} events).canonical source) ∧
        (¬(after {} events).Reaches name target →
          (after {} (events ++ [.rename target source])).canonical name =
            (after {} events).canonical name) := by
  have h : (after {} events).Acyclic := Acyclic.empty.after events
  refine ⟨h.not_cycle, fun name => ?_, fun target source => ?_⟩
  · have hend := h.lookup_canonical name
    exact ⟨reaches_follow _ _ name, hend, canonical_eq_self hend,
      fun n hn => h.follow_eq_canonical hn name⟩
  · rw [after_append]
    exact ⟨h.canonical_rename_target, h.canonical_rename_source, fun _ =>
      ⟨h.canonical_rename_of_reaches, h.canonical_rename_of_avoids⟩⟩

end Warden.Ledger

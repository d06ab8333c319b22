import Warden.Proofs.Journal.Basic
import Warden.Proofs.Resolution.Locality

/-!
# The journal of a program

A program is checked module by module, and a cycle that is reported on the way has no entry. So what
each module keeps in its own scope is kept by the whole course (`Program.IsCourse.keeps`).
-/

namespace Warden

open Resolver

/-- A property of the modules that have been checked, of the state and of the journal so far, which
is kept by each event of a tour. -/
structure CourseInvariant (config : Config) (r : Resolver)
    (P : List Nat → Checker → List Entry → Prop) : Prop where
  start : P [] r.checker []
  check {checked c entries i s} : Between config r checked c → r.slots[i]? = some s →
    i ∉ checked → P checked c entries →
    P (checked ++ [i]) ((s.module.check s.scope).exec c) (entries ++ s.module.journal s.scope c)
  cycle {checked c entries} (m path user used span) : P checked c entries →
    P checked ((c.entered m).report (.circularDependency path user used) span) entries

variable {config : Config} {linkageOf : Nat → Linkage} {r : Resolver}
  {P : List Nat → Checker → List Entry → Prop}

theorem CourseInvariant.events (hP : CourseInvariant config r P)
    (hlayout : Layout config linkageOf r) (events : List Event) {checked : List Nat} {c : Checker}
    {entries : List Entry} (hbetween : Between config r checked c)
    (hnodup : (checked ++ checkedIn events).Nodup)
    (hbound : ∀ i ∈ checkedIn events, i < r.slots.size) (h : P checked c entries) :
    P (checked ++ checkedIn events) (events.foldl r.perform c) (entries ++ r.journal c events) := by
  induction events generalizing checked c entries with
  | nil => simpa [checkedIn, journal] using h
  | cons e events ih =>
    have hnext := hbetween.perform hlayout e
    rw [List.foldl_cons, journal, ← List.append_assoc]
    cases e with
    | check i =>
      have hs := Array.getElem?_eq_getElem (hbound i (.head _))
      have hsplit : checked ++ checkedIn (.check i :: events) =
          checked ++ [i] ++ checkedIn events := by
        rw [List.append_assoc]
        rfl
      rw [hsplit] at hnodup ⊢
      have hnew : i ∉ checked := by
        have hchecked := (List.nodup_append.mp (List.nodup_append.mp hnodup).1).2.2
        exact fun hi => hchecked i hi i (.head _) rfl
      refine ih hnext hnodup (fun j hj => hbound j (.tail _ hj)) ?_
      simp only [perform, eventJournal, hs]
      exact hP.check hbetween hs hnew h
    | cycle path user used span =>
      have hnone : checked ++ checkedIn [.cycle path user used span] = checked :=
        List.append_nil checked
      rw [hnone] at hnext
      refine ih hnext hnodup hbound ?_
      rw [eventJournal, List.append_nil, perform]
      split
      · exact h
      · exact hP.cycle _ _ _ _ span h

theorem Program.IsCourse.keeps {p : Program} {events : List Event} (h : p.IsCourse config events)
    (hP : CourseInvariant config ((Checker.ofConfig config).linked p) P) :
    let r := (Checker.ofConfig config).linked p
    P (checkedIn events) (p.check config) (r.journal r.checker events) := by
  intro r
  obtain ⟨hlayout, -⟩ := Checker.layout_linked config p
  have hnodup := h.course.nodup
  have hbound := h.course.bound
  rw [List.append_nil] at hnodup hbound
  rw [Program.check, h.ends]
  exact hP.events hlayout events (.start hlayout) hnodup hbound hP.start

end Warden

import Warden.Proofs.Memory.Hiding

/-!
# The history of a ledger

A ledger starts empty and lives through allocations, releases and renamings (`Ledger.Event`). An
event does one of three things to the records (`Ledger.Event.Effect`): it leaves them alone, it puts
a fresh record at their end, or it releases one record in its place. Everything below follows from
that, event by event:

* what a record says about its frees agrees with itself (`Allocation.Consistent`),
* a record stays in its place and keeps what it says (`Allocation.Continues`),
* each allocation that is recorded opens one record, and each successful release closes one
  (`Ledger.Event.Effect.balance`).

So the leaks that are reported are the allocations that were recorded, less the releases that
succeeded (`allocations_are_conserved`).
-/

namespace Warden

/-! ### Records -/

namespace Allocation

variable {a b c : Allocation}

/-- The record is marked as freed exactly if a free was counted, and exactly then it has a place of
its first free, line and column alike. -/
structure Consistent (a : Allocation) : Prop where
  count : a.isFreed = true ↔ 1 ≤ a.freeCount
  line : a.freeLine.isSome = a.isFreed
  column : a.freeColumn.isSome = a.isFreed

/-- The second record is what may become of the first one. -/
structure Continues (a b : Allocation) : Prop where
  name : b.name = a.name
  line : b.line = a.line
  column : b.column = a.column
  function : b.function = a.function
  count : a.freeCount ≤ b.freeCount
  freed : a.isFreed = true →
    b.isFreed = true ∧ b.freeLine = a.freeLine ∧ b.freeColumn = a.freeColumn

theorem Continues.refl (a : Allocation) : a.Continues a :=
  ⟨rfl, rfl, rfl, rfl, Nat.le_refl _, fun h => ⟨h, rfl, rfl⟩⟩

theorem Continues.trans (hab : a.Continues b) (hbc : b.Continues c) : a.Continues c where
  name := hbc.name.trans hab.name
  line := hbc.line.trans hab.line
  column := hbc.column.trans hab.column
  function := hbc.function.trans hab.function
  count := Nat.le_trans hab.count hbc.count
  freed h := by
    obtain ⟨hb, hline, hcolumn⟩ := hab.freed h
    obtain ⟨hc, hline', hcolumn'⟩ := hbc.freed hb
    exact ⟨hc, hline'.trans hline, hcolumn'.trans hcolumn⟩

end Allocation

namespace Ledger

open Allocation

/-- A record that is released stays consistent. -/
theorem released_consistent {a : Allocation} (h : a.Consistent) (span : Span) (kind : FreeKind) :
    (released span kind a).Consistent := by
  unfold released
  split
  next hfreed =>
    cases kind with
    | explicit => exact ⟨by simp [countFree, hfreed], h.line, h.column⟩
    | transfer => exact h
  next => constructor <;> simp [markFreed]

theorem released_continues {a : Allocation} (h : a.Consistent) (span : Span) (kind : FreeKind) :
    a.Continues (released span kind a) := by
  unfold released
  split
  next =>
    cases kind with
    | explicit => exact ⟨rfl, rfl, rfl, rfl, Nat.le_succ _, fun hfreed => ⟨hfreed, rfl, rfl⟩⟩
    | transfer => exact .refl a
  next hfreed =>
    have hcount : ¬1 ≤ a.freeCount := fun hcount => hfreed (h.count.mpr hcount)
    refine ⟨rfl, rfl, rfl, rfl, ?_, fun h => absurd h hfreed⟩
    simp only [markFreed]
    omega

/-! ### Events -/

/-- What can happen to a ledger. -/
inductive Event where
  | allocate (span : Span) (name : String) (owner : Option Ownership)
  | release (name : String) (span : Span) (kind : FreeKind)
  | rename (target source : String)
  deriving DecidableEq, Repr

namespace Event

/-- The ledger after an event. -/
def apply (l : Ledger) : Event → Ledger
  | allocate span name owner => l.allocate span name owner
  | release name span kind => (l.release name span kind).1
  | rename target source => l.rename target source

/-- The event is an allocation that is recorded. -/
def opens : Event → Bool
  | allocate _ _ owner => isRecorded owner
  | _ => false

/-- The event is a release, with success or without. -/
def isRelease : Event → Bool
  | release .. => true
  | _ => false

/-- The event is a release that frees a record of the ledger. -/
def closes (l : Ledger) : Event → Bool
  | release name span kind => (l.release name span kind).2 == .freed
  | _ => false

end Event

/-- The ledger after some events. -/
def after (l : Ledger) (events : List Event) : Ledger :=
  events.foldl Event.apply l

/-- How many of the events are allocations that are recorded. -/
def opened (events : List Event) : Nat :=
  events.countP Event.opens

/-- How many of the events are releases that free a record, each in the ledger it meets. -/
def closed (l : Ledger) : List Event → Nat
  | [] => 0
  | e :: events => (e.closes l).toNat + (e.apply l).closed events

theorem after_append (l : Ledger) (past future : List Event) :
    l.after (past ++ future) = (l.after past).after future :=
  List.foldl_append

/-! ### What one event does -/

/-- What an event does to the records of a ledger. -/
inductive Event.Effect (l : Ledger) (e : Event) (records : List Allocation) : Prop where
  | none (hrecords : records = l.allocations) (hopens : e.opens = false)
      (hcloses : e.closes l = false)
  | fresh (line column : Nat) (name : String) (function : Option String)
      (hrecords : records = l.allocations ++ [{ line := line, column, name, function }])
      (hopens : e.opens = true) (hcloses : e.closes l = false)
  | change (older : List Allocation) (a : Allocation) (newer : List Allocation) (span : Span)
      (kind : FreeKind) (hbefore : l.allocations = older ++ a :: newer)
      (hrecords : records = older ++ released span kind a :: newer) (hopens : e.opens = false)
      (hrelease : e.isRelease = true) (hcloses : e.closes l = !a.isFreed)

theorem outcomeOf_eq_freed (kind : FreeKind) (a : Allocation) :
    (outcomeOf kind a == .freed) = !a.isFreed := by
  unfold outcomeOf
  split
  next hfreed => cases kind <;> simp [hfreed]
  next hfreed => simp [hfreed]

theorem Event.effect (l : Ledger) (e : Event) : e.Effect l (e.apply l).allocations := by
  cases e with
  | allocate span name owner =>
    cases howner : isRecorded owner with
    | false => exact .none (by simp [apply, Ledger.allocate, howner]) howner rfl
    | true =>
      refine .fresh span.line span.column name (owner.map (·.function)) ?_ howner rfl
      simp [apply, Ledger.allocate, howner]
  | release name span kind =>
    cases hfound : l.allocation? name with
    | none =>
      have hrelease := release_of_none hfound span kind
      exact .none (by simp [apply, hrelease]) rfl (by simp [closes, hrelease])
    | some a =>
      obtain ⟨ha, older, newer, hsplit, hnewer⟩ := exists_split_of_allocation? hfound
      have hrelease := release_of_some hsplit ha hnewer span kind
      refine .change older a newer span kind hsplit ?_ rfl rfl ?_
      · simp [apply, hrelease]
      · simp only [closes, hrelease, outcomeOf_eq_freed]
  | rename target source =>
    refine .none ?_ rfl rfl
    simp only [apply, Ledger.rename]
    split <;> rfl

namespace Event.Effect

variable {l : Ledger} {e : Event} {records : List Allocation}

variable (h : e.Effect l records)

include h

/-- What holds of the records, of fresh ones and of released ones, holds of them afterwards. -/
theorem forall_mem {P : Allocation → Prop} (hl : ∀ a ∈ l.allocations, P a)
    (hfresh : ∀ line column name function, P { line, column, name, function })
    (hreleased : e.isRelease = true → ∀ a ∈ l.allocations, ∀ span kind, P (released span kind a)) :
    ∀ a ∈ records, P a := by
  cases h with
  | none hrecords _ _ => rwa [hrecords]
  | fresh line column name function hrecords _ _ =>
    rw [hrecords]
    exact List.forall_mem_append.mpr ⟨hl, List.forall_mem_singleton.mpr (hfresh ..)⟩
  | change older a newer span kind hbefore hrecords _ hrelease _ =>
    have ha := hreleased hrelease a (by simp [hbefore]) span kind
    rw [hbefore] at hl
    obtain ⟨holder, hlater⟩ := List.forall_mem_append.mp hl
    obtain ⟨-, hnewer⟩ := List.forall_mem_cons.mp hlater
    rw [hrecords]
    exact List.forall_mem_append.mpr ⟨holder, List.forall_mem_cons.mpr ⟨ha, hnewer⟩⟩

theorem consistent (hl : ∀ a ∈ l.allocations, a.Consistent) : ∀ a ∈ records, a.Consistent := by
  refine h.forall_mem hl (fun _ _ _ _ => ?_) fun _ a ha => released_consistent (hl a ha)
  constructor <;> simp

/-- No record counts more frees than there are releases. -/
theorem freeCount_le {releases : Nat} (hl : ∀ a ∈ l.allocations, a.freeCount ≤ releases) :
    ∀ a ∈ records, a.freeCount ≤ releases + e.isRelease.toNat := by
  refine h.forall_mem (fun a ha => Nat.le_add_right_of_le (hl a ha)) (fun _ _ _ _ => ?_) ?_
  · exact Nat.zero_le _
  · intro hrelease a ha span kind
    have hone := (released_counts span kind a).1
    have hbound := hl a ha
    rw [hrelease, Bool.toNat_true]
    omega

/-- Every record stays in its place. -/
theorem continues (hl : ∀ a ∈ l.allocations, a.Consistent) {k : Nat} {a : Allocation}
    (ha : l.allocations[k]? = some a) : ∃ b, records[k]? = some b ∧ a.Continues b := by
  cases h with
  | none hrecords _ _ => exact ⟨a, hrecords ▸ ha, .refl a⟩
  | fresh line column name function hrecords _ _ =>
    obtain ⟨hk, -⟩ := List.getElem?_eq_some_iff.mp ha
    exact ⟨a, by rw [hrecords, List.getElem?_append_left hk, ha], .refl a⟩
  | change older a' newer span kind hbefore hrecords _ _ _ =>
    rw [hbefore] at ha
    rw [hrecords]
    rcases Nat.lt_trichotomy k older.length with hk | rfl | hk
    · rw [List.getElem?_append_left hk] at ha ⊢
      exact ⟨a, ha, .refl a⟩
    · have heq : a' = a := by simpa using ha
      subst heq
      exact ⟨_, by simp, released_continues (hl a' (by simp [hbefore])) span kind⟩
    · obtain ⟨j, hj⟩ : ∃ j, k - older.length = j + 1 := ⟨k - older.length - 1, by omega⟩
      rw [List.getElem?_append_right (by omega), hj, List.getElem?_cons_succ] at ha ⊢
      exact ⟨a, ha, .refl a⟩

/-- The number of records grows with each allocation that is recorded, and so does the number of
those that were never freed, which shrinks again with each release that succeeds. -/
theorem balance : records.length = l.allocations.length + e.opens.toNat ∧
      records.countP (!·.isFreed) + (e.closes l).toNat =
        l.allocations.countP (!·.isFreed) + e.opens.toNat := by
  cases h with
  | none hrecords hopens hcloses => simp [hrecords, hopens, hcloses]
  | fresh line column name function hrecords hopens hcloses =>
    simp [hrecords, hopens, hcloses]
  | change older a newer span kind hbefore hrecords hopens _ hcloses =>
    have hfreed := (released_counts span kind a).2
    rw [hrecords, hbefore, hopens, hcloses]
    refine ⟨by simp, ?_⟩
    cases ha : a.isFreed <;> simp [List.countP_append, hfreed, ha]
    omega

end Event.Effect

/-! ### What a history does -/

section

variable {l : Ledger}

variable (events : List Event)

theorem consistent_after (hl : ∀ a ∈ l.allocations, a.Consistent) :
    ∀ a ∈ (l.after events).allocations, a.Consistent := by
  induction events generalizing l with
  | nil => exact hl
  | cons e events ih => exact ih ((e.effect l).consistent hl)

theorem freeCount_le_after {releases : Nat} (hl : ∀ a ∈ l.allocations, a.freeCount ≤ releases) :
    ∀ a ∈ (l.after events).allocations,
      a.freeCount ≤ releases + events.countP Event.isRelease := by
  induction events generalizing l releases with
  | nil => exact hl
  | cons e events ih =>
    intro a ha
    have hrest := ih ((e.effect l).freeCount_le hl) a ha
    cases he : e.isRelease <;> simp [he] at hrest ⊢ <;> omega

theorem continues_after (hl : ∀ a ∈ l.allocations, a.Consistent) {k : Nat} {a : Allocation}
    (ha : l.allocations[k]? = some a) :
    ∃ b, (l.after events).allocations[k]? = some b ∧ a.Continues b := by
  induction events generalizing l a with
  | nil => exact ⟨a, ha, .refl a⟩
  | cons e events ih =>
    obtain ⟨b, hb, hab⟩ := (e.effect l).continues hl ha
    obtain ⟨c, hc, hbc⟩ := ih ((e.effect l).consistent hl) hb
    exact ⟨c, hc, hab.trans hbc⟩

theorem balance_after : (l.after events).allocations.length = l.allocations.length + opened events ∧
      (l.after events).leaks.length + l.closed events = l.leaks.length + opened events := by
  simp only [leaks, ← List.countP_eq_length_filter]
  induction events generalizing l with
  | nil => exact ⟨rfl, rfl⟩
  | cons e events ih =>
    obtain ⟨hlength, hleaks⟩ := (e.effect l).balance
    obtain ⟨hlength', hleaks'⟩ := ih (l := e.apply l)
    have hopened : opened (e :: events) = e.opens.toNat + opened events := by
      cases he : e.opens <;> simp [opened, he, Nat.add_comm]
    rw [hopened, closed]
    simp only [after, List.foldl_cons] at hlength' hleaks' ⊢
    omega

end

end Ledger

/-- What is filed for the leaks of a ledger. -/
theorem Context.findings_reportLeaks (c : Context) (l : Ledger) :
    (c.reportLeaks l).findings = c.findings ++ l.leaks.map fun a =>
      ⟨a.leakCause c.moduleName, a.leakSpan, c.filePath, c.lineText? a.line⟩ := by
  unfold reportLeaks
  generalize l.leaks = leaks
  induction leaks generalizing c with
  | nil => simp
  | cons a leaks ih =>
    rw [List.foldl_cons, ih]
    simp [report, Allocation.leakSpan, lineText?]

namespace Ledger

/-- **Allocations are conserved.** Let a ledger live through some events. Each of its records is
marked as freed exactly if a free of it was counted, and exactly then it says where that was; no
record counts more frees than there were releases. Whatever happens next, the record stays in its
place with its name, its site and its function, and once it is freed it stays so, with the place of
its first free. There is one record for each allocation that was recorded. The leaks are reported as
warnings, one for each record that was never freed, in the order of allocation; together with the
releases that succeeded they are as many as the allocations that were recorded. -/
theorem allocations_are_conserved (past future : List Event) (c : Context) :
    (∀ a ∈ (after {} past).allocations,
      (a.isFreed = true ↔ 1 ≤ a.freeCount) ∧
        (a.isFreed = true ↔ a.freeLine.isSome = true ∧ a.freeColumn.isSome = true) ∧
        a.freeLine.isSome = a.freeColumn.isSome ∧ a.freeCount ≤ past.countP Event.isRelease) ∧
    (∀ (k : Nat) (a : Allocation), (after {} past).allocations[k]? = some a →
      ∃ b, (after {} (past ++ future)).allocations[k]? = some b ∧
        b.name = a.name ∧ b.line = a.line ∧ b.column = a.column ∧ b.function = a.function ∧
        a.freeCount ≤ b.freeCount ∧ (a.isFreed = true →
          b.isFreed = true ∧ b.freeLine = a.freeLine ∧ b.freeColumn = a.freeColumn)) ∧
    (after {} past).allocations.length = opened past ∧
    ∃ reports : List Finding,
      (c.reportLeaks (after {} past)).findings = c.findings ++ reports ∧
      reports = ((after {} past).allocations.filter (!·.isFreed)).map (fun a =>
        ⟨a.leakCause c.moduleName, a.leakSpan, c.filePath, c.lineText? a.line⟩) ∧
      (∀ f ∈ reports, f.severity = .warning ∧ f.tag = .memoryLeak) ∧
      reports.length + closed {} past = opened past := by
  have hconsistent : ∀ a ∈ (after {} past).allocations, a.Consistent :=
    consistent_after past (List.forall_mem_nil _)
  have hbound := @freeCount_le_after {} past 0 (List.forall_mem_nil _)
  obtain ⟨hlength, hleaks⟩ := balance_after (l := {}) past
  refine ⟨fun a ha => ?_, fun k a ha => ?_, ?_, _, c.findings_reportLeaks _, rfl, ?_, ?_⟩
  · obtain ⟨hcount, hline, hcolumn⟩ := hconsistent a ha
    refine ⟨hcount, by simp [hline, hcolumn], hline.trans hcolumn.symm, ?_⟩
    simpa using hbound a ha
  · rw [after_append]
    obtain ⟨b, hb, hcontinues⟩ := continues_after future hconsistent ha
    exact ⟨b, hb, hcontinues.name, hcontinues.line, hcontinues.column, hcontinues.function,
      hcontinues.count, hcontinues.freed⟩
  · simpa using hlength
  · simp [Finding.severity, Finding.tag, Allocation.leakCause, Cause.severity, Cause.tag]
  · simpa [leaks] using hleaks

end Ledger

end Warden

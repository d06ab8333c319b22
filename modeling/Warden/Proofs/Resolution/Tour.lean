import Warden.Proofs.Resolution.Registration

/-!
# The tour of the modules

The third pass visits the modules depth first. All that it does to the state of the check can be
written down as a list of *events*: a module's body is checked, or an import is found to close a
cycle. `Resolver.after` is the state after some events, with some modules on the stack.

The theorems say how each step of a visit leads from one such state to another one:
`exec_visit_of_met` and `exec_visit` for a visit, `exec_followUse_of_mem` and `exec_followUse` for
an import that is followed.
-/

namespace Warden

variable {slot : Nat} {r : Resolver} {use : String × Span} {s : Slot} {name : String}

namespace Resolver

open ResolveM

/-! ### Events -/

/-- What a tour does to the state of the check. -/
inductive Event where
  /-- The body of the module in a slot is checked. -/
  | check (slot : Nat)
  /-- A module uses one that is still being visited. The path leads from there back to it. -/
  | cycle (path : List Nat) (user used : Nat) (span : Span)

/-- The slots whose modules are checked, in order. -/
def checkedIn (events : List Event) : List Nat :=
  events.filterMap fun
    | .check slot => some slot
    | .cycle .. => none

@[simp] theorem checkedIn_append (events new : List Event) :
    checkedIn (events ++ new) = checkedIn events ++ checkedIn new :=
  List.filterMap_append

theorem mem_checkedIn {events : List Event} : slot ∈ checkedIn events ↔ .check slot ∈ events := by
  simp only [checkedIn, List.mem_filterMap]
  constructor
  · rintro ⟨e, he, hslot⟩
    cases e with
    | check i =>
      cases hslot
      exact he
    | cycle => cases hslot
  · exact fun h => ⟨_, h, rfl⟩

/-- What an event does to the state of the check. -/
def perform (r : Resolver) (c : Checker) : Event → Checker
  | .check slot =>
    match r.slots[slot]? with
    | none => c
    | some s => (s.module.check s.scope).exec c
  | .cycle path user used span =>
    match r.slots[user]? with
    | none => c
    | some s =>
      { c with context := c.context.enter s.module }.report
        (.circularDependency (path.map r.nameOf) (r.nameOf user) (r.nameOf used)) span

/-- How far a module has come after some events, with some modules on the stack. -/
def progressAfter (events : List Event) (stack : List Nat) (slot : Nat) : Progress :=
  if slot ∈ checkedIn events then .done else if slot ∈ stack then .inProgress else .unvisited

/-- The state after some events, with some modules on the stack. -/
def after (r : Resolver) (events : List Event) (stack : List Nat) : Resolver where
  checker := events.foldl r.perform r.checker
  slots := r.slots.mapIdx fun i s => { s with progress := progressAfter events stack i }
  stack := stack
  order := (checkedIn events).map r.nameOf

/-! ### Finding modules -/

theorem find?_eq (r : Resolver) (name : String) :
    r.find? name = r.modules.findIdx? (·.name == name) := by
  obtain ⟨checker, ⟨slots⟩, stack, order⟩ := r
  simp only [find?, modules, List.findIdx?_toArray, List.findIdx?_map]
  rfl

theorem nameOf_eq (hs : r.slots[slot]? = some s) : r.nameOf slot = s.module.name := by
  rw [nameOf, hs]
  rfl

theorem exists_find? (h : name ∈ r.names) : ∃ slot, r.find? name = some slot := by
  rw [← Option.isSome_iff_exists, find?_eq, List.findIdx?_isSome]
  simpa [names] using h

theorem nameOf_of_find? (h : r.find? name = some slot) :
    slot < r.slots.size ∧ r.nameOf slot = name := by
  obtain ⟨hlt, hname, -⟩ := Array.findIdx?_eq_some_iff_getElem.mp h
  refine ⟨hlt, ?_⟩
  rw [nameOf_eq (Array.getElem?_eq_getElem hlt)]
  exact eq_of_beq hname

section after

variable (r : Resolver) (events : List Event) (stack : List Nat)

theorem slots_after (slot : Nat) : (r.after events stack).slots[slot]? =
    r.slots[slot]?.map fun s => { s with progress := progressAfter events stack slot } :=
  Array.getElem?_mapIdx

theorem mem_slots_after {r : Resolver} {events : List Event} {stack : List Nat}
    (h : s ∈ (r.after events stack).slots) : ∃ (slot : Nat) (old : Slot),
      r.slots[slot]? = some old ∧
        s = { old with progress := progressAfter events stack slot } := by
  obtain ⟨slot, hslot⟩ := Array.mem_iff_getElem?.mp h
  rw [slots_after] at hslot
  obtain ⟨old, hold, rfl⟩ := Option.map_eq_some_iff.mp hslot
  exact ⟨slot, old, hold, rfl⟩

theorem modules_after : (r.after events stack).modules = r.modules := by
  apply List.ext_getElem?
  intro i
  simp only [modules_getElem?, slots_after, Option.map_map]
  rfl

theorem nameOf_after : (r.after events stack).nameOf = r.nameOf := by
  funext slot
  simp only [nameOf, slots_after, Option.map_map]
  rfl

theorem find?_after (name : String) : (r.after events stack).find? name = r.find? name := by
  rw [find?_eq, find?_eq, modules_after]

end after

/-! ### Going down and coming back -/

section steps

variable (r : Resolver) (events : List Event) (stack : List Nat)

/-- A slot's progress is all that changes when modules are checked or put on the stack. -/
theorem modify_slots_after {progress : Progress} (events' : List Event) (stack' : List Nat)
    (hslot : progressAfter events' stack' slot = progress)
    (hother : ∀ i ≠ slot, progressAfter events' stack' i = progressAfter events stack i) :
    (r.after events stack).slots.modify slot (fun s => { s with progress }) =
      (r.after events' stack').slots := by
  apply Array.ext_getElem?
  intro i
  rw [Array.getElem?_modify, slots_after, slots_after]
  split
  next heq =>
    subst heq
    rw [hslot, Option.map_map]
    rfl
  next hne => rw [hother i (Ne.symm hne)]

/-- The visit of a module begins. -/
theorem after_push (hslot : slot ∉ checkedIn events) : { r.after events stack with
      slots := (r.after events stack).slots.modify slot fun s => { s with progress := .inProgress }
      stack := slot :: (r.after events stack).stack } = r.after events (slot :: stack) := by
  rw [modify_slots_after r events stack events (slot :: stack)]
  · rfl
  · simp [progressAfter, hslot]
  · intro i hi
    simp [progressAfter, hi]

/-- The visit of a module ends with the check of its body. -/
theorem after_pop (hs : r.slots[slot]? = some s) : { r.after events (slot :: stack) with
      checker := (s.module.check s.scope).exec (r.after events (slot :: stack)).checker
      slots := (r.after events (slot :: stack)).slots.modify slot
        fun s => { s with progress := .done }
      stack := stack
      order := (r.after events (slot :: stack)).order ++ [s.module.name] } =
      r.after (events ++ [.check slot]) stack := by
  have hchecked : checkedIn [.check slot] = [slot] := rfl
  rw [modify_slots_after r events (slot :: stack) (events ++ [.check slot]) stack]
  · simp [after, hchecked, perform, nameOf, hs]
  · simp [progressAfter, hchecked]
  · intro i hi
    simp [progressAfter, hchecked, hi]

/-- A cycle is found. -/
theorem after_cycle (path : List Nat) {user : Nat} (hs : r.slots[user]? = some s) (used : Nat)
    (span : Span) : { r.after events stack with
      checker := { (r.after events stack).checker with
        context := (r.after events stack).checker.context.enter s.module }.report
          (.circularDependency (path.map r.nameOf) (r.nameOf user) (r.nameOf used)) span } =
      r.after (events ++ [.cycle path user used span]) stack := by
  have hchecked : checkedIn [.cycle path user used span] = [] := rfl
  have hprogress : progressAfter (events ++ [.cycle path user used span]) stack =
      progressAfter events stack := by
    funext i
    simp [progressAfter, hchecked]
  simp [after, hchecked, hprogress, perform, hs]

end steps

/-! ### Visits -/

section visits

variable {r : Resolver} {events : List Event} {stack : List Nat}

theorem progress_after (hslot : slot < r.slots.size) :
    (r.after events stack).slots[slot]?.map Slot.progress =
      some (progressAfter events stack slot) := by
  rw [slots_after, Array.getElem?_eq_getElem hslot]
  rfl

/-- A module that has been met before is not visited again. -/
theorem exec_visit_of_met (hmet : slot ∈ checkedIn events ++ stack) (fuel : Nat) :
    exec (visit fuel slot) (r.after events stack) = r.after events stack := by
  cases fuel with
  | zero => rfl
  | succ fuel =>
    unfold visit
    rw [exec_get, slots_after]
    cases r.slots[slot]? with
    | none => rfl
    | some s =>
      have hprogress : (progressAfter events stack slot == .unvisited) = false := by
        unfold progressAfter
        grind
      simp [hprogress]

/-- The visit of another module follows its imports and then checks its body. -/
theorem exec_visit (hs : r.slots[slot]? = some s) (hnew : slot ∉ checkedIn events ++ stack)
    {fuel : Nat} {later : List Event}
    (huses : exec (followUses (visit fuel) slot s.uses) (r.after events (slot :: stack)) =
      r.after later (slot :: stack)) : exec (visit (fuel + 1) slot) (r.after events stack) =
      r.after (later ++ [.check slot]) stack := by
  have hchecked : slot ∉ checkedIn events := fun h => hnew (List.mem_append_left _ h)
  have hstack : slot ∉ stack := fun h => hnew (List.mem_append_right _ h)
  have hprogress : progressAfter events stack slot = .unvisited := by
    simp [progressAfter, hchecked, hstack]
  unfold visit
  rw [exec_get, slots_after, hs, Option.map_some]
  dsimp only
  rw [hprogress, if_pos (by rfl)]
  simp only [exec_bind, exec_modifySlot, exec_modify, exec_checking]
  have hpush := after_push r events stack hchecked
  dsimp only at hpush
  rw [hpush, huses]
  exact after_pop r later stack hs

/-- An import of a module that is being visited closes a cycle. -/
theorem exec_followUse_of_mem {user used : Nat} (hs : r.slots[user]? = some s)
    (hfind : r.find? use.1 = some used) (hchecked : used ∉ checkedIn events) (hused : used ∈ stack)
    (go : Nat → ResolveM Unit) : exec (followUse go user use.1 use.2) (r.after events stack) =
      r.after (events ++ [.cycle (cyclePath stack used ++ [used]) user used use.2]) stack := by
  have hprogress : progressAfter events stack used = .inProgress := by
    simp [progressAfter, hchecked, hused]
  unfold followUse
  rw [exec_get, find?_after, hfind]
  dsimp only
  rw [progress_after (nameOf_of_find? hfind).1, hprogress]
  unfold reportCycle
  rw [exec_get, slots_after, hs, nameOf_after]
  exact after_cycle r events stack _ hs used use.2

/-- Any other import leads to a visit. -/
theorem exec_followUse {used : Nat} (hfind : r.find? use.1 = some used) (hused : used ∉ stack)
    (user : Nat) (go : Nat → ResolveM Unit) :
    exec (followUse go user use.1 use.2) (r.after events stack) =
      exec (go used) (r.after events stack) := by
  have hprogress : progressAfter events stack used ≠ .inProgress := by
    unfold progressAfter
    grind
  unfold followUse
  rw [exec_get, find?_after, hfind]
  dsimp only
  rw [progress_after (nameOf_of_find? hfind).1]
  cases h : progressAfter events stack used with
  | inProgress => exact absurd h hprogress
  | unvisited => rfl
  | done => rfl

end visits

end Resolver

end Warden

import Mathlib.Data.List.Chain
import Mathlib.Data.List.Nodup
import Mathlib.Data.List.Perm.Subperm
import Mathlib.Data.List.TakeWhile
import Warden.Proofs.Resolution.Tour

/-!
# The course of the tour

`Course` says which lists of events are the course of a tour, and `Leads` that an action goes on
with one and comes back with the stack as it was.

* A visit leads to the check of the module (`leads_visit`). No more depth is needed than there are
  modules neither checked nor on the stack, and more depth changes nothing.
* A module comes after those that it uses, except where a cycle was found (`Course.ordered`).
* What is found to be a cycle is one (`Course.cycles`): the stack is a path of uses, and the module
  that is met again is on it. It is reported at an import that closes it (`Track.placed`).
-/

namespace Warden

variable {use : String × Span} {events : List Event} {rest : List Nat} {used : Nat}

/-- A path that comes back to where it began, along a relation, and meets nothing else twice. -/
def IsCycle {α : Type} (R : α → α → Prop) (path : List α) : Prop :=
  ∃ x xs, path = x :: xs ++ [x] ∧ (x :: xs).Nodup ∧ path.IsChain R

namespace Resolver

open ResolveM

/-! ### The course of a tour -/

/-- The module in one slot uses the module in another one. -/
def Uses (r : Resolver) (user used : Nat) : Prop :=
  ∃ s, r.slots[user]? = some s ∧ ∃ use ∈ s.uses, r.find? use.1 = some used

/-- The module that is used has been checked, or its use has been found to close a cycle. -/
def Settled (r : Resolver) (events : List Event) (user : Nat) (use : String × Span) : Prop :=
  ∃ used, r.find? use.1 = some used ∧
    (used ∈ checkedIn events ∨ ∃ path, .cycle path user used use.2 ∈ events)

/-- Whatever a checked module uses was settled before it was checked. -/
def Ordered (r : Resolver) (events : List Event) : Prop :=
  ∀ before i later, events = before ++ .check i :: later →
    ∀ s, r.slots[i]? = some s → ∀ use ∈ s.uses, r.Settled before i use

/-- The events are the course of a tour that has come to visit the modules on the stack. -/
structure Course (r : Resolver) (events : List Event) (stack : List Nat) : Prop where
  nodup : (checkedIn events ++ stack).Nodup
  bound : ∀ i ∈ checkedIn events ++ stack, i < r.slots.size
  chain : stack.IsChain fun inner outer => r.Uses outer inner
  ordered : r.Ordered events
  cycles : ∀ path user used span, .cycle path user used span ∈ events → IsCycle r.Uses path
  closing : ∀ path user used span, .cycle path user used span ∈ events → user ∈ path

variable {r : Resolver} {user : Nat}

theorem Settled.mono {new : List Event} (h : r.Settled events user use) :
    r.Settled (events ++ new) user use := by
  obtain ⟨used, hused, hchecked | ⟨path, hpath⟩⟩ := h
  · exact ⟨used, hused, .inl (by simp [hchecked])⟩
  · exact ⟨used, hused, .inr ⟨path, List.mem_append_left _ hpath⟩⟩

/-- Only the last event is new to an order. -/
theorem Ordered.snoc (h : r.Ordered events) {e : Event}
    (hlast : ∀ i, e = .check i → ∀ s, r.slots[i]? = some s → ∀ use ∈ s.uses,
      r.Settled events i use) : r.Ordered (events ++ [e]) := by
  intro before i later heq
  rcases List.eq_nil_or_concat later with rfl | ⟨later, e', rfl⟩
  · obtain ⟨rfl, he⟩ := List.append_inj' heq rfl
    exact hlast i (List.singleton_inj.mp he)
  · rw [List.concat_eq_append, ← List.cons_append, ← List.append_assoc] at heq
    exact h before i later (List.append_inj' heq rfl).1

/-- The modules from the one that is met again up to the innermost one make a cycle. -/
theorem isCycle_cyclePath (hnodup : (user :: rest).Nodup)
    (hchain : (user :: rest).IsChain fun inner outer => r.Uses outer inner)
    (hused : used ∈ user :: rest) (huses : r.Uses user used) :
    IsCycle r.Uses (cyclePath (user :: rest) used ++ [used]) := by
  obtain ⟨before, later, hsplit, hbefore⟩ :=
    List.eq_append_cons_of_mem (List.mem_reverse.mpr hused)
  have hpath : cyclePath (user :: rest) used = used :: later := by
    rw [cyclePath, hsplit, List.dropWhile_append_of_pos, List.dropWhile_cons_of_neg (by simp)]
    intro i hi
    simpa using fun heq : i = used => hbefore (heq ▸ hi)
  have hsuffix : used :: later <:+ (user :: rest).reverse := ⟨before, hsplit.symm⟩
  have hlast : (used :: later).getLast? = some user := by
    have hlast : (user :: rest).reverse.getLast? = some user := by simp
    rwa [hsplit, List.getLast?_append_of_ne_nil _ (by simp)] at hlast
  rw [hpath]
  refine ⟨used, later, rfl, (List.nodup_reverse.mpr hnodup).sublist hsuffix.sublist, ?_⟩
  rw [List.isChain_append]
  refine ⟨(List.isChain_reverse.mpr hchain).suffix hsuffix, .singleton _, ?_⟩
  intro x hx y hy
  rw [hlast] at hx
  cases hx
  cases hy
  exact huses

/-- The innermost module closes the cycle. -/
theorem mem_cyclePath (hused : used ∈ user :: rest) : user ∈ cyclePath (user :: rest) used := by
  rw [cyclePath, List.reverse_cons, List.dropWhile_append]
  split
  next hempty =>
    rw [List.isEmpty_iff, List.dropWhile_eq_nil_iff] at hempty
    have hrest : used ∉ rest := fun hmem => by simpa using hempty used (List.mem_reverse.mpr hmem)
    obtain rfl := (List.mem_cons.mp hused).resolve_right hrest
    simp
  · exact List.mem_append_right _ (.head _)

/-- As `Course`, and every cycle was found at a place where its user has an import. -/
structure Track (r : Resolver) (events : List Event) (stack : List Nat) : Prop
    extends Course r events stack where
  placed : ∀ path user used span, .cycle path user used span ∈ events →
    ∃ s, r.slots[user]? = some s ∧ ∃ target, (target, span) ∈ s.uses ∧ r.find? target = some used

namespace Track

variable {r : Resolver} {events : List Event} {stack : List Nat}

/-- Nothing has happened yet. -/
theorem start (r : Resolver) : Track r [] [] where
  nodup := .nil
  bound := nofun
  chain := .nil
  ordered before i later h := by simp at h
  cycles := nofun
  closing := nofun
  placed := nofun

/-- A module that has not been met before can be visited next. -/
theorem push (h : Track r events stack) {slot : Nat} (hslot : slot < r.slots.size)
    (hnew : slot ∉ checkedIn events ++ stack) (huses : ∀ top ∈ stack.head?, r.Uses top slot) :
    Track r events (slot :: stack) where
  __ := h
  nodup := List.nodup_middle.mpr (List.nodup_cons.mpr ⟨hnew, h.nodup⟩)
  bound i hi := by
    rcases List.mem_append.mp hi with hchecked | hstack
    · exact h.bound i (List.mem_append_left _ hchecked)
    · rcases List.mem_cons.mp hstack with rfl | hrest
      · exact hslot
      · exact h.bound i (List.mem_append_right _ hrest)
  chain := List.isChain_cons.mpr ⟨huses, h.chain⟩

/-- An import of a module on the stack closes a cycle. -/
theorem cycle {user : Nat} {s : Slot} (h : Track r events (user :: stack))
    (hused : used ∈ user :: stack) (hs : r.slots[user]? = some s) (huse : use ∈ s.uses)
    (hfind : r.find? use.1 = some used) :
    Track r (events ++ [.cycle (cyclePath (user :: stack) used ++ [used]) user used use.2])
      (user :: stack) where
  nodup := by simpa [checkedIn] using h.nodup
  bound := by simpa [checkedIn] using h.bound
  chain := h.chain
  ordered := h.ordered.snoc nofun
  cycles path _ _ _ hmem := by
    rcases List.mem_append.mp hmem with hold | hnew
    · exact h.cycles path _ _ _ hold
    · cases List.mem_singleton.mp hnew
      exact isCycle_cyclePath (List.nodup_append.mp h.nodup).2.1 h.chain hused
        ⟨s, hs, use, huse, hfind⟩
  closing path _ _ _ hmem := by
    rcases List.mem_append.mp hmem with hold | hnew
    · exact h.closing path _ _ _ hold
    · cases List.mem_singleton.mp hnew
      exact List.mem_append_left _ (mem_cyclePath hused)
  placed path _ _ _ hmem := by
    rcases List.mem_append.mp hmem with hold | hnew
    · exact h.placed path _ _ _ hold
    · cases List.mem_singleton.mp hnew
      exact ⟨s, hs, use.1, huse, hfind⟩

/-- A module whose uses are settled is checked. -/
theorem pop {slot : Nat} (h : Track r events (slot :: stack))
    (hsettled : ∀ s, r.slots[slot]? = some s → ∀ use ∈ s.uses, r.Settled events slot use) :
    Track r (events ++ [.check slot]) stack where
  nodup := by simpa [checkedIn] using h.nodup
  bound := by simpa [checkedIn] using h.bound
  chain := h.chain.tail
  ordered := h.ordered.snoc fun i hi => by
    cases hi
    exact hsettled
  cycles path _ _ _ hmem := h.cycles path _ _ _ (by simpa using hmem)
  closing path _ _ _ hmem := h.closing path _ _ _ (by simpa using hmem)
  placed path _ _ _ hmem := h.placed path _ _ _ (by simpa using hmem)

/-- There are no more modules to be met than there are slots. -/
theorem length_le (h : Track r events stack) :
    (checkedIn events).length + stack.length ≤ r.slots.size := by
  have hsubset : checkedIn events ++ stack ⊆ List.range r.slots.size :=
    fun i hi => List.mem_range.mpr (h.bound i hi)
  simpa using (List.subperm_of_subset h.nodup hsubset).length_le

end Track

/-! ### Actions that go on with a tour -/

/-- With a depth of `depth` or more, an action goes on with a course, comes back with the stack as
it was, and reaches a goal. -/
def Leads (r : Resolver) (depth : Nat) (action : Nat → ResolveM Unit) (events : List Event)
    (stack : List Nat) (goal : List Event → Prop) : Prop :=
  ∃ new,
    (∀ fuel ≥ depth, exec (action fuel) (r.after events stack) = r.after (events ++ new) stack) ∧
    Track r (events ++ new) stack ∧ goal (events ++ new)

namespace Leads

variable {r : Resolver} {depth : Nat} {a : Nat → ResolveM Unit} {events : List Event}
  {stack : List Nat} {P : List Event → Prop}

theorem stay (hcourse : Track r events stack)
    (hexec : ∀ fuel, exec (a fuel) (r.after events stack) = r.after events stack) (hP : P events) :
    Leads r depth a events stack P :=
  ⟨[], by simpa using fun fuel _ => hexec fuel, by simpa using hcourse, by simpa using hP⟩

/-- A list of actions, each with a goal that is not lost again. -/
theorem all {α : Type} {one : Nat → α → ResolveM Unit} {run : Nat → List α → ResolveM Unit}
    {goal : α → List Event → Prop} (hnil : ∀ fuel, run fuel [] = pure ())
    (hcons : ∀ fuel x xs, run fuel (x :: xs) = do one fuel x; run fuel xs)
    (hmono : ∀ {x events new}, goal x events → goal x (events ++ new)) (xs : List α) :
    ∀ {events}, Track r events stack →
      (∀ x ∈ xs, ∀ new, Track r (events ++ new) stack →
        Leads r depth (one · x) (events ++ new) stack (goal x)) →
      Leads r depth (run · xs) events stack fun events => ∀ x ∈ xs, goal x events := by
  induction xs with
  | nil =>
    intro events hcourse _
    exact stay hcourse (fun fuel => by rw [hnil, exec_pure]) (List.forall_mem_nil _)
  | cons x xs ih =>
    intro events hcourse hone
    obtain ⟨new, hexec, hcourse, hx⟩ : Leads r depth (one · x) events stack (goal x) := by
      simpa using hone x (List.mem_cons_self ..) [] (by simpa using hcourse)
    obtain ⟨more, hexec', hcourse', hxs⟩ := ih hcourse fun y hy later hlater => by
      rw [List.append_assoc] at hlater ⊢
      exact hone y (List.mem_cons_of_mem _ hy) (new ++ later) hlater
    refine ⟨new ++ more, fun fuel hfuel => ?_, ?_, ?_⟩
    · dsimp only at hexec hexec' ⊢
      rw [hcons, exec_bind, hexec fuel hfuel, hexec' fuel hfuel, List.append_assoc]
    · rwa [← List.append_assoc]
    · rw [← List.append_assoc]
      exact List.forall_mem_cons.mpr ⟨hmono hx, hxs⟩

end Leads

/-! ### Visits -/

/-- At some depth, a visit leads to the check of the module, whenever there is depth enough for the
modules that have not been met. -/
def VisitsWithin (r : Resolver) (depth : Nat) : Prop :=
  ∀ events stack slot, Track r events stack → slot < r.slots.size → slot ∉ stack →
    (∀ top ∈ stack.head?, r.Uses top slot) →
    r.slots.size < depth + (checkedIn events).length + stack.length →
    Leads r depth (visit · slot) events stack (slot ∈ checkedIn ·)

section visits

variable {r : Resolver} {depth : Nat} {events : List Event} {user : Nat} {stack : List Nat}
  {s : Slot}

/-- Following an import settles it. -/
theorem leads_followUse (hvisit : VisitsWithin r depth) (h : Track r events (user :: stack))
    (hs : r.slots[user]? = some s) (huse : use ∈ s.uses) (hname : use.1 ∈ r.names)
    (hdepth : r.slots.size < depth + (checkedIn events).length + (user :: stack).length) :
    Leads r depth (fun fuel => followUse (visit fuel) user use.1 use.2) events (user :: stack)
      (r.Settled · user use) := by
  obtain ⟨used, hfind⟩ := exists_find? hname
  by_cases hused : used ∈ user :: stack
  · -- what is on the stack is not checked yet, and is in progress
    have hchecked : used ∉ checkedIn events :=
      fun hmem => (List.nodup_append.mp h.nodup).2.2 used hmem used hused rfl
    exact ⟨_, fun fuel _ => exec_followUse_of_mem hs hfind hchecked hused _,
      h.cycle hused hs huse hfind, used, hfind, .inr ⟨_, List.mem_append_right _ (.head _)⟩⟩
  · have hhead : ∀ top ∈ (user :: stack).head?, r.Uses top used := by
      intro top htop
      cases htop
      exact ⟨s, hs, use, huse, hfind⟩
    obtain ⟨new, hexec, hcourse, hdone⟩ :=
      hvisit events (user :: stack) used h (nameOf_of_find? hfind).1 hused hhead hdepth
    refine ⟨new, fun fuel hfuel => ?_, hcourse, used, hfind, .inl hdone⟩
    rw [exec_followUse hfind hused, hexec fuel hfuel]

/-- Following the imports of a module settles them all. -/
theorem leads_followUses (hr : Prepared r) (hvisit : VisitsWithin r depth)
    (h : Track r events (user :: stack)) (hs : r.slots[user]? = some s)
    (hdepth : r.slots.size < depth + (checkedIn events).length + (user :: stack).length) :
    Leads r depth (fun fuel => followUses (visit fuel) user s.uses) events (user :: stack)
      fun events => ∀ use ∈ s.uses, r.Settled events user use := by
  refine Leads.all (fun _ => rfl) (fun _ _ _ => rfl) Settled.mono s.uses h ?_
  intro use huse new hnew
  have hname := hr.uses s (Array.mem_of_getElem? hs) use huse
  refine leads_followUse hvisit hnew hs huse hname ?_
  rw [checkedIn_append, List.length_append]
  omega

/-- A visit leads to the check of the module. -/
theorem leads_visit (hr : Prepared r) (depth : Nat) : VisitsWithin r depth := by
  induction depth with
  | zero =>
    -- the modules met are different ones, so that they cannot be more than there are slots
    intro events stack slot h _ _ _ hdepth
    have hlength := h.length_le
    omega
  | succ depth ih =>
    intro events stack slot h hslot hstack huses hdepth
    by_cases hchecked : slot ∈ checkedIn events
    · exact .stay h (exec_visit_of_met (List.mem_append_left _ hchecked)) hchecked
    -- the module goes on the stack, which makes up for the depth that is lost on the way down
    have hnew : slot ∉ checkedIn events ++ stack := by simp [hchecked, hstack]
    have hs := Array.getElem?_eq_getElem hslot
    obtain ⟨new, hexec, hcourse, hsettled⟩ :=
      leads_followUses hr ih (h.push hslot hnew huses) hs (by rw [List.length_cons]; omega)
    refine ⟨new ++ [.check slot], fun fuel hfuel => ?_, ?_, ?_⟩
    · cases fuel with
      | zero => omega
      | succ fuel => rw [exec_visit hs hnew (hexec fuel (by omega)), List.append_assoc]
    · rw [← List.append_assoc]
      refine hcourse.pop fun t ht => ?_
      rw [hs, Option.some.injEq] at ht
      exact ht ▸ hsettled
    · simp [checkedIn]

end visits

/-- Before the tour nothing has happened. -/
theorem after_nil (hr : Prepared r) : r.after [] [] = r := by
  obtain ⟨checker, slots, stack, order⟩ := r
  obtain rfl : stack = [] := hr.stack
  obtain rfl : order = [] := hr.order
  have hslots : (slots.mapIdx fun _ s => { s with progress := .unvisited }) = slots := by
    apply Array.ext_getElem?
    intro i
    rw [Array.getElem?_mapIdx]
    cases hs : slots[i]? with
    | none => rfl
    | some s =>
      have hprogress : s.progress = .unvisited := hr.unvisited s (Array.mem_of_getElem? hs)
      rw [Option.map_some, ← hprogress]
  exact congrArg (Resolver.mk checker · [] []) hslots

/-- The whole tour checks every module, with any depth greater than the number of modules. -/
theorem exists_course (hr : Prepared r) : ∃ events,
    (∀ fuel > r.slots.size,
      exec (forEach (visit fuel) (List.range r.slots.size)) r = r.after events []) ∧
    Track r events [] ∧ ∀ slot < r.slots.size, slot ∈ checkedIn events := by
  have hvisit : ∀ slot ∈ List.range r.slots.size, ∀ new, Track r ([] ++ new) [] →
      Leads r (r.slots.size + 1) (visit · slot) ([] ++ new) [] (slot ∈ checkedIn ·) := by
    intro slot hslot new hnew
    exact leads_visit hr _ _ [] slot hnew (List.mem_range.mp hslot) List.not_mem_nil nofun
      (by omega)
  have htour : Leads r (r.slots.size + 1)
      (fun fuel => forEach (visit fuel) (List.range r.slots.size)) [] []
      fun events => ∀ slot ∈ List.range r.slots.size, slot ∈ checkedIn events :=
    Leads.all (fun _ => rfl) (fun _ _ _ => rfl) (fun h => by simp [h]) _ (.start r) hvisit
  obtain ⟨events, hexec, hcourse, hchecked⟩ := htour
  rw [after_nil hr] at hexec
  exact ⟨events, hexec, hcourse, fun slot hslot => hchecked slot (List.mem_range.mpr hslot)⟩

end Resolver

end Warden

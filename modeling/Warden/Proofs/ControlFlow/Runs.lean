import Warden.Check.ControlFlow

/-!
# How statements run

What a statement can do, as far as the flow of control goes: conditions are not evaluated, so that
every branch may be taken. `Runs` says which outcomes are possible. A `break` ends the innermost
loop in whose body it stands; the header of a loop is outside of its body, so a `break` there ends
the loop around. What a `defer` holds back runs when its scope is left, in any order, and a jump out
of it takes the place of the outcome that the scope would have had.

A run ends in a jump only where the jump is written: `Runs.accounts`. A `break` that is written
somewhere is seen by `Stmt.containsBreak`, unless it stands in a header:
`Stmt.Jumps.containsBreak_or`. With both, statements that always return never come to their end
(`Runs.ne_normal`), as long as no loop without condition is broken from the header of a loop
inside.
-/

namespace Warden

variable {cases : List SwitchCase}

/-! ### Outcomes -/

/-- How a run ends. -/
inductive Outcome where
  /-- At the end of the code. -/
  | normal
  | returned
  /-- By a `break` for the loop around. -/
  | broke
  /-- By a `continue` for the loop around. -/
  | continued
  deriving DecidableEq, Repr, Inhabited

namespace Outcome

variable {deferred pending : Outcome}

/-- The outcome of a loop, if its body ends like this; none if the loop goes on. -/
def ofBody : Outcome → Option Outcome
  | .normal | .continued => none
  | .broke => some .normal
  | .returned => some .returned

/-- The outcome after a deferred statement: that of the statement if it jumps, else the pending
one. -/
def orPending (deferred pending : Outcome) : Outcome :=
  if deferred = .normal then pending else deferred

theorem orPending_ne_normal (h : pending ≠ .normal) : deferred.orPending pending ≠ .normal := by
  unfold orPending
  split
  · exact h
  · assumption

theorem orPending_eq {o : Outcome} (h : deferred.orPending pending = o) :
    pending = o ∨ deferred = o := by
  unfold orPending at h
  split at h
  · exact .inl h
  · exact .inr h

end Outcome

/-! ### Statements by their parts -/

namespace Stmt

/-- The blocks of which the statement runs at most one. -/
def choices : Stmt → List Block
  | ⟨_, .block block⟩ => [block]
  | ⟨_, .conditional branches otherwise⟩ => branches.map (·.2) ++ otherwise.toList
  | ⟨_, .switch _ cases otherwise⟩ => cases.map (·.body) ++ otherwise.toList
  | _ => []

/-- Whether the statement can be passed without running one of its blocks. -/
def canPass : Stmt → Bool
  | ⟨_, .var _⟩ | ⟨_, .fn _⟩ | ⟨_, .struct _⟩ | ⟨_, .enum _⟩ | ⟨_, .importModule ..⟩
  | ⟨_, .expr _⟩ => true
  | ⟨_, .conditional _ none⟩ | ⟨_, .switch _ _ none⟩ => true
  | _ => false

/-- The outcome of a statement that jumps within its function. -/
def jump? : Stmt → Option Outcome
  | ⟨_, .breakLoop⟩ => some .broke
  | ⟨_, .continueLoop⟩ => some .continued
  | _ => none

end Stmt

/-- The statement `t` stands in `s`, with the same loops around it: in a block, a `defer` or the
header of a loop, but not in the body of a loop. -/
inductive Stmt.Holds (t : Stmt) : Stmt → Prop where
  | refl : Holds t t
  | inBlock {s b x} : b ∈ s.choices → x ∈ b.stmts → Holds t x → Holds t s
  | inDefer {span s} : Holds t s → Holds t ⟨span, .defer s⟩
  | inHeader {span init cond step body} : Holds t init →
      Holds t ⟨span, .loop (some init) cond step body⟩

/-- A jump in the statement would end the loop around it with that outcome. -/
def Stmt.Jumps (o : Outcome) (s : Stmt) : Prop :=
  ∃ t : Stmt, t.Holds s ∧ t.jump? = some o

/-! ### Runs -/

/-- What is to be run. -/
inductive Code where
  | stmt (s : Stmt)
  | stmts (ss : List Stmt)
  /-- Statements in a scope of their own. -/
  | block (b : Block)
  /-- The rounds of a loop; without condition if there is none. -/
  | rounds (cond : Option Expr) (body : Block)
  /-- A scope is left with a pending outcome, and statements wait for that. -/
  | leave (waiting : List Stmt) (pending : Outcome)

/-- The code can run to the outcome and leave statements that wait for the end of the scope. -/
inductive Runs : Code → Outcome → List Stmt → Prop where
  | pass {s} : s.canPass = true → Runs (.stmt s) .normal []
  | choose {s b o} : b ∈ s.choices → Runs (.block b) o [] → Runs (.stmt s) o []
  | ret {span value} : Runs (.stmt ⟨span, .ret value⟩) .returned []
  | jump {s o} : s.jump? = some o → Runs (.stmt s) o []
  | defer {span s} : Runs (.stmt ⟨span, .defer s⟩) .normal [s]
  /-- The header of a loop jumps. -/
  | header {span init cond step body p waiting o} : Runs (.stmts init.toList) p waiting →
      p ≠ .normal → Runs (.leave waiting p) o [] →
      Runs (.stmt ⟨span, .loop init cond step body⟩) o []
  | loop {span init cond step body p waiting o} : Runs (.stmts init.toList) .normal waiting →
      Runs (.rounds cond body) p [] → Runs (.leave waiting p) o [] →
      Runs (.stmt ⟨span, .loop init cond step body⟩) o []
  | stop {cond body} : Runs (.rounds (some cond) body) .normal []
  | again {cond body p o} : Runs (.block body) p [] → p.ofBody = none →
      Runs (.rounds cond body) o [] → Runs (.rounds cond body) o []
  | exit {cond body p o} : Runs (.block body) p [] → p.ofBody = some o →
      Runs (.rounds cond body) o []
  | nil : Runs (.stmts []) .normal []
  | cut {s ss o waiting} : Runs (.stmt s) o waiting → o ≠ .normal →
      Runs (.stmts (s :: ss)) o waiting
  | next {s ss o waiting more} : Runs (.stmt s) .normal waiting → Runs (.stmts ss) o more →
      Runs (.stmts (s :: ss)) o (waiting ++ more)
  | block {b p waiting o} : Runs (.stmts b.stmts) p waiting → Runs (.leave waiting p) o [] →
      Runs (.block b) o []
  | left {p} : Runs (.leave [] p) p []
  | deferred {before s after p q more o} : Runs (.stmt s) q more →
      Runs (.leave (before ++ more ++ after) (q.orPending p)) o [] →
      Runs (.leave (before ++ s :: after) p) o []

/-- A block can run to the outcome. -/
def Block.Runs (b : Block) (o : Outcome) : Prop :=
  Warden.Runs (.block b) o []

/-! ### Where jumps come from -/

namespace Code

/-- A jump in the code would end the loop around it with that outcome. -/
def Jumps (o : Outcome) : Code → Prop
  | .stmt s => s.Jumps o
  | .stmts ss => ∃ s ∈ ss, s.Jumps o
  | .block b => ∃ s ∈ b.stmts, s.Jumps o
  | .rounds _ _ => False
  | .leave waiting pending => pending = o ∨ ∃ s ∈ waiting, s.Jumps o

end Code

theorem Code.Jumps.inHeader {init : Option Stmt} {o : Outcome}
    (h : (Code.stmts init.toList).Jumps o) (span : Span) (cond step : Option Expr) (body : Block) :
    Stmt.Jumps o ⟨span, .loop init cond step body⟩ := by
  obtain ⟨i, hi, t, ht, hjump⟩ := h
  cases Option.mem_toList.mp hi
  exact ⟨t, .inHeader ht, hjump⟩

variable {ss : List Stmt} {o : Outcome} {s : Stmt} {b : Block}

theorem Code.Jumps.cons (h : (Code.stmts ss).Jumps o) (s : Stmt) :
    (Code.stmts (s :: ss)).Jumps o := by
  obtain ⟨x, hx, hjumps⟩ := h
  exact ⟨x, List.mem_cons_of_mem s hx, hjumps⟩

/-- The outcome is that of a `break` or a `continue`. -/
def Outcome.IsJump (o : Outcome) : Prop :=
  o = .broke ∨ o = .continued

/-- The code has the jump that the outcome stands for, and the jumps of what it leaves waiting. -/
structure Code.Accounts (code : Code) (o : Outcome) (waiting : List Stmt) : Prop where
  jump : o.IsJump → code.Jumps o
  waiting : ∀ s ∈ waiting, ∀ o', s.Jumps o' → code.Jumps o'

namespace Code.Accounts

variable {code : Code} {o p : Outcome} {waiting : List Stmt}

/-- Code that does not jump, and leaves nothing waiting. -/
theorem ofNot (h : ¬o.IsJump) : code.Accounts o [] :=
  ⟨fun ho => absurd ho h, by simp⟩

/-- A scope is left with a jump that was pending or that was left waiting. -/
theorem leave (h : code.Accounts p waiting) (hleave : (Code.leave waiting p).Accounts o []) :
    o.IsJump → code.Jumps o := by
  intro ho
  rcases hleave.jump ho with rfl | ⟨s, hs, hjumps⟩
  · exact h.jump ho
  · exact h.waiting s hs o hjumps

end Code.Accounts

theorem Outcome.not_isJump_of_ofBody {p : Outcome} (h : p.ofBody = some o) : ¬o.IsJump := by
  cases p <;> cases h <;> simp [IsJump]

/-- A run that ends in a jump comes to one in the code. -/
theorem Runs.accounts {code : Code} {waiting : List Stmt}
    (h : Runs code o waiting) : code.Accounts o waiting := by
  induction h with
  | pass => exact .ofNot (by simp [Outcome.IsJump])
  | choose hb _ ih =>
    refine ⟨fun ho => ?_, by simp⟩
    obtain ⟨x, hx, t, ht, hjump⟩ := ih.jump ho
    exact ⟨t, .inBlock hb hx ht, hjump⟩
  | ret => exact .ofNot (by simp [Outcome.IsJump])
  | @jump s _ hs => exact ⟨fun _ => ⟨s, .refl, hs⟩, by simp⟩
  | @defer span s =>
    refine ⟨by simp [Outcome.IsJump], fun x hx o' hjumps => ?_⟩
    rw [List.mem_singleton.mp hx] at hjumps
    obtain ⟨t, ht, hjump⟩ := hjumps
    exact ⟨t, .inDefer ht, hjump⟩
  | header _ _ _ ihinit ihleave =>
    exact ⟨fun ho => (ihinit.leave ihleave ho).inHeader _ _ _ _, by simp⟩
  | @loop span init cond step body p waiting o _ _ _ ihinit ihrounds ihleave =>
    -- the rounds end in no jump, so only what the header has left waiting can
    have hinit : (Code.stmts init.toList).Accounts p waiting :=
      ⟨fun hp => (ihrounds.jump hp).elim, ihinit.waiting⟩
    exact ⟨fun ho => (hinit.leave ihleave ho).inHeader _ _ _ _, by simp⟩
  | stop => exact .ofNot (by simp [Outcome.IsJump])
  | again _ _ _ _ ih => exact ih
  | exit _ hbody _ => exact .ofNot (Outcome.not_isJump_of_ofBody hbody)
  | nil => exact .ofNot (by simp [Outcome.IsJump])
  | cut _ _ ih =>
    refine ⟨fun ho => ⟨_, List.mem_cons_self, ih.jump ho⟩, fun x hx o' hjumps => ?_⟩
    exact ⟨_, List.mem_cons_self, ih.waiting x hx o' hjumps⟩
  | next _ _ ih ihrest =>
    refine ⟨fun ho => (ihrest.jump ho).cons _, fun x hx o' hjumps => ?_⟩
    rcases List.mem_append.mp hx with hx | hx
    · exact ⟨_, List.mem_cons_self, ih.waiting x hx o' hjumps⟩
    · exact (ihrest.waiting x hx o' hjumps).cons _
  | block _ _ ih ihleave => exact ⟨fun ho => ih.leave ihleave ho, by simp⟩
  | left => exact ⟨fun _ => .inl rfl, by simp⟩
  | @deferred before s after p q more o _ _ ih ihleave =>
    refine ⟨fun ho => ?_, by simp⟩
    rcases ihleave.jump ho with hpending | ⟨x, hx, hjumps⟩
    · rcases Outcome.orPending_eq hpending with rfl | rfl
      · exact .inl rfl
      · exact .inr ⟨s, by simp, ih.jump ho⟩
    · rw [List.append_assoc, List.mem_append, List.mem_append] at hx
      rcases hx with hx | hx | hx
      · exact .inr ⟨x, by simp [hx], hjumps⟩
      · exact .inr ⟨s, by simp, ih.waiting x hx o hjumps⟩
      · exact .inr ⟨x, by simp [hx], hjumps⟩

/-! ### Breaks that are seen -/

theorem containBreak_of_mem (hs : s ∈ ss)
    (h : s.containsBreak = true) : containBreak ss = true := by
  induction ss with
  | nil => cases hs
  | cons x ss ih =>
    rw [containBreak, Bool.or_eq_true]
    rcases List.mem_cons.mp hs with rfl | hs
    · exact .inl h
    · exact .inr (ih hs)

theorem Block.containsBreak_of_mem (hs : s ∈ b.stmts)
    (h : s.containsBreak = true) : b.containsBreak = true := by
  obtain ⟨span, stmts⟩ := b
  rw [containsBreak]
  exact containBreak_of_mem hs h

theorem branchesContainBreak_of_mem {branches : List (Expr × Block)}
    (hb : b ∈ branches.map (·.2)) (h : b.containsBreak = true) :
    branchesContainBreak branches = true := by
  induction branches with
  | nil => cases hb
  | cons branch branches ih =>
    rw [branchesContainBreak, Bool.or_eq_true]
    rcases List.mem_cons.mp hb with rfl | hb
    · exact .inl h
    · exact .inr (ih hb)

theorem casesContainBreak_of_mem (hb : b ∈ cases.map (·.body)) (h : b.containsBreak = true) :
    casesContainBreak cases = true := by
  induction cases with
  | nil => cases hb
  | cons case cases ih =>
    obtain ⟨span, values, body⟩ := case
    rw [casesContainBreak, Bool.or_eq_true]
    rcases List.mem_cons.mp hb with rfl | hb
    · exact .inl h
    · exact .inr (ih hb)

theorem Stmt.containsBreak_of_choice (hb : b ∈ s.choices)
    (h : b.containsBreak = true) : s.containsBreak = true := by
  obtain ⟨span, kind⟩ := s
  cases kind with
  | block block =>
    rw [List.mem_singleton.mp hb] at h
    rwa [containsBreak]
  | conditional branches otherwise =>
    rcases List.mem_append.mp hb with hb | hb
    · have hbranches := branchesContainBreak_of_mem hb h
      cases otherwise <;> simp [containsBreak, hbranches]
    · cases Option.mem_toList.mp hb
      simp [containsBreak, h]
  | switch scrutinee cases otherwise =>
    rcases List.mem_append.mp hb with hb | hb
    · have hcases := casesContainBreak_of_mem hb h
      cases otherwise <;> simp [containsBreak, hcases]
    · cases Option.mem_toList.mp hb
      simp [containsBreak, h]
  | _ => cases hb

/-- The loop around the statement can be broken from the header of a loop in it. -/
def Stmt.BreaksInHeader (s : Stmt) : Prop :=
  ∃ span init cond step body,
    Stmt.Holds ⟨span, .loop (some init) cond step body⟩ s ∧ init.Jumps .broke

/-- A `break` is seen, unless it stands in a header. -/
theorem Stmt.Jumps.containsBreak_or (h : s.Jumps .broke) :
    s.containsBreak = true ∨ s.BreaksInHeader := by
  obtain ⟨t, ht, hjump⟩ := h
  induction ht with
  | refl =>
    obtain ⟨span, kind⟩ := t
    cases kind with
    | breakLoop => exact .inl (by rw [containsBreak])
    | _ => cases hjump
  | inBlock hb hx _ ih =>
    rcases ih with hbreak | ⟨span, init, cond, step, body, hloop, hinit⟩
    · exact .inl (containsBreak_of_choice hb (Block.containsBreak_of_mem hx hbreak))
    · exact .inr ⟨span, init, cond, step, body, .inBlock hb hx hloop, hinit⟩
  | inDefer _ ih =>
    rcases ih with hbreak | ⟨span, init, cond, step, body, hloop, hinit⟩
    · exact .inl (by rwa [containsBreak])
    · exact .inr ⟨span, init, cond, step, body, .inDefer hloop, hinit⟩
  | @inHeader span init cond step body hheld _ =>
    exact .inr ⟨span, init, cond, step, body, .refl, t, hheld, hjump⟩

/-! ### Code that does not come to its end -/

theorem alwaysReturn_iff : alwaysReturn ss = true ↔ ∃ s ∈ ss, s.alwaysReturns = true := by
  induction ss with
  | nil => simp [alwaysReturn]
  | cons s ss ih => simp [alwaysReturn, ih]

theorem Block.alwaysReturns_iff :
    b.alwaysReturns = true ↔ ∃ s ∈ b.stmts, s.alwaysReturns = true := by
  obtain ⟨span, stmts⟩ := b
  rw [alwaysReturns, alwaysReturn_iff]

theorem branchesAlwaysReturn_iff {branches : List (Expr × Block)} :
    branchesAlwaysReturn branches = true ↔
      ∀ b ∈ branches.map (·.2), b.alwaysReturns = true := by
  induction branches with
  | nil => simp [branchesAlwaysReturn]
  | cons branch branches ih =>
    rw [branchesAlwaysReturn, Bool.and_eq_true, ih, List.map_cons, List.forall_mem_cons]

theorem casesAlwaysReturn_iff :
    casesAlwaysReturn cases = true ↔ ∀ b ∈ cases.map (·.body), b.alwaysReturns = true := by
  induction cases with
  | nil => simp [casesAlwaysReturn]
  | cons case cases ih =>
    obtain ⟨span, values, body⟩ := case
    rw [casesAlwaysReturn, Bool.and_eq_true, ih, List.map_cons, List.forall_mem_cons]

/-- A statement that always returns cannot be passed, and all its blocks always return. -/
theorem Stmt.choices_of_alwaysReturns (h : s.alwaysReturns = true) :
    s.canPass = false ∧ ∀ b ∈ s.choices, b.alwaysReturns = true := by
  obtain ⟨span, kind⟩ := s
  cases kind with
  | block block => exact ⟨rfl, by simpa [choices, alwaysReturns] using h⟩
  | conditional branches otherwise =>
    cases otherwise with
    | none => simp [alwaysReturns] at h
    | some block =>
      rw [alwaysReturns, Bool.and_eq_true, branchesAlwaysReturn_iff] at h
      refine ⟨rfl, List.forall_mem_append.mpr ⟨h.1, fun b hb => ?_⟩⟩
      cases Option.mem_toList.mp hb
      exact h.2
  | switch scrutinee cases otherwise =>
    cases otherwise with
    | none => simp [alwaysReturns] at h
    | some block =>
      rw [alwaysReturns, Bool.and_eq_true, casesAlwaysReturn_iff] at h
      refine ⟨rfl, List.forall_mem_append.mpr ⟨h.1, fun b hb => ?_⟩⟩
      cases Option.mem_toList.mp hb
      exact h.2
  | ret value => exact ⟨rfl, by simp [choices]⟩
  | loop init cond step body => exact ⟨rfl, by simp [choices]⟩
  | _ => simp [alwaysReturns] at h

/-- No loop without condition is broken from the header of a loop in its body. Loops in the bodies
of other loops are left out. -/
def Stmt.LoopsClosed (s : Stmt) : Prop :=
  ∀ {span init step body}, Stmt.Holds ⟨span, .loop init none step body⟩ s →
    ∀ x ∈ body.stmts, ¬x.BreaksInHeader

/-- The code is never run to its end, by its form. -/
def Code.Returns : Code → Prop
  | .stmt s => s.alwaysReturns = true ∧ s.LoopsClosed
  | .stmts ss => ∃ s ∈ ss, s.alwaysReturns = true ∧ s.LoopsClosed
  | .block b => ∃ s ∈ b.stmts, s.alwaysReturns = true ∧ s.LoopsClosed
  | .rounds cond body => cond = none ∧ ∀ s ∈ body.stmts, ¬s.Jumps .broke
  | .leave _ pending => pending ≠ .normal

theorem Stmt.returns_of_choice (h : (Code.stmt s).Returns)
    (hb : b ∈ s.choices) : (Code.block b).Returns := by
  obtain ⟨hreturns, hclosed⟩ := h
  have hblock := (choices_of_alwaysReturns hreturns).2 b hb
  obtain ⟨x, hx, hxreturns⟩ := Block.alwaysReturns_iff.mp hblock
  exact ⟨x, hx, hxreturns, fun hloop => hclosed (.inBlock hb hx hloop)⟩

/-- A loop that always returns has no condition, and no jump in its body ends it. -/
theorem Stmt.returns_rounds {span : Span} {init : Option Stmt} {cond step : Option Expr}
    {body : Block} (h : (Code.stmt ⟨span, .loop init cond step body⟩).Returns) :
    (Code.rounds cond body).Returns := by
  obtain ⟨hreturns, hclosed⟩ := h
  cases cond with
  | some cond => simp [alwaysReturns] at hreturns
  | none =>
    refine ⟨rfl, fun x hx hjumps => ?_⟩
    rcases hjumps.containsBreak_or with hbreak | hheader
    · have hbody := Block.containsBreak_of_mem hx hbreak
      simp [alwaysReturns, hbody] at hreturns
    · exact hclosed .refl x hx hheader

/-- Code that always returns is never run to its end. -/
theorem Runs.ne_normal {code : Code} {waiting : List Stmt}
    (h : Runs code o waiting) : code.Returns → o ≠ .normal := by
  induction h with
  | pass hpass =>
    intro hreturns
    rw [(Stmt.choices_of_alwaysReturns hreturns.1).1] at hpass
    cases hpass
  | choose hb _ ih => exact fun hreturns => ih (Stmt.returns_of_choice hreturns hb)
  | ret => simp
  | @jump s _ hs =>
    intro _ ho
    subst ho
    obtain ⟨span, kind⟩ := s
    cases kind <;> cases hs
  | defer =>
    intro hreturns
    simp [Code.Returns, Stmt.alwaysReturns] at hreturns
  | header _ hp _ _ ihleave => exact fun _ => ihleave hp
  | loop _ _ _ _ ihrounds ihleave =>
    exact fun hreturns => ihleave (ihrounds (Stmt.returns_rounds hreturns))
  | stop =>
    intro hreturns
    cases hreturns.1
  | again _ _ _ _ ih => exact ih
  | @exit cond body p o hrun hbody _ =>
    -- the body has not ended in a `break`, since there is none
    intro hreturns ho
    subst ho
    cases p with
    | broke =>
      obtain ⟨x, hx, hjumps⟩ := hrun.accounts.jump (.inl rfl)
      exact hreturns.2 x hx hjumps
    | _ => cases hbody
  | nil =>
    rintro ⟨s, hs, -⟩
    cases hs
  | cut _ hne _ => exact fun _ => hne
  | next _ _ ih ihrest =>
    rintro ⟨x, hx, hreturns⟩
    rcases List.mem_cons.mp hx with rfl | hx
    · exact absurd rfl (ih hreturns)
    · exact ihrest ⟨x, hx, hreturns⟩
  | block _ _ ih ihleave => exact fun hreturns => ihleave (ih hreturns)
  | left => exact id
  | deferred _ _ _ ihleave => exact fun hp => ihleave (Outcome.orPending_ne_normal hp)

end Warden

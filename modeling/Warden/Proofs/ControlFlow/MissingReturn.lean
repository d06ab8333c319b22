import Warden.Proofs.Bodies
import Warden.Proofs.ControlFlow.Runs
import Warden.Proofs.Emitted
import Warden.Resolve

/-!
# The check for a missing `return`

The check accepts a function whose statements always return by their form. Two things make that
right. Outside of loops a `break` or `continue` is reported, wherever it stands
(`Stmt.Holds.flags`), so without such a report no run of the body ends in a jump. And code that
always returns by its form does not come to its end (`Runs.ne_normal`). What is left is that it
returns: `always_returns_sound`.

The second part has an exception. Whether a loop without condition is ever left is decided by
looking for a `break`, and headers of loops are not looked into, although a `break` there ends the
loop around. `break_in_header_falls_off` is a function that is accepted and can be run to its end.
-/

namespace Warden

open CheckM Check

variable {s : Stmt} {o : Outcome}

/-! ### Jumps outside of loops are reported -/

/-- A steady action that reports a fault in the flow of control, if there is no loop around. -/
structure CheckM.Flags {α : Type} (m : CheckM α) : Prop where
  steady : m.Steady
  reports : ∀ c : Checker, c.walk.loopDepth = 0 → ∃ f ∈ m.emitted c, f.tag = .invalidControlFlow

namespace CheckM.Flags

variable {α β : Type} {m : CheckM α} {f : α → CheckM β}

theorem bind_left (hm : m.Flags) (hf : ∀ a, (f a).Steady) : (m >>= f).Flags := by
  refine ⟨hm.steady.bind hf, fun c hc => ?_⟩
  obtain ⟨x, hx, htag⟩ := hm.reports c hc
  rw [emitted_bind hm.steady hf]
  exact ⟨x, List.mem_append_left _ hx, htag⟩

theorem bind_right (hm : m.Steady) (hf : ∀ a, (f a).Flags) : (m >>= f).Flags := by
  have hsteady := fun a => (hf a).steady
  refine ⟨hm.bind hsteady, fun c hc => ?_⟩
  obtain ⟨x, hx, htag⟩ := (hf (m.eval c)).reports (m.exec c) (by rw [hm.walk, hc])
  rw [emitted_bind hm hsteady]
  exact ⟨x, List.mem_append_right _ hx, htag⟩

/-- A change of the walk that puts no loop around. -/
theorem within (h : m.Flags) {change : Walk → Walk}
    (hchange : ∀ w, w.loopDepth = 0 → (change w).loopDepth = 0) : (within change m).Flags :=
  ⟨h.steady.within change, fun c hc => h.reports { c with walk := change c.walk } (hchange _ hc)⟩

end CheckM.Flags

section

variable {b : Block}

variable (scope : ScopeId)

theorem Stmt.flags_of_jump (h : s.jump? = some o) : (s.check scope).Flags := by
  refine ⟨steady_stmt scope s, fun c hc => ?_⟩
  have hexec : ∃ cause : Cause, (s.check scope).exec c = c.report cause s.span ∧
      cause.tag = .invalidControlFlow := by
    obtain ⟨span, kind⟩ := s
    cases kind with
    | breakLoop => exact ⟨.breakOutsideLoop, by simp [Stmt.check, hc], rfl⟩
    | continueLoop => exact ⟨.continueOutsideLoop, by simp [Stmt.check, hc], rfl⟩
    | _ => cases h
  obtain ⟨cause, hreport, htag⟩ := hexec
  rw [emitted_eq (congrArg (·.context.findings) hreport)]
  exact ⟨_, List.mem_singleton_self _, htag⟩

theorem flags_stmts {ss : List Stmt} (hs : s ∈ ss) (h : (s.check scope).Flags) :
    (checkStmts scope ss).Flags := by
  induction ss with
  | nil => cases hs
  | cons x ss ih =>
    rcases List.mem_cons.mp hs with rfl | hs
    · exact h.bind_left fun ok => (steady_stmts scope ss).bind fun rest => .ofPure (ok && rest)
    · refine Flags.bind_right (steady_stmt scope x) fun ok => ?_
      exact (ih hs).bind_left fun rest => .ofPure (ok && rest)

theorem Block.flags (hs : s ∈ b.stmts) (h : ∀ scope, (s.check scope).Flags) (name : String) :
    (b.checkIn scope name).Flags := by
  obtain ⟨span, stmts⟩ := b
  refine Flags.bind_right (.ofAddBlock scope name) fun inner => ?_
  refine (flags_stmts inner hs (h inner)).bind_left fun ok => ?_
  exact (Steady.ofMemory (.leaveScope inner)).bind fun _ => .ofPure ok

theorem flags_branches {branches : List (Expr × Block)} (hb : b ∈ branches.map (·.2))
    (h : ∀ name, (b.checkIn scope name).Flags) (name : String) :
    (checkBranches scope name branches).Flags := by
  induction branches generalizing name with
  | nil => cases hb
  | cons branch branches ih =>
    obtain ⟨cond, block⟩ := branch
    refine Flags.bind_right (rule_condition scope cond).steady fun condOk => ?_
    rcases List.mem_cons.mp hb with rfl | hb
    · refine (h name).bind_left fun ok => ?_
      exact (steady_branches scope "elif" branches).bind fun rest => .ofPure _
    · refine Flags.bind_right (steady_block scope name block) fun ok => ?_
      exact (ih hb "elif").bind_left fun rest => .ofPure _

theorem flags_cases {cases : List SwitchCase} (hb : b ∈ cases.map (·.body))
    (h : ∀ name, (b.checkIn scope name).Flags) (expected : Option Ty) :
    (checkCases scope expected cases).Flags := by
  induction cases with
  | nil => cases hb
  | cons case cases ih =>
    obtain ⟨span, values, body⟩ := case
    refine Flags.bind_right (rule_caseValues scope expected values).steady fun found => ?_
    rcases List.mem_cons.mp hb with rfl | hb
    · refine (h "case").bind_left fun ok => ?_
      exact (steady_cases scope expected cases).bind fun more => .ofPure _
    · refine Flags.bind_right (steady_block scope "case" body) fun ok => ?_
      exact (ih hb).bind_left fun more => .ofPure _

/-- What is reported in one of its blocks is reported in a statement. -/
theorem Stmt.flags_of_choice (hb : b ∈ s.choices) (h : ∀ name, (b.checkIn scope name).Flags) :
    (s.check scope).Flags := by
  obtain ⟨span, kind⟩ := s
  cases kind with
  | block block =>
    rw [List.mem_singleton.mp hb] at h
    exact h "block"
  | conditional branches otherwise =>
    rcases List.mem_append.mp hb with hb | hb
    · refine (flags_branches scope hb h "if").bind_left fun ok => ?_
      exact (steady_optionalBlock scope "else" otherwise).bind fun rest => .ofPure _
    · cases Option.mem_toList.mp hb
      refine Flags.bind_right (steady_branches scope "if" branches) fun ok => ?_
      exact (h "else").bind_left fun rest => .ofPure _
  | switch scrutinee cases otherwise =>
    refine Flags.bind_right (rule_expr scope scrutinee).steady fun ty => ?_
    rcases List.mem_append.mp hb with hb | hb
    · refine (flags_cases scope hb h ty).bind_left fun found => ?_
      refine (steady_optionalBlock scope "default" otherwise).bind fun rest => ?_
      exact (reports_exhaustiveness scope ty found.2 otherwise.isSome span).isRule.steady.bind
        fun _ => .ofPure _
    · cases Option.mem_toList.mp hb
      refine Flags.bind_right (steady_cases scope ty cases) fun found => ?_
      refine (h "default").bind_left fun rest => ?_
      exact (reports_exhaustiveness scope ty found.2 true span).isRule.steady.bind
        fun _ => .ofPure _
  | _ => cases hb

end

/-- A jump in a statement is reported, if there is no loop around the statement. -/
theorem Stmt.Holds.flags {t : Stmt} (h : t.Holds s) (ht : t.jump? = some o) :
    ∀ scope, (s.check scope).Flags := by
  induction h with
  | refl => exact fun scope => Stmt.flags_of_jump scope ht
  | inBlock hb hx _ ih =>
    exact fun scope => Stmt.flags_of_choice scope hb fun name => Block.flags scope hx ih name
  | inDefer _ ih => exact fun scope => (ih scope).within fun _ hw => hw
  | @inHeader span init cond step body _ ih =>
    intro scope
    refine Flags.bind_right (.ofAddBlock scope "loop") fun inner => ?_
    refine (ih inner).bind_left fun initOk => ?_
    refine (Steady.ofInStep inner
      (·.expr.inStep_optionalCondition cond fun _ _ => trivial)).bind fun condOk => ?_
    refine (Steady.ofInStep inner
      (·.expr.inStep_optionalEffect step fun _ _ => trivial)).bind fun stepOk => ?_
    refine ((steady_block inner "loop body" body).within Walk.enterLoop).bind fun bodyOk => ?_
    exact (Steady.ofMemory (.leaveScope inner)).bind fun _ => .ofPure _

theorem FnDecl.flags_checkInside {f : FnDecl} (hs : s ∈ f.body.stmts)
    (h : ∀ scope, (s.check scope).Flags) (sig : Signature) (span : Span) (scope : ScopeId) :
    (f.checkInside sig span scope).Flags := by
  refine Flags.bind_right (.ofInStep scope fun hR => hR.inStep_declareParams _ f.params
    (Pairing.same_tys _ _ sig.params)) fun paramsOk => ?_
  refine (flags_stmts scope hs (h scope)).bind_left fun bodyOk => ?_
  cases sig.ret.isVoid || alwaysReturn f.body.stmts with
  | true => exact .ofPure _
  | false => exact (Steady.ofReport _ span).bind fun _ => .ofPure _

/-- The loops around a function do not reach into its body: a jump there that is not in a loop of
the body is reported in any state. -/
theorem FnDecl.exists_emitted_of_jumps {f : FnDecl} (hs : s ∈ f.body.stmts) (h : s.Jumps o)
    (sig : Signature) (span : Span) (parent : ScopeId) (name : String) (c : Checker) :
    ∃ x ∈ (f.checkBody sig span parent name).emitted c, x.tag = .invalidControlFlow := by
  obtain ⟨t, ht, hjump⟩ := h
  have hinside := fun scope => (flags_checkInside hs (ht.flags hjump) sig span scope).bind_left
    fun ok => (Steady.ofMemory (.leaveScope scope)).bind fun _ =>
      (Steady.ofMemory (.reportLeaks scope)).bind fun _ => .ofPure ok
  have hreports := (hinside c.scopes.size).reports
    (c.enteredBody parent name (f.frame sig name)) rfl
  rw [checkBody_eq]
  exact hreports

/-! ### Functions that return -/

/-- No loop without condition in a block is broken from the header of a loop in its body. -/
def Block.LoopsClosed (b : Block) : Prop :=
  ∀ s ∈ b.stmts, s.LoopsClosed

/-- **The check for a missing `return` is sound, apart from headers of loops.** Let the check of a
function report no fault in the flow of control, and let its statements always return by their
form. If no loop without condition is broken from the header of a loop in its body, then every run
of the function's body returns. In particular none falls off the end. -/
theorem always_returns_sound {f : FnDecl} {sig : Signature} {span : Span} {parent : ScopeId}
    {name : String} {c : Checker}
    (hflow : ∀ x ∈ (f.checkBody sig span parent name).emitted c, x.tag ≠ .invalidControlFlow)
    (hreturns : alwaysReturn f.body.stmts = true) (hclosed : f.body.LoopsClosed) {o : Outcome}
    (hrun : f.body.Runs o) : o = .returned := by
  have hjump : ¬o.IsJump := by
    intro ho
    obtain ⟨s, hs, hjumps⟩ := hrun.accounts.jump ho
    obtain ⟨x, hx, htag⟩ := f.exists_emitted_of_jumps hs hjumps sig span parent name c
    exact hflow x hx htag
  have hnormal : o ≠ .normal := by
    obtain ⟨s, hs, hsreturns⟩ := alwaysReturn_iff.mp hreturns
    exact hrun.ne_normal ⟨s, hs, hsreturns, hclosed s hs⟩
  cases o with
  | returned => rfl
  | normal => exact absurd rfl hnormal
  | broke => exact absurd (.inl rfl) hjump
  | continued => exact absurd (.inr rfl) hjump

/-- A function `f` that is to return an `int`. -/
def intFunction (body : List Stmt) : FnDecl :=
  ⟨"f", [], .named {} none "int", ⟨{}, body⟩, false, false, false⟩

/-- As in `loop { loop (true) { break; } if (true) { return 1; } }`. -/
def returnsFromLoop : FnDecl :=
  intFunction [⟨{}, .loop none none none ⟨{}, [
    ⟨{}, .loop none (some ⟨1, {}, .bool true⟩) none ⟨{}, [⟨{}, .breakLoop⟩]⟩⟩,
    ⟨{}, .conditional [(⟨2, {}, .bool true⟩, ⟨{}, [⟨{}, .ret (some ⟨3, {}, .int 1⟩)⟩]⟩)] none⟩]⟩⟩]

/-- The inner loop is left by its `break`, and the outer one by `return` only. -/
theorem always_returns_sound_from_loop :
    let found := (returnsFromLoop.checkBody ⟨[], .int⟩ {} 0 "f").emitted (.ofConfig {})
    found = [] ∧ alwaysReturn returnsFromLoop.body.stmts = true ∧
      returnsFromLoop.body.LoopsClosed ∧ returnsFromLoop.body.Runs .returned ∧
      ∀ o, returnsFromLoop.body.Runs o → o = .returned := by
  have hfound : (returnsFromLoop.checkBody ⟨[], .int⟩ {} 0 "f").emitted (.ofConfig {}) = [] := by
    decide +kernel
  have hreturns : alwaysReturn returnsFromLoop.body.stmts = true := by decide
  have hclosed : returnsFromLoop.body.LoopsClosed := by
    intro s hs span init step body hloop x hx
    rintro ⟨span', init', cond', step', body', hheld, -⟩
    cases List.mem_singleton.mp hs
    cases hloop with
    | inBlock hb => cases hb
    | refl =>
      rcases List.mem_cons.mp hx with rfl | hx
      · cases hheld with
        | inBlock hb => cases hb
      · cases List.mem_singleton.mp hx
        cases hheld with
        | inBlock hb hy hheld =>
          cases List.mem_singleton.mp hb
          cases List.mem_singleton.mp hy
          cases hheld with
          | inBlock hb => cases hb
  have hrun : returnsFromLoop.body.Runs .returned := by
    have hbreak := Runs.block (b := ⟨{}, [⟨{}, .breakLoop⟩]⟩) (.cut (.jump rfl) (by decide)) .left
    have hinner : Runs (.stmt ⟨{}, .loop none (some ⟨1, {}, .bool true⟩) none
        ⟨{}, [⟨{}, .breakLoop⟩]⟩⟩) .normal [] := .loop .nil (.exit hbreak rfl) .left
    have hbranch : Runs (.block ⟨{}, [⟨{}, .ret (some ⟨3, {}, .int 1⟩)⟩]⟩) .returned [] :=
      .block (.cut .ret (by decide)) .left
    have hreturn : Runs (.stmt ⟨{}, .conditional [(⟨2, {}, .bool true⟩,
        ⟨{}, [⟨{}, .ret (some ⟨3, {}, .int 1⟩)⟩]⟩)] none⟩) .returned [] :=
      .choose (.head _) hbranch
    have hround := Runs.block (b := ⟨{}, [_, _]⟩) (.next hinner (.cut hreturn (by decide))) .left
    exact .block (.cut (.loop .nil (.exit hround rfl) .left) (by decide)) .left
  refine ⟨hfound, hreturns, hclosed, hrun, fun o hrun => ?_⟩
  exact always_returns_sound (by rw [hfound]; simp) hreturns hclosed hrun

/-- As in `loop { loop (break;) { } }`. -/
def brokenFromHeader : FnDecl :=
  intFunction [⟨{}, .loop none none none
    ⟨{}, [⟨{}, .loop (some ⟨{}, .breakLoop⟩) none none ⟨{}, []⟩⟩]⟩⟩]

/-- A `break` in the header of a loop ends the loop around it, which is not seen: nothing is found
in this function, which can be run to its end without returning a value. -/
theorem break_in_header_falls_off :
    let program : Program :=
      { modules := [{ name := "main", body := [⟨{}, .fn brokenFromHeader⟩] }] }
    (program.check {}).context.findings = [] ∧
      alwaysReturn brokenFromHeader.body.stmts = true ∧ brokenFromHeader.body.Runs .normal := by
  refine ⟨by decide +kernel, by decide, ?_⟩
  have hheader : Runs (.stmt ⟨{}, .loop (some ⟨{}, .breakLoop⟩) none none ⟨{}, []⟩⟩) .broke [] :=
    .header (.cut (.jump rfl) (by decide)) (by decide) .left
  have hbody := Runs.block (b := ⟨{}, [_]⟩) (.cut hheader (by decide)) .left
  exact .block (.next (.loop .nil (.exit hbody rfl) .left) .nil) .left

end Warden

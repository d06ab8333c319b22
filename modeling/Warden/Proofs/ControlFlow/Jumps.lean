import Warden.Proofs.Journal.Course
import Warden.Proofs.Journal.Stmt

/-!
# Jumps and what they leave

A check saves the walk where it enters a loop, a `defer` or a function, and puts it back on every
way out. So the walk in which a statement is checked can be read off the program: it agrees with the
bodies around the statement (`Walk.Agrees`), whatever has been checked before.

From this follows where a jump is reported. `StmtVisit.fault?` decides by the bodies around it
alone, and `Journaled.listsJumps` says that the findings about jumps are those of the journal, one
by one and in order. For a whole program: `misplaced_jumps_are_reported`.
-/

namespace Warden

open CheckM Check

/-! ### The walk and the bodies around a statement -/

/-- The bodies around a statement that stand in the same function. -/
def Enclosure.inFunction (around : List Enclosure) : List Enclosure :=
  around.takeWhile (· ≠ .functionBody)

/-- There are loops in the walk, and functions, exactly if there are such bodies around. -/
structure Walk.Agrees (w : Walk) (around : List Enclosure) : Prop where
  loops : w.loopDepth = 0 ↔ .loopBody ∉ Enclosure.inFunction around
  functions : w.frames = [] ↔ .functionBody ∉ around

namespace Walk.Agrees

variable {w : Walk} {around : List Enclosure}

theorem start : ({} : Walk).Agrees [] :=
  ⟨by simp [Enclosure.inFunction], by simp⟩

end Walk.Agrees

/-- Why a jump has nothing to leave, by the bodies around it. -/
def StmtVisit.fault? (v : StmtVisit) : Option Cause :=
  match v.stmt.kind with
  | .ret _ => if .functionBody ∈ v.around then none else some .returnOutsideFunction
  | .breakLoop =>
    if .loopBody ∈ Enclosure.inFunction v.around then none else some .breakOutsideLoop
  | .continueLoop =>
    if .loopBody ∈ Enclosure.inFunction v.around then none else some .continueOutsideLoop
  | _ => none

/-- The walk and the bodies around a statement give the same answer. -/
theorem StmtVisit.jumpFault?_eq {v : StmtVisit} (h : v.state.walk.Agrees v.around) :
    v.stmt.jumpFault? v.state.walk = v.fault? := by
  have hloops := h.loops
  have hfunctions := h.functions
  unfold Stmt.jumpFault? fault?
  cases v.stmt.kind with
  | ret value => by_cases hmem : .functionBody ∈ v.around <;> simp_all
  | breakLoop => by_cases hmem : .loopBody ∈ Enclosure.inFunction v.around <;> simp_all
  | continueLoop => by_cases hmem : .loopBody ∈ Enclosure.inFunction v.around <;> simp_all
  | _ => rfl

theorem StmtVisit.isJump_of_mem_fault? {v : StmtVisit} {cause : Cause} (h : cause ∈ v.fault?) :
    cause.isJump = true := by
  unfold fault? at h
  split at h
  case h_4 => cases h
  all_goals
    split at h
    · cases h
    · cases h
      rfl

/-! ### What a journal says about jumps -/

/-- What is found about a jump when the check is done with it. -/
def Entry.jumps : Entry → List Finding
  | .checked v => v.state.context.filed v.stmt.span v.fault?
  | _ => []

/-- Entries that are no statements say nothing about jumps. -/
theorem Entry.flatMap_jumps {entries : List Entry} (h : ∀ v, .checked v ∉ entries) :
    entries.flatMap Entry.jumps = [] := by
  refine List.flatMap_eq_nil_iff.mpr fun x hx => ?_
  cases x with
  | checked v => exact absurd hx (h v)
  | _ => rfl

/-- From the first state to the second, the findings about jumps are those of the entries. -/
structure ListsJumps (entries : List Entry) (c d : Checker) : Prop where
  walk : d.walk = c.walk
  filed : d.context.filed = c.context.filed
  jumps : d.jumps = c.jumps ++ entries.flatMap Entry.jumps
  agrees : ∀ v, .checked v ∈ entries → v.state.walk.Agrees v.around

namespace ListsJumps

variable {entries entries' : List Entry} {c d e : Checker}

theorem ofPlain (h : Plain c d) : ListsJumps [] c d :=
  ⟨h.walk, h.filed, by simpa using h.jumps, fun _ hv => absurd hv List.not_mem_nil⟩

theorem trans (h : ListsJumps entries c d) (h' : ListsJumps entries' d e) :
    ListsJumps (entries ++ entries') c e := by
  refine ⟨h'.walk.trans h.walk, h'.filed.trans h.filed, ?_, fun v hv => ?_⟩
  · rw [h'.jumps, h.jumps, List.flatMap_append, List.append_assoc]
  · exact (List.mem_append.mp hv).elim (h.agrees v) (h'.agrees v)

theorem append {more : List Entry} (h : ListsJumps entries c d)
    (hmore : ∀ v, .checked v ∉ more) : ListsJumps (entries ++ more) c d := by
  refine ⟨h.walk, h.filed, ?_, fun v hv => ?_⟩
  · rw [List.flatMap_append, Entry.flatMap_jumps hmore, List.append_nil, h.jumps]
  · exact h.agrees v ((List.mem_append.mp hv).resolve_right (hmore v))

theorem last (h : ListsJumps entries c d) (h' : Plain d e) : ListsJumps entries c e := by
  simpa using h.trans (ofPlain h')

/-- What is changed in the walk is put back. -/
theorem within (h : ListsJumps entries e d) (hcontext : e.context = c.context) :
    ListsJumps entries c { d with walk := c.walk } := by
  have hsame : e.jumps = c.jumps := by rw [Checker.jumps, Checker.jumps, hcontext]
  exact ⟨rfl, hcontext ▸ h.filed, hsame ▸ h.jumps, h.agrees⟩

/-- A statement is done, and is reported if it is a jump from nowhere. -/
theorem stmt (h : ListsJumps entries c d) {v : StmtVisit} (hstate : v.state = c)
    (hagrees : c.walk.Agrees v.around) : ListsJumps (entries ++ [.checked v]) c
      { d with context := d.context.reportAny v.stmt.span (v.stmt.jumpFault? c.walk) } := by
  subst hstate
  rw [StmtVisit.jumpFault?_eq hagrees]
  have hjumps : (v.state.context.filed v.stmt.span v.fault?).filter (·.isJump) =
      v.state.context.filed v.stmt.span v.fault? := by
    refine List.filter_eq_self.mpr fun f hf => ?_
    obtain ⟨cause, hcause, rfl⟩ := List.mem_map.mp hf
    exact v.isJump_of_mem_fault? (Option.mem_toList.mp hcause)
  refine ⟨h.walk, ?_, ?_, fun w hw => ?_⟩
  · rw [← h.filed]
    funext span cause?
    exact Context.filed_reportAny _ _ _ _ _
  · rw [Checker.jumps, Context.findings_reportAny, List.filter_append, h.filed, hjumps,
      List.flatMap_append, ← List.append_assoc, ← h.jumps]
    simp [Checker.jumps, Entry.jumps]
  · rcases List.mem_append.mp hw with hw | hw
    · exact h.agrees w hw
    · cases List.mem_singleton.mp hw
      exact hagrees

end ListsJumps

/-- If the walk agrees with the bodies around at the start, it does so at every statement, and the
findings about jumps are those of the journal. -/
theorem Journaled.listsJumps {scope : ScopeId} {around : List Enclosure} {c d : Checker}
    {entries : List Entry} (h : Journaled scope around c entries d) (hw : c.walk.Agrees around) :
    ListsJumps entries c d := by
  induction h with
  | rule hrule =>
    exact (ListsJumps.ofPlain hrule.plain).append (by simp)
  | trans _ _ ih ih' =>
    have hfirst := ih hw
    exact hfirst.trans (ih' (hfirst.walk ▸ hw))
  | stmt s _ ih => exact (ih hw).stmt rfl hw
  | block name _ ih =>
    have hinside := ih hw
    refine .append (.last ?_ (.memory (.leaveScope _) _)) (by simp)
    exact ⟨hinside.walk, hinside.filed, hinside.jumps, hinside.agrees⟩
  | loopBody _ ih =>
    exact (ih ⟨by simp [Walk.enterLoop, Enclosure.inFunction],
      by simpa [Walk.enterLoop] using hw.functions⟩).within rfl
  | defer _ ih => exact (ih ⟨hw.loops, hw.functions⟩).within rfl
  | function name frame _ ih =>
    have hbody := ih ⟨by simp [Walk.enterFunction, Enclosure.inFunction],
      by simp [Walk.enterFunction]⟩
    refine .append ((hbody.last (.leaveBody _ _)).within rfl) fun v => ?_
    simp

/-! ### Modules -/

/-- While a module is checked, the walk agrees with the bodies around each statement. -/
theorem Module.listsJumps (m : Module) (scope : ScopeId) {c : Checker} (hc : c.walk = {}) :
    ((m.check scope).exec c).jumps = c.jumps ++ (m.journal scope c).flatMap Entry.jumps ∧
      ∀ v, .checked v ∈ m.journal scope c → v.state.walk.Agrees v.around := by
  have hagrees : (c.entered m).walk.Agrees [] := hc ▸ Walk.Agrees.start
  have hstmts := (journal_stmts scope [] m.statements (c.entered m)).listsJumps hagrees
  have hall : ListsJumps (m.journal scope c) (c.entered m) ((m.check scope).exec c) := by
    rw [m.journal_eq, m.exec_check]
    exact .append (hstmts.last (.leaveBody scope _)) (by simp [mem_endOfScope])
  exact ⟨hall.jumps, hall.agrees⟩

/-- Whether the check of the statement finds fault with the flow of control. -/
def StmtVisit.Reported (v : StmtVisit) : Prop :=
  ∃ f ∈ (v.stmt.check v.scope).emitted v.state, f.tag = .invalidControlFlow

/-- A statement whose parts are rules reports what its place says. -/
theorem StmtVisit.reported_iff {v : StmtVisit} (hagrees : v.state.walk.Agrees v.around)
    {visits : List Visit} (hparts : v.stmt.journal v.scope v.around v.state =
      visits.map .visit ++ [.checked v]) : v.Reported ↔ v.fault?.isSome := by
  have hsteady := (steady_stmt v.scope v.stmt).findings v.state
  have hlists := (tells_stmt v.scope v.around v.stmt v.state).journaled.listsJumps hagrees
  have hfiled : ((v.stmt.check v.scope).emitted v.state).filter (·.isJump) =
      v.state.context.filed v.stmt.span v.fault? := by
    have hjumps := hlists.jumps
    rw [Checker.jumps, hsteady, List.filter_append, hparts, List.flatMap_append,
      Entry.flatMap_jumps (by simp), List.nil_append, List.flatMap_singleton] at hjumps
    exact List.append_cancel_left hjumps
  have hreported : v.Reported ↔ v.state.context.filed v.stmt.span v.fault? ≠ [] := by
    rw [← hfiled, Ne, List.filter_eq_nil_iff]
    simp [Reported, Finding.isJump_eq]
  rw [hreported]
  cases v.fault? <;> simp [Context.filed]

end Warden

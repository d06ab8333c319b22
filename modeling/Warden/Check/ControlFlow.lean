import Warden.Syntax.Basic

/-!
# Control flow

`alwaysReturns` says that a list of statements cannot be run to its end: on every path through it
there is a `return`. It looks at the form of the statements only. One statement that always returns
is enough; a conditional or a switch does if it has an `else` or `default` and all its blocks do,
and a loop without condition does if nothing in its body leaves the loop.
-/

namespace Warden

mutual

/-- Whether a `break` in the statement would leave the loop around it. -/
def Stmt.containsBreak : Stmt → Bool
  | ⟨_, .breakLoop⟩ => true
  | ⟨_, .block block⟩ => block.containsBreak
  | ⟨_, .conditional branches none⟩ => branchesContainBreak branches
  | ⟨_, .conditional branches (some block)⟩ =>
    branchesContainBreak branches || block.containsBreak
  | ⟨_, .switch _ cases none⟩ => casesContainBreak cases
  | ⟨_, .switch _ cases (some block)⟩ => casesContainBreak cases || block.containsBreak
  | ⟨_, .defer stmt⟩ => stmt.containsBreak
  | _ => false

def Block.containsBreak : Block → Bool
  | ⟨_, stmts⟩ => containBreak stmts

/-- Whether one of the statements contains a `break` that would leave the loop around them. -/
def containBreak : List Stmt → Bool
  | [] => false
  | s :: ss => s.containsBreak || containBreak ss

def branchesContainBreak : List (Expr × Block) → Bool
  | [] => false
  | (_, block) :: branches => block.containsBreak || branchesContainBreak branches

def casesContainBreak : List SwitchCase → Bool
  | [] => false
  | ⟨_, _, body⟩ :: cases => body.containsBreak || casesContainBreak cases

end

mutual

/-- Whether every path through the statement ends in `return`. -/
def Stmt.alwaysReturns : Stmt → Bool
  | ⟨_, .ret _⟩ => true
  | ⟨_, .block block⟩ => block.alwaysReturns
  | ⟨_, .conditional branches (some block)⟩ =>
    branchesAlwaysReturn branches && block.alwaysReturns
  | ⟨_, .switch _ cases (some block)⟩ => casesAlwaysReturn cases && block.alwaysReturns
  | ⟨_, .loop _ none _ body⟩ => !body.containsBreak
  | _ => false

def Block.alwaysReturns : Block → Bool
  | ⟨_, stmts⟩ => alwaysReturn stmts

/-- Whether every path through the statements ends in `return`. -/
def alwaysReturn : List Stmt → Bool
  | [] => false
  | s :: ss => s.alwaysReturns || alwaysReturn ss

def branchesAlwaysReturn : List (Expr × Block) → Bool
  | [] => true
  | (_, block) :: branches => block.alwaysReturns && branchesAlwaysReturn branches

def casesAlwaysReturn : List SwitchCase → Bool
  | [] => true
  | ⟨_, _, body⟩ :: cases => body.alwaysReturns && casesAlwaysReturn cases

end

end Warden

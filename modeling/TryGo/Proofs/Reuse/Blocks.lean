import Mathlib.Data.List.Forall2
import TryGo.Proofs.Step.Walk

/-! The blocks of Go source that are open at a line, found by going over the lines in front of it.
Lines say where blocks are opened and closed and which names they declare. Only the parameters
of a function stand in no line of their own, so the functions and the tries that the lines are
written for are gone over beside them. -/
namespace TryGo

/-! ### Lines -/

namespace Go

/-- Whether the block that a line opens is the body of a function or of a closure. -/
def Code.opensBody : Code → Bool
  | .funcOpen _ | .tryOpen _ => true
  | _ => false

/-- How many blocks are open behind some lines, given how many are open in front of them. No line
may close a block that was open already. -/
def openAfter (count : Nat) : List Code → Option Nat
  | [] => some count
  | code :: rest =>
      if code.closes && count == 0 then none
      else openAfter (count - code.closes.toNat + code.opens.toNat) rest

end Go

/-! ### Functions and tries -/

/-- Whether a statement has a body that is lowered to that of a function or of a closure. -/
def Stmt.hasBody : Stmt → Bool
  | .func _ _ _ _ _ _ | .tryCatch _ _ _ _ => true
  | _ => false

/-- The names that the body of a function starts with, which are its parameters. -/
def Stmt.bodyNames : Stmt → List String
  | .func _ _ params _ _ _ => params.map Expr.text
  | _ => []

/-- Whether a line opens the body of a statement. -/
def Stmt.OpenedBy : Stmt → Go.Code → Prop
  | .func _ name params types result body, code =>
      code = .funcOpen (signatureText name params types (Lower.emittedResult result body))
  | .tryCatch _ _ _ _, code => ∃ reuse, code = .tryOpen reuse
  | _, _ => False

/-- The functions and tries that are written for a statement, in their order. -/
def Stmt.bodies (s : Stmt) : List Stmt := s.emitted.filter Stmt.hasBody

def Stmt.allBodies (statements : List Stmt) : List Stmt :=
  (Stmt.allEmitted statements).filter Stmt.hasBody

def Stmt.clausesBodies (catches : List Stmt) : List Stmt :=
  (Stmt.clausesEmitted catches).filter Stmt.hasBody

theorem Stmt.allBodies_cons (s : Stmt) (rest : List Stmt) :
    Stmt.allBodies (s :: rest) = s.bodies ++ Stmt.allBodies rest := List.filter_append _ _

theorem Stmt.bodies_ifElse (token : Token) (condition : Expr) (consequence alternative : Stmt) :
    (Stmt.ifElse token condition consequence alternative).bodies =
      consequence.bodies ++ alternative.bodies := List.filter_append _ _

theorem Stmt.bodies_tryCatch (token : Token) (body : Stmt) (catches : List Stmt) (cleanup : Stmt) :
    (Stmt.tryCatch token body catches cleanup).bodies =
      .tryCatch token body catches cleanup
        :: (body.bodies ++ (Stmt.clausesBodies catches ++ cleanup.bodies)) := by
  rw [bodies, emitted, List.filter_cons_of_pos rfl, List.filter_append, List.filter_append]
  rfl

theorem Stmt.clausesBodies_cons (token : Token) (name : Expr) (type : Option String) (body : Stmt)
    (rest : List Stmt) :
    Stmt.clausesBodies (.catchClause token name type body :: rest) =
      body.bodies ++ if isTyped type then Stmt.clausesBodies rest else [] := by
  rw [clausesBodies, clausesEmitted, List.filter_append]
  split <;> rfl

/-! ### Open blocks -/

/-- The blocks that are open somewhere in a text, given by the names that their lines have declared
so far with the innermost first, and the functions and tries that are still to come. -/
structure Blocks where
  names : List (List String)
  due : List Stmt

namespace Blocks

def inner (blocks : Blocks) : List String := blocks.names.headD []

/-- Goes over a line. It leaves a block if it starts with a brace, then it declares its names, and
then it may open a block, which has no names yet but for parameters. The names in the header
of a loop or of a type test are those of no block. -/
def pass (blocks : Blocks) (code : Go.Code) : Blocks :=
  let left := if code.closes then blocks.names.tail else blocks.names
  let declared := (code.declares ++ left.headD []) :: left.tail
  if code.opensBody then
    ⟨(blocks.due.head?.map Stmt.bodyNames).getD [] :: declared, blocks.due.tail⟩
  else if code.opens then ⟨[] :: declared, blocks.due⟩
  else ⟨declared, blocks.due⟩

def passAll (blocks : Blocks) (codes : List Go.Code) : Blocks := codes.foldl pass blocks

/-- Whether a line is in place where some blocks are open. A line that closes a block stands in a
block of its own, the body of a function or a try is opened when it is due, and a try takes the
error of its block exactly if there is one. -/
structure Allows (blocks : Blocks) (code : Go.Code) : Prop where
  closes : code.closes = true → 2 ≤ blocks.names.length
  due : code.opensBody = true → ∃ s later, blocks.due = s :: later ∧ s.OpenedBy code
  reuse : ∀ reuse, code = .tryOpen reuse → (reuse = true ↔ "err" ∈ blocks.inner)

/-- Whether some lines are in place and lead from some open blocks to others. -/
inductive Lead : Blocks → List Go.Code → Blocks → Prop where
  | nil (blocks : Blocks) : Lead blocks [] blocks
  | cons {blocks after : Blocks} {code : Go.Code} {rest : List Go.Code}
      (hAllows : blocks.Allows code) (hRest : Lead (blocks.pass code) rest after) :
      Lead blocks (code :: rest) after

variable {blocks middle after : Blocks} {code : Go.Code} {codes more : List Go.Code}

theorem Lead.append (hFirst : Lead blocks codes middle) (hNext : Lead middle more after) :
    Lead blocks (codes ++ more) after := by
  induction hFirst with
  | nil => exact hNext
  | cons hAllows _ ih => exact .cons hAllows (ih hNext)

theorem Lead.single (hAllows : blocks.Allows code) : Lead blocks [code] (blocks.pass code) :=
  .cons hAllows (.nil _)

/-- Every line is in place behind those in front of it. -/
theorem Lead.allows (hLead : Lead blocks (codes ++ code :: more) after) :
    (blocks.passAll codes).Allows code := by
  induction codes generalizing blocks with
  | nil =>
      cases hLead with
      | cons hAllows _ => exact hAllows
  | cons first rest ih =>
      cases hLead with
      | cons _ hRest => exact ih hRest

/-- The bodies that lines open are those of the functions and tries that were due. -/
theorem Lead.bodies (hLead : Lead blocks codes after) :
    ∃ opened, blocks.due = opened ++ after.due
      ∧ List.Forall₂ Stmt.OpenedBy opened (codes.filter Go.Code.opensBody) := by
  induction hLead with
  | nil blocks => exact ⟨[], rfl, .nil⟩
  | @cons blocks after code rest hAllows _ ih =>
      obtain ⟨opened, hDue, hOpened⟩ := ih
      cases hBody : code.opensBody with
      | true =>
          obtain ⟨s, later, hNow, hBy⟩ := hAllows.due hBody
          rw [pass, if_pos hBody, hNow] at hDue
          rw [List.filter_cons_of_pos hBody]
          exact ⟨s :: opened, by rw [hNow, List.cons_append]; exact congrArg _ hDue,
            .cons hBy hOpened⟩
      | false =>
          have hOther : ¬code.opensBody = true := by rw [hBody]; exact Bool.false_ne_true
          rw [pass, if_neg hOther] at hDue
          rw [List.filter_cons_of_neg hOther]
          refine ⟨opened, ?_, hOpened⟩
          rw [← hDue]
          split <;> rfl

/-- A line that is in place changes the number of open blocks by its braces. -/
theorem Allows.length_names (hAllows : blocks.Allows code) (hSome : 1 ≤ blocks.names.length) :
    (blocks.pass code).names.length =
      blocks.names.length - code.closes.toNat + code.opens.toNat := by
  let left := if code.closes then blocks.names.tail else blocks.names
  have hLeft : left.length = blocks.names.length - code.closes.toNat := by
    cases hCloses : code.closes <;> simp [left, hCloses]
  have hMore : 1 ≤ left.length := by
    rw [hLeft]
    cases hCloses : code.closes with
    | true => exact Nat.le_sub_of_add_le (hAllows.closes hCloses)
    | false => exact hSome
  have hDeclared : ((code.declares ++ left.headD []) :: left.tail).length = left.length := by
    rw [List.length_cons, List.length_tail, Nat.sub_add_cancel hMore]
  have hOpens : code.opensBody = true → code.opens = true := by
    cases code <;> simp [Go.Code.opensBody, Go.Code.opens]
  rw [← hLeft, ← hDeclared, pass]
  cases hBody : code.opensBody with
  | true => rw [hOpens hBody]; rfl
  | false => cases code.opens <;> rfl

/-- Lines that are in place close only blocks that they have opened. -/
theorem Lead.openAfter (hLead : Lead blocks codes after) (hSome : 1 ≤ blocks.names.length) :
    Go.openAfter (blocks.names.length - 1) codes = some (after.names.length - 1)
      ∧ 1 ≤ after.names.length := by
  induction hLead with
  | nil => exact ⟨rfl, hSome⟩
  | @cons blocks after code rest hAllows _ ih =>
      have hRoom : code.closes.toNat + 1 ≤ blocks.names.length := by
        cases hCloses : code.closes with
        | true => exact hAllows.closes hCloses
        | false => exact hSome
      have hFits : ¬(code.closes && blocks.names.length - 1 == 0) = true := by
        cases hCloses : code.closes with
        | true =>
            rw [hCloses] at hRoom
            have hOpen : blocks.names.length - 1 ≠ 0 := Nat.sub_ne_zero_of_lt hRoom
            simpa using hOpen
        | false => exact Bool.false_ne_true
      have hLength := hAllows.length_names hSome
      have hCount : (blocks.pass code).names.length - 1 =
          blocks.names.length - 1 - code.closes.toNat + code.opens.toNat := by omega
      rw [Go.openAfter, if_neg hFits, ← hCount]
      exact ih (by omega)

end Blocks

end TryGo

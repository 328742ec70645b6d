import TryGo.Tree.Text

/-! The outline of a tree: one entry per line, indented by two spaces for each level.
Containers list their parts below them, and everything else is shown in its debugging form
behind the name of its kind. -/
namespace TryGo

/-- One entry at a level. -/
def outlineEntry (level : Nat) (text : String) : String := Text.repeated "  " level ++ text

/-- The entry of a node that is shown whole. -/
def Stmt.leafEntry (level : Nat) (s : Stmt) : Except RenderError String := do
  return outlineEntry level (s.kind.name ++ ": " ++ (← s.render))

/-- The debugging form of an optional clause, which is empty when the clause is missing. -/
def Stmt.renderOrEmpty (s : Stmt) : Except RenderError String :=
  if s.isMissing then .ok "" else s.render

/-- The debugging form of an optional condition, which is empty when it is missing. -/
def Expr.renderOrEmpty (e : Expr) : Except RenderError String :=
  if e.isMissing then .ok "" else e.render

/-- What a catch clause binds, as text. A clause that binds nothing shows the blank name. -/
def Expr.renderBinding (e : Expr) : Except RenderError String := do
  if e.isMissing then return "_" else (← e.heldValue).render

/-- The signature of a function, unless an integer in it is too long. -/
def renderSignature (name : Expr) (params : List Expr) (types : List (Option String))
    (result : Option String) : Except RenderError String :=
  if Expr.anyLongInteger (name :: params.take types.length) then .error .tooManyDigits
  else .ok (signatureText name params types result)

mutual

def Stmt.outline (level : Nat) : Stmt → Except RenderError (List String)
  | .program _ statements => do
      return outlineEntry level "Program" :: (← Stmt.outlineChildren (level + 1) statements)
  | .block _ statements => do
      return outlineEntry level "Block" :: (← Stmt.outlineChildren (level + 1) statements)
  | .func _ name params types result body => do
      let signature ← renderSignature name params types result
      return outlineEntry level ("Function: " ++ signature) :: (← body.outline (level + 1))
  | .ifElse _ condition consequence alternative => do
      let head := outlineEntry level ("If " ++ (← condition.render))
      let inner ← consequence.outline (level + 1)
      if alternative.isMissing then return head :: inner
      else
        let other ← alternative.outline (level + 2)
        return head :: inner ++ outlineEntry (level + 1) "Else:" :: other
  | .loop _ init condition update body => do
      let header := "For " ++ (← init.renderOrEmpty) ++ "; " ++ (← condition.renderOrEmpty) ++ "; "
        ++ (← update.renderOrEmpty)
      return outlineEntry level header :: (← body.outline (level + 1))
  | .tryCatch _ body catches cleanup => do
      let tried ← body.outline (level + 1)
      let caught ← Stmt.outlineAll (level + 1) catches
      let head := outlineEntry level "Try" :: tried ++ caught
      if cleanup.isMissing then return head
      else
        let last ← cleanup.outline (level + 2)
        return head ++ outlineEntry (level + 1) "Finally:" :: last
  | .catchClause _ name type body => do
      let header := "Catch (" ++ (← name.renderBinding) ++ " "
        ++ (if isTyped type then type.getD "" else "any") ++ ")"
      return outlineEntry level header :: (← body.outline (level + 1))
  | s => return [← Stmt.leafEntry level s]

/-- The outlines of the statements in a list, holes left out. -/
def Stmt.outlineChildren (level : Nat) : List Stmt → Except RenderError (List String)
  | [] => return []
  | s :: rest => do
      let first ← if s.isMissing then pure [] else s.outline level
      return first ++ (← Stmt.outlineChildren level rest)

def Stmt.outlineAll (level : Nat) : List Stmt → Except RenderError (List String)
  | [] => return []
  | s :: rest => do
      let first ← s.outline level
      return first ++ (← Stmt.outlineAll level rest)

end

/-- The outline of a tree as one text, or the first thing in it that cannot be shown. -/
def Stmt.outlineText (s : Stmt) : Except RenderError String := do
  return Text.joinWith "\n" (← s.outline 0)

def Program.outline (program : Program) : Except RenderError String := program.toStmt.outlineText

end TryGo

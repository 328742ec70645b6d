import TryGo.Proofs.Layout.Tree
import TryGo.Proofs.Parse.Run
import TryGo.Parse.Type
import TryGo.Parse.Expr

/-! Parsing without positions. A step started in a state without positions ends like the step
started in the state itself, positions apart. `Mirrors` says so of two steps, of which the
second is given what the first is given without positions. -/
namespace TryGo

mutual

def GoType.unplaced : GoType → GoType
  | .named name => .named name
  | .qualified package name => .qualified package name
  | .pointer elem => .pointer elem.unplaced
  | .variadic elem => .variadic elem.unplaced
  | .slice elem => .slice elem.unplaced
  | .array size elem => .array size.unplaced elem.unplaced
  | .map key value => .map key.unplaced value.unplaced
  | .chan elem => .chan elem.unplaced
  | .receiveChan elem => .receiveChan elem.unplaced
  | .interface => .interface
  | .struct => .struct
  | .func params => .func (GoType.allUnplaced params)
  | .funcTo params result => .funcTo (GoType.allUnplaced params) result.unplaced
  | .tuple types => .tuple (GoType.allUnplaced types)

def GoType.allUnplaced : List GoType → List GoType
  | [] => []
  | type :: types => type.unplaced :: GoType.allUnplaced types

end

theorem GoType.allUnplaced_eq_map (types : List GoType) :
    GoType.allUnplaced types = types.map GoType.unplaced := by
  induction types with
  | nil => rfl
  | cons type types ih => rw [GoType.allUnplaced, List.map_cons, ih]

mutual

/-- The text of a type shows no position. -/
@[simp] theorem GoType.text_unplaced : (type : GoType) → type.unplaced.text = type.text
  | .named _ | .qualified _ _ | .interface | .struct => rfl
  | .pointer elem | .variadic elem | .slice elem | .chan elem | .receiveChan elem => by
      rw [GoType.unplaced, GoType.text, elem.text_unplaced, GoType.text]
  | .array size elem => by
      rw [GoType.unplaced, GoType.text, elem.text_unplaced, GoType.text, Token.unplaced]
  | .map key value => by
      rw [GoType.unplaced, GoType.text, key.text_unplaced, value.text_unplaced, GoType.text]
  | .func params | .tuple params => by
      rw [GoType.unplaced, GoType.text, GoType.texts_unplaced params, GoType.text]
  | .funcTo params result => by
      rw [GoType.unplaced, GoType.text, GoType.texts_unplaced params, result.text_unplaced,
        GoType.text]

/-- The texts of types do not depend on places. -/
theorem GoType.texts_unplaced : (types : List GoType) →
    GoType.texts (GoType.allUnplaced types) = GoType.texts types
  | [] => rfl
  | type :: types => by
      rw [GoType.allUnplaced, GoType.texts, type.text_unplaced, GoType.texts_unplaced types,
        GoType.texts]

end

namespace Parse

/-- Data in which positions can be forgotten. -/
class Placed (α : Type) where
  unplaced : α → α

instance : Placed Unit := ⟨id⟩

instance : Placed Bool := ⟨id⟩

instance : Placed Nat := ⟨id⟩

instance : Placed String := ⟨id⟩

instance : Placed Token := ⟨Token.unplaced⟩

instance : Placed GoType := ⟨GoType.unplaced⟩

instance : Placed Expr := ⟨Expr.unplaced⟩

instance : Placed Stmt := ⟨Stmt.unplaced⟩

instance : Placed Program := ⟨Program.unplaced⟩

instance {α : Type} [Placed α] : Placed (List α) := ⟨List.map Placed.unplaced⟩

instance {α : Type} [Placed α] : Placed (Option α) := ⟨Option.map Placed.unplaced⟩

instance {α β : Type} [Placed α] [Placed β] : Placed (α × β) :=
  ⟨Prod.map Placed.unplaced Placed.unplaced⟩

def Cursor.unplaced (cursor : Cursor) : Cursor :=
  ⟨cursor.rest.map Token.unplaced, Position.start⟩

def State.unplaced (s : State) : State :=
  ⟨s.cursor.unplaced, s.reports.map fun report => { report with pos := Position.start },
    s.trailing.map Stmt.unplaced⟩

def unplacedResult {α : Type} [Placed α] :
    EStateM.Result Halt State α → EStateM.Result Halt State α
  | .ok a s => .ok (Placed.unplaced a) s.unplaced
  | .error halt s => .error halt s.unplaced

/-- Whether the second of two steps does without positions what the first does with them. -/
def Mirrors {α : Type} [Placed α] (step mirror : ParseM α) : Prop :=
  ∀ s : State, mirror s.unplaced = unplacedResult (step s)

section Steps

variable {α β : Type} [Placed α] [Placed β] {step mirror : ParseM α} {f g : α → ParseM β}

/-- A value that was read is mirrored if it is the same without places. -/
theorem mirrors_pure {a b : α} (hMirror : b = Placed.unplaced a) : Mirrors (pure a) (pure b) := by
  subst hMirror
  exact fun _ => rfl

/-- A failure mirrors itself, since it names no place. -/
theorem mirrors_throw (halt : Halt) : Mirrors (throw halt : ParseM α) (throw halt) := fun _ => rfl

theorem mirrors_abandon : Mirrors (abandon : ParseM α) abandon := fun _ => rfl

theorem mirrors_outOfFuel : Mirrors (outOfFuel : ParseM α) outOfFuel := fun _ => rfl

/-- Readers that mirror each other may be followed by readers that do. -/
theorem Mirrors.bind (hStep : Mirrors step mirror)
    (hNext : ∀ a, Mirrors (f a) (g (Placed.unplaced a))) :
    Mirrors (step >>= f) (mirror >>= g) := by
  intro s
  rw [bind_run, bind_run, hStep s]
  cases step s with
  | ok a middle => exact hNext a middle
  | error halt middle => rfl

/-- Choices mirror if both arms do. -/
theorem Mirrors.ite {condition : Prop} [Decidable condition] {other image : ParseM α}
    (hThen : Mirrors step mirror) (hElse : Mirrors other image) :
    Mirrors (if condition then step else other) (if condition then mirror else image) := by
  split
  · exact hThen
  · exact hElse

/-- A reader that may be given up is mirrored if what it tries is. -/
theorem Mirrors.attempt (hStep : Mirrors step mirror) :
    Mirrors (attempt step) (attempt mirror) := by
  intro s
  unfold Parse.attempt
  rw [hStep s]
  cases step s with
  | ok a middle => rfl
  | error halt middle => cases halt <;> rfl

/-- Behind the last token stands the end mark, wherever it is. -/
theorem headD_unplaced (tokens : List Token) (pos : Position) :
    (tokens.map Token.unplaced).headD (Token.eof Position.start) =
      (tokens.headD (Token.eof pos)).unplaced := by
  cases tokens <;> rfl

/-- The current token loses its place. -/
theorem cur_unplaced (cursor : Cursor) : cursor.unplaced.cur = cursor.cur.unplaced :=
  headD_unplaced cursor.rest cursor.endPos

/-- So does the next one. -/
theorem peek_unplaced (cursor : Cursor) : cursor.unplaced.peek = cursor.peek.unplaced := by
  rw [Cursor.peek, Cursor.unplaced, ← List.map_tail]
  exact headD_unplaced cursor.rest.tail cursor.endPos

/-- Moving forward does not depend on places. -/
theorem advance_unplaced (cursor : Cursor) :
    cursor.unplaced.advance = cursor.advance.unplaced := by
  rw [Cursor.advance, Cursor.unplaced, ← List.map_tail]
  rfl

/-- What follows a token is given its kind and its literal. -/
theorem Mirrors.token {step mirror : ParseM Token} {f g : Token → ParseM β}
    (hStep : Mirrors step mirror)
    (hNext : ∀ kind literal pos,
      Mirrors (f ⟨kind, literal, pos⟩) (g ⟨kind, literal, Position.start⟩)) :
    Mirrors (step >>= f) (mirror >>= g) :=
  hStep.bind fun token => hNext token.kind token.literal token.pos

theorem mirrors_cur : Mirrors cur cur := by
  intro s
  change EStateM.Result.ok s.cursor.unplaced.cur s.unplaced = _
  rw [cur_unplaced]
  rfl

theorem mirrors_peek : Mirrors peek peek := by
  intro s
  change EStateM.Result.ok s.cursor.unplaced.peek s.unplaced = _
  rw [peek_unplaced]
  rfl

/-- A step forward is the same without places. -/
theorem mirrors_advance : Mirrors advance advance := by
  intro s
  change EStateM.Result.ok () { s.unplaced with cursor := s.cursor.unplaced.advance } = _
  rw [advance_unplaced]
  rfl

/-- A test of the next kind is the same without places. -/
theorem mirrors_peekIs (kind : TokenKind) : Mirrors (peekIs kind) (peekIs kind) :=
  mirrors_peek.bind fun _ => mirrors_pure rfl

/-- A report is the same but for its place. -/
theorem mirrors_report (cause : Cause) : Mirrors (report cause) (report cause) := by
  intro s
  change EStateM.Result.ok () { s.unplaced with
    reports := ⟨s.cursor.unplaced.cur.pos, cause⟩ :: s.unplaced.reports } = _
  rw [cur_unplaced]
  rfl

theorem mirrors_accept (kind : TokenKind) : Mirrors (accept kind) (accept kind) :=
  mirrors_peek.bind fun next => Mirrors.ite
    (mirrors_advance.bind fun _ => mirrors_pure rfl)
    ((mirrors_report (.unexpected kind next.kind)).bind fun _ => mirrors_pure rfl)

theorem mirrors_expect (kind : TokenKind) : Mirrors (expect kind) (expect kind) :=
  (mirrors_accept kind).bind fun _ => Mirrors.ite (mirrors_pure rfl) mirrors_abandon

theorem mirrors_curIdent : Mirrors curIdent curIdent :=
  mirrors_cur.bind fun _ => mirrors_pure rfl

/-- There are as many tokens left without places. -/
theorem mirrors_tokensLeft : Mirrors tokensLeft tokensLeft := by
  intro s
  change EStateM.Result.ok (s.cursor.rest.map Token.unplaced).length s.unplaced = _
  rw [List.length_map]
  rfl

/-- Comments are skipped by their kinds. -/
theorem mirrors_skipComments : Mirrors skipComments skipComments := by
  intro s
  have hTaken :
      (s.cursor.rest.map Token.unplaced).tail.takeWhile (fun token => token.kind.isComment) =
      (s.cursor.rest.tail.takeWhile fun token => token.kind.isComment).map Token.unplaced := by
    rw [← List.map_tail, List.takeWhile_map]
    rfl
  unfold skipComments
  change EStateM.Result.ok _ _ = _
  simp only [State.unplaced, Cursor.unplaced, hTaken, List.length_map, ← List.map_drop]
  rfl

/-- The comments that wait are taken without their places. -/
theorem mirrors_takeTrailing : Mirrors takeTrailing takeTrailing := fun _ => rfl

theorem mirrors_leaveTrailing (comments : List Stmt) :
    Mirrors (leaveTrailing comments) (leaveTrailing (comments.map Stmt.unplaced)) := by
  intro s
  change EStateM.Result.ok () { s.unplaced with
    trailing := s.trailing.map Stmt.unplaced ++ comments.map Stmt.unplaced } = _
  rw [← List.map_append]
  rfl

end Steps

/-! ### Types -/

structure MirrorsTypes (fuel : Nat) : Prop where
  goType : Mirrors (goType fuel) (goType fuel)
  funcType : Mirrors (funcType fuel) (funcType fuel)
  typesUntilParen : Mirrors (typesUntilParen fuel) (typesUntilParen fuel)
  typeList : Mirrors (typeList fuel) (typeList fuel)

/-- One round of reading a type, given that the next ones are mirrored. -/
theorem mirrors_goType_succ {fuel : Nat} (h : MirrorsTypes fuel) :
    Mirrors (goType (fuel + 1)) (goType (fuel + 1)) := by
  have hElem (f : GoType → GoType) (hPlain : ∀ elem, f elem.unplaced = (f elem).unplaced) :
      Mirrors (do advance; return f (← goType fuel)) (do advance; return f (← goType fuel)) :=
    mirrors_advance.bind fun _ => h.goType.bind fun elem => mirrors_pure (hPlain elem)
  refine mirrors_cur.token fun kind literal pos => ?_
  dsimp only
  split
  · refine (mirrors_peekIs .dot).bind fun _ => Mirrors.ite ?_ (mirrors_pure rfl)
    exact mirrors_advance.bind fun _ => (mirrors_expect .ident).bind fun _ =>
      mirrors_cur.bind fun _ => mirrors_pure rfl
  · exact hElem .pointer fun _ => rfl
  · exact hElem .variadic fun _ => rfl
  · refine (mirrors_peekIs .rbracket).bind fun _ => Mirrors.ite ?_ ?_
    · exact mirrors_advance.bind fun _ => hElem .slice fun _ => rfl
    · refine mirrors_advance.bind fun _ => mirrors_cur.bind fun size => ?_
      exact (mirrors_expect .rbracket).bind fun _ => mirrors_advance.bind fun _ =>
        h.goType.bind fun _ => mirrors_pure rfl
  · refine (mirrors_expect .lbracket).bind fun _ => mirrors_advance.bind fun _ => ?_
    exact h.goType.bind fun key => (mirrors_expect .rbracket).bind fun _ =>
      mirrors_advance.bind fun _ => h.goType.bind fun value => mirrors_pure rfl
  · exact hElem .chan fun _ => rfl
  · exact (mirrors_expect .kwChan).bind fun _ => hElem .receiveChan fun _ => rfl
  · exact (mirrors_expect .lbrace).bind fun _ => (mirrors_expect .rbrace).bind fun _ =>
      mirrors_pure rfl
  · exact (mirrors_expect .lbrace).bind fun _ => (mirrors_expect .rbrace).bind fun _ =>
      mirrors_pure rfl
  · exact h.funcType
  · exact (mirrors_report _).bind fun _ => mirrors_abandon

/-- One round of reading the type of a function. -/
theorem mirrors_funcType_succ {fuel : Nat} (h : MirrorsTypes fuel) :
    Mirrors (funcType (fuel + 1)) (funcType (fuel + 1)) := by
  refine (mirrors_expect .lparen).bind fun _ => h.typesUntilParen.bind fun params => ?_
  have hParams : (Placed.unplaced params : List GoType) = GoType.allUnplaced params :=
    (GoType.allUnplaced_eq_map params).symm
  refine mirrors_peek.bind fun next => Mirrors.ite ?_ (Mirrors.ite ?_ ?_)
  · refine mirrors_advance.bind fun _ => h.typesUntilParen.bind fun types => mirrors_pure ?_
    rw [hParams, show (Placed.unplaced types : List GoType) = GoType.allUnplaced types from
      (GoType.allUnplaced_eq_map types).symm]
    rfl
  · refine mirrors_advance.bind fun _ => h.goType.bind fun result => mirrors_pure ?_
    rw [hParams]
    rfl
  · refine mirrors_pure ?_
    rw [hParams]
    rfl

/-- Reading types looks at kinds and literals only. The induction is on the fuel. -/
theorem mirrorsTypes (fuel : Nat) : MirrorsTypes fuel := by
  induction fuel with
  | zero => exact ⟨mirrors_outOfFuel, mirrors_outOfFuel, mirrors_outOfFuel, mirrors_outOfFuel⟩
  | succ fuel ih =>
      refine ⟨mirrors_goType_succ ih, mirrors_funcType_succ ih, ?_, ?_⟩
      · refine (mirrors_peekIs .rparen).bind fun _ => Mirrors.ite ?_ ?_
        · exact mirrors_advance.bind fun _ => mirrors_pure rfl
        · exact ih.typeList.bind fun _ => (mirrors_expect .rparen).bind fun _ => mirrors_pure rfl
      · refine mirrors_advance.bind fun _ => ih.goType.bind fun type => ?_
        refine (mirrors_peekIs .comma).bind fun _ => Mirrors.ite ?_ (mirrors_pure rfl)
        exact mirrors_advance.bind fun _ => ih.typeList.bind fun _ => mirrors_pure rfl

theorem mirrors_readType : Mirrors readType readType :=
  mirrors_tokensLeft.bind fun _ => (mirrorsTypes _).goType

theorem mirrors_readResults : Mirrors readResults readResults :=
  mirrors_tokensLeft.bind fun _ => (mirrorsTypes _).typesUntilParen.bind fun types =>
    mirrors_pure (congrArg GoType.tuple (GoType.allUnplaced_eq_map types).symm)

/-! ### Expressions -/

/-- An integer is read from its literal. -/
theorem mirrors_integerLiteral : Mirrors integerLiteral integerLiteral := by
  refine mirrors_cur.token fun kind literal pos => ?_
  dsimp only
  split
  · exact mirrors_pure rfl
  · exact (mirrors_report _).bind fun _ => mirrors_pure rfl

theorem mirrors_floatLiteral : Mirrors floatLiteral floatLiteral := by
  refine mirrors_cur.token fun kind literal pos => ?_
  dsimp only
  split
  · exact mirrors_pure rfl
  · exact (mirrors_report _).bind fun _ => mirrors_pure rfl

structure MirrorsExprs (fuel : Nat) : Prop where
  expression : ∀ level, Mirrors (expression fuel level) (expression fuel level)
  operators : ∀ level left, Mirrors (operators fuel level left) (operators fuel level left.unplaced)
  arguments : Mirrors (arguments fuel) (arguments fuel)
  expressions : Mirrors (expressions fuel) (expressions fuel)

/-- One round of reading an expression, given that the next ones are mirrored. -/
theorem mirrors_expression_succ {fuel : Nat} (h : MirrorsExprs fuel) (level : Nat) :
    Mirrors (expression (fuel + 1) level) (expression (fuel + 1) level) := by
  refine mirrors_cur.token fun kind literal pos => ?_
  dsimp only
  have hUnary (kind : TokenKind) : Mirrors
      (do
        advance
        let operand ← expression fuel Precedence.unary.level
        operators fuel level (.unary ⟨kind, literal, pos⟩ literal operand))
      (do
        advance
        let operand ← expression fuel Precedence.unary.level
        operators fuel level (.unary ⟨kind, literal, Position.start⟩ literal operand)) :=
    mirrors_advance.bind fun _ => (h.expression _).bind fun operand => h.operators level _
  split
  case h_2 => exact mirrors_integerLiteral.bind fun e => h.operators level e
  case h_3 => exact mirrors_floatLiteral.bind fun e => h.operators level e
  case h_10 | h_11 | h_12 => exact hUnary _
  case h_13 =>
    refine mirrors_advance.bind fun _ => (h.expression _).bind fun inner => ?_
    refine (mirrors_accept .rparen).bind fun closed => ?_
    cases closed with
    | true => exact h.operators level inner
    | false => exact h.operators level .missing
  case h_14 => exact (mirrors_report _).bind fun _ => mirrors_pure rfl
  all_goals exact h.operators level _

/-- One round of reading operators behind an operand. -/
theorem mirrors_operators_succ {fuel : Nat} (h : MirrorsExprs fuel) (level : Nat) (left : Expr) :
    Mirrors (operators (fuel + 1) level left) (operators (fuel + 1) level left.unplaced) := by
  refine mirrors_peek.token fun kind literal pos => Mirrors.ite (mirrors_pure rfl) ?_
  refine mirrors_advance.bind fun _ => ?_
  dsimp only
  split
  · refine h.arguments.bind fun args => ?_
    have hCall := h.operators level (.call ⟨.lparen, literal, pos⟩ left args)
    rw [Expr.unplaced, Expr.allUnplaced_eq_map] at hCall
    exact hCall
  · refine mirrors_advance.bind fun _ => (h.expression _).bind fun position => ?_
    refine (mirrors_accept .rbracket).bind fun closed => ?_
    cases closed with
    | true => exact h.operators level (.index ⟨.lbracket, literal, pos⟩ left position)
    | false => exact h.operators level .missing
  · refine (mirrors_accept .ident).bind fun found => Mirrors.ite ?_ (h.operators level .missing)
    exact mirrors_curIdent.bind fun field =>
      h.operators level (.select ⟨.dot, literal, pos⟩ left field)
  · exact mirrors_advance.bind fun _ => (h.expression _).bind fun right =>
      h.operators level (.binary ⟨kind, literal, pos⟩ left literal right)

theorem mirrors_arguments_succ {fuel : Nat} (h : MirrorsExprs fuel) :
    Mirrors (arguments (fuel + 1)) (arguments (fuel + 1)) := by
  refine (mirrors_peekIs .rparen).bind fun _ => Mirrors.ite ?_ ?_
  · exact mirrors_advance.bind fun _ => mirrors_pure rfl
  · refine mirrors_advance.bind fun _ => h.expressions.attempt.bind fun result => ?_
    cases result with
    | none => exact mirrors_pure rfl
    | some args =>
        refine (mirrors_accept .rparen).bind fun closed => mirrors_pure ?_
        cases closed <;> rfl

theorem mirrors_expressions_succ {fuel : Nat} (h : MirrorsExprs fuel) :
    Mirrors (expressions (fuel + 1)) (expressions (fuel + 1)) := by
  refine (h.expression _).bind fun first => ?_
  have hMissing : (Placed.unplaced first : Expr).isMissing = first.isMissing :=
    first.isMissing_unplaced
  rw [hMissing]
  refine Mirrors.ite mirrors_abandon ?_
  refine (mirrors_peekIs .comma).bind fun _ => Mirrors.ite ?_ (mirrors_pure rfl)
  exact mirrors_advance.bind fun _ => mirrors_advance.bind fun _ => h.expressions.bind fun _ =>
    mirrors_pure rfl

/-- Reading expressions looks at kinds and literals only. The induction is on the fuel. -/
theorem mirrorsExprs (fuel : Nat) : MirrorsExprs fuel := by
  induction fuel with
  | zero =>
      exact ⟨fun _ => mirrors_outOfFuel, fun _ _ => mirrors_outOfFuel, mirrors_outOfFuel,
        mirrors_outOfFuel⟩
  | succ fuel ih =>
      exact ⟨mirrors_expression_succ ih, mirrors_operators_succ ih, mirrors_arguments_succ ih,
        mirrors_expressions_succ ih⟩

theorem mirrors_readExpr : Mirrors readExpr readExpr :=
  mirrors_tokensLeft.bind fun _ => (mirrorsExprs _).expression _

theorem mirrors_readExprs : Mirrors readExprs readExprs :=
  mirrors_tokensLeft.bind fun _ => (mirrorsExprs _).expressions

theorem mirrors_requireExpr : Mirrors requireExpr requireExpr := by
  refine mirrors_readExpr.bind fun e => ?_
  have hMissing : (Placed.unplaced e : Expr).isMissing = e.isMissing := e.isMissing_unplaced
  rw [hMissing]
  exact Mirrors.ite mirrors_abandon (mirrors_pure rfl)

end Parse

end TryGo

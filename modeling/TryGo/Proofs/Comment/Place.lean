import TryGo.Proofs.Phrase.Stmt

/-! Where comments stand: in a tree, and in the tokens of a source. The tokens alone tell which
comments are kept and which braces enclose them, so going over them needs no grammar. -/
namespace TryGo

/-- What lists a comment among its statements: the program, or the block with a given opening
brace. Elsewhere a comment is in no statement list. -/
inductive Place where
  | program
  | block (opening : Token)
  | elsewhere

/-! ### Comments in a tree -/

mutual

/-- The comments of a statement, outer ones before inner ones, each with its place. The statement
itself stands in a given place. -/
def Stmt.comments (place : Place) : Stmt → List (Token × Place)
  | .comment token _ _ => [(token, place)]
  | .block token statements => Stmt.allComments (.block token) statements
  | .program _ statements => Stmt.allComments .program statements
  | .ifElse _ _ consequence alternative =>
      consequence.comments .elsewhere ++ alternative.comments .elsewhere
  | .loop _ init _ update body =>
      init.comments .elsewhere ++ (update.comments .elsewhere ++ body.comments .elsewhere)
  | .func _ _ _ _ _ body | .catchClause _ _ _ body => body.comments .elsewhere
  | .tryCatch _ body catches cleanup =>
      body.comments .elsewhere
        ++ (Stmt.allComments .elsewhere catches ++ cleanup.comments .elsewhere)
  | _ => []

def Stmt.allComments (place : Place) : List Stmt → List (Token × Place)
  | [] => []
  | s :: rest => s.comments place ++ Stmt.allComments place rest

end

/-- The comments of a program in the order of the tree, each with its place. -/
def Program.comments (program : Program) : List (Token × Place) := program.toStmt.comments .elsewhere

/-- Statements in a row keep their comments in a row. -/
theorem Stmt.allComments_append (place : Place) (statements more : List Stmt) :
    Stmt.allComments place (statements ++ more) =
      Stmt.allComments place statements ++ Stmt.allComments place more := by
  induction statements with
  | nil => rfl
  | cons s rest ih => rw [List.cons_append, allComments, allComments, ih, List.append_assoc]

/-- Comments as statements are kept where they stand. -/
theorem Stmt.allComments_commentStmt (place : Place) (comments : List Token) :
    Stmt.allComments place (comments.map Parse.commentStmt) =
      comments.map fun token => (token, place) := by
  induction comments with
  | nil => rfl
  | cons token rest ih => exact congrArg ((token, place) :: ·) ih

/-! ### Comments among tokens -/

/-- What going over tokens remembers: the kind of the token before, whether an import group is
open, and the opening braces of the open blocks, the innermost first. -/
structure Scan where
  previous : TokenKind
  inGroup : Bool
  opened : List Token

/-- The place that some open braces make. -/
def placeIn : List Token → Place
  | [] => .program
  | opening :: _ => .block opening

/-- Whether a kind starts a clause behind the body of a try. -/
def TokenKind.startsClause (kind : TokenKind) : Bool := kind == .kwCatch || kind == .kwFinally

namespace Scan

def start : Scan := ⟨.eof, false, []⟩

/-- Goes over a token. Right behind an opening bracket stands no brace of a block. The token there
may be the size of an array, and that is any token. -/
def after (scan : Scan) (token : Token) : Scan where
  previous := token.kind
  inGroup := (token.kind == .lparen && scan.previous == .kwImport)
    || (scan.inGroup && token.kind != .rparen)
  opened :=
    if scan.previous = .lbracket then scan.opened
    else match token.kind with
      | .lbrace => token :: scan.opened
      | .rbrace => scan.opened.tail
      | _ => scan.opened

/-- Whether a comment is dropped, given the kind of the next token that is no comment: as the
size of an array, inside an import group, and in front of a clause of a try. -/
def drops (scan : Scan) (ahead : TokenKind) : Bool :=
  scan.inGroup || scan.previous == .lbracket || ahead.startsClause

end Scan

/-- The kind of the first token that is no comment, in tokens before one of the given kind. -/
def ahead (final : TokenKind) (tokens : List Token) : TokenKind :=
  kindBefore final (tokens.dropWhile fun token => token.kind.isComment)

/-- The comments among some tokens that are not dropped, each with its place. -/
def keptFrom (final : TokenKind) : Scan → List Token → List (Token × Place)
  | _, [] => []
  | scan, token :: rest =>
      (if token.kind.isComment && !scan.drops (ahead final rest) then
          [(token, placeIn scan.opened)]
        else [])
        ++ keptFrom final (scan.after token) rest

/-- The comments of a source that are not dropped, each with its place. -/
def keptComments (tokens : List Token) : List (Token × Place) := keptFrom .eof .start tokens

section Laws

/-- Looking ahead skips comments. -/
theorem ahead_cons_comment {token : Token} (hComment : token.kind.isComment = true)
    (final : TokenKind) (rest : List Token) : ahead final (token :: rest) = ahead final rest := by
  exact congrArg (kindBefore final) (List.dropWhile_cons_of_pos hComment)

/-- Looking ahead ends at what is no comment. -/
theorem ahead_cons {token : Token} (hOther : token.kind.isComment = false) (final : TokenKind)
    (rest : List Token) : ahead final (token :: rest) = token.kind := by
  have hStop : ¬token.kind.isComment = true := by
    rw [hOther]
    exact Bool.false_ne_true
  exact congrArg (kindBefore final) (List.dropWhile_cons_of_neg hStop)

/-- What comes behind some tokens is what they look ahead to. -/
theorem ahead_append (final : TokenKind) (tokens more : List Token) :
    ahead final (tokens ++ more) = ahead (ahead final more) tokens := by
  induction tokens with
  | nil => rfl
  | cons token rest ih =>
      cases hKind : token.kind.isComment with
      | true => rw [List.cons_append, ahead_cons_comment hKind, ahead_cons_comment hKind, ih]
      | false => rw [List.cons_append, ahead_cons hKind, ahead_cons hKind]

theorem ahead_comments (final : TokenKind) (comments : Comments) :
    ahead final comments.val = final := by
  obtain ⟨tokens, hComments⟩ := comments
  induction tokens with
  | nil => rfl
  | cons token rest ih =>
      rw [List.forall_mem_cons] at hComments
      exact (ahead_cons_comment hComments.1 final rest).trans (ih hComments.2)

/-- What is kept of tokens in a row is kept of each part, which sees what comes behind it. -/
theorem keptFrom_append (final : TokenKind) (scan : Scan) (tokens more : List Token) :
    keptFrom final scan (tokens ++ more) = keptFrom (ahead final more) scan tokens
      ++ keptFrom final (tokens.foldl Scan.after scan) more := by
  induction tokens generalizing scan with
  | nil => rfl
  | cons token rest ih =>
      rw [List.cons_append, keptFrom, ih, keptFrom, ahead_append, List.foldl_cons,
        List.append_assoc]

/-- A token that is no comment is not kept, but may change what encloses the next. -/
theorem keptFrom_cons_other {token : Token} (hOther : token.kind.isComment = false)
    (final : TokenKind) (scan : Scan) (rest : List Token) :
    keptFrom final scan (token :: rest) = keptFrom final (scan.after token) rest := by
  rw [keptFrom, hOther]
  rfl

end Laws

/-! ### Tokens that no comment is kept from -/

/-- Whether a kind is nothing that going over tokens would have to remember longer. -/
def Solid (kind : TokenKind) : Prop := kind ≠ .lbracket ∧ kind ≠ .kwImport

/-- The kinds that neither are comments nor change what encloses a comment. -/
def TokenKind.isInert (kind : TokenKind) : Bool :=
  kind ∉ [.comment, .blockComment, .lbrace, .rbrace, .lbracket, .kwImport]

/-- Whether going over some tokens keeps no comment and comes back to the open blocks. They may
start right behind an opening bracket. -/
def Silent (tokens : List Token) : Prop :=
  ∀ final previous opened, previous ≠ .kwImport →
    keptFrom final ⟨previous, false, opened⟩ tokens = []
      ∧ ∃ last, Solid last
        ∧ tokens.foldl Scan.after ⟨previous, false, opened⟩ = ⟨last, false, opened⟩

/-- Whether going over some tokens inside some open blocks, and before a token of the given kind,
keeps some comments and comes back to the open blocks. -/
def Scans (final : TokenKind) (opened : List Token) (tokens : List Token)
    (kept : List (Token × Place)) : Prop :=
  ∀ previous, Solid previous →
    keptFrom final ⟨previous, false, opened⟩ tokens = kept
      ∧ ∃ last, Solid last
        ∧ tokens.foldl Scan.after ⟨previous, false, opened⟩ = ⟨last, false, opened⟩

section Rules

variable {final : TokenKind} {opened tokens more : List Token} {kept kept' : List (Token × Place)}

theorem TokenKind.isComment_of_isInert {kind : TokenKind} (hInert : kind.isInert = true) :
    kind.isComment = false := by
  cases kind <;> first | rfl | exact absurd hInert (by decide)

theorem Solid.of_isInert {kind : TokenKind} (hInert : kind.isInert = true) : Solid kind := by
  constructor <;> rintro rfl <;> exact absurd hInert (by decide)

/-- An inert token changes nothing but what was seen last. -/
theorem Scan.after_inert {token : Token} (hInert : token.kind.isInert = true)
    {previous : TokenKind} (hPrevious : previous ≠ .kwImport) (opened : List Token) :
    Scan.after ⟨previous, false, opened⟩ token = ⟨token.kind, false, opened⟩ := by
  have hGroup : (token.kind == .lparen && previous == .kwImport) = false := by
    rw [beq_false_of_ne hPrevious, Bool.and_false]
  rw [Scan.after, hGroup]
  congr 1
  split
  · rfl
  · split
    next hBrace => exact absurd hInert (by rw [hBrace]; decide)
    next hBrace => exact absurd hInert (by rw [hBrace]; decide)
    next => rfl

/-- Silent tokens in a row are silent. -/
theorem Silent.append (hTokens : Silent tokens) (hMore : Silent more) : Silent (tokens ++ more) := by
  intro final previous opened hPrevious
  obtain ⟨hKept, last, hLast, hAfter⟩ := hTokens (ahead final more) previous opened hPrevious
  obtain ⟨hKept', last', hLast', hAfter'⟩ := hMore final last opened hLast.2
  refine ⟨?_, last', hLast', ?_⟩
  · rw [keptFrom_append, hKept, hAfter, hKept']
    rfl
  · rw [List.foldl_append, hAfter, hAfter']

theorem silent_token {token : Token} (hInert : token.kind.isInert = true) : Silent [token] := by
  intro final previous opened hPrevious
  have hAfter := Scan.after_inert hInert hPrevious opened
  refine ⟨?_, token.kind, .of_isInert hInert, hAfter⟩
  rw [keptFrom_cons_other (TokenKind.isComment_of_isInert hInert)]
  rfl

theorem Silent.cons {token : Token} (hTokens : Silent tokens)
    (hInert : token.kind.isInert = true) : Silent (token :: tokens) :=
  (silent_token hInert).append hTokens

theorem Silent.mark {kind : TokenKind} (hTokens : Silent tokens) (mark : Mark kind)
    (hInert : kind.isInert = true) : Silent (mark.val :: tokens) :=
  hTokens.cons (by rw [mark.property]; exact hInert)

theorem silent_mark {kind : TokenKind} (mark : Mark kind) (hInert : kind.isInert = true) :
    Silent [mark.val] := silent_token (by rw [mark.property]; exact hInert)

/-- Behind an opening bracket going on is the same, whatever stood before it. -/
theorem Silent.bracket (hTokens : Silent tokens) (opening : Mark .lbracket) :
    Silent (opening.val :: tokens) := by
  intro final previous opened hPrevious
  have hAfter : Scan.after ⟨previous, false, opened⟩ opening.val = ⟨.lbracket, false, opened⟩ := by
    rw [Scan.after, opening.property]
    simp
  obtain ⟨hKept, hLast⟩ := hTokens final .lbracket opened (by decide)
  refine ⟨?_, by rw [List.foldl_cons, hAfter]; exact hLast⟩
  rw [keptFrom_cons_other (by rw [opening.property]; rfl), hAfter, hKept]

/-- Silent tokens keep nothing, wherever they stand. -/
theorem Silent.scans (hTokens : Silent tokens) : Scans final opened tokens [] :=
  fun previous hPrevious => hTokens final previous opened hPrevious.2

theorem scans_nil : Scans final opened [] [] := fun previous hPrevious =>
  ⟨rfl, previous, hPrevious, rfl⟩

/-- What is kept of two parts is kept of both in a row. -/
theorem Scans.append (hTokens : Scans (ahead final more) opened tokens kept)
    (hMore : Scans final opened more kept') : Scans final opened (tokens ++ more) (kept ++ kept') := by
  intro previous hPrevious
  obtain ⟨hKept, last, hLast, hAfter⟩ := hTokens previous hPrevious
  obtain ⟨hKept', last', hLast', hAfter'⟩ := hMore last hLast
  refine ⟨?_, last', hLast', ?_⟩
  · rw [keptFrom_append, hKept, hAfter, hKept']
  · rw [List.foldl_append, hAfter, hAfter']

/-- Tokens without kept comments may stand in front. -/
theorem Silent.before (hTokens : Silent tokens) (hMore : Scans final opened more kept) :
    Scans final opened (tokens ++ more) kept := hTokens.scans.append hMore

theorem Scans.mark {kind : TokenKind} (hTokens : Scans final opened tokens kept)
    (mark : Mark kind) (hInert : kind.isInert = true) :
    Scans final opened (mark.val :: tokens) kept := (silent_mark mark hInert).before hTokens

/-- What is kept between braces is kept with the brace that opens. -/
theorem Scans.braces {opening : Mark .lbrace} {closing : Mark .rbrace}
    (hTokens : Scans .rbrace (opening.val :: opened) tokens kept) :
    Scans final opened (opening.val :: (tokens ++ [closing.val])) kept := by
  intro previous hPrevious
  have hOpen : Scan.after ⟨previous, false, opened⟩ opening.val =
      ⟨.lbrace, false, opening.val :: opened⟩ := by
    simp [Scan.after, opening.property, hPrevious.1]
  obtain ⟨hKept, last, hLast, hAfter⟩ := hTokens .lbrace ⟨by decide, by decide⟩
  have hClose : Scan.after ⟨last, false, opening.val :: opened⟩ closing.val =
      ⟨.rbrace, false, opened⟩ := by
    simp [Scan.after, closing.property, hLast.1]
  have hAhead : ahead final [closing.val] = .rbrace := by
    rw [ahead_cons (by rw [closing.property]; rfl), closing.property]
  refine ⟨?_, .rbrace, ⟨by decide, by decide⟩, ?_⟩
  · rw [keptFrom_cons_other (by rw [opening.property]; rfl), hOpen, keptFrom_append, hAhead,
      hKept, hAfter, keptFrom_cons_other (by rw [closing.property]; rfl)]
    exact List.append_nil kept
  · rw [List.foldl_cons, hOpen, List.foldl_append, hAfter, List.foldl_cons, hClose]
    rfl

theorem Scan.after_comment {token : Token} (hComment : token.kind.isComment = true)
    (previous : TokenKind) (opened : List Token) :
    Scan.after ⟨previous, false, opened⟩ token = ⟨token.kind, false, opened⟩ := by
  rcases TokenKind.cases_of_isComment hComment with hKind | hKind <;> simp [Scan.after, hKind]

theorem Solid.of_isComment {kind : TokenKind} (hComment : kind.isComment = true) : Solid kind := by
  constructor <;> rintro rfl <;> exact absurd hComment (by decide)

/-- Comments in a row are kept one and all or dropped one and all. -/
theorem scans_comments (final : TokenKind) (opened : List Token) (comments : Comments) :
    Scans final opened comments.val
      (if final.startsClause then [] else comments.val.map fun token => (token, placeIn opened)) := by
  obtain ⟨tokens, hComments⟩ := comments
  dsimp only
  induction tokens with
  | nil =>
      rw [List.map_nil, ite_self]
      exact scans_nil
  | cons token rest ih =>
      intro previous hPrevious
      obtain ⟨hToken, hRest⟩ := List.forall_mem_cons.mp hComments
      have hNext := Scan.after_comment hToken previous opened
      have hAhead : ahead final rest = final := ahead_comments final ⟨rest, hRest⟩
      obtain ⟨hKept, last, hLast, hAfter⟩ := ih hRest token.kind (.of_isComment hToken)
      refine ⟨?_, last, hLast, by rw [List.foldl_cons, hNext]; exact hAfter⟩
      rw [keptFrom, hNext, hKept, hAhead, hToken, Scan.drops, beq_false_of_ne hPrevious.1]
      cases final.startsClause <;> rfl

end Rules

end TryGo

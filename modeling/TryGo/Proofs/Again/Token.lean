import Mathlib.Data.List.DropRight
import TryGo.Proofs.Token.Tiling
import TryGo.Proofs.Written.Text
import TryGo.Proofs.Written.Stmt

/-! Tokens that are spelled so that they are read again. A comment ends where its line or its
closing mark does, a quoted literal could be closed, and the size of an array may be one whose
bare literal stands for itself. -/
namespace TryGo

/-! ### Comments and where they end -/

namespace Lexeme

theorem head_blockCommentTail (chars : List Char) :
    (blockCommentTail chars).head? = chars.head? := by
  unfold blockCommentTail
  split <;> rfl

/-- The rest of a block comment is a body without a closing mark, and the mark if there is one. -/
theorem blockCommentTail_cases (chars : List Char) :
    ∃ body, ¬ ['*', '/'] <:+: body
      ∧ (blockCommentTail chars = body ∨ blockCommentTail chars = body ++ ['*', '/']) := by
  fun_induction blockCommentTail chars with
  | case1 => exact ⟨[], by decide, Or.inl rfl⟩
  | case2 => exact ⟨[], by decide, Or.inr rfl⟩
  | case3 c rest hMark ih =>
      obtain ⟨body, hBody, hTail⟩ := ih
      refine ⟨c :: body, fun hInfix => ?_, hTail.imp (congrArg (c :: ·)) (congrArg (c :: ·))⟩
      rcases List.infix_cons_iff.mp hInfix with hPrefix | hInfix
      · obtain ⟨rfl, more, rfl⟩ : c = '*' ∧ ∃ more, body = '/' :: more := by
          obtain ⟨more, hMore⟩ := hPrefix
          cases hMore
          exact ⟨rfl, more, rfl⟩
        have hHead : rest.head? = some '/' := by
          rw [← head_blockCommentTail]
          rcases hTail with hTail | hTail <;> rw [hTail] <;> rfl
        obtain ⟨tail, rfl⟩ := List.head?_eq_some_iff.mp hHead
        exact hMark tail rfl rfl
      · exact hBody hInfix

/-- A body without a closing mark ends at the first mark behind it. -/
theorem blockCommentTail_append (rest : List Char) : (body : List Char) →
    ¬ ['*', '/'] <:+: body →
      blockCommentTail (body ++ '*' :: '/' :: rest) = body ++ ['*', '/']
  | [], _ => rfl
  | c :: body, hBody => by
      have hRest : ¬ ['*', '/'] <:+: body := fun hInfix => hBody (List.infix_cons hInfix)
      rw [List.cons_append, List.cons_append, ← blockCommentTail_append rest body hRest]
      rw [blockCommentTail]
      rintro tail rfl hMark
      cases body with
      | nil => cases hMark
      | cons d more =>
          cases hMark
          exact hBody ⟨[], more, rfl⟩

theorem isComment_word (rest : List Char) : (word rest).kind.isComment = false := by
  have hTable : ∀ kind ∈ wordKinds, kind.isComment = false := by decide
  exact hTable _ (kind_word_mem rest)

theorem isComment_operator (rest : List Char) : (operator rest).kind.isComment = false := by
  have hTable : ∀ kind ∈ operatorKinds, kind.isComment = false := by decide
  exact hTable _ (kind_operator_mem rest)

/-- Only a slash starts a comment. -/
theorem scan_of_isComment {c : Char} {rest : List Char}
    (hComment : (scan (c :: rest)).kind.isComment = true) : scan (c :: rest) = slash rest := by
  have hContra {kind : TokenKind} (hKind : kind.isComment = false) (hTrue : kind.isComment = true) :
      False := Bool.false_ne_true (hKind.symm.trans hTrue)
  rw [scan] at hComment ⊢
  split at hComment
  · exact (hContra (isComment_word _) hComment).elim
  split at hComment
  · rcases kind_number (c :: rest) with hKind | hKind <;> rw [hKind] at hComment <;> cases hComment
  split at hComment
  · cases hComment
  split at hComment
  · cases hComment
  split at hComment
  · cases hComment
  split at hComment
  next hWord hDigit hString hChar hRaw hSlash =>
    rw [if_neg hWord, if_neg hDigit, if_neg hString, if_neg hChar, if_neg hRaw, if_pos hSlash]
  next => exact (hContra (isComment_operator _) hComment).elim

/-- A comment is a line comment up to the end of its line or a block comment. -/
theorem scan_comment_cases {c : Char} {rest : List Char}
    (hComment : (scan (c :: rest)).kind.isComment = true) :
    (∃ line, '\n' ∉ line ∧ scan (c :: rest) = plain .comment ('/' :: '/' :: line))
      ∨ ∃ tail, scan (c :: rest) = plain .blockComment ('/' :: '*' :: blockCommentTail tail) := by
  have hScan := scan_of_isComment hComment
  rw [hScan] at hComment ⊢
  unfold slash at hComment
  split at hComment
  next tail =>
    refine Or.inl ⟨tail.takeWhile (· != '\n'), fun hMem => ?_, rfl⟩
    simpa using List.mem_takeWhile_imp hMem
  next tail => exact Or.inr ⟨tail, rfl⟩
  next => exact absurd ((isComment_operator _).symm.trans hComment) Bool.false_ne_true

end Lexeme

/-- Whether a token is spelled so that it is read again: its literal is one that its kind can
have, a quoted literal could be closed, and a comment ends where its line or its mark does. -/
structure Token.Sound (token : Token) : Prop where
  lexed : token.Lexed
  closed : token.isClosed = true
  line : token.kind = .comment → '\n' ∉ token.literal.toList
  block : token.kind = .blockComment → ∃ body, ¬ ['*', '/'] <:+: body
    ∧ (token.literal.toList = '/' :: '*' :: body
      ∨ token.literal.toList = '/' :: '*' :: (body ++ ['*', '/']))

def AllSound (tokens : List Token) : Prop := ∀ token ∈ tokens, token.Sound

@[simp] theorem allSound_nil : AllSound [] := fun _ hMem => absurd hMem List.not_mem_nil

@[simp] theorem allSound_cons {token : Token} {tokens : List Token} :
    AllSound (token :: tokens) ↔ token.Sound ∧ AllSound tokens := List.forall_mem_cons

@[simp] theorem allSound_append {tokens more : List Token} :
    AllSound (tokens ++ more) ↔ AllSound tokens ∧ AllSound more := List.forall_mem_append

theorem AllSound.lexed {tokens : List Token} (hSound : AllSound tokens) : AllLexed tokens :=
  fun token hMem => (hSound token hMem).lexed

/-- Comments of a text end where they should. -/
theorem Lexer.sound (lexer : Lexer) (hClosed : ∀ token ∈ lexer.words, token.isClosed = true) :
    AllSound lexer.words := by
  intro token hMem
  have hLexed := lexer.lexed token hMem
  have hTokenClosed := hClosed token hMem
  obtain ⟨pos, c, rest, -, rfl⟩ := lexer.exists_scan token hMem
  refine ⟨hLexed, hTokenClosed, fun hKind => ?_, fun hKind => ?_⟩
  · change (Lexeme.scan (c :: rest)).kind = .comment at hKind
    rcases Lexeme.scan_comment_cases (by rw [hKind]; rfl) with ⟨line, hLine, hScan⟩ | ⟨tail, hScan⟩
    · rw [hScan]
      simpa [Lexeme.token, Lexeme.plain] using hLine
    · rw [hScan] at hKind
      cases hKind
  · change (Lexeme.scan (c :: rest)).kind = .blockComment at hKind
    rcases Lexeme.scan_comment_cases (by rw [hKind]; rfl) with ⟨line, -, hScan⟩ | ⟨tail, hScan⟩
    · rw [hScan] at hKind
      cases hKind
    · rw [hScan]
      obtain ⟨body, hBody, hTail⟩ := Lexeme.blockCommentTail_cases tail
      refine ⟨body, hBody, hTail.imp (fun hTail => ?_) fun hTail => ?_⟩ <;>
        simp [Lexeme.token, Lexeme.plain, hTail]

/-! ### The text of a comment -/

/-- A line comment is divided off from the end of its line. -/
theorem spellings_lineComment {text : List Char} (hLine : '\n' ∉ text) (rest : List Char) :
    spellings ('/' :: '/' :: text ++ '\n' :: rest) =
      (.comment, String.ofList ('/' :: '/' :: text)) :: spellings rest := by
  have hTaken : (text ++ '\n' :: rest).takeWhile (· != '\n') = text := by
    have hAll : ∀ c ∈ text, (c != '\n') = true := by
      intro c hMem
      rw [bne_iff_ne]
      rintro rfl
      exact hLine hMem
    rw [List.takeWhile_append_of_pos hAll]
    simp
  have hScan : Lexeme.scan ('/' :: '/' :: text ++ '\n' :: rest) =
      Lexeme.plain .comment ('/' :: '/' :: text) := by
    change Lexeme.plain .comment ('/' :: '/' :: (text ++ '\n' :: rest).takeWhile (· != '\n')) = _
    rw [hTaken]
  rw [spellings_plain _ .comment rfl hScan, spellings_blank (by decide)]

/-- A block comment is divided off at its closing mark. -/
theorem spellings_blockComment {body : List Char} (hBody : ¬ ['*', '/'] <:+: body)
    (rest : List Char) :
    spellings ('/' :: '*' :: (body ++ ['*', '/']) ++ rest) =
      (.blockComment, String.ofList ('/' :: '*' :: (body ++ ['*', '/']))) :: spellings rest := by
  refine spellings_plain _ .blockComment rfl ?_
  change Lexeme.plain .blockComment
    ('/' :: '*' :: Lexeme.blockCommentTail ((body ++ ['*', '/']) ++ rest)) = _
  rw [List.append_assoc, List.cons_append, List.singleton_append,
    Lexeme.blockCommentTail_append rest body hBody]

theorem Text.trimRight_prefix (text : List Char) : Text.trimRight text <+: text := by
  rw [Text.trimRight, ← List.reverse_suffix, List.reverse_reverse]
  exact List.dropWhile_suffix _

theorem Text.trim_infix (text : List Char) : Text.trim text <:+: text :=
  (Text.trimRight_prefix _).isInfix.trans (List.dropWhile_suffix _).isInfix

/-- Trimming a second time changes nothing. -/
theorem Text.trim_trim (text : List Char) : Text.trim (Text.trim text) = Text.trim text := by
  have hLeft : (Text.trim text).dropWhile Text.isSpace = Text.trim text := by
    cases hTrim : Text.trim text with
    | nil => rfl
    | cons c rest =>
        obtain ⟨more, hMore⟩ := Text.trimRight_prefix (text.dropWhile Text.isSpace)
        change Text.trim text ++ more = _ at hMore
        rw [hTrim, List.cons_append] at hMore
        have hHead : Text.isSpace c = false := by
          have hNot := List.head?_dropWhile_not Text.isSpace text
          rw [← hMore] at hNot
          simpa using hNot
        rw [List.dropWhile_cons, if_neg (by rw [hHead]; exact Bool.false_ne_true)]
  rw [Text.trim, hLeft, Text.trim, Text.trimRight, Text.trimRight, List.reverse_reverse,
    List.dropWhile_idempotent]

/-- The text of a comment token where it is printed. -/
def Token.commentCode (token : Token) : String :=
  commentText (Parse.commentContent token) (token.kind == .blockComment)

def Token.printedComment (token : Token) : Token := { token with literal := token.commentCode }

section Comments

variable {token : Token}

theorem Token.Sound.commentContent_line (hSound : token.Sound) (hKind : token.kind = .comment) :
    '\n' ∉ (Parse.commentContent token).toList := by
  obtain ⟨inner, hInner⟩ := hSound.lexed.line hKind
  have hContent : (Parse.commentContent token).toList = inner := by
    unfold Parse.commentContent
    rw [hKind, ← hInner]
    simp [List.isPrefixOf]
  have hLine := hSound.line hKind
  rw [← hInner] at hLine
  rw [hContent]
  exact fun hMem => hLine (List.mem_append_right _ hMem)

/-- The content of a block comment is trimmed and has no closing mark in it. -/
theorem Token.Sound.commentContent_block (hSound : token.Sound)
    (hKind : token.kind = .blockComment) :
    Text.trim (Parse.commentContent token).toList = (Parse.commentContent token).toList
      ∧ ¬ ['*', '/'] <:+: (Parse.commentContent token).toList := by
  obtain ⟨body, hBody, hLiteral⟩ := hSound.block hKind
  have hContent : (Parse.commentContent token).toList = Text.trim body := by
    unfold Parse.commentContent
    rw [hKind]
    rcases hLiteral with hLiteral | hLiteral
    · have hOpen : ['*', '/'].isSuffixOf body = false := by
        rw [Bool.eq_false_iff]
        exact fun hSuffix => hBody (List.isSuffixOf_iff_suffix.mp hSuffix).isInfix
      simp [hLiteral, List.isPrefixOf, hOpen]
    · have hClosed : ['*', '/'].isSuffixOf (body ++ ['*', '/']) = true :=
        List.isSuffixOf_iff_suffix.mpr (List.suffix_append _ _)
      simp [hLiteral, List.isPrefixOf, hClosed]
  rw [hContent]
  exact ⟨Text.trim_trim body, fun hInfix => hBody (hInfix.trans (Text.trim_infix body))⟩

/-- The content of a comment is the same where it is printed. -/
theorem Token.Sound.commentContent_printedComment (hSound : token.Sound)
    (hComment : token.kind.isComment = true) :
    Parse.commentContent token.printedComment = Parse.commentContent token := by
  rcases TokenKind.cases_of_isComment hComment with hKind | hKind
  · refine TryGo.commentContent_line hKind ?_
    rw [Token.printedComment, Token.commentCode, hKind]
    rfl
  · refine TryGo.commentContent_block hKind ?_ (hSound.commentContent_block hKind).1
    rw [Token.printedComment, Token.commentCode, hKind]
    rfl

/-- A printed comment is divided off from the end of its line. -/
theorem Token.Sound.spellings_comment (hSound : token.Sound)
    (hComment : token.kind.isComment = true) (rest : List Char) :
    spellings (token.commentCode.toList ++ '\n' :: rest) =
      token.printedComment.spelling :: spellings rest := by
  rcases TokenKind.cases_of_isComment hComment with hKind | hKind
  · have hText : token.commentCode.toList = '/' :: '/' :: (Parse.commentContent token).toList := by
      rw [Token.commentCode, hKind]
      simp [commentText]
    rw [hText, spellings_lineComment (hSound.commentContent_line hKind), ← hText,
      String.ofList_toList, ← hKind]
    rfl
  · have hText : token.commentCode.toList =
        '/' :: '*' :: ((' ' :: ((Parse.commentContent token).toList ++ [' '])) ++ ['*', '/']) := by
      rw [Token.commentCode, hKind]
      simp [commentText]
    have hBody : ¬ ['*', '/'] <:+: ' ' :: ((Parse.commentContent token).toList ++ [' ']) := by
      intro hInfix
      rcases List.infix_cons_iff.mp hInfix with ⟨more, hMore⟩ | hInfix
      · cases hMore
      rcases List.infix_concat_iff.mp hInfix with ⟨front, hFront⟩ | hInfix
      · have hLast := congrArg List.getLast? hFront
        simp at hLast
      · exact (hSound.commentContent_block hKind).2 hInfix
    rw [hText, spellings_blockComment hBody, ← hText, spellings_blank (by decide),
      String.ofList_toList, ← hKind]
    rfl

end Comments

/-! ### Numbers in front of a sign -/

theorem endsInMark_of_forall {chars : List Char}
    (hChars : ∀ c ∈ chars, c.isDigit = true ∨ c = '.') : endsInMark chars = false := by
  rw [endsInMark]
  cases hLast : chars.getLast? with
  | none => rfl
  | some c =>
      rw [Option.any_some, Bool.eq_false_iff]
      intro hMark
      rcases hChars c (List.mem_of_getLast? hLast) with hDigit | rfl
      · rcases (by simpa using hMark : c = 'e' ∨ c = 'E') with rfl | rfl <;>
          exact absurd hDigit (by decide)
      · cases hMark

theorem endsInMark_append {back : List Char} (hBack : back ≠ []) (front : List Char) :
    endsInMark (front ++ back) = endsInMark back := by
  rw [endsInMark, endsInMark, List.getLast?_append_of_ne_nil front hBack]

/-- An exponent with a value has a digit at its end. -/
theorem endsInMark_of_exponentValue? {power : List Char} {value : Int}
    (hValue : Number.Binary64.exponentValue? power = some value) :
    power ≠ [] ∧ endsInMark power = false := by
  have hDigits {digits : List Char} {n : Nat}
      (hClass : Number.classValue? 10 Char.isDigit digits = some n) :
      digits ≠ [] ∧ endsInMark digits = false := by
    unfold Number.classValue? at hClass
    split at hClass
    next hAll =>
      rw [Bool.and_eq_true, Bool.not_eq_true', List.isEmpty_eq_false_iff] at hAll
      exact ⟨hAll.1, endsInMark_of_forall fun c hMem =>
        Or.inl (List.all_eq_true.mp hAll.2 c hMem)⟩
    next => cases hClass
  unfold Number.Binary64.exponentValue? at hValue
  split at hValue <;>
    obtain ⟨_, hBind, -⟩ := Option.map_eq_some_iff.mp hValue <;>
    obtain ⟨n, hClass, -⟩ := Option.bind_eq_some_iff.mp hBind
  case h_3 => exact hDigits hClass
  all_goals
    obtain ⟨hSome, hEnd⟩ := hDigits hClass
    exact ⟨List.cons_ne_nil _ _, (endsInMark_append hSome [_]).trans hEnd⟩

/-- A literal with a value ends in no exponent mark, so a sign behind it is not its own. -/
theorem endsInMark_of_ofLiteral? {literal : List Char} {value : Number.Binary64}
    (hValue : Number.Binary64.ofLiteral? literal = some value) : endsInMark literal = false := by
  have hDigits (chars : List Char) : ∀ c ∈ chars.takeWhile Char.isDigit,
      c.isDigit = true ∨ c = '.' :=
    fun c hMem => Or.inl (List.all_eq_true.mp List.all_takeWhile c hMem)
  -- What stands in front of the exponent has digits and a point only.
  have hFront : ∃ front, (∀ c ∈ front, c.isDigit = true ∨ c = '.') ∧ literal = front ++
      (if (literal.dropWhile Char.isDigit).head? = some '.' then
        ((literal.dropWhile Char.isDigit).drop 1).dropWhile Char.isDigit
      else literal.dropWhile Char.isDigit) := by
    split
    next hPoint =>
      obtain ⟨tail, hTail⟩ := List.head?_eq_some_iff.mp hPoint
      refine ⟨literal.takeWhile Char.isDigit ++ '.' :: tail.takeWhile Char.isDigit, ?_, ?_⟩
      · intro c hMem
        rcases List.mem_append.mp hMem with hMem | hMem
        · exact hDigits literal c hMem
        · exact (List.mem_cons.mp hMem).elim Or.inr (hDigits tail c)
      · rw [hTail, List.drop_succ_cons, List.drop_zero, List.append_assoc, List.cons_append,
          List.takeWhile_append_dropWhile, ← hTail, List.takeWhile_append_dropWhile]
    next =>
      exact ⟨literal.takeWhile Char.isDigit, hDigits literal,
        List.takeWhile_append_dropWhile.symm⟩
  obtain ⟨front, hChars, hLiteral⟩ := hFront
  simp only [Number.Binary64.ofLiteral?] at hValue
  split at hValue
  next hNone =>
    rw [hNone, List.append_nil] at hLiteral
    rw [hLiteral]
    exact endsInMark_of_forall hChars
  next mark power hSome =>
    obtain ⟨n, hPower, -⟩ := Option.map_eq_some_iff.mp hValue
    obtain ⟨hNonempty, hEnd⟩ := endsInMark_of_exponentValue? hPower
    rw [hSome, ← List.singleton_append, ← List.append_assoc] at hLiteral
    rw [hLiteral, endsInMark_append hNonempty, hEnd]

/-! ### The size of an array -/

/-- Whether the bare literal of a token is read as one token in front of a closing bracket. A type
keeps of the size of an array no more than its literal, so the marks of a string or a character
are lost, and a line comment is not ended. -/
def Token.StandsBare (size : Token) : Prop :=
  ∃ kind : TokenKind, kind ≠ .rbracket ∧ ∀ rest,
    spellings (size.literal.toList ++ ']' :: rest) =
      (kind, size.literal) :: (.rbracket, "]") :: spellings rest

/-- Integers stand bare. -/
theorem standsBare_int {size : Token} (hNumber : isNumber .int size.literal = true) :
    size.StandsBare := by
  refine ⟨.int, by decide, fun rest => ?_⟩
  rw [spellings_number hNumber (breaks_ender (by decide) rest),
    spellings_delimiter .rbracket (by decide)]

end TryGo

import TryGo.Transpile
import TryGo.Tree.Outline

/-! Sessions in which a lexer and a parser are driven step by step. A parser reads two
tokens ahead from the lexer it was made on, and shares that lexer with the session until
another source is loaded. A token that the session takes from a shared lexer is therefore
lost to the parser. -/
namespace TryGo

/-- A parser between two steps: the tokens that it has read ahead, at most two, its lexer
if the session has gone on to another one, and what parsing carries along. -/
structure SessionParser where
  ahead : List Token
  ownLexer : Option Lexer
  reports : List Diagnostic
  trailing : List Stmt

structure Session where
  lexer : Lexer
  parser : Option SessionParser
  program : Option Program

namespace Session

inductive Step where
  | next
  | all
  | take (count : Nat)
  | load (source : String)
  | newParser
  | parse
  | errors
  | generate
  | outline

inductive Answer where
  | token (token : Token)
  | tokens (tokens : List Token)
  | nothing
  | messages (messages : List String)
  | parsed (token : Token) (texts : List String)
  | text (text : String)
  | crash (crash : Crash)

def start (source : String) : Session := ⟨Lexer.ofString source, none, none⟩

/-- The lexer after a number of tokens were taken from it. Taking the end mark moves it past
the last blanks. -/
def afterTokens (lexer : Lexer) (count : Nat) : Lexer :=
  if lexer.words.length < count then lexer.exhausted else lexer.skip count

/-- Lets the parser read the rest of its source. A parser stands two tokens ahead of what
it has used, which tells how far its lexer has come. -/
def runParser (lexer : Lexer) (parser : SessionParser) :
    Except Parse.Halt Program × Lexer × SessionParser :=
  let words := lexer.words
  let start : Parse.State :=
    ⟨⟨parser.ahead ++ words, lexer.endPos⟩, parser.reports, parser.trailing⟩
  let (result, s) : Except Parse.Halt Program × Parse.State :=
    match Parse.readProgram start with
    | .ok program s => (.ok program, s)
    | .error halt s => (.error halt, s)
  let left := s.cursor.rest
  let lexer :=
    if left.length < 2 then lexer.exhausted
    else lexer.skip (words.length - (left.length - 2))
  (result, lexer,
    { parser with ahead := left.take 2, reports := s.reports, trailing := s.trailing })

/-- The debugging forms of some statements, unless one of them has none. -/
def renderAll (statements : List Stmt) : Except RenderError (List String) :=
  statements.mapM Stmt.render

/-- What a parse answers, and the program to remember. -/
def parseAnswer : Except Parse.Halt Program → Answer × Option Program
  | .error halt => (.crash (Crash.ofHalt halt), none)
  | .ok program =>
      match renderAll program.statements with
      | .ok texts => (.parsed program.token texts, some program)
      | .error error => (.crash (.render error), some program)

/-- One step. A step that needs a parser or a program answers nothing when there is none. -/
def step (session : Session) : Step → Answer × Session
  | .next =>
      let (token, lexer) := session.lexer.next
      (.token token, { session with lexer := lexer })
  | .all => (.tokens session.lexer.tokens, { session with lexer := session.lexer.exhausted })
  | .take count =>
      (.tokens (session.lexer.tokens.take count),
        { session with lexer := afterTokens session.lexer count })
  | .load source =>
      let keep (parser : SessionParser) : SessionParser :=
        { parser with ownLexer := some (parser.ownLexer.getD session.lexer) }
      (.nothing,
        { session with lexer := Lexer.ofString source, parser := session.parser.map keep })
  | .newParser =>
      let ahead := session.lexer.words.take 2
      (.messages [],
        { session with
          lexer := afterTokens session.lexer 2
          parser := some ⟨ahead, none, [], []⟩ })
  | .parse =>
      match session.parser with
      | none => (.nothing, session)
      | some parser =>
          let (result, lexer, parser) :=
            runParser (parser.ownLexer.getD session.lexer) parser
          let (answer, program) := parseAnswer result
          let program := program.orElse fun _ => session.program
          match parser.ownLexer with
          | some _ =>
              (answer, { session with
                parser := some { parser with ownLexer := some lexer }, program := program })
          | none =>
              (answer, { session with lexer := lexer, parser := some parser, program := program })
  | .errors =>
      match session.parser with
      | none => (.nothing, session)
      | some parser => (.messages (parser.reports.reverse.map Diagnostic.message), session)
  | .generate =>
      match session.program.map Program.goSource with
      | none => (.nothing, session)
      | some (.ok text) => (.text text, session)
      | some (.error fault) => (.crash (.lowering fault), session)
  | .outline =>
      match session.program.map Program.outline with
      | none => (.nothing, session)
      | some (.ok text) => (.text text, session)
      | some (.error error) => (.crash (.render error), session)

/-- Runs steps and collects their answers, each with the lexer's position after it. -/
def run (session : Session) : List Step → List (Answer × Position)
  | [] => []
  | step :: rest =>
      let (answer, session) := session.step step
      (answer, session.lexer.pos) :: session.run rest

end Session

end TryGo

import TryGo.Go.Expr

/-! The lines of the Go source that is produced. A line is a depth and what it says, and its
text follows from the two. Keeping what a line says lets one speak of the values it returns
or the names it declares without reading text. -/
namespace TryGo.Go

/-- What a line says. Expressions and types are texts. Lines that open a block end in a
brace, and `close` ends every one of them but an import group and a closure. -/
inductive Code where
  | blank
  | package (name : String)
  | importPath (path : String)
  | importOpen
  | groupedPath (path : String)
  | importClose
  | funcOpen (signature : String)
  | decl (kind : DeclKind) (name : String) (type : Option String) (value : Option String)
  | define (names : List String) (values : List String)
  | assign (targets : List String) (op : String) (values : List String)
  | incr (target op : String)
  | expr (value : String)
  | ret (values : List String)
  | throwReturn (zeros : List String) (value : String)
  | blockOpen
  | ifOpen (chained : Bool) (condition : String)
  | elseOpen
  | forOpen (header : String)
  | close
  | comment (text : String) (multiline : Bool)
  | branch (keyword : String)
  | tryOpen (reuse : Bool)
  | tryClose
  | discardErr
  | errCheck
  | catchOpen (chained : Bool) (binding : String) (type : String)
  | bindErr (name : String)
  | use (name : String)
  | unsupported (kind : NodeKind)
deriving DecidableEq

namespace Code

/-- The expression that a thrown value becomes. -/
def thrownError (value : String) : String :=
  "errors.New(fmt.Sprintf(\"%v\", " ++ value ++ "))"

def returnText : List String → String
  | [] => "return"
  | values => "return " ++ Text.commaSeparated values

/-- The text of a line without its indentation. -/
def text : Code → String
  | .blank => ""
  | .package name => "package " ++ name
  | .importPath path => "import \"" ++ path ++ "\""
  | .importOpen => "import ("
  | .groupedPath path => "\"" ++ path ++ "\""
  | .importClose => ")"
  | .funcOpen signature => "func " ++ signature ++ " \x7b"
  | .decl kind name type value =>
      kind.keyword ++ " " ++ name ++ typeSuffix type
        ++ (match value with
            | none => ""
            | some value => " = " ++ value)
  | .define names values => Text.commaSeparated names ++ " := " ++ Text.commaSeparated values
  | .assign targets op values =>
      Text.commaSeparated targets ++ " " ++ op ++ " " ++ Text.commaSeparated values
  | .incr target op => target ++ op
  | .expr value => value
  | .ret values => returnText values
  | .throwReturn zeros value => returnText (zeros ++ [thrownError value])
  | .blockOpen => "\x7b"
  | .ifOpen chained condition =>
      (if chained then "\x7d else " else "") ++ "if " ++ condition ++ " \x7b"
  | .elseOpen => "\x7d else \x7b"
  | .forOpen header => header ++ " \x7b"
  | .close => "\x7d"
  | .comment text multiline => commentText text multiline
  | .branch keyword => keyword
  | .tryOpen reuse => "err " ++ (if reuse then "=" else ":=") ++ " func() error \x7b"
  | .tryClose => "\x7d()"
  | .discardErr => "_ = err"
  | .errCheck => "if err != nil \x7b"
  | .catchOpen chained binding type =>
      (if chained then "\x7d else " else "") ++ "if " ++ binding ++ ", ok := err.(" ++ type
        ++ "); ok \x7b"
  | .bindErr name => name ++ " := err"
  | .use name => "_ = " ++ name
  | .unsupported kind => placeholder kind

/-- The names that a line adds to the block it stands in. -/
def declares : Code → List String
  | .decl _ name _ _ => [name]
  | .define names _ => names
  | .tryOpen _ => ["err"]
  | .bindErr name => [name]
  | _ => []

end Code

/-- A line of Go source. -/
structure Line where
  depth : Nat
  code : Code
deriving DecidableEq

namespace Line

/-- A line with a tab for each level. A line without text has no tabs either. -/
def text (line : Line) : String :=
  if line.code.text == "" then "" else Text.repeated "\t" line.depth ++ line.code.text

end Line

/-- The source that some lines make up. Every line ends in a newline. -/
def sourceText (lines : List Line) : String :=
  Text.concat (lines.map fun line => line.text ++ "\n")

end TryGo.Go

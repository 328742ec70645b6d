import TryGo.Main
import TryGo.Proofs.Go.Expr
import TryGo.Proofs.Parse.Expr
import TryGo.Proofs.Parse.Program
import TryGo.Proofs.Parse.Run
import TryGo.Proofs.Parse.Simple
import TryGo.Proofs.Parse.Stmt
import TryGo.Proofs.Parse.StmtSound
import TryGo.Proofs.Parse.Type
import TryGo.Proofs.PassThrough.Simple
import TryGo.Proofs.PassThrough.Stmt
import TryGo.Proofs.PassThrough.Text
import TryGo.Proofs.Phrase.Expr
import TryGo.Proofs.Phrase.Leaf
import TryGo.Proofs.Phrase.Stmt
import TryGo.Proofs.Phrase.Type
import TryGo.Proofs.Token.Literal
import TryGo.Proofs.Token.Spelling
import TryGo.Proofs.Tree.Erase
import TryGo.Proofs.Written.Expr
import TryGo.Proofs.Written.Stmt
import TryGo.Proofs.Written.Text
import TryGo.Proofs.Written.Type
import TryGo.Session
import TryGo.Tree.Same
import TryGo.Tree.Walk
import TryGo.Proofs.GoReading.Faithful
import TryGo.Proofs.GoReading.Meaning
import TryGo.Proofs.PassThrough.Program
import TryGo.Proofs.Gate.Complete
import TryGo.Proofs.Gate.Shape
import TryGo.Proofs.Token.Tiling
import TryGo.Proofs.Gate.Lowering
import TryGo.Proofs.GoType.Results
import TryGo.Proofs.Arity.Uses
import TryGo.Proofs.Arity.Lowering
import TryGo.Proofs.Layout.Run
import TryGo.Proofs.Layout.Stmt
import TryGo.Proofs.Layout.Lowering
import TryGo.Proofs.Layout.Program
import TryGo.Proofs.Token.Place
import TryGo.Proofs.Progress.Forward
import TryGo.Proofs.Progress.Rounds
import TryGo.Proofs.Progress.Fuel
import TryGo.Proofs.Progress.Program
import TryGo.Proofs.Parse.Exact
import TryGo.Proofs.Declare.Lowering
import TryGo.Proofs.Parse.Sequence
import TryGo.Proofs.Imports.Lowering
import TryGo.Proofs.Comment.Program
import TryGo.Proofs.Again.Program
import TryGo.Proofs.Alone.Program
import TryGo.Proofs.Collect.Sorted
import TryGo.Proofs.Go.Spine
import TryGo.Proofs.Alone.Neutral
import TryGo.Proofs.Pool.Settled
import TryGo.Proofs.Command.Frame
import TryGo.Proofs.Token.Grammar
import TryGo.Proofs.Token.Newline
import TryGo.Proofs.Token.Rejoin
import TryGo.Proofs.Misname.Program
import TryGo.Proofs.GoType.Declared
import TryGo.Proofs.Return.Ending
import TryGo.Proofs.Reuse.Lowering
import TryGo.Proofs.Catch.Chain
import TryGo.Proofs.Search.Walk
import TryGo.Proofs.GoType.Zero
import TryGo.Proofs.Again.Quoted
import TryGo.Proofs.Imports.Added
import TryGo.Proofs.Parse.Numeral
import TryGo.Proofs.Written.Debug
import TryGo.Proofs.Written.Necessary

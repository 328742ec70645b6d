import TryGo.Proofs.Gate.Lowering
import TryGo.Proofs.PassThrough.Plain
import TryGo.Proofs.Step.Account

/-! The lines of a program without a try or a throw. They follow from its tree alone: the state of
the lowering has no say in them but for the depth. -/
namespace TryGo

mutual

/-- The lines of a statement without a try or a throw, at a depth. -/
def Stmt.lines : Stmt → Nat → List Go.Line
  | .package _ name, depth => [⟨depth, .package name⟩]
  | .imports _ paths, depth => importCode depth paths
  | .func _ name params types result body, depth =>
      ⟨depth, .funcOpen (signatureText name params types result)⟩
        :: (body.bodyLines (depth + 1) ++ [⟨depth, .close⟩])
  | .ret _ values, depth => [⟨depth, .ret (values.map Expr.go)⟩]
  | .block _ statements, depth =>
      ⟨depth, .blockOpen⟩ :: (Stmt.allLines statements (depth + 1) ++ [⟨depth, .close⟩])
  | .ifElse _ condition consequence alternative, depth =>
      ⟨depth, .ifOpen false condition.go⟩
        :: (consequence.bodyLines (depth + 1) ++ alternative.elseLines depth)
  | .loop _ init condition update body, depth =>
      ⟨depth, .forOpen (loopText init condition update)⟩
        :: (body.bodyLines (depth + 1) ++ [⟨depth, .close⟩])
  | .comment _ text multiline, depth => [⟨depth, .comment text multiline⟩]
  | .branch token, depth => [⟨depth, .branch (token.kind.keyword?.getD "")⟩]
  | .decl token kind name type value, depth =>
      [⟨depth, Lower.simpleCode (.decl token kind name type value)⟩]
  | .define token names values, depth => [⟨depth, Lower.simpleCode (.define token names values)⟩]
  | .assign token targets op values, depth =>
      [⟨depth, Lower.simpleCode (.assign token targets op values)⟩]
  | .incr token target op, depth => [⟨depth, Lower.simpleCode (.incr token target op)⟩]
  | .expr token value, depth => [⟨depth, Lower.simpleCode (.expr token value)⟩]
  | s, depth => [⟨depth, .unsupported s.kind⟩]

def Stmt.allLines : List Stmt → Nat → List Go.Line
  | [], _ => []
  | s :: rest, depth => s.lines depth ++ Stmt.allLines rest depth

def Stmt.bodyLines : Stmt → Nat → List Go.Line
  | .block _ statements, depth => Stmt.allLines statements depth
  | _, _ => []

/-- The lines behind the consequence of a conditional. -/
def Stmt.elseLines : Stmt → Nat → List Go.Line
  | .ifElse _ condition consequence alternative, depth =>
      ⟨depth, .ifOpen true condition.go⟩
        :: (consequence.bodyLines (depth + 1) ++ alternative.elseLines depth)
  | .block _ statements, depth =>
      ⟨depth, .elseOpen⟩ :: (Stmt.allLines statements (depth + 1) ++ [⟨depth, .close⟩])
  | _, depth => [⟨depth, .close⟩]

end

/-- The lines of top-level statements with the blank lines between them. -/
def Stmt.topLines : Option Stmt → List Stmt → Nat → List Go.Line
  | _, [], _ => []
  | previous, s :: rest, depth =>
      (if (previous.map fun p => Lower.needsBlankLine p s).getD false then [⟨depth, .blank⟩]
        else []) ++ (s.lines depth ++ Stmt.topLines (some s) rest depth)

/-- The lines of a program without a try or a throw. -/
def Program.lines (program : Program) : List Go.Line := Stmt.topLines none program.statements 0

namespace Lower

/-- The lines themselves, as they are at the depth where they are added, in functions whose results
stay as declared. -/
def lineAccount : Account (Nat → List Go.Line) where
  Covers _ frame := (frame.map Frame.augmented).getD false = false
  Amounts depth lines written := lines = written depth
  none := fun _ => []
  both written more := fun depth => written depth ++ more depth
  none_both _ := rfl
  both_none written := funext fun depth => List.append_nil (written depth)
  amounts_nil _ := rfl
  amounts_append hFirst hMore := by rw [hFirst, hMore]

/-- Whether a step that ends in a value adds lines, which depend on the depth where it starts. -/
abbrev Emits {α : Type} (step : LowerM α) (lines : Nat → List Go.Line) : Prop :=
  lineAccount.Adds step lines

section Parts

variable {body : LowerM Unit} {lines : Nat → List Go.Line}

theorem emits_line (code : Go.Code) : Emits (emit code) fun depth => [⟨depth, code⟩] :=
  .emit fun _ _ _ => rfl

/-- The contents of a block are one level deeper. -/
theorem Emits.inBlock (hBody : Emits body lines) (names : List String) :
    Emits (inBlock names body) fun depth => lines (depth + 1) :=
  Account.Adds.inBlock hBody names id id

/-- A return outside augmented functions carries its own values. -/
theorem emits_lowerReturn (values : List Expr) :
    Emits (lowerReturn values) fun depth => [⟨depth, .ret (values.map Expr.go)⟩] := by
  refine .lowerReturn fun _ frame hKept => ?_
  have hExtra : (frame.map Frame.augmented).getD false = false := hKept
  rw [hExtra, if_neg Bool.false_ne_true, List.append_nil]
  exact emits_line _

/-- A function without a try or a throw keeps its signature. -/
theorem emits_func {token : Token} {name : Expr} {params : List Expr}
    {types : List (Option String)} {result : Option String} {body : Stmt}
    (hPlain : body.isPlain = true)
    (hBody : ∀ names, Emits (lowerBlock names body) fun depth => body.bodyLines (depth + 1)) :
    Emits (lower (.func token name params types result body))
      (Stmt.func token name params types result body).lines := by
  have hEmitted : emittedResult result body = result := by
    rw [emittedResult, body.needsErrorHandling_of_isPlain hPlain]
    rfl
  have hKept : (emittedResult result body != result) = false := by
    rw [hEmitted, bne_self_eq_false]
  have hInside : Emits
      (do
        lowerBlock (← namesOf params) body
        if emittedResult result body != result && result.isNone
            && !endsInReturn (statementsOf body) then
          deeper (emit (.ret ["nil"])))
      fun depth => body.bodyLines (depth + 1) := by
    rw [hKept]
    exact .behind fun names => (hBody names).after
      (.ite (fun hCloses => absurd hCloses Bool.false_ne_true) fun _ => .value ())
  have hOpen : Emits
      (emit (.funcOpen (signatureText name params types (emittedResult result body))))
      fun depth => [⟨depth, .funcOpen (signatureText name params types result)⟩] := by
    rw [hEmitted]
    exact emits_line _
  exact .func hOpen (.inFrame hInside _ (fun _ => hKept) id) (emits_line .close)

end Parts

mutual

/-- A statement without a try or a throw is lowered to its lines. -/
theorem lower_emits : (s : Stmt) → s.Shaped → s.isPlain = true → Emits (lower s) s.lines
  | .tryCatch _ _ _ _, _, hPlain | .throw _ _, _, hPlain => absurd hPlain Bool.false_ne_true
  | .package _ name, _, _ => emits_line (.package name)
  | .imports _ paths, _, _ => .importLines fun _ _ _ => rfl
  | .func _ _ _ _ _ body, ⟨_, _, hBlock, hBody⟩, hPlain =>
      emits_func hPlain (lowerBlock_emits body hBlock hBody hPlain)
  | .ret _ values, _, _ => emits_lowerReturn values
  | .block _ statements, hShaped, hPlain =>
      (emits_line .blockOpen).seq
        (((lowerAll_emits statements hShaped hPlain).inBlock []).seq (emits_line .close))
  | .ifElse _ condition consequence alternative, hShaped, hPlain => by
      obtain ⟨-, hBlock, hBody, hForm, hElse⟩ := hShaped
      rw [Stmt.isPlain, Bool.and_eq_true] at hPlain
      exact .conditional (emits_line (.ifOpen false condition.go))
        (lowerBlock_emits consequence hBlock hBody hPlain.1 [])
        (lowerElse_emits alternative hForm hElse hPlain.2)
  | .loop _ init condition update body, hShaped, hPlain => by
      obtain ⟨hInit, hCondition, hUpdate, hBlock, hBody⟩ := hShaped
      rw [Stmt.isPlain, Bool.and_eq_true] at hPlain
      have hInside := lowerBlock_emits body hBlock hBody hPlain.2 []
      rw [lowerBlock_eq hBlock] at hInside
      rw [lower_loop hInit hCondition hUpdate hBlock]
      exact .inScope (.behind fun _ =>
        (emits_line (.forOpen _)).seq (hInside.seq (emits_line .close)))
  | .comment _ text multiline, _, _ => emits_line (.comment text multiline)
  | .branch token, hShaped, _ => by
      rw [lower]
      simp only [Stmt.lines]
      rcases hShaped with hKind | hKind <;> rw [hKind] <;> exact emits_line _
  | .decl _ _ _ _ _, _, _ | .define _ _ _, _, _ | .assign _ _ _ _, _, _ | .incr _ _ _, _, _
  | .expr _ _, _, _ => .simple (emits_line _)
  | .missing, _, _ | .catchClause _ _ _ _, _, _ | .bare _, _, _ | .program _ _, _, _ =>
      emits_line _

theorem lowerAll_emits : (statements : List Stmt) → Stmt.AllShaped statements →
    Stmt.allPlain statements = true → Emits (lowerAll statements) (Stmt.allLines statements)
  | [], _, _ => .value ()
  | s :: rest, hShaped, hPlain => by
      rw [Stmt.allPlain, Bool.and_eq_true] at hPlain
      exact (lower_emits s hShaped.1 hPlain.1).seq (lowerAll_emits rest hShaped.2 hPlain.2)

theorem lowerBlock_emits (body : Stmt) (hBlock : body.isBlock = true) (hShaped : body.Shaped)
    (hPlain : body.isPlain = true) (names : List String) :
    Emits (lowerBlock names body) fun depth => body.bodyLines (depth + 1) := by
  cases body with
  | block _ statements => exact (lowerAll_emits statements hShaped hPlain).inBlock names
  | _ => cases hBlock

theorem lowerElse_emits (s : Stmt)
    (hPlace : (s.isMissing || s.isBlock || s.isConditional) = true) (hShaped : s.Shaped)
    (hPlain : s.isPlain = true) : Emits (lowerElse s) s.elseLines := by
  cases s with
  | missing => exact emits_line .close
  | ifElse _ condition consequence alternative =>
      obtain ⟨-, hBlock, hBody, hNext, hElse⟩ := hShaped
      rw [Stmt.isPlain, Bool.and_eq_true] at hPlain
      exact .conditional (emits_line (.ifOpen true condition.go))
        (lowerBlock_emits consequence hBlock hBody hPlain.1 [])
        (lowerElse_emits alternative hNext hElse hPlain.2)
  | block _ statements =>
      exact (emits_line .elseOpen).seq
        (((lowerAll_emits statements hShaped hPlain).inBlock []).seq (emits_line .close))
  | _ => cases hPlace

end

theorem lowerTop_emits (statements : List Stmt) : (previous : Option Stmt) →
    Stmt.AllShaped statements → Stmt.allPlain statements = true →
      Emits (lowerTop previous statements) (Stmt.topLines previous statements) := by
  induction statements with
  | nil => exact fun _ _ _ => .value ()
  | cons s rest ih =>
      intro previous hShaped hPlain
      rw [Stmt.allPlain, Bool.and_eq_true] at hPlain
      have hRun := (lower_emits s hShaped.1 hPlain.1).seq (ih (some s) hShaped.2 hPlain.2)
      simp only [lowerTop, Stmt.topLines]
      split
      · exact (emits_line .blank).seq hRun
      · exact hRun

end Lower

/-- A program without a try or a throw is written as its lines. -/
theorem Program.goSource_of_isPlain {program : Program} (hPlain : program.isPlain = true)
    (hShaped : Stmt.AllShaped program.statements) :
    program.goSource = .ok (Go.sourceText program.lines) := by
  have hMissing := Lower.missingPackages_of_isPlain hPlain
  have hStatements : Lower.withErrorImports program = program.statements := by
    rw [Lower.withErrorImports, hMissing]
    rfl
  obtain ⟨s, hRun⟩ := Lower.exists_lowerProgram hShaped Lower.State.init
  have hTop := hRun
  rw [Lower.lowerProgram, hMissing, hStatements] at hTop
  obtain ⟨-, -, lines, hLines, rfl⟩ :=
    Lower.lowerTop_emits program.statements none hShaped hPlain Lower.State.init () s rfl hTop
  rw [Program.goSource, Program.lower, hRun]
  dsimp only [Except.map]
  rw [hLines, List.reverse_append, List.reverse_reverse]
  rfl

end TryGo

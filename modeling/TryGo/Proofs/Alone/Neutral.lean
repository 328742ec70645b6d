import TryGo.Proofs.Alone.Balanced

/-! What a statement leaves behind. Whatever it opens on its way is closed in the end: the depth,
the frames and the outer scopes are those from before. The innermost scope has its old names and
maybe new ones. The lines from before stay, and each new one that has a text is indented at least as
far as the statement. -/
namespace TryGo

theorem toList_tabs (count : Nat) :
    (Text.repeated "\t" count).toList = List.replicate count '\t' := by
  induction count with
  | zero => rfl
  | succ count ih =>
      rw [Text.repeated, String.toList_append, ih, List.replicate_succ']
      rfl

/-- A line with a text starts with a tab for each of its levels. -/
theorem Go.Line.tabs_prefix {line : Go.Line} {depth : Nat} (hDeep : depth ≤ line.depth)
    (hText : line.text ≠ "") : List.replicate depth '\t' <+: line.text.toList := by
  obtain ⟨more, hDepth⟩ := Nat.exists_eq_add_of_le hDeep
  rw [text] at hText ⊢
  split at hText
  next hBlank => exact absurd rfl hText
  next hCode =>
    rw [if_neg hCode, String.toList_append, toList_tabs, hDepth, ← List.replicate_append_replicate,
      List.append_assoc]
    exact List.prefix_append _ _

namespace Lower

/-- A statement that is lowered leaves the depth, the frames and the outer scopes as they were.
Names are only added to the innermost scope and lines to the lines, each at least as deep as the
statement. -/
theorem lower_neutral (stmt : Stmt) {s s' : State} (hRun : lower stmt s = .ok () s') :
    s'.depth = s.depth
      ∧ s'.frames = s.frames
      ∧ s'.scopes.length = s.scopes.length
      ∧ s'.scopes.tail = s.scopes.tail
      ∧ s.scopes.headD [] ⊆ s'.scopes.headD []
      ∧ ∃ added, s'.lines = added ++ s.lines
        ∧ ∀ line ∈ added, line.text ≠ "" → List.replicate s.depth '\t' <+: line.text.toList := by
  have hSame := (lower_balanced stmt).restores hRun
  obtain ⟨added, hLines, hDeep⟩ := hSame.adds
  exact ⟨hSame.depth, hSame.frames, hSame.length_scopes, hSame.outer, hSame.grown, added, hLines,
    fun line hMem => Go.Line.tabs_prefix (hDeep line hMem).1⟩

/-- A try around a loop, with a clause for a type and a name that is declared at its end. -/
def guardedLoop : Stmt :=
  let block := Stmt.block Token.blank
  let name (text : String) := Expr.ident Token.blank text
  let risky := block [.throw Token.blank (name "n")]
  let clause := Stmt.catchClause Token.blank (name "e") (some "*E") (block [.ret Token.blank []])
  let cleanup := block [.define Token.blank [name "done"] [name "n"]]
  .tryCatch Token.blank (block [.loop Token.blank .missing .missing .missing risky]) [clause] cleanup

/-- The state at the start of the body of a function with an argument. -/
def State.inFunction : State :=
  ⟨[⟨0, .funcOpen "f(n int) (int, error)"⟩], 1, [⟨["int", "error"], true⟩], [["n"], []], []⟩

theorem lower_neutral_guardedLoop :
    ∃ s', lower guardedLoop State.inFunction = .ok () s'
      ∧ s'.depth = 1
      ∧ s'.frames = [⟨["int", "error"], true⟩]
      ∧ s'.scopes.length = 2
      ∧ s'.scopes.tail = [[]]
      ∧ ["n"] ⊆ s'.scopes.headD []
      ∧ ∃ added, s'.lines = added ++ [⟨0, .funcOpen "f(n int) (int, error)"⟩]
        ∧ ∀ line ∈ added, line.text ≠ "" → ['\t'] <+: line.text.toList := by
  obtain ⟨s', hRun⟩ : ∃ s', lower guardedLoop State.inFunction = .ok () s' := ⟨_, rfl⟩
  exact ⟨s', hRun, lower_neutral guardedLoop hRun⟩

end Lower

end TryGo

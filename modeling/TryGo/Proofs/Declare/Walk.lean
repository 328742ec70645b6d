import TryGo.Proofs.Step.Walk

/-! Going over lines until a name is declared again in its block. What a line declares is new in the
block if the line is the first to declare it there, and the scope of the lowering has the same
names as the block up to their order. -/
namespace TryGo

namespace Lower

def SameNames (scope level : List String) : Prop := ∀ name, name ∈ scope ↔ name ∈ level

/-- A line that closes a block or not, as it is chained or not, counts in the block around. -/
theorem line_of_closes {chained : Bool} {code : Go.Code} {headings : List Heading}
    {opened levels : List (List String)} {level : List String}
    (hCloses : code.closes = chained) (hOpened : opened.length = chained.toNat) :
    OpenBlocks.line ⟨opened ++ level :: levels, headings⟩ code =
      (code.declareIn level).bind fun after =>
        OpenBlocks.enter ⟨after :: levels, headings⟩ code := by
  have hLeave : OpenBlocks.leave ⟨opened ++ level :: levels, headings⟩ code =
      ⟨level :: levels, headings⟩ := by
    rw [OpenBlocks.leave, hCloses]
    cases chained with
    | false => rw [List.eq_nil_of_length_eq_zero hOpened]; rfl
    | true =>
        obtain ⟨inner, rfl⟩ := List.length_eq_one_iff.mp hOpened
        rfl
  rw [OpenBlocks.line, hLeave]
  exact Option.bind_map

/-- The names of a block after a line are those that the line adds and those from before. -/
theorem sameNames_line {code : Go.Code} {scope level after : List String}
    (hInner : code.isInner = true) (hSame : SameNames scope level)
    (hAfter : code.declareIn level = some after) : SameNames (code.declares ++ scope) after := by
  intro name
  rw [List.mem_append, hSame name]
  cases code with
  | decl =>
      rw [Level.mem_of_declare hAfter name]
      exact or_congr_left List.mem_singleton
  | define | bindErr => exact (Level.mem_of_define hAfter name).symm
  | tryOpen => cases hInner
  | _ =>
      cases hAfter
      exact or_iff_right List.not_mem_nil

/-- Going over lines as long as they declare no name again. Headings are due, with the names that
they declare. -/
def onceWalk : Walk Heading OpenBlocks where
  blocks := OpenBlocks.mk
  Goes before codes after := before.lines codes = after
  names code level := code.declareIn level
  Agrees := SameNames
  goes_nil _ := rfl
  goes_append hFirst hNext := by
    rw [OpenBlocks.lines_append, hFirst]
    exact hNext
  goes_stop hFirst := by
    rw [OpenBlocks.lines_append, hFirst]
    rfl
  goes_line := by
    intro code level levels due hInner
    simp only [Go.Code.isInner, Bool.and_eq_true, Bool.not_eq_true'] at hInner
    obtain ⟨hCloses, hOpens⟩ := hInner
    rw [OpenBlocks.lines_singleton, ← List.nil_append (level :: levels), line_of_closes hCloses rfl,
      Option.map_eq_bind]
    cases code <;> first | rfl | cases hOpens
  goes_open := by
    intro code opened level levels due hOpens hOpened
    rw [OpenBlocks.lines_singleton, line_of_closes rfl hOpened]
    cases code with
    | catchOpen chained binding type =>
        -- The variables of a type test are new in a block of their own.
        have hOwn : Level.define [] [binding, "ok"] = some [binding, "ok"] := by simp [Level.define]
        change (Level.define [] [binding, "ok"]).map _ = _
        rw [hOwn]
        rfl
    | blockOpen | ifOpen | elseOpen | errCheck => rfl
    | _ => cases hOpens
  goes_close := by
    intro code inner level levels due hClose
    rcases hClose with rfl | rfl <;> rfl
  names_plain := by
    intro code level hPlain
    cases code <;> first | rfl | cases hPlain
  agrees_refl _ _ := Iff.rfl
  agrees_line := sameNames_line

theorem opens_func (heading : Heading) {signature : String}
    (hLine : heading.line = .funcOpen signature) :
    onceWalk.Opens false (.funcOpen signature) [heading] heading.level := by
  intro opened level levels later hOpened
  change OpenBlocks.lines ⟨opened ++ level :: levels, heading :: later⟩ [_] = _
  rw [OpenBlocks.lines_singleton, line_of_closes rfl hOpened]
  exact if_pos hLine

theorem opens_for (heading : Heading) {header : String} (hLine : heading.line = .forOpen header) :
    onceWalk.Opens false (.forOpen header) [heading] (heading.level.map fun _ => []) := by
  intro opened level levels later hOpened
  change OpenBlocks.lines ⟨opened ++ level :: levels, heading :: later⟩ [_] = _
  rw [OpenBlocks.lines_singleton, line_of_closes rfl hOpened, Option.map_map]
  exact if_pos hLine

/-- A try declares its error if the block does not have it. -/
theorem once_tries : onceWalk.Tries [] fun level => level.insert "err" := by
  intro scope level hSame
  refine ⟨fun name => ?_, fun levels later => ?_⟩
  · rw [List.mem_insert_iff, List.mem_cons, hSame name]
  · have hDeclare : Go.Code.declareIn level (.tryOpen (scope.contains "err")) =
        some (level.insert "err") := by
      by_cases hMem : "err" ∈ level
      · rw [List.contains_iff_mem.mpr ((hSame "err").mpr hMem), List.insert_of_mem hMem]
        rfl
      · have hNew : scope.contains "err" = false := by
          rw [← Bool.not_eq_true, List.contains_iff_mem, hSame "err"]
          exact hMem
        rw [hNew]
        exact Level.define_err hMem
    change OpenBlocks.lines ⟨level :: levels, later⟩ [_] = _
    rw [OpenBlocks.lines_singleton, ← List.nil_append (level :: levels), line_of_closes rfl rfl,
      hDeclare]
    rfl

/-! ### Names of the tree -/

/-- The line of a simple statement declares what the statement does. -/
theorem declareIn_simpleCode {s : Stmt} (hShaped : s.Shaped) (level : List String) :
    (simpleCode s).declareIn level = s.declareLine level := by
  cases s with
  | define _ names _ =>
      have hNames : names.map Expr.go = names.map Expr.text :=
        List.map_congr_left fun e hMem => go_of_isIdent (hShaped.1 e hMem)
      exact congrArg (Level.define level) hNames
  | _ => rfl

/-- The clauses of a loop declare in its heading what they declare as lines. -/
theorem foldlM_clauseLines {s : Stmt} (hShaped : s.Shaped) (level : List String) :
    (clauseLines s).foldlM Go.Code.declareIn level = s.declareLine level := by
  rw [clauseLines]
  split
  next hMissing =>
    cases s with
    | missing => rfl
    | _ => cases hMissing
  next =>
    rw [List.foldlM_cons, declareIn_simpleCode hShaped]
    exact bind_pure _

theorem caughtName_ne_blank {name : Expr} {binding : String}
    (hBinding : caughtName name = some binding) : binding ≠ "_" := by
  cases name with
  | ident token text =>
      rw [caughtName] at hBinding
      split at hBinding
      · cases hBinding
      next hBlank =>
        cases hBinding
        simpa using hBlank
  | _ => cases hBinding

/-- A clause starts with its variable if that is declared in the block of its body. -/
theorem once_caught_nil (name : Expr) (type : Option String) :
    onceWalk.caught name type [] = some (Counting.lowered.caught name type) := by
  rw [Walk.caught, Counting.caught]
  cases hBinding : caughtName name with
  | none => simp
  | some binding =>
      cases hTyped : isTyped type with
      | true => simp
      | false => exact Level.define_singleton_nil (caughtName_ne_blank hBinding)

end Lower

end TryGo

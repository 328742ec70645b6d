import TryGo.Proofs.Step.Composed

/-! What the lines come to that a step adds. Lines may be counted in many ways: as text, by the
returns among them, by what they import, by how they end. The rules by which the steps of the
lowering are put together are the same for all of them, and are stated here once, from the
elementary steps up to the constructs that are lowered in several steps.

A rule says what a step adds if it ends in a value. That it does end in one is no matter of what
is counted. -/
namespace TryGo.Lower

/-- A way to count lines. The lines that a step adds at some depth have an amount, and lines in a
row have the amounts of their parts together. It may count only at certain depths and in certain
frames. -/
structure Account (Amount : Type) where
  Covers : Nat → Option Frame → Prop
  Amounts : Nat → List Go.Line → Amount → Prop
  none : Amount
  both : Amount → Amount → Amount
  none_both : ∀ a, both none a = a
  both_none : ∀ a, both a none = a
  amounts_nil : ∀ depth, Amounts depth [] none
  amounts_append : ∀ {depth lines more a b}, Amounts depth lines a → Amounts depth more b →
    Amounts depth (lines ++ more) (both a b)

namespace Account

variable {Amount α β : Type} {account inner outer : Account Amount} {a b c d e : Amount}

/-- Whether a step that ends in a value adds lines of some amount. The depth and the frames are left
as they were. -/
def Adds (account : Account Amount) (step : LowerM α) (amount : Amount) : Prop :=
  ∀ s x s', account.Covers s.depth s.frames.head? → step s = .ok x s' →
    s'.depth = s.depth ∧ s'.frames = s.frames
      ∧ ∃ lines, s'.lines = lines.reverse ++ s.lines ∧ account.Amounts s.depth lines amount

namespace Adds

/-! ### Steps -/

section Steps

variable {step other : LowerM α} {next : α → LowerM β} {first : LowerM Unit} {second : LowerM β}

/-- A step that fails may be said to add anything. -/
theorem fault (fault : Fault) : account.Adds (throw fault : LowerM α) a := by
  intro s x s' _ hRun
  cases hRun

theorem congr {step : LowerM α} (hStep : account.Adds step a) (hSame : a = b) :
    account.Adds step b := hSame ▸ hStep

/-- A step that writes nothing adds nothing. -/
theorem silent [hSilent : Silent step] : account.Adds step account.none := by
  intro s x s' _ hRun
  have hSame := hSilent.restores hRun
  obtain ⟨added, hLines, hAdded⟩ := hSame.adds
  obtain rfl : added = [] :=
    List.eq_nil_iff_forall_not_mem.mpr fun line hMem => (hAdded line hMem).2
  exact ⟨hSame.depth, hSame.frames, [], hLines, account.amounts_nil s.depth⟩

/-- A step that only returns a value adds nothing. -/
theorem value (x : α) : account.Adds (pure x) account.none := silent

/-- A line that is counted. -/
theorem emit {code : Go.Code}
    (hLine : ∀ depth frame, account.Covers depth frame → account.Amounts depth [⟨depth, code⟩] a) :
    account.Adds (emit code) a := by
  intro s _ s' hCovers hRun
  cases hRun
  exact ⟨rfl, rfl, [⟨s.depth, code⟩], rfl, hLine _ _ hCovers⟩

/-- A step and what follows it add their amounts in order. -/
theorem bind (hStep : account.Adds step a) (hNext : ∀ x, account.Adds (next x) b) :
    account.Adds (step >>= next) (account.both a b) := by
  intro s y s' hCovers hRun
  rw [bind_run] at hRun
  split at hRun
  next x middle hFirst =>
    obtain ⟨hDepth, hFrames, lines, hLines, hAmount⟩ := hStep s x middle hCovers hFirst
    rw [← hDepth, ← hFrames] at hCovers
    obtain ⟨hDepth', hFrames', more, hMore, hAmount'⟩ := hNext x middle y s' hCovers hRun
    refine ⟨hDepth'.trans hDepth, hFrames'.trans hFrames, lines ++ more, ?_, ?_⟩
    · rw [hMore, hLines, List.reverse_append, List.append_assoc]
    · exact account.amounts_append hAmount (hDepth ▸ hAmount')
  next => cases hRun

/-- Two steps in a row add what they add together. -/
theorem seq (hFirst : account.Adds first a) (hSecond : account.Adds second b) :
    account.Adds (first >>= fun _ => second) (account.both a b) := hFirst.bind fun _ => hSecond

/-- What adds nothing may stand in front. -/
theorem before (hStep : account.Adds step account.none) (hNext : ∀ x, account.Adds (next x) b) :
    account.Adds (step >>= next) b := account.none_both b ▸ hStep.bind hNext

/-- A step that writes nothing may stand in front. -/
theorem behind [Silent step] (hNext : ∀ x, account.Adds (next x) b) :
    account.Adds (step >>= next) b := silent.before hNext

/-- What adds nothing may stand behind. -/
theorem after (hFirst : account.Adds first a) (hSecond : account.Adds second account.none) :
    account.Adds (first >>= fun _ => second) a := account.both_none a ▸ hFirst.seq hSecond

/-- Whatever lines a step adds that stands in front, they may not matter. -/
theorem past [hBalanced : Balanced step]
    (hOver : ∀ {depth front lines}, account.Amounts depth lines b →
      account.Amounts depth (front ++ lines) b)
    (hNext : ∀ x, account.Adds (next x) b) : account.Adds (step >>= next) b := by
  intro s y s' hCovers hRun
  rw [bind_run] at hRun
  split at hRun
  next x middle hFirst =>
    have hSame := hBalanced.restores hFirst
    obtain ⟨added, hAdded⟩ := hSame.lines
    rw [← hSame.depth, ← hSame.frames] at hCovers
    obtain ⟨hDepth, hFrames, lines, hLines, hAmount⟩ := hNext x middle y s' hCovers hRun
    refine ⟨hDepth.trans hSame.depth, hFrames.trans hSame.frames, added.reverse ++ lines, ?_, ?_⟩
    · rw [hLines, ← hAdded, List.reverse_append, List.reverse_reverse, List.append_assoc]
    · exact hOver (hSame.depth ▸ hAmount)
  next => cases hRun

/-- A choice adds what both of its arms do, each under its own condition. -/
theorem ite {condition : Prop} [Decidable condition] (hThen : condition → account.Adds step a)
    (hElse : ¬condition → account.Adds other a) :
    account.Adds (if condition then step else other) a := by
  split
  next hTrue => exact hThen hTrue
  next hFalse => exact hElse hFalse

/-- A look at the innermost frame. -/
theorem frame {f : Option Frame → LowerM β}
    (hNext : ∀ depth frame, account.Covers depth frame → account.Adds (f frame) a) :
    account.Adds (frame? >>= f) a := by
  intro s y s' hCovers hRun
  exact hNext s.depth s.frames.head? hCovers s y s' hCovers hRun

end Steps

/-! ### What is opened and closed -/

section Inside

variable {body : LowerM Unit}

/-- What is written in a block is counted one level deeper. -/
theorem inBlock (hBody : inner.Adds body a) (names : List String)
    (hCovers : ∀ {depth frame}, outer.Covers depth frame → inner.Covers (depth + 1) frame)
    (hAmounts : ∀ {depth lines}, inner.Amounts (depth + 1) lines a → outer.Amounts depth lines b) :
    outer.Adds (inBlock names body) b := by
  intro s _ s' hOuter hRun
  rw [inBlock_run] at hRun
  obtain ⟨last, hInside, rfl⟩ := closing_eq_ok hRun
  obtain ⟨hDepth, hFrames, lines, hLines, hAmount⟩ := hBody _ () last (hCovers hOuter) hInside
  exact ⟨congrArg (· - 1) hDepth, hFrames, lines, hLines, hAmounts hAmount⟩

/-- Where no block stands, none is written. -/
theorem noBlock (fault : Fault) (names : List String) :
    account.Adds (Lower.inBlock names (throw fault)) a := by
  intro s _ s' _ hRun
  rw [inBlock_run] at hRun
  obtain ⟨last, hInside, -⟩ := closing_eq_ok hRun
  cases hInside

/-- What is added one level deeper counts as the account around it says. -/
theorem deeper (hBody : inner.Adds body a)
    (hCovers : ∀ {depth frame}, outer.Covers depth frame → inner.Covers (depth + 1) frame)
    (hAmounts : ∀ {depth lines}, inner.Amounts (depth + 1) lines a → outer.Amounts depth lines b) :
    outer.Adds (deeper body) b := by
  intro s _ s' hOuter hRun
  rw [deeper_run] at hRun
  obtain ⟨last, hInside, rfl⟩ := closing_eq_ok hRun
  obtain ⟨hDepth, hFrames, lines, hLines, hAmount⟩ := hBody _ () last (hCovers hOuter) hInside
  exact ⟨congrArg (· - 1) hDepth, hFrames, lines, hLines, hAmounts hAmount⟩

/-- What is written in a frame of its own is counted in that frame. -/
theorem inFrame (hBody : inner.Adds body a) (frame : Frame)
    (hCovers : ∀ {depth around}, outer.Covers depth around → inner.Covers depth (some frame))
    (hAmounts : ∀ {depth lines}, inner.Amounts depth lines a → outer.Amounts depth lines b) :
    outer.Adds (inFrame frame body) b := by
  intro s _ s' hOuter hRun
  rw [inFrame_run] at hRun
  obtain ⟨last, hInside, rfl⟩ := closing_eq_ok hRun
  obtain ⟨hDepth, hFrames, lines, hLines, hAmount⟩ := hBody _ () last (hCovers hOuter) hInside
  exact ⟨hDepth, congrArg List.tail hFrames, lines, hLines, hAmounts hAmount⟩

/-- The scope makes no difference. -/
theorem inScope (hBody : account.Adds body a) : account.Adds (inScope body) a := by
  intro s _ s' hCovers hRun
  rw [inScope_run] at hRun
  obtain ⟨last, hInside, rfl⟩ := closing_eq_ok hRun
  obtain ⟨hDepth, hFrames, hLines⟩ :=
    hBody { s with scopes := [] :: s.scopes } () last hCovers hInside
  exact ⟨hDepth, hFrames, hLines⟩

end Inside

/-! ### Constructs -/

section Constructs

variable {token : Token} {name : Expr} {type : Option String} {condition : Expr}
  {body init update consequence alternative cleanup : Stmt} {catches rest : List Stmt}

/-- An import adds its lines. -/
theorem importLines {paths : List String}
    (hLines : ∀ depth frame, account.Covers depth frame →
      account.Amounts depth (importCode depth paths) a) :
    account.Adds (importLines paths) a := by
  intro s _ s' hCovers hRun
  rw [importLines_run] at hRun
  cases hRun
  exact ⟨rfl, rfl, _, rfl, hLines _ _ hCovers⟩

/-- A simple statement adds its line. -/
theorem simple {s : Stmt} (hLine : account.Adds (Lower.emit (simpleCode s)) a) :
    account.Adds (do Lower.emit (← simple s)) a := by
  rw [Lower.simple]
  simp only [bind_assoc, pure_bind]
  exact .behind fun names => .behind fun _ => .behind fun _ => hLine

/-- A return adds what its line does, whatever frame it is in. -/
theorem lowerReturn {values : List Expr}
    (hLine : ∀ depth frame, account.Covers depth frame → account.Adds
      (Lower.emit (.ret (values.map Expr.go
        ++ if (frame.map Frame.augmented).getD false then ["nil"] else []))) a) :
    account.Adds (lowerReturn values) a := .behind fun _ => .frame hLine

/-- A throw adds what its line does, whatever frame it is in. -/
theorem lowerThrow {value : Expr}
    (hLine : ∀ depth frame, account.Covers depth frame → account.Adds
      (Lower.emit (.throwReturn (((frame.map Frame.results).getD []).dropLast.map zeroValue)
        value.go)) a) :
    account.Adds (lowerThrow value) a := .behind fun _ => .frame hLine

/-- A conditional adds what its opening line and both of its arms do. -/
theorem conditional {chained : Bool}
    (hOpen : account.Adds (Lower.emit (.ifOpen chained condition.go)) a)
    (hConsequence : account.Adds (lowerBlock [] consequence) b)
    (hAlternative : account.Adds (lowerElse alternative) c) :
    account.Adds
      (do
        checkGo [condition]
        Lower.emit (.ifOpen chained condition.go)
        lowerBlock [] consequence
        lowerElse alternative) (account.both a (account.both b c)) :=
  .behind fun _ => hOpen.seq (hConsequence.seq hAlternative)

/-- A loop adds the line that opens it, its body and a brace. -/
theorem loop (hOpen : ∀ text, account.Adds (Lower.emit (.forOpen text)) a)
    (hBody : account.Adds (lowerBlock [] body) b) (hClose : account.Adds (Lower.emit .close) c) :
    account.Adds (lower (.loop token init condition update body))
      (account.both a (account.both b c)) :=
  inScope (.behind fun text => (hOpen text).seq (hBody.seq hClose))

/-- A function adds its heading, what its frame holds and a brace. -/
theorem func {params : List Expr} {types : List (Option String)} {result : Option String}
    (hOpen : account.Adds (Lower.emit (.funcOpen
      (signatureText name params types (emittedResult result body)))) a)
    (hInside : account.Adds
      (Lower.inFrame ⟨splitResults (emittedResult result body), emittedResult result body != result⟩
        do
          lowerBlock (← namesOf params) body
          if emittedResult result body != result && result.isNone
              && !endsInReturn (statementsOf body) then
            Lower.deeper (Lower.emit (.ret ["nil"]))) b)
    (hClose : account.Adds (Lower.emit .close) c) :
    account.Adds (lower (.func token name params types result body))
      (account.both a (account.both b c)) := by
  have hLines := hOpen.seq (hInside.seq hClose)
  rw [lower]
  exact .behind fun _ => .ite (fun _ => .behind fun _ => .behind fun _ => hLines) fun _ =>
    .behind fun _ => hLines

/-- A try adds its closure, its clauses and its cleanup. -/
theorem tryCatch (hOpen : ∀ reuse, account.Adds (Lower.emit (.tryOpen reuse)) a)
    (hClosure : account.Adds
      (Lower.inFrame ⟨[errorType], false⟩ (Lower.inBlock [] do
        lowerStatements body
        Lower.emit (.ret ["nil"]))) b)
    (hClose : account.Adds (Lower.emit .tryClose) c)
    (hDiscard : catches = [] → account.Adds (Lower.emit .discardErr) d)
    (hChain : catches ≠ [] → account.Adds
      (do
        Lower.emit .errCheck
        Lower.inBlock [] (lowerCatches false catches)
        Lower.emit .close) d)
    (hCleanup : account.Adds (lowerStatements cleanup) e) :
    account.Adds (lower (.tryCatch token body catches cleanup))
      (account.both a (account.both b (account.both c (account.both d e)))) := by
  rw [lower]
  refine .behind fun reuse => .behind fun _ => (hOpen reuse).seq (hClosure.seq (hClose.seq ?_))
  refine .ite (fun hEmpty => ?_) fun hSome => ?_
  · exact (hDiscard (List.isEmpty_iff.mp hEmpty)).seq hCleanup
  · have hBoth := (hChain fun hEmpty => hSome (List.isEmpty_iff.mpr hEmpty)).seq hCleanup
    simp only [bind_assoc] at hBoth
    exact hBoth

/-- A clause with a type adds the line that opens its arm, the arm, and the clauses behind it. -/
theorem typedClause {chained : Bool} (hTyped : isTyped type = true)
    (hOpen : ∀ pattern, account.Adds (Lower.emit (.catchOpen chained pattern (type.getD ""))) a)
    (hArm : account.Adds (Lower.inBlock [] do bindCaught name type; lowerStatements body) b)
    (hRest : account.Adds (lowerCatches true rest) c) :
    account.Adds (lowerCatches chained (.catchClause token name type body :: rest))
      (account.both a (account.both b c)) := by
  rw [lowerCatches, if_pos hTyped]
  exact .behind fun value => .behind fun pattern => (hOpen pattern).seq (hArm.seq hRest)

/-- The warning about dropped clauses is no line. -/
theorem dropped (rest : List Stmt) (token : Token) : account.Adds
    (if !rest.isEmpty then record (.droppedCatches rest.length token.pos.line) else pure ())
    account.none := silent

/-- A clause without a type is the last arm, if there are others, and drops the clauses behind it.
-/
theorem lastClause (hUntyped : isTyped type = false)
    (hOpen : account.Adds (Lower.emit .elseOpen) a)
    (hArm : account.Adds (Lower.inBlock [] do bindCaught name type; lowerStatements body) b)
    (hClose : account.Adds (Lower.emit .close) c) :
    account.Adds (lowerCatches true (.catchClause token name type body :: rest))
      (account.both a (account.both b c)) := by
  rw [lowerCatches, if_neg (by rw [hUntyped]; exact Bool.false_ne_true), if_pos rfl]
  have hBoth := (hOpen.seq (hArm.seq hClose)).after (dropped rest token)
  simp only [bind_assoc] at hBoth
  exact hBoth

/-- A clause without a type that is the first one adds its body. -/
theorem onlyClause (hUntyped : isTyped type = false)
    (hBody : account.Adds (do bindCaught name type; lowerStatements body) a) :
    account.Adds (lowerCatches false (.catchClause token name type body :: rest)) a := by
  rw [lowerCatches, if_neg (by rw [hUntyped]; exact Bool.false_ne_true), if_neg Bool.false_ne_true]
  have hBoth := hBody.after (dropped rest token)
  simp only [bind_assoc] at hBoth
  exact hBoth

end Constructs

end Adds

end Account

end TryGo.Lower

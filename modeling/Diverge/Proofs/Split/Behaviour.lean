import Diverge.Proofs.Expr.Folding
import Diverge.Proofs.Split.Projection

/-!
# Splitting loses no behaviour

Whatever value an expression has under an assignment, one of its pieces has it
(`split_evaluate`).  The piece is made of pieces of the operands that have the values of
the operands; a revision select contributes a piece of the branch that is taken.  Of an
operand that the evaluation does not look at, any piece will do, and there is one.

Pieces are rebuilt by constructors that simplify, so the invariant of the induction also
says that pieces are well-typed and as wide as what they are pieces of.
-/

namespace Diverge

open Stateful
open Build (Stable)

/-- What a piece must be to take the place of an expression as an operand. -/
structure Expr.StandsFor
    (assignment : Assignment)
    (wide : Prop)
    (histories : List Updates)
    (table : Table)
    (expression piece : Expr) : Prop where
  width_eq : piece.width = expression.width
  ready : piece.Throughout (Expr.Ready assignment wide)
  registered : piece.Registered histories table

/-- All pieces may stand for the expression, and one of them has its value, if there is one. -/
structure Piece.Covers
    (assignment : Assignment)
    (wide : Prop)
    (histories : List Updates)
    (expression : Expr)
    (pieces : List Piece)
    (table : Table) : Prop where
  stands : ∀ piece ∈ pieces, expression.StandsFor assignment wide histories table piece.2
  nonempty : ∃ piece, piece ∈ pieces
  evaluate : ∀ outcome, expression.evaluate assignment = .ok outcome →
    ∃ piece ∈ pieces, piece.2.evaluate assignment = .ok outcome

section

variable
  {assignment : Assignment}
  {wide : Prop}
  {histories : List Updates}
  {table later : Table}

theorem Expr.StandsFor.grow
    {expression piece : Expr}
    (stands : expression.StandsFor assignment wide histories table piece)
    (grows : table.Grows later) :
    expression.StandsFor assignment wide histories later piece :=
  { stands with registered := stands.registered.grow grows }

theorem Piece.Covers.grow
    {expression : Expr}
    {pieces : List Piece}
    (covers : Piece.Covers assignment wide histories expression pieces table)
    (grows : table.Grows later) :
    Piece.Covers assignment wide histories expression pieces later :=
  { covers with stands := fun piece member => (covers.stands piece member).grow grows }

/-- An expression is a piece of itself. -/
theorem Piece.covers_self
    {expression : Expr}
    {revision : Int}
    (ready : expression.Throughout (Expr.Ready assignment wide))
    (registered : expression.Registered histories table) :
    Piece.Covers assignment wide histories expression [(revision, expression)] table where
  stands := by
    intro piece member
    rw [List.mem_singleton.1 member]
    exact ⟨rfl, ready, registered⟩
  nonempty := ⟨_, List.mem_cons_self⟩
  evaluate := fun _ evaluated => ⟨_, List.mem_cons_self, evaluated⟩

/-- Splitting gives pieces that cover the expression, or needs something too large. -/
def Expr.SplitCovers
    (assignment : Assignment) (wide : Prop) (histories : List Updates) (expression : Expr) :
    Prop :=
  ∀ table, table.Supports histories → expression.Registered histories table →
    Build.Affords wide expression.split table
      (Piece.Covers assignment wide histories expression)

/-- Splitting an operand and going on with its pieces. -/
theorem Expr.SplitCovers.bind
    {β : Type}
    {kid : Expr}
    {next : List Piece → Build β}
    {after : β → Table → Prop}
    (ofKid : kid.SplitCovers assignment wide histories)
    (supports : table.Supports histories)
    (registered : kid.Registered histories table)
    (goOn : ∀ pieces later, table.Grows later →
      Piece.Covers assignment wide histories kid pieces later →
        Build.Affords wide (next pieces) later after) :
    Build.Affords wide (kid.split >>= next) table after :=
  Build.Affords.bind ((ofKid table supports registered).mono fun pieces later ran covers =>
    goOn pieces later ((kid.stable_split registered.proper).grows_of_ok ran) covers)

/-! ## Rebuilding -/

/-- What is made of each element of a list is made of every one, and of nothing else. -/
theorem Build.affords_mapM
    {α β : Type}
    {action : α → Build β}
    (made : α → β → Table → Prop)
    (stable : ∀ element, Stable (action element))
    (grow : ∀ ⦃element result before after⦄, made element result before →
      before.Grows after → made element result after)
    (elements : List α)
    (each : ∀ element ∈ elements, ∀ final, table.Grows final →
      Build.Affords wide (action element) final (made element)) :
    Build.Affords wide (elements.mapM action) table fun results final =>
      (∀ element ∈ elements, ∃ result ∈ results, made element result final) ∧
        ∀ result ∈ results, ∃ element ∈ elements, made element result final := by
  induction elements generalizing table with
  | nil =>
      rw [List.mapM_nil]
      exact Build.Affords.pure ⟨by simp, by simp⟩
  | cons first rest inductionHypothesis =>
      rw [List.mapM_cons]
      refine Build.Affords.bind ((each first List.mem_cons_self table
        (Table.Grows.refl table)).mono fun result middle ranFirst isMade => ?_)
      have grows := (stable first).grows_of_ok ranFirst
      refine Build.Affords.bind ((inductionHypothesis fun element member final further =>
        each element (List.mem_cons_of_mem _ member) final (grows.trans further)).mono ?_)
      rintro results final ranRest ⟨ofAll, fromAll⟩
      have isMadeLast := grow isMade ((Build.Stable.mapM stable rest).grows_of_ok ranRest)
      refine Build.Affords.pure ⟨?_, ?_⟩
      · intro element member
        rcases List.mem_cons.1 member with rfl | inRest
        · exact ⟨result, List.mem_cons_self, isMadeLast⟩
        · obtain ⟨other, among, isOther⟩ := ofAll element inRest
          exact ⟨other, List.mem_cons_of_mem _ among, isOther⟩
      · intro other member
        rcases List.mem_cons.1 member with rfl | inRest
        · exact ⟨first, List.mem_cons_self, isMadeLast⟩
        · obtain ⟨element, among, isElement⟩ := fromAll other inRest
          exact ⟨element, List.mem_cons_of_mem _ among, isElement⟩

/--
Nodes that are rebuilt from combinations of operands cover an expression, if one of the
combinations has its value.
-/
theorem Piece.covers_mapM
    {α : Type}
    {expression : Expr}
    {combinations : List α}
    (number : α → Int)
    (node : α → Build Expr)
    (plain : α → Expr)
    (stable : ∀ combination, Stable (node combination))
    (nonempty : ∃ combination, combination ∈ combinations)
    (width : ∀ combination, (plain combination).width = expression.width)
    (each : ∀ combination ∈ combinations, ∀ final, table.Grows final →
      Build.Affords wide (node combination) final fun result _ =>
        Expr.Refines assignment wide (plain combination) result)
    (registered : ∀ combination ∈ combinations, ∀ final, table.Grows final →
      Yields (node combination) final fun result last => result.Registered histories last)
    (evaluate : ∀ outcome, expression.evaluate assignment = .ok outcome →
      ∃ combination ∈ combinations, (plain combination).evaluate assignment = .ok outcome) :
    Build.Affords wide
      (combinations.mapM fun combination => do
        pure (number combination, ← node combination))
      table (Piece.Covers assignment wide histories expression) := by
  have eachStable (combination : α) :
      Stable (do pure (number combination, ← node combination)) :=
    (stable combination).bind fun _ => Stable.pure _
  have eachAffords : ∀ combination ∈ combinations, ∀ final, table.Grows final →
      Build.Affords wide (do pure (number combination, ← node combination)) final
        fun piece last =>
          Expr.Refines assignment wide (plain combination) piece.2 ∧
            piece.2.Registered histories last := by
    intro combination member final grows
    refine Build.Affords.bind ((each combination member final grows).mono ?_)
    intro result last ran refines
    exact Build.Affords.pure ⟨refines, registered combination member final grows ran⟩
  refine (Build.affords_mapM _ eachStable ?_ combinations eachAffords).mono ?_
  · rintro combination piece before after ⟨refines, isRegistered⟩ grows
    exact ⟨refines, isRegistered.grow grows⟩
  rintro pieces final _ ⟨ofAll, fromAll⟩
  constructor
  · intro piece member
    obtain ⟨combination, _, refines, isRegistered⟩ := fromAll piece member
    exact ⟨refines.width_eq.trans (width combination), refines.ready, isRegistered⟩
  · obtain ⟨combination, member⟩ := nonempty
    obtain ⟨piece, among, _⟩ := ofAll combination member
    exact ⟨piece, among⟩
  · intro outcome evaluated
    obtain ⟨combination, member, hasValue⟩ := evaluate outcome evaluated
    obtain ⟨piece, among, refines, _⟩ := ofAll combination member
    exact ⟨piece, among, refines.evaluate outcome hasValue⟩

/-- A node with one operand. -/
theorem Expr.covers_unary
    {expression source : Expr}
    (node : Expr → Build Expr)
    (plain : Expr → Expr)
    (supports : table.Supports histories)
    (isRegistered : source.Registered histories table)
    (ofSource : source.SplitCovers assignment wide histories)
    (stable : ∀ operand, Stable (node operand))
    (width : ∀ operand, (plain operand).width = expression.width)
    (each : ∀ operand final, source.StandsFor assignment wide histories final operand →
      Build.Affords wide (node operand) final fun result _ =>
        Expr.Refines assignment wide (plain operand) result)
    (registered : ∀ operand final, final.Supports histories →
      operand.Registered histories final →
        Yields (node operand) final fun result last => result.Registered histories last)
    (evaluate : ∀ outcome, expression.evaluate assignment = .ok outcome →
      ∃ value, source.evaluate assignment = .ok value ∧
        ∀ operand : Expr, operand.width = source.width →
          operand.evaluate assignment = .ok value →
            (plain operand).evaluate assignment = .ok outcome) :
    Build.Affords wide (do Piece.rebuild node (← source.split)) table
      (Piece.Covers assignment wide histories expression) := by
  refine ofSource.bind supports isRegistered fun pieces middle grows covers => ?_
  refine Piece.covers_mapM (fun piece => piece.1) (fun piece => node piece.2)
    (fun piece => plain piece.2) (fun piece => stable piece.2) covers.nonempty
    (fun piece => width piece.2) ?_ ?_ ?_
  · intro piece member final further
    exact each piece.2 final ((covers.stands piece member).grow further)
  · intro piece member final further
    exact registered piece.2 final (supports.grow (grows.trans further))
      ((covers.stands piece member).registered.grow further)
  · intro outcome evaluated
    obtain ⟨value, ran, rebuilt⟩ := evaluate outcome evaluated
    obtain ⟨piece, member, hasValue⟩ := covers.evaluate value ran
    exact ⟨piece, member, rebuilt piece.2 (covers.stands piece member).width_eq hasValue⟩

/-- A node with two operands. -/
theorem Expr.covers_binary
    {expression left right : Expr}
    (node : Expr → Expr → Build Expr)
    (plain : Expr → Expr → Expr)
    (supports : table.Supports histories)
    (isLeft : left.Registered histories table)
    (isRight : right.Registered histories table)
    (ofLeft : left.SplitCovers assignment wide histories)
    (ofRight : right.SplitCovers assignment wide histories)
    (stable : ∀ first second, Stable (node first second))
    (width : ∀ first second, (plain first second).width = expression.width)
    (each : ∀ first second final, final.Supports histories →
      left.StandsFor assignment wide histories final first →
        right.StandsFor assignment wide histories final second →
          Build.Affords wide (node first second) final fun result _ =>
            Expr.Refines assignment wide (plain first second) result)
    (registered : ∀ first second final, first.Registered histories final →
      second.Registered histories final →
        Yields (node first second) final fun result last => result.Registered histories last)
    (evaluate : ∀ outcome, expression.evaluate assignment = .ok outcome →
      ∃ value other, left.evaluate assignment = .ok value ∧
        right.evaluate assignment = .ok other ∧
          ∀ first second : Expr, first.width = left.width → second.width = right.width →
            first.evaluate assignment = .ok value → second.evaluate assignment = .ok other →
              (plain first second).evaluate assignment = .ok outcome) :
    Build.Affords wide
      (do
        let firsts ← left.split
        let seconds ← right.split
        Piece.rebuild₂ node firsts seconds)
      table (Piece.Covers assignment wide histories expression) := by
  refine ofLeft.bind supports isLeft fun firsts early growsLeft coversEarly => ?_
  refine ofRight.bind (supports.grow growsLeft) (isRight.grow growsLeft)
    fun seconds middle growsRight coversRight => ?_
  have coversLeft := coversEarly.grow growsRight
  have supportsMiddle := supports.grow (growsLeft.trans growsRight)
  have among (pair : Piece × Piece) :
      pair ∈ (firsts.flatMap fun first => seconds.map fun second => (first, second)) ↔
        pair.1 ∈ firsts ∧ pair.2 ∈ seconds := by
    simp [Prod.ext_iff]
  refine Piece.covers_mapM (fun pair : Piece × Piece => Revision.pick pair.1.1 pair.2.1)
    (fun pair => node pair.1.2 pair.2.2) (fun pair => plain pair.1.2 pair.2.2)
    (fun pair => stable pair.1.2 pair.2.2) ?_ (fun pair => width pair.1.2 pair.2.2) ?_ ?_ ?_
  · obtain ⟨first, inFirsts⟩ := coversLeft.nonempty
    obtain ⟨second, inSeconds⟩ := coversRight.nonempty
    exact ⟨(first, second), (among _).2 ⟨inFirsts, inSeconds⟩⟩
  · intro pair member final grows
    obtain ⟨inFirsts, inSeconds⟩ := (among pair).1 member
    exact each pair.1.2 pair.2.2 final (supportsMiddle.grow grows)
      ((coversLeft.stands pair.1 inFirsts).grow grows)
        ((coversRight.stands pair.2 inSeconds).grow grows)
  · intro pair member final grows
    obtain ⟨inFirsts, inSeconds⟩ := (among pair).1 member
    exact registered pair.1.2 pair.2.2 final
      ((coversLeft.stands pair.1 inFirsts).registered.grow grows)
        ((coversRight.stands pair.2 inSeconds).registered.grow grows)
  · intro outcome evaluated
    obtain ⟨value, other, ranLeft, ranRight, rebuilt⟩ := evaluate outcome evaluated
    obtain ⟨first, inFirsts, hasValue⟩ := coversLeft.evaluate value ranLeft
    obtain ⟨second, inSeconds, hasOther⟩ := coversRight.evaluate other ranRight
    exact ⟨(first, second), (among _).2 ⟨inFirsts, inSeconds⟩,
      rebuilt first.2 second.2 (coversLeft.stands first inFirsts).width_eq
        (coversRight.stands second inSeconds).width_eq hasValue hasOther⟩

/-- A value of a concatenation is that of a piece made of one piece of each part. -/
theorem Expr.covers_concat
    {tag : Tag}
    {high low : Expr}
    (supports : table.Supports histories)
    (registered : (Expr.concat tag high low).Registered histories table)
    (ready : (Expr.concat tag high low).Ready assignment wide)
    (ofHigh : high.SplitCovers assignment wide histories)
    (ofLow : low.SplitCovers assignment wide histories) :
    Build.Affords wide
      (do
        let uppers ← high.split
        let lowers ← low.split
        Piece.rebuild₂ (fun high low => Build.concat high low) uppers lowers)
      table (Piece.Covers assignment wide histories (.concat tag high low)) := by
  obtain ⟨_, isHigh, isLow⟩ := (Expr.throughout_concat ..).1 registered
  refine Expr.covers_binary (fun high low => Build.concat high low) (.concat tag) supports
    isHigh isLow ofHigh ofLow (Build.stable_concat · · false) (fun _ _ => rfl) ?_
    (fun _ _ _ isUpper isLower => Build.registered_concat isUpper isLower) ?_
  · intro upper lower final _ standsHigh standsLow
    have sized := ready.sized
    have width : tag.width = upper.width + lower.width := by
      rw [standsHigh.width_eq, standsLow.width_eq]
      exact sized.measured
    exact Build.affords_concat ((Expr.throughout_concat ..).2 ⟨{ ready with
      sized := { sized with measured := width } }, standsHigh.ready, standsLow.ready⟩)
  · intro outcome evaluated
    obtain ⟨value, other, word, ranHigh, ranLow, joined, rest⟩ :=
      Expr.evaluate_concat_eq_ok.1 evaluated
    refine ⟨value, other, ranHigh, ranLow, ?_⟩
    intro upper lower _ width hasValue hasOther
    rw [← width] at joined
    exact Expr.evaluate_concat_eq_ok.2 ⟨value, other, word, hasValue, hasOther, joined, rest⟩

/-- The same for the operands of a binary operator. -/
theorem Expr.covers_operator
    {tag : Tag}
    {operator : BinaryOp}
    {left right : Expr}
    (supports : table.Supports histories)
    (registered : (Expr.binary tag operator left right).Registered histories table)
    (ready : (Expr.binary tag operator left right).Ready assignment wide)
    (ofLeft : left.SplitCovers assignment wide histories)
    (ofRight : right.SplitCovers assignment wide histories) :
    Build.Affords wide
      (do
        let firsts ← left.split
        let seconds ← right.split
        Piece.rebuild₂ (fun left right => Build.binary operator left right) firsts seconds)
      table (Piece.Covers assignment wide histories (.binary tag operator left right)) := by
  obtain ⟨_, isLeft, isRight⟩ := (Expr.throughout_binary ..).1 registered
  refine Expr.covers_binary (fun left right => Build.binary operator left right)
    (.binary tag operator) supports isLeft isRight ofLeft ofRight
    (Build.stable_binary operator · · false) (fun _ _ => rfl) ?_
    (fun _ _ _ isFirst isSecond => Build.registered_binary isFirst isSecond) ?_
  · intro first second final supportsFinal standsLeft standsRight
    have sized := ready.sized
    have width : tag.width = Build.resultWidth operator first := by
      rw [Build.resultWidth, standsLeft.width_eq]
      exact sized.measured
    have matched : first.width = second.width := by
      rw [standsLeft.width_eq, standsRight.width_eq]
      exact sized.matched
    exact Build.affords_binary ((Expr.throughout_binary ..).2 ⟨{ ready with
        sized := { sized with measured := width, matched := matched } },
      standsLeft.ready, standsRight.ready⟩)
      (standsLeft.registered.eq_of_same supportsFinal standsRight.registered)
  · intro outcome evaluated
    obtain ⟨value, other, result, word, ranLeft, ranRight, applied, rest⟩ :=
      Expr.evaluate_binary_eq_ok.1 evaluated
    refine ⟨value, other, ranLeft, ranRight, ?_⟩
    intro first second width _ hasValue hasOther
    rw [← width] at applied
    exact Expr.evaluate_binary_eq_ok.2
      ⟨value, other, result, word, hasValue, hasOther, applied, rest⟩

/-- A choice that no revision makes: of the branch that is not taken, any piece will do. -/
theorem Expr.covers_select
    {tag : Tag}
    {cond onTrue onFalse : Expr}
    (supports : table.Supports histories)
    (registered : (Expr.select tag none cond onTrue onFalse).Registered histories table)
    (ready : (Expr.select tag none cond onTrue onFalse).Ready assignment wide)
    (ofCond : cond.SplitCovers assignment wide histories)
    (ofTrue : onTrue.SplitCovers assignment wide histories)
    (ofFalse : onFalse.SplitCovers assignment wide histories) :
    Build.Affords wide
      (do
        let guards ← cond.split
        let firsts ← onTrue.split
        let seconds ← onFalse.split
        Piece.rebuild₃ (fun cond onTrue onFalse => Build.select cond onTrue onFalse)
          guards firsts seconds)
      table
      (Piece.Covers assignment wide histories (.select tag none cond onTrue onFalse)) := by
  obtain ⟨_, isCond, isTrue, isFalse⟩ := (Expr.throughout_select ..).1 registered
  refine ofCond.bind supports isCond fun guards early growsCond coversEarly => ?_
  refine ofTrue.bind (supports.grow growsCond) (Expr.Registered.grow isTrue growsCond)
    fun firsts middle growsTrue coversMiddle => ?_
  have growsBoth := growsCond.trans growsTrue
  refine ofFalse.bind (supports.grow growsBoth) (Expr.Registered.grow isFalse growsBoth)
    fun seconds last growsFalse coversFalse => ?_
  have coversCond := coversEarly.grow (growsTrue.trans growsFalse)
  have coversTrue := coversMiddle.grow growsFalse
  have supportsLast := supports.grow (growsBoth.trans growsFalse)
  have among (triple : Piece × Piece × Piece) :
      triple ∈ (guards.flatMap fun first => firsts.flatMap fun second =>
          seconds.map fun third => (first, second, third)) ↔
        triple.1 ∈ guards ∧ triple.2.1 ∈ firsts ∧ triple.2.2 ∈ seconds := by
    simp [Prod.ext_iff]
  refine Piece.covers_mapM
    (fun triple : Piece × Piece × Piece =>
      Revision.pick (Revision.pick triple.1.1 triple.2.1.1) triple.2.2.1)
    (fun triple => Build.select triple.1.2 triple.2.1.2 triple.2.2.2)
    (fun triple => .select tag none triple.1.2 triple.2.1.2 triple.2.2.2)
    (fun triple => Build.stable_select triple.1.2 triple.2.1.2 triple.2.2.2 false)
    ?_ (fun _ => rfl) ?_ ?_ ?_
  · obtain ⟨guard, inGuards⟩ := coversCond.nonempty
    obtain ⟨first, inFirsts⟩ := coversTrue.nonempty
    obtain ⟨second, inSeconds⟩ := coversFalse.nonempty
    exact ⟨(guard, first, second), (among _).2 ⟨inGuards, inFirsts, inSeconds⟩⟩
  · intro triple member final grows
    obtain ⟨inGuards, inFirsts, inSeconds⟩ := (among triple).1 member
    have guard := coversCond.stands triple.1 inGuards
    have first := (coversTrue.stands triple.2.1 inFirsts).grow grows
    have second := (coversFalse.stands triple.2.2 inSeconds).grow grows
    have sized := ready.sized
    have width := sized.measured.trans first.width_eq.symm
    have matched := first.width_eq.trans (Eq.trans sized.matched second.width_eq.symm)
    exact Build.affords_select ((Expr.throughout_select ..).2 ⟨{ ready with
        sized := { sized with measured := width, matched := matched } },
      guard.ready, first.ready, second.ready⟩)
      (first.registered.eq_of_same (supportsLast.grow grows) second.registered)
  · intro triple member final grows
    obtain ⟨inGuards, inFirsts, inSeconds⟩ := (among triple).1 member
    exact Build.registered_select ((coversCond.stands triple.1 inGuards).registered.grow grows)
      ((coversTrue.stands triple.2.1 inFirsts).registered.grow grows)
        ((coversFalse.stands triple.2.2 inSeconds).registered.grow grows)
  · intro outcome evaluated
    obtain ⟨value, ranCond, taken⟩ := Expr.evaluate_select_eq_ok.1 evaluated
    obtain ⟨guard, inGuards, hasGuard⟩ := coversCond.evaluate value ranCond
    obtain ⟨first, second, inFirsts, inSeconds, hasValue⟩ :
        ∃ first second, first ∈ firsts ∧ second ∈ seconds ∧
          (if Word.isTrue value then first.2 else second.2).evaluate assignment =
            .ok outcome := by
      revert taken
      cases Word.isTrue value with
      | true =>
          intro taken
          obtain ⟨first, inFirsts, hasValue⟩ := coversTrue.evaluate outcome taken
          obtain ⟨second, inSeconds⟩ := coversFalse.nonempty
          exact ⟨first, second, inFirsts, inSeconds, hasValue⟩
      | false =>
          intro taken
          obtain ⟨first, inFirsts⟩ := coversTrue.nonempty
          obtain ⟨second, inSeconds, hasValue⟩ := coversFalse.evaluate outcome taken
          exact ⟨first, second, inFirsts, inSeconds, hasValue⟩
    exact ⟨(guard, first, second), (among _).2 ⟨inGuards, inFirsts, inSeconds⟩,
      Expr.evaluate_select_eq_ok.2 ⟨value, hasGuard, hasValue⟩⟩

/-- A revision select has the pieces of both branches. -/
theorem Expr.covers_revision
    {tag : Tag}
    {truePatch falsePatch : Int}
    {cond onTrue onFalse : Expr}
    (supports : table.Supports histories)
    (registered : (Expr.select tag (some (truePatch, falsePatch)) cond onTrue
      onFalse).Registered histories table)
    (ready : (Expr.select tag (some (truePatch, falsePatch)) cond onTrue onFalse).Ready
      assignment wide)
    (ofTrue : onTrue.SplitCovers assignment wide histories)
    (ofFalse : onFalse.SplitCovers assignment wide histories) :
    Build.Affords wide
      (do
        let firsts ← onTrue.split
        let seconds ← onFalse.split
        pure (firsts.map (Piece.under truePatch) ++ seconds.map (Piece.under falsePatch)))
      table
      (Piece.Covers assignment wide histories
        (.select tag (some (truePatch, falsePatch)) cond onTrue onFalse)) := by
  obtain ⟨_, _, isTrue, isFalse⟩ := (Expr.throughout_select ..).1 registered
  refine ofTrue.bind supports isTrue fun firsts middle growsTrue coversMiddle => ?_
  refine ofFalse.bind (supports.grow growsTrue) (Expr.Registered.grow isFalse growsTrue)
    fun seconds last growsFalse coversFalse => Build.Affords.pure ?_
  have coversTrue := coversMiddle.grow growsFalse
  have width : tag.width = onTrue.width := ready.sized.measured
  have branches : onTrue.width = onFalse.width := ready.sized.matched
  constructor
  · intro piece member
    rcases List.mem_append.1 member with inFirsts | inSeconds
    · obtain ⟨first, isFirst, rfl⟩ := List.mem_map.1 inFirsts
      have stands := coversTrue.stands first isFirst
      exact { stands with width_eq := stands.width_eq.trans width.symm }
    · obtain ⟨second, isSecond, rfl⟩ := List.mem_map.1 inSeconds
      have stands := coversFalse.stands second isSecond
      exact { stands with width_eq := stands.width_eq.trans (width.trans branches).symm }
  · obtain ⟨first, isFirst⟩ := coversTrue.nonempty
    exact ⟨_, List.mem_append_left _ (List.mem_map_of_mem isFirst)⟩
  · intro outcome evaluated
    obtain ⟨guard, _, taken⟩ := Expr.evaluate_select_eq_ok.1 evaluated
    split at taken
    · obtain ⟨first, isFirst, hasValue⟩ := coversTrue.evaluate outcome taken
      exact ⟨_, List.mem_append_left _ (List.mem_map_of_mem isFirst), hasValue⟩
    · obtain ⟨second, isSecond, hasValue⟩ := coversFalse.evaluate outcome taken
      exact ⟨_, List.mem_append_right _ (List.mem_map_of_mem isSecond), hasValue⟩

open Build in
/-- The pieces of an expression cover it. -/
theorem Expr.splitCovers :
    (expression : Expr) → expression.Throughout (Expr.Ready assignment wide) →
      expression.SplitCovers assignment wide histories := by
  intro expression ready table supports registered
  by_cases single : expression.multi = false
  · unfold Expr.split
    rw [if_pos single]
    exact Build.Affords.pure (Piece.covers_self ready registered)
  unfold Expr.split
  rw [if_neg single]
  have operand (kid : Expr) (member : kid ∈ expression.kids) :
      kid.Registered histories table :=
    Expr.Throughout.kid registered member
  have sized := ready.self.sized
  cases expression with
  | const tag value => exact Build.Affords.pure (Piece.covers_self ready registered)
  | loose tag kind value kids => exact sized.measured.elim
  | notOptimized tag source =>
      have inside : source ∈ (Expr.notOptimized tag source).kids := List.mem_cons_self
      refine Expr.covers_unary (fun source => Build.notOptimized source) (.notOptimized tag)
        supports (operand source inside) (source.splitCovers (ready.kid inside))
        (stable_notOptimized · false) (fun _ => rfl) ?_
        (fun _ _ _ isPiece _ _ ran => registered_notOptimized ran isPiece) ?_
      · intro piece final stands
        have width : tag.width = piece.width := Eq.trans sized.measured stands.width_eq.symm
        exact affords_tagged ((Expr.throughout_notOptimized ..).2 ⟨{ ready.self with
          sized := { sized with measured := width } }, stands.ready⟩) width.symm
      · exact fun outcome evaluated => ⟨outcome, evaluated, fun _ _ hasValue => hasValue⟩
  | read tag updates index =>
      have inside : index ∈ (Expr.read tag updates index).kids := List.mem_cons_self
      have made : updates ∈ histories := registered.self.history updates rfl
      refine Expr.covers_unary (fun index => Build.read updates index) (.read tag updates)
        supports (operand index inside) (index.splitCovers (ready.kid inside))
        (stable_read updates · false) (fun _ => rfl) ?_
        (fun _ _ supportsFinal isPiece => registered_read supportsFinal made isPiece) ?_
      · intro piece final stands
        exact affords_read ((Expr.throughout_read ..).2 ⟨{ ready.self with
          sized := { sized with } }, stands.ready, Expr.Throughout.history ready rfl⟩)
      · intro outcome evaluated
        obtain ⟨position, ran, found⟩ := Expr.evaluate_read_eq_ok.1 evaluated
        refine ⟨position, ran, fun piece _ hasPosition => ?_⟩
        exact Expr.evaluate_read_eq_ok.2 ⟨position, hasPosition, found⟩
  | extract tag offset source =>
      have inside : source ∈ (Expr.extract tag offset source).kids := List.mem_cons_self
      refine Expr.covers_unary (fun source => Build.extract source offset tag.width)
        (.extract tag offset) supports (operand source inside)
        (source.splitCovers (ready.kid inside)) (stable_extract · offset tag.width false)
        (fun _ => rfl) ?_ (fun _ _ _ isPiece => registered_extract isPiece) ?_
      · intro piece final stands
        exact affords_extract ((Expr.throughout_extract ..).2 ⟨{ ready.self with
          sized := { sized with } }, stands.ready⟩)
      · intro outcome evaluated
        obtain ⟨value, shifted, word, ran, rest⟩ := Expr.evaluate_extract_eq_ok.1 evaluated
        refine ⟨value, ran, fun piece _ hasValue => ?_⟩
        exact Expr.evaluate_extract_eq_ok.2 ⟨value, shifted, word, hasValue, rest⟩
  | zext tag source =>
      have inside : source ∈ (Expr.zext tag source).kids := List.mem_cons_self
      refine Expr.covers_unary (fun source => Build.zext source tag.width) (.zext tag)
        supports (operand source inside) (source.splitCovers (ready.kid inside))
        (stable_zext · tag.width false) (fun _ => rfl) ?_
        (fun _ _ _ isPiece => registered_zext isPiece) ?_
      · intro piece final stands
        exact affords_zext ((Expr.throughout_zext ..).2 ⟨{ ready.self with
          sized := { sized with matched := stands.width_eq.trans_le sized.matched } },
            stands.ready⟩)
      · exact fun outcome evaluated => ⟨outcome, evaluated, fun _ _ hasValue => hasValue⟩
  | sext tag source =>
      have inside : source ∈ (Expr.sext tag source).kids := List.mem_cons_self
      refine Expr.covers_unary (fun source => Build.sext source tag.width) (.sext tag)
        supports (operand source inside) (source.splitCovers (ready.kid inside))
        (stable_sext · tag.width false) (fun _ => rfl) ?_
        (fun _ _ _ isPiece => registered_sext isPiece) ?_
      · intro piece final stands
        exact affords_sext ((Expr.throughout_sext ..).2 ⟨{ ready.self with
          sized := { sized with } }, stands.ready⟩)
      · intro outcome evaluated
        obtain ⟨value, extended, word, ran, isExtended, rest⟩ :=
          Expr.evaluate_sext_eq_ok.1 evaluated
        refine ⟨value, ran, fun piece width hasValue => ?_⟩
        rw [← width] at isExtended
        exact Expr.evaluate_sext_eq_ok.2
          ⟨value, extended, word, hasValue, isExtended, rest⟩
  | not tag source =>
      have inside : source ∈ (Expr.not tag source).kids := List.mem_cons_self
      refine Expr.covers_unary (fun source => Build.not source) (.not tag)
        supports (operand source inside) (source.splitCovers (ready.kid inside))
        (stable_not · false) (fun _ => rfl) ?_
        (fun _ _ _ isPiece => registered_not isPiece) ?_
      · intro piece final stands
        exact affords_not ((Expr.throughout_not ..).2 ⟨{ ready.self with
          sized := { sized with measured := Eq.trans sized.measured stands.width_eq.symm } },
            stands.ready⟩)
      · intro outcome evaluated
        obtain ⟨value, complement, word, ran, rest⟩ := Expr.evaluate_not_eq_ok.1 evaluated
        refine ⟨value, ran, fun piece _ hasValue => ?_⟩
        exact Expr.evaluate_not_eq_ok.2 ⟨value, complement, word, hasValue, rest⟩
  | concat tag high low =>
      have kids := ((Expr.throughout_concat tag high low).1 ready).2
      exact Expr.covers_concat supports registered ready.self
        (high.splitCovers kids.1) (low.splitCovers kids.2)
  | binary tag operator left right =>
      have kids := ((Expr.throughout_binary tag operator left right).1 ready).2
      exact Expr.covers_operator supports registered ready.self
        (left.splitCovers kids.1) (right.splitCovers kids.2)
  | select tag patches cond onTrue onFalse =>
      have kids := ((Expr.throughout_select tag patches cond onTrue onFalse).1 ready).2
      cases patches with
      | some pair =>
          exact Expr.covers_revision supports registered ready.self
            (onTrue.splitCovers kids.2.1) (onFalse.splitCovers kids.2.2)
      | none =>
          exact Expr.covers_select supports registered ready.self (cond.splitCovers kids.1)
            (onTrue.splitCovers kids.2.1) (onFalse.splitCovers kids.2.2)

end

/--
Splitting gives, for every value that the expression has, a piece that has it, unless an
integer is needed that cannot be made.
-/
theorem split_evaluate
    {workshop : Workshop}
    (reached : workshop.Reachable)
    {expression : Expr}
    (built : expression ∈ workshop.expressions)
    (typed : expression.WellTyped)
    (offsets : expression.OffsetsNonneg)
    {assignment : Assignment}
    (fits : expression.ArraysFit assignment) :
    match expression.split workshop.table with
    | .ok pieces _ =>
        ∀ value, expression.evaluate assignment = .ok value →
          ∃ piece ∈ pieces, piece.2.evaluate assignment = .ok value
    | .error fault _ => expression.IsWide ∧ ∃ cause, fault = .count cause := by
  have registered := reached.sound.registered expression built
  have affords := expression.splitCovers
    (Expr.ready_of_wellTyped registered.measured typed offsets fits)
    workshop.table reached.sound.supports registered
  unfold Build.Affords at affords
  cases ran : expression.split workshop.table with
  | ok pieces later =>
      rw [ran] at affords
      exact affords.evaluate
  | error fault later =>
      rw [ran] at affords
      exact ⟨affords.2, affords.1⟩

namespace GuardedQuotient

export LoneByte (array index input assigned fits)

def zero : Expr := .const ⟨3, 8, false⟩ 0

def isZero : Expr := .binary ⟨4, 1, false⟩ .eq input zero

def hundred : Expr := .const ⟨5, 8, false⟩ 100

def quotient : Expr := .binary ⟨6, 8, false⟩ .udiv hundred input

/-- One revision gives zero where the other divides by it. -/
def choice : Expr := .select ⟨7, 8, true⟩ (some (1, 2)) isZero zero quotient

def complement : Expr := .not ⟨8, 8, true⟩ choice

def pair : Expr := .select ⟨9, 8, true⟩ (some (1, 2)) isZero zero hundred

/-- A word of `2 ^ 70` bits. -/
def extension : Expr := .zext ⟨10, 1180591620717411303424, true⟩ pair

def workshop : Workshop :=
  [.constant 0 32, .read (.root array) index false, .constant 0 8,
    .binary .eq input zero false, .constant 100 8, .binary .udiv hundred input false,
    .patchSelect isZero zero quotient (some 1) (some 2), .not choice false,
    .patchSelect isZero zero hundred (some 1) (some 2),
    .zext pair 1180591620717411303424 false].foldl
      Workshop.construct (Workshop.declare {} "a" 1 none 32 8)

theorem expressions_eq :
    workshop.expressions =
      [extension, pair, complement, choice, quotient, hundred, isZero, zero, input, index] :=
  rfl

theorem reachable : workshop.Reachable := by
  refine Workshop.Reachable.foldl_construct
    (Relation.ReflTransGen.single (.declare "a" 1 none 32 8)) ?_
  refine ⟨?_, ?_, ?_, ?_, ?_, ?_, ?_, ?_, ?_, ?_,
    ?_, ?_, ?_, ?_, ?_, ?_, ?_, ?_, ?_, ?_, trivial⟩
  all_goals simp [Construction.operands, Construction.history?]
  -- what is left is where each operand stands among the expressions
  all_goals repeat constructor

end GuardedQuotient

open GuardedQuotient in
/-- The piece of one revision divides by zero, and the other one has the value. -/
theorem split_evaluate_complement :
    ∃ pieces table,
      complement.split workshop.table = .ok pieces table ∧
        complement.evaluate (assigned 0) = .ok (some 255) ∧
          ∃ piece ∈ pieces, piece.2.evaluate (assigned 0) = .ok (some 255) := by
  have typed : complement.WellTyped := by
    simp [complement, choice, isZero, quotient, input, index, zero, hundred, Expr.WellTyped,
      Expr.Matched, Updates.Matched, Expr.width, Expr.tag]
  have offsets : complement.OffsetsNonneg := by
    simp [complement, choice, isZero, quotient, input, index, zero, hundred,
      Expr.OffsetsNonneg, Expr.offset?]
  have arraysFit : complement.ArraysFit (assigned 0) := by
    simp [complement, choice, isZero, quotient, input, index, zero, hundred, Expr.ArraysFit,
      Expr.updates?, Updates.array, fits]
  have built : complement ∈ workshop.expressions := by simp [expressions_eq]
  have evaluated : complement.evaluate (assigned 0) = .ok (some 255) := rfl
  have ran : complement.split workshop.table = .ok _ _ := rfl
  have covered := split_evaluate reachable built typed offsets arraysFit
  rw [ran] at covered
  exact ⟨_, _, ran, evaluated, covered _ evaluated⟩

open GuardedQuotient in
/-- The pieces of a very wide extension cannot be made, though it has a value. -/
theorem split_extension_fails :
    workshop.Reachable ∧ extension ∈ workshop.expressions ∧ extension.WellTyped ∧
      extension.OffsetsNonneg ∧ extension.ArraysFit (assigned 0) ∧
        extension.evaluate (assigned 0) = .ok (some 0) ∧
          ∃ table, extension.split workshop.table = .error (.count .tooWide) table := by
  refine ⟨reachable, by simp [expressions_eq], ?_, ?_, ?_, rfl, _, rfl⟩
  · simp [extension, pair, isZero, input, index, zero, hundred, Expr.WellTyped, Expr.Matched,
      Updates.Matched, Expr.width, Expr.tag]
  · simp [extension, pair, isZero, input, index, zero, hundred, Expr.OffsetsNonneg,
      Expr.offset?]
  · simp [extension, pair, isZero, input, index, zero, hundred, Expr.ArraysFit, Expr.updates?,
      Updates.array, fits]

end Diverge

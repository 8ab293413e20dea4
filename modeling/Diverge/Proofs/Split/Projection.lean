import Diverge.Expr.Split
import Diverge.Proofs.Expr.Workshop

/-!
# Splitting recovers each revision

A multi expression whose revision selects all choose between the same two
revisions has two *projections*: each revision select is replaced by one of its
branches, and every other multi node is rebuilt from the projections of its
operands.  `split_mem_project` says that the pieces of the expression contain
both projections, each under the number of its revision.

The pieces of a node are a cross product, and their numbers are picked from those
of the combination.  The combination that the proof follows takes in each operand
the piece of the chosen revision; its number is that of the revision if a
revision select was met in the operand, and otherwise stands for all revisions.
-/

namespace Diverge

open Stateful
open Build (Settled Stable)

/-! ## Projections -/

/-- The two branches of a revision select. -/
inductive Side where
  | onTrue
  | onFalse
  deriving DecidableEq

/-- What belongs to a side. -/
def Side.choose {α : Type} : Side → α → α → α
  | .onTrue, first, _ => first
  | .onFalse, _, second => second

/--
The expression of one side: what is not multi stays, a revision select is its
branch, and any other node is built again from the projections of its operands.
-/
def Expr.project (side : Side) (expression : Expr) : Build Expr :=
  if expression.multi = false then pure expression
  else
    match expression with
    | .const .. => pure expression
    | .notOptimized _ source => do
        Build.notOptimized (← source.project side)
    | .read _ updates index => do
        Build.read updates (← index.project side)
    | .select _ (some _) _ onTrue onFalse =>
        side.choose (onTrue.project side) (onFalse.project side)
    | .select _ none cond onTrue onFalse => do
        let guard ← cond.project side
        let first ← onTrue.project side
        let second ← onFalse.project side
        Build.select guard first second
    | .concat _ high low => do
        let upper ← high.project side
        let lower ← low.project side
        Build.concat upper lower
    | .extract tag offset source => do
        Build.extract (← source.project side) offset tag.width
    | .zext tag source => do
        Build.zext (← source.project side) tag.width
    | .sext tag source => do
        Build.sext (← source.project side) tag.width
    | .not _ source => do
        Build.not (← source.project side)
    | .binary _ operator left right => do
        let first ← left.project side
        let second ← right.project side
        Build.binary operator first second
    | .loose .. => pure expression

/-- The nodes that are reached from an expression through operands. -/
def Expr.Reaches : Expr → Expr → Prop :=
  Relation.ReflTransGen fun node kid => kid ∈ node.kids

/-- Whether a revision select is met, going down from the expression. -/
def Expr.isRevised : Expr → Bool
  | .const .. | .loose .. => false
  | .notOptimized _ source | .extract _ _ source | .zext _ source | .sext _ source
  | .not _ source => source.isRevised
  | .read _ _ index => index.isRevised
  | .select _ (some _) _ _ _ => true
  | .select _ none cond onTrue onFalse =>
      cond.isRevised || onTrue.isRevised || onFalse.isRevised
  | .concat _ left right | .binary _ _ left right =>
      left.isRevised || right.isRevised

/-- A node above a revision select is revised too. -/
theorem Expr.isRevised_of_kid
    {expression kid : Expr}
    (proper : expression.Proper)
    (member : kid ∈ expression.kids)
    (revised : kid.isRevised = true) :
    expression.isRevised = true := by
  cases expression with
  | const tag value => simp [Expr.kids] at member
  | loose tag kind value kids => exact proper.measured.elim
  | select tag patches cond onTrue onFalse =>
      cases patches with
      | some pair => rfl
      | none =>
          simp only [Expr.kids, List.mem_cons, List.not_mem_nil, or_false] at member
          rcases member with rfl | rfl | rfl <;> simp [Expr.isRevised, revised]
  | concat tag high low =>
      simp only [Expr.kids, List.mem_cons, List.not_mem_nil, or_false] at member
      rcases member with rfl | rfl <;> simp [Expr.isRevised, revised]
  | binary tag operator left right =>
      simp only [Expr.kids, List.mem_cons, List.not_mem_nil, or_false] at member
      rcases member with rfl | rfl <;> simp [Expr.isRevised, revised]
  | _ =>
      simp only [Expr.kids, List.mem_singleton] at member
      subst member
      exact revised

/-- A revision select that is reached is met on the way. -/
theorem Expr.isRevised_of_reaches
    {expression node : Expr}
    (reaches : expression.Reaches node)
    (proper : expression.Throughout Expr.Proper)
    (revised : node.patches?.isSome = true) :
    expression.isRevised = true := by
  induction reaches using Relation.ReflTransGen.head_induction_on with
  | refl =>
      cases node with
      | select tag patches cond onTrue onFalse =>
          cases patches with
          | some pair => rfl
          | none => simp [Expr.patches?] at revised
      | _ => simp [Expr.patches?] at revised
  | head member _ inductionHypothesis =>
      exact Expr.isRevised_of_kid proper.self member
        (inductionHypothesis (proper.kid member))

/-- An expression in which a revision select is met is multi. -/
theorem Expr.multi_of_isRevised :
    (expression : Expr) → expression.Throughout Expr.Proper →
      expression.isRevised = true → expression.multi = true
  | .const .., _, revised => by simp [Expr.isRevised] at revised
  | .loose .., _, revised => by simp [Expr.isRevised] at revised
  | .notOptimized _ source, proper, revised =>
      proper.self.inherits source List.mem_cons_self
        (source.multi_of_isRevised (proper.kid List.mem_cons_self) revised)
  | .extract _ _ source, proper, revised =>
      proper.self.inherits source List.mem_cons_self
        (source.multi_of_isRevised (proper.kid List.mem_cons_self) revised)
  | .zext _ source, proper, revised =>
      proper.self.inherits source List.mem_cons_self
        (source.multi_of_isRevised (proper.kid List.mem_cons_self) revised)
  | .sext _ source, proper, revised =>
      proper.self.inherits source List.mem_cons_self
        (source.multi_of_isRevised (proper.kid List.mem_cons_self) revised)
  | .not _ source, proper, revised =>
      proper.self.inherits source List.mem_cons_self
        (source.multi_of_isRevised (proper.kid List.mem_cons_self) revised)
  | .read _ _ index, proper, revised =>
      proper.self.inherits index List.mem_cons_self
        (index.multi_of_isRevised (proper.kid List.mem_cons_self) revised)
  | .select _ (some _) _ _ _, proper, _ => proper.self.revised rfl
  | .select tag none cond onTrue onFalse, proper, revised => by
      have inCond : cond ∈ (Expr.select tag none cond onTrue onFalse).kids := by
        simp [Expr.kids]
      have inTrue : onTrue ∈ (Expr.select tag none cond onTrue onFalse).kids := by
        simp [Expr.kids]
      have inFalse : onFalse ∈ (Expr.select tag none cond onTrue onFalse).kids := by
        simp [Expr.kids]
      simp only [Expr.isRevised, Bool.or_eq_true] at revised
      rcases revised with (revised | revised) | revised
      · exact proper.self.inherits cond inCond
          (cond.multi_of_isRevised (proper.kid inCond) revised)
      · exact proper.self.inherits onTrue inTrue
          (onTrue.multi_of_isRevised (proper.kid inTrue) revised)
      · exact proper.self.inherits onFalse inFalse
          (onFalse.multi_of_isRevised (proper.kid inFalse) revised)
  | .concat tag high low, proper, revised => by
      have inHigh : high ∈ (Expr.concat tag high low).kids := by simp [Expr.kids]
      have inLow : low ∈ (Expr.concat tag high low).kids := by simp [Expr.kids]
      simp only [Expr.isRevised, Bool.or_eq_true] at revised
      rcases revised with revised | revised
      · exact proper.self.inherits high inHigh
          (high.multi_of_isRevised (proper.kid inHigh) revised)
      · exact proper.self.inherits low inLow
          (low.multi_of_isRevised (proper.kid inLow) revised)
  | .binary tag operator left right, proper, revised => by
      have inLeft : left ∈ (Expr.binary tag operator left right).kids := by
        simp [Expr.kids]
      have inRight : right ∈ (Expr.binary tag operator left right).kids := by
        simp [Expr.kids]
      simp only [Expr.isRevised, Bool.or_eq_true] at revised
      rcases revised with revised | revised
      · exact proper.self.inherits left inLeft
          (left.multi_of_isRevised (proper.kid inLeft) revised)
      · exact proper.self.inherits right inRight
          (right.multi_of_isRevised (proper.kid inRight) revised)

/-! ## The numbers of a combination -/

namespace Revision

/-- The number of a piece: that of its revision, if one was met, and else the shared one. -/
def numberOf (revision : Int) (met : Bool) : Int :=
  if met then revision else shared

/-- A number that a branch may carry: that of a real revision or the shared one. -/
def Possible (revision : Int) : Prop :=
  revision = shared ∨ isReal revision = true

/-- Picking between the numbers of two operands tells whether either is revised. -/
theorem pick_numberOf
    {revision : Int}
    (possible : Possible revision)
    (first second : Bool) :
    pick (numberOf revision first) (numberOf revision second) =
      numberOf revision (first || second) := by
  cases first with
  | true =>
      rcases possible with rfl | real
      · cases second <;> rfl
      · exact pick_of_isReal real
  | false =>
      cases second with
      | false => rfl
      | true =>
          rcases possible with rfl | real
          · rfl
          · simp [numberOf, pick, real, show isReal shared = false from rfl]

end Revision

/-! ## Rebuilding keeps a combination -/

section

variable {α β : Type} {table : Table}

theorem Build.Stable.mapM
    {action : α → Build β}
    (stable : ∀ element, Stable (action element)) :
    (elements : List α) → Stable (elements.mapM action)
  | [] => by
      rw [List.mapM_nil]
      exact Stable.pure []
  | element :: rest => by
      rw [List.mapM_cons]
      exact (stable element).bind fun _ =>
        (Build.Stable.mapM stable rest).bind fun _ => Stable.pure _

/-- What is done to each element of a list has been done to every one of them. -/
theorem Build.settled_mapM
    {action : α → Build β}
    (stable : ∀ element, Stable (action element))
    (elements : List α) :
    Yields (elements.mapM action) table fun results later =>
      ∀ element ∈ elements, ∃ result ∈ results,
        Settled later (action element) result := by
  induction elements generalizing table with
  | nil =>
      rw [List.mapM_nil]
      exact Yields.pure (by simp)
  | cons first rest inductionHypothesis =>
      rw [List.mapM_cons]
      refine Yields.bind fun result middle ranFirst => ?_
      refine Yields.bind fun results later ranRest => Yields.pure ?_
      intro element member
      rcases List.mem_cons.1 member with rfl | inRest
      · have grows := (Build.Stable.mapM stable rest).grows_of_ok ranRest
        exact ⟨result, List.mem_cons_self, ((stable element).settles ranFirst).mono grows⟩
      · obtain ⟨other, among, settled⟩ := inductionHypothesis ranRest element inRest
        exact ⟨other, List.mem_cons_of_mem _ among, settled⟩

/-- A node that was rebuilt under a number is the one its constructor gives. -/
theorem Build.settled_numbered
    {action : Build Expr}
    {number : Int}
    {piece : Piece}
    (stable : Stable action)
    (settled : Settled table (do pure (number, ← action)) piece) :
    ∃ made, piece = (number, made) ∧ Settled table action made := by
  obtain ⟨made, middle, ran, rest⟩ :=
    bind_eq_ok.1 (settled table (Table.Grows.refl table))
  obtain ⟨rfl, rfl⟩ := pure_eq_ok.1 rest
  exact ⟨made, rfl, stable.settles ran⟩

variable {firsts seconds thirds : List Piece}

/-- Every piece of an operand is rebuilt, under its number. -/
theorem Piece.mem_rebuild
    {node : Expr → Build Expr}
    (stable : ∀ operand, Stable (node operand)) :
    Yields (Piece.rebuild node firsts) table fun pieces later =>
      ∀ number operand, (number, operand) ∈ firsts →
        ∃ made, Settled later (node operand) made ∧ (number, made) ∈ pieces := by
  intro pieces later ran number operand member
  have each (piece : Piece) : Stable (do pure (piece.1, ← node piece.2)) :=
    (stable piece.2).bind fun _ => Stable.pure _
  obtain ⟨piece, among, settled⟩ :=
    Build.settled_mapM each firsts ran (number, operand) member
  obtain ⟨made, rfl, rebuilt⟩ := Build.settled_numbered (stable operand) settled
  exact ⟨made, rebuilt, among⟩

/-- Every pair of pieces is rebuilt, under the number that is picked for them. -/
theorem Piece.mem_rebuild₂
    {node : Expr → Expr → Build Expr}
    (stable : ∀ first second, Stable (node first second)) :
    Yields (Piece.rebuild₂ node firsts seconds) table fun pieces later =>
      ∀ first second, first ∈ firsts → second ∈ seconds →
        ∃ made, Settled later (node first.2 second.2) made ∧
          (Revision.pick first.1 second.1, made) ∈ pieces := by
  intro pieces later ran first second inFirsts inSeconds
  have each (pair : Piece × Piece) :
      Stable (do pure (Revision.pick pair.1.1 pair.2.1, ← node pair.1.2 pair.2.2)) :=
    (stable pair.1.2 pair.2.2).bind fun _ => Stable.pure _
  have member : (first, second) ∈
      firsts.flatMap fun first => seconds.map fun second => (first, second) := by
    simp [inFirsts, inSeconds]
  obtain ⟨piece, among, settled⟩ := Build.settled_mapM each _ ran (first, second) member
  obtain ⟨made, rfl, rebuilt⟩ :=
    Build.settled_numbered (stable first.2 second.2) settled
  exact ⟨made, rebuilt, among⟩

theorem Piece.mem_rebuild₃
    {node : Expr → Expr → Expr → Build Expr}
    (stable : ∀ first second third, Stable (node first second third)) :
    Yields (Piece.rebuild₃ node firsts seconds thirds) table fun pieces later =>
      ∀ first second third, first ∈ firsts → second ∈ seconds → third ∈ thirds →
        ∃ made, Settled later (node first.2 second.2 third.2) made ∧
          (Revision.pick (Revision.pick first.1 second.1) third.1, made) ∈ pieces := by
  intro pieces later ran first second third inFirsts inSeconds inThirds
  have each (triple : Piece × Piece × Piece) :
      Stable (do
        pure (Revision.pick (Revision.pick triple.1.1 triple.2.1.1) triple.2.2.1,
          ← node triple.1.2 triple.2.1.2 triple.2.2.2)) :=
    (stable _ _ _).bind fun _ => Stable.pure _
  have member : (first, second, third) ∈
      firsts.flatMap fun first => seconds.flatMap fun second =>
        thirds.map fun third => (first, second, third) :=
    List.mem_flatMap.2 ⟨first, inFirsts, List.mem_flatMap.2
      ⟨second, inSeconds, List.mem_map.2 ⟨third, inThirds, rfl⟩⟩⟩
  obtain ⟨piece, among, settled⟩ :=
    Build.settled_mapM each _ ran (first, second, third) member
  obtain ⟨made, rfl, rebuilt⟩ :=
    Build.settled_numbered (stable first.2 second.2 third.2) settled
  exact ⟨made, rebuilt, among⟩

theorem Piece.stable_rebuild
    {node : Expr → Build Expr}
    (stable : ∀ operand, Stable (node operand)) :
    Stable (Piece.rebuild node firsts) := by
  apply Build.Stable.mapM
  intro piece
  exact (stable piece.2).bind fun _ => Stable.pure _

theorem Piece.stable_rebuild₂
    {node : Expr → Expr → Build Expr}
    (stable : ∀ first second, Stable (node first second)) :
    Stable (Piece.rebuild₂ node firsts seconds) := by
  apply Build.Stable.mapM
  intro pair
  exact (stable pair.1.2 pair.2.2).bind fun _ => Stable.pure _

theorem Piece.stable_rebuild₃
    {node : Expr → Expr → Expr → Build Expr}
    (stable : ∀ first second third, Stable (node first second third)) :
    Stable (Piece.rebuild₃ node firsts seconds thirds) := by
  apply Build.Stable.mapM
  intro triple
  exact (stable triple.1.2 triple.2.1.2 triple.2.2.2).bind fun _ => Stable.pure _

end

/-! ## The pieces of an expression -/

open Build in
/-- Splitting is stable: it only adds to the table, and repeated it gives the same. -/
theorem Expr.stable_split :
    (expression : Expr) → expression.Throughout Expr.Proper →
      Stable expression.split := by
  intro expression proper
  unfold Expr.split
  refine Stable.ite (Stable.pure _) ?_
  cases expression with
  | const tag value => exact Stable.pure _
  | loose tag kind value kids => exact proper.self.measured.elim
  | notOptimized tag source =>
      exact (source.stable_split (proper.kid (by simp [Expr.kids]))).bind fun _ =>
        Piece.stable_rebuild fun operand => stable_notOptimized operand false
  | read tag updates index =>
      exact (index.stable_split (proper.kid (by simp [Expr.kids]))).bind fun _ =>
        Piece.stable_rebuild fun operand => stable_read updates operand false
  | extract tag offset source =>
      exact (source.stable_split (proper.kid (by simp [Expr.kids]))).bind fun _ =>
        Piece.stable_rebuild fun operand => stable_extract operand offset tag.width false
  | zext tag source =>
      exact (source.stable_split (proper.kid (by simp [Expr.kids]))).bind fun _ =>
        Piece.stable_rebuild fun operand => stable_zext operand tag.width false
  | sext tag source =>
      exact (source.stable_split (proper.kid (by simp [Expr.kids]))).bind fun _ =>
        Piece.stable_rebuild fun operand => stable_sext operand tag.width false
  | not tag source =>
      exact (source.stable_split (proper.kid (by simp [Expr.kids]))).bind fun _ =>
        Piece.stable_rebuild fun operand => stable_not operand false
  | concat tag high low =>
      exact (high.stable_split (proper.kid (by simp [Expr.kids]))).bind fun _ =>
        (low.stable_split (proper.kid (by simp [Expr.kids]))).bind fun _ =>
          Piece.stable_rebuild₂ fun high low => stable_concat high low false
  | binary tag operator left right =>
      exact (left.stable_split (proper.kid (by simp [Expr.kids]))).bind fun _ =>
        (right.stable_split (proper.kid (by simp [Expr.kids]))).bind fun _ =>
          Piece.stable_rebuild₂ fun left right => stable_binary operator left right false
  | select tag patches cond onTrue onFalse =>
      have ofTrue := onTrue.stable_split (proper.kid (by simp [Expr.kids]))
      have ofFalse := onFalse.stable_split (proper.kid (by simp [Expr.kids]))
      cases patches with
      | some pair =>
          exact ofTrue.bind fun _ => ofFalse.bind fun _ => Stable.pure _
      | none =>
          exact (cond.stable_split (proper.kid (by simp [Expr.kids]))).bind fun _ =>
            ofTrue.bind fun _ => ofFalse.bind fun _ =>
              Piece.stable_rebuild₃ fun cond onTrue onFalse =>
                stable_select cond onTrue onFalse false

/--
Among the pieces is the projection on a side, numbered by its revision if a
revision select was met.
-/
def Expr.HasPiece
    (side : Side)
    (revision : Int)
    (expression : Expr)
    (pieces : List Piece)
    (table : Table) : Prop :=
  ∃ made, Settled table (expression.project side) made ∧
    (Revision.numberOf revision expression.isRevised, made) ∈ pieces

section

variable {side : Side} {revision : Int} {table : Table}

/-- A piece that is there stays there as the table grows. -/
theorem Expr.HasPiece.mono
    {expression : Expr}
    {pieces : List Piece}
    {later : Table}
    (present : expression.HasPiece side revision pieces table)
    (grows : table.Grows later) :
    expression.HasPiece side revision pieces later := by
  obtain ⟨made, settled, member⟩ := present
  exact ⟨made, settled.mono grows, member⟩

/-- An expression that stands for itself is its only piece. -/
theorem Expr.hasPiece_self
    {expression : Expr}
    (stays : expression.project side = pure expression)
    (unmet : expression.isRevised = false) :
    expression.HasPiece side revision [(Revision.shared, expression)] table := by
  refine ⟨expression, ?_, ?_⟩
  · rw [stays]
    exact Settled.pure _ _
  · rw [unmet]
    exact List.mem_singleton.2 rfl

/-- A node with one operand keeps what the pieces of its operand have. -/
theorem Expr.hasPiece_unary
    {expression operand : Expr}
    {node : Expr → Build Expr}
    (stable : ∀ operand, Stable (node operand))
    (projects : expression.project side = operand.project side >>= node)
    (meets : expression.isRevised = operand.isRevised)
    (ofOperand : Yields operand.split table (operand.HasPiece side revision)) :
    Yields (operand.split >>= Piece.rebuild node) table
      (expression.HasPiece side revision) := by
  refine Yields.bind fun pieces middle ranOperand rebuilt later ran => ?_
  obtain ⟨part, settled, member⟩ := ofOperand ranOperand
  obtain ⟨made, built, among⟩ := Piece.mem_rebuild stable ran _ part member
  have grows := (Piece.stable_rebuild stable).grows_of_ok ran
  refine ⟨made, ?_, meets ▸ among⟩
  rw [projects]
  exact (settled.mono grows).bind built

/-- A node with two operands has the combination of the same side. -/
theorem Expr.hasPiece_binary
    {expression left right : Expr}
    {node : Expr → Expr → Build Expr}
    (possible : Revision.Possible revision)
    (stable : ∀ left right, Stable (node left right))
    (stableRight : Stable right.split)
    (projects : expression.project side =
      (do node (← left.project side) (← right.project side)))
    (meets : expression.isRevised = (left.isRevised || right.isRevised))
    (ofLeft : Yields left.split table (left.HasPiece side revision))
    (ofRight : ∀ middle : Table,
      Yields right.split middle (right.HasPiece side revision)) :
    Yields (do Piece.rebuild₂ node (← left.split) (← right.split)) table
      (expression.HasPiece side revision) := by
  refine Yields.bind fun firsts middle ranLeft => ?_
  refine Yields.bind fun seconds after ranRight rebuilt later ran => ?_
  obtain ⟨first, settledFirst, inFirsts⟩ := ofLeft ranLeft
  obtain ⟨second, settledSecond, inSeconds⟩ := ofRight middle ranRight
  have grows := (Piece.stable_rebuild₂ stable).grows_of_ok ran
  have growsRight := stableRight.grows_of_ok ranRight
  obtain ⟨made, built, among⟩ :=
    Piece.mem_rebuild₂ stable ran _ _ inFirsts inSeconds
  rw [Revision.pick_numberOf possible] at among
  refine ⟨made, ?_, meets ▸ among⟩
  rw [projects]
  exact (settledFirst.mono (growsRight.trans grows)).bind
    ((settledSecond.mono grows).bind built)

/-- A choice that no revision makes has the combination of the same side. -/
theorem Expr.hasPiece_select
    {expression cond onTrue onFalse : Expr}
    {node : Expr → Expr → Expr → Build Expr}
    (possible : Revision.Possible revision)
    (stable : ∀ cond onTrue onFalse, Stable (node cond onTrue onFalse))
    (stableTrue : Stable onTrue.split)
    (stableFalse : Stable onFalse.split)
    (projects : expression.project side =
      (do node (← cond.project side) (← onTrue.project side) (← onFalse.project side)))
    (meets : expression.isRevised =
      (cond.isRevised || onTrue.isRevised || onFalse.isRevised))
    (ofCond : Yields cond.split table (cond.HasPiece side revision))
    (ofTrue : ∀ middle : Table,
      Yields onTrue.split middle (onTrue.HasPiece side revision))
    (ofFalse : ∀ middle : Table,
      Yields onFalse.split middle (onFalse.HasPiece side revision)) :
    Yields
      (do Piece.rebuild₃ node (← cond.split) (← onTrue.split) (← onFalse.split))
      table (expression.HasPiece side revision) := by
  refine Yields.bind fun guards first ranCond => ?_
  refine Yields.bind fun firsts second ranTrue => ?_
  refine Yields.bind fun seconds third ranFalse rebuilt later ran => ?_
  obtain ⟨guard, settledGuard, inGuards⟩ := ofCond ranCond
  obtain ⟨chosen, settledTrue, inFirsts⟩ := ofTrue first ranTrue
  obtain ⟨refused, settledFalse, inSeconds⟩ := ofFalse second ranFalse
  have grows := (Piece.stable_rebuild₃ stable).grows_of_ok ran
  have growsFalse := (stableFalse.grows_of_ok ranFalse).trans grows
  have growsTrue := (stableTrue.grows_of_ok ranTrue).trans growsFalse
  obtain ⟨made, built, among⟩ :=
    Piece.mem_rebuild₃ stable ran _ _ _ inGuards inFirsts inSeconds
  rw [Revision.pick_numberOf possible, Revision.pick_numberOf possible] at among
  refine ⟨made, ?_, meets ▸ among⟩
  rw [projects]
  exact (settledGuard.mono growsTrue).bind
    ((settledTrue.mono growsFalse).bind ((settledFalse.mono grows).bind built))

/-- A piece of the branch of a revision carries the number of that revision. -/
theorem Piece.under_numberOf
    (possible : Revision.Possible revision)
    (met : Bool)
    (made : Expr) :
    Piece.under revision (Revision.numberOf revision met, made) = (revision, made) := by
  have picked := Revision.pick_numberOf possible true met
  simpa [Piece.under, Revision.numberOf] using picked

/-- A revision select has the pieces of both branches. -/
theorem Expr.hasPiece_revision
    {expression onTrue onFalse : Expr}
    {truePatch falsePatch : Int}
    (possible : Revision.Possible (side.choose truePatch falsePatch))
    (stableFalse : Stable onFalse.split)
    (projects : expression.project side =
      side.choose (onTrue.project side) (onFalse.project side))
    (meets : expression.isRevised = true)
    (ofTrue : Yields onTrue.split table
      (onTrue.HasPiece side (side.choose truePatch falsePatch)))
    (ofFalse : ∀ middle : Table, Yields onFalse.split middle
      (onFalse.HasPiece side (side.choose truePatch falsePatch))) :
    Yields
      (do
        let first ← onTrue.split
        let second ← onFalse.split
        pure (first.map (Piece.under truePatch) ++ second.map (Piece.under falsePatch)))
      table (expression.HasPiece side (side.choose truePatch falsePatch)) := by
  refine Yields.bind fun firsts middle ranTrue => ?_
  refine Yields.bind fun seconds later ranFalse => Yields.pure ?_
  cases side with
  | onTrue =>
      obtain ⟨made, settled, member⟩ :=
        (ofTrue ranTrue).mono (stableFalse.grows_of_ok ranFalse)
      refine ⟨made, projects ▸ settled, List.mem_append_left _ ?_⟩
      rw [meets]
      exact List.mem_map.2 ⟨_, member, Piece.under_numberOf possible _ made⟩
  | onFalse =>
      obtain ⟨made, settled, member⟩ := ofFalse middle ranFalse
      refine ⟨made, projects ▸ settled, List.mem_append_right _ ?_⟩
      rw [meets]
      exact List.mem_map.2 ⟨_, member, Piece.under_numberOf possible _ made⟩

end

/-- Every revision select that is reached chooses between the same two revisions. -/
def Expr.Between (truePatch falsePatch : Int) (expression : Expr) : Prop :=
  ∀ node, expression.Reaches node →
    ∀ patches ∈ node.patches?, patches = (truePatch, falsePatch)

theorem Expr.Between.kid
    {truePatch falsePatch : Int}
    {expression kid : Expr}
    (between : expression.Between truePatch falsePatch)
    (member : kid ∈ expression.kids) :
    kid.Between truePatch falsePatch :=
  fun node reaches => between node (Relation.ReflTransGen.head member reaches)

theorem Expr.Between.of_kids
    {truePatch falsePatch : Int}
    {expression : Expr}
    (root : ∀ patches ∈ expression.patches?, patches = (truePatch, falsePatch))
    (kids : ∀ kid ∈ expression.kids, kid.Between truePatch falsePatch) :
    expression.Between truePatch falsePatch := by
  intro node reaches
  rcases Relation.ReflTransGen.cases_head reaches with rfl | ⟨kid, member, later⟩
  · exact root
  · exact kids kid member node later

/-- An expression that is not multi is its only piece, on either side. -/
theorem Expr.hasPiece_of_single
    {side : Side}
    {revision : Int}
    {expression : Expr}
    {table : Table}
    (proper : expression.Throughout Expr.Proper)
    (single : expression.multi = false) :
    Yields expression.split table (expression.HasPiece side revision) := by
  have unmet : expression.isRevised = false := by
    by_contra met
    rw [expression.multi_of_isRevised proper (by simpa using met)] at single
    exact Bool.noConfusion single
  unfold Expr.split
  rw [if_pos single]
  refine Yields.pure (Expr.hasPiece_self ?_ unmet)
  unfold Expr.project
  rw [if_pos single]

open Build in
/-- The pieces of an expression have its projection on either side. -/
theorem Expr.hasPiece_of_split
    (side : Side)
    {truePatch falsePatch : Int}
    (possible : Revision.Possible (side.choose truePatch falsePatch)) :
    (expression : Expr) →
      expression.Throughout Expr.Proper →
      expression.Between truePatch falsePatch →
      (table : Table) →
        Yields expression.split table
          (expression.HasPiece side (side.choose truePatch falsePatch)) := by
  intro expression proper between table
  by_cases single : expression.multi = false
  · exact Expr.hasPiece_of_single proper single
  unfold Expr.split
  rw [if_neg single]
  cases expression with
  | const tag value =>
      refine Yields.pure (Expr.hasPiece_self ?_ rfl)
      unfold Expr.project
      rw [if_neg single]
  | loose tag kind value kids => exact proper.self.measured.elim
  | notOptimized tag source =>
      have member : source ∈ (Expr.notOptimized tag source).kids := by simp [Expr.kids]
      have ofSource :=
        source.hasPiece_of_split side possible (proper.kid member) (between.kid member) table
      refine Expr.hasPiece_unary (stable_notOptimized · false) ?_ rfl ofSource
      rw [Expr.project, if_neg single]
  | read tag updates index =>
      have member : index ∈ (Expr.read tag updates index).kids := by simp [Expr.kids]
      have ofIndex :=
        index.hasPiece_of_split side possible (proper.kid member) (between.kid member) table
      refine Expr.hasPiece_unary (stable_read updates · false) ?_ rfl ofIndex
      rw [Expr.project, if_neg single]
  | extract tag offset source =>
      have member : source ∈ (Expr.extract tag offset source).kids := by simp [Expr.kids]
      have ofSource :=
        source.hasPiece_of_split side possible (proper.kid member) (between.kid member) table
      refine Expr.hasPiece_unary (stable_extract · offset tag.width false) ?_ rfl ofSource
      rw [Expr.project, if_neg single]
  | zext tag source =>
      have member : source ∈ (Expr.zext tag source).kids := by simp [Expr.kids]
      have ofSource :=
        source.hasPiece_of_split side possible (proper.kid member) (between.kid member) table
      refine Expr.hasPiece_unary (stable_zext · tag.width false) ?_ rfl ofSource
      rw [Expr.project, if_neg single]
  | sext tag source =>
      have member : source ∈ (Expr.sext tag source).kids := by simp [Expr.kids]
      have ofSource :=
        source.hasPiece_of_split side possible (proper.kid member) (between.kid member) table
      refine Expr.hasPiece_unary (stable_sext · tag.width false) ?_ rfl ofSource
      rw [Expr.project, if_neg single]
  | not tag source =>
      have member : source ∈ (Expr.not tag source).kids := by simp [Expr.kids]
      have ofSource :=
        source.hasPiece_of_split side possible (proper.kid member) (between.kid member) table
      refine Expr.hasPiece_unary (stable_not · false) ?_ rfl ofSource
      rw [Expr.project, if_neg single]
  | concat tag high low =>
      have inHigh : high ∈ (Expr.concat tag high low).kids := by simp [Expr.kids]
      have inLow : low ∈ (Expr.concat tag high low).kids := by simp [Expr.kids]
      have ofHigh :=
        high.hasPiece_of_split side possible (proper.kid inHigh) (between.kid inHigh) table
      have ofLow :=
        low.hasPiece_of_split side possible (proper.kid inLow) (between.kid inLow)
      refine Expr.hasPiece_binary possible (stable_concat · · false)
        (low.stable_split (proper.kid inLow)) ?_ rfl ofHigh ofLow
      rw [Expr.project, if_neg single]
  | binary tag operator left right =>
      have inLeft : left ∈ (Expr.binary tag operator left right).kids := by
        simp [Expr.kids]
      have inRight : right ∈ (Expr.binary tag operator left right).kids := by
        simp [Expr.kids]
      have ofLeft :=
        left.hasPiece_of_split side possible (proper.kid inLeft) (between.kid inLeft) table
      have ofRight :=
        right.hasPiece_of_split side possible (proper.kid inRight) (between.kid inRight)
      refine Expr.hasPiece_binary possible (stable_binary operator · · false)
        (right.stable_split (proper.kid inRight)) ?_ rfl ofLeft ofRight
      rw [Expr.project, if_neg single]
  | select tag patches cond onTrue onFalse =>
      have inTrue : onTrue ∈ (Expr.select tag patches cond onTrue onFalse).kids := by
        simp [Expr.kids]
      have inFalse : onFalse ∈ (Expr.select tag patches cond onTrue onFalse).kids := by
        simp [Expr.kids]
      have stableFalse := onFalse.stable_split (proper.kid inFalse)
      have ofTrue :=
        onTrue.hasPiece_of_split side possible (proper.kid inTrue) (between.kid inTrue)
      have ofFalse :=
        onFalse.hasPiece_of_split side possible (proper.kid inFalse) (between.kid inFalse)
      cases patches with
      | some pair =>
          have same : pair = (truePatch, falsePatch) :=
            between _ Relation.ReflTransGen.refl pair rfl
          subst same
          refine Expr.hasPiece_revision possible stableFalse ?_ rfl (ofTrue table) ofFalse
          rw [Expr.project, if_neg single]
      | none =>
          have inCond : cond ∈ (Expr.select tag none cond onTrue onFalse).kids := by
            simp [Expr.kids]
          have ofCond :=
            cond.hasPiece_of_split side possible (proper.kid inCond) (between.kid inCond) table
          refine Expr.hasPiece_select possible (stable_select · · · false)
            (onTrue.stable_split (proper.kid inTrue)) stableFalse ?_ rfl
            ofCond ofTrue ofFalse
          rw [Expr.project, if_neg single]

/-- The pieces of an expression hold both projections, under their revisions. -/
theorem split_mem_project
    {workshop : Workshop}
    (reached : workshop.Reachable)
    {expression : Expr}
    (built : expression ∈ workshop.expressions)
    {truePatch falsePatch : Int}
    (possibleTrue : Revision.Possible truePatch)
    (possibleFalse : Revision.Possible falsePatch)
    (between : expression.Between truePatch falsePatch)
    (revised : ∃ node, expression.Reaches node ∧ node.patches?.isSome = true)
    {start table : Table}
    {pieces : List Piece}
    (ran : expression.split start = .ok pieces table) :
    ∃ first second,
      Settled table (expression.project .onTrue) first ∧
        Settled table (expression.project .onFalse) second ∧
          (truePatch, first) ∈ pieces ∧ (falsePatch, second) ∈ pieces := by
  have proper : expression.Throughout Expr.Proper :=
    (reached.sound.registered expression built).proper
  obtain ⟨node, reaches, isRevision⟩ := revised
  have met : expression.isRevised = true :=
    Expr.isRevised_of_reaches reaches proper isRevision
  obtain ⟨first, settledFirst, inPieces⟩ :=
    expression.hasPiece_of_split .onTrue possibleTrue proper between start ran
  obtain ⟨second, settledSecond, alsoInPieces⟩ :=
    expression.hasPiece_of_split .onFalse possibleFalse proper between start ran
  rw [met] at inPieces alsoInPieces
  exact ⟨first, second, settledFirst, settledSecond, inPieces, alsoInPieces⟩

namespace RevisedSum

def guard : Expr := .const ⟨0, 1, false⟩ 1

def three : Expr := .const ⟨1, 8, false⟩ 3

def five : Expr := .const ⟨2, 8, false⟩ 5

def choice : Expr := .select ⟨3, 8, true⟩ (some (1, 2)) guard three five

/-- Three added to what is three in one revision and five in another. -/
def sum : Expr := .binary ⟨4, 8, true⟩ .add choice three

def workshop : Workshop :=
  [.constant 1 1, .constant 3 8, .constant 5 8,
    .patchSelect guard three five (some 1) (some 2),
    .binary .add choice three false].foldl Workshop.construct {}

theorem expressions_eq : workshop.expressions = [sum, choice, five, three, guard] := rfl

theorem reachable : workshop.Reachable := by
  refine Workshop.Reachable.foldl_construct Relation.ReflTransGen.refl ?_
  refine ⟨?_, ?_, ?_, ?_, ?_, ?_, ?_, ?_, ?_, ?_, trivial⟩
  all_goals simp [Construction.operands, Construction.history?]
  · exact ⟨.tail _ (.tail _ (.head _)), .tail _ (.head _), .head _⟩
  · exact ⟨.head _, .tail _ (.tail _ (.head _))⟩

theorem between : sum.Between 1 2 := by
  have constant (tag : Tag) (value : Int) : (Expr.const tag value).Between 1 2 :=
    Expr.Between.of_kids (by simp [Expr.patches?]) (by simp [Expr.kids])
  have inChoice : choice.Between 1 2 := by
    refine Expr.Between.of_kids (by simp [Expr.patches?, choice]) ?_
    simp [choice, Expr.kids, guard, three, five, constant]
  refine Expr.Between.of_kids (by simp [Expr.patches?, sum]) ?_
  simp [sum, Expr.kids, three, constant, inChoice]

end RevisedSum

open RevisedSum in
/-- The revisions of a sum. -/
theorem split_mem_project_sum :
    ∃ pieces table,
      sum.split workshop.table = .ok pieces table ∧
        ∃ first second,
          Settled table (sum.project .onTrue) first ∧
            Settled table (sum.project .onFalse) second ∧
              (1, first) ∈ pieces ∧ (2, second) ∈ pieces := by
  have built : sum ∈ workshop.expressions := by
    rw [expressions_eq]
    exact List.mem_cons_self
  have ran : sum.split workshop.table = .ok _ _ := rfl
  exact ⟨_, _, ran, split_mem_project reachable built (.inr rfl) (.inr rfl) between
    ⟨choice, .tail .refl (List.Mem.head _), rfl⟩ ran⟩

end Diverge

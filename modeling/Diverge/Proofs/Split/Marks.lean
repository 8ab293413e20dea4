import Diverge.Proofs.Split.Projection

/-!
# What splitting leaves multi

A piece is built anew from pieces of operands, and a constructor makes no node
multi that has no multi operand.  So the pieces of an expression are not multi,
with one exception.  A read whose index became a constant is looked up in its
history, and what it finds there is handed out as it was written: splitting does
not go into a history, and a read is not multi because of what its history holds.
`split_unmarked` says that a multi read which finds a multi value in this way is
the only cause of a multi piece, and that the value it finds is such a piece.
-/

namespace Diverge

open Stateful
open Build (Settled Stable)

/-! ## Expressions without multi nodes -/

/-- No node that is reached is multi. -/
def Expr.Unmarked (expression : Expr) : Prop :=
  ∀ node, expression.Reaches node → node.multi = false

namespace Expr.Unmarked

theorem single
    {expression : Expr}
    (unmarked : expression.Unmarked) :
    expression.multi = false :=
  unmarked expression .refl

theorem kid
    {expression kid : Expr}
    (unmarked : expression.Unmarked)
    (member : kid ∈ expression.kids) :
    kid.Unmarked :=
  fun node reaches => unmarked node (.head member reaches)

/-- An expression is unmarked if its root and its operands are. -/
theorem of_kids
    {expression : Expr}
    (single : expression.multi = false)
    (kids : ∀ kid ∈ expression.kids, kid.Unmarked) :
    expression.Unmarked := by
  intro node reaches
  rcases Relation.ReflTransGen.cases_head reaches with rfl | ⟨kid, member, later⟩
  · exact single
  · exact kids kid member node later

theorem of_operand
    {expression source : Expr}
    (kids : expression.kids = [source])
    (marks : expression.multi = (false || source.multi))
    (unmarked : source.Unmarked) :
    expression.Unmarked := by
  apply of_kids
  · rw [marks, unmarked.single, Bool.or_false]
  · simpa [kids] using unmarked

theorem of_operands
    {expression left right : Expr}
    (kids : expression.kids = [left, right])
    (marks : expression.multi = (false || left.multi || right.multi))
    (ofLeft : left.Unmarked)
    (ofRight : right.Unmarked) :
    expression.Unmarked := by
  apply of_kids
  · rw [marks, ofLeft.single, ofRight.single, Bool.or_false, Bool.or_false]
  · simp [kids, ofLeft, ofRight]

/-- A multi operand would have made the expression multi. -/
theorem of_proper
    {expression : Expr}
    (proper : expression.Throughout Expr.Proper)
    (single : expression.multi = false) :
    expression.Unmarked := by
  intro node reaches
  suffices node.Throughout Expr.Proper ∧ node.multi = false from this.2
  induction reaches with
  | refl => exact ⟨proper, single⟩
  | tail _ member inductionHypothesis =>
      obtain ⟨ofNode, plain⟩ := inductionHypothesis
      refine ⟨ofNode.kid member, ?_⟩
      by_contra marked
      rw [ofNode.self.inherits _ member (by simpa using marked)] at plain
      exact Bool.noConfusion plain

end Expr.Unmarked

/-! ## Constructors make no multi node of operands without one -/

namespace Build

variable {table : Table} {source left right cond onTrue onFalse : Expr}

theorem unmarked_constNode
    (word width : Int) :
    Yields (constNode word width) table fun made _ => made.Unmarked := by
  intro made later ran
  obtain ⟨tag, rfl, _, _, single⟩ := constNode_spec ran
  exact .of_kids single (by simp [Expr.kids])

theorem unmarked_constant
    (value width : Int) :
    Yields (constant value width) table fun made _ => made.Unmarked :=
  Yields.bind fun _ _ _ => unmarked_constNode _ _

/-- A constant that is computed from a word, if the word can be computed. -/
theorem unmarked_computed
    (word : Except Fault Int)
    (width : Int) :
    Yields (do constant (← ofExcept word) width) table fun made _ => made.Unmarked :=
  Yields.bind fun _ _ _ => unmarked_constant _ _

theorem unmarked_notOptimized
    (unmarked : source.Unmarked) :
    Yields (notOptimized source) table fun made _ => made.Unmarked := by
  intro made later ran
  obtain ⟨tag, rfl, _, _, marks⟩ := notOptimized_spec ran
  exact .of_operand rfl marks unmarked

theorem unmarked_readNode
    (updates : Updates)
    (unmarked : source.Unmarked) :
    Yields (readNode updates source false) table fun made _ => made.Unmarked := by
  intro made later ran
  obtain ⟨tag, rfl, _, _, marks⟩ := readNode_spec ran
  exact .of_operand rfl marks unmarked

/-- What is read is without multi nodes, or it was written at the place that is read. -/
theorem unmarked_read
    (updates : Updates)
    (unmarked : source.Unmarked) :
    Yields (read updates source) table fun made _ =>
      made.Unmarked ∨
        ∃ position, source.constant? = some position ∧
          known position updates = .ok (.written made) := by
  have ofNode :
      Yields (readNode updates source false) table fun made _ =>
        made.Unmarked ∨
          ∃ position, source.constant? = some position ∧
            known position updates = .ok (.written made) :=
    fun _ _ ran => .inl (unmarked_readNode updates unmarked ran)
  unfold read
  cases place : source.constant? with
  | none =>
      rw [place] at ofNode
      exact ofNode
  | some position =>
      rw [place] at ofNode
      refine Yields.bind (Yields.ofExcept fun found looked => ?_)
      cases found with
      | written value => exact Yields.pure (.inr ⟨position, rfl, looked⟩)
      | stored value width =>
          exact fun _ _ ran => .inl (unmarked_constant value width ran)
      | unknown => exact ofNode

/-- A select on unmarked operands is unmarked, or gives a branch that is. -/
theorem unmarked_select
    (ofCond : cond.Unmarked)
    (ofTrue : onTrue.Unmarked)
    (ofFalse : onFalse.Unmarked) :
    Yields (select cond onTrue onFalse) table fun made _ => made.Unmarked := by
  have ofNode :
      Yields (selectNode none cond onTrue onFalse false) table fun made _ => made.Unmarked := by
    intro made later ran
    obtain ⟨tag, rfl, _, _, marks⟩ := selectNode_spec ran
    refine .of_kids (marks.trans ?_) ?_
    · simp [ofCond.single, ofTrue.single, ofFalse.single]
    · simp [Expr.kids, ofCond, ofTrue, ofFalse]
  unfold select
  rw [if_neg Bool.false_ne_true]
  split
  · split
    · exact Yields.pure ofTrue
    · exact Yields.pure ofFalse
  · split
    · exact Yields.pure ofTrue
    · exact ofNode

/-- So is a concatenation. -/
theorem unmarked_concat
    (ofLeft : left.Unmarked)
    (ofRight : right.Unmarked) :
    Yields (concat left right) table fun made _ => made.Unmarked := by
  unfold concat
  split
  · exact unmarked_computed _ _
  · intro made later ran
    obtain ⟨tag, rfl, _, _, marks⟩ := concatNode_spec ran
    exact .of_operands rfl marks ofLeft ofRight

/-- So is an extraction. -/
theorem unmarked_extract
    (offset width : Int)
    (unmarked : source.Unmarked) :
    Yields (extract source offset width) table fun made _ => made.Unmarked := by
  unfold extract
  rw [if_neg Bool.false_ne_true]
  split
  · exact Yields.pure unmarked
  · split
    · exact unmarked_computed _ _
    · intro made later ran
      obtain ⟨tag, rfl, _, _, marks⟩ := extractNode_spec ran
      exact .of_operand rfl marks unmarked

/-- So is a zero extension. -/
theorem unmarked_zext
    (width : Int)
    (unmarked : source.Unmarked) :
    Yields (zext source width) table fun made _ => made.Unmarked := by
  unfold zext
  rw [if_neg Bool.false_ne_true]
  split
  · exact Yields.pure unmarked
  · split
    · exact unmarked_extract 0 width unmarked
    · split
      · exact Yields.bind fun _ _ _ => unmarked_constNode _ _
      · intro made later ran
        obtain ⟨tag, rfl, _, _, marks⟩ := zextNode_spec ran
        exact .of_operand rfl marks unmarked

/-- So is a sign extension. -/
theorem unmarked_sext
    (width : Int)
    (unmarked : source.Unmarked) :
    Yields (sext source width) table fun made _ => made.Unmarked := by
  unfold sext
  rw [if_neg Bool.false_ne_true]
  split
  · exact Yields.pure unmarked
  · split
    · exact unmarked_extract 0 width unmarked
    · split
      · exact unmarked_computed _ _
      · intro made later ran
        obtain ⟨tag, rfl, _, _, marks⟩ := sextNode_spec ran
        exact .of_operand rfl marks unmarked

/-- The complement of a complement is an operand, which is why all nodes have to be plain. -/
theorem unmarked_not
    (unmarked : source.Unmarked) :
    Yields (Build.not source) table fun made _ => made.Unmarked := by
  unfold Build.not
  rw [if_neg Bool.false_ne_true]
  split
  · exact unmarked_computed _ _
  · cases first : source.kids.head? with
    | none => exact Yields.throw
    | some kid => exact Yields.pure (unmarked.kid (List.mem_of_head? first))
  · intro made later ran
    obtain ⟨tag, rfl, _, _, marks⟩ := notNode_spec ran
    exact .of_operand rfl marks unmarked

theorem unmarked_binaryOpen
    (operator : BinaryOp)
    (ofLeft : left.Unmarked)
    (ofRight : right.Unmarked) :
    Yields (binaryOpen operator left right) table fun made _ => made.Unmarked := by
  have ofNode :
      Yields (binaryNode operator left right false) table fun made _ => made.Unmarked := by
    intro made later ran
    obtain ⟨tag, rfl, _, _, marks⟩ := binaryNode_spec ran
    exact .of_operands rfl marks ofLeft ofRight
  unfold binaryOpen
  split
  · cases simpler : simplifyLogic operator left right with
    | none => exact ofNode
    | some made =>
        have among : made = left ∨ made = right := by
          unfold simplifyLogic at simpler
          grind
        rcases among with rfl | rfl
        · exact Yields.pure ofLeft
        · exact Yields.pure ofRight
  · exact ofNode

/-- So is a binary operator, whatever it simplifies to. -/
theorem unmarked_binary
    (operator : BinaryOp)
    (ofLeft : left.Unmarked)
    (ofRight : right.Unmarked) :
    Yields (binary operator left right) table fun made _ => made.Unmarked := by
  unfold binary
  rw [if_neg Bool.false_ne_true]
  split
  · refine Yields.bind fun value _ _ => ?_
    cases value with
    | some result => exact unmarked_constant _ _
    | none => exact unmarked_binaryOpen operator ofLeft ofRight
  · exact unmarked_binaryOpen operator ofLeft ofRight

end Build

/-! ## Where a piece comes from -/

section

variable {table : Table} {firsts seconds thirds : List Piece}

/-- What is among the results was given by one of the elements. -/
theorem Build.settled_of_mem_mapM
    {α β : Type}
    {action : α → Build β}
    (stable : ∀ element, Stable (action element))
    (elements : List α) :
    Yields (elements.mapM action) table fun results later =>
      ∀ result ∈ results, ∃ element ∈ elements, Settled later (action element) result := by
  induction elements generalizing table with
  | nil =>
      rw [List.mapM_nil]
      exact Yields.pure (by simp)
  | cons first rest inductionHypothesis =>
      rw [List.mapM_cons]
      refine Yields.bind fun result middle ranFirst => ?_
      refine Yields.bind fun results later ranRest => Yields.pure ?_
      intro given member
      rcases List.mem_cons.1 member with rfl | inRest
      · have grows := (Build.Stable.mapM stable rest).grows_of_ok ranRest
        exact ⟨first, List.mem_cons_self, ((stable first).settles ranFirst).mono grows⟩
      · obtain ⟨element, among, settled⟩ := inductionHypothesis ranRest given inRest
        exact ⟨element, List.mem_cons_of_mem _ among, settled⟩

/-- A piece that was rebuilt is a node that its constructor gives. -/
theorem Build.settled_snd
    {action : Build Expr}
    {number : Int}
    {piece : Piece}
    (stable : Stable action)
    (settled : Settled table (do pure (number, ← action)) piece) :
    Settled table action piece.2 := by
  obtain ⟨made, rfl, rebuilt⟩ := Build.settled_numbered stable settled
  exact rebuilt

/-- Every piece that is rebuilt is made of a piece of the operand. -/
theorem Piece.of_mem_rebuild
    {node : Expr → Build Expr}
    (stable : ∀ operand, Stable (node operand)) :
    Yields (Piece.rebuild node firsts) table fun pieces later =>
      ∀ piece ∈ pieces, ∃ first ∈ firsts, Settled later (node first.2) piece.2 := by
  intro pieces later ran piece member
  have each (first : Piece) : Stable (do pure (first.1, ← node first.2)) :=
    (stable first.2).bind fun _ => Stable.pure _
  obtain ⟨first, among, settled⟩ := Build.settled_of_mem_mapM each _ ran piece member
  exact ⟨first, among, Build.settled_snd (stable first.2) settled⟩

/-- The same for two operands: each pair of pieces makes one. -/
theorem Piece.of_mem_rebuild₂
    {node : Expr → Expr → Build Expr}
    (stable : ∀ first second, Stable (node first second)) :
    Yields (Piece.rebuild₂ node firsts seconds) table fun pieces later =>
      ∀ piece ∈ pieces, ∃ first ∈ firsts, ∃ second ∈ seconds,
        Settled later (node first.2 second.2) piece.2 := by
  intro pieces later ran piece member
  have each (pair : Piece × Piece) :
      Stable (do pure (Revision.pick pair.1.1 pair.2.1, ← node pair.1.2 pair.2.2)) :=
    (stable pair.1.2 pair.2.2).bind fun _ => Stable.pure _
  obtain ⟨pair, among, settled⟩ := Build.settled_of_mem_mapM each _ ran piece member
  simp only [List.mem_flatMap, List.mem_map] at among
  obtain ⟨first, inFirsts, second, inSeconds, rfl⟩ := among
  exact ⟨first, inFirsts, second, inSeconds,
    Build.settled_snd (stable first.2 second.2) settled⟩

theorem Piece.of_mem_rebuild₃
    {node : Expr → Expr → Expr → Build Expr}
    (stable : ∀ first second third, Stable (node first second third)) :
    Yields (Piece.rebuild₃ node firsts seconds thirds) table fun pieces later =>
      ∀ piece ∈ pieces, ∃ first ∈ firsts, ∃ second ∈ seconds, ∃ third ∈ thirds,
        Settled later (node first.2 second.2 third.2) piece.2 := by
  intro pieces later ran piece member
  have each (triple : Piece × Piece × Piece) :
      Stable (do
        pure (Revision.pick (Revision.pick triple.1.1 triple.2.1.1) triple.2.2.1,
          ← node triple.1.2 triple.2.1.2 triple.2.2.2)) :=
    (stable _ _ _).bind fun _ => Stable.pure _
  obtain ⟨triple, among, settled⟩ := Build.settled_of_mem_mapM each _ ran piece member
  simp only [List.mem_flatMap, List.mem_map] at among
  obtain ⟨first, inFirsts, second, inSeconds, third, inThirds, rfl⟩ := among
  exact ⟨first, inFirsts, second, inSeconds, third, inThirds,
    Build.settled_snd (stable first.2 second.2 third.2) settled⟩

end

/-! ## Reads that uncover a written value -/

/--
A multi read uncovers what its history holds at the place that a piece of its index
names, if it was written there.
-/
inductive Expr.Uncovers (table : Table) : Expr → Expr → Prop where
  | read
      {tag : Tag}
      {updates : Updates}
      {index value : Expr}
      {parts : List Piece}
      {part : Piece}
      {position : Option Int}
      (marked : tag.multi = true)
      (split : Settled table index.split parts)
      (member : part ∈ parts)
      (place : part.2.constant? = some position)
      (found : Build.known position updates = .ok (.written value)) :
      Expr.Uncovers table (.read tag updates index) value

/-- A read that is reached uncovers a multi value. -/
def Expr.Leaks (expression : Expr) (table : Table) : Prop :=
  ∃ node value, expression.Reaches node ∧ node.Uncovers table value ∧ value.multi = true

/-- The pieces are without multi nodes, unless a read leaks. -/
def Expr.Unmarks (expression : Expr) (pieces : List Piece) (table : Table) : Prop :=
  expression.Leaks table ∨ ∀ piece ∈ pieces, piece.2.Unmarked

section

variable {table later : Table}

theorem Expr.Uncovers.mono
    {node value : Expr}
    (uncovers : node.Uncovers table value)
    (grows : table.Grows later) :
    node.Uncovers later value := by
  cases uncovers with
  | read marked split member place found =>
      exact .read marked (split.mono grows) member place found

theorem Expr.Leaks.mono
    {expression : Expr}
    (leaks : expression.Leaks table)
    (grows : table.Grows later) :
    expression.Leaks later := by
  obtain ⟨node, value, reaches, uncovers, marked⟩ := leaks
  exact ⟨node, value, reaches, uncovers.mono grows, marked⟩

/-- A leak below an operand is a leak. -/
theorem Expr.Leaks.of_kid
    {expression kid : Expr}
    (member : kid ∈ expression.kids)
    (leaks : kid.Leaks table) :
    expression.Leaks table := by
  obtain ⟨node, value, reaches, found⟩ := leaks
  exact ⟨node, value, .head member reaches, found⟩

/-- What the pieces of an operand are is remembered while the table grows. -/
theorem Expr.Unmarks.pass
    {expression kid : Expr}
    {pieces : List Piece}
    (unmarks : kid.Unmarks pieces table)
    (member : kid ∈ expression.kids)
    (grows : table.Grows later) :
    expression.Leaks later ∨ ∀ piece ∈ pieces, piece.2.Unmarked :=
  unmarks.imp_left fun leaks => (leaks.mono grows).of_kid member

/-- Rebuilding an operand's unmarked pieces gives unmarked pieces. -/
theorem Expr.unmarks_unary
    {expression operand : Expr}
    {node : Expr → Build Expr}
    (stable : ∀ operand, Stable (node operand))
    (keeps : ∀ {part : Expr} {middle : Table}, part.Unmarked →
      Yields (node part) middle fun made _ => made.Unmarked)
    (member : operand ∈ expression.kids)
    (ofOperand : Yields operand.split table operand.Unmarks) :
    Yields (operand.split >>= Piece.rebuild node) table expression.Unmarks := by
  refine Yields.bind fun parts middle ranOperand pieces final ran => ?_
  have grows := (Piece.stable_rebuild stable).grows_of_ok ran
  rcases (ofOperand ranOperand).pass member grows with leaks | unmarked
  · exact .inl leaks
  · refine .inr fun piece among => ?_
    obtain ⟨part, inParts, settled⟩ := Piece.of_mem_rebuild stable ran piece among
    exact keeps (unmarked part inParts) (settled final (.refl final))

/-- The same for two operands. -/
theorem Expr.unmarks_binary
    {expression left right : Expr}
    {node : Expr → Expr → Build Expr}
    (stable : ∀ left right, Stable (node left right))
    (stableRight : Stable right.split)
    (keeps : ∀ {first second : Expr} {middle : Table}, first.Unmarked → second.Unmarked →
      Yields (node first second) middle fun made _ => made.Unmarked)
    (inLeft : left ∈ expression.kids)
    (inRight : right ∈ expression.kids)
    (ofLeft : Yields left.split table left.Unmarks)
    (ofRight : ∀ middle : Table, Yields right.split middle right.Unmarks) :
    Yields (do Piece.rebuild₂ node (← left.split) (← right.split)) table
      expression.Unmarks := by
  refine Yields.bind fun firsts middle ranLeft => ?_
  refine Yields.bind fun seconds after ranRight pieces final ran => ?_
  have grows := (Piece.stable_rebuild₂ stable).grows_of_ok ran
  have growsRight := (stableRight.grows_of_ok ranRight).trans grows
  rcases (ofLeft ranLeft).pass inLeft growsRight with leaks | unmarkedFirst
  · exact .inl leaks
  rcases (ofRight middle ranRight).pass inRight grows with leaks | unmarkedSecond
  · exact .inl leaks
  refine .inr fun piece among => ?_
  obtain ⟨first, inFirsts, second, inSeconds, settled⟩ :=
    Piece.of_mem_rebuild₂ stable ran piece among
  exact keeps (unmarkedFirst first inFirsts) (unmarkedSecond second inSeconds)
    (settled final (.refl final))

theorem Expr.unmarks_select
    {expression cond onTrue onFalse : Expr}
    (stableTrue : Stable onTrue.split)
    (stableFalse : Stable onFalse.split)
    (inCond : cond ∈ expression.kids)
    (inTrue : onTrue ∈ expression.kids)
    (inFalse : onFalse ∈ expression.kids)
    (ofCond : Yields cond.split table cond.Unmarks)
    (ofTrue : ∀ middle : Table, Yields onTrue.split middle onTrue.Unmarks)
    (ofFalse : ∀ middle : Table, Yields onFalse.split middle onFalse.Unmarks) :
    Yields
      (do
        Piece.rebuild₃ (fun cond onTrue onFalse => Build.select cond onTrue onFalse)
          (← cond.split) (← onTrue.split) (← onFalse.split))
      table expression.Unmarks := by
  have stable (cond onTrue onFalse : Expr) : Stable (Build.select cond onTrue onFalse) :=
    Build.stable_select cond onTrue onFalse false
  refine Yields.bind fun guards first ranCond => ?_
  refine Yields.bind fun firsts second ranTrue => ?_
  refine Yields.bind fun seconds third ranFalse pieces final ran => ?_
  have grows := (Piece.stable_rebuild₃ stable).grows_of_ok ran
  have growsFalse := (stableFalse.grows_of_ok ranFalse).trans grows
  have growsTrue := (stableTrue.grows_of_ok ranTrue).trans growsFalse
  rcases (ofCond ranCond).pass inCond growsTrue with leaks | unmarkedGuard
  · exact .inl leaks
  rcases (ofTrue first ranTrue).pass inTrue growsFalse with leaks | unmarkedTrue
  · exact .inl leaks
  rcases (ofFalse second ranFalse).pass inFalse grows with leaks | unmarkedFalse
  · exact .inl leaks
  refine .inr fun piece among => ?_
  obtain ⟨guard, inGuards, chosen, inFirsts, refused, inSeconds, settled⟩ :=
    Piece.of_mem_rebuild₃ stable ran piece among
  exact Build.unmarked_select (unmarkedGuard guard inGuards) (unmarkedTrue chosen inFirsts)
    (unmarkedFalse refused inSeconds) (settled final (.refl final))

/-- The pieces of a revision select are those of its branches. -/
theorem Expr.unmarks_revision
    {expression onTrue onFalse : Expr}
    {truePatch falsePatch : Int}
    (stableFalse : Stable onFalse.split)
    (inTrue : onTrue ∈ expression.kids)
    (inFalse : onFalse ∈ expression.kids)
    (ofTrue : Yields onTrue.split table onTrue.Unmarks)
    (ofFalse : ∀ middle : Table, Yields onFalse.split middle onFalse.Unmarks) :
    Yields
      (do
        let first ← onTrue.split
        let second ← onFalse.split
        pure (first.map (Piece.under truePatch) ++ second.map (Piece.under falsePatch)))
      table expression.Unmarks := by
  refine Yields.bind fun firsts middle ranTrue => ?_
  refine Yields.bind fun seconds final ranFalse => Yields.pure ?_
  have grows := stableFalse.grows_of_ok ranFalse
  rcases (ofTrue ranTrue).pass inTrue grows with leaks | unmarkedTrue
  · exact .inl leaks
  rcases (ofFalse middle ranFalse).pass inFalse (.refl final) with leaks | unmarkedFalse
  · exact .inl leaks
  refine .inr fun piece among => ?_
  rcases List.mem_append.1 among with among | among
  · obtain ⟨part, inFirsts, rfl⟩ := List.mem_map.1 among
    exact unmarkedTrue part inFirsts
  · obtain ⟨part, inSeconds, rfl⟩ := List.mem_map.1 among
    exact unmarkedFalse part inSeconds

/-- A read is the one node whose constructor may hand out what is not made of its operand. -/
theorem Expr.unmarks_read
    {tag : Tag}
    {updates : Updates}
    {index : Expr}
    (proper : (Expr.read tag updates index).Throughout Expr.Proper)
    (marked : tag.multi = true)
    (ofIndex : Yields index.split table index.Unmarks) :
    Yields (index.split >>= Piece.rebuild fun index => Build.read updates index) table
      (Expr.read tag updates index).Unmarks := by
  have stable (index : Expr) : Stable (Build.read updates index) :=
    Build.stable_read updates index false
  have inKids : index ∈ (Expr.read tag updates index).kids := List.mem_cons_self
  have parts := (Expr.throughout_read tag updates index).1 proper
  refine Yields.bind fun places middle ranIndex pieces final ran => ?_
  have grows := (Piece.stable_rebuild stable).grows_of_ok ran
  have split : Settled final index.split places :=
    ((index.stable_split parts.2.1).settles ranIndex).mono grows
  rcases (ofIndex ranIndex).pass inKids grows with leaks | unmarked
  · exact .inl leaks
  by_cases leaks : (Expr.read tag updates index).Leaks final
  · exact .inl leaks
  refine .inr fun piece among => ?_
  obtain ⟨place, inPlaces, settled⟩ := Piece.of_mem_rebuild stable ran piece among
  rcases Build.unmarked_read updates (unmarked place inPlaces) (settled final (.refl final))
    with plain | ⟨position, atPlace, found⟩
  · exact plain
  · refine .of_proper
      (parts.2.2.of_mem_written (Build.mem_written_of_known updates found)) ?_
    by_contra isMarked
    exact leaks ⟨_, piece.2, .refl, .read marked split inPlaces atPlace found,
      by simpa using isMarked⟩

end

open Build in
/-- The pieces of an expression are without multi nodes, unless a read leaks. -/
theorem Expr.unmarks_of_split :
    (expression : Expr) → expression.Throughout Expr.Proper → (table : Table) →
      Yields expression.split table expression.Unmarks := by
  intro expression proper table
  by_cases single : expression.multi = false
  · unfold Expr.split
    rw [if_pos single]
    refine Yields.pure (.inr ?_)
    simpa using Unmarked.of_proper proper single
  unfold Expr.split
  rw [if_neg single]
  cases expression with
  | const tag value => exact (single (proper.self.plain rfl)).elim
  | loose tag kind value kids => exact proper.self.measured.elim
  | notOptimized tag source =>
      have member : source ∈ (Expr.notOptimized tag source).kids := List.mem_cons_self
      exact Expr.unmarks_unary (stable_notOptimized · false) unmarked_notOptimized member
        (source.unmarks_of_split (proper.kid member) table)
  | read tag updates index =>
      exact Expr.unmarks_read proper (Bool.eq_true_of_not_eq_false single)
        (index.unmarks_of_split (proper.kid List.mem_cons_self) table)
  | extract tag offset source =>
      have member : source ∈ (Expr.extract tag offset source).kids := List.mem_cons_self
      exact Expr.unmarks_unary (stable_extract · offset tag.width false)
        (unmarked_extract offset tag.width) member
        (source.unmarks_of_split (proper.kid member) table)
  | zext tag source =>
      have member : source ∈ (Expr.zext tag source).kids := List.mem_cons_self
      exact Expr.unmarks_unary (stable_zext · tag.width false) (unmarked_zext tag.width) member
        (source.unmarks_of_split (proper.kid member) table)
  | sext tag source =>
      have member : source ∈ (Expr.sext tag source).kids := List.mem_cons_self
      exact Expr.unmarks_unary (stable_sext · tag.width false) (unmarked_sext tag.width) member
        (source.unmarks_of_split (proper.kid member) table)
  | not tag source =>
      have member : source ∈ (Expr.not tag source).kids := List.mem_cons_self
      exact Expr.unmarks_unary (stable_not · false) unmarked_not member
        (source.unmarks_of_split (proper.kid member) table)
  | concat tag high low =>
      have inHigh : high ∈ (Expr.concat tag high low).kids := by simp [Expr.kids]
      have inLow : low ∈ (Expr.concat tag high low).kids := by simp [Expr.kids]
      exact Expr.unmarks_binary (stable_concat · · false) (low.stable_split (proper.kid inLow))
        unmarked_concat inHigh inLow (high.unmarks_of_split (proper.kid inHigh) table)
        (low.unmarks_of_split (proper.kid inLow))
  | binary tag operator left right =>
      have inLeft : left ∈ (Expr.binary tag operator left right).kids := by simp [Expr.kids]
      have inRight : right ∈ (Expr.binary tag operator left right).kids := by simp [Expr.kids]
      exact Expr.unmarks_binary (stable_binary operator · · false)
        (right.stable_split (proper.kid inRight)) (unmarked_binary operator) inLeft inRight
        (left.unmarks_of_split (proper.kid inLeft) table)
        (right.unmarks_of_split (proper.kid inRight))
  | select tag patches cond onTrue onFalse =>
      have inTrue : onTrue ∈ (Expr.select tag patches cond onTrue onFalse).kids := by
        simp [Expr.kids]
      have inFalse : onFalse ∈ (Expr.select tag patches cond onTrue onFalse).kids := by
        simp [Expr.kids]
      have stableFalse := onFalse.stable_split (proper.kid inFalse)
      have ofTrue := onTrue.unmarks_of_split (proper.kid inTrue)
      have ofFalse := onFalse.unmarks_of_split (proper.kid inFalse)
      cases patches with
      | some pair => exact Expr.unmarks_revision stableFalse inTrue inFalse (ofTrue table) ofFalse
      | none =>
          have inCond : cond ∈ (Expr.select tag none cond onTrue onFalse).kids := by
            simp [Expr.kids]
          exact Expr.unmarks_select (onTrue.stable_split (proper.kid inTrue)) stableFalse
            inCond inTrue inFalse (cond.unmarks_of_split (proper.kid inCond) table)
            ofTrue ofFalse

/-- What a read uncovers is one of its pieces. -/
theorem Expr.Uncovers.mem_split
    {expression value : Expr}
    {start table : Table}
    {pieces : List Piece}
    (uncovers : expression.Uncovers table value)
    (proper : expression.Throughout Expr.Proper)
    (ran : expression.split start = .ok pieces table) :
    ∃ number, (number, value) ∈ pieces := by
  cases uncovers with
  | @read tag updates index _ parts part position marked split member place found =>
      have stable (index : Expr) : Stable (Build.read updates index) :=
        Build.stable_read updates index false
      have stableIndex := index.stable_split (proper.kid List.mem_cons_self)
      unfold Expr.split at ran
      rw [if_neg (by simp [Expr.multi, Expr.tag, marked])] at ran
      obtain ⟨places, middle, ranIndex, rebuilt⟩ := bind_eq_ok.1 ran
      have grows := (Piece.stable_rebuild stable).grows_of_ok rebuilt
      -- the index has the same pieces now as when it was split
      have again := (stableIndex.settles ranIndex).mono grows table (.refl table)
      rw [split table (.refl table)] at again
      cases again
      obtain ⟨made, settled, among⟩ :=
        Piece.mem_rebuild stable rebuilt part.1 part.2 member
      have handed : Build.read updates part.2 false table = .ok value table := by
        unfold Build.read
        rw [place]
        exact bind_of_ok (ofExcept_eq_ok.2 ⟨found, rfl⟩)
      have given := settled table (.refl table)
      rw [handed] at given
      cases given
      exact ⟨part.1, among⟩

/--
No piece is multi, so each is its own only piece, unless a multi read that is reached
uncovers a multi value; and what a read uncovers is one of its pieces, multi or not.
-/
theorem split_unmarked
    {workshop : Workshop}
    (reached : workshop.Reachable)
    {expression : Expr}
    (built : expression ∈ workshop.expressions)
    {start table : Table}
    {pieces : List Piece}
    (ran : expression.split start = .ok pieces table) :
    (expression.Leaks table ∨
      ∀ piece ∈ pieces, piece.2.multi = false ∧
        piece.2.split = pure [(Revision.shared, piece.2)]) ∧
      ∀ value, expression.Uncovers table value → ∃ number, (number, value) ∈ pieces := by
  have proper : expression.Throughout Expr.Proper :=
    (reached.sound.registered expression built).proper
  constructor
  · refine (expression.unmarks_of_split proper start ran).imp_right fun unmarked piece member => ?_
    have single := (unmarked piece member).single
    refine ⟨single, ?_⟩
    unfold Expr.split
    rw [if_pos single]
  · exact fun value uncovers => uncovers.mem_split proper ran

namespace WrittenChoice

def array : ArrayDecl := ⟨0, "a", 4, none, 32, 8⟩

def zero : Expr := .const ⟨1, 32, false⟩ 0

def one : Expr := .const ⟨2, 32, false⟩ 1

def first : Expr := .read ⟨3, 8, false⟩ (.root array) zero

def second : Expr := .read ⟨4, 8, false⟩ (.root array) one

def blank : Expr := .const ⟨5, 8, false⟩ 0

def isBlank : Expr := .binary ⟨6, 1, false⟩ .eq first blank

/-- A byte that differs between the revisions. -/
def choice : Expr := .select ⟨7, 8, true⟩ (some (1, 2)) isBlank first second

/-- A place that differs between the revisions. -/
def place : Expr := .select ⟨8, 32, true⟩ (some (1, 2)) isBlank zero one

/-- The byte is written over the start of the array. -/
def written : Updates := .write 9 zero choice (.root array)

def lookup : Expr := .read ⟨10, 8, true⟩ written place

def operands : Workshop :=
  [.constant 0 32, .constant 1 32, .read (.root array) zero false,
    .read (.root array) one false, .constant 0 8, .binary .eq first blank false,
    .patchSelect isBlank first second (some 1) (some 2),
    .patchSelect isBlank zero one (some 1) (some 2)].foldl
      Workshop.construct (Workshop.declare {} "a" 4 none 32 8)

def workshop : Workshop :=
  (operands.write (.root array) zero choice).construct (.read written place false)

theorem expressions_operands :
    operands.expressions = [place, choice, isBlank, blank, second, first, one, zero] := rfl

theorem expressions_workshop :
    workshop.expressions = [lookup, place, choice, isBlank, blank, second, first, one, zero] := rfl

theorem reachable : workshop.Reachable := by
  have built : operands.Reachable := by
    refine Workshop.Reachable.foldl_construct
      (Relation.ReflTransGen.single (.declare "a" 4 none 32 8)) ?_
    refine ⟨?_, ?_, ?_, ?_, ?_, ?_, ?_, ?_, ?_, ?_, ?_, ?_, ?_, ?_, ?_, ?_, trivial⟩
    all_goals simp [Construction.operands, Construction.history?]
    all_goals repeat constructor
  have rooted : .root array ∈ operands.histories := .head _
  have atHand : zero ∈ operands.expressions ∧ choice ∈ operands.expressions := by
    simp [expressions_operands]
  refine (built.tail (.write rooted atHand.1 atHand.2)).tail (.construct ?_ ?_)
  all_goals simp [Construction.operands, Construction.history?]
  · exact .head _
  · exact .head _

/-- All that stands below the place is plain. -/
theorem not_leaks (table : Table) : ¬ place.Leaks table := by
  have plain : ∀ kid ∈ place.kids, kid.Unmarked := by
    intro kid member
    have built : kid ∈ workshop.expressions ∧ kid.multi = false := by
      simp only [place, Expr.kids, List.mem_cons, List.not_mem_nil, or_false] at member
      rcases member with rfl | rfl | rfl
      all_goals exact ⟨by simp [expressions_workshop], rfl⟩
    exact .of_proper (reachable.sound.registered kid built.1).proper built.2
  rintro ⟨node, value, reaches, uncovers, _⟩
  rcases Relation.ReflTransGen.cases_head reaches with rfl | ⟨kid, member, below⟩
  · cases uncovers
  · have single := plain kid member node below
    cases uncovers with
    | read marked => exact Bool.noConfusion (marked.symm.trans single)

end WrittenChoice

open WrittenChoice in
/-- The place has two pieces and neither is multi, but at one of them the lookup uncovers
the byte that was written, which is. -/
theorem split_unmarked_lookup :
    (∃ pieces table, place.split workshop.table = .ok pieces table ∧
      ∀ piece ∈ pieces, piece.2.multi = false ∧
        piece.2.split = pure [(Revision.shared, piece.2)]) ∧
      ∃ pieces table, lookup.split workshop.table = .ok pieces table ∧
        choice.multi = true ∧ ∃ number, (number, choice) ∈ pieces := by
  constructor
  · have built : place ∈ workshop.expressions := by simp [expressions_workshop]
    have ran : place.split workshop.table = .ok _ _ := rfl
    exact ⟨_, _, ran, (split_unmarked reachable built ran).1.resolve_left (not_leaks _)⟩
  · have built : lookup ∈ workshop.expressions := by simp [expressions_workshop]
    have ran : lookup.split workshop.table = .ok _ _ := rfl
    have split (table : Table) : Settled table place.split [(1, zero), (2, one)] :=
      fun _ _ => rfl
    exact ⟨_, _, ran, rfl, (split_unmarked reachable built ran).2 choice
      (.read rfl (split _) List.mem_cons_self rfl rfl)⟩

end Diverge

import Diverge.Proofs.Expr.Conditions

/-!
# What the constructors simplify

A constructor gives something that it was given, a constant or a node on its operands
(`Construction.gives`), and it makes a node that is not multi only if it finds nothing
simpler.  What holds of constants and of such nodes therefore holds throughout everything
that was built (`Workshop.Reachable.throughout`): there is no constant below a conjunction
of single bits that is not multi (`Workshop.Reachable.reduced`), and no zero extension that
is not multi is narrower than its operand (`Workshop.Reachable.widening`).
-/

namespace Diverge

open Stateful

/-! ## What the constructors give -/

/-- A node for which the constructors find nothing simpler, unless it is multi. -/
structure Build.Irreducible (node : Expr) : Prop where
  /-- No operand decides a conjunction or disjunction of single bits. -/
  logic : ∀ tag operator left right, node = .binary tag operator left right →
    operator.IsLogical → tag.multi = false → left.width = 1 →
      Build.simplifyLogic operator left right = none := by
    rintro _ _ _ _ ⟨⟩
  /-- A zero extension to a smaller width is an extraction. -/
  widening : node.Widening := by
    rintro _ _ ⟨⟩

/--
What a constructor gives for some operands and a history: something that it was given,
a constant, or a node on what it was given.
-/
inductive Build.Gives (operands : List Expr) (history : Option Updates) : Expr → Prop where
  | operand
      {operand : Expr}
      (isOperand : operand ∈ operands) :
      Gives operands history operand
  | kid
      {operand kid : Expr}
      (isOperand : operand ∈ operands)
      (isKid : kid ∈ operand.kids) :
      Gives operands history kid
  | written
      {updates : Updates}
      {value : Expr}
      (isHistory : updates ∈ history)
      (isWritten : value ∈ updates.written) :
      Gives operands history value
  | constant
      (tag : Tag)
      (value : Int) :
      Gives operands history (.const tag value)
  | node
      {node : Expr}
      (kids : node.kids = operands)
      (updates : node.updates? = history)
      (irreducible : Build.Irreducible node) :
      Gives operands history node

namespace Build

variable {table : Table} {source left right cond onTrue onFalse : Expr} {multi : Bool}

theorem gives_constNode
    {operands : List Expr}
    {history : Option Updates}
    (word width : Int) :
    Yields (constNode word width) table fun result _ => Gives operands history result := by
  intro result later ran
  obtain ⟨tag, rfl, _⟩ := constNode_spec ran
  exact .constant tag word

/-- A constant is given whatever the operands are. -/
theorem gives_constant
    {operands : List Expr}
    {history : Option Updates}
    (value width : Int) :
    Yields (constant value width) table fun result _ => Gives operands history result :=
  Yields.bind fun _ _ _ => gives_constNode _ _

theorem gives_notOptimized :
    Yields (notOptimized source multi) table fun result _ => Gives [source] none result := by
  intro result later ran
  obtain ⟨tag, rfl, _⟩ := notOptimized_spec ran
  exact .node rfl rfl ⟨nofun, nofun⟩

/-- A read gives a written value, a constant or a read. -/
theorem gives_read
    (updates : Updates) :
    Yields (read updates source multi) table fun result _ =>
      Gives [source] (some updates) result := by
  have ofNode : Yields (readNode updates source multi) table fun result _ =>
      Gives [source] (some updates) result := by
    intro result later ran
    obtain ⟨tag, rfl, _⟩ := readNode_spec ran
    exact .node rfl rfl ⟨nofun, nofun⟩
  unfold read
  split
  · refine Yields.bind (Yields.ofExcept fun found looked => ?_)
    cases found with
    | written value => exact Yields.pure (.written rfl (mem_written_of_known updates looked))
    | stored value width => exact gives_constant value width
    | unknown => exact ofNode
  · exact ofNode

theorem gives_selectNode
    (patches : Option (Int × Int)) :
    Yields (selectNode patches cond onTrue onFalse multi) table fun result _ =>
      Gives [cond, onTrue, onFalse] none result := by
  intro result later ran
  obtain ⟨tag, rfl, _⟩ := selectNode_spec ran
  exact .node rfl rfl ⟨nofun, nofun⟩

/-- A select gives a branch or a select. -/
theorem gives_select :
    Yields (select cond onTrue onFalse multi) table fun result _ =>
      Gives [cond, onTrue, onFalse] none result := by
  unfold select
  split
  · exact gives_selectNode none
  · split
    · refine Yields.pure ?_
      split
      · exact .operand (by simp)
      · exact .operand (by simp)
    · split
      · exact Yields.pure (.operand (by simp))
      · exact gives_selectNode none

theorem gives_patchSelect
    (truePatch falsePatch : Option Int) :
    Yields (patchSelect cond onTrue onFalse truePatch falsePatch) table fun result _ =>
      Gives [cond, onTrue, onFalse] none result := by
  unfold patchSelect
  split
  · exact gives_selectNode _
  · exact Yields.throw

/-- A concatenation gives a constant or a concatenation. -/
theorem gives_concat :
    Yields (concat left right multi) table fun result _ =>
      Gives [left, right] none result := by
  unfold concat
  split
  · exact Yields.bind fun _ _ _ => gives_constant _ _
  · intro result later ran
    obtain ⟨tag, rfl, _⟩ := concatNode_spec ran
    exact .node rfl rfl ⟨nofun, nofun⟩

/-- An extraction gives its operand, a constant or an extraction. -/
theorem gives_extract
    (offset width : Int) :
    Yields (extract source offset width multi) table fun result _ =>
      Gives [source] none result := by
  have ofNode : Yields (extractNode source offset width multi) table fun result _ =>
      Gives [source] none result := by
    intro result later ran
    obtain ⟨tag, rfl, _⟩ := extractNode_spec ran
    exact .node rfl rfl ⟨nofun, nofun⟩
  unfold extract
  split
  · exact ofNode
  · split
    · exact Yields.pure (.operand (by simp))
    · split
      · exact Yields.bind fun _ _ _ => gives_constant _ _
      · exact ofNode

/-- A zero extension gives its operand, a constant, an extraction, or an extension that widens. -/
theorem gives_zext
    (width : Int) :
    Yields (zext source width multi) table fun result _ => Gives [source] none result := by
  have ofNode (wide : multi = false → source.width ≤ width) :
      Yields (zextNode source width multi) table fun result _ =>
        Gives [source] none result := by
    intro result later ran
    obtain ⟨tag, rfl, _, isWidth, marks⟩ := zextNode_spec ran
    refine .node rfl rfl { logic := nofun, widening := ?_ }
    rintro _ _ ⟨⟩ unmarked
    rw [unmarked] at marks
    rw [isWidth]
    exact wide (Bool.or_eq_false_iff.1 marks.symm).1
  unfold zext
  split
  · rename_i marked
    exact ofNode fun unmarked => nomatch marked.symm.trans unmarked
  · split
    · exact Yields.pure (.operand (by simp))
    · split
      · exact gives_extract 0 width
      · rename_i wide
        split
        · exact Yields.bind fun _ _ _ => gives_constNode _ _
        · exact ofNode fun _ => Int.not_lt.1 wide

/-- A sign extension gives its operand, a constant, an extraction or an extension. -/
theorem gives_sext
    (width : Int) :
    Yields (sext source width multi) table fun result _ => Gives [source] none result := by
  have ofNode : Yields (sextNode source width multi) table fun result _ =>
      Gives [source] none result := by
    intro result later ran
    obtain ⟨tag, rfl, _⟩ := sextNode_spec ran
    exact .node rfl rfl ⟨nofun, nofun⟩
  unfold sext
  split
  · exact ofNode
  · split
    · exact Yields.pure (.operand (by simp))
    · split
      · exact gives_extract 0 width
      · split
        · exact Yields.bind fun _ _ _ => gives_constant _ _
        · exact ofNode

/-- A complement gives a constant, what is below a complement, or a complement. -/
theorem gives_not :
    Yields (Build.not source multi) table fun result _ => Gives [source] none result := by
  have ofNode : Yields (notNode source multi) table fun result _ =>
      Gives [source] none result := by
    intro result later ran
    obtain ⟨tag, rfl, _⟩ := notNode_spec ran
    exact .node rfl rfl ⟨nofun, nofun⟩
  unfold Build.not
  split
  · exact ofNode
  · split
    · exact Yields.bind fun _ _ _ => gives_constant _ _
    · cases first : source.kids.head? with
      | none => exact Yields.throw
      | some kid =>
          exact Yields.pure (.kid (List.mem_singleton_self _) (List.mem_of_head? first))
    · exact ofNode

/-- A node of two operands, if it has to be multi or nothing simpler can be found. -/
theorem gives_binaryNode
    {operator : BinaryOp}
    (stays : operator.IsLogical → multi = false → left.width = 1 →
      simplifyLogic operator left right = none) :
    Yields (binaryNode operator left right multi) table fun result _ =>
      Gives [left, right] none result := by
  intro result later ran
  obtain ⟨tag, rfl, _, _, marks⟩ := binaryNode_spec ran
  refine .node rfl rfl { logic := ?_, widening := nofun }
  rintro _ _ _ _ ⟨⟩ logical unmarked width
  refine stays logical ?_ width
  rw [unmarked] at marks
  cases multi with
  | false => rfl
  | true => cases marks

theorem gives_binaryOpen
    (operator : BinaryOp) :
    Yields (binaryOpen operator left right) table fun result _ =>
      Gives [left, right] none result := by
  unfold binaryOpen
  split
  · split
    · rename_i simplified
      rcases simplifyLogic_mem simplified with rfl | rfl
      · exact Yields.pure (.operand (by simp))
      · exact Yields.pure (.operand (by simp))
    · rename_i nothing
      exact gives_binaryNode fun _ _ _ => nothing
  · rename_i other
    exact gives_binaryNode fun logical _ width => (other ⟨logical, width⟩).elim

/-- A binary operator gives an operand, a constant or a node of its kind. -/
theorem gives_binary
    (operator : BinaryOp) :
    Yields (binary operator left right multi) table fun result _ =>
      Gives [left, right] none result := by
  unfold binary
  split
  · rename_i marked
    exact gives_binaryNode fun _ unmarked => nomatch marked.symm.trans unmarked
  · split
    · refine Yields.bind (Yields.ofExcept fun outcome _ => ?_)
      cases outcome with
      | some word => exact gives_constant _ _
      | none => exact gives_binaryOpen operator
    · exact gives_binaryOpen operator

end Build

/-- Every call gives something that it was given, a constant or a node on it. -/
theorem Construction.gives
    (call : Construction)
    (table : Table) :
    Yields call.run table fun result _ => Build.Gives call.operands call.history? result := by
  cases call with
  | constant value width => exact Build.gives_constant value width
  | notOptimized source multi => exact Build.gives_notOptimized
  | read updates index multi => exact Build.gives_read updates
  | select cond onTrue onFalse multi => exact Build.gives_select
  | patchSelect cond onTrue onFalse truePatch falsePatch =>
      exact Build.gives_patchSelect truePatch falsePatch
  | concat high low multi => exact Build.gives_concat
  | extract source offset width multi => exact Build.gives_extract offset width
  | zext source width multi => exact Build.gives_zext width
  | sext source width multi => exact Build.gives_sext width
  | not source multi => exact Build.gives_not
  | binary operator left right multi => exact Build.gives_binary operator

/-! ## What holds throughout what was built -/

/-- What holds throughout the operands of a constructor, of constants and of a new node. -/
theorem Build.Gives.throughout
    {condition : Expr → Prop}
    {operands : List Expr}
    {history : Option Updates}
    {result : Expr}
    (gives : Build.Gives operands history result)
    (measured : result.Measured)
    (ofConst : ∀ tag value, condition (.const tag value))
    (ofNode : result.updates? = history → Build.Irreducible result → condition result)
    (given : ∀ operand ∈ operands, operand.Throughout condition)
    (made : ∀ updates ∈ history, updates.Throughout condition) :
    result.Throughout condition := by
  cases gives with
  | operand isOperand => exact given _ isOperand
  | kid isOperand isKid => exact (given _ isOperand).kid isKid
  | written isHistory isWritten => exact (made _ isHistory).of_mem_written isWritten
  | constant tag value => exact (Expr.throughout_const tag value).2 (ofConst tag value)
  | node kids updates irreducible =>
      exact Expr.throughout_of_kids measured (ofNode updates irreducible) (kids ▸ given)
        (updates ▸ made)

namespace Workshop

/-- A condition on the nodes of all expressions and histories at hand. -/
structure Throughout (condition : Expr → Prop) (workshop : Workshop) : Prop where
  expressions : ∀ expression ∈ workshop.expressions, expression.Throughout condition
  histories : ∀ updates ∈ workshop.histories, updates.Throughout condition

section

variable
  {condition : Expr → Prop}
  (ofConst : ∀ tag value, condition (.const tag value))
  (ofNode : ∀ node, Build.Irreducible node → condition node)

include ofConst ofNode

/--
A condition that holds of constants and of irreducible nodes holds of everything that one more
call makes.
-/
theorem Throughout.construct
    {workshop : Workshop}
    {call : Construction}
    (sound : (workshop.construct call).Sound)
    (holds : workshop.Throughout condition)
    (operandsAtHand : ∀ operand ∈ call.operands, operand ∈ workshop.expressions)
    (history : ∀ updates ∈ call.history?, updates ∈ workshop.histories) :
    (workshop.construct call).Throughout condition := by
  unfold Workshop.construct Workshop.build at sound ⊢
  cases ran : call.run workshop.table with
  | error fault table => exact ⟨holds.expressions, holds.histories⟩
  | ok result table =>
      rw [ran] at sound
      refine ⟨List.forall_mem_cons.2 ⟨?_, holds.expressions⟩, holds.histories⟩
      refine (call.gives workshop.table ran).throughout ?_ ofConst (fun _ => ofNode result)
        ?_ ?_
      · exact (sound.registered result List.mem_cons_self).self.proper.measured
      · exact fun operand given => holds.expressions operand (operandsAtHand operand given)
      · exact fun updates given => holds.histories updates (history updates given)

/-- The same for one step of a workshop. -/
theorem Step.throughout
    {before after : Workshop}
    (step : Step before after)
    (sound : after.Sound)
    (holds : before.Throughout condition) :
    after.Throughout condition := by
  cases step with
  | declare name size contents domain range =>
      exact ⟨holds.expressions,
        List.forall_mem_cons.2 ⟨Updates.throughout_root _, holds.histories⟩⟩
  | write history indexAtHand valueAtHand =>
      refine ⟨holds.expressions, List.forall_mem_cons.2 ⟨?_, holds.histories⟩⟩
      rw [Updates.throughout_write]
      exact ⟨holds.expressions _ indexAtHand, holds.expressions _ valueAtHand,
        holds.histories _ history⟩
  | construct operandsAtHand history =>
      exact holds.construct ofConst ofNode sound operandsAtHand history

/-- What holds of constants and irreducible nodes holds throughout what was built. -/
theorem Reachable.throughout
    {workshop : Workshop}
    (reached : workshop.Reachable) :
    workshop.Throughout condition := by
  induction reached with
  | refl => constructor <;> simp
  | tail earlier step inductionHypothesis =>
      exact step.throughout ofConst ofNode (step.sound (Reachable.sound earlier))
        inductionHypothesis

end

end Workshop

/-! ## Conjunctions and zero extensions -/

/-- A conjunction of single bits that is not multi has no constant operand. -/
def Expr.Reduced (node : Expr) : Prop :=
  ∀ tag left right, node = .binary tag .and left right → tag.multi = false →
    left.width = 1 → left.isConstant = false ∧ right.isConstant = false

/-- Where logic finds nothing to simplify neither operand is constant. -/
theorem Build.not_constant_of_simplifyLogic
    {operator : BinaryOp}
    {left right : Expr}
    (nothing : simplifyLogic operator left right = none) :
    left.isConstant = false ∧ right.isConstant = false := by
  unfold simplifyLogic at nothing
  grind

/-- No conjunction at hand has a constant operand. -/
theorem Workshop.Reachable.reduced
    {workshop : Workshop}
    (reached : workshop.Reachable) :
    workshop.Throughout Expr.Reduced := by
  refine Reachable.throughout ?_ ?_ reached
  · rintro _ _ _ _ _ ⟨⟩
  · rintro node irreducible tag left right rfl unmarked width
    exact Build.not_constant_of_simplifyLogic
      (irreducible.logic tag .and left right rfl (.inl rfl) unmarked width)

/-- No zero extension at hand is narrower than its operand, unless it is multi. -/
theorem Workshop.Reachable.widening
    {workshop : Workshop}
    (reached : workshop.Reachable) :
    workshop.Throughout Expr.Widening := by
  refine Reachable.throughout ?_ ?_ reached
  · rintro _ _ _ _ ⟨⟩
  · exact fun node irreducible => irreducible.widening

end Diverge

import Diverge.Expr.Render
import Diverge.Proofs.Computation
import Diverge.Proofs.Expr.Nodes
import Diverge.Proofs.Text

/-!
# Expressions that have a text

Writing an expression fails at an integer with too many digits and at nothing else: what the
constructors made has a text exactly if the integers that its text shows, which are widths,
constants and offsets, are short enough (`Expr.hasText_iff`).
-/

namespace Diverge

open Stateful

/-- The expression has a text. -/
def Expr.HasText (expression : Expr) : Prop :=
  ∃ text, expression.render = .ok text

/-- The integers that the text of a node shows. -/
def Expr.numbers : Expr → List Int
  | .const tag value => if tag.width = 1 then [] else [tag.width, value]
  | .extract tag offset _ => [tag.width, offset]
  | node => [node.width]

/-- The text of a node shows no integer with too many digits. -/
def Expr.Short (node : Expr) : Prop :=
  ∀ value ∈ node.numbers, value.natAbs < Integer.limit

/-! ## Ends of computations -/

section

variable {ε α β : Type} {outcome : Except ε α}

theorem ends_map_iff
    {change : α → β} :
    (∃ result, (outcome >>= fun value => pure (change value)) = .ok result) ↔
      ∃ value, outcome = .ok value := by
  constructor
  · rintro ⟨result, ended⟩
    obtain ⟨value, isValue, _⟩ := except_bind_eq_ok.1 ended
    exact ⟨value, isValue⟩
  · rintro ⟨value, rfl⟩
    exact ⟨_, rfl⟩

/--
A sequence ends if its first part does, and the second under a condition that does not depend on
the first.
-/
theorem ends_bind_iff
    {next : α → Except ε β}
    {holds : Prop}
    (each : ∀ value, (∃ result, next value = .ok result) ↔ holds) :
    (∃ result, (outcome >>= next) = .ok result) ↔
      (∃ value, outcome = .ok value) ∧ holds := by
  constructor
  · rintro ⟨result, ended⟩
    obtain ⟨value, isValue, later⟩ := except_bind_eq_ok.1 ended
    exact ⟨⟨value, isValue⟩, (each value).1 ⟨result, later⟩⟩
  · rintro ⟨⟨value, rfl⟩, last⟩
    exact (each value).2 last

end

/-! ## Texts of nodes -/

/-- An integer has a text if it has not too many digits. -/
theorem renderInteger_ends_iff
    (value : Int) :
    (∃ text, renderInteger value = .ok text) ↔ value.natAbs < Integer.limit := by
  unfold renderInteger
  constructor
  · rintro ⟨text, ended⟩
    cases isText : Integer.text? value with
    | none =>
        rw [isText] at ended
        cases ended
    | some digits => exact (Integer.text?_eq_some_iff.1 isText).1
  · intro short
    rw [Integer.text?_eq_some_iff.2 ⟨short, rfl⟩]
    exact ⟨_, rfl⟩

/-- With its operands written, a node has a text if its width has one. -/
theorem renderNode_ends_iff
    (label : String)
    (width : Int)
    (operands : List String) :
    (∃ text, renderNode label width operands = .ok text) ↔ width.natAbs < Integer.limit :=
  ends_map_iff.trans (renderInteger_ends_iff width)

/-- Most nodes show their width and no other integer. -/
theorem Expr.short_iff_of_numbers
    {node : Expr}
    (only : node.numbers = [node.width]) :
    node.Short ↔ node.width.natAbs < Integer.limit := by
  unfold Expr.Short
  rw [only]
  exact List.forall_mem_singleton

/-- A constant shows its value as well, and an extraction its offset. -/
theorem Expr.short_iff_of_both
    {node : Expr}
    {first second : Int}
    (both : node.numbers = [first, second]) :
    node.Short ↔ first.natAbs < Integer.limit ∧ second.natAbs < Integer.limit := by
  unfold Expr.Short
  rw [both, List.forall_mem_cons, List.forall_mem_singleton]

theorem Expr.short_of_numbers
    {node : Expr}
    (nothing : node.numbers = []) :
    node.Short := by
  unfold Expr.Short
  rw [nothing]
  exact List.forall_mem_nil _

/-- A single bit is written as a word, any other constant with its width and its value. -/
theorem Expr.hasText_const
    {tag : Tag}
    {value : Int} :
    (Expr.const tag value).HasText ↔ (Expr.const tag value).Short := by
  by_cases width : tag.width = 1
  · have text : (Expr.const tag value).HasText := by
      unfold Expr.HasText Expr.render renderConstant
      rw [if_pos width]
      exact ⟨_, rfl⟩
    exact ⟨fun _ => Expr.short_of_numbers (if_pos width), fun _ => text⟩
  · have both : (Expr.const tag value).numbers = [tag.width, value] := if_neg width
    rw [Expr.short_iff_of_both both, ← renderInteger_ends_iff, ← renderInteger_ends_iff]
    unfold Expr.HasText Expr.render renderConstant
    rw [if_neg width]
    exact ends_bind_iff fun _ => ends_map_iff

/-- The operands of an operator are written before its width. -/
theorem Expr.hasText_binary
    {tag : Tag}
    {operator : BinaryOp}
    {left right : Expr} :
    (Expr.binary tag operator left right).HasText ↔
      left.HasText ∧ right.HasText ∧ tag.width.natAbs < Integer.limit := by
  unfold Expr.HasText
  rw [Expr.render]
  exact ends_bind_iff fun _ => ends_bind_iff fun _ => renderNode_ends_iff ..

/-- Expressions have a text together if each of them has one. -/
theorem renderList_ends_iff
    (expressions : List Expr) :
    (∃ text, renderList expressions = .ok text) ↔
      ∀ expression ∈ expressions, expression.HasText := by
  have texts : (∃ texts, expressions.mapM Expr.render = .ok texts) ↔
      ∀ expression ∈ expressions, expression.HasText := by
    induction expressions with
    | nil => simp [pure, Except.pure]
    | cons expression rest inductionHypothesis =>
        rw [List.mapM_cons, List.forall_mem_cons, ← inductionHypothesis]
        exact ends_bind_iff fun _ => ends_map_iff
  rw [← texts]
  exact ends_map_iff

/-! ## Texts of expressions -/

mutual

/-- An expression has a text if no integer in it has too many digits. -/
theorem Expr.hasText_iff :
    (expression : Expr) → expression.Throughout Expr.Proper →
      (expression.HasText ↔ expression.Throughout Expr.Short)
  | .const tag value, _ => by
      rw [Expr.throughout_const]
      exact Expr.hasText_const
  | .loose .., proper => proper.self.measured.elim
  | .notOptimized tag source, proper => by
      rw [Expr.throughout_notOptimized, Expr.short_iff_of_numbers rfl, and_comm,
        ← source.hasText_iff (proper.kid List.mem_cons_self)]
      exact ends_bind_iff fun _ => renderNode_ends_iff ..
  | .zext tag source, proper => by
      rw [Expr.throughout_zext, Expr.short_iff_of_numbers rfl, and_comm,
        ← source.hasText_iff (proper.kid List.mem_cons_self)]
      exact ends_bind_iff fun _ => renderNode_ends_iff ..
  | .sext tag source, proper => by
      rw [Expr.throughout_sext, Expr.short_iff_of_numbers rfl, and_comm,
        ← source.hasText_iff (proper.kid List.mem_cons_self)]
      exact ends_bind_iff fun _ => renderNode_ends_iff ..
  | .not tag source, proper => by
      rw [Expr.throughout_not, Expr.short_iff_of_numbers rfl, and_comm,
        ← source.hasText_iff (proper.kid List.mem_cons_self)]
      exact ends_bind_iff fun _ => renderNode_ends_iff ..
  | .extract tag offset source, proper => by
      rw [Expr.throughout_extract, Expr.short_iff_of_both rfl, ← renderInteger_ends_iff,
        ← renderInteger_ends_iff, ← source.hasText_iff (proper.kid List.mem_cons_self), and_assoc]
      exact ends_bind_iff fun _ => ends_bind_iff fun _ => ends_map_iff
  | .concat tag high low, proper => by
      have parts := ((Expr.throughout_concat tag high low).1 proper).2
      rw [Expr.throughout_concat, Expr.short_iff_of_numbers rfl, and_comm,
        ← high.hasText_iff parts.1, ← low.hasText_iff parts.2, and_assoc]
      exact ends_bind_iff fun _ => ends_bind_iff fun _ => renderNode_ends_iff ..
  | .binary tag operator left right, proper => by
      have parts := ((Expr.throughout_binary tag operator left right).1 proper).2
      rw [Expr.throughout_binary, Expr.short_iff_of_numbers rfl, and_comm,
        ← left.hasText_iff parts.1, ← right.hasText_iff parts.2, and_assoc]
      exact Expr.hasText_binary
  | .select tag patches cond onTrue onFalse, proper => by
      have parts := ((Expr.throughout_select tag patches cond onTrue onFalse).1 proper).2
      rw [Expr.throughout_select, Expr.short_iff_of_numbers rfl, and_comm,
        ← cond.hasText_iff parts.1, ← onTrue.hasText_iff parts.2.1,
        ← onFalse.hasText_iff parts.2.2, and_assoc, and_assoc]
      exact ends_bind_iff fun _ => ends_bind_iff fun _ => ends_bind_iff fun _ =>
        renderNode_ends_iff ..
  | .read tag updates index, proper => by
      have parts := ((Expr.throughout_read tag updates index).1 proper).2
      rw [Expr.throughout_read, Expr.short_iff_of_numbers rfl, ← renderInteger_ends_iff,
        ← index.hasText_iff parts.1, ← renderWrites_ends_iff updates parts.2]
      exact ends_bind_iff fun _ => ends_bind_iff fun _ => ends_map_iff

/-- A history has a text if its indices and values have. -/
theorem renderWrites_ends_iff :
    (updates : Updates) → updates.Throughout Expr.Proper →
      ((∃ texts, renderWrites updates = .ok texts) ↔ updates.Throughout Expr.Short)
  | .root array, _ => by
      unfold renderWrites
      simp [pure, Except.pure]
  | .write id index value older, proper => by
      have parts := (Updates.throughout_write id index value older).1 proper
      rw [Updates.throughout_write, ← index.hasText_iff parts.1,
        ← value.hasText_iff parts.2.1, ← renderWrites_ends_iff older parts.2.2, renderWrites]
      exact ends_bind_iff fun _ => ends_bind_iff fun _ => ends_map_iff

end

/-! ## Texts that cannot be written -/

/-- A computation that fails at an integer with too many digits, if at all. -/
def OnlyDigitsFail {α : Type} (outcome : Except Fault α) : Prop :=
  ∀ fault, outcome = .error fault → fault = .tooManyDigits

theorem OnlyDigitsFail.pure
    {α : Type}
    (value : α) :
    OnlyDigitsFail (Pure.pure value : Except Fault α) :=
  fun _ failed => nomatch failed

/-- A sequence fails at digits only if both parts do. -/
theorem OnlyDigitsFail.bind
    {α β : Type}
    {outcome : Except Fault α}
    {next : α → Except Fault β}
    (first : OnlyDigitsFail outcome)
    (second : ∀ value, OnlyDigitsFail (next value)) :
    OnlyDigitsFail (outcome >>= next) := by
  intro fault failed
  cases outcome with
  | ok value => exact second value fault failed
  | error other => exact first fault (congrArg Except.error (Except.error.inj failed))

theorem renderInteger_fails
    (value : Int) :
    OnlyDigitsFail (renderInteger value) := by
  intro fault failed
  unfold renderInteger at failed
  cases text : Integer.text? value with
  | some digits =>
      rw [text] at failed
      cases failed
  | none =>
      rw [text] at failed
      cases failed
      rfl

theorem renderConstant_fails
    (width value : Int) :
    OnlyDigitsFail (renderConstant width (some value)) := by
  unfold renderConstant
  split
  · exact .pure _
  · exact (renderInteger_fails width).bind fun _ =>
      (renderInteger_fails value).bind fun _ => .pure _

theorem renderNode_fails
    {label : String}
    {width : Int}
    {operands : List String} :
    OnlyDigitsFail (renderNode label width operands) :=
  (renderInteger_fails width).bind fun _ => .pure _

mutual

/--
Nothing but an integer with too many digits stops the text of an expression that the
constructors made.
-/
theorem Expr.render_fails :
    (expression : Expr) → expression.Throughout Expr.Proper →
      OnlyDigitsFail expression.render
  | .const tag value, _ => renderConstant_fails tag.width value
  | .loose .., proper => proper.self.measured.elim
  | .notOptimized _ source, proper | .zext _ source, proper | .sext _ source, proper
  | .not _ source, proper =>
      (source.render_fails (proper.kid List.mem_cons_self)).bind fun _ => renderNode_fails
  | .extract tag offset source, proper =>
      (renderInteger_fails tag.width).bind fun _ => (renderInteger_fails offset).bind fun _ =>
        (source.render_fails (proper.kid List.mem_cons_self)).bind fun _ => .pure _
  | .concat tag high low, proper =>
      have parts := ((Expr.throughout_concat tag high low).1 proper).2
      (high.render_fails parts.1).bind fun _ =>
        (low.render_fails parts.2).bind fun _ => renderNode_fails
  | .binary tag operator left right, proper =>
      have parts := ((Expr.throughout_binary tag operator left right).1 proper).2
      (left.render_fails parts.1).bind fun _ =>
        (right.render_fails parts.2).bind fun _ => renderNode_fails
  | .select tag patches cond onTrue onFalse, proper =>
      have parts := ((Expr.throughout_select tag patches cond onTrue onFalse).1 proper).2
      (cond.render_fails parts.1).bind fun _ =>
        (onTrue.render_fails parts.2.1).bind fun _ =>
          (onFalse.render_fails parts.2.2).bind fun _ => renderNode_fails
  | .read tag updates index, proper =>
      have parts := ((Expr.throughout_read tag updates index).1 proper).2
      (renderInteger_fails tag.width).bind fun _ => (index.render_fails parts.1).bind fun _ =>
        (renderWrites_fails updates parts.2).bind fun _ => .pure _

/-- Nor the texts of the writes in a history. -/
theorem renderWrites_fails :
    (updates : Updates) → updates.Throughout Expr.Proper →
      OnlyDigitsFail (renderWrites updates)
  | .root _, _ => .pure _
  | .write id index value older, proper =>
      have parts := (Updates.throughout_write id index value older).1 proper
      (index.render_fails parts.1).bind fun _ =>
        (value.render_fails parts.2.1).bind fun _ =>
          (renderWrites_fails older parts.2.2).bind fun _ => .pure _

end

/-- An expression without a text is refused for its digits. -/
theorem Expr.render_of_not_hasText
    {expression : Expr}
    (proper : expression.Throughout Expr.Proper)
    (without : ¬ expression.HasText) :
    expression.render = .error .tooManyDigits := by
  cases written : expression.render with
  | ok text => exact (without ⟨text, written⟩).elim
  | error fault => rw [expression.render_fails proper fault written]

theorem renderList_fails
    (expressions : List Expr)
    (proper : ∀ expression ∈ expressions, expression.Throughout Expr.Proper) :
    OnlyDigitsFail (renderList expressions) := by
  have texts : OnlyDigitsFail (expressions.mapM Expr.render) := by
    induction expressions with
    | nil => exact .pure []
    | cons expression rest inductionHypothesis =>
        rw [List.forall_mem_cons] at proper
        rw [List.mapM_cons]
        exact (expression.render_fails proper.1).bind fun _ =>
          (inductionHypothesis proper.2).bind fun _ => .pure _
  exact texts.bind fun _ => .pure _

end Diverge

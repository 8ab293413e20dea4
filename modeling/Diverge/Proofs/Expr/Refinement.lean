import Diverge.Proofs.Expr.Conditions
import Diverge.Proofs.Expr.Denotation

/-!
# As good as a node

A constructor gives the node of its kind or something simpler.  An expression is *as good*
as a node if it is as wide and has the value of the node wherever the node has one; it may
have a value where the node has none, because an operand was dropped (`Expr.Refines`).

Two cases are common to all constructors: a node that is left as it stands, of which only
the tag is new, and a node that is computed.  The steps of an evaluation are taken apart
once for each node.
-/

namespace Diverge

open Stateful

/-! ## Building with integers that cannot be made -/

namespace Build

variable {α β : Type} {wide : Prop} {table : Table}

/--
Building gives a result that satisfies `after`, or something was too large for it, which
takes something `wide`.
-/
def Affords
    (wide : Prop)
    (action : Build α)
    (table : Table)
    (after : α → Table → Prop) : Prop :=
  match action table with
  | .ok result later => after result later
  | .error fault _ => fault.IsSize ∧ wide

theorem Affords.of_returns
    {action : Build α}
    {after : α → Table → Prop}
    (returns : Returns action table after) :
    Affords wide action table after := by
  obtain ⟨⟨result, later, ran⟩, yields⟩ := returns
  unfold Affords
  rw [ran]
  exact yields ran

theorem Affords.pure
    {value : α}
    {after : α → Table → Prop}
    (holds : after value table) :
    Affords wide (pure value : Build α) table after :=
  holds

theorem Affords.mono
    {action : Build α}
    {after weaker : α → Table → Prop}
    (affords : Affords wide action table after)
    (implies : ∀ result later, action table = .ok result later → after result later →
      weaker result later) :
    Affords wide action table weaker := by
  unfold Affords at affords ⊢
  cases ran : action table with
  | ok result later =>
      rw [ran] at affords
      exact implies result later ran affords
  | error fault later =>
      rw [ran] at affords
      exact affords

/-- The rule of sequence: an integer that cannot be made ends the sequence. -/
theorem Affords.bind
    {action : Build α}
    {next : α → Build β}
    {after : β → Table → Prop}
    (affords : Affords wide action table fun value later =>
      Affords wide (next value) later after) :
    Affords wide (action >>= next) table after := by
  unfold Affords at affords
  cases ran : action table with
  | ok value later =>
      rw [ran] at affords
      unfold Affords
      rw [bind_of_ok ran]
      exact affords
  | error fault later =>
      rw [ran] at affords
      unfold Affords
      rw [bind_of_error ran]
      exact affords

/-- Integers are made without looking at the table. -/
theorem Affords.ofExcept
    {outcome : Except Fault α}
    {after : α → Table → Prop}
    (affords : Diverge.Affords wide outcome fun result => after result table) :
    Affords wide (ofExcept outcome : Build α) table after := by
  cases outcome with
  | ok result => exact affords
  | error fault => exact affords

end Build

/-! ## Nodes left as they stand -/

/-- The node under another tag. -/
def Expr.retag (tag : Tag) : Expr → Expr
  | .const _ value => .const tag value
  | .notOptimized _ source => .notOptimized tag source
  | .read _ updates index => .read tag updates index
  | .select _ patches cond onTrue onFalse => .select tag patches cond onTrue onFalse
  | .concat _ high low => .concat tag high low
  | .extract _ offset source => .extract tag offset source
  | .zext _ source => .zext tag source
  | .sext _ source => .sext tag source
  | .not _ source => .not tag source
  | .binary _ operator left right => .binary tag operator left right
  | .loose _ kind value kids => .loose tag kind value kids

/-- As wide as a node, well-typed, and of its value where it has one. -/
structure Expr.Refines
    (assignment : Assignment) (wide : Prop) (node result : Expr) : Prop where
  width_eq : result.width = node.width
  ready : result.Throughout (Expr.Ready assignment wide)
  evaluate : ∀ outcome, node.evaluate assignment = .ok outcome →
    result.evaluate assignment = .ok outcome

section

variable {assignment : Assignment} {wide : Prop} {table : Table}

/-! ### The steps of an evaluation -/

/-- A read has a value if its index has one and something is found there. -/
theorem Expr.evaluate_read_eq_ok
    {tag : Tag}
    {updates : Updates}
    {index : Expr}
    {outcome : Option Int} :
    (Expr.read tag updates index).evaluate assignment = .ok outcome ↔
      ∃ position, index.evaluate assignment = .ok position ∧
        updates.lookup assignment position = .ok outcome := by
  rw [Expr.evaluate_read, except_bind_eq_ok]

/-- A select has the value of the branch that is taken; the other one is not evaluated. -/
theorem Expr.evaluate_select_eq_ok
    {tag : Tag}
    {patches : Option (Int × Int)}
    {cond onTrue onFalse : Expr}
    {outcome : Option Int} :
    (Expr.select tag patches cond onTrue onFalse).evaluate assignment = .ok outcome ↔
      ∃ guard, cond.evaluate assignment = .ok guard ∧
        (if Word.isTrue guard then onTrue else onFalse).evaluate assignment = .ok outcome := by
  rw [Expr.evaluate_select, except_bind_eq_ok]
  simp only [apply_ite (Expr.evaluate assignment)]

/-- A concatenation has a value if both parts have, and they can be joined. -/
theorem Expr.evaluate_concat_eq_ok
    {tag : Tag}
    {high low : Expr}
    {outcome : Option Int} :
    (Expr.concat tag high low).evaluate assignment = .ok outcome ↔
      ∃ upper lower word,
        high.evaluate assignment = .ok upper ∧
          low.evaluate assignment = .ok lower ∧
            Word.join upper lower low.width = .ok word ∧ outcome = some word := by
  rw [Expr.evaluate_concat]
  constructor
  · intro evaluated
    obtain ⟨upper, ranHigh, later⟩ := except_bind_eq_ok.1 evaluated
    obtain ⟨lower, ranLow, last⟩ := except_bind_eq_ok.1 later
    obtain ⟨word, joined, ended⟩ := except_bind_eq_ok.1 last
    cases ended
    exact ⟨upper, lower, word, ranHigh, ranLow, joined, rfl⟩
  · rintro ⟨upper, lower, word, ranHigh, ranLow, joined, rfl⟩
    simp only [ranHigh, ranLow, bind, Except.bind, joined]
    rfl

/-- An extraction shifts the value of its operand and cuts it off. -/
theorem Expr.evaluate_extract_eq_ok
    {tag : Tag}
    {offset : Int}
    {source : Expr}
    {outcome : Option Int} :
    (Expr.extract tag offset source).evaluate assignment = .ok outcome ↔
      ∃ value shifted word,
        source.evaluate assignment = .ok value ∧
          Word.shiftRight? value (some offset) = .ok shifted ∧
            Word.truncate shifted tag.width = .ok word ∧ outcome = some word := by
  rw [Expr.evaluate_extract]
  exact Expr.cut_eq_ok

/-- A sign extension cuts off the signed reading of its operand. -/
theorem Expr.evaluate_sext_eq_ok
    {tag : Tag}
    {source : Expr}
    {outcome : Option Int} :
    (Expr.sext tag source).evaluate assignment = .ok outcome ↔
      ∃ value extended word,
        source.evaluate assignment = .ok value ∧
          Word.signed? value source.width = .ok extended ∧
            Word.truncate extended tag.width = .ok word ∧ outcome = some word := by
  rw [Expr.evaluate_sext]
  exact Expr.cut_eq_ok

/-- A complement is cut to its width. -/
theorem Expr.evaluate_not_eq_ok
    {tag : Tag}
    {source : Expr}
    {outcome : Option Int} :
    (Expr.not tag source).evaluate assignment = .ok outcome ↔
      ∃ value complement word,
        source.evaluate assignment = .ok value ∧
          Word.bitNot? value = .ok complement ∧
            Word.truncate complement tag.width = .ok word ∧ outcome = some word := by
  rw [Expr.evaluate_not]
  exact Expr.cut_eq_ok

/-- A binary node has a value if its operands have, and the operator on them. -/
theorem Expr.evaluate_binary_eq_ok
    {tag : Tag}
    {operator : BinaryOp}
    {left right : Expr}
    {outcome : Option Int} :
    (Expr.binary tag operator left right).evaluate assignment = .ok outcome ↔
      ∃ first second result word,
        left.evaluate assignment = .ok first ∧
          right.evaluate assignment = .ok second ∧
            operator.applyPresent first second left.width = .ok (some result) ∧
              Word.truncate result tag.width = .ok word ∧ outcome = some word := by
  rw [Expr.evaluate_binary]
  constructor
  · intro evaluated
    obtain ⟨first, ranLeft, later⟩ := except_bind_eq_ok.1 evaluated
    obtain ⟨second, ranRight, last⟩ := except_bind_eq_ok.1 later
    obtain ⟨applied, computed, ended⟩ := except_bind_eq_ok.1 last
    cases applied with
    | some result =>
        obtain ⟨word, cut, finished⟩ := except_bind_eq_ok.1 ended
        cases finished
        exact ⟨first, second, result, word, ranLeft, ranRight, computed, cut, rfl⟩
    | none =>
        obtain ⟨text, _, raised⟩ := except_bind_eq_ok.1 ended
        cases raised
  · rintro ⟨first, second, result, word, ranLeft, ranRight, computed, cut, rfl⟩
    simp only [ranLeft, ranRight, bind, Except.bind, computed, cut]
    rfl

@[simp]
theorem Expr.width_retag
    (tag : Tag)
    (node : Expr) :
    (node.retag tag).width = tag.width := by
  cases node <;> rfl

/-- Being ready does not depend on the identity and the mark of a node, only on its width. -/
theorem Expr.Ready.retag
    {node : Expr}
    (ready : node.Ready assignment wide)
    {tag : Tag}
    (width : tag.width = node.width) :
    (node.retag tag).Ready assignment wide where
  sized := {
    measured := by
      have measured := ready.sized.measured
      cases node <;> simp_all [Expr.retag, Expr.Measured, Expr.width, Expr.tag]
    matched := by
      have matched := ready.sized.matched
      cases node <;> simp_all [Expr.retag, Expr.Matched, Expr.width, Expr.tag]
    fits := by
      have fits := ready.sized.fits
      cases node <;> exact fits
    width_pos := by
      rw [Expr.width_retag, width]
      exact ready.sized.width_pos }
  offset_nonneg := by
    have offset := ready.offset_nonneg
    cases node <;> exact offset
  enough := by
    rw [Expr.width_retag, width]
    exact ready.enough

/-- A node under another tag of its width is as good as the node. -/
theorem Expr.refines_retag
    {node : Expr}
    (ready : node.Throughout (Expr.Ready assignment wide))
    {tag : Tag}
    (width : tag.width = node.width) :
    Expr.Refines assignment wide node (node.retag tag) where
  width_eq := by rw [Expr.width_retag, width]
  ready := by
    have self := ready.self.retag width
    refine Expr.throughout_of_kids self.sized.measured self ?_ ?_
    · intro kid member
      exact ready.kid (by cases node <;> exact member)
    · intro updates member
      exact ready.history (by cases node <;> exact member)
  evaluate := by
    intro outcome evaluated
    cases node with
    | loose tag kind value kids => exact ready.self.sized.measured.elim
    | extract old offset source =>
        have same : tag.width = old.width := width
        rw [Expr.evaluate_extract_eq_ok] at evaluated
        rwa [Expr.retag, Expr.evaluate_extract_eq_ok, same]
    | sext old source =>
        have same : tag.width = old.width := width
        rw [Expr.evaluate_sext_eq_ok] at evaluated
        rwa [Expr.retag, Expr.evaluate_sext_eq_ok, same]
    | not old source =>
        have same : tag.width = old.width := width
        rw [Expr.evaluate_not_eq_ok] at evaluated
        rwa [Expr.retag, Expr.evaluate_not_eq_ok, same]
    | binary old operator left right =>
        have same : tag.width = old.width := width
        rw [Expr.evaluate_binary_eq_ok] at evaluated
        rwa [Expr.retag, Expr.evaluate_binary_eq_ok, same]
    | _ => exact evaluated

/-- What is tagged with the width of a node is as good as the node. -/
theorem Build.affords_tagged
    {node : Expr}
    (ready : node.Throughout (Expr.Ready assignment wide))
    {shape : Shape}
    {width : Int}
    {multi : Bool}
    (isWidth : width = node.width) :
    Build.Affords wide (do return node.retag (← Build.tag shape width multi)) table
      fun result _ => Expr.Refines assignment wide node result := by
  refine Build.Affords.of_returns ⟨?_, ?_⟩
  · exact (Build.succeeds_tag shape width multi table).bind fun _ _ _ => Succeeds.pure _ _
  · intro result later ran
    obtain ⟨tag, middle, tagged, rest⟩ := bind_eq_ok.1 ran
    obtain ⟨rfl, rfl⟩ := pure_eq_ok.1 rest
    exact Expr.refines_retag ready ((Build.tag_spec tagged).2.1.trans isWidth)

/-! ## Nodes that are computed -/

/-- A word that was cut to its width is ready. -/
theorem Expr.ready_const
    {tag : Tag}
    {value word : Int}
    (positive : 0 < tag.width)
    (enough : Word.widest < tag.width → wide)
    (cut : Word.truncate value tag.width = .ok word) :
    (Expr.const tag word).Throughout (Expr.Ready assignment wide) := by
  rw [Expr.throughout_const]
  refine ⟨⟨Word.truncate_range cut, trivial, ?_, positive⟩, ?_, enough⟩
  · simp [Expr.updates?]
  · simp [Expr.offset?]

/-- A node that is always the word to which an integer is cut is as good as the constant. -/
theorem Build.affords_constant
    {node : Expr}
    {value width : Int}
    (isWidth : width = node.width)
    (positive : 0 < width)
    (enough : Word.widest < width → wide)
    (evaluates : ∀ word outcome, Word.truncate value width = .ok word →
      node.evaluate assignment = .ok outcome → outcome = some word) :
    Build.Affords wide (Build.constant value width) table fun result _ =>
      Expr.Refines assignment wide node result := by
  refine Build.Affords.bind (Build.Affords.ofExcept ?_)
  cases cut : Word.truncate value width with
  | error fault =>
      have refused := Word.affords_truncate positive.le enough value
      rw [cut] at refused
      exact refused
  | ok word =>
      refine Build.Affords.of_returns ⟨?_, ?_⟩
      · exact (Build.succeeds_tag _ _ _ table).bind fun _ _ _ => Succeeds.pure _ _
      · intro result later ran
        obtain ⟨tag, rfl, _, rfl, _⟩ := Build.constNode_spec ran
        refine ⟨isWidth, Expr.ready_const positive enough cut, ?_⟩
        intro outcome evaluated
        rw [evaluates word outcome cut evaluated]
        rfl

/-- A constant that was not put together by hand is the value of a vector. -/
theorem Expr.eq_const_of_constant?
    {source : Expr}
    (measured : source.Measured)
    {value : Option Int}
    (constant : source.constant? = some value) :
    ∃ (tag : Tag) (vector : BitVec tag.width.toNat),
      source = .const tag vector.toNat ∧ value = some (vector.toNat : Int) := by
  have isConstant := Expr.isConstant_of_constant? constant
  cases source with
  | const tag word =>
      obtain ⟨_, nonneg, bound⟩ : (Expr.const tag word).Measured := measured
      cases constant
      refine ⟨tag, BitVec.ofInt _ word, ?_, ?_⟩
      · rw [Word.toNat_ofInt_of_range nonneg bound]
      · rw [Word.toNat_ofInt_of_range nonneg bound]
        rfl
  | loose tag kind value kids => exact measured.elim
  | _ => simp [Expr.isConstant, Expr.kind?] at isConstant

/-- What a node refines to is as good as any node whose values it keeps. -/
theorem Expr.Refines.of_evaluate
    {first second result : Expr}
    (refines : Expr.Refines assignment wide second result)
    (width : second.width = first.width)
    (evaluate : ∀ outcome, first.evaluate assignment = .ok outcome →
      second.evaluate assignment = .ok outcome) :
    Expr.Refines assignment wide first result where
  width_eq := refines.width_eq.trans width
  ready := refines.ready
  evaluate := fun outcome evaluated => refines.evaluate outcome (evaluate outcome evaluated)

/-! ## Arrays at a known index -/

/-- An array decides nothing at a known index, or it has the value that it holds there. -/
theorem Build.known_root
    (array : ArrayDecl)
    (position : Nat) :
    Build.known (some (position : Int)) (.root array) = .ok .unknown ∨
      ∃ value, Build.known (some (position : Int)) (.root array) =
          .ok (.stored value array.range) ∧
        ∀ assignment, (Updates.root array).lookup assignment (some (position : Int)) =
          .ok (some value) := by
  cases contents : array.contents with
  | none =>
      refine .inl ?_
      unfold Build.known
      rw [contents]
      rfl
  | some values =>
      by_cases inside : position < values.length
      · have isThere := List.getElem?_eq_getElem inside
        have fetched : Sequence.fetch values position .tupleIndex = _ :=
          Sequence.fetch_of_getElem? isThere
        refine .inr ⟨values.get ⟨position, inside⟩, ?_, fun assignment => ?_⟩
        · unfold Build.known
          rw [contents]
          simp only [Int.ofNat_lt, inside, if_true, fetched]
          rfl
        · rw [Updates.lookup_root, ArrayDecl.valueAt, contents]
          simp only [valueAt, Int.ofNat_lt, inside, if_true, fetched]
          rfl
      · refine .inl ?_
        unfold Build.known
        rw [contents]
        simp only [Int.ofNat_lt, inside, if_false]
        rfl

end

end Diverge

import Diverge.Proofs.Expr.Refinement

/-!
# Constructors that simplify

What a constructor returns is as good as the node of its kind with the operands it was
given.  There is one lemma for each constructor, and `Construction.run_refines` gathers
them: it speaks of all calls on well-typed operands, and says when a call returns.
-/

namespace Diverge

open Stateful

section

variable {assignment : Assignment} {wide : Prop} {table : Table}

/-! ## The constructors -/

/-- A complement folds constants and takes a complement away; both keep the value. -/
theorem Build.affords_not
    {tag : Tag}
    {source : Expr}
    {multi : Bool}
    (ready : (Expr.not tag source).Throughout (Expr.Ready assignment wide)) :
    Build.Affords wide (Build.not source multi) table fun result _ =>
      Expr.Refines assignment wide (.not tag source) result := by
  have width : tag.width = source.width := ready.self.sized.measured
  have readySource : source.Throughout (Expr.Ready assignment wide) :=
    ready.kid List.mem_cons_self
  have node (multi : Bool) : Build.Affords wide (Build.notNode source multi) table
      fun result _ => Expr.Refines assignment wide (.not tag source) result :=
    Build.affords_tagged ready width.symm
  unfold Build.not
  split
  · exact node multi
  split
  · rename_i value constant
    obtain ⟨old, vector, rfl, rfl⟩ :=
      Expr.eq_const_of_constant? readySource.self.sized.measured constant
    refine Build.affords_constant width.symm readySource.self.sized.width_pos
      readySource.self.enough ?_
    intro cutWord outcome cut evaluated
    obtain ⟨_, _, other, isValue, isComplement, cutNode, rfl⟩ :=
      Expr.evaluate_not_eq_ok.1 evaluated
    cases isValue
    cases isComplement
    rw [width, cut] at cutNode
    cases cutNode
    rfl
  · rename_i isNot
    cases source with
    | not old inner =>
        have inside : old.width = inner.width := readySource.self.sized.measured
        have readyInner : inner.Throughout (Expr.Ready assignment wide) :=
          readySource.kid List.mem_cons_self
        refine Build.Affords.pure ⟨inside.symm.trans width.symm, readyInner, ?_⟩
        intro outcome evaluated
        obtain ⟨_, _, second, ranSource, isComplement, cutAgain, rfl⟩ :=
          Expr.evaluate_not_eq_ok.1 evaluated
        obtain ⟨value, _, first, ran, isFirst, cut, rfl⟩ :=
          Expr.evaluate_not_eq_ok.1 ranSource
        obtain ⟨word, rfl, nonneg, bound⟩ :=
          inner.isWord_evaluate (readyInner.mono fun _ node => node.sized) ran
        cases isComplement
        cases isFirst
        rw [width] at cutAgain
        rw [← inside] at bound
        rw [ran, Word.eq_of_truncate_bitNot nonneg bound cut cutAgain]
    | loose old kind value kids => exact readySource.self.sized.measured.elim
    | _ => simp [Expr.kind?] at isNot
  · exact node multi

/-- A select with a constant guard is its branch, and one with equal branches needs no guard. -/
theorem Build.affords_select
    {tag : Tag}
    {cond onTrue onFalse : Expr}
    {multi : Bool}
    (ready : (Expr.select tag none cond onTrue onFalse).Throughout
      (Expr.Ready assignment wide))
    (coherent : onTrue.same onFalse = true → onTrue = onFalse) :
    Build.Affords wide (Build.select cond onTrue onFalse multi) table fun result _ =>
      Expr.Refines assignment wide (.select tag none cond onTrue onFalse) result := by
  have width : tag.width = onTrue.width := ready.self.sized.measured
  have branches : onTrue.width = onFalse.width := ready.self.sized.matched
  obtain ⟨_, readyCond, readyTrue, readyFalse⟩ := (Expr.throughout_select ..).1 ready
  have node (multi : Bool) : Build.Affords wide
      (Build.selectNode none cond onTrue onFalse multi) table fun result _ =>
        Expr.Refines assignment wide (.select tag none cond onTrue onFalse) result :=
    Build.affords_tagged ready width.symm
  unfold Build.select
  split
  · exact node multi
  split
  · rename_i guard constant
    obtain ⟨old, vector, rfl, rfl⟩ :=
      Expr.eq_const_of_constant? readyCond.self.sized.measured constant
    refine Build.Affords.pure ⟨?_, ?_, ?_⟩
    · split
      · exact width.symm
      · exact branches.symm.trans width.symm
    · split
      · exact readyTrue
      · exact readyFalse
    · intro outcome evaluated
      obtain ⟨guard, isGuard, taken⟩ := Expr.evaluate_select_eq_ok.1 evaluated
      cases isGuard
      exact taken
  split
  · rename_i same
    refine Build.Affords.pure ⟨width.symm, readyTrue, ?_⟩
    intro outcome evaluated
    obtain ⟨guard, _, taken⟩ := Expr.evaluate_select_eq_ok.1 evaluated
    rwa [← coherent same, ite_self] at taken
  · exact node multi

/-- A concatenation folds constants. -/
theorem Build.affords_concat
    {tag : Tag}
    {high low : Expr}
    {multi : Bool}
    (ready : (Expr.concat tag high low).Throughout (Expr.Ready assignment wide)) :
    Build.Affords wide (Build.concat high low multi) table fun result _ =>
      Expr.Refines assignment wide (.concat tag high low) result := by
  have width : tag.width = high.width + low.width := ready.self.sized.measured
  obtain ⟨_, readyHigh, readyLow⟩ := (Expr.throughout_concat ..).1 ready
  unfold Build.concat
  split
  · rename_i constHigh constLow
    obtain ⟨oldHigh, upper, rfl, rfl⟩ :=
      Expr.eq_const_of_constant? readyHigh.self.sized.measured constHigh
    obtain ⟨oldLow, lower, rfl, rfl⟩ :=
      Expr.eq_const_of_constant? readyLow.self.sized.measured constLow
    have highPos : 0 < oldHigh.width := readyHigh.self.sized.width_pos
    have lowPos : 0 < oldLow.width := readyLow.self.sized.width_pos
    have enough : Word.widest < oldHigh.width + oldLow.width → wide := fun large =>
      ready.self.enough (large.trans_eq width.symm)
    refine Build.Affords.bind (Build.Affords.ofExcept ?_)
    refine (Word.affords_join lowPos.le highPos enough upper lower).self.mono ?_
    intro joined isJoined
    obtain ⟨nonneg, bound⟩ := Word.join_range isJoined (Int.natCast_nonneg _)
      (by exact_mod_cast upper.isLt) (Int.natCast_nonneg _) (by exact_mod_cast lower.isLt)
        highPos.le
    refine Build.affords_constant width.symm (width ▸ ready.self.sized.width_pos) enough ?_
    intro cutWord outcome cut evaluated
    obtain ⟨_, _, word, isHigh, isLow, joinedNode, rfl⟩ :=
      Expr.evaluate_concat_eq_ok.1 evaluated
    cases isHigh
    cases isLow
    cases isJoined.symm.trans joinedNode
    rw [Word.eq_of_truncate cut nonneg bound]
  · exact Build.affords_tagged ready width.symm

/-- An extraction of the whole is its operand, and one of a constant is computed. -/
theorem Build.affords_extract
    {tag : Tag}
    {offset : Int}
    {source : Expr}
    {multi : Bool}
    (ready : (Expr.extract tag offset source).Throughout (Expr.Ready assignment wide)) :
    Build.Affords wide (Build.extract source offset tag.width multi) table fun result _ =>
      Expr.Refines assignment wide (.extract tag offset source) result := by
  have readySource : source.Throughout (Expr.Ready assignment wide) :=
    ready.kid List.mem_cons_self
  have node (multi : Bool) : Build.Affords wide
      (Build.extractNode source offset tag.width multi) table fun result _ =>
        Expr.Refines assignment wide (.extract tag offset source) result :=
    Build.affords_tagged ready rfl
  unfold Build.extract
  split
  · exact node multi
  split
  · rename_i whole
    obtain ⟨rfl, width⟩ := whole
    refine Build.Affords.pure ⟨width.symm, readySource, ?_⟩
    intro outcome evaluated
    obtain ⟨value, shifted, word, ran, isShifted, cut, rfl⟩ :=
      Expr.evaluate_extract_eq_ok.1 evaluated
    obtain ⟨source, rfl, nonneg, bound⟩ :=
      source.isWord_evaluate (readySource.mono fun _ node => node.sized) ran
    have unshifted : Word.shiftRight? (some source) (some 0) = .ok source :=
      congrArg Except.ok (Int.shiftRight_zero source)
    rw [unshifted] at isShifted
    cases isShifted
    rw [← width] at bound
    rw [ran, Word.eq_of_truncate cut nonneg bound]
  split
  · rename_i value constant
    obtain ⟨old, vector, rfl, rfl⟩ :=
      Expr.eq_const_of_constant? readySource.self.sized.measured constant
    have nonneg : 0 ≤ offset := ready.self.offset_nonneg offset rfl
    have shifted : Word.shiftRight? (some (vector.toNat : Int)) (some offset) = .ok _ :=
      Word.shiftRight_eq nonneg
    rw [shifted]
    refine Build.affords_constant rfl ready.self.sized.width_pos ready.self.enough ?_
    intro cutWord outcome cut evaluated
    obtain ⟨_, _, other, isValue, isShifted, cutNode, rfl⟩ :=
      Expr.evaluate_extract_eq_ok.1 evaluated
    cases isValue
    rw [shifted] at isShifted
    cases isShifted
    rw [cut] at cutNode
    cases cutNode
    rfl
  · exact node multi

/-- A zero extension of a constant is a constant; one to the same width is its operand. -/
theorem Build.affords_zext
    {tag : Tag}
    {source : Expr}
    {multi : Bool}
    (ready : (Expr.zext tag source).Throughout (Expr.Ready assignment wide)) :
    Build.Affords wide (Build.zext source tag.width multi) table fun result _ =>
      Expr.Refines assignment wide (.zext tag source) result := by
  have padded : source.width ≤ tag.width := ready.self.sized.matched
  have readySource : source.Throughout (Expr.Ready assignment wide) :=
    ready.kid List.mem_cons_self
  have node (multi : Bool) : Build.Affords wide
      (Build.zextNode source tag.width multi) table fun result _ =>
        Expr.Refines assignment wide (.zext tag source) result :=
    Build.affords_tagged ready rfl
  unfold Build.zext
  split
  · exact node multi
  split
  · rename_i width
    exact Build.Affords.pure ⟨width.symm, readySource, fun _ evaluated => evaluated⟩
  split
  · omega
  split
  · rename_i value constant
    obtain ⟨old, vector, rfl, rfl⟩ :=
      Expr.eq_const_of_constant? readySource.self.sized.measured constant
    rw [Word.truncate?_some]
    refine Build.affords_constant rfl ready.self.sized.width_pos ready.self.enough ?_
    intro cutWord outcome cut evaluated
    cases evaluated
    have bound : (vector.toNat : Int) < 2 ^ tag.width.toNat := by
      exact_mod_cast vector.isLt.trans_le
        (Nat.pow_le_pow_right (by decide) (Int.toNat_le_toNat padded))
    rw [Word.eq_of_truncate cut (Int.natCast_nonneg _) bound]
  · exact node multi

/-- A sign extension to a smaller width is the extraction of the low bits. -/
theorem Build.affords_sext
    {tag : Tag}
    {source : Expr}
    {multi : Bool}
    (ready : (Expr.sext tag source).Throughout (Expr.Ready assignment wide)) :
    Build.Affords wide (Build.sext source tag.width multi) table fun result _ =>
      Expr.Refines assignment wide (.sext tag source) result := by
  have readySource : source.Throughout (Expr.Ready assignment wide) :=
    ready.kid List.mem_cons_self
  have node (multi : Bool) : Build.Affords wide
      (Build.sextNode source tag.width multi) table fun result _ =>
        Expr.Refines assignment wide (.sext tag source) result :=
    Build.affords_tagged ready rfl
  unfold Build.sext
  split
  · exact node multi
  split
  · rename_i width
    refine Build.Affords.pure ⟨width.symm, readySource, ?_⟩
    intro outcome evaluated
    obtain ⟨_, extended, word, ran, isSigned, cut, rfl⟩ :=
      Expr.evaluate_sext_eq_ok.1 evaluated
    obtain ⟨value, rfl, nonneg, bound⟩ :=
      source.isWord_evaluate (readySource.mono fun _ node => node.sized) ran
    rw [Word.truncate_of_signed width.le isSigned] at cut
    rw [← width] at bound
    rw [ran, Word.eq_of_truncate cut nonneg bound]
  split
  · rename_i narrower
    have readyExtract : (Expr.extract tag 0 source).Throughout
        (Expr.Ready assignment wide) := by
      rw [Expr.throughout_extract]
      refine ⟨⟨⟨trivial, trivial, ?_, ready.self.sized.width_pos⟩, ?_, ready.self.enough⟩,
        readySource⟩
      · simp [Expr.updates?]
      · simp [Expr.offset?]
    refine (Build.affords_extract readyExtract).mono fun result _ _ refines => ?_
    refine refines.of_evaluate rfl fun outcome evaluated => ?_
    obtain ⟨_, extended, word, ran, isSigned, cut, rfl⟩ :=
      Expr.evaluate_sext_eq_ok.1 evaluated
    obtain ⟨value, rfl, _⟩ :=
      source.isWord_evaluate (readySource.mono fun _ node => node.sized) ran
    rw [Word.truncate_of_signed narrower.le isSigned] at cut
    exact Expr.evaluate_extract_eq_ok.2 ⟨_, value, word, ran,
      congrArg Except.ok (Int.shiftRight_zero value), cut, rfl⟩
  split
  · rename_i value constant
    obtain ⟨old, vector, rfl, rfl⟩ :=
      Expr.eq_const_of_constant? readySource.self.sized.measured constant
    refine Build.Affords.bind (Build.Affords.ofExcept ?_)
    refine (Word.affords_signed readySource.self.sized.width_pos
      readySource.self.enough vector).self.mono ?_
    intro extended isExtended
    refine Build.affords_constant rfl ready.self.sized.width_pos ready.self.enough ?_
    intro cutWord outcome cut evaluated
    obtain ⟨_, _, other, isValue, isSigned, cutNode, rfl⟩ :=
      Expr.evaluate_sext_eq_ok.1 evaluated
    cases isValue
    cases isExtended.symm.trans isSigned
    cases cut.symm.trans cutNode
    rfl
  · exact node multi

/--
A sign extension to a smaller width cuts the same bits off as an extraction does.  The
signed reading that it takes first may be too large to be made.
-/
theorem Expr.evaluate_sext_of_extract
    {tag node : Tag}
    {source : Expr}
    {outcome : Option Int}
    (ready : source.Throughout (Expr.Ready assignment wide))
    (width : node.width = tag.width)
    (narrower : tag.width < source.width)
    (evaluated : (Expr.extract tag 0 source).evaluate assignment = .ok outcome) :
    (Expr.sext node source).evaluate assignment = .ok outcome ∨
      wide ∧ ∃ cause, (Expr.sext node source).evaluate assignment = .error (.count cause) := by
  obtain ⟨_, shifted, word, ran, isShifted, cut, rfl⟩ :=
    Expr.evaluate_extract_eq_ok.1 evaluated
  obtain ⟨value, rfl, nonneg, bound⟩ :=
    source.isWord_evaluate (ready.mono fun _ node => node.sized) ran
  lift value to ℕ using nonneg
  have unshifted : shifted = value := by
    cases isShifted
    exact Int.shiftRight_zero _
  rw [unshifted] at cut
  have affords := Word.affords_signed ready.self.sized.width_pos ready.self.enough
    (BitVec.ofNatLT value (by exact_mod_cast bound))
  rw [BitVec.toNat_ofNatLT] at affords
  cases isSigned : Word.signed value source.width with
  | ok extended =>
      refine .inl (Expr.evaluate_sext_eq_ok.2 ⟨_, extended, word, ran, isSigned, ?_, rfl⟩)
      rw [width, Word.truncate_of_signed narrower.le isSigned, cut]
  | error fault =>
      rw [isSigned] at affords
      obtain ⟨⟨cause, rfl⟩, isWide⟩ := affords
      refine .inr ⟨isWide, cause, ?_⟩
      rw [Expr.evaluate_sext, ran]
      show (Word.signed value source.width >>= _) = _
      rw [isSigned]
      rfl

/-- What one operand of a conjunction or disjunction decides. -/
theorem Build.refines_simplifyLogic
    {tag : Tag}
    {operator : BinaryOp}
    {left right simpler : Expr}
    (ready : (Expr.binary tag operator left right).Throughout (Expr.Ready assignment wide))
    (coherent : left.same right = true → left = right)
    (logical : operator.IsLogical)
    (isBit : left.width = 1)
    (simplified : Build.simplifyLogic operator left right = some simpler) :
    Expr.Refines assignment wide (.binary tag operator left right) simpler := by
  have operands : left.width = right.width := ready.self.sized.matched
  have width : tag.width = 1 := by
    have measured : tag.width = Build.resultWidth operator left := ready.self.sized.measured
    rw [measured, logical.resultWidth, isBit]
  obtain ⟨_, readyLeft, readyRight⟩ := (Expr.throughout_binary ..).1 ready
  have either : simpler.width = 1 ∧ simpler.Throughout (Expr.Ready assignment wide) := by
    rcases Build.simplifyLogic_mem simplified with rfl | rfl
    · exact ⟨isBit, readyLeft⟩
    · exact ⟨operands.symm.trans isBit, readyRight⟩
  refine ⟨either.1.trans width.symm, either.2, ?_⟩
  intro outcome evaluated
  obtain ⟨first, second, _, _, ranLeft, ranRight, _⟩ := Expr.evaluate_binary_eq_ok.1 evaluated
  have conditionLeft : left.Condition assignment :=
    ⟨readyLeft.mono fun _ node => node.sized, isBit, first, ranLeft⟩
  have conditionRight : right.Condition assignment :=
    ⟨readyRight.mono fun _ node => node.sized, operands.symm.trans isBit, second, ranRight⟩
  obtain ⟨truth, decidesLeft⟩ := conditionLeft.decides
  obtain ⟨other, decidesRight⟩ := conditionRight.decides
  have judged := Build.judged_simplifyLogic logical coherent ⟨conditionLeft, decidesLeft⟩
    ⟨conditionRight, decidesRight⟩ simplified
  have decides := Expr.decides_binary logical width isBit decidesLeft decidesRight
  rw [decides] at evaluated
  rw [← evaluated]
  exact judged.2

/--
Operands that are not both constant are left alone, except for conjunctions and disjunctions of
bits.
-/
theorem Build.affords_binaryOpen
    {tag : Tag}
    {operator : BinaryOp}
    {left right : Expr}
    (ready : (Expr.binary tag operator left right).Throughout (Expr.Ready assignment wide))
    (coherent : left.same right = true → left = right) :
    Build.Affords wide (Build.binaryOpen operator left right) table fun result _ =>
      Expr.Refines assignment wide (.binary tag operator left right) result := by
  have node : Build.Affords wide (Build.binaryNode operator left right false) table
      fun result _ => Expr.Refines assignment wide (.binary tag operator left right) result :=
    Build.affords_tagged ready ready.self.sized.measured.symm
  unfold Build.binaryOpen
  split
  · rename_i both
    split
    · rename_i simplified
      exact Build.Affords.pure
        (Build.refines_simplifyLogic ready coherent both.1 both.2 simplified)
    · exact node
  · exact node

/-- A binary node folds constants unless the operator has no value there. -/
theorem Build.affords_binary
    {tag : Tag}
    {operator : BinaryOp}
    {left right : Expr}
    {multi : Bool}
    (ready : (Expr.binary tag operator left right).Throughout (Expr.Ready assignment wide))
    (coherent : left.same right = true → left = right) :
    Build.Affords wide (Build.binary operator left right multi) table fun result _ =>
      Expr.Refines assignment wide (.binary tag operator left right) result := by
  have width : tag.width = Build.resultWidth operator left := ready.self.sized.measured
  have operands : left.width = right.width := ready.self.sized.matched
  obtain ⟨_, readyLeft, readyRight⟩ := (Expr.throughout_binary ..).1 ready
  unfold Build.binary
  split
  · exact Build.affords_tagged ready width.symm
  split
  · rename_i constLeft constRight
    obtain ⟨oldLeft, first, rfl, rfl⟩ :=
      Expr.eq_const_of_constant? readyLeft.self.sized.measured constLeft
    obtain ⟨oldRight, second, rfl, rfl⟩ :=
      Expr.eq_const_of_constant? readyRight.self.sized.measured constRight
    have widths : oldLeft.width = oldRight.width := operands
    have positive : 0 < oldLeft.width := readyLeft.self.sized.width_pos
    have same : (second.setWidth oldLeft.width.toNat).toNat = second.toNat :=
      BitVec.toNat_setWidth_of_le (Int.toNat_le_toNat widths.ge)
    refine Build.Affords.bind (Build.Affords.ofExcept ?_)
    have applies := (operator.affords_apply positive readyLeft.self.enough first
      (second.setWidth _)).self
    rw [same] at applies
    refine applies.mono fun applied isApplied => ?_
    cases applied with
    | none => exact Build.affords_binaryOpen ready coherent
    | some result =>
        refine Build.affords_constant width.symm (width ▸ ready.self.sized.width_pos)
          (fun large => ready.self.enough (large.trans_eq width.symm)) ?_
        intro cutWord outcome cut evaluated
        obtain ⟨_, _, other, word, isFirst, isSecond, appliedNode, cutNode, rfl⟩ :=
          Expr.evaluate_binary_eq_ok.1 evaluated
        cases isFirst
        cases isSecond
        cases isApplied.symm.trans appliedNode
        rw [width] at cutNode
        cases cut.symm.trans cutNode
        rfl
  · exact Build.affords_binaryOpen ready coherent

/-! ### Reads at a known index -/

/-- What a known index finds is what a read finds there. -/
def Build.Finds
    (assignment : Assignment)
    (wide : Prop)
    (updates : Updates)
    (position : Nat) : Build.Known → Prop
  | .written value =>
      value.width = updates.array.range ∧ value.Throughout (Expr.Ready assignment wide) ∧
        updates.lookup assignment (some (position : Int)) = value.evaluate assignment
  | .stored value width =>
      width = updates.array.range ∧
        updates.lookup assignment (some (position : Int)) = .ok (some value)
  | .unknown => True

/--
Going back through the writes to known indices finds what a read at the position would find, or
stops at an index that is not known.
-/
theorem Build.known_finds
    (position : Nat) :
    (updates : Updates) → updates.Throughout (Expr.Ready assignment wide) →
      updates.Matched →
        ∃ found, Build.known (some (position : Int)) updates = .ok found ∧
          Build.Finds assignment wide updates position found
  | .root array, _, _ => by
      rcases Build.known_root array position with unknown | ⟨value, stored, holds⟩
      · exact ⟨.unknown, unknown, trivial⟩
      · exact ⟨_, stored, rfl, holds assignment⟩
  | .write id index value older, ready, matched => by
      rw [Updates.throughout_write] at ready
      cases constant : index.constant? with
      | none =>
          refine ⟨.unknown, ?_, trivial⟩
          unfold Build.known
          rw [constant]
          rfl
      | some written =>
          obtain ⟨old, vector, rfl, rfl⟩ :=
            Expr.eq_const_of_constant? ready.1.self.sized.measured constant
          have lookup : (Updates.write id (.const old vector.toNat) value older).lookup
              assignment (some (position : Int)) = _ :=
            Updates.lookup_write ..
          by_cases here : some (vector.toNat : Int) = some (position : Int)
          · refine ⟨.written value, ?_, matched.1, ready.2.1, lookup.trans (if_pos here)⟩
            unfold Build.known
            rw [constant]
            exact if_pos here
          · obtain ⟨found, isFound, finds⟩ :=
              Build.known_finds position older ready.2.2 matched.2
            refine ⟨found, ?_, ?_⟩
            · unfold Build.known
              rw [constant]
              exact (if_neg here).trans isFound
            · have deeper : (Updates.write id (.const old vector.toNat) value older).lookup
                  assignment (some (position : Int)) =
                    older.lookup assignment (some (position : Int)) :=
                lookup.trans (if_neg here)
              unfold Build.Finds at finds ⊢
              rw [deeper]
              exact finds

/--
A read at a known index gives what was written there or is stored there, and else stays a read.
-/
theorem Build.affords_read
    {tag : Tag}
    {updates : Updates}
    {index : Expr}
    {multi : Bool}
    (ready : (Expr.read tag updates index).Throughout (Expr.Ready assignment wide)) :
    Build.Affords wide (Build.read updates index multi) table fun result _ =>
      Expr.Refines assignment wide (.read tag updates index) result := by
  have width : tag.width = updates.array.range := ready.self.sized.measured
  obtain ⟨_, readyIndex, readyUpdates⟩ := (Expr.throughout_read ..).1 ready
  have node (multi : Bool) : Build.Affords wide (Build.readNode updates index multi) table
      fun result _ => Expr.Refines assignment wide (.read tag updates index) result :=
    Build.affords_tagged ready width.symm
  unfold Build.read
  split
  · rename_i constant
    obtain ⟨old, vector, rfl, rfl⟩ :=
      Expr.eq_const_of_constant? readyIndex.self.sized.measured constant
    obtain ⟨found, isFound, finds⟩ :=
      Build.known_finds vector.toNat updates readyUpdates ready.self.sized.matched
    rw [isFound]
    cases found with
    | written value =>
        obtain ⟨isWide, readyValue, lookup⟩ := finds
        refine Build.Affords.pure ⟨isWide.trans width.symm, readyValue, ?_⟩
        intro outcome evaluated
        obtain ⟨position, isPosition, looked⟩ := Expr.evaluate_read_eq_ok.1 evaluated
        cases isPosition
        exact lookup.symm.trans looked
    | stored value range =>
        obtain ⟨rfl, lookup⟩ := finds
        refine Build.affords_constant width.symm (width ▸ ready.self.sized.width_pos)
          (fun large => ready.self.enough (large.trans_eq width.symm)) ?_
        intro cutWord outcome cut evaluated
        obtain ⟨position, isPosition, looked⟩ := Expr.evaluate_read_eq_ok.1 evaluated
        cases isPosition
        cases lookup.symm.trans looked
        obtain ⟨_, isSame, nonneg, bound⟩ := updates.isWord_lookup
          (readyUpdates.mono fun _ node => node.sized) ready.self.sized.matched
            (ready.self.sized.fits updates rfl) lookup
        cases isSame
        rw [Word.eq_of_truncate cut nonneg bound]
    | unknown => exact node false
  · exact node _

end

/-! ## Calls of constructors -/

namespace Construction

/--
The node of the kind that is called for, with the operands as they are given; what it is
filed under is left open.  An extension to a smaller width stands for the low bits, unless it
is a zero extension that is marked.  A revision select needs both numbers.
-/
def unsimplified : Construction → Option Expr
  | .constant value width => some (.const ⟨0, width, false⟩ (value % 2 ^ width.toNat))
  | .notOptimized source multi => some (.notOptimized ⟨0, source.width, multi⟩ source)
  | .read updates index multi => some (.read ⟨0, updates.array.range, multi⟩ updates index)
  | .select cond onTrue onFalse multi =>
      some (.select ⟨0, onTrue.width, multi⟩ none cond onTrue onFalse)
  | .patchSelect cond onTrue onFalse (some truePatch) (some falsePatch) =>
      some (.select ⟨0, onTrue.width, true⟩ (some (truePatch, falsePatch)) cond onTrue onFalse)
  | .patchSelect .. => none
  | .concat high low multi => some (.concat ⟨0, high.width + low.width, multi⟩ high low)
  | .extract source offset width multi => some (.extract ⟨0, width, multi⟩ offset source)
  | .zext source width multi =>
      if multi = false ∧ width < source.width then some (.extract ⟨0, width, multi⟩ 0 source)
      else some (.zext ⟨0, width, multi⟩ source)
  | .sext source width multi =>
      if width < source.width then some (.extract ⟨0, width, multi⟩ 0 source)
      else some (.sext ⟨0, width, multi⟩ source)
  | .not source multi => some (.not ⟨0, source.width, multi⟩ source)
  | .binary operator left right multi =>
      some (.binary ⟨0, Build.resultWidth operator left, multi⟩ operator left right)

/-- A sign extension to a smaller width that is marked, and so is made as it stands. -/
def Narrows : Construction → Prop
  | .sext source width true => width < source.width
  | _ => False

variable {histories : List Updates} {table : Table} {call : Construction} {node : Expr}

/-- The node is made of what the call is given, and has the width of its kind. -/
theorem unsimplified_spec
    (plain : call.unsimplified = some node)
    (nonneg : 0 ≤ node.width) :
    node.kids = call.operands ∧ node.updates? = call.history? ∧ node.Measured := by
  cases call with
  | constant value width =>
      cases plain
      have modulus : (0 : Int) < 2 ^ width.toNat := by positivity
      exact ⟨rfl, rfl, nonneg, Int.emod_nonneg _ modulus.ne', Int.emod_lt_of_pos _ modulus⟩
  | patchSelect cond onTrue onFalse truePatch falsePatch =>
      cases truePatch with
      | none => cases plain
      | some truePatch =>
          cases falsePatch with
          | none => cases plain
          | some falsePatch =>
              cases plain
              exact ⟨rfl, rfl, rfl⟩
  | extract source offset width multi =>
      cases plain
      exact ⟨rfl, rfl, trivial⟩
  | zext source width multi =>
      rw [unsimplified] at plain
      split at plain
      · cases plain
        exact ⟨rfl, rfl, trivial⟩
      · cases plain
        exact ⟨rfl, rfl, trivial⟩
  | sext source width multi =>
      rw [unsimplified] at plain
      split at plain
      · cases plain
        exact ⟨rfl, rfl, trivial⟩
      · cases plain
        exact ⟨rfl, rfl, trivial⟩
  | _ =>
      cases plain
      exact ⟨rfl, rfl, rfl⟩

/-- The unsimplified node of a call on well-typed operands is ready for evaluation. -/
theorem ready_unsimplified
    {assignment : Assignment}
    (supports : table.Supports histories)
    (given : ∀ operand ∈ call.operands, operand.Registered histories table)
    (made : ∀ updates ∈ call.history?, updates ∈ histories)
    (plain : call.unsimplified = some node)
    (typed : node.WellTyped)
    (offsets : node.OffsetsNonneg)
    (fits : node.ArraysFit assignment) :
    node.Throughout (Expr.Ready assignment node.IsWide) := by
  obtain ⟨kids, history, measured⟩ := unsimplified_spec plain typed.self.1.le
  refine Expr.ready_of_wellTyped (Expr.throughout_of_kids measured measured ?_ ?_) typed
    offsets fits
  · intro kid member
    exact (given kid (kids ▸ member)).measured
  · intro updates member
    exact (supports.written updates (made updates (history ▸ member))).mono fun _ known =>
      known.proper.measured

/--
As wide as a node, and of its value where it has one.  Where the call narrows, the signed
reading that comes in between may be too large to be made.
-/
structure Meets
    (call : Construction) (assignment : Assignment) (wide : Prop) (node result : Expr) :
    Prop where
  width_eq : result.width = node.width
  evaluate : ∀ outcome, node.evaluate assignment = .ok outcome →
    result.evaluate assignment = .ok outcome ∨
      call.Narrows ∧ wide ∧ ∃ cause, result.evaluate assignment = .error (.count cause)

theorem meets_of_refines
    {assignment : Assignment}
    {wide : Prop}
    {result : Expr}
    (refines : Expr.Refines assignment wide node result) :
    call.Meets assignment wide node result :=
  ⟨refines.width_eq, fun outcome evaluated => .inl (refines.evaluate outcome evaluated)⟩

/-- A marked sign extension to a smaller width is left as it stands. -/
theorem affords_narrowing
    {assignment : Assignment}
    {wide : Prop}
    {source : Expr}
    {width : Int}
    (narrower : width < source.width)
    (ready : (Expr.extract ⟨0, width, true⟩ 0 source).Throughout
      (Expr.Ready assignment wide)) :
    Build.Affords wide (Build.sext source width true) table fun result _ =>
      (sext source width true).Meets assignment wide (.extract ⟨0, width, true⟩ 0 source)
        result := by
  have readySource : source.Throughout (Expr.Ready assignment wide) :=
    ready.kid List.mem_cons_self
  unfold Build.sext
  rw [if_pos rfl]
  refine Build.Affords.of_returns ⟨?_, ?_⟩
  · exact (Build.succeeds_tag _ width _ table).bind fun _ _ _ => Succeeds.pure _ _
  · intro result later ran
    obtain ⟨tag, middle, tagged, rest⟩ := bind_eq_ok.1 ran
    obtain ⟨rfl, rfl⟩ := pure_eq_ok.1 rest
    have isWidth : tag.width = width := (Build.tag_spec tagged).2.1
    refine ⟨isWidth, fun outcome evaluated => ?_⟩
    refine (Expr.evaluate_sext_of_extract readySource isWidth narrower evaluated).imp_right ?_
    exact fun raised => ⟨narrower, raised⟩

/-- Every constructor gives something as good as the node of its kind. -/
theorem affords_run
    {assignment : Assignment}
    {wide : Prop}
    (supports : table.Supports histories)
    (given : ∀ operand ∈ call.operands, operand.Registered histories table)
    (plain : call.unsimplified = some node)
    (ready : node.Throughout (Expr.Ready assignment wide)) :
    Build.Affords wide call.run table fun result _ =>
      call.Meets assignment wide node result := by
  -- All calls but one give what is as good as the node.
  have plainly {action : Build Expr}
      (affords : Build.Affords wide action table fun result _ =>
        Expr.Refines assignment wide node result) :
      Build.Affords wide action table fun result _ => call.Meets assignment wide node result :=
    affords.mono fun _ _ _ refines => meets_of_refines refines
  have coherent (first second : Expr) (isFirst : first ∈ call.operands)
      (isSecond : second ∈ call.operands) : first.same second = true → first = second :=
    Expr.Registered.eq_of_same supports (given first isFirst) (given second isSecond)
  cases call with
  | constant value width =>
      cases plain
      apply plainly
      refine Build.affords_constant rfl ready.self.sized.width_pos ready.self.enough ?_
      intro word outcome cut evaluated
      cases evaluated
      rw [(Word.truncate_eq_ok cut).2]
  | notOptimized source multi =>
      cases plain
      exact plainly (Build.affords_tagged ready rfl)
  | read updates index multi =>
      cases plain
      exact plainly (Build.affords_read ready)
  | select cond onTrue onFalse multi =>
      cases plain
      exact plainly (Build.affords_select ready
        (coherent onTrue onFalse (by simp [operands]) (by simp [operands])))
  | patchSelect cond onTrue onFalse truePatch falsePatch =>
      cases truePatch with
      | none => cases plain
      | some truePatch =>
          cases falsePatch with
          | none => cases plain
          | some falsePatch =>
              cases plain
              exact plainly (Build.affords_tagged ready rfl)
  | concat high low multi =>
      cases plain
      exact plainly (Build.affords_concat ready)
  | extract source offset width multi =>
      cases plain
      exact plainly (Build.affords_extract ready)
  | zext source width multi =>
      rw [unsimplified] at plain
      split at plain
      · rename_i narrower
        obtain ⟨rfl, narrower⟩ := narrower
        cases plain
        apply plainly
        show Build.Affords wide (Build.zext source width false) table _
        unfold Build.zext
        rw [if_neg Bool.false_ne_true, if_neg narrower.ne, if_pos narrower]
        exact Build.affords_extract ready
      · cases plain
        exact plainly (Build.affords_zext ready)
  | sext source width multi =>
      rw [unsimplified] at plain
      split at plain
      · rename_i narrower
        cases plain
        cases multi with
        | true => exact affords_narrowing narrower ready
        | false =>
            apply plainly
            show Build.Affords wide (Build.sext source width false) table _
            unfold Build.sext
            rw [if_neg Bool.false_ne_true, if_neg narrower.ne, if_pos narrower]
            exact Build.affords_extract ready
      · cases plain
        exact plainly (Build.affords_sext ready)
  | not source multi =>
      cases plain
      exact plainly (Build.affords_not ready)
  | binary operator left right multi =>
      cases plain
      exact plainly (Build.affords_binary ready
        (coherent left right (by simp [operands]) (by simp [operands])))

/--
What a constructor returns is as wide as the node that it simplifies and has its value
wherever the node has one.  It returns unless an integer is needed that cannot be made.  A
marked sign extension to a smaller width is returned as it stands, and may need such an
integer when it is evaluated.
-/
theorem run_refines
    {workshop : Workshop}
    (reached : workshop.Reachable)
    (operandsAtHand : ∀ operand ∈ call.operands, operand ∈ workshop.expressions)
    (history : ∀ updates ∈ call.history?, updates ∈ workshop.histories)
    (plain : call.unsimplified = some node)
    (typed : node.WellTyped)
    (offsets : node.OffsetsNonneg)
    {assignment : Assignment}
    (fits : node.ArraysFit assignment) :
    match call.run workshop.table with
    | .ok result _ =>
        result.width = node.width ∧
          ∀ value, node.evaluate assignment = .ok value →
            result.evaluate assignment = .ok value ∨
              call.Narrows ∧ node.IsWide ∧
                ∃ cause, result.evaluate assignment = .error (.count cause)
    | .error fault _ => node.IsWide ∧ ∃ cause, fault = .count cause := by
  have sound := reached.sound
  have given : ∀ operand ∈ call.operands,
      operand.Registered workshop.histories workshop.table :=
    fun operand member => sound.registered operand (operandsAtHand operand member)
  have affords := affords_run sound.supports given plain
    (ready_unsimplified sound.supports given history plain typed offsets fits)
  unfold Build.Affords at affords
  cases ran : call.run workshop.table with
  | ok result later =>
      rw [ran] at affords
      exact ⟨affords.width_eq, affords.evaluate⟩
  | error fault later =>
      rw [ran] at affords
      exact ⟨affords.2, affords.1⟩

end Construction

namespace Nibble

export LoneByte (assigned)

def array : ArrayDecl :=
  { id := 0, name := "a", size := 1, contents := none, domain := 32, range := 4 }

def index : Expr := .const ⟨1, 32, false⟩ 0

def input : Expr := .read ⟨2, 4, false⟩ (.root array) index

def complement : Expr := .not ⟨3, 4, false⟩ input

def one : Expr := .const ⟨4, 8, false⟩ 1

def large : Expr := .const ⟨5, 16, false⟩ 511

def workshop : Workshop :=
  [.constant 0 32, .read (.root array) index false, .not input false, .constant 1 8,
    .constant 511 16].foldl Workshop.construct (Workshop.declare {} "a" 1 none 32 4)

theorem expressions_eq :
    workshop.expressions = [large, one, complement, input, index] := rfl

theorem reachable : workshop.Reachable := by
  refine Workshop.Reachable.foldl_construct
    (Relation.ReflTransGen.single (.declare "a" 1 none 32 4)) ?_
  refine ⟨?_, ?_, ?_, ?_, ?_, ?_, ?_, ?_, ?_, ?_, trivial⟩
  all_goals simp [Construction.operands, Construction.history?]
  · exact .head _
  · exact .head _
  · exact .head _

/-- The complement of a complement, as it stands. -/
def twice : Expr := .not ⟨0, 4, false⟩ complement

/-- The low byte of a word, as it stands. -/
def low : Expr := .extract ⟨0, 8, true⟩ 0 large

theorem wellTyped_twice : twice.WellTyped ∧ twice.OffsetsNonneg := by
  constructor
  · simp [twice, complement, input, index, Expr.WellTyped, Expr.Matched, Updates.Matched,
      Expr.width, Expr.tag]
  · simp [twice, complement, input, index, Expr.OffsetsNonneg, Expr.offset?]

end Nibble

open Nibble in
/--
The complement of a complement of a nibble is the nibble, and a marked sign extension to a
smaller width gives the low bits.
-/
theorem Construction.run_refines_complement :
    (∃ result later,
      (Construction.not complement false).run workshop.table = .ok result later ∧
        result.width = 4 ∧ result.evaluate (assigned 9) = .ok (some 9)) ∧
      ∃ result later, (Construction.sext large 8 true).run workshop.table = .ok result later ∧
        result.width = 8 ∧ result.evaluate (assigned 9) = .ok (some 255) := by
  constructor
  · have arraysFit : twice.ArraysFit (assigned 9) := by
      simp [twice, complement, input, index, Expr.ArraysFit, Expr.updates?, Updates.array, array,
        assigned, ArrayDecl.Fits, ArrayDecl.values]
    have narrow : ¬ twice.IsWide := by
      simp [twice, complement, input, index, Expr.IsWide, Expr.parts, Updates.parts, Expr.width,
        Expr.tag, Word.widest]
    have atHand : ∀ operand ∈ (Construction.not complement false).operands,
        operand ∈ workshop.expressions := by
      simp [expressions_eq, Construction.operands]
    have refines := Construction.run_refines reachable atHand (by simp [Construction.history?])
      rfl wellTyped_twice.1 wellTyped_twice.2 arraysFit
    cases ran : (Construction.not complement false).run workshop.table with
    | ok result later =>
        rw [ran] at refines
        exact ⟨result, later, rfl, refines.1, (refines.2 (some 9) rfl).resolve_right
          fun raised => raised.1⟩
    | error fault later =>
        rw [ran] at refines
        exact (narrow refines.1).elim
  · have typed : low.WellTyped ∧ low.OffsetsNonneg ∧ low.ArraysFit (assigned 9) := by
      refine ⟨?_, ?_, ?_⟩
      · simp [low, large, Expr.WellTyped, Expr.Matched, Expr.width, Expr.tag]
      · simp [low, large, Expr.OffsetsNonneg, Expr.offset?]
      · simp [low, large, Expr.ArraysFit, Expr.updates?]
    have narrow : ¬ low.IsWide := by
      simp [low, large, Expr.IsWide, Expr.parts, Expr.width, Expr.tag, Word.widest]
    have atHand : ∀ operand ∈ (Construction.sext large 8 true).operands,
        operand ∈ workshop.expressions := by
      simp [expressions_eq, Construction.operands]
    have refines := Construction.run_refines reachable atHand (by simp [Construction.history?])
      rfl typed.1 typed.2.1 typed.2.2
    cases ran : (Construction.sext large 8 true).run workshop.table with
    | ok result later =>
        rw [ran] at refines
        exact ⟨result, later, rfl, refines.1, (refines.2 (some 255) rfl).resolve_right
          fun raised => narrow raised.2.1⟩
    | error fault later =>
        rw [ran] at refines
        exact (narrow refines.1).elim

open Nibble in
/--
A byte that is no nibble is not what its complement's complement is, a constant cannot be
extended to a very wide word though its extension has a value, and a marked extension to a
smaller width keeps the bits above.
-/
theorem Construction.run_differs :
    workshop.Reachable ∧
      (twice.WellTyped ∧ twice.OffsetsNonneg ∧
        (Construction.not complement false).unsimplified = some twice ∧
          twice.evaluate (assigned 255) = .ok (some 15) ∧
            ∃ result later,
              (Construction.not complement false).run workshop.table = .ok result later ∧
                result.evaluate (assigned 255) = .ok (some 255)) ∧
      (∃ node, node.WellTyped ∧ node.OffsetsNonneg ∧
        (Construction.zext one 1180591620717411303424 false).unsimplified = some node ∧
          node.evaluate (assigned 0) = .ok (some 1) ∧
            ∃ later, (Construction.zext one 1180591620717411303424 false).run workshop.table =
              .error (.count .tooWide) later) ∧
      (Expr.extract ⟨0, 8, true⟩ 0 large).evaluate (assigned 0) = .ok (some 255) ∧
        ∃ result later, (Construction.zext large 8 true).run workshop.table = .ok result later ∧
          result.evaluate (assigned 0) = .ok (some 511) := by
  refine ⟨reachable, ⟨wellTyped_twice.1, wellTyped_twice.2, rfl, rfl, _, _, rfl, rfl⟩,
    ⟨.zext ⟨0, 1180591620717411303424, false⟩ one, ?_, ?_, ?_, rfl, _, rfl⟩, rfl, _, _, rfl, rfl⟩
  · simp [one, Expr.WellTyped, Expr.Matched, Expr.width, Expr.tag]
  · simp [one, Expr.OffsetsNonneg, Expr.offset?]
  · rfl

end Diverge

import Mathlib.Algebra.BigOperators.Intervals
import Mathlib.Algebra.BigOperators.Ring.Finset
import Diverge.Proofs.Expr.Refinement
import Diverge.Proofs.Memory.Opening

/-!
# Values in memory

A value that is written is cut into bytes, and a value that is read is put together from
bytes, both by constructors that may fold.  Whatever they do, the byte at the lowest
address is the least significant one: a written byte has the value of its bits, and a
window that is read has the value that its bytes have to the base of 256
(`Heap.write_littleEndian`).
-/

namespace Diverge

open Stateful

/-! ## Words of nodes -/

/-- A node of a given width. -/
structure Expr.OfWidth (width : Nat) (node : Expr) : Prop where
  measured : node.Measured
  width_eq : node.width = width

/-- Under an assignment the value is a given word. -/
structure Expr.Carries
    (assignment : Assignment) (width word : Nat) (expression : Expr) : Prop where
  bound : word < 2 ^ width
  evaluate_eq : expression.evaluate assignment = .ok (some (word : Int))

/-- A well-typed expression that has a value carries a word of its width. -/
theorem Expr.carries_of_evaluate
    {assignment : Assignment}
    {expression : Expr}
    {width : Nat}
    {outcome : Option Int}
    (sized : expression.Throughout (Expr.Sized assignment))
    (isWidth : expression.width = width)
    (evaluated : expression.evaluate assignment = .ok outcome) :
    ∃ word : Nat, outcome = some (word : Int) ∧ expression.Carries assignment width word := by
  obtain ⟨value, rfl, nonneg, bound⟩ := expression.isWord_evaluate sized evaluated
  obtain ⟨word, rfl⟩ := Int.eq_ofNat_of_zero_le nonneg
  rw [isWidth, Int.toNat_natCast] at bound
  exact ⟨word, rfl, by exact_mod_cast bound, evaluated⟩

/-- A constant carries its own word only. -/
theorem Expr.OfWidth.eq_const
    {node : Expr}
    {width : Nat}
    {value : Option Int}
    (shape : node.OfWidth width)
    (constant : node.constant? = some value) :
    ∃ (tag : Tag) (word : Nat), node = .const tag word ∧ value = some (word : Int) ∧
      word < 2 ^ width := by
  obtain ⟨tag, vector, rfl, rfl⟩ := Expr.eq_const_of_constant? shape.measured constant
  have bits : tag.width.toNat = width := by
    have isWidth : tag.width = width := shape.width_eq
    rw [isWidth, Int.toNat_natCast]
  exact ⟨tag, vector.toNat, rfl, rfl, bits ▸ vector.isLt⟩

theorem Expr.ofWidth_const
    {tag : Tag}
    {width word : Nat}
    (isWidth : tag.width = width)
    (bound : word < 2 ^ width) :
    (Expr.const tag word).OfWidth width := by
  refine ⟨?_, isWidth⟩
  show 0 ≤ tag.width ∧ (0 : Int) ≤ word ∧ (word : Int) < 2 ^ tag.width.toNat
  rw [isWidth, Int.toNat_natCast]
  exact ⟨Int.natCast_nonneg _, Int.natCast_nonneg _, by exact_mod_cast bound⟩

/-- A constant carries its own value only. -/
theorem Expr.Carries.eq_of_const
    {assignment : Assignment}
    {tag : Tag}
    {width word other : Nat}
    (carries : (Expr.const tag word).Carries assignment width other) :
    other = word := by
  cases carries.evaluate_eq
  rfl

namespace Word

theorem truncate_natCast
    {width : Nat}
    (narrow : (width : Int) ≤ widest)
    (value : Nat) :
    truncate value width = .ok ((value % 2 ^ width : Nat) : Int) := by
  have possible : checkShift 1 width = .ok () := by
    refine checkShift_eq_ok (Int.natCast_nonneg _) ?_
    have noBits : (1 : Int).natAbs.log2 = 0 := rfl
    rw [noBits]
    unfold widest at narrow
    omega
  rw [truncate_eq possible, Int.toNat_natCast]
  show Except.ok ((value : Int) % 2 ^ width) = _
  push_cast
  rfl

theorem shiftRight_natCast
    (value amount : Nat) :
    shiftRight? (some (value : Int)) (some (amount : Int)) =
      .ok ((value / 2 ^ amount : Nat) : Int) := by
  show shiftRight value amount = _
  rw [shiftRight_eq (Int.natCast_nonneg _), Int.toNat_natCast]
  show Except.ok ((value : Int) / 2 ^ amount) = _
  push_cast
  rfl

/-- A word on top of another, in numbers. -/
theorem join_natCast
    {upper width high low : Nat}
    (narrow : ((upper + width : Nat) : Int) ≤ widest)
    (positive : 0 < upper)
    (highBound : high < 2 ^ upper)
    (lowBound : low < 2 ^ width) :
    join (some (high : Int)) (some (low : Int)) width =
      .ok ((high * 2 ^ width + low : Nat) : Int) := by
  have isHigh : (BitVec.ofNat upper high).toNat = high := by
    rw [BitVec.toNat_ofNat, Nat.mod_eq_of_lt highBound]
  have isLow : (BitVec.ofNat width low).toNat = low := by
    rw [BitVec.toNat_ofNat, Nat.mod_eq_of_lt lowBound]
  have enough : widest < (upper : Int) + width → False := by
    push_cast at narrow
    omega
  have vectors : Affords False
      (join (some ((BitVec.ofNat upper high).toNat : Int))
        (some ((BitVec.ofNat width low).toNat : Int)) width)
      fun word => word = (BitVec.ofNat upper high ++ BitVec.ofNat width low).toNat :=
    affords_join (Int.natCast_nonneg width) (Int.natCast_pos.2 positive) enough _ _
  rw [isHigh, isLow] at vectors
  cases made : join (some (high : Int)) (some (low : Int)) width with
  | error fault =>
      rw [made] at vectors
      exact vectors.2.elim
  | ok word =>
      rw [vectors.of_ok made, BitVec.toNat_append, isHigh, isLow,
        ← Nat.shiftLeft_add_eq_or_of_lt lowBound, Nat.shiftLeft_eq]

end Word

namespace Build

variable {table : Table}

/-- A constant of a width that is not too large is made, cut to that width. -/
theorem returns_word
    {width : Nat}
    (narrow : (width : Int) ≤ Word.widest)
    (value : Nat) :
    Returns (Build.constant value width) table fun result _ =>
      ∃ tag : Tag, tag.width = width ∧ result = .const tag ((value % 2 ^ width : Nat) : Int) := by
  refine Returns.bind (Returns.ofExcept (Word.truncate_natCast narrow value) ?_)
  constructor
  · exact (succeeds_tag _ _ _ table).bind fun _ _ _ => Succeeds.pure _ _
  · intro result later ran
    obtain ⟨tag, rfl, _, width, _⟩ := constNode_spec ran
    exact ⟨tag, width, rfl⟩

/-- The bits that are extracted from a word. -/
theorem returns_extract
    {source : Expr}
    {total : Nat}
    (shape : source.OfWidth total)
    (offset : Nat)
    {width : Nat}
    (narrow : (width : Int) ≤ Word.widest) :
    Returns (Build.extract source offset width) table fun result _ =>
      result.OfWidth width ∧
        ∀ assignment word, source.Carries assignment total word →
          result.Carries assignment width (word / 2 ^ offset % 2 ^ width) := by
  have bound (word : Nat) : word / 2 ^ offset % 2 ^ width < 2 ^ width :=
    Nat.mod_lt _ (by positivity)
  unfold Build.extract
  rw [if_neg Bool.false_ne_true]
  split
  · rename_i whole
    have start : offset = 0 := by exact_mod_cast whole.1
    have same : width = total := by exact_mod_cast whole.2.trans shape.width_eq
    subst start
    subst same
    refine Returns.pure ⟨shape, fun assignment word carries => ?_⟩
    rw [pow_zero, Nat.div_one, Nat.mod_eq_of_lt carries.bound]
    exact carries
  · split
    · rename_i value constant
      obtain ⟨tag, word, rfl, rfl, _⟩ := shape.eq_const constant
      rw [Word.shiftRight_natCast]
      refine (returns_word narrow _).mono ?_
      rintro result _ ⟨made, isWidth, rfl⟩
      refine ⟨Expr.ofWidth_const isWidth (bound word), fun assignment other carries => ?_⟩
      rw [carries.eq_of_const]
      exact ⟨bound word, rfl⟩
    · constructor
      · exact (succeeds_tag _ _ _ table).bind fun _ _ _ => Succeeds.pure _ _
      · intro result later ran
        obtain ⟨tag, rfl, _, isWidth, _⟩ := extractNode_spec ran
        refine ⟨⟨trivial, isWidth⟩, fun assignment word carries => ⟨bound word, ?_⟩⟩
        refine Expr.evaluate_extract_eq_ok.2 ⟨_, _, _, carries.evaluate_eq,
          Word.shiftRight_natCast word offset, ?_, rfl⟩
        rw [isWidth]
        exact Word.truncate_natCast narrow _

/-- A word that is extended by zeros. -/
theorem returns_zext
    {source : Expr}
    {total width : Nat}
    (shape : source.OfWidth total)
    (wider : total < width)
    (narrow : (width : Int) ≤ Word.widest) :
    Returns (Build.zext source width) table fun result _ =>
      result.OfWidth width ∧
        ∀ assignment word, source.Carries assignment total word →
          result.Carries assignment width word := by
  have bound {word : Nat} (small : word < 2 ^ total) : word < 2 ^ width :=
    small.trans (Nat.pow_lt_pow_right (by decide) wider)
  unfold Build.zext
  rw [if_neg Bool.false_ne_true, shape.width_eq, if_neg (by omega), if_neg (by omega)]
  split
  · rename_i value constant
    obtain ⟨tag, word, rfl, rfl, small⟩ := shape.eq_const constant
    rw [Word.truncate?_some]
    refine (returns_word narrow word).mono ?_
    rintro result _ ⟨made, isWidth, rfl⟩
    rw [Nat.mod_eq_of_lt (bound small)]
    refine ⟨Expr.ofWidth_const isWidth (bound small), fun assignment other carries => ?_⟩
    rw [carries.eq_of_const]
    exact ⟨bound small, rfl⟩
  · constructor
    · exact (succeeds_tag _ _ _ table).bind fun _ _ _ => Succeeds.pure _ _
    · intro result later ran
      obtain ⟨tag, rfl, _, isWidth, _⟩ := zextNode_spec ran
      refine ⟨⟨trivial, isWidth⟩, fun assignment word carries => ⟨bound carries.bound, ?_⟩⟩
      rw [Expr.evaluate_zext]
      exact carries.evaluate_eq

/-- A word on top of another. -/
theorem returns_concat
    {high low : Expr}
    {upper lower : Nat}
    (shapeHigh : high.OfWidth upper)
    (shapeLow : low.OfWidth lower)
    (positive : 0 < upper)
    (narrow : ((upper + lower : Nat) : Int) ≤ Word.widest) :
    Returns (Build.concat high low) table fun result _ =>
      result.OfWidth (upper + lower) ∧
        ∀ assignment first second, high.Carries assignment upper first →
          low.Carries assignment lower second →
            result.Carries assignment (upper + lower) (first * 2 ^ lower + second) := by
  have bound {first second : Nat} (fits : first < 2 ^ upper) (fitsToo : second < 2 ^ lower) :
      first * 2 ^ lower + second < 2 ^ (upper + lower) :=
    calc
      first * 2 ^ lower + second < first * 2 ^ lower + 2 ^ lower :=
        Nat.add_lt_add_left fitsToo _
      _ = (first + 1) * 2 ^ lower := (Nat.succ_mul _ _).symm
      _ ≤ 2 ^ upper * 2 ^ lower := Nat.mul_le_mul_right _ fits
      _ = 2 ^ (upper + lower) := (pow_add 2 upper lower).symm
  unfold Build.concat
  rw [shapeHigh.width_eq, shapeLow.width_eq]
  split
  · rename_i constHigh constLow
    obtain ⟨tagHigh, first, rfl, rfl, fits⟩ := shapeHigh.eq_const constHigh
    obtain ⟨tagLow, second, rfl, rfl, fitsToo⟩ := shapeLow.eq_const constLow
    rw [Word.join_natCast narrow positive fits fitsToo, ← Nat.cast_add]
    refine (returns_word narrow _).mono ?_
    rintro result _ ⟨made, isWidth, rfl⟩
    rw [Nat.mod_eq_of_lt (bound fits fitsToo)]
    refine ⟨Expr.ofWidth_const isWidth (bound fits fitsToo), ?_⟩
    intro assignment other otherToo carries carriesToo
    rw [carries.eq_of_const, carriesToo.eq_of_const]
    exact ⟨bound fits fitsToo, rfl⟩
  · constructor
    · exact (succeeds_tag _ _ _ table).bind fun _ _ _ => Succeeds.pure _ _
    · intro result later ran
      obtain ⟨tag, rfl, _, isWidth, _⟩ := concatNode_spec ran
      refine ⟨⟨isWidth, ?_⟩, fun assignment first second carries carriesToo => ?_⟩
      · show tag.width = _
        rw [isWidth, shapeHigh.width_eq, shapeLow.width_eq, Nat.cast_add]
      · refine ⟨bound carries.bound carriesToo.bound, ?_⟩
        refine Expr.evaluate_concat_eq_ok.2 ⟨_, _, _, carries.evaluate_eq,
          carriesToo.evaluate_eq, ?_, rfl⟩
        rw [shapeLow.width_eq]
        exact Word.join_natCast narrow positive carries.bound carriesToo.bound

end Build

/-! ## Reading -/

namespace Contents

/-- The byte at a place is eight bits wide. -/
def HasByte (contents : Contents) (place : Nat) : Prop :=
  ∃ byte, contents.bytes[place]? = some byte ∧ byte.OfWidth 8

/-- The byte at a place carries a word. -/
def ByteCarries
    (assignment : Assignment) (contents : Contents) (place word : Nat) : Prop :=
  ∃ byte, contents.bytes[place]? = some byte ∧ byte.Carries assignment 8 word

variable {contents : Contents} {start : Nat} {table : Table}

theorem ByteCarries.carries
    {assignment : Assignment}
    {place word : Nat}
    {byte : Expr}
    (carried : contents.ByteCarries assignment place word)
    (isThere : contents.bytes[place]? = some byte) :
    byte.Carries assignment 8 word := by
  obtain ⟨other, isThereToo, carries⟩ := carried
  cases isThere.symm.trans isThereToo
  exact carries

theorem readBytes_succ
    {count : Nat}
    {byte : Expr}
    (isThere : contents.bytes[start + count]? = some byte) :
    contents.readBytes start (count + 1) =
      (contents.readBytes start count).map (byte :: ·) := by
  have found : contents.readByte ((start : Int) + count) = .ok byte := by
    rw [← Nat.cast_add]
    exact Sequence.fetch_of_getElem? isThere
  rw [readBytes, found]
  cases contents.readBytes start count <;> rfl

/-- Bytes that are all there can be read. -/
theorem readBytes_ends
    (count : Nat)
    (bytes : ∀ index < count, contents.HasByte (start + index)) :
    ∃ list, contents.readBytes start count = .ok list := by
  induction count with
  | zero => exact ⟨[], rfl⟩
  | succ count inductionHypothesis =>
      obtain ⟨byte, isThere, _⟩ := bytes count (Nat.lt_succ_self _)
      obtain ⟨list, ended⟩ :=
        inductionHypothesis fun index below => bytes index (Nat.lt_succ_of_lt below)
      exact ⟨byte :: list, by rw [readBytes_succ isThere, ended]; rfl⟩

/-- The value of some bytes, the least significant first. -/
def valueOf (values : Nat → Nat) (count : Nat) : Nat :=
  ∑ index ∈ Finset.range count, 256 ^ index * values index

/-- The next byte counts for the next power of 256. -/
theorem valueOf_succ
    (values : Nat → Nat)
    (count : Nat) :
    valueOf values (count + 1) = valueOf values count + 256 ^ count * values count :=
  Finset.sum_range_succ _ count

/-- The bytes of a word have the word as their value. -/
theorem valueOf_digits
    (word count : Nat) :
    valueOf (fun index => word / 256 ^ index % 256) count = word % 256 ^ count := by
  induction count with
  | zero => simp [valueOf, Nat.mod_one]
  | succ count inductionHypothesis =>
      rw [valueOf_succ, inductionHypothesis, Nat.mod_pow_succ]

/-- Bytes are put below a word, one after another, from the most significant on. -/
theorem returns_foldlM_concat
    {count : Nat}
    {list : List Expr}
    (ended : contents.readBytes start count = .ok list)
    (bytes : ∀ index < count, contents.HasByte (start + index))
    {above : Expr}
    {width : Nat}
    (shape : above.OfWidth width)
    (positive : 0 < width)
    (narrow : ((width + 8 * count : Nat) : Int) ≤ Word.widest) :
    Returns (list.foldlM (fun high low => Build.concat high low) above) table
      fun result _ => result.OfWidth (width + 8 * count) ∧
        ∀ assignment (first : Nat) (values : Nat → Nat),
          above.Carries assignment width first →
            (∀ index < count, contents.ByteCarries assignment (start + index) (values index)) →
              result.Carries assignment (width + 8 * count)
                (first * 256 ^ count + valueOf values count) := by
  -- The word above grows by a byte with every step, so it is general in the induction.
  induction count generalizing list above width table with
  | zero =>
      cases ended
      refine Returns.pure ⟨shape, fun assignment first values carries _ => ?_⟩
      simpa [valueOf] using carries
  | succ count inductionHypothesis =>
      obtain ⟨byte, isThere, shapeByte⟩ := bytes count (Nat.lt_succ_self _)
      have fewer (index : Nat) (below : index < count) : contents.HasByte (start + index) :=
        bytes index (Nat.lt_succ_of_lt below)
      obtain ⟨rest, endedRest⟩ := readBytes_ends count fewer
      rw [readBytes_succ isThere, endedRest] at ended
      cases ended
      have total : width + 8 + 8 * count = width + 8 * (count + 1) := by ring
      rw [← total] at narrow ⊢
      rw [List.foldlM_cons]
      refine Returns.bind ((Build.returns_concat shape shapeByte positive ?_).mono ?_)
      · push_cast at narrow ⊢
        omega
      rintro joined middle ⟨shapeJoined, carriesJoined⟩
      refine (inductionHypothesis endedRest fewer shapeJoined (by omega) narrow).mono ?_
      rintro result later ⟨shapeResult, carriesResult⟩
      refine ⟨shapeResult, fun assignment first values carries each => ?_⟩
      have carriesByte := (each count (Nat.lt_succ_self _)).carries isThere
      have value : first * 256 ^ (count + 1) + valueOf values (count + 1) =
          (first * 2 ^ 8 + values count) * 256 ^ count + valueOf values count := by
        rw [valueOf_succ]
        ring
      rw [value]
      exact carriesResult assignment _ values
        (carriesJoined assignment first _ carries carriesByte)
        fun index below => each index (Nat.lt_succ_of_lt below)

/-- A window of bytes is read as the value of its bytes. -/
theorem returns_read
    {count : Nat}
    (positive : 0 < count)
    (bytes : ∀ index < count, contents.HasByte (start + index))
    (narrow : ((8 * count : Nat) : Int) ≤ Word.widest) :
    Returns (contents.read start (8 * count : Nat)) table fun result _ =>
      ∀ assignment (values : Nat → Nat),
        (∀ index < count, contents.ByteCarries assignment (start + index) (values index)) →
          result.Carries assignment (8 * count) (valueOf values count) := by
  obtain ⟨rest, rfl⟩ := Nat.exists_eq_succ_of_ne_zero positive.ne'
  obtain ⟨byte, isThere, shape⟩ := bytes rest (Nat.lt_succ_self _)
  have fewer (index : Nat) (below : index < rest) : contents.HasByte (start + index) :=
    bytes index (Nat.lt_succ_of_lt below)
  obtain ⟨list, ended⟩ := readBytes_ends rest fewer
  have number : (((8 * rest.succ : Nat) : Int) / 8).toNat = rest.succ := by omega
  have total : 8 + 8 * rest = 8 * rest.succ := by omega
  unfold read
  rw [if_neg (by omega), number, readBytes_succ isThere, ended, ← total]
  refine (returns_foldlM_concat ended fewer shape (by decide) (total ▸ narrow)).mono ?_
  rintro result later ⟨_, carriesResult⟩ assignment values each
  have carriesByte := (each rest (Nat.lt_succ_self _)).carries isThere
  have value : valueOf values rest.succ = values rest * 256 ^ rest + valueOf values rest := by
    rw [valueOf_succ]
    ring
  rw [value]
  exact carriesResult assignment _ values carriesByte
    fun index below => each index (Nat.lt_succ_of_lt below)

/-- A single bit is the lowest one of its byte. -/
theorem returns_readBit
    (bytes : contents.HasByte start) :
    Returns (contents.read start 1) table fun result _ =>
      ∀ assignment word, contents.ByteCarries assignment start word →
        result.Carries assignment 1 (word % 2) := by
  obtain ⟨byte, isThere, shape⟩ := bytes
  have found : contents.readByte start = .ok byte := Sequence.fetch_of_getElem? isThere
  unfold read
  rw [if_pos rfl, found]
  refine (Build.returns_extract shape 0 (by decide)).mono ?_
  rintro result later ⟨_, carriesResult⟩ assignment word carried
  simpa using carriesResult assignment word (carried.carries isThere)

end Contents

/-! ## Writing -/

/-- A byte that always has the value of one byte of another expression. -/
structure Expr.IsByteOf (value : Expr) (width index : Nat) (byte : Expr) : Prop where
  shape : byte.OfWidth 8
  carries : ∀ assignment word, value.Carries assignment width word →
    byte.Carries assignment 8 (word / 256 ^ index % 256)

/-- Eight bits cut out of a value are one of its bytes, and cutting them out does not fail. -/
theorem Build.returns_byte
    {value : Expr}
    {width : Nat}
    (shape : value.OfWidth width)
    (index : Nat)
    (table : Table) :
    Returns (Build.extract value (8 * (index : Int)) 8) table fun byte _ =>
      value.IsByteOf width index byte := by
  have place : 8 * (index : Int) = ((8 * index : Nat) : Int) := by
    push_cast
    rfl
  have power : 2 ^ (8 * index) = 256 ^ index := pow_mul 2 8 index
  rw [place]
  refine (returns_extract shape (8 * index) (by decide)).mono ?_
  rintro byte later ⟨shapeByte, carriesByte⟩
  rw [power] at carriesByte
  exact ⟨shapeByte, carriesByte⟩

/-- A single bit takes a byte, the lowest one of itself. -/
theorem Build.returns_bit
    {value : Expr}
    (shape : value.OfWidth 1)
    (table : Table) :
    Returns (Build.zext value 8) table fun byte _ => value.IsByteOf 1 0 byte := by
  refine (returns_zext shape (by decide) (by decide)).mono ?_
  rintro byte later ⟨shapeByte, carriesByte⟩
  refine ⟨shapeByte, fun assignment word carries => ?_⟩
  have small : word < 256 := carries.bound.trans (by decide)
  rw [pow_zero, Nat.div_one, Nat.mod_eq_of_lt small]
  exact carriesByte assignment word carries

namespace Heap

/-- The bytes `first` to `last` of a value stand at their places, and all else is as before. -/
structure Wrote
    (identity offset : Nat)
    (value : Expr)
    (width first last : Nat)
    (heap later : Heap) : Prop where
  contents : later.contents.size = heap.contents.size
  others : ∀ other, other ≠ identity → later.contentsAt other = heap.contentsAt other
  size : (later.contentsAt identity).size = (heap.contentsAt identity).size
  outside : ∀ place, place < offset + first ∨ offset + last ≤ place →
    (later.contentsAt identity).bytes[place]? = (heap.contentsAt identity).bytes[place]?
  inside : ∀ index, first ≤ index → index < last →
    ∃ byte, (later.contentsAt identity).bytes[offset + index]? = some byte ∧
      value.IsByteOf width index byte

section

variable
  {identity offset : Nat}
  {value : Expr}
  {width : Nat}
  {heap : Heap}

theorem Wrote.refl
    (first : Nat) :
    Wrote identity offset value width first first heap heap where
  contents := rfl
  others _ _ := rfl
  size := rfl
  outside _ _ := rfl
  inside _ above below := absurd below (Nat.not_lt.2 above)

/-- What is written in two stretches is written in one. -/
theorem Wrote.trans
    {first middle last : Nat}
    {between later : Heap}
    (before : Wrote identity offset value width first middle heap between)
    (after : Wrote identity offset value width middle last between later)
    (ordered : first ≤ middle ∧ middle ≤ last) :
    Wrote identity offset value width first last heap later where
  contents := after.contents.trans before.contents
  others other apart := (after.others other apart).trans (before.others other apart)
  size := after.size.trans before.size
  outside place apart := by
    rw [after.outside place (by omega), before.outside place (by omega)]
  inside index above below := by
    by_cases early : index < middle
    · rw [after.outside (offset + index) (by omega)]
      exact before.inside index above early
    · exact after.inside index (by omega) below

theorem onContents_of_ok
    {α : Type}
    {action : EStateM Fault Contents α}
    {result : α}
    {changed : Contents}
    (ran : action (heap.contentsAt identity) = .ok result changed) :
    onContents identity action heap = .ok result (heap.setContents identity changed) := by
  unfold onContents
  rw [ran]
  rfl

/-- One byte is built and put at its place. -/
theorem wrote_writeByte
    {index : Nat}
    {action : Build Expr}
    (isContents : identity < heap.contents.size)
    (inside : offset + index < (heap.contentsAt identity).size)
    (returns : Returns action heap.table fun byte _ => value.IsByteOf width index byte) :
    ∃ later, writeByte identity ((offset : Int) + index) action heap = .ok () later ∧
      Wrote identity offset value width index (index + 1) heap later := by
  obtain ⟨⟨byte, table, built⟩, yields⟩ := returns
  have isByte := yields built
  let contents := heap.contentsAt identity
  let changed : Contents := { contents with bytes := contents.bytes.set (offset + index) byte }
  have written : Contents.writeByte ((offset : Int) + index) byte contents = .ok () changed := by
    rw [Contents.writeByte_run, if_pos (by exact_mod_cast isByte.shape.width_eq),
      ← Nat.cast_add, Sequence.replace_of_lt inside]
  have ran : writeByte identity ((offset : Int) + index) action heap =
      .ok () (setContents { heap with table } identity changed) := by
    have builds : build action heap = .ok byte { heap with table } := by
      unfold build
      rw [built]
    exact (bind_of_ok builds).trans (onContents_of_ok written)
  have isChanged :
      (setContents { heap with table } identity changed).contentsAt identity = changed := by
    rw [contentsAt_setContents]
    exact if_pos ⟨rfl, isContents⟩
  refine ⟨_, ran, ?_⟩
  constructor
  case contents => exact size_contents_setContents _ _ _
  case others =>
    intro other apart
    rw [contentsAt_setContents]
    exact if_neg fun both => apart both.1
  case size =>
    rw [isChanged]
    exact List.length_set
  case outside =>
    intro place apart
    rw [isChanged]
    exact List.getElem?_set_ne (by omega)
  case inside =>
    intro other above below
    cases Nat.le_antisymm (Nat.lt_succ_iff.1 below) above
    rw [isChanged]
    exact ⟨byte, List.getElem?_set_self inside, isByte⟩

/-- The loop writes the bytes of a value at consecutive places, by induction on their number. -/
theorem wrote_writeBytes
    (shape : value.OfWidth width)
    (count : Nat)
    {first : Nat}
    (isContents : identity < heap.contents.size)
    (inside : offset + (first + count) ≤ (heap.contentsAt identity).size) :
    ∃ later, writeBytes identity offset value first count heap = .ok () later ∧
      Wrote identity offset value width first (first + count) heap later := by
  induction count generalizing first heap with
  | zero => exact ⟨heap, rfl, .refl first⟩
  | succ count inductionHypothesis =>
      have here : offset + first < (heap.contentsAt identity).size := by omega
      obtain ⟨between, ran, wrote⟩ := wrote_writeByte isContents here
        (Build.returns_byte shape first heap.table)
      obtain ⟨later, ranRest, wroteRest⟩ := @inductionHypothesis between (first + 1)
        (by rwa [wrote.contents]) (by rw [wrote.size]; omega)
      refine ⟨later, (bind_of_ok ran).trans ranRest, ?_⟩
      have last : first + 1 + count = first + (count + 1) := by omega
      exact wrote.trans (last ▸ wroteRest) (by omega)

/-- The widths of values that can be written, and the numbers of bytes that they take. -/
inductive Takes : (width count : Nat) → Prop where
  | bit : Takes 1 1
  | bytes {count : Nat} (positive : 0 < count) : Takes (8 * count) count

theorem Takes.positive
    {count : Nat}
    (takes : Takes width count) :
    0 < count := by
  cases takes with
  | bit => exact Nat.one_pos
  | bytes positive => exact positive

/-- A value is written, as whole bytes or as a single bit in a byte of its own. -/
theorem wrote_write
    {count : Nat}
    (shape : value.OfWidth width)
    (takes : Takes width count)
    (isContents : identity < heap.contents.size)
    (inside : offset + count ≤ (heap.contentsAt identity).size) :
    ∃ later, write identity offset value heap = .ok () later ∧
      Wrote identity offset value width 0 count heap later := by
  unfold write
  cases takes with
  | bit =>
      rw [if_pos (by exact_mod_cast shape.width_eq)]
      obtain ⟨later, ran, wrote⟩ := wrote_writeByte isContents inside
        (Build.returns_bit shape heap.table)
      refine ⟨later, ?_, wrote⟩
      simpa using ran
  | bytes positive =>
      have several : value.width ≠ 1 := by
        rw [shape.width_eq]
        omega
      have number : (value.width / 8).toNat = count := by
        rw [shape.width_eq]
        omega
      rw [if_neg several, number]
      obtain ⟨later, ran, wrote⟩ := wrote_writeBytes shape count isContents
        (by omega : offset + (0 + count) ≤ _)
      exact ⟨later, ran, by rwa [Nat.zero_add] at wrote⟩

end

end Heap

/-! ## Reading what was written -/

namespace Contents

/-- The byte at a place has a value. -/
def Shows (assignment : Assignment) (contents : Contents) (place : Nat) (word : Int) : Prop :=
  ∃ byte, contents.bytes[place]? = some byte ∧ byte.evaluate assignment = .ok (some word)

/-- The byte at a place is evaluated without an error. -/
def Evaluates (assignment : Assignment) (contents : Contents) (place : Nat) : Prop :=
  ∃ byte outcome, contents.bytes[place]? = some byte ∧ byte.evaluate assignment = .ok outcome

/-- A value is read, whatever has been built before, and what is read has a value. -/
def Reads
    (assignment : Assignment) (contents : Contents) (start : Nat) (width word : Int) : Prop :=
  ∀ table, ∃ result after, contents.read start width table = .ok result after ∧
    result.evaluate assignment = .ok (some word)

section

variable
  {assignment : Assignment}
  {contents : Contents}
  {place : Nat}

theorem Shows.evaluates
    {word : Int}
    (isShown : contents.Shows assignment place word) :
    contents.Evaluates assignment place := by
  obtain ⟨byte, isThere, evaluated⟩ := isShown
  exact ⟨byte, _, isThere, evaluated⟩

/-- A byte shows one value. -/
theorem Shows.unique
    {word other : Int}
    (isShown : contents.Shows assignment place word)
    (isShownToo : contents.Shows assignment place other) :
    word = other := by
  obtain ⟨byte, isThere, evaluated⟩ := isShown
  obtain ⟨_, isThereToo, evaluatedToo⟩ := isShownToo
  cases isThere.symm.trans isThereToo
  cases evaluated.symm.trans evaluatedToo
  rfl

theorem ByteCarries.shows
    {word : Nat}
    (carries : contents.ByteCarries assignment place word) :
    contents.Shows assignment place word := by
  obtain ⟨byte, isThere, carriesByte⟩ := carries
  exact ⟨byte, isThere, carriesByte.evaluate_eq⟩

end

/--
No more bytes than a list can have in the memory that is assumed, so that no window is wider than
a number can be.
-/
def Held (contents : Contents) : Prop :=
  ByteCount.ofLength contents.size = .ok contents.size

/-- A window of contents that are held is not too wide. -/
theorem Held.narrow
    {contents : Contents}
    (held : contents.Held)
    {count : Nat}
    (inside : count ≤ contents.size) :
    ((8 * count : Nat) : Int) ≤ Word.widest := by
  have fits : 8 * (contents.size : Int) ≤ ByteCount.memory := by
    unfold Held ByteCount.ofLength at held
    split at held
    · cases held
    · split at held
      · cases held
      · omega
  unfold ByteCount.memory at fits
  unfold Word.widest
  omega

/-- All bytes are well-typed and were built in a workshop. -/
def IsBuilt (workshop : Workshop) (contents : Contents) : Prop :=
  ∀ byte ∈ contents.bytes, byte ∈ workshop.expressions ∧ byte.WellTyped ∧ byte.width = 8

/-- A byte that was built is eight bits wide. -/
theorem IsBuilt.ofWidth
    {workshop : Workshop}
    (reached : workshop.Reachable)
    {contents : Contents}
    (isBuilt : contents.IsBuilt workshop)
    {byte : Expr}
    (member : byte ∈ contents.bytes) :
    byte.OfWidth 8 := by
  obtain ⟨atHand, _, isWidth⟩ := isBuilt byte member
  exact ⟨(reached.sound.registered byte atHand).self.proper.measured, isWidth⟩

end Contents

namespace Heap

section

variable
  {workshop : Workshop}
  {identity offset : Nat}
  {value : Expr}
  {width count : Nat}
  {heap later : Heap}

/-- A byte was there before, or belongs to the value. -/
theorem Wrote.byte_cases
    (wrote : Wrote identity offset value width 0 count heap later)
    {place : Nat}
    {byte : Expr}
    (isThere : (later.contentsAt identity).bytes[place]? = some byte) :
    byte ∈ (heap.contentsAt identity).bytes ∨ ∃ index, value.IsByteOf width index byte := by
  by_cases apart : place < offset + 0 ∨ offset + count ≤ place
  · rw [wrote.outside place apart] at isThere
    exact .inl (List.mem_of_getElem? isThere)
  · obtain ⟨index, rfl⟩ := Nat.exists_eq_add_of_le (by omega : offset ≤ place)
    obtain ⟨other, isThereToo, isByte⟩ := wrote.inside index (Nat.zero_le _) (by omega)
    cases isThere.symm.trans isThereToo
    exact .inr ⟨index, isByte⟩

/-- After writing there is a byte at every place. -/
theorem Wrote.hasByte
    (reached : workshop.Reachable)
    (isBuilt : (heap.contentsAt identity).IsBuilt workshop)
    (wrote : Wrote identity offset value width 0 count heap later)
    {place : Nat}
    (inside : place < (heap.contentsAt identity).size) :
    (later.contentsAt identity).HasByte place := by
  rw [← wrote.size] at inside
  have isThere := List.getElem?_eq_getElem inside
  refine ⟨_, isThere, ?_⟩
  rcases wrote.byte_cases isThere with old | ⟨index, isByte⟩
  · exact isBuilt.ofWidth reached old
  · exact isByte.shape

/-- A byte without an error carries a word, if the value and what was there are well-typed. -/
theorem Wrote.byteCarries
    (reached : workshop.Reachable)
    (isBuilt : (heap.contentsAt identity).IsBuilt workshop)
    (wrote : Wrote identity offset value width 0 count heap later)
    {assignment : Assignment}
    (fits : ∀ byte ∈ (heap.contentsAt identity).bytes, byte.ArraysFit assignment)
    {word : Nat}
    (carries : value.Carries assignment width word)
    {place : Nat}
    (evaluates : (later.contentsAt identity).Evaluates assignment place) :
    ∃ part : Nat, (later.contentsAt identity).ByteCarries assignment place part := by
  obtain ⟨byte, outcome, isThere, evaluated⟩ := evaluates
  rcases wrote.byte_cases isThere with old | ⟨index, isByte⟩
  · obtain ⟨atHand, typed, isWidth⟩ := isBuilt byte old
    have sized := Expr.sized_of_wellTyped (reached.sound.registered byte atHand).proper typed
      (fits byte old)
    obtain ⟨part, _, carriesPart⟩ := Expr.carries_of_evaluate sized isWidth evaluated
    exact ⟨part, byte, isThere, carriesPart⟩
  · exact ⟨_, byte, isThere, isByte.carries assignment word carries⟩

/-- A byte that was written carries its digit of the value to the base of 256. -/
theorem Wrote.digit
    (wrote : Wrote identity offset value width 0 count heap later)
    {assignment : Assignment}
    {word : Nat}
    (carries : value.Carries assignment width word)
    {index : Nat}
    (below : index < count) :
    (later.contentsAt identity).ByteCarries assignment (offset + index)
      (word / 256 ^ index % 256) := by
  obtain ⟨byte, isThere, isByte⟩ := wrote.inside index (Nat.zero_le _) below
  exact ⟨byte, isThere, isByte.carries assignment word carries⟩

/-- A window that is read after writing has the value of its bytes. -/
theorem Wrote.reads
    (reached : workshop.Reachable)
    (isBuilt : (heap.contentsAt identity).IsBuilt workshop)
    (held : (heap.contentsAt identity).Held)
    (wrote : Wrote identity offset value width 0 count heap later)
    {start total : Nat}
    (positive : 0 < total)
    (inside : start + total ≤ (heap.contentsAt identity).size)
    {assignment : Assignment}
    {parts : Nat → Nat}
    (carries : ∀ index < total,
      (later.contentsAt identity).ByteCarries assignment (start + index) (parts index)) :
    (later.contentsAt identity).Reads assignment start (8 * total : Nat)
      (Contents.valueOf parts total : Nat) := by
  intro table
  have bytes (index : Nat) (below : index < total) :
      (later.contentsAt identity).HasByte (start + index) :=
    wrote.hasByte reached isBuilt (by omega)
  obtain ⟨⟨result, after, ran⟩, yields⟩ :
      Returns ((later.contentsAt identity).read start (8 * total : Nat)) table _ :=
    Contents.returns_read positive bytes (held.narrow (by omega))
  exact ⟨result, after, ran, (yields ran assignment parts carries).evaluate_eq⟩

/-- What was written is read. -/
theorem Wrote.reads_back
    (reached : workshop.Reachable)
    (isBuilt : (heap.contentsAt identity).IsBuilt workshop)
    (held : (heap.contentsAt identity).Held)
    (wrote : Wrote identity offset value width 0 count heap later)
    (takes : Takes width count)
    (inside : offset + count ≤ (heap.contentsAt identity).size)
    {assignment : Assignment}
    {word : Nat}
    (carries : value.Carries assignment width word) :
    (later.contentsAt identity).Reads assignment offset width word := by
  cases takes with
  | bit =>
      intro table
      obtain ⟨⟨result, after, ran⟩, yields⟩ :
          Returns ((later.contentsAt identity).read offset 1) table _ :=
        Contents.returns_readBit (wrote.hasByte reached isBuilt (by omega))
      have isBit : word / 256 ^ 0 % 256 % 2 = word := by
        have := carries.bound
        omega
      have read := yields ran assignment _ (wrote.digit carries Nat.one_pos)
      rw [isBit] at read
      exact ⟨result, after, ran, read.evaluate_eq⟩
  | bytes positive =>
      have whole : Contents.valueOf (fun index => word / 256 ^ index % 256) count = word := by
        rw [Contents.valueOf_digits]
        refine Nat.mod_eq_of_lt ?_
        have bound := carries.bound
        rwa [pow_mul] at bound
      have read := wrote.reads reached isBuilt held positive inside
        fun index below => wrote.digit carries below
      rwa [whole] at read

end

/-- A value that is written lies in memory with its least significant byte first.  For every
assignment without an error each written byte has its part of the value, and a single bit has a
byte of its own; what lies elsewhere is left as it was.  A window of whole bytes that is read has
the value of its bytes to the base of 256, wherever it overlaps with what was written, and
reading the value where it was written gives it back.  The contents are those a memory of the
assumed size can hold (`Held`). -/
theorem write_littleEndian
    {workshop : Workshop}
    (reached : workshop.Reachable)
    {heap : Heap}
    {identity : Nat}
    (isContents : identity < heap.contents.size)
    (isBuilt : (heap.contentsAt identity).IsBuilt workshop)
    (held : (heap.contentsAt identity).Held)
    {value : Expr}
    (built : value ∈ workshop.expressions)
    (typed : value.WellTyped)
    {width count : Nat}
    (isWidth : value.width = width)
    (takes : Takes width count)
    {offset : Nat}
    (inside : offset + count ≤ (heap.contentsAt identity).size) :
    ∃ later, write identity offset value heap = .ok () later ∧
      (later.contentsAt identity).size = (heap.contentsAt identity).size ∧
      (∀ place, place < offset ∨ offset + count ≤ place →
        (later.contentsAt identity).bytes[place]? = (heap.contentsAt identity).bytes[place]?) ∧
      (∀ other, other ≠ identity → later.contentsAt other = heap.contentsAt other) ∧
      ∀ assignment outcome, value.ArraysFit assignment →
        (∀ byte ∈ (heap.contentsAt identity).bytes, byte.ArraysFit assignment) →
        value.evaluate assignment = .ok outcome →
          ∃ word : Int, outcome = some word ∧
            (∀ index < count, (later.contentsAt identity).Shows assignment (offset + index)
              (word / 2 ^ (8 * index) % 256)) ∧
            (width = 1 → (later.contentsAt identity).Shows assignment offset word) ∧
            (∀ start total, 0 < total → start + total ≤ (heap.contentsAt identity).size →
              (∀ index < total,
                (later.contentsAt identity).Evaluates assignment (start + index)) →
              ∃ shown : Nat → Int,
                (∀ index < total,
                  (later.contentsAt identity).Shows assignment (start + index) (shown index)) ∧
                (later.contentsAt identity).Reads assignment start (8 * total : Nat)
                  (∑ index ∈ Finset.range total, 256 ^ index * shown index)) ∧
            (later.contentsAt identity).Reads assignment offset value.width word := by
  have registered := reached.sound.registered value built
  obtain ⟨later, ran, wrote⟩ :=
    wrote_write ⟨registered.self.proper.measured, isWidth⟩ takes isContents inside
  refine ⟨later, ran, wrote.size, fun place apart => wrote.outside place apart, wrote.others, ?_⟩
  intro assignment outcome fits fitsBytes evaluated
  have sized := Expr.sized_of_wellTyped registered.proper typed fits
  obtain ⟨word, rfl, carries⟩ := Expr.carries_of_evaluate sized isWidth evaluated
  have digits (index : Nat) (below : index < count) :
      (later.contentsAt identity).Shows assignment (offset + index)
        ((word : Int) / 2 ^ (8 * index) % 256) := by
    have isDigit := (wrote.digit carries below).shows
    rw [pow_mul]
    exact_mod_cast isDigit
  refine ⟨word, rfl, digits, ?_, ?_, ?_⟩
  · rintro rfl
    have isBit : (word : Int) / 2 ^ (8 * 0) % 256 = word := by
      have := carries.bound
      omega
    exact isBit ▸ digits 0 takes.positive
  · intro start total positive within evaluates
    have each (index : Nat) : ∃ part : Nat, index < total →
        (later.contentsAt identity).ByteCarries assignment (start + index) part := by
      by_cases below : index < total
      · obtain ⟨part, carriesPart⟩ :=
          wrote.byteCarries reached isBuilt fitsBytes carries (evaluates index below)
        exact ⟨part, fun _ => carriesPart⟩
      · exact ⟨0, fun below' => absurd below' below⟩
    choose parts carriesParts using each
    refine ⟨fun index => parts index, fun index below => (carriesParts index below).shows, ?_⟩
    have read := wrote.reads reached isBuilt held positive within carriesParts
    simpa [Contents.valueOf] using read
  · rw [isWidth]
    exact wrote.reads_back reached isBuilt held takes inside carries

end Heap

namespace HalfKnownWord

def array : ArrayDecl := ⟨0, "a", 4, none, 32, 8⟩

def place : Expr := .const ⟨1, 32, false⟩ 0

def low : Expr := .read ⟨2, 8, false⟩ (.root array) place

def high : Expr := .const ⟨3, 8, false⟩ 18

/-- What the memory holds at first. -/
def filling : Expr := .const ⟨4, 8, false⟩ 17

/-- A value of two bytes, one of them unknown. -/
def word : Expr := .concat ⟨5, 16, false⟩ high low

def workshop : Workshop :=
  [.constant 0 32, .read (.root array) place false, .constant 18 8, .constant 17 8,
    .concat high low false].foldl
    Workshop.construct (Workshop.declare {} "a" 4 none 32 8)

theorem expressions_workshop :
    workshop.expressions = [word, filling, high, low, place] := rfl

theorem reachable : workshop.Reachable := by
  refine Workshop.Reachable.foldl_construct (.single (.declare "a" 4 none 32 8)) ?_
  refine ⟨?_, ?_, ?_, ?_, ?_, ?_, ?_, ?_, ?_, ?_, trivial⟩
  all_goals simp [Construction.operands, Construction.history?]
  all_goals repeat constructor

def memory : Heap where
  table := workshop.table
  contents := #[{ (default : Contents) with bytes := [filling, filling, filling, filling] }]

def assigned (byte : UInt8) : Assignment :=
  .ofList [(array, [byte])]

theorem eq_filling {byte : Expr} (member : byte ∈ (memory.contentsAt 0).bytes) :
    byte = filling := by
  simpa [memory, Heap.contentsAt] using member

theorem isBuilt : (memory.contentsAt 0).IsBuilt workshop := by
  intro byte member
  cases eq_filling member
  refine ⟨by simp [expressions_workshop], ?_, rfl⟩
  simp [filling, Expr.WellTyped, Expr.Matched, Expr.width, Expr.tag]

theorem fits (assignment : Assignment) :
    ∀ byte ∈ (memory.contentsAt 0).bytes, byte.ArraysFit assignment := by
  intro byte member
  cases eq_filling member
  simp [filling, Expr.ArraysFit, Expr.updates?]

theorem wellTyped : word.WellTyped := by
  simp [word, high, low, place, Expr.WellTyped, Expr.Matched, Updates.Matched, Expr.width,
    Expr.tag]

theorem arraysFit (byte : UInt8) : word.ArraysFit (assigned byte) := by
  simp [word, high, low, place, assigned, Expr.ArraysFit, Expr.updates?, Updates.array, array,
    ArrayDecl.Fits, ArrayDecl.values, Assignment.ofList]
  exact byte.toNat_lt

end HalfKnownWord

open HalfKnownWord in
/-- Written at the second byte, the word is read there; a window that begins one byte earlier has
its low byte as the upper one. -/
theorem write_littleEndian_overlap :
    ∃ later, Heap.write 0 1 word memory = .ok () later ∧
      (later.contentsAt 0).Reads (assigned 7) 1 16 (18 * 256 + 7) ∧
      (later.contentsAt 0).Reads (assigned 7) 0 16 (7 * 256 + 17) := by
  have held : (memory.contentsAt 0).Held := ByteCount.ofLength_natCast (by decide)
  have built : word ∈ workshop.expressions := by simp [expressions_workshop]
  obtain ⟨later, ran, size, outside, _, values⟩ :=
    Heap.write_littleEndian reachable (by decide) isBuilt held built wellTyped rfl
      (.bytes Nat.two_pos) (by decide : 1 + 2 ≤ (memory.contentsAt 0).size)
  have evaluated : word.evaluate (assigned 7) = .ok (some (18 * 256 + 7)) := rfl
  obtain ⟨value, isValue, digits, _, window, back⟩ :=
    values (assigned 7) _ (arraysFit 7) (fits _) evaluated
  cases isValue
  have below : (later.contentsAt 0).Shows (assigned 7) 0 17 :=
    ⟨filling, outside 0 (.inl Nat.one_pos), rfl⟩
  have above : (later.contentsAt 0).Shows (assigned 7) 1 7 := digits 0 Nat.two_pos
  have evaluates (index : Nat) (inside : index < 2) :
      (later.contentsAt 0).Evaluates (assigned 7) (0 + index) := by
    match index with
    | 0 => exact below.evaluates
    | 1 => exact above.evaluates
  obtain ⟨shown, isShown, reads⟩ := window 0 2 Nat.two_pos (by decide) evaluates
  rw [Finset.sum_range_succ, Finset.sum_range_one, (isShown 0 (by decide)).unique below,
    (isShown 1 (by decide)).unique above] at reads
  exact ⟨later, ran, back, reads⟩

end Diverge

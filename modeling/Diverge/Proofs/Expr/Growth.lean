import Diverge.Expr.Build
import Diverge.Proofs.Computation

/-!
# Tables that grow

Building only adds to a table: what is known stays known under its identity, and
no identity is given out twice.  What has been built once is therefore built
again by looking it up: the same computation, on the table it left or on any
later one, gives the same node and changes nothing.  A computation with this
property is called *stable*, and all constructors are.
-/

namespace Diverge

open Stateful

/-- Identities are below the next one, and two keys never share an identity. -/
structure Table.Sound (table : Table) : Prop where
  bounded : ∀ ⦃key id⦄, table.find? key = some id → id < table.next
  injective : ∀ ⦃first second id⦄,
    table.find? first = some id → table.find? second = some id → first = second

/-- A later table knows all that an earlier one knew. -/
structure Table.Grows (before after : Table) : Prop where
  next_le : before.next ≤ after.next
  keeps : ∀ ⦃key id⦄, before.find? key = some id → after.find? key = some id
  sound : before.Sound → after.Sound

namespace Table

theorem sound_empty : Table.Sound {} where
  bounded := by
    intro key id found
    simp [show ({} : Table) = Table.empty from rfl] at found
  injective := by
    intro first second id found
    simp [show ({} : Table) = Table.empty from rfl] at found

theorem Grows.refl (table : Table) : table.Grows table :=
  ⟨Nat.le_refl _, fun _ _ found => found, fun sound => sound⟩

theorem Grows.trans
    ⦃first second third : Table⦄
    (start : first.Grows second)
    (rest : second.Grows third) :
    first.Grows third where
  next_le := Nat.le_trans start.next_le rest.next_le
  keeps := fun _ _ found => rest.keeps (start.keeps found)
  sound := fun sound => rest.sound (start.sound sound)

/-- A new key gets the next identity, which no other key has. -/
theorem grows_insert
    {table : Table}
    {key : Key}
    (unknown : table.find? key = none) :
    table.Grows (table.insert key) where
  next_le := Nat.le_succ _
  keeps := by
    intro other id found
    have different : key ≠ other := by
      rintro rfl
      rw [unknown] at found
      cases found
    rw [table.find?_insert_of_ne different]
    exact found
  sound := by
    intro sound
    have old (other : Key) (different : key ≠ other) (id : Nat)
        (found : (table.insert key).find? other = some id) :
        table.find? other = some id := by
      rwa [table.find?_insert_of_ne different] at found
    have new (id : Nat) (found : (table.insert key).find? key = some id) :
        id = table.next := by
      rw [table.find?_insert_self] at found
      exact (Option.some.inj found).symm
    constructor
    · intro other id found
      rw [next_insert]
      by_cases same : key = other
      · subst other
        rw [new id found]
        exact Nat.lt_succ_self _
      · exact Nat.lt_succ_of_lt (sound.bounded (old other same id found))
    · intro first second id foundFirst foundSecond
      by_cases sameFirst : key = first
      · by_cases sameSecond : key = second
        · exact sameFirst.symm.trans sameSecond
        · subst first
          have below := sound.bounded (old second sameSecond id foundSecond)
          rw [new id foundFirst] at below
          exact absurd below (Nat.lt_irrefl _)
      · by_cases sameSecond : key = second
        · subst second
          have below := sound.bounded (old first sameFirst id foundFirst)
          rw [new id foundSecond] at below
          exact absurd below (Nat.lt_irrefl _)
        · exact sound.injective (old first sameFirst id foundFirst)
            (old second sameSecond id foundSecond)

theorem grows_next
    (table : Table) :
    table.Grows { table with next := table.next + 1 } where
  next_le := Nat.le_succ _
  keeps := fun _ _ found => found
  sound := fun sound =>
    ⟨fun _ _ found => Nat.lt_succ_of_lt (sound.bounded found), sound.injective⟩

end Table

namespace Build

variable {α β : Type}

/-- On the table and on all later ones, the computation gives `result` and adds nothing. -/
def Settled (table : Table) (action : Build α) (result : α) : Prop :=
  ∀ later, table.Grows later → action later = .ok result later

theorem Settled.mono
    {table later : Table}
    {action : Build α}
    {result : α}
    (settled : Settled table action result)
    (grows : table.Grows later) :
    Settled later action result :=
  fun final further => settled final (grows.trans further)

theorem Settled.pure
    (table : Table)
    (value : α) :
    Settled table (pure value : Build α) value :=
  fun _ _ => rfl

/--
A computation is settled if its parts are: it looks up what it once built and leaves the table
alone.
-/
theorem Settled.bind
    {table : Table}
    {action : Build α}
    {next : α → Build β}
    {value : α}
    {result : β}
    (first : Settled table action value)
    (second : Settled table (next value) result) :
    Settled table (action >>= next) result := by
  intro later grows
  rw [bind_of_ok (first later grows)]
  exact second later grows

/-- The table only grows, and a result that was had once is had again. -/
structure Stable (action : Build α) : Prop where
  grows : ∀ table : Table, table.Grows (final action table)
  settles : ∀ ⦃table later : Table⦄ ⦃result : α⦄,
    action table = .ok result later → Settled later action result

namespace Stable

/-- A stable computation only adds to the table. -/
theorem grows_of_ok
    {action : Build α}
    (stable : Stable action)
    {table later : Table}
    {result : α}
    (ran : action table = .ok result later) :
    table.Grows later := by
  have grown := stable.grows table
  unfold final at grown
  rw [ran] at grown
  exact grown

/--
A stable computation moves along the growth of tables, and does not fail where it is known to
succeed.
-/
theorem moves_of_total
    {action : Build α}
    (stable : Stable action)
    {table : Table}
    {after : α → Table → Prop}
    {safe : Prop}
    (total : safe → Succeeds action table)
    (yields : Yields action table after) :
    Moves Table.Grows action table after safe := by
  have grown := stable.grows table
  unfold final at grown
  unfold Moves
  cases ran : action table with
  | ok result later =>
      rw [ran] at grown
      exact ⟨grown, yields ran⟩
  | error fault later =>
      rw [ran] at grown
      refine ⟨grown, fun isSafe => ?_⟩
      obtain ⟨_, _, ended⟩ := total isSafe
      rw [ran] at ended
      cases ended

theorem moves_of_yields
    {action : Build α}
    (stable : Stable action)
    {table : Table}
    {after : α → Table → Prop}
    (yields : Yields action table after) :
    Moves Table.Grows action table after :=
  stable.moves_of_total False.elim yields

/-- A stable computation, seen from its start. -/
theorem moves
    {action : Build α}
    (stable : Stable action)
    (table : Table) :
    Moves Table.Grows action table fun result later =>
      Settled later action result :=
  stable.moves_of_yields fun _ _ ran => stable.settles ran

theorem pure
    (value : α) :
    Stable (pure value : Build α) where
  grows := Table.Grows.refl
  settles := by
    intro table later result ran
    rw [pure_eq_ok] at ran
    rw [ran.1]
    exact Settled.pure later result

theorem throw
    (fault : Fault) :
    Stable (throw fault : Build α) where
  grows := Table.Grows.refl
  settles := fun _ _ _ ran => absurd ran throw_ne_ok

theorem ofExcept
    (outcome : Except Fault α) :
    Stable (ofExcept outcome : Build α) := by
  cases outcome with
  | ok value => exact Stable.pure value
  | error fault => exact Stable.throw fault

/-- Stable computations compose: the second part is settled on the table that the first one left. -/
theorem bind
    {action : Build α}
    {next : α → Build β}
    (first : Stable action)
    (second : ∀ value, Stable (next value)) :
    Stable (action >>= next) where
  grows := by
    intro table
    have both : Moves Table.Grows (action >>= next) table fun _ _ => True := by
      refine Moves.bind Table.Grows.trans ((first.moves table).mono ?_)
      intro value middle _ _
      exact ((second value).moves middle).mono fun _ _ _ _ => trivial
    exact both.final
  settles := by
    intro table later result ran
    obtain ⟨value, middle, ranFirst, ranSecond⟩ := bind_eq_ok.1 ran
    have settledFirst :=
      (first.settles ranFirst).mono ((second value).grows_of_ok ranSecond)
    exact settledFirst.bind ((second value).settles ranSecond)

theorem ite
    {condition : Prop}
    [Decidable condition]
    {onTrue onFalse : Build α}
    (first : Stable onTrue)
    (second : Stable onFalse) :
    Stable (if condition then onTrue else onFalse) := by
  split
  · exact first
  · exact second

end Stable

/-! ## The table operations -/

/-- After interning, the key is known under the identity that was given out. -/
theorem intern_spec
    {table later : Table}
    {key : Key}
    {id : Nat}
    (ran : intern key table = .ok id later) :
    table.Grows later ∧ later.find? key = some id := by
  unfold intern at ran
  cases found : table.find? key with
  | some known =>
      simp only [found] at ran
      cases ran
      exact ⟨Table.Grows.refl table, found⟩
  | none =>
      simp only [found] at ran
      cases ran
      exact ⟨Table.grows_insert found, table.find?_insert_self key⟩

/-- A known key is looked up, and the table does not change. -/
theorem intern_of_find?
    {table : Table}
    {key : Key}
    {id : Nat}
    (found : table.find? key = some id) :
    intern key table = .ok id table := by
  unfold intern
  rw [found]

theorem succeeds_intern
    (key : Key)
    (table : Table) :
    Succeeds (intern key) table := by
  unfold Succeeds intern
  cases table.find? key with
  | some known => exact ⟨known, table, rfl⟩
  | none => exact ⟨table.next, table.insert key, rfl⟩

/-- Interning is stable; everything that is built gets its identity from it. -/
theorem stable_intern (key : Key) : Stable (intern key) where
  grows := by
    intro table
    obtain ⟨id, later, ran⟩ := succeeds_intern key table
    unfold final
    rw [ran]
    exact (intern_spec ran).1
  settles := by
    intro table later id ran final grows
    exact intern_of_find? (grows.keeps (intern_spec ran).2)

theorem stable_tag
    (shape : Shape)
    (width : Int)
    (multi : Bool) :
    Stable (tag shape width multi) :=
  (stable_intern _).bind fun _ => Stable.pure _

/-- A tag has the width and the mark that were asked for, and the table knows its key. -/
theorem tag_spec
    {shape : Shape}
    {width : Int}
    {multi : Bool}
    {table later : Table}
    {result : Tag}
    (ran : tag shape width multi table = .ok result later) :
    later.find? { shape, width, multi } = some result.id ∧
      result.width = width ∧ result.multi = multi := by
  obtain ⟨id, middle, interned, rest⟩ := bind_eq_ok.1 ran
  obtain ⟨rfl, rfl⟩ := pure_eq_ok.1 rest
  exact ⟨(intern_spec interned).2, rfl, rfl⟩

theorem succeeds_tag
    (shape : Shape)
    (width : Int)
    (multi : Bool)
    (table : Table) :
    Succeeds (tag shape width multi) table :=
  (succeeds_intern _ table).bind fun _ _ _ => Succeeds.pure _ _

/-! ## Nodes as they are built -/

section

variable {table later : Table} {result : Expr}

/--
For each kind of node: what is built is the node on its operands, and the table knows it under
its key.
-/
theorem constNode_spec
    {word width : Int}
    (ran : constNode word width table = .ok result later) :
    ∃ tag : Tag, result = .const tag word ∧
      later.find? { shape := .const word, width, multi := false } = some tag.id ∧
        tag.width = width ∧ tag.multi = false := by
  obtain ⟨tag, middle, tagged, rest⟩ := bind_eq_ok.1 ran
  obtain ⟨rfl, rfl⟩ := pure_eq_ok.1 rest
  exact ⟨tag, rfl, tag_spec tagged⟩

theorem notOptimized_spec
    {source : Expr}
    {multi : Bool}
    (ran : notOptimized source multi table = .ok result later) :
    ∃ tag : Tag, result = .notOptimized tag source ∧
      later.find? {
          shape := .notOptimized source.id, width := source.width
          multi := multi || source.multi } = some tag.id ∧
        tag.width = source.width ∧ tag.multi = (multi || source.multi) := by
  obtain ⟨tag, middle, tagged, rest⟩ := bind_eq_ok.1 ran
  obtain ⟨rfl, rfl⟩ := pure_eq_ok.1 rest
  exact ⟨tag, rfl, tag_spec tagged⟩

theorem readNode_spec
    {updates : Updates}
    {index : Expr}
    {multi : Bool}
    (ran : readNode updates index multi table = .ok result later) :
    ∃ tag : Tag, result = .read tag updates index ∧
      later.find? {
          shape := .read updates.array.id updates.newest? index.id
          width := updates.array.range
          multi := multi || index.multi } = some tag.id ∧
        tag.width = updates.array.range ∧ tag.multi = (multi || index.multi) := by
  obtain ⟨tag, middle, tagged, rest⟩ := bind_eq_ok.1 ran
  obtain ⟨rfl, rfl⟩ := pure_eq_ok.1 rest
  exact ⟨tag, rfl, tag_spec tagged⟩

theorem selectNode_spec
    {patches : Option (Int × Int)}
    {cond onTrue onFalse : Expr}
    {multi : Bool}
    (ran : selectNode patches cond onTrue onFalse multi table = .ok result later) :
    ∃ tag : Tag, result = .select tag patches cond onTrue onFalse ∧
      later.find? {
          shape := .select patches cond.id onTrue.id onFalse.id
          width := onTrue.width
          multi := multi || cond.multi || onTrue.multi || onFalse.multi } =
            some tag.id ∧
        tag.width = onTrue.width ∧
          tag.multi = (multi || cond.multi || onTrue.multi || onFalse.multi) := by
  obtain ⟨tag, middle, tagged, rest⟩ := bind_eq_ok.1 ran
  obtain ⟨rfl, rfl⟩ := pure_eq_ok.1 rest
  exact ⟨tag, rfl, tag_spec tagged⟩

theorem concatNode_spec
    {high low : Expr}
    {multi : Bool}
    (ran : concatNode high low multi table = .ok result later) :
    ∃ tag : Tag, result = .concat tag high low ∧
      later.find? {
          shape := .concat high.id low.id, width := high.width + low.width
          multi := multi || high.multi || low.multi } = some tag.id ∧
        tag.width = high.width + low.width ∧
          tag.multi = (multi || high.multi || low.multi) := by
  obtain ⟨tag, middle, tagged, rest⟩ := bind_eq_ok.1 ran
  obtain ⟨rfl, rfl⟩ := pure_eq_ok.1 rest
  exact ⟨tag, rfl, tag_spec tagged⟩

theorem extractNode_spec
    {source : Expr}
    {offset width : Int}
    {multi : Bool}
    (ran : extractNode source offset width multi table = .ok result later) :
    ∃ tag : Tag, result = .extract tag offset source ∧
      later.find? {
          shape := .extract (some offset) source.id, width
          multi := multi || source.multi } = some tag.id ∧
        tag.width = width ∧ tag.multi = (multi || source.multi) := by
  obtain ⟨tag, middle, tagged, rest⟩ := bind_eq_ok.1 ran
  obtain ⟨rfl, rfl⟩ := pure_eq_ok.1 rest
  exact ⟨tag, rfl, tag_spec tagged⟩

theorem zextNode_spec
    {source : Expr}
    {width : Int}
    {multi : Bool}
    (ran : zextNode source width multi table = .ok result later) :
    ∃ tag : Tag, result = .zext tag source ∧
      later.find? {
          shape := .zext source.id, width
          multi := multi || source.multi } = some tag.id ∧
        tag.width = width ∧ tag.multi = (multi || source.multi) := by
  obtain ⟨tag, middle, tagged, rest⟩ := bind_eq_ok.1 ran
  obtain ⟨rfl, rfl⟩ := pure_eq_ok.1 rest
  exact ⟨tag, rfl, tag_spec tagged⟩

theorem sextNode_spec
    {source : Expr}
    {width : Int}
    {multi : Bool}
    (ran : sextNode source width multi table = .ok result later) :
    ∃ tag : Tag, result = .sext tag source ∧
      later.find? {
          shape := .sext source.id, width
          multi := multi || source.multi } = some tag.id ∧
        tag.width = width ∧ tag.multi = (multi || source.multi) := by
  obtain ⟨tag, middle, tagged, rest⟩ := bind_eq_ok.1 ran
  obtain ⟨rfl, rfl⟩ := pure_eq_ok.1 rest
  exact ⟨tag, rfl, tag_spec tagged⟩

theorem notNode_spec
    {source : Expr}
    {multi : Bool}
    (ran : notNode source multi table = .ok result later) :
    ∃ tag : Tag, result = .not tag source ∧
      later.find? {
          shape := .not source.id, width := source.width
          multi := multi || source.multi } = some tag.id ∧
        tag.width = source.width ∧ tag.multi = (multi || source.multi) := by
  obtain ⟨tag, middle, tagged, rest⟩ := bind_eq_ok.1 ran
  obtain ⟨rfl, rfl⟩ := pure_eq_ok.1 rest
  exact ⟨tag, rfl, tag_spec tagged⟩

theorem binaryNode_spec
    {operator : BinaryOp}
    {left right : Expr}
    {multi : Bool}
    (ran : binaryNode operator left right multi table = .ok result later) :
    ∃ tag : Tag, result = .binary tag operator left right ∧
      later.find? {
          shape := .binary operator left.id right.id
          width := resultWidth operator left
          multi := multi || left.multi || right.multi } = some tag.id ∧
        tag.width = resultWidth operator left ∧
          tag.multi = (multi || left.multi || right.multi) := by
  obtain ⟨tag, middle, tagged, rest⟩ := bind_eq_ok.1 ran
  obtain ⟨rfl, rfl⟩ := pure_eq_ok.1 rest
  exact ⟨tag, rfl, tag_spec tagged⟩

end

/-! ## The constructors -/

theorem stable_constNode (word width : Int) : Stable (constNode word width) :=
  (stable_tag _ _ _).bind fun _ => Stable.pure _

theorem stable_constant (value width : Int) : Stable (constant value width) :=
  (Stable.ofExcept _).bind fun _ => stable_constNode _ _

theorem stable_notOptimized (source : Expr) (multi : Bool) :
    Stable (notOptimized source multi) :=
  (stable_tag _ _ _).bind fun _ => Stable.pure _

theorem stable_readNode (updates : Updates) (index : Expr) (multi : Bool) :
    Stable (readNode updates index multi) :=
  (stable_tag _ _ _).bind fun _ => Stable.pure _

/-- A read is stable, also where it goes back through the writes. -/
theorem stable_read (updates : Updates) (index : Expr) (multi : Bool) :
    Stable (read updates index multi) := by
  unfold read
  split
  · refine (Stable.ofExcept _).bind fun found => ?_
    cases found with
    | written value => exact Stable.pure value
    | stored value width => exact stable_constant value width
    | unknown => exact stable_readNode _ _ _
  · exact stable_readNode _ _ _

theorem stable_selectNode
    (patches : Option (Int × Int)) (cond onTrue onFalse : Expr) (multi : Bool) :
    Stable (selectNode patches cond onTrue onFalse multi) :=
  (stable_tag _ _ _).bind fun _ => Stable.pure _

theorem stable_select (cond onTrue onFalse : Expr) (multi : Bool) :
    Stable (select cond onTrue onFalse multi) := by
  unfold select
  refine (stable_selectNode _ _ _ _ _).ite ?_
  split
  · exact Stable.pure _
  · exact (Stable.pure _).ite (stable_selectNode _ _ _ _ _)

theorem stable_patchSelect
    (cond onTrue onFalse : Expr) (truePatch falsePatch : Option Int) :
    Stable (patchSelect cond onTrue onFalse truePatch falsePatch) := by
  unfold patchSelect
  split
  · exact stable_selectNode _ _ _ _ _
  · exact Stable.throw _

theorem stable_concatNode (high low : Expr) (multi : Bool) :
    Stable (concatNode high low multi) :=
  (stable_tag _ _ _).bind fun _ => Stable.pure _

theorem stable_concat (high low : Expr) (multi : Bool) :
    Stable (concat high low multi) := by
  unfold concat
  split
  · exact (Stable.ofExcept _).bind fun _ => stable_constant _ _
  · exact stable_concatNode _ _ _

theorem stable_extractNode (source : Expr) (offset width : Int) (multi : Bool) :
    Stable (extractNode source offset width multi) :=
  (stable_tag _ _ _).bind fun _ => Stable.pure _

theorem stable_extract (source : Expr) (offset width : Int) (multi : Bool) :
    Stable (extract source offset width multi) := by
  unfold extract
  refine (stable_extractNode _ _ _ _).ite ((Stable.pure _).ite ?_)
  split
  · exact (Stable.ofExcept _).bind fun _ => stable_constant _ _
  · exact stable_extractNode _ _ _ _

theorem stable_zextNode (source : Expr) (width : Int) (multi : Bool) :
    Stable (zextNode source width multi) :=
  (stable_tag _ _ _).bind fun _ => Stable.pure _

theorem stable_zext (source : Expr) (width : Int) (multi : Bool) :
    Stable (zext source width multi) := by
  unfold zext
  refine (stable_zextNode _ _ _).ite
    ((Stable.pure _).ite ((stable_extract _ _ _ _).ite ?_))
  split
  · exact (Stable.ofExcept _).bind fun _ => stable_constNode _ _
  · exact stable_zextNode _ _ _

theorem stable_sextNode (source : Expr) (width : Int) (multi : Bool) :
    Stable (sextNode source width multi) :=
  (stable_tag _ _ _).bind fun _ => Stable.pure _

theorem stable_sext (source : Expr) (width : Int) (multi : Bool) :
    Stable (sext source width multi) := by
  unfold sext
  refine (stable_sextNode _ _ _).ite
    ((Stable.pure _).ite ((stable_extract _ _ _ _).ite ?_))
  split
  · exact (Stable.ofExcept _).bind fun _ => stable_constant _ _
  · exact stable_sextNode _ _ _

theorem stable_notNode (source : Expr) (multi : Bool) :
    Stable (notNode source multi) :=
  (stable_tag _ _ _).bind fun _ => Stable.pure _

theorem stable_not (source : Expr) (multi : Bool) :
    Stable (Build.not source multi) := by
  unfold Build.not
  refine (stable_notNode _ _).ite ?_
  split
  · exact (Stable.ofExcept _).bind fun _ => stable_constant _ _
  · cases source.kids.head? with
    | none => exact Stable.throw _
    | some kid => exact Stable.pure kid
  · exact stable_notNode _ _

theorem stable_binaryNode
    (operator : BinaryOp) (left right : Expr) (multi : Bool) :
    Stable (binaryNode operator left right multi) :=
  (stable_tag _ _ _).bind fun _ => Stable.pure _

theorem stable_binaryOpen (operator : BinaryOp) (left right : Expr) :
    Stable (binaryOpen operator left right) := by
  unfold binaryOpen
  refine Stable.ite ?_ (stable_binaryNode _ _ _ _)
  split
  · exact Stable.pure _
  · exact stable_binaryNode _ _ _ _

/-- A binary operator is stable, whatever it finds to simplify. -/
theorem stable_binary (operator : BinaryOp) (left right : Expr) (multi : Bool) :
    Stable (binary operator left right multi) := by
  unfold binary
  refine (stable_binaryNode _ _ _ _).ite ?_
  split
  · refine (Stable.ofExcept _).bind fun outcome => ?_
    cases outcome with
    | some result => exact stable_constant _ _
    | none => exact stable_binaryOpen _ _ _
  · exact stable_binaryOpen _ _ _

end Build

end Diverge

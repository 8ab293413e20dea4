import Mathlib.Data.List.Forall2
import Mathlib.Data.Option.Basic
import Mathlib.Tactic.NormNum
import Diverge.Proofs.Expr.Reads
import Diverge.Proofs.Expr.Texts
import Diverge.Proofs.Text

/-!
# A text tells its expression

The text of an expression ends where it says, whatever is written after it: a label or a number
goes up to the next blank, a name up to the next parenthesis, and an operand is such a text
again.  So two expressions of one text are the same tree, in all but the identities of nodes and
writes (`Workshop.render_eq_iff_bare_eq`), as long as the names of arrays have none of the
characters that stand between the parts, and nothing is multi, which the text does not show.

`Tells` is the statement about two pieces of text that goes through all this.  Pieces are put
together with `Tells.append`, and the rest is one step for a node and one for a write.
-/

namespace Diverge

/-! ## Trees without identities -/

/-- Forget the identity. -/
def Tag.bare (tag : Tag) : Tag :=
  { tag with id := 0 }

mutual

/-- Forget the identities of all nodes, and of the writes below them. -/
def Expr.bare : Expr → Expr
  | .const tag value => .const tag.bare value
  | .notOptimized tag source => .notOptimized tag.bare source.bare
  | .read tag updates index => .read tag.bare updates.bare index.bare
  | .select tag patches cond onTrue onFalse =>
      .select tag.bare patches cond.bare onTrue.bare onFalse.bare
  | .concat tag high low => .concat tag.bare high.bare low.bare
  | .extract tag offset source => .extract tag.bare offset source.bare
  | .zext tag source => .zext tag.bare source.bare
  | .sext tag source => .sext tag.bare source.bare
  | .not tag source => .not tag.bare source.bare
  | .binary tag operator left right => .binary tag.bare operator left.bare right.bare
  | .loose tag kind value kids => .loose tag.bare kind value (bareEach kids)

def Updates.bare : Updates → Updates
  | .root array => .root array
  | .write _ index value older => .write 0 index.bare value.bare older.bare

def bareEach : List Expr → List Expr
  | [] => []
  | expression :: rest => expression.bare :: bareEach rest

end

theorem Updates.array_bare
    (updates : Updates) :
    updates.bare.array = updates.array := by
  cases updates with
  | root array => rfl
  | write id index value older => exact older.array_bare

mutual

/-- A text does not show identities. -/
theorem Expr.render_bare :
    (expression : Expr) → expression.bare.render = expression.render
  | .const _ _ => rfl
  | .notOptimized _ source | .zext _ source | .sext _ source | .not _ source
  | .extract _ _ source => by
      simp only [Expr.bare, Expr.render, source.render_bare]
      rfl
  | .read _ updates index => by
      simp only [Expr.bare, Expr.render, index.render_bare, renderWrites_bare updates,
        updates.array_bare]
      rfl
  | .select _ _ cond onTrue onFalse => by
      simp only [Expr.bare, Expr.render, cond.render_bare, onTrue.render_bare,
        onFalse.render_bare]
      rfl
  | .concat _ left right | .binary _ _ left right => by
      simp only [Expr.bare, Expr.render, left.render_bare, right.render_bare]
      rfl
  | .loose _ _ _ kids => by
      simp only [Expr.bare, Expr.render, renderEach_bare kids]
      rfl

theorem renderWrites_bare
    (updates : Updates) :
    renderWrites updates.bare = renderWrites updates := by
  cases updates with
  | root array => rfl
  | write id index value older =>
      simp only [Updates.bare, renderWrites, index.render_bare, value.render_bare,
        renderWrites_bare older]

/-- The text of an expression does not depend on identities and marks. -/
theorem renderEach_bare :
    (expressions : List Expr) → renderEach (bareEach expressions) = renderEach expressions
  | [] => rfl
  | expression :: rest => by
      simp only [bareEach, renderEach, expression.render_bare, renderEach_bare rest]

end

/-- Trees that agree in a node, in its operands and in its history agree. -/
theorem Expr.bare_eq
    {first second : Expr}
    (measured : first.Measured)
    (measuredToo : second.Measured)
    (notConstant : first.isConstant = false)
    (kind : first.kind? = second.kind?)
    (width : first.width = second.width)
    (multi : first.multi = second.multi)
    (offset : first.offset? = second.offset?)
    (patches : first.patches? = second.patches?)
    (kids : first.kids.map Expr.bare = second.kids.map Expr.bare)
    (updates : first.updates?.map Updates.bare = second.updates?.map Updates.bare) :
    first.bare = second.bare := by
  have tags : first.tag.bare = second.tag.bare := by
    simp only [Tag.bare, Tag.mk.injEq, true_and]
    exact ⟨width, multi⟩
  -- Nodes of different kinds are ruled out by `kind`, and those put together by hand are not
  -- measured.
  cases first <;> cases second <;> cases kind <;>
    simp_all [Expr.tag, Expr.kids, Expr.offset?, Expr.patches?, Expr.updates?, Expr.bare,
      Expr.Measured, Expr.isConstant, Expr.kind?]

/-! ## Texts that tell where they end -/

/--
If two texts are the same after something was written behind each, then what was written is the
same, and so are the things for which the texts stand.
-/
def Tells (first second : List Char) (same : Prop) : Prop :=
  ∀ left right, first ++ left = second ++ right → same ∧ left = right

namespace Tells

variable {first second more others : List Char} {same also : Prop}

theorem symm
    (tells : Tells first second same) :
    Tells second first same := by
  intro left right equal
  obtain ⟨holds, rest⟩ := tells right left equal.symm
  exact ⟨holds, rest.symm⟩

theorem mono
    (tells : Tells first second same)
    (implies : same → also) :
    Tells first second also :=
  fun left right equal => (tells left right equal).imp_left implies

/-- What a piece of text tells can be used for the next piece. -/
theorem append
    (tells : Tells first second same)
    (tellsMore : same → Tells more others also) :
    Tells (first ++ more) (second ++ others) also := by
  intro left right equal
  rw [List.append_assoc, List.append_assoc] at equal
  obtain ⟨holds, rest⟩ := tells _ _ equal
  exact tellsMore holds left right rest

/-- What is written before both texts alike does not matter. -/
theorem append_left
    (text : List Char)
    (tells : Tells first second same) :
    Tells (text ++ first) (text ++ second) same := by
  intro left right equal
  rw [List.append_assoc, List.append_assoc] at equal
  exact tells left right (List.append_cancel_left equal)

/-- The other way round: what both texts start with may be taken away. -/
theorem of_append_left
    {text : List Char}
    (tells : Tells (text ++ first) (text ++ second) same) :
    Tells first second same := by
  intro left right equal
  refine tells left right ?_
  rw [List.append_assoc, List.append_assoc, equal]

theorem refl
    (text : List Char)
    (holds : same) :
    Tells text text same :=
  fun _ _ equal => ⟨holds, List.append_cancel_left equal⟩

/-- Texts that start differently are told apart at once. -/
theorem of_ne
    {char other : Char}
    (different : char ≠ other) :
    Tells (char :: first) (other :: second) same :=
  fun _ _ equal => absurd (List.cons.inj equal).1 different

/-- A word goes up to the separator that it does not have. -/
theorem word
    {separator : Char}
    (without : separator ∉ first)
    (withoutToo : separator ∉ second) :
    Tells (first ++ [separator]) (second ++ [separator]) (first = second) := by
  intro left right equal
  simp only [List.append_assoc, List.singleton_append] at equal
  induction first generalizing second with
  | nil =>
      cases second with
      | nil => exact ⟨rfl, (List.cons.inj equal).2⟩
      | cons char rest =>
          exact absurd ((List.cons.inj equal).1 ▸ List.mem_cons_self) withoutToo
  | cons char rest inductionHypothesis =>
      cases second with
      | nil => exact absurd ((List.cons.inj equal).1 ▸ List.mem_cons_self) without
      | cons other others =>
          obtain ⟨sameChar, sameRest⟩ := List.cons.inj equal
          obtain ⟨sameWord, sameLeft⟩ := inductionHypothesis
            (List.not_mem_of_not_mem_cons without) (List.not_mem_of_not_mem_cons withoutToo)
            sameRest
          exact ⟨by rw [sameChar, sameWord], sameLeft⟩

end Tells

/-! ## Words of a text -/

/-- An integer ends at the first character that is neither a digit nor its sign. -/
theorem Tells.integer
    {separator : Char}
    (noDigit : separator.isDigit = false)
    (noSign : separator ≠ '-')
    (first second : Int) :
    Tells ((toString first).toList ++ [separator]) ((toString second).toList ++ [separator])
      (first = second) := by
  refine (word (Integer.notMem_toString noDigit noSign first)
    (Integer.notMem_toString noDigit noSign second)).mono fun same => ?_
  exact Integer.toString_inj (String.toList_inj.1 same)

/-- Labels are different words. -/
theorem Kind.find?_label
    (kind : Kind) :
    Kind.all.find? (·.label == kind.label) = some kind := by
  cases kind with
  | binary operator => cases operator <;> decide
  | _ => decide

theorem Kind.label_inj
    {first second : Kind}
    (same : first.label = second.label) :
    first = second :=
  Option.some.inj (by rw [← first.find?_label, ← second.find?_label, same])

/-- A label has no blank, and does not begin as a width does. -/
theorem Kind.label_legible
    (kind : Kind) :
    ' ' ∉ kind.label.toList ∧ kind.label.toList.head? ≠ some 'w' := by
  cases kind with
  | binary operator => cases operator <;> decide
  | _ => decide

/-- A label ends at the blank behind it. -/
theorem Tells.label
    (first second : Kind) :
    Tells (first.label.toList ++ [' ']) (second.label.toList ++ [' ']) (first = second) :=
  (word first.label_legible.1 second.label_legible.1).mono fun same =>
    Kind.label_inj (String.toList_inj.1 same)

/-! ## Constants -/

/-- If an integer has a text, this is its decimal text. -/
theorem eq_toString_of_renderInteger
    {value : Int}
    {text : String}
    (written : renderInteger value = .ok text) :
    text = toString value := by
  unfold renderInteger at written
  cases isText : Integer.text? value with
  | none =>
      rw [isText] at written
      cases written
  | some digits =>
      rw [isText] at written
      cases written
      exact (Integer.text?_eq_some_iff.1 isText).2

/-- A bit is a word of letters; any other constant is its width and its value. -/
theorem toList_renderConstant
    {width value : Int}
    {text : String}
    (written : renderConstant width (some value) = .ok text) :
    (width = 1 ∧ text = if value = 0 then "false" else "true") ∨
      (width ≠ 1 ∧ text.toList = ['('] ++ ((('w' :: (toString width).toList) ++ [' ']) ++
        ((toString value).toList ++ [')']))) := by
  unfold renderConstant at written
  split at written
  · rename_i bit
    exact .inl ⟨bit, (Except.ok.inj written).symm⟩
  · rename_i noBit
    obtain ⟨size, isSize, rest⟩ := Stateful.except_bind_eq_ok.1 written
    obtain ⟨word, isWord, ended⟩ := Stateful.except_bind_eq_ok.1 rest
    obtain rfl := eq_toString_of_renderInteger isSize
    obtain rfl := eq_toString_of_renderInteger isWord
    obtain rfl := Except.ok.inj ended
    exact .inr ⟨noBit, by simp⟩

/-- A bit is not taken for something in parentheses. -/
theorem Tells.bit_parenthesis
    (value : Int)
    {more : List Char}
    {same : Prop} :
    Tells (if value = 0 then "false" else "true").toList (['('] ++ more) same := by
  split
  · exact .of_ne (by decide)
  · exact .of_ne (by decide)

/-- Constants are told by width and value, and single bits by their word. -/
theorem Tells.constants
    {tag other : Tag}
    {value number : Int}
    {first second : String}
    (measured : (Expr.const tag value).Measured)
    (measuredToo : (Expr.const other number).Measured)
    (marks : tag.multi = other.multi)
    (written : (Expr.const tag value).render = .ok first)
    (writtenToo : (Expr.const other number).render = .ok second) :
    Tells first.toList second.toList
      ((Expr.const tag value).bare = (Expr.const other number).bare) := by
  have bare (widths : tag.width = other.width) (values : value = number) :
      (Expr.const tag value).bare = (Expr.const other number).bare := by
    simp only [Expr.bare, Tag.bare, widths, marks, values]
  rcases toList_renderConstant written with ⟨bit, rfl⟩ | ⟨noBit, shown⟩ <;>
    rcases toList_renderConstant writtenToo with ⟨bitToo, rfl⟩ | ⟨noBitToo, shownToo⟩
  · obtain ⟨-, low, high⟩ := measured
    obtain ⟨-, lowToo, highToo⟩ := measuredToo
    rw [bit] at high
    rw [bitToo] at highToo
    have values : value = number ∨ (value = 0 ∧ number = 1) ∨ value = 1 ∧ number = 0 := by
      norm_num at high highToo
      omega
    rcases values with rfl | ⟨rfl, rfl⟩ | ⟨rfl, rfl⟩
    · exact .refl _ (bare (bit.trans bitToo.symm) rfl)
    · exact .of_ne (by decide)
    · exact .of_ne (by decide)
  · rw [shownToo]
    exact .bit_parenthesis value
  · rw [shown]
    exact (Tells.bit_parenthesis number).symm
  · rw [shown, shownToo]
    refine .append_left _ (.append (.append_left ['w'] (.integer rfl (by decide) _ _)) ?_)
    intro widths
    exact (Tells.integer rfl (by decide) _ _).mono (bare widths)

/-! ## Nodes with operands -/

/-- The text of a history, put together from the texts of its writes. -/
def Updates.WrittenAs (updates : Updates) (text : String) : Prop :=
  ∃ writes, renderWrites updates = .ok writes ∧ text = renderHistory updates.array writes

/-- The text of a node that has operands. -/
def layout (kind : Kind) (width : Int) (offset : Option Int) (operands : List String)
    (history : Option String) : List Char :=
  ['('] ++ ((kind.label.toList ++ [' ']) ++ (['w'] ++ (((toString width).toList ++ [' ']) ++
    (offset.elim [] (fun offset => (toString offset).toList ++ [' ']) ++
      ([' '].intercalate (operands.map String.toList) ++
        (history.elim [] (' ' :: ·.toList) ++ [')']))))))

theorem toList_nodeText
    (label : String)
    (width : Int)
    (operands : List String) :
    (nodeText label (toString width) operands).toList =
      ['('] ++ ((label.toList ++ [' ']) ++ (['w'] ++ (((toString width).toList ++ [' ']) ++
        ([' '].intercalate (operands.map String.toList) ++ [')'])))) := by
  simp [nodeText, String.toList_intercalate]

/-- The text of a node, cut into the pieces that are told one after the other. -/
theorem toList_renderNode
    {label : String}
    {width : Int}
    {operands : List String}
    {text : String}
    (written : renderNode label width operands = .ok text) :
    text.toList =
      ['('] ++ ((label.toList ++ [' ']) ++ (['w'] ++ (((toString width).toList ++ [' ']) ++
        ([' '].intercalate (operands.map String.toList) ++ [')'])))) := by
  obtain ⟨size, isSize, ended⟩ := Stateful.except_bind_eq_ok.1 written
  obtain rfl := eq_toString_of_renderInteger isSize
  obtain rfl := Except.ok.inj ended
  exact toList_nodeText ..

/-- The text of a node with operands is laid out from the texts of its parts. -/
theorem Expr.toList_render
    {node : Expr}
    {text : String}
    (measured : node.Measured)
    (notConstant : node.isConstant = false)
    (written : node.render = .ok text) :
    ∃ kind operands history, node.kind? = some kind ∧
      List.Forall₂ (fun kid text => kid.render = .ok text) node.kids operands ∧
        Option.Rel Updates.WrittenAs node.updates? history ∧
          text.toList = layout kind node.width node.offset? operands history := by
  cases node with
  | const tag value => cases notConstant
  | loose tag kind value kids => exact measured.elim
  | notOptimized tag source | zext tag source | sext tag source | not tag source =>
      obtain ⟨inner, isInner, ended⟩ := Stateful.except_bind_eq_ok.1 written
      exact ⟨_, [inner], none, rfl, .cons isInner .nil, .none, toList_renderNode ended⟩
  | concat tag left right | binary tag _ left right =>
      obtain ⟨first, isFirst, rest⟩ := Stateful.except_bind_eq_ok.1 written
      obtain ⟨second, isSecond, ended⟩ := Stateful.except_bind_eq_ok.1 rest
      exact ⟨_, [first, second], none, rfl, .cons isFirst (.cons isSecond .nil), .none,
        toList_renderNode ended⟩
  | select tag patches cond onTrue onFalse =>
      obtain ⟨guard, isGuard, rest⟩ := Stateful.except_bind_eq_ok.1 written
      obtain ⟨first, isFirst, rest⟩ := Stateful.except_bind_eq_ok.1 rest
      obtain ⟨second, isSecond, ended⟩ := Stateful.except_bind_eq_ok.1 rest
      exact ⟨.select, [guard, first, second], none, rfl,
        .cons isGuard (.cons isFirst (.cons isSecond .nil)), .none, toList_renderNode ended⟩
  | extract tag offset source =>
      obtain ⟨size, isSize, rest⟩ := Stateful.except_bind_eq_ok.1 written
      obtain ⟨place, isPlace, rest⟩ := Stateful.except_bind_eq_ok.1 rest
      obtain ⟨inner, isInner, ended⟩ := Stateful.except_bind_eq_ok.1 rest
      obtain rfl := eq_toString_of_renderInteger isSize
      obtain rfl := eq_toString_of_renderInteger isPlace
      obtain rfl := Except.ok.inj ended
      refine ⟨.extract, [inner], none, rfl, .cons isInner .nil, .none, ?_⟩
      rw [toList_nodeText]
      simp [layout, Kind.label, Expr.offset?, Expr.width, Expr.tag]
  | read tag updates index =>
      obtain ⟨size, isSize, rest⟩ := Stateful.except_bind_eq_ok.1 written
      obtain ⟨position, isPosition, rest⟩ := Stateful.except_bind_eq_ok.1 rest
      obtain ⟨writes, areWrites, ended⟩ := Stateful.except_bind_eq_ok.1 rest
      obtain rfl := eq_toString_of_renderInteger isSize
      obtain rfl := Except.ok.inj ended
      refine ⟨.read, [position], some (renderHistory updates.array writes), rfl,
        .cons isPosition .nil, .some ⟨writes, areWrites, rfl⟩, ?_⟩
      rw [toList_nodeText]
      simp [layout, Kind.label, Expr.offset?, Expr.width, Expr.tag]

/-- Nodes of one kind have the same parts. -/
theorem Expr.parts_of_kind
    {first second : Expr}
    (measured : first.Measured)
    (measuredToo : second.Measured)
    (kind : first.kind? = second.kind?) :
    first.kids.length = second.kids.length ∧
      first.offset?.isSome = second.offset?.isSome ∧
        first.updates?.isSome = second.updates?.isSome := by
  cases first <;> cases second <;> cases kind <;>
    first | exact ⟨rfl, rfl, rfl⟩ | exact measured.elim | exact measuredToo.elim

/-! ## One step for a node, and one for a write -/

/-- A name that is not empty and has none of the characters which separate parts of a text. -/
def IsLegible (name : String) : Prop :=
  name ≠ "" ∧ ∀ char ∈ name.toList, char ∉ [' ', ',', '=', '(', ')', '[', ']', '@']

/-- Arrays that a text can name: no two have one name, and all names are legible. -/
structure AreNamed (arrays : List ArrayDecl) : Prop where
  distinct : ∀ array ∈ arrays, ∀ other ∈ arrays, array.name = other.name → array = other
  legible : ∀ array ∈ arrays, IsLegible array.name

/-- A read is from one of the arrays. -/
def Expr.ReadsFrom (arrays : List ArrayDecl) (node : Expr) : Prop :=
  ∀ updates ∈ node.updates?, updates.array ∈ arrays

/-- A node of which a text shows all but the identity. -/
structure Expr.Shown (arrays : List ArrayDecl) (node : Expr) : Prop where
  proper : node.Proper
  single : node.multi = false
  readsFrom : node.ReadsFrom arrays

/-- The text of the expression tells it from all others. -/
def Expr.Told (arrays : List ArrayDecl) (first : Expr) : Prop :=
  ∀ ⦃second : Expr⦄ ⦃firstText secondText : String⦄,
    first.Throughout (Expr.Shown arrays) → second.Throughout (Expr.Shown arrays) →
      first.render = .ok firstText → second.render = .ok secondText →
        Tells firstText.toList secondText.toList (first.bare = second.bare)

/-- Texts of writes, each behind a comma, and the bracket that closes them. -/
def listed (writes : List String) : List Char :=
  writes.flatMap ([',', ' '] ++ ·.toList) ++ [']']

theorem listed_cons
    (write : String)
    (rest : List String) :
    listed (write :: rest) = [',', ' '] ++ (write.toList ++ listed rest) := by
  simp [listed]

/-- The texts of the writes of a history tell them from all others. -/
def Updates.Told (arrays : List ArrayDecl) (first : Updates) : Prop :=
  ∀ ⦃second : Updates⦄ ⦃firstTexts secondTexts : List String⦄,
    first.Throughout (Expr.Shown arrays) → second.Throughout (Expr.Shown arrays) →
      renderWrites first = .ok firstTexts → renderWrites second = .ok secondTexts →
        Tells (listed firstTexts) (listed secondTexts)
          (first.array = second.array → first.bare = second.bare)

section

variable {arrays : List ArrayDecl}

/--
The text of a write is its index, an equals sign and its value, before the texts of the older
writes.
-/
theorem renderWrites_write
    {id : Nat}
    {index value : Expr}
    {older : Updates}
    {texts : List String}
    (written : renderWrites (.write id index value older) = .ok texts) :
    ∃ position content rest, index.render = .ok position ∧ value.render = .ok content ∧
      renderWrites older = .ok rest ∧ listed texts =
        [',', ' '] ++ (position.toList ++ (['='] ++ (content.toList ++ listed rest))) := by
  obtain ⟨position, isPosition, left⟩ := Stateful.except_bind_eq_ok.1 written
  obtain ⟨content, isContent, left⟩ := Stateful.except_bind_eq_ok.1 left
  obtain ⟨rest, areRest, ended⟩ := Stateful.except_bind_eq_ok.1 left
  obtain rfl := Except.ok.inj ended
  exact ⟨position, content, rest, isPosition, isContent, areRest, by simp [listed_cons]⟩

/-- An unwritten array lists no write, so a write cannot be taken for the end of the list. -/
theorem Updates.Told.root
    (array : ArrayDecl) :
    (Updates.root array).Told arrays := by
  intro second _ _ _ _ written writtenToo
  obtain rfl := Except.ok.inj written
  cases second with
  | root other =>
      obtain rfl := Except.ok.inj writtenToo
      exact .refl _ fun same => congrArg Updates.root same
  | write id index value older =>
      obtain ⟨_, _, _, _, _, _, text⟩ := renderWrites_write writtenToo
      rw [text]
      exact .of_ne (by decide)

/-- A write is told by index and value, and what is older by what follows. -/
theorem Updates.Told.write
    {id : Nat}
    {index value : Expr}
    {older : Updates}
    (toldIndex : index.Told arrays)
    (toldValue : value.Told arrays)
    (toldOlder : older.Told arrays) :
    (Updates.write id index value older).Told arrays := by
  intro second _ _ shown shownToo written writtenToo
  obtain ⟨shownIndex, shownValue, shownOlder⟩ := (Updates.throughout_write ..).1 shown
  obtain ⟨position, content, rest, isPosition, isContent, areRest, text⟩ :=
    renderWrites_write written
  cases second with
  | root array =>
      obtain rfl := Except.ok.inj writtenToo
      rw [text]
      exact .of_ne (by decide)
  | write otherId otherIndex otherValue otherOlder =>
      obtain ⟨shownIndexToo, shownValueToo, shownOlderToo⟩ :=
        (Updates.throughout_write ..).1 shownToo
      obtain ⟨_, _, _, isPositionToo, isContentToo, areRestToo, textToo⟩ :=
        renderWrites_write writtenToo
      rw [text, textToo]
      refine .append_left _ (.append
        (toldIndex shownIndex shownIndexToo isPosition isPositionToo) fun indices => ?_)
      refine .append_left _ (.append
        (toldValue shownValue shownValueToo isContent isContentToo) fun values => ?_)
      refine (toldOlder shownOlder shownOlderToo areRest areRestToo).mono ?_
      intro histories arrays
      simp only [Updates.bare, indices, values, histories arrays]

/-- A history with writes stands in brackets, with the name of its array behind them. -/
theorem toList_renderHistory_cons
    (array : ArrayDecl)
    (write : String)
    (rest : List String) :
    (renderHistory array (write :: rest)).toList ++ [')'] =
      ['['] ++ ((write.toList ++ listed rest) ++
        ([' ', '@', ' '] ++ (array.name.toList ++ [')']))) := by
  simp [renderHistory, listed, String.toList_intercalate, intercalate_cons, List.flatMap_map]

/-- A name is not taken for the writes of a history. -/
theorem Tells.name_bracket
    {name : String}
    (legible : IsLegible name)
    {more others : List Char}
    {same : Prop} :
    Tells (name.toList ++ more) (['['] ++ others) same := by
  obtain ⟨notEmpty, without⟩ := legible
  cases chars : name.toList with
  | nil => exact absurd (String.toList_eq_nil_iff.1 chars) notEmpty
  | cons char rest =>
      refine .of_ne ?_
      rintro rfl
      exact without '[' (by simp [chars]) (by decide)

/-- Behind its writes a history has its array, by name. -/
theorem Updates.Told.history
    (named : AreNamed arrays)
    {first second : Updates}
    {firstText secondText : String}
    (told : first.Told arrays)
    (member : first.array ∈ arrays)
    (memberToo : second.array ∈ arrays)
    (shown : first.Throughout (Expr.Shown arrays))
    (shownToo : second.Throughout (Expr.Shown arrays))
    (written : first.WrittenAs firstText)
    (writtenToo : second.WrittenAs secondText) :
    Tells (firstText.toList ++ [')']) (secondText.toList ++ [')'])
      (first.bare = second.bare) := by
  obtain ⟨writes, areWrites, rfl⟩ := written
  obtain ⟨others, areOthers, rfl⟩ := writtenToo
  have tells := told shown shownToo areWrites areOthers
  have name : Tells (first.array.name.toList ++ [')']) (second.array.name.toList ++ [')'])
      (first.array = second.array) :=
    (Tells.word (fun inside => (named.legible _ member).2 _ inside (by decide))
      (fun inside => (named.legible _ memberToo).2 _ inside (by decide))).mono fun same =>
        named.distinct _ member _ memberToo (String.toList_inj.1 same)
  cases writes with
  | nil =>
      cases others with
      | nil => exact name.mono (tells [] [] rfl).1
      | cons other others =>
          rw [toList_renderHistory_cons]
          exact .name_bracket (named.legible _ member)
  | cons write writes =>
      cases others with
      | nil =>
          rw [toList_renderHistory_cons]
          exact (Tells.name_bracket (named.legible _ memberToo)).symm
      | cons other others =>
          rw [listed_cons, listed_cons] at tells
          rw [toList_renderHistory_cons, toList_renderHistory_cons]
          refine .append_left _ (.append tells.of_append_left fun histories => ?_)
          exact .append_left _ (name.mono histories)

/-- As many operands on both sides, each behind a blank, are told one by one. -/
theorem Tells.operands
    {first second : List Expr}
    {firstTexts secondTexts : List String}
    (told : ∀ kid ∈ first, kid.Told arrays)
    (shown : ∀ kid ∈ first, kid.Throughout (Expr.Shown arrays))
    (shownToo : ∀ kid ∈ second, kid.Throughout (Expr.Shown arrays))
    (written : List.Forall₂ (fun kid text => kid.render = .ok text) first firstTexts)
    (writtenToo : List.Forall₂ (fun kid text => kid.render = .ok text) second secondTexts)
    (sameLength : first.length = second.length) :
    Tells (firstTexts.flatMap ([' '] ++ ·.toList)) (secondTexts.flatMap ([' '] ++ ·.toList))
      (first.map Expr.bare = second.map Expr.bare) := by
  induction written generalizing second secondTexts with
  | nil =>
      obtain rfl := List.length_eq_zero_iff.1 sameLength.symm
      obtain rfl := List.forall₂_nil_left_iff.1 writtenToo
      exact .refl _ rfl
  | cons isText rest inductionHypothesis =>
      cases writtenToo with
      | nil => cases sameLength
      | cons isTextToo restToo =>
          rw [List.forall_mem_cons] at told shown shownToo
          rw [List.flatMap_cons, List.flatMap_cons, List.append_assoc, List.append_assoc]
          refine .append_left _ (.append
            (told.1 shown.1 shownToo.1 isText isTextToo) fun bare => ?_)
          refine (inductionHypothesis told.2 shown.2 shownToo.2 restToo
            (Nat.succ.inj sameLength)).mono fun bares => ?_
          rw [List.map_cons, List.map_cons, bare, bares]

/--
Equally many operands are told apart with blanks between them if they are with a blank before
each.
-/
theorem Tells.intercalate
    {first second : List String}
    {same : Prop}
    (sameLength : first.length = second.length)
    (tells : Tells (first.flatMap ([' '] ++ ·.toList)) (second.flatMap ([' '] ++ ·.toList)) same) :
    Tells ([' '].intercalate (first.map String.toList))
      ([' '].intercalate (second.map String.toList)) same := by
  cases first with
  | nil =>
      obtain rfl := List.length_eq_zero_iff.1 sameLength.symm
      exact tells
  | cons text rest =>
      cases second with
      | nil => cases sameLength
      | cons other others =>
          rw [List.flatMap_cons, List.flatMap_cons, List.append_assoc, List.append_assoc] at tells
          simpa only [List.map_cons, intercalate_cons, List.flatMap_map] using
            tells.of_append_left

/-- A constant is not taken for a node with operands. -/
theorem Tells.constant_layout
    {width value nodeWidth : Int}
    {text : String}
    {kind : Kind}
    {offset : Option Int}
    {operands : List String}
    {history : Option String}
    {same : Prop}
    (written : renderConstant width (some value) = .ok text) :
    Tells text.toList (layout kind nodeWidth offset operands history) same := by
  rcases toList_renderConstant written with ⟨_, rfl⟩ | ⟨_, shown⟩
  · exact .bit_parenthesis value
  · rw [shown]
    refine .append_left _ (.append (.word ?_ kind.label_legible.1) fun label => ?_)
    · rw [List.mem_cons, not_or]
      exact ⟨by decide, Integer.notMem_toString rfl (by decide) width⟩
    · refine absurd ?_ kind.label_legible.2
      rw [← label, List.head?_cons]

theorem Tells.offset
    {first second : Option Int}
    (both : first.isSome = second.isSome) :
    Tells (first.elim [] fun offset => (toString offset).toList ++ [' '])
      (second.elim [] fun offset => (toString offset).toList ++ [' ']) (first = second) := by
  cases first with
  | none =>
      cases second with
      | none => exact .refl _ rfl
      | some _ => cases both
  | some offset =>
      cases second with
      | none => cases both
      | some other => exact (Tells.integer rfl (by decide) offset other).mono (congrArg some)

/-- Histories are told by their writes and by the name of their array, which no other array has. -/
theorem Tells.histories
    (named : AreNamed arrays)
    {first second : Option Updates}
    {firstText secondText : Option String}
    (told : ∀ updates ∈ first, updates.Told arrays)
    (shown : ∀ updates ∈ first,
      updates.array ∈ arrays ∧ updates.Throughout (Expr.Shown arrays))
    (shownToo : ∀ updates ∈ second,
      updates.array ∈ arrays ∧ updates.Throughout (Expr.Shown arrays))
    (written : Option.Rel Updates.WrittenAs first firstText)
    (writtenToo : Option.Rel Updates.WrittenAs second secondText)
    (both : first.isSome = second.isSome) :
    Tells (firstText.elim [] (' ' :: ·.toList) ++ [')'])
      (secondText.elim [] (' ' :: ·.toList) ++ [')'])
      (first.map Updates.bare = second.map Updates.bare) := by
  cases written with
  | none =>
      cases writtenToo with
      | none => exact .refl _ rfl
      | some _ => cases both
  | some isText =>
      cases writtenToo with
      | none => cases both
      | some isTextToo =>
          obtain ⟨member, shown⟩ := shown _ rfl
          obtain ⟨memberToo, shownToo⟩ := shownToo _ rfl
          exact (Tells.append_left [' '] ((told _ rfl).history named member memberToo shown
            shownToo isText isTextToo)).mono (congrArg some)

theorem Expr.Shown.history
    {node : Expr}
    (shown : node.Throughout (Expr.Shown arrays)) :
    ∀ updates ∈ node.updates?,
      updates.array ∈ arrays ∧ updates.Throughout (Expr.Shown arrays) :=
  fun updates member => ⟨shown.self.readsFrom updates member, shown.history member⟩

/-- A text does not show revisions, but where nothing is multi there are none. -/
theorem Expr.Shown.patches?
    {node : Expr}
    (shown : node.Shown arrays) :
    node.patches? = none := by
  rw [← Option.not_isSome_iff_eq_none]
  intro revised
  exact absurd (shown.proper.revised revised) (by simp [shown.single])

/-- Nodes with operands are told if the operands and the history of one of them are. -/
theorem Tells.nodes
    (named : AreNamed arrays)
    {first second : Expr}
    {firstText secondText : String}
    (toldKids : ∀ kid ∈ first.kids, kid.Told arrays)
    (toldHistory : ∀ updates ∈ first.updates?, updates.Told arrays)
    (shown : first.Throughout (Expr.Shown arrays))
    (shownToo : second.Throughout (Expr.Shown arrays))
    (notConstant : first.isConstant = false)
    (notConstantToo : second.isConstant = false)
    (written : first.render = .ok firstText)
    (writtenToo : second.render = .ok secondText) :
    Tells firstText.toList secondText.toList (first.bare = second.bare) := by
  have measured := shown.self.proper.measured
  have measuredToo := shownToo.self.proper.measured
  obtain ⟨kind, operands, history, isKind, areOperands, isHistory, text⟩ :=
    Expr.toList_render measured notConstant written
  obtain ⟨other, others, historyToo, isOther, areOthers, isHistoryToo, textToo⟩ :=
    Expr.toList_render measuredToo notConstantToo writtenToo
  rw [text, textToo]
  refine .append_left _ (.append (.label kind other) fun kinds => ?_)
  have sameKind : first.kind? = second.kind? := by rw [isKind, isOther, kinds]
  obtain ⟨sameLength, sameOffset, sameHistory⟩ :=
    Expr.parts_of_kind measured measuredToo sameKind
  refine .append_left _ (.append (.integer rfl (by decide) _ _) fun widths => ?_)
  refine .append (.offset sameOffset) fun offsets => ?_
  refine .append (.intercalate ?_ (.operands toldKids (fun _ => shown.kid) (fun _ => shownToo.kid)
    areOperands areOthers sameLength)) fun kids => ?_
  · rw [← areOperands.length_eq, ← areOthers.length_eq, sameLength]
  · refine (Tells.histories named toldHistory (Expr.Shown.history shown)
      (Expr.Shown.history shownToo) isHistory isHistoryToo sameHistory).mono fun histories => ?_
    exact Expr.bare_eq measured measuredToo notConstant sameKind widths
      (shown.self.single.trans shownToo.self.single.symm) offsets
      (shown.self.patches?.trans shownToo.self.patches?.symm) kids histories

/-- An expression is told if its operands and its history are. -/
theorem Expr.Told.of_parts
    (named : AreNamed arrays)
    {first : Expr}
    (toldKids : ∀ kid ∈ first.kids, kid.Told arrays)
    (toldHistory : ∀ updates ∈ first.updates?, updates.Told arrays) :
    first.Told arrays := by
  intro second firstText secondText shown shownToo written writtenToo
  have measured := shown.self.proper.measured
  have measuredToo := shownToo.self.proper.measured
  cases constant : first.isConstant with
  | true =>
      obtain ⟨tag, value, rfl⟩ := Expr.eq_const_of_isConstant measured constant
      cases constantToo : second.isConstant with
      | true =>
          obtain ⟨other, number, rfl⟩ := Expr.eq_const_of_isConstant measuredToo constantToo
          exact .constants measured measuredToo
            (shown.self.single.trans shownToo.self.single.symm) written writtenToo
      | false =>
          obtain ⟨_, _, _, _, _, _, text⟩ :=
            Expr.toList_render measuredToo constantToo writtenToo
          rw [text]
          exact .constant_layout written
  | false =>
      cases constantToo : second.isConstant with
      | true =>
          obtain ⟨other, number, rfl⟩ := Expr.eq_const_of_isConstant measuredToo constantToo
          obtain ⟨_, _, _, _, _, _, text⟩ := Expr.toList_render measured constant written
          rw [text]
          exact (Tells.constant_layout writtenToo).symm
      | false =>
          exact .nodes named toldKids toldHistory shown shownToo constant constantToo written
            writtenToo

mutual

/-- What the operands and the history of an expression hand on to it, all expressions have. -/
theorem Expr.told
    (named : AreNamed arrays) :
    (expression : Expr) → expression.Told arrays
  | .const _ _ => .of_parts named (List.forall_mem_nil _) nofun
  | .notOptimized _ source | .extract _ _ source | .zext _ source | .sext _ source
  | .not _ source =>
      .of_parts named (List.forall_mem_singleton.2 (source.told named)) nofun
  | .read _ updates index =>
      .of_parts named (List.forall_mem_singleton.2 (index.told named))
        fun _ isHistory => Option.some.inj isHistory ▸ updates.told named
  | .select _ _ cond onTrue onFalse =>
      .of_parts named (List.forall_mem_cons.2 ⟨cond.told named,
        List.forall_mem_cons.2 ⟨onTrue.told named,
          List.forall_mem_singleton.2 (onFalse.told named)⟩⟩) nofun
  | .concat _ left right | .binary _ _ left right =>
      .of_parts named (List.forall_mem_cons.2 ⟨left.told named,
        List.forall_mem_singleton.2 (right.told named)⟩) nofun
  | .loose .. => fun _ _ _ shown => shown.self.proper.measured.elim

/-- By induction on the history, each write being told if its index and its value are. -/
theorem Updates.told
    (named : AreNamed arrays)
    (updates : Updates) :
    updates.Told arrays := by
  cases updates with
  | root array => exact .root array
  | write id index value older =>
      exact .write (index.told named) (value.told named) (older.told named)

end

end

/--
Take two expressions that the constructors made, without a multi node, over arrays with different
and legible names.  The second has the text of the first if and only if both are the same tree: of
the same kinds, widths, values and offsets, with the same operands, and reading the same arrays
below writes of the same indices and values in the same order.
-/
theorem Workshop.render_eq_iff_bare_eq
    {workshop : Workshop}
    (reachable : workshop.Reachable)
    {arrays : List ArrayDecl}
    (named : AreNamed arrays)
    {first second : Expr}
    (made : first ∈ workshop.expressions)
    (madeToo : second ∈ workshop.expressions)
    (single : first.Throughout (·.multi = false))
    (singleToo : second.Throughout (·.multi = false))
    (readsFrom : first.Throughout (·.ReadsFrom arrays))
    (readsFromToo : second.Throughout (·.ReadsFrom arrays))
    {text : String}
    (written : first.render = .ok text) :
    second.render = .ok text ↔ first.bare = second.bare := by
  have sound := reachable.sound
  have shown : first.Throughout (Expr.Shown arrays) := fun part member =>
    ⟨(sound.registered first made).proper part member, single part member,
      readsFrom part member⟩
  have shownToo : second.Throughout (Expr.Shown arrays) := fun part member =>
    ⟨(sound.registered second madeToo).proper part member, singleToo part member,
      readsFromToo part member⟩
  constructor
  · intro writtenToo
    exact (first.told named shown shownToo written writtenToo [] [] rfl).1
  · intro bare
    rw [← second.render_bare, ← bare, first.render_bare, written]

namespace TableByte

/-- A second write of the same byte over the table. -/
def rewritten : Updates := .write 9 zero stored (.root table)

def relookup : Expr := .read ⟨10, 8, false⟩ rewritten index

def workshopTwice : Workshop :=
  (workshop.write (.root table) zero stored).construct (.read rewritten index false)

theorem expressions_workshopTwice :
    workshopTwice.expressions = [relookup, lookup, stored, index, byte, zero] := rfl

theorem reachable_workshopTwice : workshopTwice.Reachable := by
  have rooted : .root table ∈ workshop.histories := .tail _ (.head _)
  have atHand : zero ∈ workshop.expressions ∧ stored ∈ workshop.expressions := by
    simp [expressions_workshop]
  refine (reachable.tail (.write rooted atHand.1 atHand.2)).tail (.construct ?_ ?_)
  all_goals simp [Construction.operands, Construction.history?]
  · exact .tail _ (.tail _ (.head _))
  · exact .head _

theorem areNamed : AreNamed [first, second, table] where
  distinct := by decide
  legible := by simp [IsLegible, first, second, table]

end TableByte

open TableByte in
/-- Two lookups above two writes of the same byte have one text, and are one tree. -/
theorem render_eq_iff_bare_eq_lookup :
    let text := "(Read w8 (ZExt w32 (Read w8 (w32 0) a)) [(w32 0)=(Read w8 (w32 0) b)] @ t)"
    lookup.render = .ok text ∧ relookup.render = .ok text ∧ lookup.id ≠ relookup.id ∧
      lookup.bare = relookup.bare := by
  intro text
  have isText : lookup.render = .ok text := by decide +kernel
  have isTextToo : relookup.render = .ok text := by decide +kernel
  refine ⟨isText, isTextToo, by decide, ?_⟩
  refine (Workshop.render_eq_iff_bare_eq reachable_workshopTwice areNamed ?_ ?_ ?_ ?_ ?_ ?_
    isText).1 isTextToo
  · simp [expressions_workshopTwice]
  · simp [expressions_workshopTwice]
  · simp [lookup, written, index, byte, zero, stored, Expr.multi, Expr.tag]
  · simp [relookup, rewritten, index, byte, zero, stored, Expr.multi, Expr.tag]
  · simp [lookup, written, index, byte, zero, stored, Expr.ReadsFrom, Expr.updates?,
      Updates.array]
  · simp [relookup, rewritten, index, byte, zero, stored, Expr.ReadsFrom, Expr.updates?,
      Updates.array]

end Diverge

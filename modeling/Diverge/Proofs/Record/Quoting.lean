import Mathlib.Data.List.Forall2
import Diverge.Divergence
import Diverge.Proofs.Assoc
import Diverge.Proofs.Computation
import Diverge.Proofs.Text

/-!
# Arguments read off the text of a divergence

An argument spells its text, or its bytes up to the first zero (`Argument.Spells`), and a
divergence spells what its arguments do in the order of their positions (`Divergence.Spells`).

Arguments are written between quotes.  First every backslash is doubled, and then every quote
gets a backslash before it.  The second replacement finds no quote that the first one wrote, so
that both together put a backslash before each character that needs one (`quoted_eq`).  This can
be undone: `Divergence.unquote` reads one quoted text and leaves what stands after it, so the
text of a divergence tells what it spells (`Divergence.spells_iff_of_render_eq`), whatever the
outputs are.  The names of outputs stand in the text as they are, and outputs cannot be told from
it.
-/

namespace Diverge

/-! ## What arguments spell -/

/--
Text spells itself.  Bytes spell the characters of which they are the numbers, up to the first
zero if there is one.
-/
inductive Argument.Spells : Argument → List Char → Prop
  | text (value : String) : Spells (.text value) value.toList
  | bytes {before after : List UInt8} {chars : List Char} (noZero : 0 ∉ before)
      (ends : ∀ byte ∈ after.head?, byte = 0)
      (numbers : chars.map Char.toNat = before.map UInt8.toNat) :
      Spells (.bytes (before ++ after)) chars

/-- The texts are what the arguments spell, put in the order of their positions. -/
def Divergence.Spells (divergence : Divergence) (texts : List (List Char)) : Prop :=
  ∃ entries : List (Int × Argument), entries.Perm divergence.args ∧
    entries.Pairwise (fun earlier later => earlier.1 < later.1) ∧
      List.Forall₂ (fun entry text => entry.2.Spells text) entries texts

namespace Argument

theorem toNat_ofNat_byte
    (byte : UInt8) :
    (Char.ofNat byte.toNat).toNat = byte.toNat := by
  have all : ∀ number : Fin 256, (Char.ofNat number).toNat = number := by decide +kernel
  exact all ⟨byte.toNat, byte.toNat_lt⟩

/-- Up to the first zero, bytes are those that stand before it. -/
theorem takeWhile_append
    {before after : List UInt8}
    (noZero : 0 ∉ before)
    (ends : ∀ byte ∈ after.head?, byte = 0) :
    (before ++ after).takeWhile (· ≠ 0) = before := by
  have nothing : after.takeWhile (· ≠ 0) = [] := by
    cases after with
    | nil => rfl
    | cons byte rest => simp [ends byte rfl]
  rw [List.takeWhile_append_of_pos, nothing, List.append_nil]
  intro byte member
  exact decide_eq_true fun isZero => noZero (isZero ▸ member)

/-- Bytes fall into those before the first zero and those from it on. -/
theorem exists_before_zero
    (bytes : List UInt8) :
    ∃ before after, bytes = before ++ after ∧ 0 ∉ before ∧ ∀ byte ∈ after.head?, byte = 0 := by
  induction bytes with
  | nil => exact ⟨[], [], rfl, List.not_mem_nil, nofun⟩
  | cons byte rest inductionHypothesis =>
      by_cases zero : byte = 0
      · exact ⟨[], byte :: rest, rfl, List.not_mem_nil, by simpa using zero⟩
      · obtain ⟨before, after, rfl, noZero, ends⟩ := inductionHypothesis
        refine ⟨byte :: before, after, rfl, ?_, ends⟩
        exact List.not_mem_cons_of_ne_of_not_mem (Ne.symm zero) noZero

/-- Characters with the numbers of bytes are the bytes as text. -/
theorem eq_latin1
    {chars : List Char}
    {bytes : List UInt8}
    (numbers : chars.map Char.toNat = bytes.map UInt8.toNat) :
    chars = latin1 bytes := by
  have back : (chars.map Char.toNat).map Char.ofNat = chars := by
    rw [List.map_map]
    exact List.map_id'' Char.ofNat_toNat chars
  rw [← back, numbers, List.map_map]
  rfl

/-- An argument spells one text, the one that is shown. -/
theorem spells_iff
    {argument : Argument}
    {text : List Char} :
    argument.Spells text ↔ text = argument.shown := by
  constructor
  · intro spells
    cases spells with
    | text value => rfl
    | bytes noZero ends numbers =>
        rw [shown, takeWhile_append noZero ends]
        exact eq_latin1 numbers
  · rintro rfl
    cases argument with
    | text value => exact .text value
    | bytes value =>
        obtain ⟨before, after, rfl, noZero, ends⟩ := exists_before_zero value
        rw [shown, takeWhile_append noZero ends]
        refine .bytes noZero ends ?_
        rw [latin1, List.map_map]
        exact List.map_congr_left fun byte _ => toNat_ofNat_byte byte

/-- Several arguments spell one list of texts. -/
theorem forall₂_spells_iff
    {α : Type}
    {argument : α → Argument}
    {values : List α}
    {texts : List (List Char)} :
    List.Forall₂ (fun value text => (argument value).Spells text) values texts ↔
      texts = values.map fun value => (argument value).shown := by
  rw [eq_comm, ← List.forall₂_eq_eq_eq, List.forall₂_map_left_iff]
  simp only [spells_iff, eq_comm]

end Argument

namespace Divergence

/-- Distinct positions that do not descend ascend. -/
theorem pairwise_sorted
    {args : Assoc Int Argument}
    (once : args.HasOnce) :
    (args.mergeSort fun left right => left.1 ≤ right.1).Pairwise
      fun earlier later => earlier.1 < later.1 := by
  have sorted : (args.mergeSort fun left right => left.1 ≤ right.1).Pairwise
      fun earlier later => decide (earlier.1 ≤ later.1) = true :=
    List.pairwise_mergeSort (fun _ _ _ => by simpa using Int.le_trans)
      (fun _ _ => by simpa using Int.le_total _ _) args
  have distinct : (args.mergeSort fun left right => left.1 ≤ right.1).Pairwise
      fun earlier later => earlier.1 ≠ later.1 :=
    List.pairwise_map.1 (((List.mergeSort_perm args _).map Prod.fst).nodup_iff.2 once)
  refine (sorted.and distinct).imp fun both => ?_
  exact Int.lt_iff_le_and_ne.2 ⟨of_decide_eq_true both.1, both.2⟩

/-- A divergence spells one list of texts, what its arguments show. -/
theorem spells_iff
    {divergence : Divergence}
    (once : divergence.args.HasOnce)
    {texts : List (List Char)} :
    divergence.Spells texts ↔ texts = divergence.arguments.map Argument.shown := by
  have ascending := pairwise_sorted once
  have shown : divergence.arguments.map Argument.shown =
      (divergence.args.mergeSort fun left right => left.1 ≤ right.1).map
        fun entry => entry.2.shown := by
    rw [arguments, List.map_map]
    rfl
  rw [shown]
  constructor
  · rintro ⟨entries, same, sorted, each⟩
    have equal : entries = divergence.args.mergeSort fun left right => left.1 ≤ right.1 := by
      refine List.Perm.eq_of_pairwise ?_ sorted ascending
        (same.trans (List.mergeSort_perm divergence.args _).symm)
      intro first second _ _ less more
      omega
    rw [← equal]
    exact Argument.forall₂_spells_iff.1 each
  · intro isShown
    exact ⟨_, List.mergeSort_perm divergence.args _, ascending,
      Argument.forall₂_spells_iff.2 isShown⟩

/-! ## Quoted texts -/

/-- Inside quotes, a quote or a backslash has a backslash before it. -/
def escape : Char → List Char
  | '\\' => ['\\', '\\']
  | '"' => ['\\', '"']
  | char => [char]

theorem escape_of_ne
    {char : Char}
    (noBackslash : char ≠ '\\')
    (noQuote : char ≠ '"') :
    escape char = [char] := by
  unfold escape
  split
  · exact absurd rfl noBackslash
  · exact absurd rfl noQuote
  · rfl

/-- Doubling the backslashes and then marking the quotes escapes every character. -/
theorem replace_replace
    (value : List Char) :
    replace '"' ['\\', '"'] (replace '\\' ['\\', '\\'] value) = value.flatMap escape := by
  unfold replace
  rw [List.flatMap_assoc]
  congr 1
  funext char
  by_cases backslash : char = '\\'
  · subst backslash
    decide
  · rw [if_neg backslash, List.flatMap_singleton]
    by_cases quote : char = '"'
    · subst quote
      decide
    · rw [if_neg quote, escape_of_ne backslash quote]

/-- A text between quotes, each of its characters escaped. -/
def enclosed (value : List Char) : List Char :=
  ['"'] ++ value.flatMap escape ++ ['"']

/-- The two replacements in turn escape a text and put quotes around it. -/
theorem quoted_eq
    (value : List Char) :
    quoted value = enclosed value := by
  rw [quoted, replace_replace]
  rfl

/-- Read a text up to the quote that closes it, and leave what stands after the quote. -/
def unquote : List Char → Option (List Char × List Char)
  | [] => none
  | '"' :: rest => some ([], rest)
  | '\\' :: escaped :: rest =>
      (unquote rest).map fun (value, left) => (escaped :: value, left)
  | char :: rest => (unquote rest).map fun (value, left) => (char :: value, left)

/-- A quote inside a text is not taken for the one that closes it. -/
theorem unquote_escape
    (value rest : List Char) :
    unquote (value.flatMap escape ++ '"' :: rest) = some (value, rest) := by
  induction value with
  | nil => rfl
  | cons char value inductionHypothesis =>
      rw [List.flatMap_cons, List.append_assoc]
      by_cases backslash : char = '\\'
      · subst backslash
        simp [escape, unquote, inductionHypothesis]
      · by_cases quote : char = '"'
        · subst quote
          simp [escape, unquote, inductionHypothesis]
        · rw [escape_of_ne backslash quote]
          simp [unquote, backslash, inductionHypothesis]

/-- A quoted text tells where it ends. -/
theorem quoted_append_inj
    {first second left right : List Char}
    (same : quoted first ++ left = quoted second ++ right) :
    first = second ∧ left = right := by
  have inner : first.flatMap escape ++ '"' :: left = second.flatMap escape ++ '"' :: right := by
    simpa [quoted_eq, enclosed] using same
  have read := congrArg unquote inner
  rw [unquote_escape, unquote_escape] at read
  simpa using read

/-! ## The list of arguments -/

/-- After a closing quote, a blank announces one more text and a parenthesis the end. -/
theorem flatMap_quoted_inj
    {first second : List (List Char)}
    {left right : List Char}
    (same : (first.map quoted).flatMap ([' '] ++ ·) ++ ')' :: left =
      (second.map quoted).flatMap ([' '] ++ ·) ++ ')' :: right) :
    first = second := by
  induction first generalizing second with
  | nil =>
      cases second with
      | nil => rfl
      | cons _ _ => simp at same
  | cons value rest inductionHypothesis =>
      cases second with
      | nil => simp at same
      | cons other others =>
          simp only [List.map_cons, List.flatMap_cons, List.append_assoc, List.cons_append,
            List.cons.injEq, true_and] at same
          obtain ⟨rfl, sameRest⟩ := quoted_append_inj same
          rw [inductionHypothesis sameRest]

/-- Quoted texts in parentheses are told by what is written, whatever comes after them. -/
theorem spaced_quoted_inj
    {first second : List (List Char)}
    {left right : List Char}
    (same : spaced (first.map quoted) ++ ')' :: left =
      spaced (second.map quoted) ++ ')' :: right) :
    first = second := by
  unfold spaced at same
  cases first with
  | nil =>
      cases second with
      | nil => rfl
      | cons other others => simp [intercalate_cons, quoted] at same
  | cons value rest =>
      cases second with
      | nil => simp [intercalate_cons, quoted] at same
      | cons other others =>
          rw [List.map_cons, List.map_cons, intercalate_cons, intercalate_cons,
            List.append_assoc, List.append_assoc] at same
          obtain ⟨rfl, sameRest⟩ := quoted_append_inj same
          rw [flatMap_quoted_inj sameRest]

theorem renderArguments_eq
    (divergence : Divergence) :
    divergence.renderArguments =
      spaced ((divergence.arguments.map Argument.shown).map quoted) := by
  rw [renderArguments, List.map_map]
  rfl

/-- The text of a divergence begins with its arguments. -/
theorem eq_of_render
    {divergence : Divergence}
    {text : String}
    (written : divergence.render = .ok text) :
    ∃ outputs, text =
      String.ofList ("\x7b(".toList ++ divergence.renderArguments ++ ") \x7b".toList ++ outputs) := by
  obtain ⟨outputs, _, ended⟩ := Stateful.except_bind_eq_ok.1 written
  refine ⟨spaced outputs ++ "\x7d\x7d".toList, ?_⟩
  rw [← Except.ok.inj ended, List.append_assoc]

/--
Divergences of one text spell the same: there is one list of texts that the arguments of the
first spell in the order of their positions, and the arguments of the second spell it as well.
-/
theorem spells_iff_of_render_eq
    {first second : Divergence}
    (once : first.args.HasOnce)
    (onceToo : second.args.HasOnce)
    {text : String}
    (written : first.render = .ok text)
    (writtenToo : second.render = .ok text) :
    ∃ texts, ∀ spelled,
      (first.Spells spelled ↔ spelled = texts) ∧ (second.Spells spelled ↔ spelled = texts) := by
  obtain ⟨outputs, letters⟩ := eq_of_render written
  obtain ⟨outputsToo, lettersToo⟩ := eq_of_render writtenToo
  have same : first.arguments.map Argument.shown = second.arguments.map Argument.shown := by
    rw [letters, String.ofList_inj, renderArguments_eq, renderArguments_eq] at lettersToo
    have rest : spaced ((first.arguments.map Argument.shown).map quoted) ++
        ')' :: ' ' :: '\x7b' :: outputs =
      spaced ((second.arguments.map Argument.shown).map quoted) ++
        ')' :: ' ' :: '\x7b' :: outputsToo := by simpa using lettersToo
    exact spaced_quoted_inj rest
  refine ⟨first.arguments.map Argument.shown, fun spelled => ⟨spells_iff once, ?_⟩⟩
  rw [same]
  exact spells_iff onceToo

end Divergence

/-- Two arguments as text, and two outputs. -/
def Divergence.plain : Divergence where
  firstRevision := 1
  secondRevision := 2
  args := [(0, .text "a\\\""), (1, .text ") (")]
  outputs := [("x", [], []), ("y", [7], [])]

/-- The same arguments at other positions, one of them as bytes, and a single output, whose name
has the text of the first output of `plain` in it. -/
def Divergence.disguised : Divergence where
  firstRevision := 1
  secondRevision := 2
  args := [(17, .text ") ("), (-3, .bytes [97, 92, 34, 0, 9])]
  outputs := [("x \x7b1  2 \x7d :y", [7], [])]

open Divergence in
theorem Divergence.spells_iff_of_render_eq_disguised :
    ∃ text, plain.render = .ok text ∧ disguised.render = .ok text ∧
      plain.outputs ≠ disguised.outputs ∧ ∀ texts,
        (plain.Spells texts ↔ texts = ["a\\\"".toList, ") (".toList]) ∧
          (disguised.Spells texts ↔ texts = ["a\\\"".toList, ") (".toList]) := by
  have plainArguments : plain.arguments = [.text "a\\\"", .text ") ("] := by
    simp [arguments, plain, List.mergeSort]
  have disguisedArguments : disguised.arguments =
      [.bytes [97, 92, 34, 0, 9], .text ") ("] := by
    simp [arguments, disguised, List.mergeSort]
  have written : plain.render =
      .ok "\x7b(\"a\\\\\\\"\" \") (\") \x7b:x \x7b1  2 \x7d :y \x7b1 \\x07 2 \x7d\x7d\x7d" := by
    rw [render, renderArguments, plainArguments]
    decide +kernel
  have writtenToo : disguised.render =
      .ok "\x7b(\"a\\\\\\\"\" \") (\") \x7b:x \x7b1  2 \x7d :y \x7b1 \\x07 2 \x7d\x7d\x7d" := by
    rw [render, renderArguments, disguisedArguments]
    decide +kernel
  have spelled : plain.Spells ["a\\\"".toList, ") (".toList] :=
    ⟨plain.args, .refl _, by decide, .cons (.text _) (.cons (.text _) .nil)⟩
  have once : (plain.args.map Prod.fst).Nodup := by decide
  have onceToo : (disguised.args.map Prod.fst).Nodup := by decide
  obtain ⟨texts, unique⟩ := spells_iff_of_render_eq once onceToo written writtenToo
  obtain rfl := (unique _).1.1 spelled
  exact ⟨_, written, writtenToo, by decide, unique⟩

end Diverge

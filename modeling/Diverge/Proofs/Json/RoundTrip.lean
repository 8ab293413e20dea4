import Diverge.Json.Reader
import Diverge.Json.Writer
import Diverge.Proofs.Assoc
import Diverge.Proofs.Text

/-!
# What is written is read back

A value is *exact* when its text tells all of it: it holds no fraction, no integer with
too many digits, no half of a surrogate pair, and no name twice in an object.  The text
of an exact value is read back as the value (`Json.parse_render`).

Reading goes on until something comes that cannot belong to a value.  The statements
about parts of a document therefore speak of a written part and of a rest after it, and
the reader of numbers asks that the rest *stops* a number.
-/

namespace Diverge

namespace Hex

theorem digit?_digit :
    ∀ value < 16, digit? (digit value) = some value := by
  decide

end Hex

/-- A text in which no half of a surrogate pair stands alone. -/
def CodePoints.IsWhole (text : CodePoints) : Prop :=
  ∀ code ∈ text, code < 0x110000 ∧ isSurrogate code = false

namespace Json

/-! ## Texts -/

/-- Four hexadecimal digits give a code unit back. -/
theorem hexValue?_hexDigits
    {unit : Nat}
    (small : unit < 0x10000) :
    hexValue? (hexDigits 4 unit) = some unit := by
  have digit (value : Nat) : Hex.digit? (Hex.digit (value % 16)) = some (value % 16) :=
    Hex.digit?_digit _ (Nat.mod_lt _ (by decide))
  simp only [hexDigits, hexValue?, List.nil_append, List.cons_append, List.foldlM_cons,
    List.foldlM_nil, digit, Option.map_some, Option.bind_eq_bind, Option.bind_some,
    Option.pure_def, Option.some.injEq]
  omega

/-- An escaped code unit is read back. -/
theorem readUnits_writeUnit
    {unit : Nat}
    (small : unit < 0x10000)
    (rest : List Char) :
    readUnits (writeUnit unit ++ rest) =
      (readUnits rest).map fun taken => (unit :: taken.1, taken.2) := by
  have digits := hexValue?_hexDigits small
  simp only [writeUnit, hexDigits, List.nil_append, List.cons_append] at digits ⊢
  rw [readUnits, digits]
  cases readUnits rest with
  | ok taken => rfl
  | error fault => rfl

/-- A short escape is read as its character. -/
theorem readUnits_short
    {char meant : Char}
    (noUnit : char ≠ 'u')
    (short : shortEscape? char = some meant)
    (rest : List Char) :
    readUnits ('\\' :: char :: rest) =
      (readUnits rest).map fun taken => (meant.toNat :: taken.1, taken.2) := by
  rw [readUnits, short]
  · cases readUnits rest with
    | ok taken => rfl
    | error fault => rfl
  · intro first second third fourth later same
    exact absurd same noUnit

/-- A character that is no quote, no backslash and no control character stands for itself. -/
theorem readUnits_self
    {char : Char}
    (noQuote : char ≠ '"')
    (noEscape : char ≠ '\\')
    (printable : ¬ char.toNat < 0x20)
    (rest : List Char) :
    readUnits (char :: rest) =
      (readUnits rest).map fun taken => (char.toNat :: taken.1, taken.2) := by
  rw [readUnits]
  · rw [if_neg (not_or.2 ⟨printable, noEscape⟩)]
    cases readUnits rest with
    | ok taken => rfl
    | error fault => rfl
  · exact noQuote
  · intro first second third fourth later same
    exact absurd same noEscape
  · intro other later same
    exact absurd same noEscape

theorem toNat_ofNat_of_ascii :
    ∀ code < 0x7f, (Char.ofNat code).toNat = code := by
  decide

/-- A visible character other than a quote and a backslash stands for itself. -/
theorem readUnits_ascii
    {code : Nat}
    (visible : ' '.toNat ≤ code)
    (ascii : code < 0x7f)
    (noQuote : code ≠ '"'.toNat)
    (noEscape : code ≠ '\\'.toNat)
    (rest : List Char) :
    readUnits (Char.ofNat code :: rest) =
      (readUnits rest).map fun taken => (code :: taken.1, taken.2) := by
  have itself := toNat_ofNat_of_ascii code ascii
  have printable : ¬ (Char.ofNat code).toNat < 0x20 := by
    rw [itself]
    exact Nat.not_lt.2 visible
  have stands := readUnits_self
    (fun same => noQuote (itself.symm.trans (congrArg Char.toNat same)))
    (fun same => noEscape (itself.symm.trans (congrArg Char.toNat same))) printable rest
  rw [itself] at stands
  exact stands

/-- A code point beyond the first plane is read back as its two units. -/
theorem readUnits_flatMap_writeUnit
    {code : Nat}
    (isCode : code < 0x110000)
    (rest : List Char) :
    readUnits ((units code).flatMap writeUnit ++ rest) =
      (readUnits rest).map fun taken => (units code ++ taken.1, taken.2) := by
  unfold units
  split
  next small =>
      rw [List.flatMap_singleton]
      exact readUnits_writeUnit small rest
  next large =>
      simp only [List.flatMap_cons, List.flatMap_nil, List.append_nil, List.append_assoc]
      rw [readUnits_writeUnit (by omega), readUnits_writeUnit (by omega)]
      cases readUnits rest with
      | ok taken => rfl
      | error fault => rfl

/-- A written code point is read as its code units. -/
theorem readUnits_writePoint
    {code : Nat}
    (isCode : code < 0x110000)
    (rest : List Char) :
    readUnits (writePoint code ++ rest) =
      (readUnits rest).map fun taken => (units code ++ taken.1, taken.2) := by
  have short {char meant : Char} (same : code = meant.toNat) (small : meant.toNat < 0x10000)
      (noUnit : char ≠ 'u') (escape : shortEscape? char = some meant) :
      readUnits (['\\', char] ++ rest) =
        (readUnits rest).map fun taken => (units code ++ taken.1, taken.2) := by
    rw [same, units, if_pos small]
    exact readUnits_short noUnit escape rest
  unfold writePoint
  split
  next same => exact short same (by decide) (by decide) rfl
  next noQuote =>
  split
  next same => exact short same (by decide) (by decide) rfl
  next noEscape =>
  split
  next same => exact short same (by decide) (by decide) rfl
  split
  next same => exact short same (by decide) (by decide) rfl
  split
  next same => exact short same (by decide) (by decide) rfl
  split
  next same =>
      exact short (show code = '\x08'.toNat from same) (by decide) (by decide) rfl
  split
  next same =>
      exact short (show code = '\x0c'.toNat from same) (by decide) (by decide) rfl
  split
  next printable =>
      have ascii : code < 0x7f := Nat.lt_succ_of_le printable.2
      rw [units, if_pos (Nat.lt_trans ascii (by decide))]
      exact readUnits_ascii printable.1 ascii noQuote noEscape rest
  next => exact readUnits_flatMap_writeUnit isCode rest

/-- A text is read up to its quote, as its code units. -/
theorem readUnits_write
    {text : CodePoints}
    (whole : text.IsWhole)
    (rest : List Char) :
    readUnits (text.flatMap writePoint ++ '"' :: rest) = .ok (text.flatMap units, rest) := by
  induction text with
  | nil => rfl
  | cons code later inductionHypothesis =>
      have isCode := (whole code List.mem_cons_self).1
      have wholeLater : CodePoints.IsWhole later :=
        fun other member => whole other (List.mem_cons_of_mem _ member)
      rw [List.flatMap_cons, List.append_assoc, readUnits_writePoint isCode,
        inductionHypothesis wholeLater]
      rfl

/-- A unit that is no half of a pair stays alone. -/
theorem joinUnits_cons
    {unit : Nat}
    (single : CodePoints.isSurrogate unit = false)
    (units : List Nat) :
    joinUnits (unit :: units) = unit :: joinUnits units := by
  cases units with
  | nil => rfl
  | cons next rest =>
      rw [joinUnits, if_neg]
      simp [CodePoints.isSurrogate] at single
      omega

/-- Code units are joined to the code points that they were made of. -/
theorem joinUnits_units
    {text : CodePoints}
    (whole : text.IsWhole) :
    joinUnits (text.flatMap units) = text := by
  induction text with
  | nil => rfl
  | cons code later inductionHypothesis =>
      obtain ⟨isCode, single⟩ := whole code List.mem_cons_self
      have joined := inductionHypothesis fun other member =>
        whole other (List.mem_cons_of_mem _ member)
      rw [List.flatMap_cons, units]
      split
      next small =>
          rw [List.singleton_append, joinUnits_cons single, joined]
      next large =>
          simp only [List.cons_append, List.nil_append]
          rw [joinUnits, if_pos (by omega), joined]
          exact congrArg (· :: later) (by omega)

/-- A text without lone halves of surrogate pairs is read back up to the quote that ends it. -/
theorem readText_write
    {text : CodePoints}
    (whole : text.IsWhole)
    (rest : List Char) :
    readText (text.flatMap writePoint ++ '"' :: rest) = .ok (text, rest) := by
  unfold readText
  rw [readUnits_write whole]
  exact congrArg (fun joined => Except.ok (joined, rest)) (joinUnits_units whole)

/-! ## Integers -/

/-- A rest that does not go on with a number. -/
def Stops (rest : List Char) : Prop :=
  ∀ char ∈ rest.head?,
    char.isDigit = false ∧ char ≠ '.' ∧ char ≠ 'e' ∧ char ≠ 'E'

/-- The digits of a number end where something stops them. -/
theorem takeDigits_append
    {digits rest : List Char}
    (areDigits : ∀ char ∈ digits, char.isDigit = true)
    (stops : Stops rest) :
    takeDigits (digits ++ rest) = (digits, rest) := by
  have none : rest.takeWhile Char.isDigit = [] ∧ rest.dropWhile Char.isDigit = rest := by
    cases rest with
    | nil => exact ⟨rfl, rfl⟩
    | cons char later => simp [(stops char rfl).1]
  unfold takeDigits
  rw [List.takeWhile_append_of_pos areDigits, List.dropWhile_append_of_pos areDigits, none.1,
    none.2, List.append_nil]

theorem takeFraction_of_stops
    {rest : List Char}
    (stops : Stops rest) :
    takeFraction rest = (none, rest) := by
  unfold takeFraction
  split
  next => exact absurd rfl (stops '.' rfl).2.1
  next => rfl

theorem takePower_of_stops
    {rest : List Char}
    (stops : Stops rest) :
    takePower rest = (none, rest) := by
  unfold takePower
  split
  next mark later =>
      have noMark := (stops mark rfl).2.2
      rw [if_neg (not_or.2 noMark)]
  next => rfl

/-- The digits of a number start with a zero only if the number is zero. -/
theorem head_toDigits
    (value : Nat)
    (positive : 0 < value) :
    (Nat.toDigits 10 value).head? ≠ some '0' := by
  induction value using Nat.strongRecOn with
  | ind value inductionHypothesis =>
      by_cases single : value < 10
      · rw [Nat.toDigits_of_lt_base single]
        have digits : ∀ digit < 10, 0 < digit → [digit.digitChar].head? ≠ some '0' := by decide
        exact digits value single positive
      · have later := inductionHypothesis (value / 10) (by omega) (by omega)
        rw [Nat.toDigits_of_base_le (by decide) (Nat.le_of_not_lt single)]
        cases front : Nat.toDigits 10 (value / 10) with
        | nil => exact absurd front Nat.toDigits_ne_nil
        | cons first others =>
            rw [front] at later
            exact later

theorem takeWhole_toDigits
    (value : Nat)
    {rest : List Char}
    (stops : Stops rest) :
    takeWhole (Nat.toDigits 10 value ++ rest) = .ok (Nat.toDigits 10 value, rest) := by
  by_cases zero : value = 0
  · subst zero
    rfl
  · have areDigits : ∀ char ∈ Nat.toDigits 10 value, char.isDigit = true :=
      fun char member => Nat.isDigit_of_mem_toDigits (by decide) (by decide) member
    have notZero := head_toDigits value (Nat.pos_of_ne_zero zero)
    unfold takeWhole
    split
    next later same =>
        cases front : Nat.toDigits 10 value with
        | nil => exact absurd front Nat.toDigits_ne_nil
        | cons first others =>
            rw [front] at notZero same
            exact absurd (congrArg some (List.cons.inj same).1) notZero
    next =>
        rw [takeDigits_append areDigits stops]
        simp

/-- A number has at most so many digits if it is below the power of ten. -/
theorem length_toDigits_le
    (value : Nat)
    {most : Nat}
    (positive : 0 < most) :
    (Nat.toDigits 10 value).length ≤ most ↔ value < Nat.pow 10 most :=
  Nat.length_toDigits_le_iff (by decide) positive

/-- A number is read back from its digits, or refused if there are too many. -/
theorem readNumber_toDigits
    (negative : Bool)
    (value : Nat)
    {rest : List Char}
    (stops : Stops rest) :
    readNumber negative (Nat.toDigits 10 value ++ rest) =
      if value < Integer.limit then
        .ok (.int (if negative then -(value : Int) else value), rest)
      else .error (.tooManyDigits (Nat.toDigits 10 value).length) := by
  have few : (Nat.toDigits 10 value).length ≤ Integer.maxDigits ↔ value < Integer.limit := by
    unfold Integer.limit
    exact length_toDigits_le value (by decide)
  have meant : decimalValue (Nat.toDigits 10 value) = value :=
    Nat.ofDigitChars_toDigits (by decide) (by decide)
  unfold readNumber
  rw [takeWhole_toDigits value stops]
  simp only [bind, Except.bind, takeFraction_of_stops stops, takePower_of_stops stops, meant]
  split
  next many => rw [if_neg (fun less => Nat.not_lt.2 (few.2 less) many)]
  next less => rw [if_pos (few.1 (Nat.le_of_not_lt less))]; rfl

theorem readSimple_digit
    {first : Char}
    (isDigit : first.isDigit = true)
    (rest : List Char) :
    readSimple (first :: rest) = readNumber false (first :: rest) := by
  rw [readSimple]
  all_goals
    intro later same
    rw [(List.cons.inj same).1] at isDigit
    exact absurd isDigit (by decide)

theorem readSimple_minus
    {first : Char}
    (isDigit : first.isDigit = true)
    (rest : List Char) :
    readSimple ('-' :: first :: rest) = readNumber true (first :: rest) := by
  rw [readSimple]
  intro later same
  rw [(List.cons.inj same).1] at isDigit
  exact absurd isDigit (by decide)

theorem write_int
    (value : Int) :
    (Json.int value).write =
      if 0 ≤ value then Nat.toDigits 10 value.toNat else '-' :: Nat.toDigits 10 (-value).toNat :=
  Integer.toList_toString value

/-- A written number starts with a digit. -/
theorem toDigits_eq_cons
    (value : Nat) :
    ∃ first rest, Nat.toDigits 10 value = first :: rest ∧ first.isDigit = true := by
  cases digits : Nat.toDigits 10 value with
  | nil => exact absurd digits Nat.toDigits_ne_nil
  | cons first rest =>
      refine ⟨first, rest, rfl, ?_⟩
      have member : first ∈ Nat.toDigits 10 value := by
        rw [digits]
        exact List.mem_cons_self
      exact Nat.isDigit_of_mem_toDigits (by decide) (by decide) member

/-- An integer is read back if and only if it has not too many digits. -/
theorem readSimple_write_int
    (value : Int)
    {rest : List Char}
    (stops : Stops rest) :
    readSimple ((Json.int value).write ++ rest) =
      if value.natAbs < Integer.limit then .ok (.int value, rest)
      else .error (.tooManyDigits (Nat.toDigits 10 value.natAbs).length) := by
  rw [write_int]
  obtain ⟨first, others, digits, isDigit⟩ := toDigits_eq_cons value.natAbs
  split
  next nonneg =>
      rw [show value.toNat = value.natAbs by omega, digits, List.cons_append,
        readSimple_digit isDigit, ← List.cons_append, ← digits, readNumber_toDigits false _ stops,
        show (if false = true then -(value.natAbs : Int) else value.natAbs) = value by
          rw [if_neg Bool.false_ne_true]; omega]
  next negative =>
      rw [show (-value).toNat = value.natAbs by omega, digits, List.cons_append,
        List.cons_append, readSimple_minus isDigit, ← List.cons_append, ← digits,
        readNumber_toDigits true _ stops,
        show (if true = true then -(value.natAbs : Int) else value.natAbs) = value by
          rw [if_pos rfl]; omega]

/-! ## Values -/

mutual

/-- A value of which nothing is lost when it is written. -/
def Exact : Json → Prop
  | .null | .bool _ => True
  | .int value => value.natAbs < Integer.limit
  | .real _ => False
  | .str value => value.IsWhole
  | .arr items => ExactItems items
  | .obj members => Assoc.HasOnce members ∧ ExactMembers members

/-- All items are exact. -/
def ExactItems : List Json → Prop
  | [] => True
  | item :: rest => item.Exact ∧ ExactItems rest

/-- All names are whole and all values exact. -/
def ExactMembers : List (CodePoints × Json) → Prop
  | [] => True
  | (name, value) :: rest => name.IsWhole ∧ value.Exact ∧ ExactMembers rest

end

theorem skipBlanks_cons
    {char : Char}
    (visible : isBlank char = false)
    (rest : List Char) :
    skipBlanks (char :: rest) = char :: rest := by
  unfold skipBlanks
  rw [List.dropWhile_cons, visible]
  rfl

/-- The characters that a number starts with. -/
def StartsNumber (char : Char) : Prop :=
  char.isDigit = true ∨ char = '-'

theorem StartsNumber.ne
    {char other : Char}
    (starts : StartsNumber char)
    (notDigit : other.isDigit = false)
    (notMinus : other ≠ '-') :
    char ≠ other := by
  rintro rfl
  rcases starts with isDigit | isMinus
  · rw [notDigit] at isDigit
    cases isDigit
  · exact notMinus isMinus

theorem StartsNumber.isBlank_eq_false
    {char : Char}
    (starts : StartsNumber char) :
    isBlank char = false := by
  simp only [isBlank, Bool.or_eq_false_iff, beq_eq_false_iff_ne]
  exact ⟨⟨⟨starts.ne rfl (by decide), starts.ne rfl (by decide)⟩, starts.ne rfl (by decide)⟩,
    starts.ne rfl (by decide)⟩

/-- The text of an integer starts with a digit or a minus sign. -/
theorem write_int_eq_cons
    (value : Int) :
    ∃ first rest, (Json.int value).write = first :: rest ∧ StartsNumber first := by
  rw [write_int]
  split
  next =>
      obtain ⟨first, rest, digits, isDigit⟩ := toDigits_eq_cons value.toNat
      exact ⟨first, rest, digits, Or.inl isDigit⟩
  next => exact ⟨_, _, rfl, Or.inr rfl⟩

/-- A value starts with a character that is neither blank nor a closing bracket. -/
theorem write_eq_cons
    {value : Json}
    (exact : value.Exact) :
    ∃ first rest, value.write = first :: rest ∧ isBlank first = false ∧ first ≠ ']' := by
  cases value with
  | null => exact ⟨_, _, rfl, rfl, by decide⟩
  | bool truth => cases truth <;> exact ⟨_, _, rfl, rfl, by decide⟩
  | int value =>
      obtain ⟨first, rest, written, starts⟩ := write_int_eq_cons value
      exact ⟨first, rest, written, starts.isBlank_eq_false, starts.ne rfl (by decide)⟩
  | real value => exact exact.elim
  | str text => exact ⟨_, _, rfl, rfl, by decide⟩
  | arr items => exact ⟨_, _, rfl, rfl, by decide⟩
  | obj members => exact ⟨_, _, rfl, rfl, by decide⟩

/-- The text of a value does not start with a blank. -/
theorem skipBlanks_write
    {value : Json}
    (exact : value.Exact)
    (rest : List Char) :
    skipBlanks (value.write ++ rest) = value.write ++ rest := by
  obtain ⟨first, others, written, visible, _⟩ := write_eq_cons exact
  rw [written, List.cons_append, skipBlanks_cons visible]

theorem separated_single
    (text : List Char) :
    separated [text] = text := by
  simp [separated]

/-- A comma and a blank stand between two texts. -/
theorem separated_cons
    (text next : List Char)
    (rest : List (List Char)) :
    separated (text :: next :: rest) = text ++ ',' :: ' ' :: separated (next :: rest) := by
  simp [separated]

theorem separated_eq_cons
    (first : Char)
    (text : List Char)
    (others : List (List Char)) :
    ∃ rest, separated ((first :: text) :: others) = first :: rest := by
  cases others with
  | nil => exact ⟨text, separated_single _⟩
  | cons next others => exact ⟨_, separated_cons _ _ _⟩

theorem separated_writeItems_cons
    (item next : Json)
    (others : List Json) :
    separated (writeItems (item :: next :: others)) =
      item.write ++ ',' :: ' ' :: separated (writeItems (next :: others)) :=
  separated_cons _ _ _

theorem separated_writeMembers_cons
    (name : CodePoints)
    (value : Json)
    (next : CodePoints × Json)
    (others : List (CodePoints × Json)) :
    separated (writeMembers ((name, value) :: next :: others)) =
      writeText name ++ ':' :: ' ' ::
        (value.write ++ ',' :: ' ' :: separated (writeMembers (next :: others))) := by
  rw [writeMembers, writeMembers, separated_cons, List.append_assoc]
  rfl

/-- Items start as the first of them does. -/
theorem writeItems_eq_cons
    {item : Json}
    (exact : item.Exact)
    (others : List Json) :
    ∃ first rest, separated (writeItems (item :: others)) = first :: rest ∧
      isBlank first = false ∧ first ≠ ']' := by
  obtain ⟨first, text, written, visible, notEnd⟩ := write_eq_cons exact
  obtain ⟨rest, starts⟩ := separated_eq_cons first text (writeItems others)
  refine ⟨first, rest, ?_, visible, notEnd⟩
  rw [writeItems, written, starts]

/-- Members start with the quote of the first name. -/
theorem writeMembers_eq_cons
    (member : CodePoints × Json)
    (others : List (CodePoints × Json)) :
    ∃ rest, separated (writeMembers (member :: others)) = '"' :: rest :=
  separated_eq_cons '"' _ (writeMembers others)

theorem stops_nil :
    Stops [] := by
  intro char member
  cases member

theorem stops_cons
    {char : Char}
    (stops : char.isDigit = false ∧ char ≠ '.' ∧ char ≠ 'e' ∧ char ≠ 'E')
    (rest : List Char) :
    Stops (char :: rest) := by
  intro other same
  cases same
  exact stops

/-- The members of an object with distinct names are those that were listed. -/
theorem ofMembers_of_hasOnce
    {members : List (CodePoints × Json)}
    (once : Assoc.HasOnce members) :
    ofMembers members = .obj members := by
  unfold ofMembers
  rw [Assoc.foldl_put_of_hasOnce [] members once]
  rfl

/-- What starts like a number is read as one. -/
theorem readValue_number
    {first : Char}
    (starts : StartsNumber first)
    (depth : Nat)
    (text : List Char) :
    readValue (depth + 1) (first :: text) = readSimple (first :: text) := by
  rw [readValue]
  · intro later same
    exact absurd (List.cons.inj same).1 (starts.ne rfl (by decide))
  · intro later same
    exact absurd (List.cons.inj same).1 (starts.ne rfl (by decide))
  · intro later same
    exact absurd (List.cons.inj same).1 (starts.ne rfl (by decide))

/-- A list that is not empty has items. -/
theorem readValue_list
    {first : Char}
    (visible : isBlank first = false)
    (notEnd : first ≠ ']')
    (depth : Nat)
    (text : List Char) :
    readValue (depth + 1) ('[' :: first :: text) =
      (readItems depth (first :: text)).map fun taken => (.arr taken.1, taken.2) := by
  rw [readValue, skipBlanks_cons visible]
  split
  next same => exact absurd (List.cons.inj same).1 notEnd
  next =>
      cases readItems depth (first :: text) with
      | ok taken => rfl
      | error fault => rfl

/-- An object that is not empty has members. -/
theorem readValue_object
    (depth : Nat)
    (text : List Char) :
    readValue (depth + 1) ('\x7b' :: '"' :: text) =
      (readMembers depth ('"' :: text)).map fun taken => (ofMembers taken.1, taken.2) := by
  rw [readValue, skipBlanks_cons rfl]
  split
  next same => exact absurd (List.cons.inj same).1 (by decide)
  next =>
      cases readMembers depth ('"' :: text) with
      | ok taken => rfl
      | error fault => rfl

/-- An item may be the last one. -/
theorem readItems_last
    {depth : Nat}
    {text rest : List Char}
    {item : Json}
    (ran : readValue depth text = .ok (item, ']' :: rest)) :
    readItems (depth + 1) text = .ok ([item], rest) := by
  rw [readItems, ran]
  rfl

/-- After an item more items may follow. -/
theorem readItems_more
    {depth : Nat}
    {text rest : List Char}
    {item : Json}
    {first : Char}
    (visible : isBlank first = false)
    (ran : readValue depth text = .ok (item, ',' :: ' ' :: first :: rest)) :
    readItems (depth + 1) text =
      (readItems depth (first :: rest)).map fun taken => (item :: taken.1, taken.2) := by
  have skipped : skipBlanks (' ' :: first :: rest) = first :: rest := skipBlanks_cons visible rest
  rw [readItems, ran]
  simp only [bind, Except.bind, skipBlanks_cons (show isBlank ',' = false from rfl), skipped]
  cases readItems depth (first :: rest) with
  | ok taken => rfl
  | error fault => rfl

/-- A member may be the last one. -/
theorem readMembers_last
    {depth : Nat}
    {name : CodePoints}
    {text rest : List Char}
    {value : Json}
    (whole : name.IsWhole)
    (visible : skipBlanks text = text)
    (ran : readValue depth text = .ok (value, '\x7d' :: rest)) :
    readMembers (depth + 1) (writeText name ++ ':' :: ' ' :: text) =
      .ok ([(name, value)], rest) := by
  have skipped : skipBlanks (' ' :: text) = text := visible
  unfold writeText
  rw [List.cons_append, List.append_assoc, readMembers]
  simp only [List.singleton_append, readText_write whole, bind, Except.bind, skipped, ran,
    skipBlanks_cons (show isBlank ':' = false from rfl),
    skipBlanks_cons (show isBlank '\x7d' = false from rfl)]
  rfl

/-- After a member more members may follow. -/
theorem readMembers_more
    {depth : Nat}
    {name : CodePoints}
    {text rest : List Char}
    {value : Json}
    (whole : name.IsWhole)
    (visible : skipBlanks text = text)
    (ran : readValue depth text = .ok (value, ',' :: ' ' :: '"' :: rest)) :
    readMembers (depth + 1) (writeText name ++ ':' :: ' ' :: text) =
      (readMembers depth ('"' :: rest)).map fun taken =>
        ((name, value) :: taken.1, taken.2) := by
  have skipped : skipBlanks (' ' :: text) = text := visible
  have skippedToo : skipBlanks (' ' :: '"' :: rest) = '"' :: rest := rfl
  unfold writeText
  rw [List.cons_append, List.append_assoc, readMembers]
  simp only [List.singleton_append, readText_write whole, bind, Except.bind, skipped, skippedToo,
    ran, skipBlanks_cons (show isBlank ':' = false from rfl),
    skipBlanks_cons (show isBlank ',' = false from rfl)]
  cases readMembers depth ('"' :: rest) with
  | ok taken => rfl
  | error fault => rfl

theorem length_write_pos
    {value : Json}
    (exact : value.Exact) :
    0 < value.write.length := by
  obtain ⟨first, rest, written, _⟩ := write_eq_cons exact
  rw [written]
  exact Nat.succ_pos _

mutual

/-- A written value is read back, if what follows does not go on with it. -/
theorem readValue_write
    (value : Json)
    (exact : value.Exact)
    {depth : Nat}
    (enough : value.write.length ≤ depth)
    {rest : List Char}
    (stops : Stops rest) :
    readValue depth (value.write ++ rest) = .ok (value, rest) := by
  obtain ⟨depth, rfl⟩ := Nat.exists_eq_succ_of_ne_zero
    (Nat.ne_of_gt (Nat.lt_of_lt_of_le (length_write_pos exact) enough))
  cases value with
  | null => rfl
  | bool truth => cases truth <;> rfl
  | real value => exact exact.elim
  | int value =>
      have few : value.natAbs < Integer.limit := exact
      obtain ⟨first, text, written, starts⟩ := write_int_eq_cons value
      rw [written, List.cons_append, readValue_number starts, ← List.cons_append, ← written,
        readSimple_write_int value stops, if_pos few]
  | str text =>
      rw [write, writeText, List.cons_append, List.append_assoc, List.singleton_append, readValue,
        readText_write exact]
      rfl
  | arr items =>
      cases items with
      | nil => rfl
      | cons item others =>
          obtain ⟨first, text, starts, visible, notEnd⟩ := writeItems_eq_cons exact.1 others
          rw [write, List.length_cons, List.length_append, List.length_singleton] at enough
          have items := readItems_write (item :: others) (List.cons_ne_nil _ _) exact
            (Nat.lt_of_succ_le (Nat.le_of_succ_le_succ enough)) rest
          rw [write, List.cons_append, List.append_assoc, List.singleton_append]
          rw [starts, List.cons_append] at items ⊢
          rw [readValue_list visible notEnd, items]
          rfl
  | obj members =>
      cases members with
      | nil => rfl
      | cons member others =>
          obtain ⟨text, starts⟩ := writeMembers_eq_cons member others
          rw [write, List.length_cons, List.length_append, List.length_singleton] at enough
          have members := readMembers_write (member :: others) (List.cons_ne_nil _ _) exact.2
            (Nat.lt_of_succ_le (Nat.le_of_succ_le_succ enough)) rest
          rw [write, List.cons_append, List.append_assoc, List.singleton_append]
          rw [starts, List.cons_append] at members ⊢
          rw [readValue_object, members, Except.map, ofMembers_of_hasOnce exact.1]

/-- The written items of a list are read back. -/
theorem readItems_write
    (items : List Json)
    (some : items ≠ [])
    (exact : ExactItems items)
    {depth : Nat}
    (enough : (separated (writeItems items)).length < depth)
    (rest : List Char) :
    readItems depth (separated (writeItems items) ++ ']' :: rest) = .ok (items, rest) := by
  obtain ⟨depth, rfl⟩ := Nat.exists_eq_succ_of_ne_zero (Nat.ne_zero_of_lt enough)
  cases items with
  | nil => exact absurd rfl some
  | cons item others =>
      cases others with
      | nil =>
          rw [writeItems, writeItems, separated_single] at enough ⊢
          exact readItems_last (readValue_write item exact.1 (Nat.le_of_lt_succ enough)
            (stops_cons (by decide) rest))
      | cons next others =>
          obtain ⟨first, text, starts, visible, _⟩ := writeItems_eq_cons exact.2.1 others
          rw [separated_writeItems_cons] at enough ⊢
          rw [List.length_append, List.length_cons, List.length_cons] at enough
          have later := readItems_write (next :: others) (List.cons_ne_nil _ _) exact.2
            (show (separated (writeItems (next :: others))).length < depth by omega) rest
          rw [List.append_assoc, List.cons_append, List.cons_append]
          rw [starts, List.cons_append] at later ⊢
          have stops : Stops (',' :: ' ' :: first :: (text ++ ']' :: rest)) :=
            stops_cons (by decide) _
          have here := readValue_write item exact.1 (show item.write.length ≤ depth by omega) stops
          rw [readItems_more visible here, later]
          rfl

/-- The written members of an object are read back. -/
theorem readMembers_write
    (members : List (CodePoints × Json))
    (some : members ≠ [])
    (exact : ExactMembers members)
    {depth : Nat}
    (enough : (separated (writeMembers members)).length < depth)
    (rest : List Char) :
    readMembers depth (separated (writeMembers members) ++ '\x7d' :: rest) =
      .ok (members, rest) := by
  obtain ⟨depth, rfl⟩ := Nat.exists_eq_succ_of_ne_zero (Nat.ne_zero_of_lt enough)
  cases members with
  | nil => exact absurd rfl some
  | cons member others =>
      obtain ⟨name, value⟩ := member
      obtain ⟨whole, exactValue, exactOthers⟩ := exact
      have visible (rest : List Char) := skipBlanks_write exactValue rest
      cases others with
      | nil =>
          rw [writeMembers, writeMembers, separated_single] at enough ⊢
          rw [List.length_append, List.length_cons, List.length_cons] at enough
          have stops : Stops ('\x7d' :: rest) := stops_cons (by decide) rest
          have here := readValue_write value exactValue
            (show value.write.length ≤ depth by omega) stops
          rw [List.append_assoc, List.cons_append, List.cons_append]
          exact readMembers_last whole (visible _) here
      | cons next others =>
          obtain ⟨text, starts⟩ := writeMembers_eq_cons next others
          rw [separated_writeMembers_cons] at enough ⊢
          simp only [List.length_append, List.length_cons] at enough
          have later := readMembers_write (next :: others) (List.cons_ne_nil _ _) exactOthers
            (show (separated (writeMembers (next :: others))).length < depth by omega) rest
          simp only [List.append_assoc, List.cons_append]
          rw [starts, List.cons_append] at later ⊢
          have stops : Stops (',' :: ' ' :: '"' :: (text ++ '\x7d' :: rest)) :=
            stops_cons (by decide) _
          have here := readValue_write value exactValue
            (show value.write.length ≤ depth by omega) stops
          rw [readMembers_more whole (visible _) here, later]
          rfl

end

/-- An exact value is what its text stands for. -/
theorem parse_render
    {value : Json}
    (exact : value.Exact) :
    parse value.render = .ok value := by
  have read := readValue_write value exact
    (show value.write.length ≤ 2 * value.write.length + 2 by omega)
    stops_nil
  have visible := skipBlanks_write exact []
  rw [List.append_nil] at read visible
  unfold parse render
  simp only [String.toList_ofList, visible, read, bind, Except.bind]
  rfl

/-- An integer is what its text stands for if and only if it has not too many digits. -/
theorem parse_render_int_iff
    (value : Int) :
    parse (Json.int value).render = .ok (.int value) ↔ value.natAbs < Integer.limit := by
  constructor
  · intro read
    apply Classical.byContradiction
    intro many
    obtain ⟨first, text, written, starts⟩ := write_int_eq_cons value
    have refused := readSimple_write_int value stops_nil
    rw [if_neg many, List.append_nil, written] at refused
    have failed : parse (Json.int value).render =
        .error (.tooManyDigits (Nat.toDigits 10 value.natAbs).length) := by
      unfold parse render
      rw [String.toList_ofList, written]
      simp only [skipBlanks_cons starts.isBlank_eq_false, readValue_number starts, refused, bind,
        Except.bind]
    rw [failed] at read
    cases read
  · intro few
    exact parse_render few

end Json

end Diverge

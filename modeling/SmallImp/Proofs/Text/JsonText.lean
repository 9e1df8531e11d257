/-
# A written document says itself

What `write` puts out is JSON in plain characters, and by the grammar it says the document that
was written, field for field in the same order.  The pieces come first: four digits say a unit,
an escaped character says the character, the decimal digits of an integer say the integer.
Then a document is read as it is written, item by item, with the text that follows it kept.
-/
import SmallImp.Proofs.Text.JsonGrammar

namespace SmallImp.Json

mutual

/-- What a document says. -/
def datum : Json → Datum
  | .string text => .string text
  | .integer value => .integer value
  | .array items => .array (itemData items)
  | .object fields => .object (fieldData fields)

/-- What the items of an array say. -/
def itemData : List Json → List Datum
  | [] => []
  | item :: items => item.datum :: itemData items

/-- What the fields of an object say. -/
def fieldData : List (String × Json) → List (String × Datum)
  | [] => []
  | (key, value) :: fields => (key, value.datum) :: fieldData fields

end

mutual

/-- **No two documents say the same.** -/
theorem eq_of_datum_eq : (a : Json) → {b : Json} → a.datum = b.datum → a = b
  | .string _, .string _, h => congrArg _ (Datum.string.inj h)
  | .integer _, .integer _, h => congrArg _ (Datum.integer.inj h)
  | .array items, .array _, h => congrArg _ (eq_of_itemData_eq items (Datum.array.inj h))
  | .object fields, .object _, h => congrArg _ (eq_of_fieldData_eq fields (Datum.object.inj h))

theorem eq_of_itemData_eq : (items : List Json) → {items' : List Json} →
    itemData items = itemData items' → items = items'
  | [], [], _ => rfl
  | item :: items, item' :: items', h => by
    obtain ⟨first, rest⟩ := List.cons.inj h
    rw [eq_of_datum_eq item first, eq_of_itemData_eq items rest]

theorem eq_of_fieldData_eq : (fields : List (String × Json)) → {fields' : List (String × Json)} →
    fieldData fields = fieldData fields' → fields = fields'
  | [], [], _ => rfl
  | (key, value) :: fields, (key', value') :: fields', h => by
    obtain ⟨first, rest⟩ := List.cons.inj h
    obtain ⟨rfl, same⟩ := Prod.mk.inj first
    rw [eq_of_datum_eq value same, eq_of_fieldData_eq fields rest]

end

/-- No object in a document names a key twice. -/
inductive Keyed : Json → Prop
  | string (text : String) : Keyed (.string text)
  | integer (value : Int) : Keyed (.integer value)
  | array {items : List Json} (h : ∀ item ∈ items, Keyed item) : Keyed (.array items)
  | object {fields : List (String × Json)} (nodup : (fields.map Prod.fst).Nodup)
      (h : ∀ field ∈ fields, Keyed field.2) : Keyed (.object fields)

/-! ## Characters -/

/-- A line feed or a printable character of ASCII. -/
def IsPlain (c : Char) : Prop := c = '\n' ∨ 0x20 ≤ c.toNat ∧ c.toNat < 0x7f

theorem hexDigit?_digitChar :
    ∀ digit < 16, hexDigit? (Nat.digitChar digit) = some digit := by
  decide

theorem isPlain_digitChar : ∀ digit < 16, IsPlain (Nat.digitChar digit) := by
  unfold IsPlain
  decide

/-- Hexadecimal digits, with zeros in front up to a width. -/
def padded (width n : Nat) : List Char :=
  List.replicate (width - (Nat.toDigits 16 n).length) '0' ++ Nat.toDigits 16 n

theorem padded_one {n : Nat} (h : n < 16) : padded 1 n = [n.digitChar] := by
  simp [padded, Nat.toDigits_of_lt_base h]

/-- The last digit of a number stands last, however wide the others are. -/
theorem padded_succ (width n : Nat) :
    padded (width + 2) n = padded (width + 1) (n / 16) ++ [(n % 16).digitChar] := by
  by_cases h : n < 16
  · have rest : n / 16 = 0 := by omega
    have last : n % 16 = n := by omega
    simp [padded, Nat.toDigits_of_lt_base h, rest, last, Nat.toDigits_zero,
      List.replicate_succ']
  · have longer := Nat.toDigits_of_base_le (b := 16) (n := n) (by decide) (by omega)
    simp [padded, longer]

/-- A unit is written with four digits. -/
theorem escapedUnit_eq {unit : Nat} (h : unit < 0x10000) :
    escapedUnit unit = '\\' :: 'u' :: [(unit / 16 / 16 / 16).digitChar,
      (unit / 16 / 16 % 16).digitChar, (unit / 16 % 16).digitChar, (unit % 16).digitChar] := by
  have digits : escapedUnit unit = '\\' :: 'u' :: padded 4 unit := rfl
  rw [digits, padded_succ, padded_succ, padded_succ, padded_one (by omega)]
  rfl

/-- **Four digits say the unit.** -/
theorem exists_escapedUnit {unit : Nat} (h : unit < 0x10000) :
    ∃ digits, escapedUnit unit = '\\' :: 'u' :: digits ∧ hexUnit? digits = some unit ∧
      ∀ c ∈ digits, IsPlain c := by
  refine ⟨_, escapedUnit_eq h, ?_, ?_⟩
  · rw [hexUnit?, hexDigit?_digitChar _ (by omega), hexDigit?_digitChar _ (by omega),
      hexDigit?_digitChar _ (by omega), hexDigit?_digitChar _ (by omega)]
    show some _ = some _
    congr 1
    omega
  · simp only [List.forall_mem_cons, List.not_mem_nil, false_imp_iff, implies_true, and_true]
    exact ⟨isPlain_digitChar _ (by omega), isPlain_digitChar _ (by omega),
      isPlain_digitChar _ (by omega), isPlain_digitChar _ (by omega)⟩

theorem isPlain_escapedUnit {unit : Nat} (h : unit < 0x10000) :
    ∀ c ∈ escapedUnit unit, IsPlain c := by
  obtain ⟨digits, written, -, plain⟩ := exists_escapedUnit h
  rw [written]
  exact List.forall_mem_cons.2 ⟨.inr (by decide), List.forall_mem_cons.2 ⟨.inr (by decide), plain⟩⟩

theorem toNat_cases (c : Char) :
    c.toNat < 0xd800 ∨ 0xdfff < c.toNat ∧ c.toNat < 0x110000 :=
  c.valid

/-- No character is half of one. -/
theorem not_half (c : Char) : ¬ IsHigh c.toNat ∧ ¬ IsLow c.toNat := by
  have valid := toNat_cases c
  constructor <;> rintro ⟨low, high⟩ <;> omega

/-- **An escaped character says the character.** -/
theorem letter_escapedChar (c : Char) : Letter (escapedChar c) c := by
  unfold escapedChar
  split_ifs with quote slash feed back tab form bell plain small
  all_goals try subst c
  · exact .escape (.short (by decide))
  · exact .escape (.short (by decide))
  · exact .escape (.short (by decide))
  · exact .escape (.short (by decide))
  · exact .escape (.short (by decide))
  · exact .escape (.short (by decide))
  · exact .escape (.short (by decide))
  · exact .plain plain.1 quote slash
  · obtain ⟨digits, written, meant, -⟩ := exists_escapedUnit small
    rw [written]
    have letter := Letter.escape (.unit meant (not_half c).1 (not_half c).2)
    rwa [Char.ofNat_toNat] at letter
  · have bound := toNat_cases c
    have first : 0xd800 + (c.toNat - 0x10000) / 0x400 < 0xdc00 := by omega
    have second : 0xdc00 + (c.toNat - 0x10000) % 0x400 < 0xe000 := by omega
    obtain ⟨digits, written, meant, -⟩ := exists_escapedUnit (first.trans (by decide))
    obtain ⟨digits', written', meant', -⟩ := exists_escapedUnit (second.trans (by decide))
    have letter := Letter.escape (.pair meant meant' ⟨by omega, first⟩ ⟨by omega, second⟩)
    have whole : 0x10000 + 0x400 * (0xd800 + (c.toNat - 0x10000) / 0x400 - 0xd800)
        + (0xdc00 + (c.toNat - 0x10000) % 0x400 - 0xdc00) = c.toNat := by omega
    rw [whole, Char.ofNat_toNat] at letter
    simpa [written, written'] using letter

theorem isPlain_escapedChar (c : Char) : ∀ d ∈ escapedChar c, IsPlain d := by
  have escaped (code : Char) (h : IsPlain code) : ∀ d ∈ ['\\', code], IsPlain d :=
    List.forall_mem_cons.2 ⟨.inr (by decide), List.forall_mem_singleton.2 h⟩
  unfold escapedChar
  split_ifs with _ _ _ _ _ _ _ plain small
  · exact escaped _ (.inr (by decide))
  · exact escaped _ (.inr (by decide))
  · exact escaped _ (.inr (by decide))
  · exact escaped _ (.inr (by decide))
  · exact escaped _ (.inr (by decide))
  · exact escaped _ (.inr (by decide))
  · exact escaped _ (.inr (by decide))
  · exact List.forall_mem_singleton.2 (.inr plain)
  · exact isPlain_escapedUnit small
  · have bound := toNat_cases c
    exact List.forall_mem_append.2
      ⟨isPlain_escapedUnit (by omega), isPlain_escapedUnit (by omega)⟩

/-- **A quoted text says the text.** -/
theorem readsString_flatMap (text rest : List Char) :
    ReadsString (text.flatMap escapedChar ++ '"' :: rest) text rest := by
  induction text with
  | nil => exact .close
  | cons c text ih => exact .letter (letter_escapedChar c) ih (by simp)

theorem quoted_append (text : String) (rest : List Char) :
    quoted text ++ rest = '"' :: (text.toList.flatMap escapedChar ++ '"' :: rest) := by
  simp [quoted]

/-! ## Integers -/

/-- Decimal digits start with a zero only for zero. -/
theorem head_toDigits (n : Nat) (h : (Nat.toDigits 10 n).head? = some '0') :
    n = 0 := by
  induction n using Nat.strongRecOn with
  | ind n ih =>
    by_cases small : n < 10
    · rw [Nat.toDigits_of_lt_base small] at h
      exact Nat.digitChar_eq_zero.1 (Option.some.inj h)
    · obtain ⟨c, more, front⟩ := List.exists_cons_of_ne_nil
        (Nat.toDigits_ne_nil (n := n / 10) (b := 10))
      rw [Nat.toDigits_of_base_le (by decide) (by omega), front] at h
      have := ih (n / 10) (by omega) (by rw [front]; exact h)
      omega

theorem whole_toDigits (n : Nat) : Whole (Nat.toDigits 10 n) where
  ne_nil := Nat.toDigits_ne_nil
  digit _ := Nat.isDigit_of_mem_toDigits (by decide) (by decide)
  zero h := by rw [head_toDigits n h, Nat.toDigits_zero]

/-- **The decimal digits of an integer say the integer.** -/
theorem word_decimal (value : Int) : Word (decimal value) (.integer value) := by
  have word := Word.number (decide (value < 0)) (whole_toDigits value.natAbs) IsTail.nil
  have meant : signed (decide (value < 0)) (Nat.toDigits 10 value.natAbs) = value := by
    simp only [signed, Nat.ofDigitChars_ten_toDigits, decide_eq_true_eq]
    split_ifs <;> omega
  simpa [decimal, sign, numeric, meant] using word

theorem isPlain_of_isDigit {c : Char} (h : c.isDigit) : IsPlain c := by
  simp only [Char.isDigit, Bool.and_eq_true, decide_eq_true_eq, ge_iff_le,
    UInt32.le_iff_toNat_le] at h
  exact .inr ⟨le_trans (by decide) h.1, lt_of_le_of_lt h.2 (by decide)⟩

theorem isPlain_decimal (value : Int) : ∀ c ∈ decimal value, IsPlain c := by
  refine List.forall_mem_append.2 ⟨?_, ?_⟩
  · split_ifs
    · exact List.forall_mem_singleton.2 (.inr (by decide))
    · simp
  · intro c hc
    exact isPlain_of_isDigit ((whole_toDigits _).digit c hc)

/-! ## Documents -/

theorem skip_cons {c : Char} (h : isSpace c = false) (text : List Char) :
    skip (c :: text) = c :: text := by
  simp [skip, h]

theorem isSpace_of_isWordChar {c : Char} (h : isWordChar c) : isSpace c = false := by
  by_contra space
  simp only [isSpace, Bool.not_eq_false, Bool.or_eq_true, beq_iff_eq] at space
  rcases space with ((rfl | rfl) | rfl) | rfl <;> simp [isWordChar] at h

/-- What starts a line is space. -/
theorem skip_line (level : Nat) (text : List Char) : skip (line level ++ text) = skip text := by
  have space : ∀ c ∈ line level, isSpace c := by
    intro c hc
    rcases List.mem_cons.1 hc with rfl | hc
    · rfl
    · rw [List.eq_of_mem_replicate hc]
      rfl
  exact List.dropWhile_append_of_pos space

/-- A document starts with a character that is no space. -/
theorem skip_write (level : Nat) (document : Json) (rest : List Char) :
    skip (document.write level rest) = document.write level rest := by
  match document with
  | .string text => exact skip_cons rfl _
  | .integer value =>
    have word := word_decimal value
    obtain ⟨c, more, written⟩ := List.exists_cons_of_ne_nil word.ne_nil
    have wordChar : isWordChar c := word.wordChars c (by simp [written])
    rw [write, written]
    exact skip_cons (isSpace_of_isWordChar wordChar) _
  | .array [] => exact skip_cons rfl _
  | .array (_ :: _) => exact skip_cons rfl _
  | .object [] => exact skip_cons rfl _
  | .object (_ :: _) => exact skip_cons rfl _

/-- **A key and its value are read as they are written**, if the value is. -/
theorem readsField_label {text rest : List Char} {datum : Datum} (key : String)
    (value : Reads (skip text) datum rest) :
    ReadsField (skip (label key ++ text)) (key, datum) rest := by
  have written : label key ++ text =
      '"' :: (key.toList.flatMap escapedChar ++ '"' :: ':' :: ' ' :: text) := by
    simp [label, quoted]
  rw [written, skip_cons rfl]
  have field := ReadsField.mk (readsString_flatMap key.toList _) (skip_cons rfl _)
    (show Reads (skip (' ' :: text)) datum rest from value)
  rwa [String.ofList_toList] at field

mutual

/-- **A document is read as it is written.** -/
theorem reads_write (level : Nat) : (document : Json) → (rest : List Char) →
    Reads (document.write level rest) document.datum rest
  | .string text, rest => by
    rw [write, quoted_append]
    have reads := Reads.string (readsString_flatMap text.toList rest)
    rwa [String.ofList_toList] at reads
  | .integer value, rest => .word (word_decimal value) rfl
  | .array [], rest => .emptyArray (skip_cons rfl rest)
  | .array (item :: items), rest => by
    refine .array ?_ (readsItems_writeItems level (level + 1) items rest)
    rw [skip_line, skip_write]
    exact reads_write (level + 1) item _
  | .object [], rest => .emptyObject (skip_cons rfl rest)
  | .object ((key, value) :: fields), rest => by
    refine .object ?_ (readsFields_writeFields level (level + 1) fields rest)
    rw [skip_line]
    refine readsField_label key ?_
    rw [skip_write]
    exact reads_write (level + 1) value _

theorem readsItems_writeItems (outer level : Nat) : (items : List Json) → (rest : List Char) →
    ReadsItems (skip (writeItems level items (line outer ++ ']' :: rest))) (itemData items) rest
  | [], rest => by
    rw [writeItems, skip_line, skip_cons rfl]
    exact .close
  | item :: items, rest => by
    rw [writeItems, skip_cons rfl]
    refine .more ?_ (readsItems_writeItems outer level items rest)
    rw [skip_line, skip_write]
    exact reads_write level item _

theorem readsFields_writeFields (outer level : Nat) :
    (fields : List (String × Json)) → (rest : List Char) →
      ReadsFields (skip (writeFields level fields (line outer ++ '\x7d' :: rest)))
        (fieldData fields) rest
  | [], rest => by
    rw [writeFields, skip_line, skip_cons rfl]
    exact .close
  | (key, value) :: fields, rest => by
    rw [writeFields, skip_cons rfl]
    refine .more ?_ (readsFields_writeFields outer level fields rest)
    rw [skip_line]
    refine readsField_label key ?_
    rw [skip_write]
    exact reads_write level value _

end

/-- **The text of a document says the document, and nothing else.** -/
theorem means_text_iff (document : Json) (datum : Datum) :
    Means document.text datum ↔ datum = document.datum := by
  have meant : Means document.text document.datum := by
    refine ⟨[], ?_, rfl⟩
    rw [text, String.toList_ofList, skip_write]
    exact reads_write 0 document []
  constructor
  · intro other
    exact other.unique meant
  · rintro rfl
    exact meant

/-! ## Plain characters -/

theorem isPlain_line (level : Nat) : ∀ c ∈ line level, IsPlain c := by
  intro c hc
  rcases List.mem_cons.1 hc with rfl | hc
  · exact .inl rfl
  · rw [List.eq_of_mem_replicate hc]
    exact .inr (by decide)

theorem isPlain_quoted (text : String) : ∀ c ∈ quoted text, IsPlain c := by
  have quote : IsPlain '"' := .inr (by decide)
  refine List.forall_mem_cons.2 ⟨quote, List.forall_mem_append.2
    ⟨?_, List.forall_mem_singleton.2 quote⟩⟩
  intro d hd
  obtain ⟨c, -, hd⟩ := List.mem_flatMap.1 hd
  exact isPlain_escapedChar c d hd

theorem isPlain_label (key : String) : ∀ c ∈ label key, IsPlain c :=
  List.forall_mem_append.2 ⟨isPlain_quoted key, List.forall_mem_cons.2
    ⟨.inr (by decide), List.forall_mem_singleton.2 (.inr (by decide))⟩⟩

/-- A line of one character. -/
theorem isPlain_line_append {c : Char} (h : IsPlain c) (level : Nat) {rest : List Char}
    (after : ∀ d ∈ rest, IsPlain d) : ∀ d ∈ line level ++ c :: rest, IsPlain d :=
  List.forall_mem_append.2 ⟨isPlain_line level, List.forall_mem_cons.2 ⟨h, after⟩⟩

/-- A character, the start of a line and what stands on it. -/
theorem isPlain_append_line {c : Char} (h : IsPlain c) (level : Nat) {text : List Char}
    (onLine : ∀ d ∈ text, IsPlain d) : ∀ d ∈ c :: (line level ++ text), IsPlain d :=
  List.forall_mem_cons.2 ⟨h, List.forall_mem_append.2 ⟨isPlain_line level, onLine⟩⟩

mutual

/-- **A document is written in plain characters.** -/
theorem isPlain_write (level : Nat) : (document : Json) → {rest : List Char} →
    (∀ c ∈ rest, IsPlain c) → ∀ c ∈ document.write level rest, IsPlain c
  | .string text, _, after => List.forall_mem_append.2 ⟨isPlain_quoted text, after⟩
  | .integer value, _, after => List.forall_mem_append.2 ⟨isPlain_decimal value, after⟩
  | .array [], _, after =>
    List.forall_mem_cons.2 ⟨.inr (by decide), List.forall_mem_cons.2 ⟨.inr (by decide), after⟩⟩
  | .array (item :: items), _, after => by
    have closed := isPlain_line_append (c := ']') (.inr (by decide)) level after
    have others := isPlain_writeItems (level + 1) items closed
    have first := isPlain_write (level + 1) item others
    exact isPlain_append_line (.inr (by decide)) (level + 1) first
  | .object [], _, after =>
    List.forall_mem_cons.2 ⟨.inr (by decide), List.forall_mem_cons.2 ⟨.inr (by decide), after⟩⟩
  | .object ((key, value) :: fields), _, after => by
    have closed := isPlain_line_append (c := '\x7d') (.inr (by decide)) level after
    have others := isPlain_writeFields (level + 1) fields closed
    have first := isPlain_write (level + 1) value others
    exact isPlain_append_line (.inr (by decide)) (level + 1)
      (List.forall_mem_append.2 ⟨isPlain_label key, first⟩)

theorem isPlain_writeItems (level : Nat) : (items : List Json) → {rest : List Char} →
    (∀ c ∈ rest, IsPlain c) → ∀ c ∈ writeItems level items rest, IsPlain c
  | [], _, after => after
  | item :: items, _, after => by
    have others := isPlain_writeItems level items after
    have next := isPlain_write level item others
    exact isPlain_append_line (.inr (by decide)) level next

theorem isPlain_writeFields (level : Nat) : (fields : List (String × Json)) →
    {rest : List Char} → (∀ c ∈ rest, IsPlain c) →
      ∀ c ∈ writeFields level fields rest, IsPlain c
  | [], _, after => after
  | (key, value) :: fields, _, after => by
    have others := isPlain_writeFields level fields after
    have next := isPlain_write level value others
    exact isPlain_append_line (.inr (by decide)) level
      (List.forall_mem_append.2 ⟨isPlain_label key, next⟩)

end

theorem isPlain_text (document : Json) : ∀ c ∈ document.text.toList, IsPlain c := by
  rw [text, String.toList_ofList]
  exact isPlain_write 0 document (by simp)

end SmallImp.Json

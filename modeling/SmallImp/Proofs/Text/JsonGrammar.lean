/-
# What a JSON text says

The grammar of JSON texts, with all that a text may hold: the three literals, numbers with a
fraction and an exponent, both ways to escape a character, and space between any two tokens.
What a text says is a `Datum`; the fields of an object keep their order in it.

The rules keep the rest of the text: `Reads text datum rest` says that a piece at the front of
`text` says `datum` and that `rest` comes after it.  **A text says at most one thing**
(`Means.unique`).  Only words, which are literals and numbers, do not show where they end; so
what comes after a word must not go on with a character of words (`Ended`), and it never does
where the grammar puts a value.
-/
import Mathlib.Data.List.TakeWhile
import SmallImp.Text.Json

namespace SmallImp.Json

/-- What a JSON text says.  A number with a fraction or an exponent stays as it is written. -/
inductive Datum where
  | null
  | bool (value : Bool)
  | integer (value : Int)
  | fractional (lexeme : List Char)
  | string (text : String)
  | array (items : List Datum)
  | object (fields : List (String × Datum))

/-! ## Words -/

/-- The digits of a whole number: no zero stands before another digit. -/
structure Whole (digits : List Char) : Prop where
  ne_nil : digits ≠ []
  digit : ∀ c ∈ digits, c.isDigit
  zero : digits.head? = some '0' → digits = ['0']

/-- A fraction: a point and digits. -/
def IsFraction (text : List Char) : Prop :=
  ∃ digits, digits ≠ [] ∧ (∀ c ∈ digits, c.isDigit) ∧ text = '.' :: digits

/-- An exponent: its mark, perhaps a sign, and digits. -/
def IsExponent (text : List Char) : Prop :=
  ∃ mark ∈ ['e', 'E'], ∃ sign ∈ [[], ['+'], ['-']], ∃ digits, digits ≠ [] ∧
    (∀ c ∈ digits, c.isDigit) ∧ text = mark :: (sign ++ digits)

/-- What may come after the whole part of a number. -/
def IsTail (text : List Char) : Prop :=
  ∃ fraction exponent, (fraction = [] ∨ IsFraction fraction) ∧
    (exponent = [] ∨ IsExponent exponent) ∧ text = fraction ++ exponent

/-- The sign of a number. -/
def sign (negative : Bool) : List Char := if negative then ['-'] else []

/-- A whole number with its sign. -/
def signed (negative : Bool) (digits : List Char) : Int :=
  if negative then -Nat.ofDigitChars 10 digits 0 else Nat.ofDigitChars 10 digits 0

/-- What a number says: an integer, unless something comes after its whole part. -/
def numeric (negative : Bool) (digits tail : List Char) : Datum :=
  if tail = [] then .integer (signed negative digits)
  else .fractional (sign negative ++ (digits ++ tail))

/-- The literals. -/
def literals : List (List Char × Datum) :=
  [(['n', 'u', 'l', 'l'], .null), (['t', 'r', 'u', 'e'], .bool true),
   (['f', 'a', 'l', 's', 'e'], .bool false)]

/-- A word: a literal or a number. -/
inductive Word : List Char → Datum → Prop
  | literal {lexeme : List Char} {datum : Datum} (h : (lexeme, datum) ∈ literals) :
    Word lexeme datum
  | number (negative : Bool) {digits tail : List Char} (h : Whole digits) (h' : IsTail tail) :
    Word (sign negative ++ (digits ++ tail)) (numeric negative digits tail)

/-! ## Strings -/

/-- The escapes of one letter, each with the character it stands for. -/
def shortEscapes : List (Char × Char) :=
  [('"', '"'), ('\\', '\\'), ('/', '/'), ('b', '\x08'), ('f', '\x0c'), ('n', '\n'),
   ('r', '\r'), ('t', '\t')]

/-- The value of a hexadecimal digit. -/
def hexDigit? (c : Char) : Option Nat :=
  if '0' ≤ c ∧ c ≤ '9' then some (c.toNat - '0'.toNat)
  else if 'a' ≤ c ∧ c ≤ 'f' then some (c.toNat - 'a'.toNat + 10)
  else if 'A' ≤ c ∧ c ≤ 'F' then some (c.toNat - 'A'.toNat + 10)
  else none

/-- The unit of sixteen bits that four hexadecimal digits write. -/
def hexUnit? : List Char → Option Nat
  | [a, b, c, d] => do
    return 0x1000 * (← hexDigit? a) + 0x100 * (← hexDigit? b) + 0x10 * (← hexDigit? c)
      + (← hexDigit? d)
  | _ => none

/-- The first half of a character above `U+FFFF`. -/
def IsHigh (unit : Nat) : Prop := 0xd800 ≤ unit ∧ unit < 0xdc00

/-- The second half of a character above `U+FFFF`. -/
def IsLow (unit : Nat) : Prop := 0xdc00 ≤ unit ∧ unit < 0xe000

/-- What an escape writes after its backslash, and the character it stands for. -/
inductive Escape : List Char → Char → Prop
  | short {code c : Char} (h : (code, c) ∈ shortEscapes) : Escape [code] c
  | unit {digits : List Char} {unit : Nat} (h : hexUnit? digits = some unit)
      (high : ¬ IsHigh unit) (low : ¬ IsLow unit) : Escape ('u' :: digits) (Char.ofNat unit)
  | pair {digits digits' : List Char} {unit unit' : Nat} (h : hexUnit? digits = some unit)
      (h' : hexUnit? digits' = some unit') (high : IsHigh unit) (low : IsLow unit') :
    Escape ('u' :: (digits ++ '\\' :: 'u' :: digits'))
      (Char.ofNat (0x10000 + 0x400 * (unit - 0xd800) + (unit' - 0xdc00)))

/-- A character of a string, as it stands or escaped. -/
inductive Letter : List Char → Char → Prop
  | plain {c : Char} (h : 0x20 ≤ c.toNat) (quote : c ≠ '"') (slash : c ≠ '\\') : Letter [c] c
  | escape {code : List Char} {c : Char} (h : Escape code c) : Letter ('\\' :: code) c

/-- A string after its first quote, in front of more text. -/
inductive ReadsString : List Char → List Char → List Char → Prop
  | close {rest : List Char} : ReadsString ('"' :: rest) [] rest
  | letter {piece text whole rest cs : List Char} {c : Char} (first : Letter piece c)
      (others : ReadsString text cs rest) (spelled : whole = piece ++ text) :
    ReadsString whole (c :: cs) rest

/-! ## Texts -/

/-- The characters that may stand between two tokens. -/
def isSpace (c : Char) : Bool := c == ' ' || c == '\t' || c == '\n' || c == '\r'

/-- A text without the space in front. -/
def skip (text : List Char) : List Char := text.dropWhile isSpace

mutual

/-- A value at the front of a text, and what comes after it. -/
inductive Reads : List Char → Datum → List Char → Prop
  | word {lexeme text rest : List Char} {datum : Datum} (h : Word lexeme datum)
      (spelled : text = lexeme ++ rest) : Reads text datum rest
  | string {text cs rest : List Char} (h : ReadsString text cs rest) :
    Reads ('"' :: text) (.string (String.ofList cs)) rest
  | emptyArray {text rest : List Char} (close : skip text = ']' :: rest) :
    Reads ('[' :: text) (.array []) rest
  | array {text more rest : List Char} {item : Datum} {items : List Datum}
      (first : Reads (skip text) item more) (others : ReadsItems (skip more) items rest) :
    Reads ('[' :: text) (.array (item :: items)) rest
  | emptyObject {text rest : List Char} (close : skip text = '\x7d' :: rest) :
    Reads ('\x7b' :: text) (.object []) rest
  | object {text more rest : List Char} {field : String × Datum}
      {fields : List (String × Datum)} (first : ReadsField (skip text) field more)
      (others : ReadsFields (skip more) fields rest) :
    Reads ('\x7b' :: text) (.object (field :: fields)) rest

/-- The items after the first, up to the end of the array. -/
inductive ReadsItems : List Char → List Datum → List Char → Prop
  | close {rest : List Char} : ReadsItems (']' :: rest) [] rest
  | more {text more rest : List Char} {item : Datum} {items : List Datum}
      (next : Reads (skip text) item more) (others : ReadsItems (skip more) items rest) :
    ReadsItems (',' :: text) (item :: items) rest

/-- A key and its value. -/
inductive ReadsField : List Char → String × Datum → List Char → Prop
  | mk {text more after rest key : List Char} {datum : Datum}
      (label : ReadsString text key more) (colon : skip more = ':' :: after)
      (value : Reads (skip after) datum rest) :
    ReadsField ('"' :: text) (String.ofList key, datum) rest

/-- The fields after the first, up to the end of the object. -/
inductive ReadsFields : List Char → List (String × Datum) → List Char → Prop
  | close {rest : List Char} : ReadsFields ('\x7d' :: rest) [] rest
  | more {text more rest : List Char} {field : String × Datum}
      {fields : List (String × Datum)} (next : ReadsField (skip text) field more)
      (others : ReadsFields (skip more) fields rest) :
    ReadsFields (',' :: text) (field :: fields) rest

end

/-- What a whole text says: one value, with space before and after it. -/
def Means (text : String) (datum : Datum) : Prop :=
  ∃ rest, Reads (skip text.toList) datum rest ∧ skip rest = []

/-! ## Words end where they must -/

/-- The characters of words: digits, what goes with them in numbers, and the letters of the
literals. -/
def isWordChar (c : Char) : Bool :=
  c.isDigit || c ∈ ['-', '+', '.', 'E', 'a', 'e', 'f', 'l', 'n', 'r', 's', 't', 'u']

/-- Nothing in front goes on with a word. -/
def Ended (rest : List Char) : Prop := ∀ c ∈ rest.head?, isWordChar c = false

theorem IsTail.nil : IsTail [] := ⟨[], [], .inl rfl, .inl rfl, rfl⟩

theorem wordChars_of_isDigit {digits : List Char} (h : ∀ c ∈ digits, c.isDigit) :
    ∀ c ∈ digits, isWordChar c := by
  intro c hc
  simp [isWordChar, h c hc]

theorem IsFraction.wordChars {text : List Char} (h : IsFraction text) :
    ∀ c ∈ text, isWordChar c := by
  obtain ⟨digits, -, digit, rfl⟩ := h
  exact List.forall_mem_cons.2 ⟨rfl, wordChars_of_isDigit digit⟩

theorem IsExponent.wordChars {text : List Char} (h : IsExponent text) :
    ∀ c ∈ text, isWordChar c := by
  obtain ⟨mark, hm, sign, hs, digits, -, digit, rfl⟩ := h
  simp only [List.mem_cons, List.not_mem_nil, or_false] at hm hs
  have marked : isWordChar mark := by rcases hm with rfl | rfl <;> rfl
  have signed : ∀ c ∈ sign, isWordChar c := by
    rcases hs with rfl | rfl | rfl <;> simp [isWordChar]
  exact List.forall_mem_cons.2
    ⟨marked, List.forall_mem_append.2 ⟨signed, wordChars_of_isDigit digit⟩⟩

theorem IsTail.wordChars {tail : List Char} (h : IsTail tail) :
    ∀ c ∈ tail, isWordChar c := by
  obtain ⟨fraction, exponent, hf, he, rfl⟩ := h
  refine List.forall_mem_append.2 ⟨?_, ?_⟩
  · rcases hf with rfl | hf
    · simp
    · exact hf.wordChars
  · rcases he with rfl | he
    · simp
    · exact he.wordChars

/-- What comes after the whole part of a number does not start with a digit. -/
theorem IsTail.head {tail : List Char} (h : IsTail tail) :
    ∀ c ∈ tail.head?, c.isDigit = false := by
  obtain ⟨fraction, exponent, hf, he, rfl⟩ := h
  rcases hf with rfl | ⟨digits, -, -, rfl⟩
  · rcases he with rfl | ⟨mark, hm, sign, -, digits, -, -, rfl⟩
    · simp
    · simp only [List.mem_cons, List.not_mem_nil, or_false] at hm
      rcases hm with rfl | rfl <;> simp
  · simp

theorem isWordChar_sign (negative : Bool) : ∀ c ∈ sign negative, isWordChar c := by
  cases negative <;> simp [sign, isWordChar]

theorem Word.wordChars {lexeme : List Char} {datum : Datum} (h : Word lexeme datum) :
    ∀ c ∈ lexeme, isWordChar c := by
  cases h with
  | literal h =>
    simp only [literals, List.mem_cons, Prod.mk.injEq, List.not_mem_nil, or_false] at h
    rcases h with ⟨rfl, -⟩ | ⟨rfl, -⟩ | ⟨rfl, -⟩ <;> exact List.all_eq_true.1 rfl
  | number negative h h' =>
    have whole := wordChars_of_isDigit h.digit
    exact List.forall_mem_append.2
      ⟨isWordChar_sign negative, List.forall_mem_append.2 ⟨whole, h'.wordChars⟩⟩

theorem Word.ne_nil {lexeme : List Char} {datum : Datum} (h : Word lexeme datum) :
    lexeme ≠ [] := by
  cases h with
  | literal h =>
    simp only [literals, List.mem_cons, Prod.mk.injEq, List.not_mem_nil, or_false] at h
    rcases h with ⟨rfl, -⟩ | ⟨rfl, -⟩ | ⟨rfl, -⟩ <;> simp
  | number negative h => simp [h.ne_nil]

/-- A piece of `p`-characters is all of them where no other follows. -/
theorem takeWhile_append_of_head {p : Char → Bool} {piece rest : List Char}
    (h : ∀ c ∈ piece, p c) (h' : ∀ c ∈ rest.head?, p c = false) :
    (piece ++ rest).takeWhile p = piece := by
  rw [List.takeWhile_append_of_pos h]
  cases rest with
  | nil => simp
  | cons c rest => simp [h' c (by simp)]

/-- Two ways to end a piece of `p`-characters are one. -/
theorem append_inj_of_head {p : Char → Bool} {piece piece' rest rest' : List Char}
    (h : ∀ c ∈ piece, p c) (h' : ∀ c ∈ piece', p c) (e : ∀ c ∈ rest.head?, p c = false)
    (e' : ∀ c ∈ rest'.head?, p c = false) (same : piece ++ rest = piece' ++ rest') :
    piece = piece' ∧ rest = rest' := by
  have front : piece = piece' := by
    rw [← takeWhile_append_of_head h e, same, takeWhile_append_of_head h' e']
  subst front
  exact ⟨rfl, List.append_cancel_left same⟩

/-- The sign and the rest of a number are told apart by the first character. -/
theorem sign_append_inj {negative negative' : Bool} {text text' : List Char}
    (h : text.head? ≠ some '-') (h' : text'.head? ≠ some '-')
    (same : sign negative ++ text = sign negative' ++ text') :
    negative = negative' ∧ text = text' := by
  cases negative with
  | true =>
    cases negative' with
    | true => exact ⟨rfl, List.append_cancel_left same⟩
    | false => exact absurd (congrArg List.head? same).symm h'
  | false =>
    cases negative' with
    | true => exact absurd (congrArg List.head? same) h
    | false => exact ⟨rfl, same⟩

theorem Whole.head {digits : List Char} (h : Whole digits) (tail : List Char) :
    ∃ c more, digits ++ tail = c :: more ∧ c.isDigit := by
  cases digits with
  | nil => exact absurd rfl h.ne_nil
  | cons c digits => exact ⟨c, digits ++ tail, rfl, h.digit c (by simp)⟩

theorem literals_unique {lexeme : List Char} {datum datum' : Datum}
    (h : (lexeme, datum) ∈ literals) (h' : (lexeme, datum') ∈ literals) : datum = datum' := by
  simp only [literals, List.mem_cons, Prod.mk.injEq, List.not_mem_nil, or_false] at h h'
  rcases h with ⟨rfl, rfl⟩ | ⟨rfl, rfl⟩ | ⟨rfl, rfl⟩ <;> simp_all

/-- No literal starts as a number does. -/
theorem not_literal_of_whole {negative : Bool} {digits tail : List Char} {datum : Datum}
    (h : Whole digits) : (sign negative ++ (digits ++ tail), datum) ∉ literals := by
  obtain ⟨c, more, same, hc⟩ := h.head tail
  rw [same]
  intro hl
  simp only [literals, List.mem_cons, Prod.mk.injEq, List.not_mem_nil, or_false] at hl
  cases negative with
  | true => simp [sign] at hl
  | false =>
    rcases hl with ⟨hl, -⟩ | ⟨hl, -⟩ | ⟨hl, -⟩ <;>
      · obtain ⟨rfl, -⟩ := List.cons.inj hl
        simp at hc

/-- The parts of a number are settled by its text. -/
theorem number_inj {negative negative' : Bool} {digits digits' tail tail' : List Char}
    (h : Whole digits) (h' : Whole digits') (t : IsTail tail) (t' : IsTail tail')
    (same : sign negative ++ (digits ++ tail) = sign negative' ++ (digits' ++ tail')) :
    negative = negative' ∧ digits = digits' ∧ tail = tail' := by
  have head {digits tail : List Char} (h : Whole digits) :
      (digits ++ tail).head? ≠ some '-' := by
    obtain ⟨c, more, same, hc⟩ := h.head tail
    rw [same]
    rintro ⟨⟩
    simp at hc
  obtain ⟨rfl, unsigned⟩ := sign_append_inj (head h) (head h') same
  exact ⟨rfl, append_inj_of_head h.digit h'.digit t.head t'.head unsigned⟩

theorem Word.unique {lexeme : List Char} {datum datum' : Datum} (h : Word lexeme datum)
    (h' : Word lexeme datum') : datum = datum' := by
  generalize same : lexeme = lexeme' at h'
  cases h with
  | literal h =>
    subst same
    cases h' with
    | literal h' => exact literals_unique h h'
    | number _ whole' => exact absurd h (not_literal_of_whole whole')
  | number negative whole tail =>
    cases h' with
    | literal h' =>
      subst same
      exact absurd h' (not_literal_of_whole whole)
    | number negative' whole' tail' =>
      obtain ⟨rfl, rfl, rfl⟩ := number_inj whole whole' tail tail' same
      rfl

/-- **One word at the front of a text**, where nothing goes on with it. -/
theorem Word.unique_of_ended {lexeme lexeme' rest rest' : List Char} {datum datum' : Datum}
    (h : Word lexeme datum) (h' : Word lexeme' datum') (ended : Ended rest)
    (ended' : Ended rest') (same : lexeme ++ rest = lexeme' ++ rest') :
    datum = datum' ∧ rest = rest' := by
  obtain ⟨rfl, rfl⟩ := append_inj_of_head h.wordChars h'.wordChars ended ended' same
  exact ⟨h.unique h', rfl⟩

/-! ## Strings are read in one way -/

theorem length_of_hexUnit? {digits : List Char} {unit : Nat} (h : hexUnit? digits = some unit) :
    digits.length = 4 := by
  unfold hexUnit? at h
  split at h
  · rfl
  · simp at h

/-- The digits of a unit end where the unit does. -/
theorem hexUnit?_inj {digits digits' rest rest' : List Char} {unit unit' : Nat}
    (h : hexUnit? digits = some unit) (h' : hexUnit? digits' = some unit')
    (same : digits ++ rest = digits' ++ rest') : unit = unit' ∧ rest = rest' := by
  have length : digits.length = digits'.length := by
    rw [length_of_hexUnit? h, length_of_hexUnit? h']
  obtain ⟨rfl, rfl⟩ := List.append_inj same length
  rw [h] at h'
  exact ⟨Option.some.inj h', rfl⟩

theorem shortEscapes_unique {code c d : Char} (h : (code, c) ∈ shortEscapes)
    (h' : (code, d) ∈ shortEscapes) : c = d := by
  simp only [shortEscapes, List.mem_cons, Prod.mk.injEq, List.not_mem_nil, or_false] at h h'
  rcases h with ⟨rfl, rfl⟩ | ⟨rfl, rfl⟩ | ⟨rfl, rfl⟩ | ⟨rfl, rfl⟩ | ⟨rfl, rfl⟩ | ⟨rfl, rfl⟩ |
    ⟨rfl, rfl⟩ | ⟨rfl, rfl⟩ <;> simp_all

/-- The letter of a short escape is not that of a unit. -/
theorem ne_of_mem_shortEscapes {code c : Char} (h : (code, c) ∈ shortEscapes) : code ≠ 'u' := by
  rintro rfl
  simp [shortEscapes] at h

theorem Escape.unique {code code' rest rest' : List Char} {c d : Char} (h : Escape code c)
    (h' : Escape code' d) (same : code ++ rest = code' ++ rest') : c = d ∧ rest = rest' := by
  cases h with
  | short mem =>
    cases h' with
    | short mem' =>
      obtain ⟨rfl, rfl⟩ := List.cons.inj same
      exact ⟨shortEscapes_unique mem mem', rfl⟩
    | unit => exact absurd (List.cons.inj same).1 (ne_of_mem_shortEscapes mem)
    | pair => exact absurd (List.cons.inj same).1 (ne_of_mem_shortEscapes mem)
  | unit unit high =>
    cases h' with
    | short mem' => exact absurd (List.cons.inj same).1.symm (ne_of_mem_shortEscapes mem')
    | unit unit' =>
      obtain ⟨rfl, rfl⟩ := hexUnit?_inj unit unit' (List.cons.inj same).2
      exact ⟨rfl, rfl⟩
    | pair unit' _ high' =>
      -- The first half of a pair is no unit by itself.
      obtain ⟨rfl, -⟩ := hexUnit?_inj unit unit' (by simpa using same)
      exact absurd high' high
  | pair unit low high =>
    cases h' with
    | short mem' => exact absurd (List.cons.inj same).1.symm (ne_of_mem_shortEscapes mem')
    | unit unit' high' =>
      obtain ⟨rfl, -⟩ := hexUnit?_inj unit unit' (by simpa using same)
      exact absurd high high'
    | pair unit' low' =>
      obtain ⟨rfl, second⟩ := hexUnit?_inj unit unit' (by simpa using same)
      obtain ⟨rfl, rfl⟩ := hexUnit?_inj low low' (by simpa using second)
      exact ⟨rfl, rfl⟩

/-- **One character at the front of a string.** -/
theorem Letter.unique {piece piece' rest rest' : List Char} {c d : Char} (h : Letter piece c)
    (h' : Letter piece' d) (same : piece ++ rest = piece' ++ rest') : c = d ∧ rest = rest' := by
  cases h with
  | plain _ _ slash =>
    cases h' with
    | plain => exact List.cons.inj same
    | escape => exact absurd (List.cons.inj same).1 slash
  | escape h =>
    cases h' with
    | plain _ _ slash => exact absurd (List.cons.inj same).1.symm slash
    | escape h' => exact h.unique h' (List.cons.inj same).2

/-- No character of a string is a quote as it stands. -/
theorem Letter.append_ne_quote {piece : List Char} {c : Char} (h : Letter piece c)
    (rest more : List Char) : piece ++ rest ≠ '"' :: more := by
  intro same
  cases h with
  | plain _ quote _ => exact quote (List.cons.inj same).1
  | escape => simp at same

theorem ReadsString.unique {text rest rest' cs ds : List Char} (h : ReadsString text cs rest)
    (h' : ReadsString text ds rest') : cs = ds ∧ rest = rest' := by
  induction h generalizing ds rest' with
  | close =>
    cases h' with
    | close => exact ⟨rfl, rfl⟩
    | letter first _ spelled => exact absurd spelled.symm (first.append_ne_quote _ _)
  | letter first _ spelled ih =>
    cases h' with
    | close => exact absurd spelled.symm (first.append_ne_quote _ _)
    | letter first' others' spelled' =>
      obtain ⟨rfl, rfl⟩ := first.unique first' (spelled.symm.trans spelled')
      obtain ⟨rfl, rfl⟩ := ih others'
      exact ⟨rfl, rfl⟩

/-! ## Texts are read in one way -/

theorem Ended.of_skip {rest more : List Char} {c : Char} (h : skip rest = c :: more)
    (stop : isWordChar c = false) : Ended rest := by
  intro d hd
  obtain ⟨rest, rfl⟩ := List.head?_eq_some_iff.1 hd
  by_cases space : isSpace d
  · simp only [isSpace, Bool.or_eq_true, beq_iff_eq] at space
    rcases space with ((rfl | rfl) | rfl) | rfl <;> rfl
  · obtain ⟨rfl, -⟩ : d = c ∧ rest = more := by simpa [skip, space] using h
    exact stop

theorem Ended.of_skip_nil {rest : List Char} (h : skip rest = []) : Ended rest := by
  intro d hd
  have space : isSpace d := List.dropWhile_eq_nil_iff.1 h d (List.mem_of_mem_head? hd)
  simp only [isSpace, Bool.or_eq_true, beq_iff_eq] at space
  rcases space with ((rfl | rfl) | rfl) | rfl <;> rfl

theorem ReadsItems.ended {text rest : List Char} {items : List Datum}
    (h : ReadsItems (skip text) items rest) : Ended text := by
  generalize e : skip text = skipped at h
  cases h <;> exact .of_skip e rfl

theorem ReadsFields.ended {text rest : List Char} {fields : List (String × Datum)}
    (h : ReadsFields (skip text) fields rest) : Ended text := by
  generalize e : skip text = skipped at h
  cases h <;> exact .of_skip e rfl

/-- What starts with a character that is none of words starts with no word. -/
theorem Word.append_ne_cons {lexeme : List Char} {datum : Datum} (h : Word lexeme datum)
    {c : Char} (stop : isWordChar c = false) (rest more : List Char) :
    c :: more ≠ lexeme ++ rest := by
  intro same
  cases lexeme with
  | nil => exact h.ne_nil rfl
  | cons d lexeme =>
    obtain ⟨rfl, -⟩ := List.cons.inj same
    rw [h.wordChars c (by simp)] at stop
    simp at stop

/-- No value starts as an array or an object ends. -/
theorem Reads.ne_close {text rest : List Char} {datum : Datum} (h : Reads text datum rest)
    (more : List Char) : text ≠ ']' :: more ∧ text ≠ '}' :: more := by
  cases h with
  | word h spelled =>
    subst spelled
    exact ⟨(h.append_ne_cons rfl _ _).symm, (h.append_ne_cons rfl _ _).symm⟩
  | _ => simp

theorem ReadsField.ne_close {text rest : List Char} {field : String × Datum}
    (h : ReadsField text field rest) (more : List Char) : text ≠ '}' :: more := by
  cases h
  simp

mutual

/-- **One value at the front of a text**, where nothing goes on with a word. -/
theorem Reads.unique {text rest : List Char} {datum : Datum} :
    Reads text datum rest → ∀ {datum' rest'}, Ended rest → Ended rest' →
      Reads text datum' rest' → datum = datum' ∧ rest = rest'
  | .word h spelled, _, _, ended, ended', h' => by
    subst spelled
    generalize same : _ ++ rest = whole at h'
    cases h' with
    | word h' spelled' => exact h.unique_of_ended h' ended ended' (same.trans spelled')
    | _ => exact absurd same.symm (h.append_ne_cons rfl _ _)
  | .string h, _, _, _, _, h' => by
    cases h' with
    | word h' spelled' => exact absurd spelled' (h'.append_ne_cons rfl _ _)
    | string h' =>
      obtain ⟨rfl, rfl⟩ := h.unique h'
      exact ⟨rfl, rfl⟩
  | .emptyArray close, _, _, _, _, h' => by
    cases h' with
    | word h' spelled' => exact absurd spelled' (h'.append_ne_cons rfl _ _)
    | emptyArray close' =>
      obtain ⟨-, rfl⟩ := List.cons.inj (close.symm.trans close')
      exact ⟨rfl, rfl⟩
    | array first => exact absurd close (first.ne_close _).1
  | .array first others, _, _, ended, ended', h' => by
    cases h' with
    | word h' spelled' => exact absurd spelled' (h'.append_ne_cons rfl _ _)
    | emptyArray close => exact absurd close (first.ne_close _).1
    | array first' others' =>
      obtain ⟨rfl, rfl⟩ := first.unique others.ended others'.ended first'
      obtain ⟨rfl, rfl⟩ := others.unique others'
      exact ⟨rfl, rfl⟩
  | .emptyObject close, _, _, _, _, h' => by
    cases h' with
    | word h' spelled' => exact absurd spelled' (h'.append_ne_cons rfl _ _)
    | emptyObject close' =>
      obtain ⟨-, rfl⟩ := List.cons.inj (close.symm.trans close')
      exact ⟨rfl, rfl⟩
    | object first => exact absurd close (first.ne_close _)
  | .object first others, _, _, ended, ended', h' => by
    cases h' with
    | word h' spelled' => exact absurd spelled' (h'.append_ne_cons rfl _ _)
    | emptyObject close => exact absurd close (first.ne_close _)
    | object first' others' =>
      obtain ⟨rfl, rfl⟩ := first.unique others.ended others'.ended first'
      obtain ⟨rfl, rfl⟩ := others.unique others'
      exact ⟨rfl, rfl⟩

theorem ReadsItems.unique {text rest : List Char} {items : List Datum} :
    ReadsItems text items rest → ∀ {items' rest'},
      ReadsItems text items' rest' → items = items' ∧ rest = rest'
  | .close, _, _, h' => by
    cases h'
    exact ⟨rfl, rfl⟩
  | .more next others, _, _, h' => by
    cases h' with
    | more next' others' =>
      obtain ⟨rfl, rfl⟩ := next.unique others.ended others'.ended next'
      obtain ⟨rfl, rfl⟩ := others.unique others'
      exact ⟨rfl, rfl⟩

theorem ReadsField.unique {text rest : List Char} {field : String × Datum} :
    ReadsField text field rest → ∀ {field' rest'}, Ended rest → Ended rest' →
      ReadsField text field' rest' → field = field' ∧ rest = rest'
  | .mk label colon value, _, _, ended, ended', h' => by
    cases h' with
    | mk label' colon' value' =>
      obtain ⟨rfl, rfl⟩ := label.unique label'
      obtain ⟨-, rfl⟩ := List.cons.inj (colon.symm.trans colon')
      obtain ⟨rfl, rfl⟩ := value.unique ended ended' value'
      exact ⟨rfl, rfl⟩

theorem ReadsFields.unique {text rest : List Char} {fields : List (String × Datum)} :
    ReadsFields text fields rest → ∀ {fields' rest'},
      ReadsFields text fields' rest' → fields = fields' ∧ rest = rest'
  | .close, _, _, h' => by
    cases h'
    exact ⟨rfl, rfl⟩
  | .more next others, _, _, h' => by
    cases h' with
    | more next' others' =>
      obtain ⟨rfl, rfl⟩ := next.unique others.ended others'.ended next'
      obtain ⟨rfl, rfl⟩ := others.unique others'
      exact ⟨rfl, rfl⟩

end

/-- **A text says at most one thing.** -/
theorem Means.unique {text : String} {datum datum' : Datum} (h : Means text datum)
    (h' : Means text datum') : datum = datum' := by
  obtain ⟨rest, reads, blank⟩ := h
  obtain ⟨rest', reads', blank'⟩ := h'
  exact (reads.unique (.of_skip_nil blank) (.of_skip_nil blank') reads').1

end SmallImp.Json

/-
# Lexemes

`Terminal.Lexeme` says which texts are lexemes of a terminal: the fixed texts of words,
operators, brackets and line ends, and the two classes of numbers and identifiers.  A keyword
is a lexeme of `identifier` too.

`Terminal.IsLongest` is the rule by which lexemes are chosen: the longest of any terminal, and
the keyword's terminal where a word is one.  The scanner finds that lexeme where there is one
(`isLongest_of_lexeme?`) and finds nothing only where no lexeme starts
(`not_lexeme_of_lexeme?`).
-/
import Mathlib
import SmallImp.Token.Scan

namespace SmallImp

/-- What a table gives for a key is in the table. -/
theorem mem_of_lookup {α β : Type} [BEq α] [LawfulBEq α] {table : List (α × β)} {key : α}
    {value : β} (found : table.lookup key = some value) : (key, value) ∈ table := by
  obtain ⟨before, after, eq, -⟩ := List.lookup_eq_some_iff.1 found
  simp [eq]

namespace Terminal

open Scan

/-- The operators, brackets and line ends, longer ones before shorter ones. -/
def symbols : List (List Char × Terminal) :=
  [(['&', '&'], and), (['|', '|'], or), (['=', '='], equal), (['!', '='], notEqual),
   (['<', '='], lessOrEqual), (['>', '='], greaterOrEqual), (['/', '/'], floorSlash),
   (['\r', '\n'], newline), (['='], assign), (['!'], not), (['<'], less), (['>'], greater),
   (['/'], slash), (['+'], plus), (['-'], minus), (['*'], star), (['%'], percent),
   (['^'], caret), (['('], leftParen), ([')'], rightParen), (['\x7b'], leftBrace),
   (['\x7d'], rightBrace), ([','], comma), ([':'], colon), ([';'], semicolon),
   (['\n'], newline)]

/-- A letter or an underscore, and letters, underscores and digits after it. -/
def isWord : List Char → Bool
  | [] => false
  | c :: rest => isWordStart c && rest.all isWordPart

/-- One digit or more. -/
def IsDigits (text : List Char) : Prop := text ≠ [] ∧ ∀ c ∈ text, c.isDigit = true

/-- Digits, and before them perhaps digits and a point. -/
inductive IsNumber : List Char → Prop where
  | whole {digits} : IsDigits digits → IsNumber digits
  | fraction {digits more} : IsDigits digits → IsDigits more → IsNumber (digits ++ '.' :: more)

/-- The lexemes of the terminals. -/
inductive Lexeme : Terminal → List Char → Prop where
  | keyword {word t} : (word, t) ∈ keywords → Lexeme t word.toList
  | symbol {text t} : (text, t) ∈ symbols → Lexeme t text
  | number {text} : IsNumber text → Lexeme number text
  | identifier {text} : isWord text = true → Lexeme identifier text

/-- A lexeme and its terminal are what a text starts with. -/
structure IsLongest (t : Terminal) (lexeme text : List Char) : Prop where
  isLexeme : t.Lexeme lexeme
  starts : lexeme <+: text
  longest : ∀ {u : Terminal} {other}, u.Lexeme other → other <+: text →
    other.length ≤ lexeme.length
  /-- A keyword is no identifier. -/
  noKeyword : t = identifier → ∀ {u : Terminal}, u.Lexeme lexeme → u = identifier

/-! ## The tables -/

theorem keywords_isWord :
    ∀ p ∈ keywords, isWord p.1.toList = true ∧ ofWord p.1 = p.2 ∧ p.2 ≠ identifier := by
  decide +kernel

theorem keywords_injective : ∀ p ∈ keywords, ∀ q ∈ keywords, p.2 = q.2 → p.1 = q.1 := by
  decide +kernel

theorem keywords_apart : ∀ p ∈ keywords, p.2 ≠ number ∧ ∀ q ∈ symbols, p.2 ≠ q.2 := by
  decide +kernel

/-- A keyword's terminal has one lexeme. -/
theorem Lexeme.eq_of_mem_keywords {t : Terminal} {lexeme : List Char} {word : String}
    (mem : (word, t) ∈ keywords) (h : t.Lexeme lexeme) : lexeme = word.toList := by
  obtain ⟨number, symbols⟩ := keywords_apart _ mem
  cases h with
  | @keyword other _ mem' =>
    have same : other = word := keywords_injective _ mem' _ mem rfl
    rw [same]
  | symbol mem' => exact absurd rfl (symbols _ mem')
  | number => exact absurd rfl number
  | identifier => exact absurd rfl (keywords_isWord _ mem).2.2

theorem symbols_head : ∀ p ∈ symbols,
    p.1.head?.any (fun c => !isWordStart c && !c.isDigit) = true := by
  decide +kernel

theorem symbols_sorted : symbols.Pairwise fun p q => q.1.length ≤ p.1.length := by
  decide

/-- The symbol at the start of a text is the first of the table that the text starts with. -/
theorem symbol?_eq (text : List Char) : symbol? text =
    (symbols.find? fun p => p.1.isPrefixOf text).map fun p => (p.2, p.1.length) := by
  unfold symbol?
  split
  case h_9 rest longer | h_10 rest longer | h_11 rest longer | h_12 rest longer =>
    cases rest with
    | nil => rfl
    | cons d rest =>
      have other : '=' ≠ d := fun same => longer rest (by rw [same])
      simp [symbols, List.isPrefixOf, other]
  case h_13 rest longer =>
    cases rest with
    | nil => rfl
    | cons d rest =>
      have other : '/' ≠ d := fun same => longer rest (by rw [same])
      simp [symbols, List.isPrefixOf, other]
  case h_27 =>
    have none_starts : ∀ p ∈ symbols, ∀ more, text ≠ p.1 ++ more := by
      simp only [symbols, List.forall_mem_cons, List.not_mem_nil, false_implies, implies_true,
        and_true]
      and_intros <;> assumption
    rw [List.find?_eq_none.2, Option.map_none]
    intro p mem start
    obtain ⟨more, eq⟩ := List.isPrefixOf_iff_prefix.1 start
    exact none_starts p mem more eq.symm
  all_goals rfl

/-! ## The first character of a lexeme tells its class -/

theorem isWordStart_eq_false {c : Char} (digit : c.isDigit = true) : isWordStart c = false := by
  have : c.isAlpha = false := by
    simp only [Char.isDigit, Char.isAlpha, Char.isUpper, Char.isLower] at *
    grind
  have : c ≠ '_' := by
    rintro rfl
    cases digit
  simp [isWordStart, *]

theorem IsNumber.head_isDigit {c : Char} {rest : List Char} (h : IsNumber (c :: rest)) :
    c.isDigit = true := by
  generalize eq : c :: rest = text at h
  cases h with
  | whole digits =>
    subst eq
    exact digits.2 c List.mem_cons_self
  | @fraction whole more digits _ =>
    cases whole with
    | nil => exact absurd rfl digits.1
    | cons d whole =>
      obtain ⟨rfl, -⟩ := List.cons.inj eq
      exact digits.2 c List.mem_cons_self

section Head
variable {t : Terminal} {c : Char} {rest : List Char}

theorem head_of_mem_symbols (h : (c :: rest, t) ∈ symbols) :
    isWordStart c = false ∧ c.isDigit = false := by
  simpa using symbols_head _ h

/-- The classes that the lexemes with a first character are of. -/
theorem Lexeme.cases_head (h : t.Lexeme (c :: rest)) :
    (isWordStart c = true ∧ Terminal.isWord (c :: rest) = true) ∨
      (isWordStart c = false ∧ c.isDigit = true ∧ IsNumber (c :: rest)) ∨
      (isWordStart c = false ∧ c.isDigit = false ∧ (c :: rest, t) ∈ symbols) := by
  have start (word : Terminal.isWord (c :: rest) = true) : isWordStart c = true :=
    (Bool.and_eq_true_iff.1 word).1
  generalize eq : c :: rest = text at h start
  cases h with
  | keyword mem =>
    have word := (keywords_isWord _ mem).1
    exact .inl ⟨start word, word⟩
  | symbol mem =>
    subst eq
    obtain ⟨noStart, noDigit⟩ := head_of_mem_symbols mem
    exact .inr (.inr ⟨noStart, noDigit, mem⟩)
  | number number =>
    subst eq
    have digit := number.head_isDigit
    exact .inr (.inl ⟨isWordStart_eq_false digit, digit, number⟩)
  | identifier word => exact .inl ⟨start word, word⟩

theorem Lexeme.isWord (h : t.Lexeme (c :: rest)) (start : isWordStart c = true) :
    isWord (c :: rest) = true := by
  obtain ⟨-, word⟩ | ⟨other, -⟩ | ⟨other, -⟩ := h.cases_head
  · exact word
  · rw [start] at other; cases other
  · rw [start] at other; cases other

theorem Lexeme.isNumber (h : t.Lexeme (c :: rest)) (digit : c.isDigit = true) :
    IsNumber (c :: rest) := by
  obtain ⟨start, -⟩ | ⟨-, -, number⟩ | ⟨-, other, -⟩ := h.cases_head
  · rw [isWordStart_eq_false digit] at start; cases start
  · exact number
  · rw [digit] at other; cases other

theorem Lexeme.mem_symbols (h : t.Lexeme (c :: rest)) (start : isWordStart c = false)
    (digit : c.isDigit = false) : (c :: rest, t) ∈ symbols := by
  obtain ⟨other, -⟩ | ⟨-, other, -⟩ | ⟨-, -, mem⟩ := h.cases_head
  · rw [start] at other; cases other
  · rw [digit] at other; cases other
  · exact mem

end Head

theorem Lexeme.ne_nil {t : Terminal} {text : List Char} (h : t.Lexeme text) : text ≠ [] := by
  rintro rfl
  generalize eq : [] = text at h
  cases h with
  | keyword mem =>
    have := (keywords_isWord _ mem).1
    rw [← eq] at this
    cases this
  | symbol mem =>
    have := symbols_head _ mem
    rw [← eq] at this
    cases this
  | number number =>
    cases number with
    | whole digits => exact digits.1 eq.symm
    | fraction => cases List.append_eq_nil_iff.1 eq.symm |>.2
  | identifier word => subst eq; cases word

/-- No lexeme is a separator: separators are made of line ends and semicolons. -/
theorem not_lexeme_separator (text : List Char) : ¬ separator.Lexeme text := by
  generalize eq : separator = t
  rintro (mem | mem | _ | _)
  · exact absurd eq.symm ((by decide : ∀ p ∈ keywords, p.2 ≠ separator) _ mem)
  · exact absurd eq.symm ((by decide : ∀ p ∈ symbols, p.2 ≠ separator) _ mem)
  · cases eq
  · cases eq

/-! ## Words -/

theorem isPrefix_takeWhile {p : Char → Bool} {some text : List Char} (start : some <+: text)
    (all : ∀ c ∈ some, p c = true) : some <+: text.takeWhile p := by
  obtain ⟨more, rfl⟩ := start
  rw [List.takeWhile_append_of_pos all]
  exact List.prefix_append ..

theorem isWordPart_of_isWord {text : List Char} (word : isWord text = true) :
    ∀ c ∈ text, isWordPart c = true := by
  cases text with
  | nil => nofun
  | cons c rest =>
    simp only [isWord, Bool.and_eq_true, List.all_eq_true] at word
    rintro d (_ | ⟨_, mem⟩)
    · simp [isWordPart, word.1]
    · exact word.2 d mem

theorem isWord_takeWhile {c : Char} {rest : List Char} (start : isWordStart c = true) :
    isWord ((c :: rest).takeWhile isWordPart) = true := by
  have part : isWordPart c = true := by simp [isWordPart, start]
  rw [List.takeWhile_cons_of_pos part]
  simp [isWord, start]

/-- The terminal of a word is that of the keyword it is, or else an identifier's. -/
theorem lexeme_ofWord {word : List Char} (h : isWord word = true) :
    (ofWord (String.ofList word)).Lexeme word := by
  unfold ofWord
  cases found : keywords.lookup (String.ofList word) with
  | none => exact .identifier h
  | some t =>
    simpa using Lexeme.keyword (mem_of_lookup found)

theorem ofWord_eq_identifier {u : Terminal} {word : List Char}
    (h : ofWord (String.ofList word) = identifier) (wordy : isWord word = true)
    (lexeme : u.Lexeme word) : u = identifier := by
  cases lexeme with
  | keyword mem =>
    obtain ⟨-, eq, other⟩ := keywords_isWord _ mem
    rw [String.ofList_toList, eq] at h
    exact absurd h other
  | symbol mem =>
    cases word with
    | nil => cases wordy
    | cons c rest => simp [isWord, (head_of_mem_symbols mem).1] at wordy
  | number number =>
    cases word with
    | nil => cases wordy
    | cons c rest => simp [isWord, isWordStart_eq_false number.head_isDigit] at wordy
  | identifier => rfl

theorem isLongest_word {c : Char} {rest : List Char} (start : isWordStart c = true) :
    IsLongest (ofWord (String.ofList ((c :: rest).takeWhile isWordPart)))
      ((c :: rest).takeWhile isWordPart) (c :: rest) where
  isLexeme := lexeme_ofWord (isWord_takeWhile start)
  starts := List.takeWhile_prefix _
  longest {u other} lexeme starts := by
    cases other with
    | nil => exact Nat.zero_le _
    | cons d other =>
      obtain ⟨rfl, -⟩ := List.cons_prefix_cons.1 starts
      exact (isPrefix_takeWhile starts (isWordPart_of_isWord (lexeme.isWord start))).length_le
  noKeyword eq _ lexeme := ofWord_eq_identifier eq (isWord_takeWhile start) lexeme

/-! ## Numbers -/

theorem takeWhile_digits {digits rest : List Char} (h : IsDigits digits) :
    (digits ++ '.' :: rest).takeWhile Char.isDigit = digits := by
  rw [List.takeWhile_append_of_pos h.2, List.takeWhile_cons_of_neg (by decide), List.append_nil]

theorem isDigits_takeWhile {text : List Char} (some : text.takeWhile Char.isDigit ≠ []) :
    IsDigits (text.takeWhile Char.isDigit) :=
  ⟨some, List.all_eq_true.1 List.all_takeWhile⟩

/-- The number at the start of a text that a digit starts. -/
theorem isNumber_take {text : List Char} (some : text.takeWhile Char.isDigit ≠ []) :
    IsNumber (text.take (numberLength text)) := by
  have digits := isDigits_takeWhile some
  have whole : text.take (text.takeWhile Char.isDigit).length = text.takeWhile Char.isDigit :=
    (List.prefix_iff_eq_take.1 (List.takeWhile_prefix _)).symm
  unfold numberLength
  dsimp only
  split
  case h_1 rest point =>
    split
    case isTrue => rw [whole]; exact .whole digits
    case isFalse more =>
      have fraction := isDigits_takeWhile (mt List.isEmpty_iff.2 more)
      have taken : text.take ((text.takeWhile Char.isDigit).length + 1 +
          (rest.takeWhile Char.isDigit).length) =
          text.takeWhile Char.isDigit ++ '.' :: rest.takeWhile Char.isDigit := by
        rw [Nat.add_assoc, List.take_add, whole, point, Nat.add_comm, List.take_succ_cons,
          ← List.prefix_iff_eq_take.1 (List.takeWhile_prefix _)]
      rw [taken]
      exact .fraction digits fraction
  case h_2 => rw [whole]; exact .whole digits

theorem takeWhile_le_numberLength (text : List Char) :
    (text.takeWhile Char.isDigit).length ≤ numberLength text := by
  unfold numberLength
  dsimp only
  split
  · split <;> omega
  · omega

/-- No number at the start of a text is longer. -/
theorem IsNumber.length_le {number text : List Char} (h : IsNumber number)
    (starts : number <+: text) : number.length ≤ numberLength text := by
  cases h with
  | whole digits =>
    exact Nat.le_trans (isPrefix_takeWhile starts digits.2).length_le (takeWhile_le_numberLength text)
  | @fraction digits more whole fraction =>
    obtain ⟨rest, rfl⟩ := starts
    have longer : more <+: (more ++ rest).takeWhile Char.isDigit :=
      isPrefix_takeWhile (List.prefix_append ..) fraction.2
    have some : ((more ++ rest).takeWhile Char.isDigit).isEmpty = false := by
      rw [List.isEmpty_eq_false_iff]
      exact longer.ne_nil fraction.1
    have := longer.length_le
    rw [List.append_assoc, List.cons_append, numberLength, takeWhile_digits whole,
      List.drop_left]
    simp only [some, List.length_append, List.length_cons]
    simp
    omega

theorem isLongest_number {c : Char} {rest : List Char} (digit : c.isDigit = true) :
    IsLongest number ((c :: rest).take (numberLength (c :: rest))) (c :: rest) where
  isLexeme := .number (isNumber_take (by rw [List.takeWhile_cons_of_pos digit]; nofun))
  starts := List.take_prefix ..
  longest {u other} lexeme starts := by
    cases other with
    | nil => exact Nat.zero_le _
    | cons d other =>
      obtain ⟨rfl, -⟩ := List.cons_prefix_cons.1 starts
      have := (lexeme.isNumber digit).length_le starts
      rw [List.length_take]
      exact Nat.le_min.2 ⟨this, starts.length_le⟩
  noKeyword := nofun

/-! ## Symbols -/

theorem isLongest_symbol {c : Char} {rest : List Char} {t : Terminal} {length : Nat}
    (start : isWordStart c = false) (digit : c.isDigit = false)
    (found : symbol? (c :: rest) = some (t, length)) :
    IsLongest t ((c :: rest).take length) (c :: rest) := by
  rw [symbol?_eq, Option.map_eq_some_iff] at found
  obtain ⟨⟨text, t⟩, found, eq⟩ := found
  obtain ⟨rfl, rfl⟩ := Prod.mk.inj eq
  obtain ⟨starts, before, after, table, earlier⟩ := List.find?_eq_some_iff_append.1 found
  have starts := List.isPrefixOf_iff_prefix.1 starts
  rw [← List.prefix_iff_eq_take.1 starts]
  refine ⟨.symbol (by simp [table]), starts, fun {u other} lexeme prefixed => ?_, ?_⟩
  · cases other with
    | nil => exact Nat.zero_le _
    | cons d other =>
      obtain ⟨rfl, -⟩ := List.cons_prefix_cons.1 prefixed
      have mem := lexeme.mem_symbols start digit
      rw [table, List.mem_append, List.mem_cons] at mem
      -- symbols before the one found start no text like this, those after it are no longer
      have sorted := symbols_sorted
      rw [table, List.pairwise_append, List.pairwise_cons] at sorted
      rcases mem with mem | same | mem
      · have := earlier _ mem
        rw [List.isPrefixOf_iff_prefix.2 prefixed] at this
        cases this
      · obtain ⟨rfl, -⟩ := Prod.mk.inj same
        exact Nat.le_refl _
      · exact sorted.2.1.1 _ mem
  · rintro rfl
    exact absurd rfl ((by decide : ∀ p ∈ symbols, p.2 ≠ identifier) (text, identifier)
      (by simp [table]))

/-- **The scanner finds the longest lexeme.** -/
theorem isLongest_of_lexeme? {text : List Char} {t : Terminal} {length : Nat}
    (found : lexeme? text = some (t, length)) : IsLongest t (text.take length) text := by
  cases text with
  | nil => cases found
  | cons c rest =>
    unfold lexeme? at found
    dsimp only at found
    split at found
    case isTrue start =>
      obtain ⟨rfl, rfl⟩ := Prod.mk.inj (Option.some.inj found)
      rw [← List.prefix_iff_eq_take.1 (List.takeWhile_prefix _)]
      exact isLongest_word start
    case isFalse start =>
      split at found
      case isTrue digit =>
        obtain ⟨rfl, rfl⟩ := Prod.mk.inj (Option.some.inj found)
        exact isLongest_number digit
      case isFalse digit =>
        exact isLongest_symbol (Bool.eq_false_iff.2 start) (Bool.eq_false_iff.2 digit) found

/-- **Where the scanner finds nothing, no lexeme starts.** -/
theorem not_lexeme_of_lexeme? {text : List Char} (missing : lexeme? text = none) {t : Terminal}
    {other : List Char} (starts : other <+: text) : ¬ t.Lexeme other := by
  intro lexeme
  cases other with
  | nil => exact lexeme.ne_nil rfl
  | cons c other =>
    obtain ⟨more, rfl⟩ := starts
    rw [List.cons_append, lexeme?] at missing
    split at missing
    case isTrue => cases missing
    case isFalse start =>
      split at missing
      case isTrue => cases missing
      case isFalse digit =>
        rw [symbol?_eq, Option.map_eq_none_iff, List.find?_eq_none] at missing
        have mem := lexeme.mem_symbols (Bool.eq_false_iff.2 start) (Bool.eq_false_iff.2 digit)
        exact missing _ mem (List.isPrefixOf_iff_prefix.2 (List.prefix_append (c :: other) more))

end Terminal
end SmallImp

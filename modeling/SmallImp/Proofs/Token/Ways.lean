/-
# Ways over a text

A way by blanks and longest lexemes to the end of a text, or to a place where neither starts, is
the one that the scanner goes (`scan_of_stopped`), since there is one longest lexeme at each place.
So the tokens of a text can be found by showing a way.

A way up to some place stays one when the text from there on is replaced by one that starts with
layout (`Scanned.replace`): blanks, line ends and semicolons end each lexeme before them.  And a
way from a place on is one wherever it starts (`Scanned.moved`).
-/
import SmallImp.Proofs.Token.Scanned
import SmallImp.Proofs.Tree.Erasure

namespace SmallImp

open Scan

namespace Terminal

/-! ## The longest lexeme -/

theorem symbols_functional : ∀ p ∈ symbols, ∀ q ∈ symbols, p.1 = q.1 → p.2 = q.2 := by
  decide +kernel

/-- The first character of a lexeme that is no identifier tells where its terminal is from. -/
theorem Lexeme.cases_terminal {t : Terminal} {c : Char} {rest : List Char}
    (h : t.Lexeme (c :: rest)) (proper : t ≠ Terminal.identifier) :
    (isWordStart c = true ∧ t = ofWord (String.ofList (c :: rest))) ∨
      (isWordStart c = false ∧ c.isDigit = true ∧ t = Terminal.number) ∨
      (isWordStart c = false ∧ c.isDigit = false ∧ (c :: rest, t) ∈ symbols) := by
  generalize eq : c :: rest = text at h
  cases h with
  | @keyword word t mem =>
    obtain ⟨wordy, terminal, -⟩ := keywords_isWord _ mem
    rw [← eq] at wordy
    refine .inl ⟨(Bool.and_eq_true_iff.1 wordy).1, ?_⟩
    rw [String.ofList_toList, terminal]
  | symbol mem =>
    subst eq
    obtain ⟨noStart, noDigit⟩ := head_of_mem_symbols mem
    exact .inr (.inr ⟨noStart, noDigit, mem⟩)
  | number number =>
    subst eq
    have digit := number.head_isDigit
    exact .inr (.inl ⟨isWordStart_eq_false digit, digit, rfl⟩)
  | identifier => exact absurd rfl proper

/-- A lexeme has no two terminals but its own and that of identifiers. -/
theorem Lexeme.terminal_unique {t u : Terminal} {lexeme : List Char} (ht : t.Lexeme lexeme)
    (hu : u.Lexeme lexeme) (t_proper : t ≠ Terminal.identifier)
    (u_proper : u ≠ Terminal.identifier) : t = u := by
  cases lexeme with
  | nil => exact absurd rfl ht.ne_nil
  | cons c rest =>
    obtain ⟨start, rfl⟩ | ⟨start, digit, rfl⟩ | ⟨start, digit, mem⟩ :=
        ht.cases_terminal t_proper <;>
      obtain ⟨start', rfl⟩ | ⟨start', digit', rfl⟩ | ⟨start', digit', mem'⟩ :=
        hu.cases_terminal u_proper
    all_goals first
      | rfl
      | exact symbols_functional _ mem _ mem' rfl
      | simp_all

/-- **At each place there is one longest lexeme.** -/
theorem IsLongest.unique {t u : Terminal} {lexeme other text : List Char}
    (ht : t.IsLongest lexeme text) (hu : u.IsLongest other text) : t = u ∧ lexeme = other := by
  have shorter := hu.longest ht.isLexeme ht.starts
  have longer := ht.longest hu.isLexeme hu.starts
  obtain rfl : lexeme = other :=
    (List.prefix_of_prefix_length_le ht.starts hu.starts shorter).eq_of_length
      (Nat.le_antisymm shorter longer)
  refine ⟨?_, rfl⟩
  by_cases t_identifier : t = identifier
  · rw [t_identifier, ht.noKeyword t_identifier hu.isLexeme]
  by_cases u_identifier : u = identifier
  · rw [u_identifier, hu.noKeyword u_identifier ht.isLexeme]
  exact ht.isLexeme.terminal_unique hu.isLexeme t_identifier u_identifier

/-- The scanner finds each longest lexeme. -/
theorem IsLongest.lexeme? {t : Terminal} {lexeme text : List Char} (h : t.IsLongest lexeme text) :
    ∃ length, Scan.lexeme? text = some (t, length) ∧ text.take length = lexeme := by
  cases found : Scan.lexeme? text with
  | none => exact absurd h.isLexeme (not_lexeme_of_lexeme? found h.starts)
  | some found' =>
    obtain ⟨u, length⟩ := found'
    obtain ⟨rfl, same⟩ := h.unique (isLongest_of_lexeme? found)
    exact ⟨length, rfl, same.symm⟩

/-! ## Layout ends a lexeme -/

/-- The characters of blanks, line ends and semicolons. -/
def layout : List Char := [' ', '\t', '\x0c', '\n', '\r', ';']

theorem layout_plain {c : Char} (mem : c ∈ layout) : isWordPart c = false ∧ c ≠ '.' := by
  have all : (layout.all fun c => !isWordPart c && c != '.') = true := by decide +kernel
  simpa using List.all_eq_true.1 all c mem

/-- A carriage return before a line feed is the only symbol with layout after its start. -/
theorem symbols_layout {lexeme : List Char} {t : Terminal} (symbol : (lexeme, t) ∈ symbols)
    {c : Char} (mem : c ∈ layout) (inside : c ∈ lexeme.tail) : lexeme = ['\r', '\n'] := by
  have all : (symbols.all fun p =>
      p.1.tail.all (fun c => !layout.contains c) || p.1 == ['\r', '\n']) = true := by
    decide +kernel
  rcases Bool.or_eq_true_iff.1 (List.all_eq_true.1 all _ symbol) with none | same
  · have := List.all_eq_true.1 none c inside
    simp [mem] at this
  · exact beq_iff_eq.1 same

theorem IsNumber.isWordPart {text : List Char} (h : IsNumber text) :
    ∀ c ∈ text, isWordPart c = true ∨ c = '.' := by
  have digit {c : Char} (h : c.isDigit = true) : Scan.isWordPart c = true := by
    simp [Scan.isWordPart, h]
  cases h with
  | whole digits => exact fun c mem => .inl (digit (digits.2 c mem))
  | fraction whole fraction =>
    intro c mem
    rcases List.mem_append.1 mem with mem | mem
    · exact .inl (digit (whole.2 c mem))
    · rcases List.mem_cons.1 mem with rfl | mem
      · exact .inr rfl
      · exact .inl (digit (fraction.2 c mem))

/-- **Layout stands at the start of a lexeme only**, or as the line feed after a carriage
return. -/
theorem Lexeme.before_layout {t : Terminal} {before after : List Char} {c : Char}
    (h : t.Lexeme (before ++ c :: after)) (mem : c ∈ layout) : before = [] ∨ before = ['\r'] := by
  cases before with
  | nil => exact .inl rfl
  | cons first before =>
    rw [List.cons_append] at h
    obtain ⟨plain, noPoint⟩ := layout_plain mem
    have inside : c ∈ before ++ c :: after := by simp
    rcases h.cases_head with ⟨-, word⟩ | ⟨-, -, number⟩ | ⟨-, -, symbol⟩
    · have := isWordPart_of_isWord word c (List.mem_cons_of_mem _ inside)
      rw [plain] at this
      cases this
    · rcases number.isWordPart c (List.mem_cons_of_mem _ inside) with part | point
      · rw [plain] at part
        cases part
      · exact absurd point noPoint
    · obtain ⟨rfl, rest⟩ := List.cons.inj (symbols_layout symbol mem inside)
      cases before with
      | nil => exact .inr rfl
      | cons second before => simp at rest

theorem not_lexeme_return (t : Terminal) : ¬ t.Lexeme ['\r'] := by
  intro h
  have := h.mem_symbols (by decide) (by decide)
  exact absurd rfl ((by decide : ∀ p ∈ symbols, p.1 ≠ ['\r']) _ this)

/-- A text that starts with layout, or is empty. -/
def LayoutAhead (rest : List Char) : Prop := ∀ c ∈ rest.head?, c ∈ layout

/-- **A longest lexeme stays one when layout comes nearer.** -/
theorem IsLongest.replace {t : Terminal} {lexeme used rest rest' : List Char}
    (h : t.IsLongest lexeme (lexeme ++ (used ++ rest))) (ahead : LayoutAhead rest') :
    t.IsLongest lexeme (lexeme ++ (used ++ rest')) where
  isLexeme := h.isLexeme
  starts := List.prefix_append ..
  longest {u other} isLexeme starts := by
    rw [← List.append_assoc] at h starts
    obtain ⟨after, eq⟩ := starts
    rcases List.append_eq_append_iff.1 eq with ⟨more, eq, -⟩ | ⟨more, eq, eq'⟩
    · refine h.longest isLexeme ⟨more ++ rest, ?_⟩
      rw [← List.append_assoc, ← eq]
    · cases more with
      | nil =>
        rw [List.append_nil] at eq
        exact h.longest isLexeme (eq ▸ List.prefix_append ..)
      | cons c more =>
        -- the other lexeme would have layout inside
        rw [eq'] at ahead
        rw [eq] at isLexeme
        rcases isLexeme.before_layout (ahead c rfl) with none | return_
        · exact absurd (List.append_eq_nil_iff.1 none).1 h.isLexeme.ne_nil
        · cases lexeme with
          | nil => exact absurd rfl h.isLexeme.ne_nil
          | cons d lexeme =>
            obtain ⟨rfl, none⟩ := List.cons.inj return_
            obtain ⟨rfl, -⟩ := List.append_eq_nil_iff.1 none
            exact absurd h.isLexeme (not_lexeme_return t)
  noKeyword := h.noKeyword

/-- The lexemes of line ends and semicolons. -/
def breaks : List (List Char × Terminal) :=
  [(['\n'], newline), (['\r', '\n'], newline), ([';'], semicolon)]

/-- A line end or a semicolon is a symbol, and none that starts as it does is longer. -/
theorem breaks_symbols : (breaks.all fun p => symbols.contains p && symbols.all fun q =>
    q.1.head? != p.1.head? || q.1.length ≤ p.1.length) = true := by
  decide +kernel

theorem breaks_head : (breaks.all fun p => p.1.head?.any layout.contains) = true := by
  decide +kernel

theorem ne_identifier_of_mem_breaks : ∀ p ∈ breaks, p.2 ≠ identifier := by decide

/-- **A line end or a semicolon is a lexeme before any text.** -/
theorem isLongest_break {lexeme : List Char} {t : Terminal} (mem : (lexeme, t) ∈ breaks)
    (rest : List Char) : t.IsLongest lexeme (lexeme ++ rest) := by
  have table := List.all_eq_true.1 breaks_symbols _ mem
  rw [Bool.and_eq_true, List.all_eq_true] at table
  have symbol : (lexeme, t) ∈ symbols := by simpa using table.1
  refine ⟨.symbol symbol, List.prefix_append .., fun {u other} isLexeme starts => ?_,
    fun same => absurd same (ne_identifier_of_mem_breaks _ mem)⟩
  cases lexeme with
  | nil => exact absurd rfl (Lexeme.symbol symbol).ne_nil
  | cons c more =>
    cases other with
    | nil => exact Nat.zero_le _
    | cons d other =>
      obtain ⟨rfl, -⟩ := List.cons_prefix_cons.1 starts
      obtain ⟨noStart, noDigit⟩ := head_of_mem_symbols symbol
      simpa using table.2 _ (isLexeme.mem_symbols noStart noDigit)

theorem layoutAhead_break {lexeme : List Char} {t : Terminal} (mem : (lexeme, t) ∈ breaks)
    (rest : List Char) : LayoutAhead (lexeme ++ rest) := by
  have head := List.all_eq_true.1 breaks_head _ mem
  cases lexeme with
  | nil => cases head
  | cons c more =>
    rintro _ ⟨⟩
    simpa using head

theorem mem_layout_of_isBlank {c : Char} (blank : isBlank c = true) : c ∈ layout := by
  simp only [isBlank, Bool.or_eq_true, beq_iff_eq] at blank
  obtain (rfl | rfl) | rfl := blank <;> decide

theorem layoutAhead_blank {c : Char} (blank : isBlank c = true) (rest : List Char) :
    LayoutAhead (c :: rest) := by
  rintro _ ⟨⟩
  exact mem_layout_of_isBlank blank

theorem symbols_head_isBlank : (symbols.all fun p => p.1.head?.all (!isBlank ·)) = true := by
  decide +kernel

/-- No lexeme starts with a blank. -/
theorem not_lexeme_blank {c : Char} (blank : isBlank c = true) (t : Terminal) (rest : List Char) :
    ¬ t.Lexeme (c :: rest) := by
  intro h
  have plain := (layout_plain (mem_layout_of_isBlank blank)).1
  rw [isWordPart, Bool.or_eq_false_iff] at plain
  have symbol := h.mem_symbols plain.1 plain.2
  have := List.all_eq_true.1 symbols_head_isBlank _ symbol
  simp [blank] at this

end Terminal

/-! ## The scanner's way -/

/-- The walk past the characters of a lexeme. -/
theorem scanFrom_skip (text : List Char) (pending : Nat) (place : Position) :
    scanFrom text pending place =
      scanFrom (text.drop pending) 0 (place.advance (text.take pending)) := by
  induction pending generalizing text place with
  | zero => rw [List.drop_zero, List.take_zero]; rfl
  | succ pending ih =>
    cases text with
    | nil => rfl
    | cons c text => exact ih text (place.next c)

/-- Where neither a blank nor a lexeme starts, the scanner finds none. -/
theorem scanFrom_of_stopped {rest : List Char} {last : Position} {stop : Option (Char × Position)}
    (stopped : Stopped rest last stop) : scanFrom rest 0 last = ⟨[], stop⟩ := by
  cases stop with
  | none =>
    obtain rfl : rest = [] := stopped
    rfl
  | some stop =>
    obtain ⟨c, place⟩ := stop
    obtain ⟨rfl, head, noBlank, noLexeme⟩ := stopped
    obtain ⟨rest, rfl⟩ := List.head?_eq_some_iff.1 head
    have noBlank : ¬ isBlank c = true := by simpa using noBlank
    rw [scanFrom, if_neg noBlank]
    cases found : Scan.lexeme? (c :: rest) with
    | none => rfl
    | some found' =>
      obtain ⟨t, length⟩ := found'
      have longest := Terminal.isLongest_of_lexeme? found
      exact absurd longest.isLexeme (noLexeme t _ longest.starts)

/-- **A way to the end of a text is the scanner's**, and so is one to a place where it stops. -/
theorem scanFrom_of_scanned {text rest : List Char} {place last : Position} {tokens : List Token}
    {stop : Option (Char × Position)} (h : Scanned text place tokens rest last)
    (stopped : Stopped rest last stop) : scanFrom text 0 place = ⟨tokens, stop⟩ := by
  induction h with
  | here => exact scanFrom_of_stopped stopped
  | blank blank _ ih => rw [scanFrom, if_pos blank, ih stopped]
  | @lexeme t lexeme text place tokens rest last longest _ ih =>
    obtain ⟨length, found, taken⟩ := longest.lexeme?
    cases lexeme with
    | nil => exact absurd rfl longest.isLexeme.ne_nil
    | cons c lexeme =>
      have noBlank : ¬ isBlank c = true := fun blank =>
        Terminal.not_lexeme_blank blank t lexeme longest.isLexeme
      rw [List.cons_append] at found taken ⊢
      cases length with
      | zero => cases taken
      | succ length =>
        -- the walk on from the first character comes to the text after the lexeme
        obtain ⟨-, taken'⟩ := List.cons.inj taken
        have after : (lexeme ++ text).drop length = text := by
          have split := List.take_append_drop length (lexeme ++ text)
          rw [taken'] at split
          exact List.append_cancel_left split
        rw [scanFrom, if_neg noBlank, found]
        simp only [taken, Nat.add_sub_cancel]
        rw [scanFrom_skip, taken', after]
        exact congrArg (cons _) (ih stopped)

/-- The tokens of a text are those on any way to where scanning stops. -/
theorem scan_of_stopped {text rest : List Char} {tokens : List Token} {last : Position}
    {stop : Option (Char × Position)} (h : Scanned text .origin tokens rest last)
    (stopped : Stopped rest last stop) : scan (String.ofList text) = ⟨tokens, stop⟩ := by
  rw [scan, String.toList_ofList]
  exact scanFrom_of_scanned h stopped

/-- The tokens of a text are those on any way to its end. -/
theorem scan_of_scanned {text : List Char} {tokens : List Token} {last : Position}
    (h : Scanned text .origin tokens [] last) : scan (String.ofList text) = ⟨tokens, none⟩ :=
  scan_of_stopped h rfl

/-! ## Ways put together -/

section Ways

variable {text rest : List Char} {place last : Position} {tokens : List Token}

/-- What the scanner finds is a step of a way. -/
theorem Scanned.of_lexeme? (t : Terminal) (length : Nat)
    (found : Scan.lexeme? text = some (t, length))
    (way : Scanned (text.drop length) (place.advance (text.take length)) tokens rest last) :
    Scanned text place
      (⟨t, String.ofList (text.take length), place, place.advance (text.take length)⟩ :: tokens)
      rest last := by
  have split := List.take_append_drop length text
  have longest : t.IsLongest (text.take length) (text.take length ++ text.drop length) := by
    rw [split]
    exact Terminal.isLongest_of_lexeme? found
  have step := Scanned.lexeme longest way
  rwa [split] at step

/-- Two ways one after the other are a way. -/
theorem Scanned.trans {more : List Token} {rest' : List Char} {last' : Position}
    (first : Scanned text place tokens rest last) (second : Scanned rest last more rest' last') :
    Scanned text place (tokens ++ more) rest' last' := by
  induction first with
  | here => exact second
  | blank blank _ ih => exact .blank blank (ih second)
  | lexeme longest _ ih => exact .lexeme longest (ih second)

/-- **A way is one from any place**, with the same tokens but for their blocks. -/
theorem Scanned.moved (h : Scanned text place tokens rest last) (place' : Position) :
    ∃ tokens' last', Scanned text place' tokens' rest last' ∧
      tokens'.map Token.erased = tokens.map Token.erased := by
  induction h generalizing place' with
  | here text => exact ⟨[], place', .here text place', rfl⟩
  | @blank c _ _ _ _ _ blank _ ih =>
    obtain ⟨tokens', last', way, same⟩ := ih (place'.next c)
    exact ⟨tokens', last', .blank blank way, same⟩
  | @lexeme _ lexeme _ _ _ _ _ longest _ ih =>
    obtain ⟨tokens', last', way, same⟩ := ih (place'.advance lexeme)
    exact ⟨_, last', .lexeme longest way, by simp only [List.map_cons, same]; rfl⟩

/-- **A way stays one when layout comes after it.** -/
theorem Scanned.replace (h : Scanned text place tokens rest last) :
    ∃ used, text = used ++ rest ∧ ∀ rest', Terminal.LayoutAhead rest' →
      Scanned (used ++ rest') place tokens rest' last := by
  induction h with
  | here text place => exact ⟨[], rfl, fun rest' _ => .here rest' place⟩
  | @blank c _ _ _ _ _ blank _ ih =>
    obtain ⟨used, rfl, replaced⟩ := ih
    exact ⟨c :: used, rfl, fun rest' ahead => .blank blank (replaced rest' ahead)⟩
  | @lexeme _ lexeme _ _ _ _ _ longest _ ih =>
    obtain ⟨used, rfl, replaced⟩ := ih
    refine ⟨lexeme ++ used, (List.append_assoc ..).symm, fun rest' ahead => ?_⟩
    rw [List.append_assoc]
    exact .lexeme (longest.replace ahead) (replaced rest' ahead)

/-- Where a lexeme is next, a way goes on with it. -/
theorem Scanned.of_isLongest {t : Terminal} {lexeme : List Char} (ends : rest = [])
    (h : Scanned (lexeme ++ text) place tokens rest last)
    (longest : t.IsLongest lexeme (lexeme ++ text)) :
    ∃ more, tokens = ⟨t, String.ofList lexeme, place, place.advance lexeme⟩ :: more ∧
      Scanned text (place.advance lexeme) more rest last := by
  generalize eq : lexeme ++ text = whole at h longest
  cases h with
  | here =>
    subst ends
    exact absurd (List.append_eq_nil_iff.1 eq).1 longest.isLexeme.ne_nil
  | @blank c _ _ _ _ _ blank _ =>
    cases lexeme with
    | nil => exact absurd rfl longest.isLexeme.ne_nil
    | cons d lexeme =>
      obtain ⟨rfl, -⟩ := List.cons.inj eq
      exact absurd longest.isLexeme (Terminal.not_lexeme_blank blank t lexeme)
  | lexeme longest' way =>
    obtain ⟨rfl, rfl⟩ := longest.unique longest'
    obtain rfl := List.append_cancel_left eq
    exact ⟨_, rfl, way⟩

end Ways

end SmallImp

/-
# The grammar of programs

The grammar as a table: each nonterminal has a pattern of terminals and nonterminals, where
`opt` stands for what may be left out, `+` separates choices and `star` repeats.  A pattern
stands for all productions that its choices and repetitions make, so the table is a plain
context-free grammar, and `Derives` is derivation in it.  Nothing says which `if` an `else`
belongs to: a text with two ways to attach one has two derivations.

`language` is what a nonterminal derives.  A table of patterns is a system of equations between
languages (`language_eq`), with `generated` sending the operators on patterns to those on
languages.
-/
import Mathlib
import SmallImp.Token.Terminal

namespace SmallImp
namespace Grammar

/-- The nonterminals.  From `logic` on they are the levels of expressions, the loosest first. -/
inductive Nonterminal where
  | start | sequence | item | declaration | type | command | assignment | ifCommand
  | whileCommand | printCommand | forCommand | forInit | forStep | body | expression
  | logic | negation | equality | relation | power | sum | product | sign | atom
  deriving DecidableEq

/-- The right-hand side of a nonterminal. -/
abbrev Pattern := RegularExpression (Symbol Terminal Nonterminal)

/-- One token. -/
def tok (terminal : Terminal) : Pattern := .char (.terminal terminal)

/-- What a nonterminal derives. -/
def ref (nonterminal : Nonterminal) : Pattern := .char (.nonterminal nonterminal)

/-- What may be left out. -/
def opt (pattern : Pattern) : Pattern := 1 + pattern

/-- The table of the grammar. -/
def rule : Nonterminal → Pattern
  | .start => opt (ref .sequence)
  | .sequence => ref .item * (tok .separator * ref .item).star
  | .item => ref .declaration + ref .command
  | .declaration =>
    tok .letWord * tok .identifier * tok .colon * ref .type * tok .assign * ref .expression +
    tok .letWord * tok .colon * ref .type * tok .identifier * tok .assign * ref .expression +
    tok .constWord * tok .identifier * tok .colon * ref .type * tok .assign * ref .expression +
    tok .constWord * tok .colon * ref .type * tok .identifier * tok .assign * ref .expression
  | .type => tok .numWord + tok .boolWord
  | .command =>
    ref .assignment + ref .ifCommand + ref .whileCommand + ref .printCommand + ref .forCommand
  | .assignment => tok .identifier * tok .assign * ref .expression
  | .ifCommand =>
    tok .ifWord * ref .expression * opt (tok .thenWord) * ref .body *
      opt (tok .elseWord * ref .body)
  | .whileCommand => tok .whileWord * ref .expression * opt (tok .doWord) * ref .body
  | .printCommand => tok .printWord * ref .expression
  | .forCommand =>
    tok .forWord * tok .leftParen * opt (ref .forInit) * tok .comma * ref .expression *
      tok .comma * opt (ref .forStep) * tok .rightParen * opt (tok .doWord) * ref .body
  | .forInit => ref .declaration
  | .forStep => ref .command
  | .body => opt (ref .command) + tok .leftBrace * opt (ref .sequence) * tok .rightBrace
  | .expression => ref .logic
  | .logic => ref .negation + ref .negation * (tok .and + tok .or) * ref .negation
  | .negation => ref .equality + tok .not * ref .negation
  | .equality => ref .relation + ref .relation * (tok .equal + tok .notEqual) * ref .relation
  | .relation =>
    ref .power +
      ref .power * (tok .less + tok .greater + tok .lessOrEqual + tok .greaterOrEqual) *
        ref .power
  | .power => ref .sum + ref .sum * tok .caret * ref .power
  | .sum => ref .product + ref .sum * (tok .plus + tok .minus) * ref .product
  | .product =>
    ref .sign +
      ref .product * (tok .star + tok .slash + tok .floorSlash + tok .percent) * ref .sign
  | .sign => ref .atom + (tok .plus + tok .minus) * ref .sign
  | .atom =>
    tok .number + tok .trueWord + tok .falseWord + tok .identifier +
      tok .leftParen * ref .expression * tok .rightParen

/-- Derivation of words from forms, lists of terminals and nonterminals: a terminal derives
itself, and a nonterminal what one of its productions derives. -/
inductive Derives : List (Symbol Terminal Nonterminal) → List Terminal → Prop
  | nil : Derives [] []
  | terminal {t : Terminal} {form : List (Symbol Terminal Nonterminal)} {word : List Terminal} :
    Derives form word → Derives (.terminal t :: form) (t :: word)
  | nonterminal {n : Nonterminal} {production form : List (Symbol Terminal Nonterminal)}
      {first word : List Terminal} :
    production ∈ (rule n).matches' → Derives production first → Derives form word →
      Derives (.nonterminal n :: form) (first ++ word)

/-- The words that a nonterminal derives. -/
def language (n : Nonterminal) : Language Terminal := {word | Derives [.nonterminal n] word}

/-- Whether a word is a program. -/
def IsSentence (word : List Terminal) : Prop := word ∈ language .start

/-- Whether a word can be continued to a program. -/
def IsViable (word : List Terminal) : Prop := ∃ more, IsSentence (word ++ more)

/-! ## The table as equations -/

/-- **A form derives part by part.** -/
theorem derives_append {first second : List (Symbol Terminal Nonterminal)}
    {word : List Terminal} :
    Derives (first ++ second) word ↔
      ∃ u v, Derives first u ∧ Derives second v ∧ u ++ v = word := by
  constructor
  · intro h
    induction first generalizing word with
    | nil => exact ⟨[], word, .nil, h, rfl⟩
    | cons symbol form ih =>
      cases h with
      | terminal h =>
        obtain ⟨u, v, hu, hv, rfl⟩ := ih h
        exact ⟨_, v, .terminal hu, hv, rfl⟩
      | nonterminal hp h₁ h₂ =>
        obtain ⟨u, v, hu, hv, rfl⟩ := ih h₂
        exact ⟨_, v, .nonterminal hp h₁ hu, hv, List.append_assoc ..⟩
  · rintro ⟨u, v, hu, hv, rfl⟩
    induction hu with
    | nil => exact hv
    | terminal _ ih => exact .terminal ih
    | nonterminal hp h₁ _ _ ih =>
      rw [List.append_assoc]
      exact .nonterminal hp h₁ ih

/-- The words that the forms of a pattern derive. -/
def generated (pattern : Pattern) : Language Terminal :=
  {word | ∃ form ∈ pattern.matches', Derives form word}

theorem mem_generated {pattern : Pattern} {word : List Terminal} :
    word ∈ generated pattern ↔ ∃ form ∈ pattern.matches', Derives form word := Iff.rfl

/-- The language of one word of one terminal. -/
def single (t : Terminal) : Language Terminal := {[t]}

@[simp]
theorem mem_single {t : Terminal} {word : List Terminal} : word ∈ single t ↔ word = [t] := Iff.rfl

theorem exists_mem_single (t : Terminal) : ∃ word, word ∈ single t := ⟨[t], rfl⟩

theorem exists_mem_mul {X Y : Language Terminal} (hX : ∃ word, word ∈ X)
    (hY : ∃ word, word ∈ Y) : ∃ word, word ∈ X * Y := by
  obtain ⟨u, hu⟩ := hX
  obtain ⟨v, hv⟩ := hY
  exact ⟨u ++ v, Language.append_mem_mul hu hv⟩

theorem cons_mem_single_mul {t u : Terminal} {word : List Terminal} {X : Language Terminal} :
    t :: word ∈ single u * X ↔ t = u ∧ word ∈ X := by
  constructor
  · intro h
    obtain ⟨_, rfl, v, hv, eq⟩ := Language.mem_mul.1 h
    obtain ⟨rfl, rfl⟩ := List.cons.inj eq
    exact ⟨rfl, hv⟩
  · rintro ⟨rfl, h⟩
    exact Language.append_mem_mul (mem_single.2 rfl) h

theorem cons_mem_single_mul_mul {t u : Terminal} {word : List Terminal}
    {X K : Language Terminal} : t :: word ∈ single u * X * K ↔ t = u ∧ word ∈ X * K := by
  rw [mul_assoc, cons_mem_single_mul]

theorem nil_notMem_single_mul {u : Terminal} {X : Language Terminal} : [] ∉ single u * X := by
  intro h
  obtain ⟨_, rfl, v, hv, eq⟩ := Language.mem_mul.1 h
  cases eq

@[simp]
theorem generated_one : generated 1 = 1 := by
  ext word
  simp only [mem_generated, RegularExpression.matches'_epsilon, Language.mem_one,
    exists_eq_left]
  constructor
  · rintro ⟨⟩
    rfl
  · rintro rfl
    exact .nil

@[simp]
theorem generated_tok (t : Terminal) : generated (tok t) = single t := by
  ext word
  simp only [tok, mem_generated, RegularExpression.matches'_char, mem_single]
  constructor
  · rintro ⟨_, rfl, _ | ⟨_ | _⟩⟩
    rfl
  · rintro rfl
    exact ⟨_, rfl, .terminal .nil⟩

@[simp]
theorem generated_ref (n : Nonterminal) : generated (ref n) = language n := by
  ext word
  simp only [ref, mem_generated, RegularExpression.matches'_char]
  constructor
  · rintro ⟨_, rfl, h⟩
    exact h
  · exact fun h => ⟨_, rfl, h⟩

@[simp]
theorem generated_add (p q : Pattern) : generated (p + q) = generated p + generated q := by
  ext word
  simp only [mem_generated, RegularExpression.matches'_add, Language.mem_add, or_and_right,
    exists_or]

@[simp]
theorem generated_mul (p q : Pattern) : generated (p * q) = generated p * generated q := by
  ext word
  simp only [mem_generated, RegularExpression.matches'_mul, Language.mem_mul]
  constructor
  · rintro ⟨_, ⟨first, hp, second, hq, rfl⟩, h⟩
    obtain ⟨u, v, hu, hv, rfl⟩ := derives_append.1 h
    exact ⟨u, ⟨first, hp, hu⟩, v, ⟨second, hq, hv⟩, rfl⟩
  · rintro ⟨u, ⟨first, hp, hu⟩, v, ⟨second, hq, hv⟩, rfl⟩
    exact ⟨first ++ second, ⟨first, hp, second, hq, rfl⟩, derives_append.2 ⟨u, v, hu, hv, rfl⟩⟩

@[simp]
theorem generated_opt (p : Pattern) : generated (opt p) = 1 + generated p := by
  rw [opt, generated_add, generated_one]

/-- The words of a repeated pattern: none of its words, or one and more of them. -/
theorem generated_star (p : Pattern) :
    generated p.star = 1 + generated p * generated p.star := by
  have unfolded : p.star.matches' = (1 + p * p.star).matches' := by
    rw [RegularExpression.matches'_add, RegularExpression.matches'_mul,
      RegularExpression.matches'_star, RegularExpression.matches'_epsilon,
      Language.one_add_self_mul_kstar_eq_kstar]
  calc generated p.star = generated (1 + p * p.star) := by
        ext word
        rw [mem_generated, mem_generated, unfolded]
    _ = 1 + generated p * generated p.star := by
      rw [generated_add, generated_mul, generated_one]

/-- **What a nonterminal derives is what its pattern stands for.** -/
theorem language_eq (n : Nonterminal) : language n = generated (rule n) := by
  ext word
  rw [mem_generated]
  constructor
  · rintro (_ | _ | ⟨hp, h, ⟨⟩⟩)
    exact ⟨_, hp, by rwa [List.append_nil]⟩
  · rintro ⟨production, hp, h⟩
    have := Derives.nonterminal hp h .nil
    rwa [List.append_nil] at this

end Grammar
end SmallImp

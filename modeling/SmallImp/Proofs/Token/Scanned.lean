/-
# What the scanner makes of a text

The tokens of a text tile it.  `Scanned` is a way over a text by blanks and longest lexemes,
with the tokens met on it; `scan_scanned` says that `scan` goes such a way to the end of the
text, or to the first place where neither a blank nor a lexeme starts.
-/
import SmallImp.Proofs.Token.Lexemes

namespace SmallImp

open Scan

/-- A way over a text by blanks and longest lexemes: the text and the place it starts at, the
tokens on it, and the text and the place it has come to. -/
inductive Scanned : List Char → Position → List Token → List Char → Position → Prop where
  | here (text place) : Scanned text place [] text place
  | blank {c text place tokens rest last} : isBlank c = true →
      Scanned text (place.next c) tokens rest last → Scanned (c :: text) place tokens rest last
  | lexeme {t lexeme text place tokens rest last} : t.IsLongest lexeme (lexeme ++ text) →
      Scanned text (place.advance lexeme) tokens rest last →
      Scanned (lexeme ++ text) place
        (⟨t, String.ofList lexeme, place, place.advance lexeme⟩ :: tokens) rest last

/-- Neither a blank nor a lexeme starts a text. -/
def Unscannable (text : List Char) : Prop :=
  text.head?.all (!isBlank ·) = true ∧
    ∀ (t : Terminal) (lexeme : List Char), lexeme <+: text → ¬ t.Lexeme lexeme

/-- Why scanning stopped where it did. -/
def Stopped (rest : List Char) (last : Position) : Option (Char × Position) → Prop
  | none => rest = []
  | some (c, place) => place = last ∧ rest.head? = some c ∧ Unscannable rest

/-- The walk past the characters of a lexeme and on from there. -/
theorem scanFrom_scanned (text : List Char) (pending : Nat) (place : Position) :
    ∃ rest last, Scanned (text.drop pending) (place.advance (text.take pending))
        (scanFrom text pending place).tokens rest last ∧
      Stopped rest last (scanFrom text pending place).stop := by
  fun_induction scanFrom text pending place with
  | case1 pending place =>
    rw [List.drop_nil, List.take_nil]
    exact ⟨[], place, .here [] place, rfl⟩
  | case2 c rest pending place ih => exact ih
  | case3 c text place blank ih =>
    obtain ⟨rest, last, scanned, stopped⟩ := ih
    exact ⟨rest, last, .blank blank scanned, stopped⟩
  | case4 c text place blank missing =>
    refine ⟨c :: text, place, .here _ place, rfl, rfl, ?_, fun t lexeme starts => ?_⟩
    · simpa using blank
    · exact Terminal.not_lexeme_of_lexeme? missing starts
  | case5 c text place blank t length found lexeme ih =>
    obtain ⟨rest, last, scanned, stopped⟩ := ih
    have longest := Terminal.isLongest_of_lexeme? found
    -- the lexeme has a character, and the walk goes on after those it has more
    obtain ⟨more, rfl⟩ : ∃ more, length = more + 1 := by
      cases length with
      | zero => exact absurd rfl longest.isLexeme.ne_nil
      | succ more => exact ⟨more, rfl⟩
    have split : c :: text = lexeme ++ text.drop more := by
      rw [show lexeme = c :: text.take more from rfl, List.cons_append, List.take_append_drop]
    refine ⟨rest, last, ?_, stopped⟩
    rw [List.drop_zero, List.take_zero, split]
    exact .lexeme (split ▸ longest) scanned

/-- **Scanning goes by blanks and longest lexemes**, to the end of a text or to the first place
where none starts. -/
theorem scan_scanned (source : String) :
    ∃ rest last, Scanned source.toList .origin (scan source).tokens rest last ∧
      Stopped rest last (scan source).stop :=
  scanFrom_scanned source.toList 0 .origin

/-- Scanning itself makes no separators. -/
theorem Scanned.terminal_ne_separator {text rest : List Char} {place last : Position}
    {tokens : List Token} (scanned : Scanned text place tokens rest last) :
    ∀ token ∈ tokens, token.terminal ≠ .separator := by
  induction scanned with
  | here => exact List.forall_mem_nil _
  | blank _ _ ih => exact ih
  | lexeme longest _ ih =>
    rintro token (_ | ⟨_, mem⟩)
    · rintro rfl
      exact Terminal.not_lexeme_separator _ longest.isLexeme
    · exact ih token mem

end SmallImp

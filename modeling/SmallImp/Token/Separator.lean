/-
# Separators

Newlines and semicolons separate commands, but most are layout only.  `separated` drops
those and leaves one separator token for each run that counts:

* a newline inside parentheses is layout;
* of a run of newlines and semicolons only the first counts;
* a run at the start of the text or after `{` is layout, and so is one before `{`, `}`,
  `else`, `then`, `do` or the end of the text.

A run is held back until the next token shows whether it counts.
-/
import SmallImp.Token.Terminal

namespace SmallImp
namespace Separator

/-- What is known after some tokens. -/
structure State where
  /-- The number of open parentheses; a closing one with no partner does not count. -/
  depth : Nat
  /-- The last token that was no newline or semicolon. -/
  previous : Option Terminal
  /-- The newline or semicolon held back. -/
  pending : Option Token
  deriving DecidableEq, Repr

/-- The state before the first token. -/
def State.initial : State := ⟨0, none, none⟩

/-- Where a run of separators starts nothing: at the start of a text and after `{`. -/
def isLeading : Option Terminal → Bool
  | none => true
  | some .leftBrace => true
  | _ => false

/-- The tokens that a run of separators before them ends nothing for. -/
def isAbsorbing : Terminal → Bool
  | .leftBrace | .rightBrace | .elseWord | .thenWord | .doWord => true
  | _ => false

/-- Whether a token is a separator in this state, and not layout inside parentheses. -/
def State.counts (state : State) (token : Token) : Bool :=
  token.terminal == .semicolon || (token.terminal == .newline && state.depth == 0)

/-- The depth after a token. -/
def depthAfter (depth : Nat) : Terminal → Nat
  | .leftParen => depth + 1
  | .rightParen => depth - 1
  | _ => depth

/-- What a token that is no newline or semicolon lets through, itself last. -/
def State.release (state : State) (token : Token) : List Token :=
  match state.pending with
  | some held =>
    if isAbsorbing token.terminal then [token] else [{ held with terminal := .separator }, token]
  | none => [token]

/-- One token: what is let through, and the state after it. -/
def State.step (state : State) (token : Token) : List Token × State :=
  if token.terminal = .newline ∨ token.terminal = .semicolon then
    if state.counts token && !isLeading state.previous && state.pending.isNone then
      ([], { state with pending := some token })
    else ([], state)
  else
    (state.release token, ⟨depthAfter state.depth token.terminal, some token.terminal, none⟩)

/-- A list of tokens: what is let through, and the state at its end. -/
def State.run (state : State) : List Token → List Token × State
  | [] => ([], state)
  | token :: rest =>
    let (now, next) := state.step token
    let (later, final) := next.run rest
    (now ++ later, final)

/-- The state in which a list of tokens is begun: nothing of an earlier list counts. -/
def State.reset (_earlier : State) : State := initial

/-- A whole list of tokens after another, which may have been left half-way. -/
def State.process (earlier : State) (tokens : List Token) : List Token × State :=
  earlier.reset.run tokens

/-- A list is run through part by part. -/
theorem State.run_append (state : State) (first second : List Token) :
    state.run (first ++ second) =
      ((state.run first).1 ++ ((state.run first).2.run second).1,
        ((state.run first).2.run second).2) := by
  induction first generalizing state with
  | nil => rfl
  | cons token rest ih => simp [State.run, ih, List.append_assoc]

end Separator

/-- The tokens with their separators settled. -/
def separated (tokens : List Token) : List Token := (Separator.State.initial.run tokens).1

end SmallImp

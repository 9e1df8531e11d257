/-
# Commands are read as they are spelled

A list of tokens makes up a program just if it spells one that is settled (`program_ok_iff`), so
the readers give every `else` to the nearest `if` and otherwise read what is there.  Both halves
are inductions on the fuel, with one lemma for each reader.

A reader that ends with an open command has looked for an `else` and found none.  That is what
makes the first branch of an `if` with `else` one that is not open.
-/
import SmallImp.Proofs.Phrase.Expressions
import SmallImp.Proofs.Grammar.Commands

namespace SmallImp
namespace Phrase

/-! ## Open commands -/

/-- What was read is related to the tokens that were left. -/
def Leaves {α : Type} (leaves : α → List Token → Prop) : Reading α → Prop
  | .read phrase rest => leaves phrase rest
  | .failed _ => True

namespace Leaves

variable {α β : Type} {P : β → List Token → Prop}

/-- The last reader decides which tokens are left. -/
theorem andThen (reading : Reading α) {next : α → List Token → Reading β}
    (h : ∀ phrase rest, Leaves P (next phrase rest)) : Leaves P (reading.andThen next) := by
  cases reading with
  | read phrase rest => exact h phrase rest
  | failed => trivial

theorem map {reading : Reading α} {make : α → β}
    (h : Leaves (fun phrase rest => P (make phrase) rest) reading) :
    Leaves P (reading.map make) := by
  cases reading with
  | read => exact h
  | failed => trivial

theorem always (reading : Reading β) (h : ∀ phrase rest, P phrase rest) : Leaves P reading := by
  cases reading with
  | read => exact h _ _
  | failed => trivial

end Leaves

/-- With an open phrase read, no `else` is left in front. -/
def Ended {α : Type} (isOpen : α → Bool) (phrase : α) (rest : List Token) : Prop :=
  isOpen phrase = true → nextIs (· == .elseWord) rest = false

/-- What is not open asks for nothing. -/
theorem Ended.of_closed {α : Type} {isOpen : α → Bool} {phrase : α} {rest : List Token}
    (closed : isOpen phrase = false) : Ended isOpen phrase rest :=
  fun open_ => absurd (closed.symm.trans open_) Bool.false_ne_true

/-- The readers of what may be open leave no `else` in front of them, with some fuel. -/
structure CommandsEnd (fuel : Nat) : Prop where
  command : ∀ tokens, Leaves (Ended Command.isOpen) (command fuel tokens)
  optionalCommand : ∀ tokens,
    Leaves (Ended OptionalCommand.isOpen) (optionalCommand fuel tokens)
  body : ∀ tokens, Leaves (Ended Body.isOpen) (body fuel tokens)

namespace CommandsEnd

variable {fuel : Nat}

theorem command_succ (ih : CommandsEnd fuel) (tokens : List Token) :
    Leaves (Ended Command.isOpen) (Phrase.command (fuel + 1) tokens) := by
  cases tokens with
  | nil => trivial
  | cons token rest =>
    rw [Phrase.command]
    split
    case h_1 => exact .andThen _ fun _ _ => .map (.always _ fun _ _ => .of_closed rfl)
    case h_2 => exact .map (.always _ fun _ _ => .of_closed rfl)
    case h_3 =>
      refine .andThen _ fun condition rest => .andThen _ fun first after => ?_
      cases after with
      | nil => exact fun _ => rfl
      | cons other more =>
        rw [optional]
        by_cases else_ : other.terminal = .elseWord
        · rw [if_pos else_]
          exact .map (ih.body more)
        · rw [if_neg else_]
          exact fun _ => by simpa [nextIs] using else_
    case h_4 => exact .andThen _ fun _ _ => .map (ih.body _)
    case h_5 =>
      exact .andThen _ fun _ _ => .andThen _ fun _ _ => .andThen _ fun _ _ => .andThen _ fun _ _ =>
        .andThen _ fun _ _ => .andThen _ fun _ _ => .andThen _ fun _ _ => .map (ih.body _)
    case h_6 => trivial

theorem optionalCommand_succ (ih : CommandsEnd fuel) (tokens : List Token) :
    Leaves (Ended OptionalCommand.isOpen) (Phrase.optionalCommand (fuel + 1) tokens) := by
  rw [Phrase.optionalCommand]
  split
  case isTrue => exact .map (ih.command tokens)
  case isFalse => exact Ended.of_closed rfl

theorem body_succ (ih : CommandsEnd fuel) (tokens : List Token) :
    Leaves (Ended Body.isOpen) (Phrase.body (fuel + 1) tokens) := by
  rw [Phrase.body]
  split
  · exact .andThen _ fun _ _ => .map (.always _ fun _ _ => .of_closed rfl)
  · exact .map (ih.optionalCommand _)

end CommandsEnd

/-- **After what is open, the readers of commands leave no `else`.** -/
theorem commandsEnd (fuel : Nat) : CommandsEnd fuel := by
  induction fuel with
  | zero => exact ⟨fun _ => trivial, fun _ => trivial, fun _ => trivial⟩
  | succ fuel ih => exact ⟨ih.command_succ, ih.optionalCommand_succ, ih.body_succ⟩

/-! ## What is read is spelled -/

theorem Yields.typeName (tokens : List Token) :
    Yields (fun type used => ∃ token, used = [token] ∧ NamesType type token) tokens
      (typeName tokens) := by
  cases tokens with
  | nil => trivial
  | cons token rest =>
    rw [Phrase.typeName]
    split
    case h_1 h => exact .one ⟨token, rfl, .number h⟩
    case h_2 h => exact .one ⟨token, rfl, .boolean h⟩
    case h_3 => trivial

theorem Yields.fields (tokens : List Token) :
    Yields (fun field used => SpellsFields field.1 field.2.1 field.2.2 used) tokens
      (fields tokens) := by
  cases tokens with
  | nil => trivial
  | cons token rest =>
    rw [Phrase.fields]
    split
    case h_1 name =>
      refine .token (.expect_andThen fun colon rest colon_ => ?_)
      refine (Yields.typeName rest).map _ fun type used there => ?_
      obtain ⟨_, rfl, names⟩ := there
      exact .nameFirst name colon_ names
    case h_2 colon =>
      refine .token ((Yields.typeName rest).andThen fun type used rest _ there => ?_)
      obtain ⟨_, rfl, names⟩ := there
      refine (Yields.expect .identifier rest).map _ fun name used there => ?_
      obtain ⟨name_, rfl⟩ := there
      exact .typeFirst colon names name_
    case h_3 => trivial

theorem Yields.declaration (fuel : Nat) (tokens : List Token) :
    Yields Declaration.Spells tokens (declaration fuel tokens) := by
  cases tokens with
  | nil => trivial
  | cons token rest =>
    rw [Phrase.declaration]
    split
    case isTrue starts =>
      refine .token ((Yields.fields rest).andThen fun field head rest _ fields => ?_)
      refine .expect_andThen fun assign rest assigns => ?_
      exact ((expressionsYield fuel).expression .logic rest).map _ fun value used spells =>
        .mk starts fields assigns spells
    case isFalse => trivial

theorem Yields.optionalDeclaration (fuel : Nat) (tokens : List Token) :
    Yields SpellsInitial tokens (optionalDeclaration fuel tokens) := by
  rw [Phrase.optionalDeclaration]
  split
  case isTrue => exact (Yields.declaration fuel tokens).map _ fun _ _ => .some
  case isFalse => exact .none .none

/-- A word that may be left out, with more after it. -/
theorem Yields.optional {β : Type} {Q : β → List Token → Prop} {tokens : List Token}
    {reading : Reading β} (terminal : Terminal)
    (second : ∀ used, SpellsWord terminal (optional terminal tokens).1 used →
      Yields (fun result more => Q result (used ++ more)) (optional terminal tokens).2 reading) :
    Yields Q tokens reading := by
  cases tokens with
  | nil => exact second [] .none
  | cons token rest =>
    rw [Phrase.optional] at second
    split at second
    case isTrue here => exact .token (second [token] (.some here))
    case isFalse => exact second [] .none

/-- What the readers of commands take with some fuel. -/
structure CommandsYield (fuel : Nat) : Prop where
  command : ∀ tokens, Yields (fun c used => c.Spells used ∧ c.Settled) tokens (command fuel tokens)
  optionalCommand : ∀ tokens,
    Yields (fun c used => c.Spells used ∧ c.Settled) tokens (optionalCommand fuel tokens)
  body : ∀ tokens, Yields (fun b used => b.Spells used ∧ b.Settled) tokens (body fuel tokens)
  optionalItems : ∀ tokens,
    Yields (fun i used => i.Spells used ∧ i.Settled) tokens (optionalItems fuel tokens)
  items : ∀ tokens,
    Yields (fun i used => i ≠ .nil ∧ i.Spells used ∧ i.Settled) tokens (items fuel tokens)
  moreItems : ∀ tokens,
    Yields (fun i used => i.SpellsRest used ∧ i.Settled) tokens (moreItems fuel tokens)

namespace CommandsYield

variable {fuel : Nat}

/-- What follows the word of an `if`. -/
theorem if_yields (ih : CommandsYield fuel) {word : Token} (here : word.terminal = .ifWord)
    (tokens : List Token) :
    Yields (fun (c : Command) used => c.Spells (word :: used) ∧ c.Settled) tokens
      ((Phrase.expression fuel .logic tokens).andThen fun condition rest =>
        (Phrase.body fuel (optional .thenWord rest).2).andThen fun first after =>
        match optional .elseWord after with
        | (some elseAt, after) =>
          (Phrase.body fuel after).map fun second =>
            Command.ifElse word.block condition (optional .thenWord rest).1 first elseAt second
        | (none, after) =>
          .read (Command.ifThen word.block condition (optional .thenWord rest).1 first) after) := by
  refine ((expressionsYield fuel).expression .logic tokens).andThen
    fun condition test rest _ tests => .optional .thenWord fun used then_ => ?_
  refine (ih.body _).andThen fun first inner after reads spells => ?_
  -- the branch alone
  have alone : Yields (fun (c : Command) more =>
      c.Spells (word :: (test ++ (used ++ (inner ++ more)))) ∧ c.Settled) after
      (.read (.ifThen word.block condition (optional .thenWord rest).1 first) after) :=
    .none ⟨by simpa using Command.Spells.ifThen here tests then_ spells.1, spells.2⟩
  cases after with
  | nil => exact alone
  | cons other more =>
    rw [Phrase.optional]
    by_cases else_ : other.terminal = .elseWord
    · rw [if_pos else_]
      -- an open branch would have taken the `else`
      have closed : first.isOpen = false := by
        by_contra isOpen
        have := (commandsEnd fuel).body (optional .thenWord rest).2
        rw [reads] at this
        simpa [nextIs, else_] using this (by simpa using isOpen)
      refine .token ((ih.body more).map _ fun second outer there => ?_)
      exact ⟨.ifElse here tests then_ spells.1 else_ there.1, closed, spells.2, there.2⟩
    · rw [if_neg else_]
      exact alone

/-- The body of a loop, after `do` or not. -/
theorem do_yields {α : Type} {P : α → List Token → Prop} (ih : CommandsYield fuel)
    (tokens : List Token) (make : Option Block → Body → α)
    (spells : ∀ doAt body word inner, SpellsWord .doWord doAt word → Body.Spells body inner →
      body.Settled → P (make doAt body) (word ++ inner)) :
    Yields P tokens ((Phrase.body fuel (optional .doWord tokens).2).map
      (make (optional .doWord tokens).1)) :=
  .optional .doWord fun word do_ => (ih.body _).map _ fun body inner there =>
    spells _ body word inner do_ there.1 there.2

/-- What follows the word of a `for`. -/
theorem for_yields (ih : CommandsYield fuel) {word : Token} (here : word.terminal = .forWord)
    (tokens : List Token) :
    Yields (fun (c : Command) used => c.Spells (word :: used) ∧ c.Settled) tokens
      ((Phrase.expect .leftParen tokens).andThen fun _ rest =>
      (Phrase.optionalDeclaration fuel rest).andThen fun initial rest =>
      (Phrase.expect .comma rest).andThen fun _ rest =>
      (Phrase.expression fuel .logic rest).andThen fun condition rest =>
      (Phrase.expect .comma rest).andThen fun _ rest =>
      (Phrase.optionalCommand fuel rest).andThen fun step rest =>
      (Phrase.expect .rightParen rest).andThen fun closing rest =>
      (Phrase.body fuel (optional .doWord rest).2).map fun inner =>
        Command.forLoop word.block initial condition step closing.block (optional .doWord rest).1
          inner) := by
  refine .expect_andThen fun opening rest opens => ?_
  refine (Yields.optionalDeclaration fuel rest).andThen fun initial start rest _ starts => ?_
  refine .expect_andThen fun comma rest comma_ => ?_
  refine ((expressionsYield fuel).expression .logic rest).andThen
    fun condition test rest _ tests => ?_
  refine .expect_andThen fun comma' rest comma'_ => ?_
  refine (ih.optionalCommand rest).andThen fun step next rest _ steps => ?_
  refine .expect_andThen fun closing rest closes => ?_
  refine ih.do_yields rest (Command.forLoop word.block initial condition step closing.block)
    fun doAt body word inner do_ spells settled => ?_
  exact ⟨.forLoop here opens starts comma_ tests comma'_ steps.1 closes do_ spells,
    steps.2, settled⟩

theorem command_succ (ih : CommandsYield fuel) (tokens : List Token) :
    Yields (fun c used => c.Spells used ∧ c.Settled) tokens
      (Phrase.command (fuel + 1) tokens) := by
  cases tokens with
  | nil => trivial
  | cons token rest =>
    have expression := (expressionsYield fuel).expression .logic
    rw [Phrase.command]
    split
    case h_1 name =>
      refine .token (.expect_andThen fun assign rest assigns => ?_)
      exact (expression rest).map _ fun value used spells =>
        ⟨.assign name assigns spells, trivial⟩
    case h_2 here =>
      exact .token ((expression rest).map _ fun value used spells => ⟨.print here spells, trivial⟩)
    case h_3 here => exact .token (ih.if_yields here rest)
    case h_4 here =>
      refine .token ((expression rest).andThen fun condition test rest _ tests => ?_)
      exact ih.do_yields rest (Command.whileLoop token.block condition)
        fun doAt body word inner do_ spells settled => ⟨.whileLoop here tests do_ spells, settled⟩
    case h_5 here => exact .token (ih.for_yields here rest)
    case h_6 => trivial

theorem optionalCommand_succ (ih : CommandsYield fuel) (tokens : List Token) :
    Yields (fun c used => c.Spells used ∧ c.Settled) tokens
      (Phrase.optionalCommand (fuel + 1) tokens) := by
  rw [Phrase.optionalCommand]
  split
  case isTrue => exact (ih.command tokens).map _ fun _ _ there => ⟨.some there.1, there.2⟩
  case isFalse => exact .none ⟨.none, trivial⟩

theorem body_succ (ih : CommandsYield fuel) (tokens : List Token) :
    Yields (fun b used => b.Spells used ∧ b.Settled) tokens (Phrase.body (fuel + 1) tokens) := by
  have bare : Yields (fun b used => Body.Spells b used ∧ b.Settled) tokens
      ((Phrase.optionalCommand fuel tokens).map .bare) :=
    (ih.optionalCommand tokens).map _ fun _ _ there => ⟨.bare there.1, there.2⟩
  rw [Phrase.body]
  cases tokens with
  | nil => exact bare
  | cons opening rest =>
    rw [optional]
    by_cases opens : opening.terminal = .leftBrace
    · rw [if_pos opens]
      refine .token ((ih.optionalItems rest).andThen fun inner used rest _ there => ?_)
      refine (Yields.expect .rightBrace rest).map _ fun closing last closes => ?_
      obtain ⟨closes, rfl⟩ := closes
      exact ⟨.braced opens there.1 closes, there.2⟩
    · rw [if_neg opens]
      exact bare

theorem optionalItems_succ (ih : CommandsYield fuel) (tokens : List Token) :
    Yields (fun i used => i.Spells used ∧ i.Settled) tokens
      (Phrase.optionalItems (fuel + 1) tokens) := by
  rw [Phrase.optionalItems]
  split
  case isTrue => exact .none ⟨.nil, trivial⟩
  case isFalse => exact (ih.items tokens).mono fun _ _ there => there.2

theorem items_succ (ih : CommandsYield fuel) (tokens : List Token) :
    Yields (fun i used => i ≠ .nil ∧ i.Spells used ∧ i.Settled) tokens
      (Phrase.items (fuel + 1) tokens) := by
  rw [Phrase.items]
  split
  case isTrue =>
    refine (Yields.declaration fuel tokens).andThen fun first used rest _ here => ?_
    exact (ih.moreItems rest).map _ fun more after there =>
      ⟨by simp, .declaration here there.1, there.2⟩
  case isFalse =>
    refine (ih.command tokens).andThen fun first used rest _ here => ?_
    exact (ih.moreItems rest).map _ fun more after there =>
      ⟨by simp, .command here.1 there.1, here.2, there.2⟩

theorem moreItems_succ (ih : CommandsYield fuel) (tokens : List Token) :
    Yields (fun i used => i.SpellsRest used ∧ i.Settled) tokens
      (Phrase.moreItems (fuel + 1) tokens) := by
  rw [Phrase.moreItems]
  cases tokens with
  | nil => exact .none ⟨.nil, trivial⟩
  | cons separator rest =>
    rw [optional]
    by_cases here : separator.terminal = .separator
    · rw [if_pos here]
      exact .token ((ih.items rest).mono fun _ _ there => ⟨.items here there.1 there.2.1, there.2.2⟩)
    · rw [if_neg here]
      exact .none ⟨.nil, trivial⟩

end CommandsYield

/-- **What the readers of commands read is spelled by the tokens that they took, and settled.** -/
theorem commandsYield (fuel : Nat) : CommandsYield fuel := by
  induction fuel with
  | zero => constructor <;> exact fun _ => trivial
  | succ fuel ih =>
    exact ⟨ih.command_succ, ih.optionalCommand_succ, ih.body_succ, ih.optionalItems_succ,
      ih.items_succ, ih.moreItems_succ⟩

/-! ## What is spelled is read -/

section Read

variable {fuel : Nat} {rest : List Token}

/-- A test that the next token passes, if there is one. -/
def AtHead (test : Terminal → Bool) (tokens : List Token) : Prop :=
  ∀ token ∈ tokens.head?, test token.terminal = true

theorem atHead_cons {test : Terminal → Bool} {token : Token} :
    AtHead test (token :: rest) ↔ test token.terminal = true := by
  simp [AtHead]

theorem AtHead.mono {test test' : Terminal → Bool} (h : AtHead test rest)
    (le : ∀ t, test t = true → test' t = true) : AtHead test' rest :=
  fun token mem => le _ (h token mem)

/-- Where the next token passes one test, it fails another that excludes it. -/
theorem AtHead.nextIs_eq_false {test other : Terminal → Bool} (h : AtHead test rest)
    (apart : ∀ t, test t = true → other t = false) : nextIs other rest = false := by
  cases rest with
  | nil => rfl
  | cons token rest => exact apart _ (atHead_cons.1 h)

theorem AtHead.stopsAt {test : Terminal → Bool} (h : AtHead test rest)
    (none : ∀ t, test t = true → Level.ofOperator? t = none) (ℓ : Level) : ℓ.StopsAt rest := by
  intro token mem m operator
  rw [none _ (h token mem)] at operator
  cases operator

theorem expect_cons {terminal : Terminal} {token : Token} (h : token.terminal = terminal) :
    expect terminal (token :: rest) = .read token rest := by rw [expect, if_pos h]

theorem optional_eq_none {terminal : Terminal} (h : nextIs (· == terminal) rest = false) :
    optional terminal rest = (none, rest) := by
  cases rest with
  | nil => rfl
  | cons token rest => rw [optional, if_neg (by simpa [nextIs] using h)]

/-- A word that may be left out is read, before what does not start with it. -/
theorem SpellsWord.read {terminal : Terminal} {written : Option Block} {used : List Token}
    (h : SpellsWord terminal written used) (other : nextIs (· == terminal) rest = false) :
    optional terminal (used ++ rest) = (written, rest) := by
  cases h with
  | none => exact optional_eq_none other
  | some here => rw [List.singleton_append, optional, if_pos here]

theorem NamesType.read {written : TypeName} {token : Token} (h : NamesType written token) :
    typeName (token :: rest) = .read written rest := by
  cases h with
  | number h | boolean h =>
    rw [typeName]
    simp only [h]

theorem SpellsFields.read {nameFirst : Bool} {name : Identifier} {written : TypeName}
    {used : List Token} (h : SpellsFields nameFirst name written used) :
    fields (used ++ rest) = .read (nameFirst, name, written) rest := by
  cases h with
  | nameFirst name colon type =>
    simp only [List.cons_append, List.nil_append, fields, name, expect_cons colon,
      Reading.andThen_read, type.read, Reading.map_read]
  | typeFirst colon type name =>
    simp only [List.cons_append, List.nil_append, fields, colon, type.read, Reading.andThen_read,
      expect_cons name, Reading.map_read]

theorem Declaration.Spells.read {declaration : Declaration} {used : List Token}
    (h : declaration.Spells used) (stops : Level.logic.StopsAt rest)
    (enough : 16 * (used ++ rest).length < fuel) :
    Phrase.declaration fuel (used ++ rest) = .read declaration rest := by
  cases h with
  | @mk word assign _ _ _ value head tokens starts fields assigns spells =>
    have shorter : (tokens ++ rest).length + 2 ≤
        (word :: (head ++ assign :: tokens) ++ rest).length := by simp
    rw [List.cons_append, List.append_assoc, List.cons_append, Phrase.declaration, if_pos starts]
    simp only [fields.read, Reading.andThen_read, expect_cons assigns,
      spells.read fuel stops (by omega), Reading.map_read]

/-- What may stand after a command for it to be read: no `else` after an open one. -/
def MayFollow (isOpen : Bool) (rest : List Token) : Prop :=
  AtHead closes rest ∧ (isOpen = true → nextIs (· == .elseWord) rest = false)

theorem MayFollow.of_true {isOpen : Bool} (h : MayFollow true rest) : MayFollow isOpen rest :=
  ⟨h.1, fun _ => h.2 rfl⟩

theorem MayFollow.of_atHead {test : Terminal → Bool} (h : AtHead test rest)
    (le : ∀ t, test t = true → closes t = true ∧ t ≠ .elseWord) (isOpen : Bool) :
    MayFollow isOpen rest :=
  ⟨h.mono fun t ht => (le t ht).1, fun _ => h.nextIs_eq_false fun t ht => by simp [(le t ht).2]⟩

theorem MayFollow.stopsAt {isOpen : Bool} (h : MayFollow isOpen rest) (ℓ : Level) :
    ℓ.StopsAt rest :=
  h.1.stopsAt (fun t => by cases t <;> simp [closes, Level.ofOperator?]) ℓ

/-- A command has a first token that starts commands. -/
theorem Command.Spells.exists_cons {command : Command} {used : List Token}
    (h : command.Spells used) :
    ∃ token more, used = token :: more ∧ startsCommand token.terminal = true := by
  cases h <;> exact ⟨_, _, rfl, by simp [*, startsCommand]⟩

theorem Declaration.Spells.exists_cons {declaration : Declaration} {used : List Token}
    (h : declaration.Spells used) :
    ∃ token more, used = token :: more ∧ startsDeclaration token.terminal = true := by
  cases h with
  | mk starts => exact ⟨_, _, rfl, starts⟩

/-- A declaration that may be left out, before a comma. -/
theorem SpellsInitial.read {initial : Option Declaration} {comma : Token} {used : List Token}
    (h : SpellsInitial initial used) (here : comma.terminal = .comma)
    (enough : 16 * (used ++ comma :: rest).length < fuel) :
    Phrase.optionalDeclaration fuel (used ++ comma :: rest) = .read initial (comma :: rest) := by
  rw [Phrase.optionalDeclaration]
  cases h with
  | none => rw [List.nil_append, nextIs, here, if_neg (by decide)]
  | some spells =>
    have read := spells.read (Level.stopsAt_cons (by rw [here]; rfl)) enough
    obtain ⟨token, more, rfl, starts⟩ := spells.exists_cons
    have first : nextIs startsDeclaration (token :: more ++ comma :: rest) = true := starts
    rw [if_pos first, read, Reading.map_read]

/-- A body, and what may follow it, starts as a body may go on. -/
theorem Body.Spells.atHead {body : Body} {used : List Token} (h : body.Spells used)
    (follows : AtHead closes rest) : AtHead continuesBody (used ++ rest) := by
  cases h with
  | bare spells =>
    cases spells with
    | none => exact follows.mono fun t ht => by simp [continuesBody, ht]
    | some spells =>
      obtain ⟨token, more, rfl, starts⟩ := spells.exists_cons
      exact atHead_cons.2 (by simp [continuesBody, starts])
  | braced opens => exact atHead_cons.2 (by simp [continuesBody, opens])

/-- A condition ends before `then` or `do` and what a body may go on with. -/
theorem SpellsWord.stopsAt {word : Terminal} {written : Option Block} {used : List Token}
    (h : SpellsWord word written used) (plain : Level.ofOperator? word = Option.none)
    (body : AtHead continuesBody rest) (ℓ : Level) : ℓ.StopsAt (used ++ rest) := by
  cases h with
  | none =>
    exact body.stopsAt (fun t => by
      cases t <;> simp [continuesBody, startsCommand, closes, Level.ofOperator?]) ℓ
  | some here => exact Level.stopsAt_cons (by rw [here, plain])

/-- After an item stand a separator and more items, or what may follow the last one. -/
theorem Items.SpellsRest.mayFollow {items : Items} {used : List Token}
    (h : items.SpellsRest used) (follows : AtHead (· == .rightBrace) rest) (isOpen : Bool) :
    MayFollow isOpen (used ++ rest) := by
  cases h with
  | nil => exact .of_atHead follows (fun t ht => by simp_all [closes]) _
  | @items separator _ tokens here =>
    have head : AtHead (· == .separator) (separator :: (tokens ++ rest)) :=
      atHead_cons.2 (by simp [here])
    exact .of_atHead head (fun t ht => by simp_all [closes]) _

/-- Items have a first token that starts declarations or commands. -/
theorem Items.Spells.exists_cons {items : Items} {used : List Token} (h : items.Spells used)
    (nonempty : items ≠ .nil) :
    ∃ token more, used = token :: more ∧
      (startsDeclaration token.terminal = true ∨ startsCommand token.terminal = true) := by
  cases h with
  | nil => exact absurd rfl nonempty
  | declaration spells =>
    obtain ⟨token, more, rfl, starts⟩ := spells.exists_cons
    exact ⟨token, _, rfl, .inl starts⟩
  | command spells =>
    obtain ⟨token, more, rfl, starts⟩ := spells.exists_cons
    exact ⟨token, _, rfl, .inr starts⟩

/-- What the readers of commands read again with some fuel. -/
structure CommandsReread (fuel : Nat) : Prop where
  command : ∀ (c : Command) (used rest : List Token), c.Spells used → c.Settled →
    MayFollow c.isOpen rest → 16 * (used ++ rest).length < fuel →
    command fuel (used ++ rest) = .read c rest
  optionalCommand : ∀ (c : OptionalCommand) (used rest : List Token), c.Spells used → c.Settled →
    MayFollow c.isOpen rest → 16 * (used ++ rest).length + 1 < fuel →
    optionalCommand fuel (used ++ rest) = .read c rest
  body : ∀ (b : Body) (used rest : List Token), b.Spells used → b.Settled →
    MayFollow b.isOpen rest → 16 * (used ++ rest).length + 2 < fuel →
    body fuel (used ++ rest) = .read b rest
  optionalItems : ∀ (i : Items) (used rest : List Token), i.Spells used → i.Settled →
    nextIs (· == .rightBrace) rest = true → 16 * (used ++ rest).length + 2 < fuel →
    optionalItems fuel (used ++ rest) = .read i rest
  items : ∀ (i : Items) (used rest : List Token), i ≠ .nil → i.Spells used → i.Settled →
    AtHead (· == .rightBrace) rest → 16 * (used ++ rest).length + 1 < fuel →
    items fuel (used ++ rest) = .read i rest
  moreItems : ∀ (i : Items) (used rest : List Token), i.SpellsRest used → i.Settled →
    AtHead (· == .rightBrace) rest → 16 * (used ++ rest).length < fuel →
    moreItems fuel (used ++ rest) = .read i rest

namespace CommandsReread

/-- A body after a word that may be left out. -/
theorem optional_body (ih : CommandsReread fuel) {word : Terminal}
    (words : word = .thenWord ∨ word = .doWord) {written : Option Block} {b : Body}
    {used inner : List Token} (spellsWord : SpellsWord word written used)
    (spells : b.Spells inner) (settled : b.Settled) (follows : MayFollow b.isOpen rest)
    (enough : 16 * (inner ++ rest).length + 2 < fuel) :
    optional word (used ++ (inner ++ rest)) = (written, inner ++ rest) ∧
      Phrase.body fuel (inner ++ rest) = .read b rest := by
  have other : nextIs (· == word) (inner ++ rest) = false :=
    (spells.atHead follows.1).nextIs_eq_false fun t => by
      rcases words with rfl | rfl <;> cases t <;> simp [continuesBody, startsCommand, closes]
  exact ⟨spellsWord.read other, ih.body b inner rest spells settled follows enough⟩

/-- A condition before a word that may be left out and a body. -/
theorem condition_body (ih : CommandsReread fuel) {word : Terminal}
    (words : word = .thenWord ∨ word = .doWord) {condition : Expr} {written : Option Block}
    {b : Body} {test used inner : List Token} (tests : Level.logic.Spells condition test)
    (spellsWord : SpellsWord word written used) (spells : b.Spells inner) (settled : b.Settled)
    (follows : MayFollow b.isOpen rest)
    (enough : 16 * (test ++ (used ++ (inner ++ rest))).length + 9 < fuel) :
    Phrase.expression fuel .logic (test ++ (used ++ (inner ++ rest))) =
        .read condition (used ++ (inner ++ rest)) ∧
      optional word (used ++ (inner ++ rest)) = (written, inner ++ rest) ∧
      Phrase.body fuel (inner ++ rest) = .read b rest := by
  have plain : Level.ofOperator? word = none := by rcases words with rfl | rfl <;> rfl
  have stops := spellsWord.stopsAt plain (spells.atHead follows.1) .logic
  refine ⟨tests.read fuel stops enough, ih.optional_body words spellsWord spells settled follows ?_⟩
  simp only [List.length_append] at enough ⊢
  omega

theorem command_succ (ih : CommandsReread fuel) (c : Command) (used rest : List Token)
    (spells : c.Spells used) (settled : c.Settled) (follows : MayFollow c.isOpen rest)
    (enough : 16 * (used ++ rest).length < fuel + 1) :
    Phrase.command (fuel + 1) (used ++ rest) = .read c rest := by
  cases spells with
  | assign name assign spells =>
    simp only [List.cons_append, List.length_cons] at enough
    simp only [List.cons_append, Phrase.command, name, expect_cons assign,
      Reading.andThen_read, spells.read fuel (follows.stopsAt _) (by omega),
      Reading.map_read]
  | print here spells =>
    simp only [List.cons_append, List.length_cons] at enough
    simp only [List.cons_append, Phrase.command, here,
      spells.read fuel (follows.stopsAt _) (by omega), Reading.map_read]
  | ifThen here tests then_ spells =>
    simp only [List.cons_append, List.append_assoc, List.length_cons] at enough ⊢
    obtain ⟨test, word, body⟩ := ih.condition_body (.inl rfl) tests then_ spells settled
      follows.of_true (by omega)
    simp only [Phrase.command, here, test, word, body, Reading.andThen_read,
      optional_eq_none (follows.2 rfl)]
  | @ifElse _ other _ _ b _ _ _ inner outer here tests then_ spells else_ spells' =>
    have before : MayFollow b.isOpen (other :: (outer ++ rest)) := by
      rw [settled.1]
      exact ⟨atHead_cons.2 (by rw [else_]; rfl), fun open_ => absurd open_ Bool.false_ne_true⟩
    simp only [List.cons_append, List.append_assoc, List.length_cons] at enough ⊢
    obtain ⟨test, word, body⟩ := ih.condition_body (.inl rfl) tests then_ spells settled.2.1
      before (by omega)
    have otherwise := ih.body _ outer rest spells' settled.2.2 follows
      (by simp only [List.length_append, List.length_cons] at enough ⊢; omega)
    have next : optional .elseWord (other :: (outer ++ rest)) =
      (some other.block, outer ++ rest) := by rw [Phrase.optional, if_pos else_]
    simp only [Phrase.command, here, test, word, body, next, otherwise, Reading.andThen_read,
      Reading.map_read]
  | whileLoop here tests do_ spells =>
    simp only [List.cons_append, List.append_assoc, List.length_cons] at enough ⊢
    obtain ⟨test, word, body⟩ := ih.condition_body (.inr rfl) tests do_ spells settled follows
      (by omega)
    simp only [Phrase.command, here, test, word, body, Reading.andThen_read, Reading.map_read]
  | @forLoop _ opening comma comma' closing _ _ _ _ _ start test next used inner here opens starts
      comma_ tests comma'_ steps closes_ do_ spells =>
    simp only [List.cons_append, List.append_assoc, List.length_cons, List.length_append]
      at enough ⊢
    have initial : optionalDeclaration fuel (start ++ comma :: (test ++ comma' :: (next ++
        closing :: (used ++ (inner ++ rest))))) = _ := starts.read comma_ (by simp; omega)
    have condition : expression fuel .logic (test ++ comma' :: (next ++ closing ::
        (used ++ (inner ++ rest)))) = _ :=
      tests.read fuel (Level.stopsAt_cons (by rw [comma'_]; rfl)) (by simp; omega)
    have head : AtHead (· == .rightParen) (closing :: (used ++ (inner ++ rest))) :=
      atHead_cons.2 (by simp [closes_])
    have step := ih.optionalCommand _ next _ steps settled.1
      (.of_atHead head (fun t ht => by simp_all [closes]) _) (by simp; omega)
    obtain ⟨word, body⟩ := ih.optional_body (.inr rfl) do_ spells settled.2 follows
      (by simp; omega)
    simp only [Phrase.command, here, expect_cons opens, expect_cons comma_,
      expect_cons comma'_, expect_cons closes_, initial, condition, step, word, body,
      Reading.andThen_read, Reading.map_read]

theorem optionalCommand_succ (ih : CommandsReread fuel) (c : OptionalCommand)
    (used rest : List Token) (spells : c.Spells used) (settled : c.Settled)
    (follows : MayFollow c.isOpen rest) (enough : 16 * (used ++ rest).length + 1 < fuel + 1) :
    Phrase.optionalCommand (fuel + 1) (used ++ rest) = .read c rest := by
  rw [Phrase.optionalCommand]
  cases spells with
  | none =>
    have other : nextIs startsCommand rest = false :=
      follows.1.nextIs_eq_false fun t => by cases t <;> simp [closes, startsCommand]
    rw [List.nil_append, if_neg (by simp [other])]
  | some spells =>
    have read := ih.command _ used rest spells settled follows (by omega)
    obtain ⟨token, more, rfl, starts⟩ := spells.exists_cons
    have here : nextIs startsCommand (token :: more ++ rest) = true := starts
    rw [if_pos here, read, Reading.map_read]

theorem body_succ (ih : CommandsReread fuel) (b : Body) (used rest : List Token)
    (spells : b.Spells used) (settled : b.Settled) (follows : MayFollow b.isOpen rest)
    (enough : 16 * (used ++ rest).length + 2 < fuel + 1) :
    Phrase.body (fuel + 1) (used ++ rest) = .read b rest := by
  rw [Phrase.body]
  cases spells with
  | @bare c _ spells =>
    have other : nextIs (· == .leftBrace) (used ++ rest) = false := by
      cases spells with
      | none => exact follows.1.nextIs_eq_false fun t => by cases t <;> simp [closes]
      | some spells =>
        obtain ⟨token, more, rfl, starts⟩ := spells.exists_cons
        rw [List.cons_append, nextIs]
        revert starts
        cases token.terminal <;> simp [startsCommand]
    rw [optional_eq_none other]
    simp only [ih.optionalCommand c used rest spells settled follows (by omega), Reading.map_read]
  | @braced opening closing i tokens opens spells closes_ =>
    simp only [List.cons_append, List.append_assoc, List.nil_append, List.length_cons] at enough ⊢
    rw [optional, if_pos opens]
    have inner := ih.optionalItems i tokens (closing :: rest) spells settled
      (by simp [nextIs, closes_]) (by omega)
    simp only [inner, expect_cons closes_, Reading.andThen_read, Reading.map_read]

theorem optionalItems_succ (ih : CommandsReread fuel) (i : Items) (used rest : List Token)
    (spells : i.Spells used) (settled : i.Settled)
    (brace : nextIs (· == .rightBrace) rest = true)
    (enough : 16 * (used ++ rest).length + 2 < fuel + 1) :
    Phrase.optionalItems (fuel + 1) (used ++ rest) = .read i rest := by
  rw [Phrase.optionalItems]
  by_cases nil : i = .nil
  · subst nil
    cases spells
    rw [List.nil_append, if_pos brace]
  · have other : nextIs (· == .rightBrace) (used ++ rest) = false := by
      obtain ⟨token, more, rfl, starts⟩ := spells.exists_cons nil
      rw [List.cons_append, nextIs]
      revert starts
      cases token.terminal <;> simp [startsDeclaration, startsCommand]
    have follows : AtHead (· == .rightBrace) rest := by
      cases rest with
      | nil => cases brace
      | cons token rest => exact atHead_cons.2 brace
    rw [if_neg (by simp [other])]
    exact ih.items i used rest nil spells settled follows (by omega)

theorem items_succ (ih : CommandsReread fuel) (i : Items) (used rest : List Token)
    (nonempty : i ≠ .nil) (spells : i.Spells used) (settled : i.Settled)
    (follows : AtHead (· == .rightBrace) rest)
    (enough : 16 * (used ++ rest).length + 1 < fuel + 1) :
    Phrase.items (fuel + 1) (used ++ rest) = .read i rest := by
  rw [Phrase.items]
  cases spells with
  | nil => exact absurd rfl nonempty
  | @declaration first i tokens more spells others =>
    have next := others.mayFollow follows false
    rw [List.append_assoc] at enough ⊢
    have read : declaration fuel (tokens ++ (more ++ rest)) = _ :=
      spells.read (next.stopsAt _) (by omega)
    have after := ih.moreItems i more rest others settled follows
      (by simp only [List.length_append] at enough ⊢; omega)
    obtain ⟨token, tokens, rfl, starts⟩ := spells.exists_cons
    have here : nextIs startsDeclaration (token :: tokens ++ (more ++ rest)) = true := starts
    rw [if_pos here, read, Reading.andThen_read, after, Reading.map_read]
  | @command first i tokens more spells others =>
    have next := others.mayFollow follows first.isOpen
    rw [List.append_assoc] at enough ⊢
    have read := ih.command first tokens (more ++ rest) spells settled.1 next (by omega)
    have after := ih.moreItems i more rest others settled.2 follows
      (by simp only [List.length_append] at enough ⊢; omega)
    obtain ⟨token, tokens, rfl, starts⟩ := spells.exists_cons
    have other : nextIs startsDeclaration (token :: tokens ++ (more ++ rest)) = false := by
      rw [List.cons_append, nextIs]
      revert starts
      cases token.terminal <;> simp [startsCommand, startsDeclaration]
    rw [if_neg (Bool.eq_false_iff.1 other), read, Reading.andThen_read, after, Reading.map_read]

theorem moreItems_succ (ih : CommandsReread fuel) (i : Items) (used rest : List Token)
    (spells : i.SpellsRest used) (settled : i.Settled) (follows : AtHead (· == .rightBrace) rest)
    (enough : 16 * (used ++ rest).length < fuel + 1) :
    Phrase.moreItems (fuel + 1) (used ++ rest) = .read i rest := by
  rw [Phrase.moreItems]
  cases spells with
  | nil =>
    have other : nextIs (· == .separator) rest = false :=
      follows.nextIs_eq_false fun t => by cases t <;> simp
    rw [List.nil_append, optional_eq_none other]
  | items here nonempty spells =>
    rw [List.cons_append, List.length_cons] at enough
    rw [List.cons_append, optional, if_pos here]
    exact ih.items i _ rest nonempty spells settled follows (by omega)

end CommandsReread

/-- **What is spelled and settled is read again**, before what may follow it. -/
theorem commandsReread (fuel : Nat) : CommandsReread fuel := by
  induction fuel with
  | zero => constructor <;> intros <;> omega
  | succ fuel ih =>
    exact ⟨ih.command_succ, ih.optionalCommand_succ, ih.body_succ, ih.optionalItems_succ,
      ih.items_succ, ih.moreItems_succ⟩

end Read

/-! ## Programs -/

/-- **Tokens make up the programs that they spell**, with each `else` at the nearest `if` that it
can belong to. -/
theorem program_ok_iff {tokens : List Token} {items : Items} :
    program tokens = .ok items ↔ items.Spells tokens ∧ items.Settled := by
  rw [program]
  cases tokens with
  | nil =>
    refine ⟨fun h => ?_, fun h => ?_⟩
    · cases h
      exact ⟨.nil, trivial⟩
    · have nil : items = .nil := by
        by_contra nonempty
        obtain ⟨token, more, eq, -⟩ := h.1.exists_cons nonempty
        cases eq
      rw [nil]
      rfl
  | cons token rest =>
    rw [if_neg (by simp)]
    refine ⟨fun h => ?_, fun h => ?_⟩
    · have yields := (commandsYield (fuelFor (token :: rest))).items (token :: rest)
      split at h
      case h_1 read eq =>
        cases h
        rw [eq] at yields
        obtain ⟨used, eq, -, spells, settled⟩ := yields
        rw [List.append_nil] at eq
        exact ⟨eq ▸ spells, settled⟩
      case h_2 => cases h
      case h_3 => cases h
    · have nonempty : items ≠ .nil := by
        rintro rfl
        cases h.1
      have read := (commandsReread (fuelFor (token :: rest))).items items (token :: rest) []
        nonempty h.1 h.2 (fun _ mem => by cases mem)
        (by rw [fuelFor, List.append_nil]; omega)
      rw [List.append_nil] at read
      rw [read]

end Phrase
end SmallImp

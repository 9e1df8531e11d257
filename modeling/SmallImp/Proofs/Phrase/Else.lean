/-
# Every `else` belongs to the nearest open `if`

Tokens are gone through from the left, with the `if`s in hand that have been given no `else` so
far, each with how deep it stands in braces and in parentheses (`Seen`).  An `else` is for the last
of them that stands as deep as the `else` itself (`Seen.nearest?`).  This tells the `if` of every
`else` from the tokens alone (`nearestIfs`).

Going through the tokens of a phrase leaves those of its `if`s that have no `else`
(`Command.waiting`).  A body that is settled and not open leaves only deeper ones
(`Command.deeper_of_not_isOpen`), so the `else` after it is for the `if` before it.  Hence the
`if`-`else` commands of a program are those that the tokens tell (`program_nearestIfs`).
-/
import SmallImp.Proofs.Grammar.Acceptance
import SmallImp.Proofs.Phrase.Commands
import SmallImp.Proofs.Tree.Sequence

namespace SmallImp
namespace Phrase

/-! ## Which `if` is the nearest -/

/-- How deep a token stands in braces and in parentheses.  At an `if` or an `else` of a program the
parentheses are those of the heads of `for` loops. -/
structure Nesting where
  braces : Nat
  parens : Nat
  deriving DecidableEq

namespace Nesting

def inBraces (n : Nesting) : Nesting := { n with braces := n.braces + 1 }

def inParens (n : Nesting) : Nesting := { n with parens := n.parens + 1 }

def outOfBraces (n : Nesting) : Nesting := { n with braces := n.braces - 1 }

def outOfParens (n : Nesting) : Nesting := { n with parens := n.parens - 1 }

/-- The number of braces and parentheses around. -/
def depth (n : Nesting) : Nat := n.braces + n.parens

/-- What is in braces stands deeper than they do. -/
theorem depth_lt_of_inBraces {n m : Nesting} (h : n.inBraces.depth ≤ m.depth) :
    n.depth < m.depth := by
  simp only [depth, inBraces] at h ⊢
  omega

/-- What is in parentheses stands deeper than they do. -/
theorem depth_lt_of_inParens {n m : Nesting} (h : n.inParens.depth ≤ m.depth) :
    n.depth < m.depth := by
  simp only [depth, inParens] at h ⊢
  omega

end Nesting

/-- What is in hand after some tokens: how deep the next one stands, and the blocks of the `if`s
that have been given no `else`, each with how deep it stands, the last one first. -/
structure Seen where
  nesting : Nesting
  waiting : List (Nesting × Block)

namespace Seen

/-- The last `if` without `else` that stands as deep as the next token. -/
def nearest? (seen : Seen) : Option Block :=
  (seen.waiting.find? fun entry => entry.1 = seen.nesting).map Prod.snd

/-- What is in hand after one more token.  An `else` is given to the nearest `if`. -/
def next (seen : Seen) (token : Token) : Seen :=
  match token.terminal with
  | .ifWord => { seen with waiting := (seen.nesting, token.block) :: seen.waiting }
  | .elseWord => { seen with waiting := seen.waiting.eraseP fun entry => entry.1 = seen.nesting }
  | .leftBrace => { seen with nesting := seen.nesting.inBraces }
  | .rightBrace => { seen with nesting := seen.nesting.outOfBraces }
  | .leftParen => { seen with nesting := seen.nesting.inParens }
  | .rightParen => { seen with nesting := seen.nesting.outOfParens }
  | _ => seen

/-- The blocks of the `else`s of tokens, each after that of its nearest `if`, if there is one. -/
def elses : Seen → List Token → List (Option Block × Block)
  | _, [] => []
  | seen, token :: rest =>
    if token.terminal = .elseWord then
      (seen.nearest?, token.block) :: (seen.next token).elses rest
    else (seen.next token).elses rest

end Seen

/-- The blocks of the `else`s of tokens, each after that of its nearest `if`, if there is one. -/
def nearestIfs (tokens : List Token) : List (Option Block × Block) :=
  Seen.elses ⟨⟨0, 0⟩, []⟩ tokens

/-! ## The `if`s of phrases -/

/-- An `if`-`else` command of a phrase. -/
structure Branching where
  start : Block
  condition : Expr
  thenAt : Option Block
  body : Body
  elseAt : Block
  otherwise : Body

namespace Branching

/-- The blocks of the `if` and the `else`. -/
def words (branching : Branching) : Option Block × Block := (branching.start, branching.elseAt)

/-- The tree of the command. -/
def tree (branching : Branching) : SmallImp.Command :=
  (Command.ifElse branching.start branching.condition branching.thenAt branching.body
    branching.elseAt branching.otherwise).tree

end Branching

mutual

/-- The `if`-`else` commands in a command, in the order of their `else`s. -/
def Command.branchings : Command → List Branching
  | .assign .. | .print .. => []
  | .ifThen _ _ _ body => body.branchings
  | .ifElse start condition thenAt body elseAt otherwise =>
    body.branchings ++
      ⟨start, condition, thenAt, body, elseAt, otherwise⟩ :: otherwise.branchings
  | .whileLoop _ _ _ body => body.branchings
  | .forLoop _ _ _ step _ _ body => step.branchings ++ body.branchings

/-- The `if`-`else` commands in what may be a command. -/
def OptionalCommand.branchings : OptionalCommand → List Branching
  | .none => []
  | .some command => command.branchings

/-- The `if`-`else` commands in a body. -/
def Body.branchings : Body → List Branching
  | .bare command => command.branchings
  | .braced _ items _ => items.branchings

/-- The `if`-`else` commands in a list of items. -/
def Items.branchings : Items → List Branching
  | .nil => []
  | .declaration _ rest => rest.branchings
  | .command first rest => first.branchings ++ rest.branchings

end

mutual

/-- The `if`s without `else` in a command that stands so deep, the last one first. -/
def Command.waiting (n : Nesting) : Command → List (Nesting × Block)
  | .assign .. | .print .. => []
  | .ifThen start _ _ body => body.waiting n ++ [(n, start)]
  | .ifElse _ _ _ body _ otherwise => otherwise.waiting n ++ body.waiting n
  | .whileLoop _ _ _ body => body.waiting n
  | .forLoop _ _ _ step _ _ body => body.waiting n ++ step.waiting n.inParens

/-- The `if`s without `else` in what may be a command. -/
def OptionalCommand.waiting (n : Nesting) : OptionalCommand → List (Nesting × Block)
  | .none => []
  | .some command => command.waiting n

/-- The `if`s without `else` in a body: those in braces stand deeper. -/
def Body.waiting (n : Nesting) : Body → List (Nesting × Block)
  | .bare command => command.waiting n
  | .braced _ items _ => items.waiting n.inBraces

/-- The `if`s without `else` in a list of items. -/
def Items.waiting (n : Nesting) : Items → List (Nesting × Block)
  | .nil => []
  | .declaration _ rest => rest.waiting n
  | .command first rest => rest.waiting n ++ first.waiting n

end

/-! ## Commands that are not open -/

mutual

theorem Command.depth_le : (command : Command) → (n : Nesting) →
    ∀ entry ∈ command.waiting n, n.depth ≤ entry.1.depth
  | .assign .., _ | .print .., _ => List.forall_mem_nil _
  | .ifThen _ _ _ body, n =>
    List.forall_mem_append.2 ⟨body.depth_le n, List.forall_mem_singleton.2 le_rfl⟩
  | .ifElse _ _ _ body _ otherwise, n =>
    List.forall_mem_append.2 ⟨otherwise.depth_le n, body.depth_le n⟩
  | .whileLoop _ _ _ body, n => body.depth_le n
  | .forLoop _ _ _ step _ _ body, n =>
    List.forall_mem_append.2 ⟨body.depth_le n, fun entry mem =>
      (Nesting.depth_lt_of_inParens (step.depth_le n.inParens entry mem)).le⟩

theorem OptionalCommand.depth_le : (command : OptionalCommand) → (n : Nesting) →
    ∀ entry ∈ command.waiting n, n.depth ≤ entry.1.depth
  | .none, _ => List.forall_mem_nil _
  | .some command, n => command.depth_le n

theorem Body.depth_le : (body : Body) → (n : Nesting) →
    ∀ entry ∈ body.waiting n, n.depth ≤ entry.1.depth
  | .bare command, n => command.depth_le n
  | .braced _ items _, n => fun entry mem =>
    (Nesting.depth_lt_of_inBraces (items.depth_le n.inBraces entry mem)).le

/-- No `if` in a phrase stands less deep than the phrase. -/
theorem Items.depth_le : (items : Items) → (n : Nesting) →
    ∀ entry ∈ items.waiting n, n.depth ≤ entry.1.depth
  | .nil, _ => List.forall_mem_nil _
  | .declaration _ rest, n => rest.depth_le n
  | .command first rest, n => List.forall_mem_append.2 ⟨rest.depth_le n, first.depth_le n⟩

end

mutual

/-- **A command that is settled and not open has no `if` without `else` as deep as itself.** -/
theorem Command.deeper_of_not_isOpen : (command : Command) → command.Settled →
    command.isOpen = false → ∀ n : Nesting, ∀ entry ∈ command.waiting n, n.depth < entry.1.depth
  | .assign .., _, _, _ | .print .., _, _, _ => List.forall_mem_nil _
  | .ifThen .., _, closed, _ => Bool.noConfusion closed
  | .ifElse _ _ _ body _ otherwise, ⟨inner, settled, settled'⟩, closed, n =>
    -- the first branch cannot take the `else` for itself, so it is not open either
    List.forall_mem_append.2 ⟨otherwise.deeper_of_not_isOpen settled' closed n,
      body.deeper_of_not_isOpen settled inner n⟩
  | .whileLoop _ _ _ body, settled, closed, n => body.deeper_of_not_isOpen settled closed n
  | .forLoop _ _ _ step _ _ body, settled, closed, n =>
    List.forall_mem_append.2 ⟨body.deeper_of_not_isOpen settled.2 closed n, fun entry mem =>
      Nesting.depth_lt_of_inParens (step.depth_le n.inParens entry mem)⟩

theorem OptionalCommand.deeper_of_not_isOpen : (command : OptionalCommand) → command.Settled →
    command.isOpen = false → ∀ n : Nesting, ∀ entry ∈ command.waiting n, n.depth < entry.1.depth
  | .none, _, _, _ => List.forall_mem_nil _
  | .some command, settled, closed, n => command.deeper_of_not_isOpen settled closed n

theorem Body.deeper_of_not_isOpen : (body : Body) → body.Settled → body.isOpen = false →
    ∀ n : Nesting, ∀ entry ∈ body.waiting n, n.depth < entry.1.depth
  | .bare command, settled, closed, n => command.deeper_of_not_isOpen settled closed n
  | .braced _ items _, _, _, n => fun entry mem =>
    Nesting.depth_lt_of_inBraces (items.depth_le n.inBraces entry mem)

end

/-! ## Going through the tokens of a phrase -/

/-- Whether tokens take what is in hand to something else, and which `else`s they give out. -/
structure Passes (seen : Seen) (tokens : List Token) (after : Seen)
    (elses : List (Option Block × Block)) : Prop where
  next : tokens.foldl Seen.next seen = after
  elses : seen.elses tokens = elses

/-- Whether a terminal opens or closes braces or parentheses, or is an `if` or an `else`. -/
def counts : Terminal → Bool
  | .ifWord | .elseWord | .leftBrace | .rightBrace | .leftParen | .rightParen => true
  | _ => false

namespace Passes

variable {seen after after' : Seen} {token : Token} {first second tokens : List Token}
variable {elses elses' : List (Option Block × Block)}

theorem nil : Passes seen [] seen [] := ⟨rfl, rfl⟩

theorem append (h : Passes seen first after elses) (h' : Passes after second after' elses') :
    Passes seen (first ++ second) after' (elses ++ elses') := by
  obtain ⟨next, rfl⟩ := h
  obtain ⟨next', rfl⟩ := h'
  refine ⟨by rw [List.foldl_append, next, next'], ?_⟩
  clear next'
  induction first generalizing seen with
  | nil => rw [← next]; rfl
  | cons token first ih =>
    rw [List.cons_append, Seen.elses, Seen.elses, ih next]
    split <;> rfl

theorem cons (h : Passes seen [token] after elses) (h' : Passes after tokens after' elses') :
    Passes seen (token :: tokens) after' (elses ++ elses') := h.append h'

/-- A token that does not count changes nothing. -/
theorem idle (h : counts token.terminal = false) : Passes seen [token] seen [] := by
  have same : seen.next token = seen := by
    unfold Seen.next
    split <;> first | rfl | simp_all [counts]
  have other : token.terminal ≠ .elseWord := fun word => by simp [counts, word] at h
  exact ⟨same, by rw [Seen.elses, if_neg other]; rfl⟩

theorem idle_all (h : ∀ token ∈ tokens, counts token.terminal = false) :
    Passes seen tokens seen [] := by
  induction tokens with
  | nil => exact .nil
  | cons token tokens ih =>
    obtain ⟨here, later⟩ := List.forall_mem_cons.1 h
    exact (idle here).cons (ih later)

section Words
variable {n : Nesting} {waiting : List (Nesting × Block)}

theorem ifWord (h : token.terminal = .ifWord) :
    Passes ⟨n, waiting⟩ [token] ⟨n, (n, token.block) :: waiting⟩ [] :=
  ⟨by simp [Seen.next, h], by simp [Seen.elses, h]⟩

theorem leftBrace (h : token.terminal = .leftBrace) :
    Passes ⟨n, waiting⟩ [token] ⟨n.inBraces, waiting⟩ [] :=
  ⟨by simp [Seen.next, h], by simp [Seen.elses, h]⟩

theorem rightBrace (h : token.terminal = .rightBrace) :
    Passes ⟨n.inBraces, waiting⟩ [token] ⟨n, waiting⟩ [] :=
  ⟨by simp [Seen.next, h, Nesting.inBraces, Nesting.outOfBraces], by simp [Seen.elses, h]⟩

theorem leftParen (h : token.terminal = .leftParen) :
    Passes ⟨n, waiting⟩ [token] ⟨n.inParens, waiting⟩ [] :=
  ⟨by simp [Seen.next, h], by simp [Seen.elses, h]⟩

theorem rightParen (h : token.terminal = .rightParen) :
    Passes ⟨n.inParens, waiting⟩ [token] ⟨n, waiting⟩ [] :=
  ⟨by simp [Seen.next, h, Nesting.inParens, Nesting.outOfParens], by simp [Seen.elses, h]⟩

/-- **Past deeper `if`s, an `else` is for the one as deep as itself.** -/
theorem elseWord {deeper : List (Nesting × Block)} {start : Block}
    (h : token.terminal = .elseWord) (all : ∀ entry ∈ deeper, n.depth < entry.1.depth) :
    Passes ⟨n, deeper ++ (n, start) :: waiting⟩ [token] ⟨n, deeper ++ waiting⟩
      [(some start, token.block)] := by
  have other : ∀ entry ∈ deeper, ¬ entry.1 = n := by
    rintro entry mem rfl
    exact absurd (all entry mem) (lt_irrefl _)
  have nearest : Seen.nearest? ⟨n, deeper ++ (n, start) :: waiting⟩ = some start := by
    have none : deeper.find? (fun entry => decide (entry.1 = n)) = none := by
      simpa using other
    simp [Seen.nearest?, List.find?_append, none]
  have erased : (deeper ++ (n, start) :: waiting).eraseP (fun entry => decide (entry.1 = n)) =
      deeper ++ waiting := by
    rw [List.eraseP_append_right _ (by simpa using other)]
    simp
  exact ⟨by simp [Seen.next, h, erased], by simp [Seen.elses, h, nearest]⟩

end Words

end Passes

section Expressions
variable {seen : Seen} {tokens : List Token}

theorem Level.counts_of_hasOperator {ℓ : Level} {t : Terminal} (h : ℓ.hasOperator t = true) :
    counts t = false := by
  cases ℓ <;> cases t <;> first | rfl | cases h

/-- Nothing in an expression is an `if` or an `else`, and it closes all that it opens. -/
theorem Passes.expression {ℓ : Level} {e : Expr} (h : ℓ.Spells e tokens) (n : Nesting)
    (waiting : List (Nesting × Block)) : Passes ⟨n, waiting⟩ tokens ⟨n, waiting⟩ [] := by
  induction h generalizing n with
  | number h | name h => exact .idle (by rw [h]; rfl)
  | boolean h => exact .idle (by rcases h with h | h <;> rw [h] <;> rfl)
  | parenthesis opens _ closes ih =>
    exact (Passes.leftParen opens).cons ((ih n.inParens).append (.rightParen closes))
  | tighter _ _ ih => exact ih n
  | leading _ operator _ ih =>
    exact (Passes.idle (Level.counts_of_hasOperator operator)).cons (ih n)
  | binary _ _ operator _ ihLeft ihRight =>
    have after := (Passes.idle (Level.counts_of_hasOperator operator)).cons (ihRight n)
    exact (ihLeft n).append after

theorem Passes.word {terminal : Terminal} {written : Option Block}
    (h : SpellsWord terminal written tokens) (idle : counts terminal = false) :
    Passes seen tokens seen [] := by
  cases h with
  | none => exact .nil
  | some here => exact .idle (here ▸ idle)

theorem counts_of_startsDeclaration {t : Terminal} (h : startsDeclaration t = true) :
    counts t = false := by
  cases t <;> first | rfl | cases h

theorem NamesType.counts_eq {written : TypeName} {token : Token} (h : NamesType written token) :
    counts token.terminal = false := by
  cases h with
  | number here | boolean here => rw [here]; rfl

theorem SpellsFields.idle {nameFirst : Bool} {name : Identifier} {written : TypeName}
    (h : SpellsFields nameFirst name written tokens) :
    ∀ token ∈ tokens, counts token.terminal = false := by
  have plain {token : Token} {t : Terminal} (here : token.terminal = t) (idle : counts t = false) :
      counts token.terminal = false := here ▸ idle
  cases h with
  | nameFirst name colon type =>
    simp only [List.forall_mem_cons]
    exact ⟨plain name rfl, plain colon rfl, type.counts_eq, List.forall_mem_nil _⟩
  | typeFirst colon type name =>
    simp only [List.forall_mem_cons]
    exact ⟨plain colon rfl, type.counts_eq, plain name rfl, List.forall_mem_nil _⟩

theorem Passes.declaration {declaration : Declaration} (h : declaration.Spells tokens) (n : Nesting)
    (waiting : List (Nesting × Block)) : Passes ⟨n, waiting⟩ tokens ⟨n, waiting⟩ [] := by
  cases h with
  | mk word fields assign value =>
    have after := (Passes.idle (by rw [assign]; rfl)).cons (Passes.expression value n waiting)
    exact (Passes.idle (counts_of_startsDeclaration word)).cons
      ((Passes.idle_all fields.idle).append after)

theorem Passes.initial {initial : Option Declaration} (h : SpellsInitial initial tokens)
    (n : Nesting) (waiting : List (Nesting × Block)) :
    Passes ⟨n, waiting⟩ tokens ⟨n, waiting⟩ [] := by
  cases h with
  | none => exact .nil
  | some declaration => exact .declaration declaration n waiting

end Expressions

mutual

/-- **Going through a command leaves its `if`s without `else`, and gives its `else`s to the `if`s
of their commands.** -/
theorem Command.Spells.passes {command : Command} {used : List Token} :
    command.Spells used → command.Settled → ∀ (n : Nesting) (waiting : List (Nesting × Block)),
      Passes ⟨n, waiting⟩ used ⟨n, command.waiting n ++ waiting⟩
        (command.branchings.map Branching.words)
  | .assign name assign value, _, n, waiting => by
    have after := (Passes.idle (by rw [assign]; rfl)).cons (Passes.expression value n waiting)
    exact (Passes.idle (by rw [name]; rfl)).cons after
  | .print word value, _, n, waiting =>
    (Passes.idle (by rw [word]; rfl)).cons (.expression value n waiting)
  | @Command.Spells.ifThen word _ _ _ _ _ _ here condition then_ spells, settled, n, waiting => by
    have inner := spells.passes settled n ((n, word.block) :: waiting)
    have after := (Passes.expression condition n _).append ((Passes.word then_ rfl).append inner)
    rw [Command.waiting, List.append_assoc]
    exact (Passes.ifWord here).cons after
  | @Command.Spells.ifElse word other _ _ body _ _ _ _ _ here condition then_ spells there spells',
      ⟨closed, settled, settled'⟩, n, waiting => by
    have inner := spells.passes settled n ((n, word.block) :: waiting)
    have given : Passes ⟨n, body.waiting n ++ (n, word.block) :: waiting⟩ [other]
        ⟨n, body.waiting n ++ waiting⟩ [(some word.block, other.block)] :=
      .elseWord there (body.deeper_of_not_isOpen settled closed n)
    have outer := given.cons (spells'.passes settled' n _)
    have after := (Passes.expression condition n _).append
      ((Passes.word then_ rfl).append (inner.append outer))
    rw [Command.waiting, List.append_assoc, Command.branchings, List.map_append, List.map_cons]
    exact (Passes.ifWord here).cons after
  | .whileLoop word condition do_ body, settled, n, waiting => by
    have inner := body.passes settled n waiting
    have after := (Passes.expression condition n _).append ((Passes.word do_ rfl).append inner)
    exact (Passes.idle (by rw [word]; rfl)).cons after
  | @Command.Spells.forLoop _ _ _ _ _ _ _ step _ _ _ _ _ _ _ here opens initial comma condition
      comma' spells closes do_ spells', ⟨settled, settled'⟩, n, waiting => by
    -- the `if`s of the step stay in hand, deeper than those of the body
    have round := (Passes.word do_ rfl).append
      (spells'.passes settled' n (step.waiting n.inParens ++ waiting))
    have next := (spells.passes settled n.inParens waiting).append
      ((Passes.rightParen closes).cons round)
    have test := (Passes.expression condition n.inParens waiting).append
      ((Passes.idle (by rw [comma']; rfl)).cons next)
    have start := (Passes.initial initial n.inParens waiting).append
      ((Passes.idle (by rw [comma]; rfl)).cons test)
    rw [Command.waiting, List.append_assoc, Command.branchings, List.map_append]
    exact (Passes.idle (by rw [here]; rfl)).cons ((Passes.leftParen opens).cons start)

/-- Going through what may be a command. -/
theorem OptionalCommand.Spells.passes {command : OptionalCommand} {used : List Token} :
    command.Spells used → command.Settled → ∀ (n : Nesting) (waiting : List (Nesting × Block)),
      Passes ⟨n, waiting⟩ used ⟨n, command.waiting n ++ waiting⟩
        (command.branchings.map Branching.words)
  | .none, _, _, _ => .nil
  | .some command, settled, n, waiting => command.passes settled n waiting

/-- Going through a body. -/
theorem Body.Spells.passes {body : Body} {used : List Token} :
    body.Spells used → body.Settled → ∀ (n : Nesting) (waiting : List (Nesting × Block)),
      Passes ⟨n, waiting⟩ used ⟨n, body.waiting n ++ waiting⟩
        (body.branchings.map Branching.words)
  | .bare command, settled, n, waiting => command.passes settled n waiting
  | .braced opens items closes, settled, n, waiting => by
    have inner := items.passes settled n.inBraces waiting
    have whole := (Passes.leftBrace opens).cons (inner.append (.rightBrace closes))
    rwa [List.append_nil] at whole

/-- Going through a list of items. -/
theorem Items.Spells.passes {items : Items} {used : List Token} :
    items.Spells used → items.Settled → ∀ (n : Nesting) (waiting : List (Nesting × Block)),
      Passes ⟨n, waiting⟩ used ⟨n, items.waiting n ++ waiting⟩
        (items.branchings.map Branching.words)
  | .nil, _, _, _ => .nil
  | .declaration first rest, settled, n, waiting =>
    (Passes.declaration first n waiting).append (rest.passes settled n waiting)
  | .command first rest, ⟨settled, settled'⟩, n, waiting => by
    have whole := (first.passes settled n waiting).append (rest.passes settled' n _)
    rwa [Items.waiting, List.append_assoc, Items.branchings, List.map_append]

/-- Going through the items after the first. -/
theorem Items.SpellsRest.passes {items : Items} {used : List Token} :
    items.SpellsRest used → items.Settled → ∀ (n : Nesting) (waiting : List (Nesting × Block)),
      Passes ⟨n, waiting⟩ used ⟨n, items.waiting n ++ waiting⟩
        (items.branchings.map Branching.words)
  | .nil, _, _, _ => .nil
  | .items separator _ items, settled, n, waiting =>
    (Passes.idle (by rw [separator]; rfl)).cons (items.passes settled n waiting)

end

/-! ## The chain of last bodies -/

mutual

/-- A command, the command that is its last body, the last body of that one, and so on: up to a
command without bodies, an empty body or one in braces. -/
def Command.chain : Command → List Command
  | .assign target value => [.assign target value]
  | .print start value => [.print start value]
  | .ifThen start condition thenAt body => .ifThen start condition thenAt body :: body.chain
  | .ifElse start condition thenAt body elseAt otherwise =>
    .ifElse start condition thenAt body elseAt otherwise :: otherwise.chain
  | .whileLoop start condition doAt body => .whileLoop start condition doAt body :: body.chain
  | .forLoop start initial condition step closing doAt body =>
    .forLoop start initial condition step closing doAt body :: body.chain

/-- The chain of what may be a command. -/
def OptionalCommand.chain : OptionalCommand → List Command
  | .none => []
  | .some command => command.chain

/-- The chain of a body. -/
def Body.chain : Body → List Command
  | .bare command => command.chain
  | .braced .. => []

end

/-- Whether a command is an `if` without `else`. -/
def Command.isIfThen (command : Command) : Bool := command matches .ifThen ..

mutual

theorem Command.isOpen_eq_any : (command : Command) →
    command.isOpen = command.chain.any Command.isIfThen
  | .assign .. | .print .. | .ifThen .. => rfl
  | .ifElse _ _ _ _ _ body | .whileLoop _ _ _ body | .forLoop _ _ _ _ _ _ body =>
    body.isOpen_eq_any

theorem OptionalCommand.isOpen_eq_any : (command : OptionalCommand) →
    command.isOpen = command.chain.any Command.isIfThen
  | .none => rfl
  | .some command => command.isOpen_eq_any

/-- A body is open if there is an `if` without `else` on its chain. -/
theorem Body.isOpen_eq_any : (body : Body) → body.isOpen = body.chain.any Command.isIfThen
  | .bare command => command.isOpen_eq_any
  | .braced .. => rfl

end

mutual

theorem Command.closed_of_mem_branchings : (command : Command) → command.Settled →
    ∀ branching ∈ command.branchings, branching.body.isOpen = false
  | .assign .., _ | .print .., _ => List.forall_mem_nil _
  | .ifThen _ _ _ body, settled | .whileLoop _ _ _ body, settled =>
    body.closed_of_mem_branchings settled
  | .ifElse _ _ _ body _ otherwise, ⟨closed, settled, settled'⟩ =>
    List.forall_mem_append.2 ⟨body.closed_of_mem_branchings settled,
      List.forall_mem_cons.2 ⟨closed, otherwise.closed_of_mem_branchings settled'⟩⟩
  | .forLoop _ _ _ step _ _ body, ⟨settled, settled'⟩ =>
    List.forall_mem_append.2 ⟨step.closed_of_mem_branchings settled,
      body.closed_of_mem_branchings settled'⟩

theorem OptionalCommand.closed_of_mem_branchings : (command : OptionalCommand) → command.Settled →
    ∀ branching ∈ command.branchings, branching.body.isOpen = false
  | .none, _ => List.forall_mem_nil _
  | .some command, settled => command.closed_of_mem_branchings settled

theorem Body.closed_of_mem_branchings : (body : Body) → body.Settled →
    ∀ branching ∈ body.branchings, branching.body.isOpen = false
  | .bare command, settled => command.closed_of_mem_branchings settled
  | .braced _ items _, settled => items.closed_of_mem_branchings settled

/-- In a settled phrase no body before an `else` is open. -/
theorem Items.closed_of_mem_branchings : (items : Items) → items.Settled →
    ∀ branching ∈ items.branchings, branching.body.isOpen = false
  | .nil, _ => List.forall_mem_nil _
  | .declaration _ rest, settled => rest.closed_of_mem_branchings settled
  | .command first rest, ⟨settled, settled'⟩ =>
    List.forall_mem_append.2 ⟨first.closed_of_mem_branchings settled,
      rest.closed_of_mem_branchings settled'⟩

end

end Phrase

/-! ## In the tree -/

/-- The commands of a tree that branch with an `else`. -/
def Command.branches : Command → List Command
  | .nil _ | .assign .. | .print .. | .unknown _ => []
  | .scope _ body _ | .branch _ body _ | .loop _ body _ => body.branches
  | .sequence first second _ => first.branches ++ second.branches
  | .branchElse condition body otherwise block =>
    body.branches ++ .branchElse condition body otherwise block :: otherwise.branches

/-- The commands of an item that branch with an `else`. -/
def Item.branches : Item → List Command
  | .declaration _ => []
  | .command here => here.branches

section MadeOf
variable {fits : Block → List Item → Prop} {items : List Item}

theorem Declaration.MadeOf.branches_eq_nil {declaration : Declaration}
    (h : declaration.MadeOf fits items) : items.flatMap Item.branches = [] := by
  induction h with
  | item => rfl
  | group _ _ _ ihFirst ihSecond => rw [List.flatMap_append, ihFirst, ihSecond, List.append_nil]

/-- What is made of items has the branches of the items, in their order. -/
theorem Command.MadeOf.branches_eq {command : Command} (h : command.MadeOf fits items) :
    command.branches = items.flatMap Item.branches := by
  induction h with
  | nothing => rfl
  | item here => exact (List.append_nil here.branches).symm
  | sequence _ _ ih =>
    rw [branches, ih]
    rfl
  | scope made _ _ ih => rw [branches, ih, List.flatMap_append, made.branches_eq_nil, List.nil_append]

end MadeOf

/-- Folding a list of items keeps its branches. -/
theorem Command.branches_ofItems (items : List Item) (block : Block) :
    (ofItems items block).branches = items.flatMap Item.branches :=
  (madeOf_ofItems items block).branches_eq

namespace Phrase

theorem branches_expandedFor (initial : Option Declaration) (condition : Expr)
    (body : SmallImp.Command) (step : Option SmallImp.Command) (block : Block) :
    (expandedFor initial condition body step block).branches =
      body.branches ++ step.toList.flatMap SmallImp.Command.branches := by
  cases step <;> simp [expandedFor, SmallImp.Command.branches]

mutual

/-- The `if`-`else` commands in a command are those that branch with an `else` in its tree. -/
theorem Command.perm_branches : (command : Command) →
    command.tree.branches.Perm (command.branchings.map Branching.tree)
  | .assign .. | .print .. => .nil
  | .ifThen _ _ _ body => body.perm_branches _
  | .ifElse _ _ _ body _ otherwise => by
    rw [Command.branchings, List.map_append, List.map_cons]
    exact (body.perm_branches _).append ((otherwise.perm_branches _).cons _)
  | .whileLoop _ _ _ body => body.perm_branches _
  | .forLoop _ _ _ step _ _ body => by
    -- in the tree the step comes after the body
    rw [Command.tree, branches_expandedFor, Command.branchings, List.map_append]
    exact ((body.perm_branches _).append step.perm_branches).trans List.perm_append_comm

theorem OptionalCommand.perm_branches : (command : OptionalCommand) →
    (command.tree?.toList.flatMap SmallImp.Command.branches).Perm
      (command.branchings.map Branching.tree)
  | .none => .nil
  | .some command => by
    rw [OptionalCommand.tree?, Option.toList_some, List.flatMap_singleton]
    exact command.perm_branches

theorem Body.perm_branches : (body : Body) → (emptyAt : Block) →
    (body.tree emptyAt).branches.Perm (body.branchings.map Branching.tree)
  | .bare command, emptyAt => by
    have same : ((Body.bare command).tree emptyAt).branches =
        command.tree?.toList.flatMap SmallImp.Command.branches := by
      rw [Body.tree]
      cases command.tree? with
      | none => rfl
      | some tree => exact (List.append_nil _).symm
    rw [same]
    exact command.perm_branches
  | .braced _ items _, _ => by
    rw [Body.tree, SmallImp.Command.branches_ofItems]
    exact items.perm_branches

theorem Items.perm_branches : (items : Items) →
    (items.list.flatMap Item.branches).Perm (items.branchings.map Branching.tree)
  | .nil => .nil
  | .declaration _ rest => rest.perm_branches
  | .command first rest => by
    rw [Items.list, List.flatMap_cons, Items.branchings, List.map_append]
    exact first.perm_branches.append rest.perm_branches

end

/-! ## Programs -/

/-- **Every `else` belongs to the nearest open `if`.**  The `if`-`else` commands of a program, in
the order of their `else`s, have the `if`s that the tokens tell: for each `else` the last `if`
before it that stands as deep in braces and in the heads of `for` loops and that no `else` before
has been given.  They are the commands of the tree that branch with an `else`, each starts at its
`if`, and from no body before an `else` a chain of last bodies comes to an `if` without `else`. -/
theorem program_nearestIfs {tokens : List Token} {items : Items}
    (read : program tokens = .ok items) :
    items.branchings.map Branching.words = nearestIfs tokens ∧
      items.tree.branches.Perm (items.branchings.map Branching.tree) ∧
      ∀ branching ∈ items.branchings,
        branching.tree.block.first = branching.start.first ∧
        ∀ command ∈ branching.body.chain, command.isIfThen = false := by
  obtain ⟨spells, settled⟩ := program_ok_iff.1 read
  refine ⟨(spells.passes settled ⟨0, 0⟩ []).elses.symm, ?_, ?_⟩
  · rw [Items.tree, SmallImp.Command.branches_ofItems]
    exact items.perm_branches
  · intro branching mem
    refine ⟨rfl, fun command on => ?_⟩
    have closed := items.closed_of_mem_branchings settled branching mem
    rw [Body.isOpen_eq_any, List.any_eq_false] at closed
    simpa using closed command on

/-- Past an `if` in the head of a `for` loop and one in braces, the first `else` is for the `if`
right before it, and the second one for the first `if` of all. -/
theorem program_nearestIfs_for :
    ∃ items, program (tokensOf
        "if a for (, b, if c d = 1) if e else \x7bif f g = 2\x7d\nelse h = 3") = .ok items ∧
      items.branchings.map Branching.words =
        [(some ⟨⟨1, 28⟩, ⟨1, 30⟩⟩, ⟨⟨1, 33⟩, ⟨1, 37⟩⟩),
         (some ⟨⟨1, 1⟩, ⟨1, 3⟩⟩, ⟨⟨2, 1⟩, ⟨2, 5⟩⟩)] := by
  generalize eq : tokensOf _ = tokens
  have accepted : (program tokens).isOk = true := by rw [← eq]; decide +kernel
  cases read : program tokens with
  | error => rw [read] at accepted; cases accepted
  | ok items =>
    refine ⟨items, rfl, (program_nearestIfs read).1.trans ?_⟩
    rw [← eq]
    decide +kernel

end Phrase
end SmallImp

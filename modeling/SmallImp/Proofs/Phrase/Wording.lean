/-
# Wordings of one program

A program can be worded in several ways: with `then` and `do` or without, with the name or the
type of a declaration first, and with a body of one command or none in braces or not.
`Items.Rewords` relates a program with its tokens to another wording of it with its tokens, in
which any number of such changes are made, at any depth.  All other tokens stay.

A change is made at what the reader took for a body, a condition or a declaration.  For braces
that matters: in `if a then if b then c else d` the body of the first `if` is all the rest, and
to put `if b then c` in braces would give the `else` to the first `if`.  Braces are only put
around what is there, not taken away, since without them an `else` may find a nearer `if`.
-/
import SmallImp.Proofs.Phrase.Commands
import SmallImp.Proofs.Tree.Erasure
import SmallImp.Phrase.Tree

namespace SmallImp
namespace Phrase

/-! ## Rewording -/

/-- The items that a body in braces has for one command or none. -/
def OptionalCommand.items : OptionalCommand → Items
  | .none => .nil
  | .some command => .command command .nil

/-- A declaration in another wording: the tokens of name and type in either order. -/
inductive Declaration.Rewords : Declaration → List Token → Declaration → List Token → Prop
  | mk {word assign : Token} {nameFirst nameFirst' : Bool} {name : Identifier}
      {written : TypeName} {value : Expr} {head head' tokens : List Token} :
      startsDeclaration word.terminal = true → SpellsFields nameFirst name written head →
      SpellsFields nameFirst' name written head' → head.Perm head' →
      assign.terminal = .assign → Level.logic.Spells value tokens →
      Rewords ⟨word.block, word.terminal == .constWord, nameFirst, name, written, value⟩
        (word :: (head ++ assign :: tokens))
        ⟨word.block, word.terminal == .constWord, nameFirst', name, written, value⟩
        (word :: (head' ++ assign :: tokens))

/-- The declaration at the head of a `for` loop, if there is one, in another wording. -/
inductive RewordsInitial :
    Option Declaration → List Token → Option Declaration → List Token → Prop
  | none : RewordsInitial none [] none []
  | some {initial initial' : Declaration} {start start' : List Token} :
      initial.Rewords start initial' start' →
      RewordsInitial (some initial) start (some initial') start'

mutual

/-- A command in another wording: the words `then` and `do` may be dropped or added. -/
inductive Command.Rewords : Command → List Token → Command → List Token → Prop
  | same {command : Command} {used : List Token} : command.Spells used →
      Command.Rewords command used command used
  | ifThen {word : Token} {condition : Expr} {thenAt thenAt' : Option Block} {body body' : Body}
      {test optional optional' inner inner' : List Token} :
      word.terminal = .ifWord → Level.logic.Spells condition test →
      SpellsWord .thenWord thenAt optional → SpellsWord .thenWord thenAt' optional' →
      Body.Rewords body inner body' inner' →
      Command.Rewords (.ifThen word.block condition thenAt body)
        (word :: (test ++ (optional ++ inner)))
        (.ifThen word.block condition thenAt' body') (word :: (test ++ (optional' ++ inner')))
  | ifElse {word other : Token} {condition : Expr} {thenAt thenAt' : Option Block}
      {body body' otherwise otherwise' : Body}
      {test optional optional' inner inner' outer outer' : List Token} :
      word.terminal = .ifWord → Level.logic.Spells condition test →
      SpellsWord .thenWord thenAt optional → SpellsWord .thenWord thenAt' optional' →
      Body.Rewords body inner body' inner' → other.terminal = .elseWord →
      Body.Rewords otherwise outer otherwise' outer' →
      Command.Rewords (.ifElse word.block condition thenAt body other.block otherwise)
        (word :: (test ++ (optional ++ (inner ++ other :: outer))))
        (.ifElse word.block condition thenAt' body' other.block otherwise')
        (word :: (test ++ (optional' ++ (inner' ++ other :: outer'))))
  | whileLoop {word : Token} {condition : Expr} {doAt doAt' : Option Block} {body body' : Body}
      {test optional optional' inner inner' : List Token} :
      word.terminal = .whileWord → Level.logic.Spells condition test →
      SpellsWord .doWord doAt optional → SpellsWord .doWord doAt' optional' →
      Body.Rewords body inner body' inner' →
      Command.Rewords (.whileLoop word.block condition doAt body)
        (word :: (test ++ (optional ++ inner)))
        (.whileLoop word.block condition doAt' body') (word :: (test ++ (optional' ++ inner')))
  | forLoop {word opening comma comma' closing : Token} {initial initial' : Option Declaration}
      {condition : Expr} {step step' : OptionalCommand} {doAt doAt' : Option Block}
      {body body' : Body}
      {start start' test next next' optional optional' inner inner' : List Token} :
      word.terminal = .forWord → opening.terminal = .leftParen →
      RewordsInitial initial start initial' start' → comma.terminal = .comma →
      Level.logic.Spells condition test → comma'.terminal = .comma →
      OptionalCommand.Rewords step next step' next' → closing.terminal = .rightParen →
      SpellsWord .doWord doAt optional → SpellsWord .doWord doAt' optional' →
      Body.Rewords body inner body' inner' →
      Command.Rewords (.forLoop word.block initial condition step closing.block doAt body)
        (word :: opening :: (start ++ comma :: (test ++ comma' :: (next ++ closing ::
          (optional ++ inner)))))
        (.forLoop word.block initial' condition step' closing.block doAt' body')
        (word :: opening :: (start' ++ comma :: (test ++ comma' :: (next' ++ closing ::
          (optional' ++ inner')))))

/-- A command that may be left out, in another wording. -/
inductive OptionalCommand.Rewords :
    OptionalCommand → List Token → OptionalCommand → List Token → Prop
  | none : OptionalCommand.Rewords .none [] .none []
  | some {command command' : Command} {used used' : List Token} :
      Command.Rewords command used command' used' →
      OptionalCommand.Rewords (.some command) used (.some command') used'

/-- A body in another wording: one without braces may be put in braces. -/
inductive Body.Rewords : Body → List Token → Body → List Token → Prop
  | bare {command command' : OptionalCommand} {used used' : List Token} :
      OptionalCommand.Rewords command used command' used' →
      Body.Rewords (.bare command) used (.bare command') used'
  | wrapped {opening closing : Token} {command command' : OptionalCommand}
      {used used' : List Token} : opening.terminal = .leftBrace →
      OptionalCommand.Rewords command used command' used' → closing.terminal = .rightBrace →
      Body.Rewords (.bare command) used (.braced opening.block command'.items closing.block)
        (opening :: (used' ++ [closing]))
  | braced {opening closing : Token} {items items' : Items} {used used' : List Token} :
      opening.terminal = .leftBrace → Items.Rewords items used items' used' →
      closing.terminal = .rightBrace →
      Body.Rewords (.braced opening.block items closing.block) (opening :: (used ++ [closing]))
        (.braced opening.block items' closing.block) (opening :: (used' ++ [closing]))

/-- A list of items in another wording. -/
inductive Items.Rewords : Items → List Token → Items → List Token → Prop
  | nil : Items.Rewords .nil [] .nil []
  | declaration {first first' : Declaration} {rest rest' : Items}
      {used used' more more' : List Token} :
      first.Rewords used first' used' → Items.RewordsRest rest more rest' more' →
      Items.Rewords (.declaration first rest) (used ++ more) (.declaration first' rest')
        (used' ++ more')
  | command {first first' : Command} {rest rest' : Items} {used used' more more' : List Token} :
      Command.Rewords first used first' used' → Items.RewordsRest rest more rest' more' →
      Items.Rewords (.command first rest) (used ++ more) (.command first' rest') (used' ++ more')

/-- The items after the first one in another wording. -/
inductive Items.RewordsRest : Items → List Token → Items → List Token → Prop
  | nil : Items.RewordsRest .nil [] .nil []
  | items {separator : Token} {items items' : Items} {used used' : List Token} :
      separator.terminal = .separator → items ≠ .nil → Items.Rewords items used items' used' →
      Items.RewordsRest items (separator :: used) items' (separator :: used')

end

/-! ## A wording is spelled by its tokens -/

theorem Declaration.Rewords.spells {declaration declaration' : Declaration}
    {used used' : List Token} (h : declaration.Rewords used declaration' used') :
    declaration'.Spells used' := by
  cases h with
  | mk starts _ head _ assigns value => exact .mk starts head assigns value

theorem RewordsInitial.spells {initial initial' : Option Declaration} {used used' : List Token}
    (h : RewordsInitial initial used initial' used') : SpellsInitial initial' used' := by
  cases h with
  | none => exact .none
  | some declaration => exact .some declaration.spells

theorem OptionalCommand.spells_items {command : OptionalCommand} {used : List Token}
    (h : command.Spells used) : command.items.Spells used := by
  cases h with
  | none => exact .nil
  | @some _ used spells =>
    rw [← List.append_nil used]
    exact .command spells .nil

theorem Items.Rewords.ne_nil {items items' : Items} {used used' : List Token}
    (h : items.Rewords used items' used') (nonempty : items ≠ .nil) : items' ≠ .nil := by
  cases h with
  | nil => exact nonempty
  | declaration => exact nofun
  | command => exact nofun

mutual

theorem Command.Rewords.spells {command command' : Command} {used used' : List Token} :
    command.Rewords used command' used' → command'.Spells used'
  | .same spells => spells
  | .ifThen here tests _ then_ body => .ifThen here tests then_ body.spells
  | .ifElse here tests _ then_ body else_ otherwise =>
    .ifElse here tests then_ body.spells else_ otherwise.spells
  | .whileLoop here tests _ do_ body => .whileLoop here tests do_ body.spells
  | .forLoop here opens initial comma tests comma' step closes _ do_ body =>
    .forLoop here opens initial.spells comma tests comma' step.spells closes do_ body.spells

theorem OptionalCommand.Rewords.spells {command command' : OptionalCommand}
    {used used' : List Token} : command.Rewords used command' used' → command'.Spells used'
  | .none => .none
  | .some command => .some command.spells

theorem Body.Rewords.spells {body body' : Body} {used used' : List Token} :
    body.Rewords used body' used' → body'.Spells used'
  | .bare command => .bare command.spells
  | .wrapped opens command closes =>
    .braced opens (OptionalCommand.spells_items command.spells) closes
  | .braced opens items closes => .braced opens items.spells closes

theorem Items.Rewords.spells {items items' : Items} {used used' : List Token} :
    items.Rewords used items' used' → items'.Spells used'
  | .nil => .nil
  | .declaration first rest => .declaration first.spells rest.spells
  | .command first rest => .command first.spells rest.spells

theorem Items.RewordsRest.spells {items items' : Items} {used used' : List Token} :
    items.RewordsRest used items' used' → items'.SpellsRest used'
  | .nil => .nil
  | .items here nonempty items => .items here (items.ne_nil nonempty) items.spells

end

/-! ## A wording is settled -/

theorem OptionalCommand.settled_items {command : OptionalCommand} (h : command.Settled) :
    command.items.Settled := by
  cases command with
  | none => trivial
  | some => exact ⟨h, trivial⟩

mutual

/-- **No change of wording opens a command.** -/
theorem Command.Rewords.isOpen {command command' : Command} {used used' : List Token} :
    command.Rewords used command' used' → command'.isOpen = true → command.isOpen = true
  | .same _ => id
  | .ifThen .. => id
  | .ifElse _ _ _ _ _ _ otherwise => otherwise.isOpen
  | .whileLoop _ _ _ _ body => body.isOpen
  | .forLoop _ _ _ _ _ _ _ _ _ _ body => body.isOpen

theorem OptionalCommand.Rewords.isOpen {command command' : OptionalCommand}
    {used used' : List Token} :
    command.Rewords used command' used' → command'.isOpen = true → command.isOpen = true
  | .none => id
  | .some command => command.isOpen

theorem Body.Rewords.isOpen {body body' : Body} {used used' : List Token} :
    body.Rewords used body' used' → body'.isOpen = true → body.isOpen = true
  | .bare command => command.isOpen
  | .wrapped .. => nofun
  | .braced .. => id

end

mutual

theorem Command.Rewords.settled {command command' : Command} {used used' : List Token} :
    command.Rewords used command' used' → command.Settled → command'.Settled
  | .same _ => id
  | .ifThen _ _ _ _ body => body.settled
  | .ifElse _ _ _ _ body _ otherwise => fun ⟨closed, first, second⟩ => by
    have closed' := fun isOpen => Bool.eq_false_iff.1 closed (body.isOpen isOpen)
    exact ⟨Bool.eq_false_iff.2 closed', body.settled first, otherwise.settled second⟩
  | .whileLoop _ _ _ _ body => body.settled
  | .forLoop _ _ _ _ _ _ step _ _ _ body => fun ⟨first, second⟩ =>
    ⟨step.settled first, body.settled second⟩

theorem OptionalCommand.Rewords.settled {command command' : OptionalCommand}
    {used used' : List Token} :
    command.Rewords used command' used' → command.Settled → command'.Settled
  | .none => id
  | .some command => command.settled

theorem Body.Rewords.settled {body body' : Body} {used used' : List Token} :
    body.Rewords used body' used' → body.Settled → body'.Settled
  | .bare command => command.settled
  | .wrapped _ command _ => fun settled => OptionalCommand.settled_items (command.settled settled)
  | .braced _ items _ => items.settled

theorem Items.Rewords.settled {items items' : Items} {used used' : List Token} :
    items.Rewords used items' used' → items.Settled → items'.Settled
  | .nil => id
  | .declaration _ rest => rest.settled
  | .command first rest => fun ⟨here, there⟩ => ⟨first.settled here, rest.settled there⟩

theorem Items.RewordsRest.settled {items items' : Items} {used used' : List Token} :
    items.RewordsRest used items' used' → items.Settled → items'.Settled
  | .nil => id
  | .items _ _ items => items.settled

end

/-! ## A wording has the same tree -/

theorem erased_expandedFor (initial : Option Declaration) (condition : Expr)
    (body : SmallImp.Command) (step : Option SmallImp.Command) (block : Block) :
    (expandedFor initial condition body step block).erased =
      .scope ((initial.map (·.tree.erased)).getD (.nil .origin))
        (.loop condition.erased
          (.sequence body.erased ((step.map (·.erased)).getD (.nil .origin)) .origin) .origin)
        .origin := by
  cases initial <;> cases step <;> rfl

theorem Declaration.Rewords.tree {declaration declaration' : Declaration}
    {used used' : List Token} (h : declaration.Rewords used declaration' used') :
    declaration.tree = declaration'.tree := by
  cases h
  rfl

theorem RewordsInitial.tree {initial initial' : Option Declaration} {used used' : List Token}
    (h : RewordsInitial initial used initial' used') :
    initial.map (·.tree.erased) = initial'.map (·.tree.erased) := by
  cases h with
  | none => rfl
  | some declaration => rw [Option.map_some, declaration.tree, Option.map_some]

theorem erased_getD (command : Option SmallImp.Command) (block : Block) :
    (command.getD (.nil block)).erased =
      (command.map SmallImp.Command.erased).getD (.nil .origin) := by
  cases command <;> rfl

/-- In braces, one command or none is the same. -/
theorem OptionalCommand.erased_ofItems_items (command : OptionalCommand) (block : Block) :
    (SmallImp.Command.ofItems command.items.list block).erased =
      (command.tree?.map SmallImp.Command.erased).getD (.nil .origin) := by
  cases command <;> rfl

mutual

/-- **All wordings have one tree, but for its blocks.** -/
theorem Command.Rewords.tree {command command' : Command} {used used' : List Token} :
    command.Rewords used command' used' → command.tree.erased = command'.tree.erased
  | .same _ => rfl
  | .ifThen _ _ _ _ body => congrArg (SmallImp.Command.branch _ · .origin) (body.tree _ _)
  | .ifElse _ _ _ _ body _ otherwise =>
    congrArg₂ (SmallImp.Command.branchElse _ · · .origin) (body.tree _ _) (otherwise.tree _ _)
  | .whileLoop _ _ _ _ body => congrArg (SmallImp.Command.loop _ · .origin) (body.tree _ _)
  | .forLoop _ _ initial _ _ _ step _ _ _ body => by
    simp only [Command.tree, erased_expandedFor, initial.tree, step.tree]
    rw [body.tree]

theorem OptionalCommand.Rewords.tree {command command' : OptionalCommand}
    {used used' : List Token} : command.Rewords used command' used' →
    command.tree?.map SmallImp.Command.erased = command'.tree?.map SmallImp.Command.erased
  | .none => rfl
  | .some command => congrArg some command.tree

theorem Body.Rewords.tree {body body' : Body} {used used' : List Token} :
    body.Rewords used body' used' → ∀ emptyAt emptyAt' : Block,
      (body.tree emptyAt).erased = (body'.tree emptyAt').erased
  | .bare command, _, _ => by rw [Body.tree, Body.tree, erased_getD, erased_getD, command.tree]
  | .wrapped _ command _, _, _ => by
    rw [Body.tree, Body.tree, erased_getD, OptionalCommand.erased_ofItems_items, command.tree]
  | .braced _ items _, _, _ => by
    rw [Body.tree, Body.tree, Command.erased_ofItems, Command.erased_ofItems, items.tree]

theorem Items.Rewords.tree {items items' : Items} {used used' : List Token} :
    items.Rewords used items' used' →
      items.list.map Item.erased = items'.list.map Item.erased
  | .nil => rfl
  | .declaration first rest =>
    congrArg₂ (· :: ·) (congrArg (fun tree => Item.erased (.declaration tree)) first.tree) rest.tree
  | .command first rest => congrArg₂ (· :: ·) (congrArg Item.command first.tree) rest.tree

theorem Items.RewordsRest.tree {items items' : Items} {used used' : List Token} :
    items.RewordsRest used items' used' →
      items.list.map Item.erased = items'.list.map Item.erased
  | .nil => rfl
  | .items _ _ items => items.tree

end

end Phrase

open Phrase

/-- **All wordings of a program are accepted, with one tree but for its blocks.**  In what the
reader made of a list of tokens, each `then` and `do` may be dropped or added, the name and the
type of each declaration be swapped, and each body without braces be put in braces. -/
theorem program_rewords {items items' : Items} {tokens tokens' : List Token}
    (accepted : program tokens = .ok items) (rewords : items.Rewords tokens items' tokens') :
    program tokens' = .ok items' ∧ items.tree.node.same items'.tree.node = true := by
  refine ⟨program_ok_iff.2 ⟨rewords.spells, rewords.settled (program_ok_iff.1 accepted).2⟩, ?_⟩
  refine Command.same_of_erased ?_
  rw [Items.tree, Items.tree, Command.erased_ofItems, Command.erased_ofItems, rewords.tree]

/-- A nested `if` takes the `else`, so `then` may go and braces may be put around all of it:
`if true then if true print 1 else print 2` and `if true { if true print 1 else { print 2 } }`. -/
theorem program_rewords_nested :
    ∃ items items' : Items,
      program [⟨.ifWord, "if", .origin⟩, ⟨.trueWord, "true", .origin⟩, ⟨.thenWord, "then", .origin⟩,
        ⟨.ifWord, "if", .origin⟩, ⟨.trueWord, "true", .origin⟩, ⟨.printWord, "print", .origin⟩,
        ⟨.number, "1", .origin⟩, ⟨.elseWord, "else", .origin⟩, ⟨.printWord, "print", .origin⟩,
        ⟨.number, "2", .origin⟩] = .ok items ∧
      program [⟨.ifWord, "if", .origin⟩, ⟨.trueWord, "true", .origin⟩, ⟨.leftBrace, "\x7b", .origin⟩,
        ⟨.ifWord, "if", .origin⟩, ⟨.trueWord, "true", .origin⟩, ⟨.printWord, "print", .origin⟩,
        ⟨.number, "1", .origin⟩, ⟨.elseWord, "else", .origin⟩, ⟨.leftBrace, "\x7b", .origin⟩,
        ⟨.printWord, "print", .origin⟩, ⟨.number, "2", .origin⟩, ⟨.rightBrace, "\x7d", .origin⟩,
        ⟨.rightBrace, "\x7d", .origin⟩] = .ok items' ∧
      items.tree.node.same items'.tree.node = true := by
  have test : Level.logic.Spells (literalExpr .boolean ⟨.trueWord, "true", .origin⟩)
      [⟨.trueWord, "true", .origin⟩] := by
    iterate 8 refine .tighter (by decide) ?_
    exact .boolean (.inl rfl)
  have value (text : String) : Level.logic.Spells (literalExpr .number ⟨.number, text, .origin⟩)
      [⟨.number, text, .origin⟩] := by
    iterate 8 refine .tighter (by decide) ?_
    exact .number rfl
  have word (t : Terminal) (text : String) : (⟨t, text, .origin⟩ : Token).terminal = t := rfl
  have opens := word .leftBrace "\x7b"
  have closes := word .rightBrace "\x7d"
  have print (text : String) : Command.Spells _ [⟨.printWord, "print", .origin⟩, _] :=
    .print (word .printWord "print") (value text)
  have otherwise : Body.Rewords _ _ _ _ :=
    .wrapped opens (.some (.same (print "2"))) closes
  have inner : Command.Rewords _ _ _ _ :=
    .ifElse (word .ifWord "if") test .none .none (.bare (.some (.same (print "1"))))
      (word .elseWord "else") otherwise
  have outer : Command.Rewords _ _ _ _ :=
    .ifThen (word .ifWord "if") test (.some (word .thenWord "then")) .none
      (.wrapped opens (.some inner) closes)
  have whole : Items.Rewords _ _ _ _ := .command outer .nil
  exact ⟨_, _, rfl, program_rewords rfl whole⟩

end SmallImp

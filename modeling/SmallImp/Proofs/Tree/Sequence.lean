/-
# What a list of items is folded to

A list of items is folded run by run (`Folds`): a command stands before the fold of the rest, and
a run of declarations, as long as it goes on, is a group over the fold of the rest.

`Command.ofItems` reads the list from its start, with the group of the run that it is in.  A pass
from the end (`Pass`) does the same: it has the declarations of a run in hand until it comes to
the command before them (`Command.ofItems_eq_pass`).  What such a pass has in hand says how the
items that it has seen begin (`Pass.Holds`), and so its command is the fold of all of them.

The tree that comes of it has each item in it once, in the order of the list, and no more nodes
but those that join items (`Command.MadeOf`).  The block of such a node is the smallest one that
covers the items below it, if each of them goes from its start to its end (`Item.Spanned`).
-/
import SmallImp.Proofs.Source.Blocks
import SmallImp.Tree.Sequence

namespace SmallImp

/-! ## Smallest blocks -/

/-- Whether a block is the smallest that covers some blocks. -/
structure Block.Smallest (block : Block) (blocks : List Block) : Prop where
  covers : ∀ inner ∈ blocks, inner.Within block
  least : ∀ outer : Block, (∀ inner ∈ blocks, inner.Within outer) → block.Within outer

namespace Block.Smallest

variable {a b : Block} {as bs : List Block}

theorem singleton (block : Block) : block.Smallest [block] where
  covers := List.forall_mem_singleton.2 .rfl
  least _ all := all block List.mem_cons_self

/-- The union of two blocks is the smallest that covers what both cover. -/
theorem union (h : a.Smallest as) (h' : b.Smallest bs) : (a.union b).Smallest (as ++ bs) where
  covers := by
    refine List.forall_mem_append.2 ⟨fun inner mem => ?_, fun inner mem => ?_⟩
    · exact (h.covers inner mem).trans (a.within_union_left b)
    · exact (h'.covers inner mem).trans (a.within_union_right b)
  least outer all := by
    obtain ⟨left, right⟩ := List.forall_mem_append.1 all
    exact (h.least outer left).union (h'.least outer right)

/-- What covers blocks from their starts to their ends goes from its start to its end. -/
theorem ordered (h : a.Smallest as) (nonempty : as ≠ [])
    (all : ∀ inner ∈ as, inner.first ≤ inner.last) : a.first ≤ a.last := by
  obtain ⟨inner, mem⟩ := List.exists_mem_of_ne_nil as nonempty
  have within := h.covers inner mem
  exact within.first.trans ((all inner mem).trans within.last)

/-- The end of a block adds nothing to it. -/
theorem union_finish (h : a.Smallest as) (ordered : a.first ≤ a.last) :
    (a.union a.finish).Smallest as := by
  have same : a.union a.finish = a := union_eq_through ordered le_rfl
  rwa [same]

end Block.Smallest

/-! ## Items -/

/-- The block of an item. -/
def Item.block : Item → Block
  | .declaration here => here.block
  | .command here => here.block

/-- The blocks of the items of a list. -/
def Item.blocks (items : List Item) : List Block := items.map Item.block

theorem Command.ofItems?_eq_none {run : Option Declaration} {items : List Item} :
    ofItems? run items = none ↔ run = none ∧ items = [] := by
  fun_induction ofItems? run items <;> simp_all

/-- The items of a run of declarations. -/
def Item.run (declarations : List Declaration) : List Item := declarations.map .declaration

/-- Whether a block is the smallest that covers some items, if each of them goes from its start
to its end. -/
def Item.Spanned (block : Block) (items : List Item) : Prop :=
  (∀ item ∈ items, item.block.first ≤ item.block.last) → block.Smallest (Item.blocks items)

/-- The group of a run of declarations, which leans to the left: each one is joined to all that
stand before it. -/
def Declaration.grouped (first : Declaration) (more : List Declaration) : Declaration :=
  more.foldl (fun run next => .group run next (run.block.union next.block)) first

/-! ## Run by run -/

/-- What a list of items is folded to, by its first run; no items are a command that does nothing
at the given block. -/
inductive Folds (block : Block) : List Item → Command → Prop
  | nothing : Folds block [] (.nil block)
  | last {first : Command} : Folds block [.command first] first
  | command {first second : Command} {rest : List Item} : rest ≠ [] → Folds block rest second →
      Folds block (.command first :: rest)
        (.sequence first second (first.block.union second.block))
  /-- A run that ends the list stands over a command that does nothing, at its end. -/
  | lastRun {first : Declaration} {more : List Declaration} :
      Folds block (Item.run (first :: more))
        (.scope (first.grouped more) (.nil (first.grouped more).block.finish)
          ((first.grouped more).block.union (first.grouped more).block.finish))
  /-- A run goes on up to a command. -/
  | run {first : Declaration} {more : List Declaration} {next body : Command} {rest : List Item} :
      Folds block (.command next :: rest) body →
      Folds block (Item.run (first :: more) ++ .command next :: rest)
        (.scope (first.grouped more) body ((first.grouped more).block.union body.block))

/-! ## A pass from the end -/

/-- What a pass over a list from its end has in hand: the declarations that it has come to since
the last command, and the command for all that stands after them, if anything does. -/
structure Pass where
  run : List Declaration
  rest : Option Command

namespace Pass

/-- Nothing seen yet. -/
def start : Pass := ⟨[], none⟩

/-- The command for all that has been seen, if anything has. -/
def command? : Pass → Option Command
  | ⟨[], rest⟩ => rest
  | ⟨first :: more, rest⟩ =>
    let run := first.grouped more
    some (run.over (rest.getD (.nil run.block.finish)))

/-- One more item: a declaration is put before its run, a command before all. -/
def step (pass : Pass) : Item → Pass
  | .declaration here => ⟨here :: pass.run, pass.rest⟩
  | .command here => ⟨[], some (here.followedBy pass.command?)⟩

/-- What a pass has in hand of the items it has seen: the run that they begin with, and the fold
of the others, which begin with a command. -/
inductive Holds (block : Block) (items : List Item) (pass : Pass) : Prop
  | runs : items = Item.run pass.run → pass.rest = none → Holds block items pass
  | rest {next body : Command} {others : List Item} :
      items = Item.run pass.run ++ .command next :: others → pass.rest = some body →
      Folds block (.command next :: others) body → Holds block items pass

variable {block : Block} {items : List Item} {pass : Pass}

/-- Nothing is in hand just if nothing has been seen. -/
theorem Holds.command?_eq_none_iff (h : Holds block items pass) :
    pass.command? = none ↔ items = [] := by
  obtain ⟨run, rest⟩ := pass
  cases run with
  | nil =>
    cases h with
    | runs seen ended => exact ⟨fun _ => seen, fun _ => ended⟩
    | rest seen found =>
      rw [seen]
      exact iff_of_false (fun none => by cases found.symm.trans none) (by simp)
  | cons first more =>
    cases h with
    | runs seen | rest seen =>
      rw [seen]
      exact iff_of_false (Option.some_ne_none _) (by simp [Item.run])

/-- The command for items that have been seen is what they are folded to. -/
theorem Holds.folds (h : Holds block items pass) :
    Folds block items (pass.command?.getD (.nil block)) := by
  obtain ⟨run, rest⟩ := pass
  cases h with
  | runs seen ended =>
    obtain rfl : rest = none := ended
    rw [seen]
    cases run with
    | nil => exact .nothing
    | cons first more => exact .lastRun
  | rest seen found folds =>
    obtain rfl : rest = some _ := found
    rw [seen]
    cases run with
    | nil => exact folds
    | cons first more => exact .run folds

/-- **One more item is held as those before it were.** -/
theorem Holds.step (h : Holds block items pass) (item : Item) :
    Holds block (item :: items) (pass.step item) := by
  cases item with
  | declaration here =>
    cases h with
    | runs seen ended => exact .runs (congrArg _ seen) ended
    | rest seen found folds => exact .rest (congrArg _ seen) found folds
  | command here =>
    have folds := h.folds
    refine .rest rfl rfl ?_
    cases found : pass.command? with
    | none =>
      rw [h.command?_eq_none_iff.1 found]
      exact .last
    | some later =>
      rw [found] at folds
      exact .command (fun empty => by simp [h.command?_eq_none_iff.2 empty] at found) folds

/-- A pass over a whole list. -/
def ofItems (items : List Item) : Pass := items.foldr (fun item pass => pass.step item) start

/-- **A pass holds what it has seen**, all along a list. -/
theorem holds_ofItems (block : Block) (items : List Item) : Holds block items (ofItems items) := by
  induction items with
  | nil => exact .runs rfl rfl
  | cons item rest ih => exact ih.step item

/-- A run in front of what a pass has seen. -/
theorem ofItems_run_append (declarations : List Declaration) (items : List Item) :
    ofItems (Item.run declarations ++ items) =
      ⟨declarations ++ (ofItems items).run, (ofItems items).rest⟩ := by
  induction declarations with
  | nil => rfl
  | cons first more ih => exact congrArg (step · (.declaration first)) ih

end Pass

/-! ## From either end -/

namespace Command

variable {block : Block} {items : List Item} {command : Command}

/-- The command for a list after a run is that of a pass over all of it. -/
theorem ofItems?_eq_pass (run : Option Declaration) (items : List Item) :
    ofItems? run items = (Pass.ofItems (Item.run run.toList ++ items)).command? := by
  fun_induction ofItems? run items with
  | case1 | case2 => rfl
  | case3 first rest ih | case4 run first rest ih =>
    rw [ih]
    rfl
  | case5 first rest ih | case6 run next rest ih => exact ih

/-- **A pass from the end folds a list to the same command.** -/
theorem ofItems_eq_pass (items : List Item) (block : Block) :
    ofItems items block = ((Pass.ofItems items).command?).getD (.nil block) := by
  rw [ofItems, ofItems?_eq_pass]
  rfl

/-- The recursion by runs leaves no choice. -/
theorem eq_of_folds (h : Folds block items command) : ofItems items block = command := by
  rw [ofItems_eq_pass]
  induction h with
  | nothing | last => rfl
  | @command first second rest nonempty _ ih =>
    have held := Pass.holds_ofItems block rest
    cases found : (Pass.ofItems rest).command? with
    | none => exact absurd (held.command?_eq_none_iff.1 found) nonempty
    | some later =>
      rw [found] at ih
      obtain rfl : later = second := ih
      have whole : (Pass.ofItems (.command first :: rest)).command? =
          some (first.followedBy (Pass.ofItems rest).command?) := rfl
      rw [whole, found]
      rfl
  | @lastRun first more =>
    have whole := Pass.ofItems_run_append (first :: more) []
    rw [List.append_nil] at whole
    rw [whole]
    exact congrArg (fun run => (Pass.command? ⟨run, none⟩).getD (.nil block)) (List.append_nil _)
  | @run first more next body rest _ ih =>
    obtain rfl : next.followedBy (Pass.ofItems rest).command? = body := ih
    have last : Pass.ofItems (.command next :: rest) =
        ⟨[], some (next.followedBy (Pass.ofItems rest).command?)⟩ := rfl
    rw [Pass.ofItems_run_append, last, List.append_nil]
    rfl

end Command

/-! ## What the tree is made of -/

section MadeOf
variable (fits : Block → List Item → Prop)

/-- Whether a declaration is made of some items, each of them once and in their order, grouped in
any way; the block of each group fits the items below it. -/
inductive Declaration.MadeOf : List Item → Declaration → Prop
  | item (here : Declaration) : MadeOf [.declaration here] here
  | group {first second : Declaration} {left right : List Item} {block : Block} :
      MadeOf left first → MadeOf right second → fits block (left ++ right) →
      MadeOf (left ++ right) (.group first second block)

/-- Whether a command is made of some items, each of them once and in their order: a command goes
before what is made of the rest, and declarations over it.  The block of each node that joins
items fits those below it. -/
inductive Command.MadeOf : List Item → Command → Prop
  | nothing (block : Block) : MadeOf [] (.nil block)
  | item (here : Command) : MadeOf [.command here] here
  | sequence {first second : Command} {rest : List Item} {block : Block} :
      MadeOf rest second → fits block (.command first :: rest) →
      MadeOf (.command first :: rest) (.sequence first second block)
  | scope {declaration : Declaration} {body : Command} {left right : List Item} {block : Block} :
      declaration.MadeOf fits left → MadeOf right body → fits block (left ++ right) →
      MadeOf (left ++ right) (.scope declaration body block)

end MadeOf

namespace Item.Spanned

variable {a b : Block} {as bs items : List Item}

theorem union (h : Spanned a as) (h' : Spanned b bs) : Spanned (a.union b) (as ++ bs) := by
  intro all
  obtain ⟨left, right⟩ := List.forall_mem_append.1 all
  rw [blocks, List.map_append]
  exact (h left).union (h' right)

theorem union_finish (h : Spanned a as) (nonempty : as ≠ []) :
    Spanned (a.union a.finish) as := by
  intro all
  refine (h all).union_finish ((h all).ordered (by simpa [blocks] using nonempty) ?_)
  exact List.forall_mem_map.2 all

/-- The block of a declaration that is made of items is the smallest one. -/
theorem of_declaration {declaration : Declaration}
    (made : declaration.MadeOf Spanned items) : Spanned declaration.block items := by
  cases made with
  | item => exact fun _ => .singleton declaration.block
  | group _ _ fit => exact fit

/-- The block of a command that is made of items is the smallest one, if there are any. -/
theorem of_command {command : Command} (made : command.MadeOf Spanned items)
    (nonempty : items ≠ []) : Spanned command.block items := by
  cases made with
  | nothing => exact absurd rfl nonempty
  | item => exact fun _ => .singleton command.block
  | sequence _ fit | scope _ _ fit => exact fit

end Item.Spanned

/-- The group of a run is made of the run. -/
theorem Declaration.madeOf_grouped (first : Declaration) (more : List Declaration) :
    (first.grouped more).MadeOf Item.Spanned (Item.run (first :: more)) := by
  induction more using List.reverseRecOn with
  | nil => exact .item first
  | append_singleton more next ih =>
    have run : Item.run (first :: (more ++ [next])) =
        Item.run (first :: more) ++ [.declaration next] := by simp [Item.run]
    rw [grouped, List.foldl_append, run]
    exact .group ih (.item next) ((Item.Spanned.of_declaration ih).union fun _ => .singleton _)

/-- A fold is made of its items. -/
theorem Folds.madeOf {block : Block} {items : List Item} {command : Command}
    (h : Folds block items command) : command.MadeOf Item.Spanned items := by
  induction h with
  | nothing => exact .nothing block
  | @last first => exact .item first
  | @command first second rest nonempty _ ih =>
    refine .sequence ih ?_
    have here : Item.Spanned first.block [.command first] := fun _ => .singleton _
    exact here.union (.of_command ih nonempty)
  | @lastRun first more =>
    have made := first.madeOf_grouped more
    have fit := (Item.Spanned.of_declaration made).union_finish (by simp [Item.run])
    rw [← List.append_nil (Item.run _)] at fit ⊢
    exact .scope made (.nothing _) fit
  | @run first more next body rest _ ih =>
    have made := first.madeOf_grouped more
    exact .scope made ih ((Item.Spanned.of_declaration made).union (.of_command ih (by simp)))

namespace Command

theorem folds_ofItems (items : List Item) (block : Block) :
    Folds block items (ofItems items block) := by
  rw [ofItems_eq_pass]
  exact (Pass.holds_ofItems block items).folds

/-- What a list is folded to is made of its items. -/
theorem madeOf_ofItems (items : List Item) (block : Block) :
    (ofItems items block).MadeOf Item.Spanned items := (folds_ofItems items block).madeOf

/-- **A list of items is folded run by run**, by a pass from its start or from its end.  Each item
is used once and in the order of the list, and a node that joins items has the smallest block that
covers them, if each of them goes from its start to its end. -/
theorem ofItems_folded (items : List Item) (block : Block) :
    ofItems items block = (Pass.ofItems items).command?.getD (.nil block) ∧
      (∀ command, ofItems items block = command ↔ Folds block items command) ∧
      (ofItems items block).MadeOf Item.Spanned items := by
  refine ⟨ofItems_eq_pass items block, fun command => ⟨?_, eq_of_folds⟩, madeOf_ofItems items block⟩
  rintro rfl
  exact folds_ofItems items block

/-- Two runs of declarations with a command between them. -/
example (a b c : Declaration) (x : Command) (block : Block) :
    let group : Declaration := .group a b (a.block.union b.block)
    let last : Command := .scope c (.nil c.block.finish) (c.block.union c.block.finish)
    let rest : Command := .sequence x last (x.block.union last.block)
    ofItems [.declaration a, .declaration b, .command x, .declaration c] block =
      .scope group rest (group.block.union rest.block) := rfl

end Command

end SmallImp

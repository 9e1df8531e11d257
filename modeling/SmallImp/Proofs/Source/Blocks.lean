/-
# Positions and blocks in order

Positions are ordered as the characters of a text are: by line, then by column.  Each character
moves on in that order (`Position.lt_next`).

Blocks that stand one after another (`Block.InOrder`) are covered by one from the start of the
first to the end of the last (`Block.hull`), and of two such blocks the union is no more than the
way from the one to the other (`Block.union_eq_through`).

The text at a block is what a text has between the two positions (`Block.text`).
-/
import Mathlib.Data.List.Induction
import Mathlib.Data.Prod.Lex
import SmallImp.Source.Block

namespace SmallImp

/-! ## Positions -/

namespace Position

/-- Positions in the order of a text: by line, then by column. -/
instance : LinearOrder Position :=
  LinearOrder.lift' (fun p => toLex (p.line, p.column)) fun p q same => by
    cases p
    cases q
    simpa using same

theorem lt_iff {p q : Position} :
    p < q ↔ p.line < q.line ∨ p.line = q.line ∧ p.column < q.column :=
  Prod.Lex.toLex_lt_toLex

/-- One position stands before another if it is less. -/
theorem before_iff {p q : Position} : p.before q = true ↔ p < q := by
  simp [before, lt_iff]

theorem min_eq (p q : Position) : p.min q = Min.min p q := by
  rcases lt_or_ge q p with after | ahead
  · rw [min, if_pos (before_iff.2 after), min_eq_right after.le]
  · rw [min, if_neg (mt before_iff.1 ahead.not_gt), min_eq_left ahead]

theorem max_eq (p q : Position) : p.max q = Max.max p q := by
  rcases lt_or_ge p q with ahead | after
  · rw [max, if_pos (before_iff.2 ahead), max_eq_right ahead.le]
  · rw [max, if_neg (mt before_iff.1 after.not_gt), max_eq_left after]

/-- A character moves on. -/
theorem lt_next (p : Position) (c : Char) : p < p.next c := by
  rw [next, lt_iff]
  split
  · exact .inl (Int.lt_succ p.line)
  · exact .inr ⟨rfl, Int.lt_succ p.column⟩

theorem le_advance (p : Position) (text : List Char) : p ≤ p.advance text := by
  induction text generalizing p with
  | nil => exact le_rfl
  | cons c rest ih => exact (p.lt_next c).le.trans (ih (p.next c))

end Position

namespace Block

/-! ## Blocks within blocks -/

@[simp]
theorem first_union (a b : Block) : (a.union b).first = min a.first b.first :=
  Position.min_eq a.first b.first

@[simp]
theorem last_union (a b : Block) : (a.union b).last = max a.last b.last :=
  Position.max_eq a.last b.last

/-- Whether a block lies within another. -/
structure Within (inner outer : Block) : Prop where
  first : outer.first ≤ inner.first
  last : inner.last ≤ outer.last

namespace Within
variable {a b outer : Block}

protected theorem rfl : a.Within a := ⟨le_rfl, le_rfl⟩

protected theorem trans (h : a.Within b) (h' : b.Within outer) : a.Within outer :=
  ⟨h'.first.trans h.first, h.last.trans h'.last⟩

/-- The start of a block within another is within it. -/
theorem start (h : a.Within outer) (ordered : a.first ≤ a.last) : a.start.Within outer :=
  ⟨h.first, ordered.trans h.last⟩

/-- The end of a block within another is within it. -/
theorem finish (h : a.Within outer) (ordered : a.first ≤ a.last) : a.finish.Within outer :=
  ⟨h.first.trans ordered, h.last⟩

theorem union (h : a.Within outer) (h' : b.Within outer) : (a.union b).Within outer where
  first := by
    rw [first_union]
    exact le_min h.first h'.first
  last := by
    rw [last_union]
    exact max_le h.last h'.last

end Within

theorem within_union_left (a b : Block) : a.Within (a.union b) where
  first := by simp
  last := by simp

theorem within_union_right (a b : Block) : b.Within (a.union b) where
  first := by simp
  last := by simp

/-- The union of two blocks in order goes from the start of the one to the end of the other. -/
theorem union_eq_through {a b : Block} (first : a.first ≤ b.first) (last : a.last ≤ b.last) :
    a.union b = a.through b := by
  change Block.mk (a.union b).first (a.union b).last = _
  rw [first_union, last_union, min_eq_left first, max_eq_right last, through]

/-! ## Blocks one after another -/

/-- The block from the start of the first of some blocks to the end of the last. -/
def hull : List Block → Block
  | [] => origin
  | block :: rest => block.through (rest.getLastD block)

/-- Whether blocks stand one after another, each from its start to its end. -/
structure InOrder (blocks : List Block) : Prop where
  ordered : ∀ block ∈ blocks, block.first ≤ block.last
  pairwise : blocks.Pairwise fun a b => a.last ≤ b.first

section Hull
variable {blocks more : List Block} {outer : Block}

theorem exists_first_hull (nonempty : blocks ≠ []) :
    ∃ block ∈ blocks, (hull blocks).first = block.first := by
  cases blocks with
  | nil => exact absurd rfl nonempty
  | cons block rest => exact ⟨block, List.mem_cons_self, rfl⟩

theorem exists_last_hull (nonempty : blocks ≠ []) :
    ∃ block ∈ blocks, (hull blocks).last = block.last := by
  cases blocks with
  | nil => exact absurd rfl nonempty
  | cons block rest =>
    refine ⟨rest.getLastD block, ?_, rfl⟩
    rw [← List.getLast_eq_getLastD (List.cons_ne_nil block rest)]
    exact List.getLast_mem _

/-- The first and the last of some blocks say where their hull is. -/
theorem hull_eq_through {start finish : Block} (head : blocks.head? = some start)
    (last : blocks.getLast? = some finish) : hull blocks = start.through finish := by
  cases blocks with
  | nil => cases head
  | cons block rest =>
    obtain rfl := Option.some.inj head
    rw [List.getLast?_cons] at last
    rw [hull, List.getLastD_eq_getLast?, Option.some.inj last]

theorem hull_append (nonempty : blocks ≠ []) (nonempty' : more ≠ []) :
    hull (blocks ++ more) = (hull blocks).through (hull more) := by
  cases blocks with
  | nil => exact absurd rfl nonempty
  | cons block rest =>
    cases more with
    | nil => exact absurd rfl nonempty'
    | cons next rest' => simp [hull, through, List.getLast?_cons]

theorem hull_cons (block : Block) (nonempty : more ≠ []) :
    hull (block :: more) = block.through (hull more) :=
  hull_append (List.cons_ne_nil block []) nonempty

/-- What covers some blocks covers all from the first to the last. -/
theorem hull_within (nonempty : blocks ≠ []) (within : ∀ block ∈ blocks, block.Within outer) :
    (hull blocks).Within outer := by
  obtain ⟨start, mem, first⟩ := exists_first_hull nonempty
  obtain ⟨finish, mem', last⟩ := exists_last_hull nonempty
  exact ⟨first ▸ (within start mem).first, last ▸ (within finish mem').last⟩

namespace InOrder

theorem sublist (h : InOrder more) (sub : blocks.Sublist more) : InOrder blocks :=
  ⟨fun block mem => h.ordered block (sub.subset mem), h.pairwise.sublist sub⟩

/-- One part of a list of blocks ends before the next starts. -/
theorem last_hull_le (h : InOrder (blocks ++ more)) (nonempty : blocks ≠ [])
    (nonempty' : more ≠ []) : (hull blocks).last ≤ (hull more).first := by
  obtain ⟨finish, mem, last⟩ := exists_last_hull nonempty
  obtain ⟨start, mem', first⟩ := exists_first_hull nonempty'
  rw [last, first]
  exact (List.pairwise_append.1 h.pairwise).2.2 finish mem start mem'

theorem first_hull_le (h : InOrder blocks) :
    ∀ block ∈ blocks, (hull blocks).first ≤ block.first := by
  cases blocks with
  | nil => exact List.forall_mem_nil _
  | cons start rest =>
    refine List.forall_mem_cons.2 ⟨le_rfl, fun block mem => ?_⟩
    exact (h.ordered start List.mem_cons_self).trans ((List.pairwise_cons.1 h.pairwise).1 block mem)

theorem le_last_hull (h : InOrder blocks) : ∀ block ∈ blocks, block.last ≤ (hull blocks).last := by
  induction blocks using List.reverseRecOn with
  | nil => exact List.forall_mem_nil _
  | append_singleton earlier finish _ =>
    intro block mem
    have last : (hull (earlier ++ [finish])).last = finish.last := by
      cases earlier <;> simp [hull, through]
    rw [last]
    rcases List.mem_append.1 mem with mem | mem
    · have next := (List.pairwise_append.1 h.pairwise).2.2 block mem finish List.mem_cons_self
      exact next.trans (h.ordered finish (by simp))
    · rw [List.mem_singleton.1 mem]

/-- Blocks in order lie within the block that covers them. -/
theorem within_hull (h : InOrder blocks) : ∀ block ∈ blocks, block.Within (hull blocks) :=
  fun block mem => ⟨h.first_hull_le block mem, h.le_last_hull block mem⟩

theorem ordered_hull (h : InOrder blocks) : (hull blocks).first ≤ (hull blocks).last := by
  cases blocks with
  | nil => exact le_rfl
  | cons block rest =>
    have within := h.within_hull block List.mem_cons_self
    exact within.first.trans ((h.ordered block List.mem_cons_self).trans within.last)

/-- A block before blocks in order, if it ends before they start. -/
theorem cons {block : Block} (ordered : block.first ≤ block.last) (h : InOrder blocks)
    (before : blocks ≠ [] → block.last ≤ (hull blocks).first) : InOrder (block :: blocks) where
  ordered := List.forall_mem_cons.2 ⟨ordered, h.ordered⟩
  pairwise := by
    refine List.pairwise_cons.2 ⟨fun other mem => ?_, h.pairwise⟩
    exact (before (List.ne_nil_of_mem mem)).trans (h.first_hull_le other mem)

/-- The union of two blocks one after the other. -/
theorem union_eq {a b : Block} (h : InOrder [a, b]) : a.union b = a.through b := by
  have between := (List.pairwise_cons.1 h.pairwise).1 b List.mem_cons_self
  have first := h.ordered a (by simp)
  have last := h.ordered b (by simp)
  exact union_eq_through (first.trans between) (between.trans last)

/-- A block and what stands after it, taken as one. -/
theorem collapse {block : Block} {rest : List Block} (h : InOrder (block :: rest))
    (nonempty : rest ≠ []) :
    InOrder [block, hull rest] ∧ hull (block :: rest) = block.union (hull rest) := by
  have later := h.sublist (List.sublist_cons_self block rest)
  have before : block.last ≤ (hull rest).first :=
    InOrder.last_hull_le (show InOrder ([block] ++ rest) from h) (List.cons_ne_nil _ _) nonempty
  have pair : InOrder [block, hull rest] :=
    .cons (h.ordered block List.mem_cons_self)
      ⟨List.forall_mem_singleton.2 later.ordered_hull, List.pairwise_singleton _ _⟩ fun _ => before
  refine ⟨pair, ?_⟩
  rw [pair.union_eq, hull_cons block nonempty]

end InOrder

end Hull

/-! ## The text at a block -/

/-- Whether a place lies in a block. -/
def contains (block : Block) (place : Position) : Bool :=
  !place.before block.first && place.before block.last

/-- The characters that a text, from a place on, has in a block. -/
def cut (block : Block) : Position → List Char → List Char
  | _, [] => []
  | place, c :: rest =>
    if block.contains place then c :: block.cut (place.next c) rest
    else block.cut (place.next c) rest

/-- The text that a source has at a block. -/
def text (block : Block) (source : String) : String :=
  String.ofList (block.cut .origin source.toList)

section Cut
variable {block : Block} {place : Position}

theorem contains_iff : block.contains place = true ↔ block.first ≤ place ∧ place < block.last := by
  rw [contains, Bool.and_eq_true, Bool.not_eq_true', ← Bool.not_eq_true, Position.before_iff,
    Position.before_iff, not_lt]

theorem cut_append (first second : List Char) :
    block.cut place (first ++ second) =
      block.cut place first ++ block.cut (place.advance first) second := by
  induction first generalizing place with
  | nil => rfl
  | cons c rest ih =>
    rw [List.cons_append, cut, cut, ih]
    split <;> rfl

/-- There is nothing of a text in a block after it. -/
theorem cut_of_le {text : List Char} (after : place.advance text ≤ block.first) :
    block.cut place text = [] := by
  induction text generalizing place with
  | nil => rfl
  | cons c rest ih =>
    have before : place < block.first :=
      (place.lt_next c).trans_le (((place.next c).le_advance rest).trans after)
    rw [cut, if_neg fun inside => (contains_iff.1 inside).1.not_gt before]
    exact ih after

/-- There is nothing of a text in a block before it. -/
theorem cut_of_ge {text : List Char} (ended : block.last ≤ place) : block.cut place text = [] := by
  induction text generalizing place with
  | nil => rfl
  | cons c rest ih =>
    rw [cut, if_neg fun inside => (contains_iff.1 inside).2.not_ge ended]
    exact ih (ended.trans (place.lt_next c).le)

/-- A text that lies in a block is all in it. -/
theorem cut_of_within {text : List Char} (started : block.first ≤ place)
    (ends : place.advance text ≤ block.last) : block.cut place text = text := by
  induction text generalizing place with
  | nil => rfl
  | cons c rest ih =>
    have before : place < block.last :=
      (place.lt_next c).trans_le (((place.next c).le_advance rest).trans ends)
    rw [cut, if_pos (contains_iff.2 ⟨started, before⟩),
      ih (started.trans (place.lt_next c).le) ends]

end Cut

/-- The text at a block of two lines has the line end. -/
example : (⟨⟨1, 2⟩, ⟨2, 2⟩⟩ : Block).text "ab\ncd" = "b\nc" := by decide

end Block

end SmallImp

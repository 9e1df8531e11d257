/-
# Items one after the other

What a list of items does is plain: each declaration extends the environment for all the items
after it, each command changes the store for them, and the first error is the last thing that
happens (`runItems`).  A list runs as its first part and then its second, in the environment that
the first has left (`runItems_append`), and that is the one at the start with a binding for each
name that the first part declares (`exists_bindings_of_runItems`).

A tree that is made of the items in their order does the same, however its declarations are
grouped (`Command.MadeOf.execute_eq`): a group is elaborated as its parts are, and a scope hands
on the environment to all that stands under it.  The fold of the list is such a tree.
-/
import SmallImp.Proofs.Semantics.Execution
import SmallImp.Proofs.Semantics.Names
import SmallImp.Proofs.State.Growth
import SmallImp.Proofs.Tree.Sequence

namespace SmallImp

/-! ## One attempt after another -/

/-- An attempt that may not come to an end, and what is done with its result; after an error
nothing is. -/
def Attempt.andThen {α β : Type} (first : Option (Attempt α))
    (next : α → Progress → Option (Attempt β)) : Option (Attempt β) :=
  match first with
  | none => none
  | some ⟨.error error, progress⟩ => some ⟨.error error, progress⟩
  | some ⟨.ok result, progress⟩ => next result progress

namespace Attempt

variable {α β γ : Type}

theorem andThen_assoc (first : Option (Attempt α)) (next : α → Progress → Option (Attempt β))
    (last : β → Progress → Option (Attempt γ)) :
    andThen (andThen first next) last =
      andThen first fun result progress => andThen (next result progress) last := by
  rcases first with _ | ⟨error | result, progress⟩ <;> rfl

/-- Handing on the result adds nothing. -/
theorem andThen_self (first : Option (Attempt α)) :
    (andThen first fun result progress => some ⟨.ok result, progress⟩) = first := by
  rcases first with _ | ⟨error | result, progress⟩ <;> rfl

end Attempt

open Attempt (andThen andThen_assoc andThen_self)

section
variable {limit : Nat} {env : Environment} {store : Store} {progress : Progress} {block : Block}

theorem elaborate_group (first second : Declaration) :
    some (elaborate (.group first second block) env store progress) =
      andThen (some (elaborate first env store progress)) fun state progress =>
        some (elaborate second state.1 state.2 progress) := by
  rw [elaborate]
  rcases elaborate first env store progress with ⟨error | ⟨innerEnv, innerStore⟩, after⟩ <;> rfl

theorem execute_scope (declaration : Declaration) (body : Command) :
    execute limit (.scope declaration body block) env store progress =
      andThen (some (elaborate declaration env store progress)) fun state progress =>
        execute limit body state.1 state.2 progress := by
  rw [execute]
  rcases elaborate declaration env store progress with ⟨error | ⟨innerEnv, innerStore⟩, after⟩
  all_goals rfl

theorem execute_sequence (first second : Command) :
    execute limit (.sequence first second block) env store progress =
      andThen (execute limit first env store progress) fun store progress =>
        execute limit second env store progress := by
  rw [execute]
  rcases execute limit first env store progress with _ | ⟨error | innerStore, after⟩ <;> rfl

end

/-! ## The plain run -/

/-- The items of a list one after the other: a declaration changes environment and store for all
items after it, a command the store only. -/
def runItems (limit : Nat) : List Item → Environment → Store → Progress →
    Option (Attempt (Environment × Store))
  | [], env, store, progress => some ⟨.ok (env, store), progress⟩
  | .declaration here :: rest, env, store, progress =>
    andThen (some (elaborate here env store progress)) fun state progress =>
      runItems limit rest state.1 state.2 progress
  | .command here :: rest, env, store, progress =>
    andThen (execute limit here env store progress) fun store progress =>
      runItems limit rest env store progress

/-- What is left of the run of a list when the list is done: the store, and no environment. -/
def leaveScope (attempt : Option (Attempt (Environment × Store))) : Option (Attempt Store) :=
  andThen attempt fun state progress => some ⟨.ok state.2, progress⟩

section
variable {limit : Nat} {items : List Item}

/-- **A list runs as its first part and then its second**, where the first has left off. -/
theorem runItems_append (before later : List Item) (env : Environment) (store : Store)
    (progress : Progress) :
    runItems limit (before ++ later) env store progress =
      andThen (runItems limit before env store progress) fun state progress =>
        runItems limit later state.1 state.2 progress := by
  induction before generalizing env store progress with
  | nil => rfl
  | cons item rest ih =>
    cases item with
    | declaration here | command here =>
      simp only [List.cons_append, runItems, ih, andThen_assoc]

/-- A declaration that is made of items elaborates them in their order. -/
theorem Declaration.MadeOf.elaborate_eq {fits : Block → List Item → Prop}
    {declaration : Declaration} (h : declaration.MadeOf fits items) (env : Environment)
    (store : Store) (progress : Progress) :
    some (elaborate declaration env store progress) =
      runItems limit items env store progress := by
  induction h generalizing env store progress with
  | item here => exact (andThen_self _).symm
  | group _ _ _ ihFirst ihSecond =>
    rw [elaborate_group, runItems_append, ihFirst]
    exact congrArg _ (funext fun state => funext fun progress => ihSecond state.1 state.2 progress)

/-- **A command that is made of items runs them in their order.** -/
theorem Command.MadeOf.execute_eq {fits : Block → List Item → Prop} {command : Command}
    (h : command.MadeOf fits items) (env : Environment) (store : Store) (progress : Progress) :
    execute limit command env store progress =
      leaveScope (runItems limit items env store progress) := by
  induction h generalizing env store progress with
  | nothing => rfl
  | item here =>
    rw [leaveScope, runItems, andThen_assoc]
    exact (andThen_self _).symm
  | sequence _ _ ih =>
    rw [execute_sequence, leaveScope, runItems, andThen_assoc]
    exact congrArg _ (funext fun store => funext fun progress => ih env store progress)
  | scope made _ _ ih =>
    rw [execute_scope, made.elaborate_eq, leaveScope, runItems_append, andThen_assoc]
    exact congrArg _ (funext fun state => funext fun progress => ih state.1 state.2 progress)

end

/-! ## The names in sight -/

/-- The names that an item binds for the items after it. -/
def Item.bound : Item → List String
  | .declaration here => here.bound
  | .command _ => []

/-- A declaration binds its names, one after the other, and no others. -/
theorem exists_bindings_of_elaborate {declaration : Declaration} {env env' : Environment}
    {store store' : Store} {progress after : Progress}
    (h : elaborate declaration env store progress = ⟨.ok (env', store'), after⟩) :
    ∃ bindings, bindings.map Prod.fst = declaration.bound ∧ env' = env.extendAll bindings := by
  induction declaration generalizing env store progress env' store' after with
  | nil =>
    cases h
    exact ⟨[], rfl, rfl⟩
  | «variable» name type initial block | constant name type initial block =>
    rw [elaborate] at h
    split at h
    · cases h
    · cases h
      exact ⟨[(name.name, _)], rfl, rfl⟩
  | group first second block ihFirst ihSecond =>
    rw [elaborate] at h
    split at h
    · cases h
    case h_2 elaborated =>
      obtain ⟨names, bound, rfl⟩ := ihFirst elaborated
      obtain ⟨more, bound', rfl⟩ := ihSecond h
      exact ⟨names ++ more, by rw [List.map_append, bound, bound']; rfl,
        (Bindings.extendAll_append ..).symm⟩
  | unknown => cases h

/-- **Items leave a binding for each name that they declare**, one after the other, and all other
names as they were. -/
theorem exists_bindings_of_runItems {limit : Nat} {items : List Item} {env : Environment}
    {store : Store} {progress after : Progress} {state : Environment × Store}
    (h : runItems limit items env store progress = some ⟨.ok state, after⟩) :
    ∃ bindings, bindings.map Prod.fst = items.flatMap Item.bound ∧
      state.1 = env.extendAll bindings := by
  induction items generalizing env store progress with
  | nil =>
    cases h
    exact ⟨[], rfl, rfl⟩
  | cons item rest ih =>
    cases item with
    | declaration here =>
      rw [runItems] at h
      rcases elaborated : elaborate here env store progress with
        ⟨error | ⟨innerEnv, innerStore⟩, between⟩
      · rw [elaborated] at h
        cases h
      · rw [elaborated] at h
        obtain ⟨names, bound, rfl⟩ := exists_bindings_of_elaborate elaborated
        obtain ⟨more, bound', eq⟩ := ih h
        refine ⟨names ++ more, ?_, eq.trans (Bindings.extendAll_append ..).symm⟩
        rw [List.map_append, bound, bound']
        rfl
    | command here =>
      rw [runItems] at h
      rcases executed : execute limit here env store progress with _ | ⟨error | innerStore, between⟩
      all_goals rw [executed] at h
      · cases h
      · cases h
      · exact ih h

/-! ## The fold of a list -/

/-- **The fold of a list of items runs them one after the other**, and so does each tree that is
made of them in their order, however their declarations are grouped.  At each place in the list
the items before it do what they do whatever comes after, and the items after it run in the
environment with one more binding for each name declared before. -/
theorem execute_ofItems (limit : Nat) (items : List Item) (block : Block) (env : Environment)
    (store : Store) (progress : Progress) :
    execute limit (.ofItems items block) env store progress =
        leaveScope (runItems limit items env store progress) ∧
      (∀ command : Command, command.MadeOf (fun _ _ => True) items →
        execute limit command env store progress =
          execute limit (.ofItems items block) env store progress) ∧
      ∀ before later : List Item, items = before ++ later →
        execute limit (.ofItems items block) env store progress =
            andThen (runItems limit before env store progress) (fun state progress =>
              execute limit (.ofItems later block) state.1 state.2 progress) ∧
          ∀ state between, runItems limit before env store progress = some ⟨.ok state, between⟩ →
            ∃ bindings, bindings.map Prod.fst = before.flatMap Item.bound ∧
              state.1 = env.extendAll bindings := by
  have fold (items : List Item) (env : Environment) (store : Store) (progress : Progress) :
      execute limit (.ofItems items block) env store progress =
        leaveScope (runItems limit items env store progress) :=
    (Command.madeOf_ofItems items block).execute_eq env store progress
  refine ⟨fold items env store progress, fun command made => ?_, fun before later split => ?_⟩
  · rw [fold, made.execute_eq]
  · refine ⟨?_, fun state between ran => exists_bindings_of_runItems ran⟩
    rw [fold, split, leaveScope, runItems_append, andThen_assoc]
    exact congrArg _ (funext fun state => funext fun progress =>
      (fold later state.1 state.2 progress).symm)

/-- `let x : bool = true const y : bool = x print y`, with a scope in a scope instead of a group:
the second declaration sees the first. -/
theorem execute_ofItems_nested :
    let x : Identifier := ⟨"x", .origin⟩
    let y : Identifier := ⟨"y", .origin⟩
    let type : Node := .leaf (.type .boolean) .origin
    let first : Declaration :=
      .variable x type (.value ⟨.boolean, "true", .origin⟩ .origin) .origin
    let second : Declaration := .constant y type (.identifier x .origin) .origin
    let printed : Command := .print (.identifier y .origin) .origin
    let items : List Item := [.declaration first, .declaration second, .command printed]
    let nested : Command := .scope first (.scope second printed .origin) .origin
    nested.MadeOf (fun _ _ => True) items ∧
      execute 0 nested .empty .empty (.fresh 0) =
        execute 0 (.ofItems items .origin) .empty .empty (.fresh 0) ∧
      (∃ store after,
        execute 0 nested .empty .empty (.fresh 0) = some ⟨.ok store, after⟩ ∧
          after.output = "true\n") ∧
      ∃ state between,
        runItems 0 [.declaration first] .empty .empty (.fresh 0) = some ⟨.ok state, between⟩ ∧
          ∃ bindings, bindings.map Prod.fst = ["x"] ∧
            state.1 = Bindings.empty.extendAll bindings := by
  intro x y type first second printed items nested
  obtain ⟨-, alike, splits⟩ := execute_ofItems 0 items .origin .empty .empty (.fresh 0)
  have made : nested.MadeOf (fun _ _ => True) items :=
    .scope (.item first) (.scope (.item second) (.item printed) trivial) trivial
  obtain ⟨-, bound⟩ := splits [.declaration first] [.declaration second, .command printed] rfl
  exact ⟨made, alike nested made, ⟨_, _, rfl, rfl⟩, _, _, rfl, bound _ _ rfl⟩

end SmallImp

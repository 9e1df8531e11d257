/-
# How many locations a program takes

A location is given out where the declaration of a variable is elaborated, and what stands outside
the bodies of all loops is executed once at most.  So where no body of a loop declares a variable,
a run gives out no more locations than there are variables declared in the tree, however many
rounds its loops go (`run_bounded`).

A bound holds at each moment of a run, so it is stated for the calls of the run (`Bounded`): as
many of them at most give out a location, and the index of the next location is no greater at any
of them.  Bounds add up where calls follow one another, and the rounds of a loop whose body
declares nothing have the bound zero, by induction on their number.
-/
import Mathlib
import SmallImp.Phrase.Tree
import SmallImp.Proofs.Semantics.Locations
import SmallImp.Proofs.Tree.Nodes

namespace SmallImp

/-! ## Variables in a tree -/

namespace Node

/-- The number of variables that are declared in a tree. -/
def variableCount (node : Node) : Nat :=
  node.nodes.countP fun inner => inner.label == .plain (.declaration .variable)

/-- Whether no loop in a tree declares a variable in its body, which stands after its condition. -/
def LoopsBindNothing (node : Node) : Prop :=
  ∀ loop ∈ node.nodes, loop.label = .plain (.command .loop) →
    ∀ body ∈ loop.children.tail, body.variableCount = 0

instance (node : Node) : Decidable node.LoopsBindNothing :=
  inferInstanceAs (Decidable (∀ loop ∈ node.nodes, _ → ∀ body ∈ loop.children.tail, _))

theorem countP_nodesAll (p : Node → Bool) (trees : List Node) :
    (nodesAll trees).countP p = (trees.map fun tree => tree.nodes.countP p).sum := by
  induction trees with
  | nil => rfl
  | cons tree rest ih => rw [nodesAll, List.countP_append, ih, List.map_cons, List.sum_cons]

/-- The variables of a tree are those of its children, and its root where that declares one. -/
theorem variableCount_mk (label : Label) (block : Block) (children : List Node) :
    (mk label block children).variableCount =
      (children.map variableCount).sum + if label == .plain (.declaration .variable) then 1 else 0 := by
  rw [variableCount, nodes, List.countP_cons, countP_nodesAll]
  rfl

/-- A node with two children that is no variable itself. -/
theorem variableCount_pair {label : Label} {block : Block} {first second : Node}
    (other : (label == .plain (.declaration .variable)) = false) :
    (mk label block [first, second]).variableCount =
      first.variableCount + second.variableCount := by
  rw [variableCount_mk, other]
  rfl

/-- What is so of the loops of a tree is so of the loops of its children. -/
theorem LoopsBindNothing.child {node child : Node} (h : node.LoopsBindNothing)
    (mem : child ∈ node.children) : child.LoopsBindNothing :=
  ((forall_mem_nodes node).1 h).2 child mem

/-- The body of a loop declares nothing. -/
theorem LoopsBindNothing.body {block : Block} {condition body : Node}
    (h : (mk (.plain (.command .loop)) block [condition, body]).LoopsBindNothing) :
    body.variableCount = 0 :=
  ((forall_mem_nodes _).1 h).1 rfl body (List.mem_singleton_self body)

mutual

/-- What is below a node of a tree is in the tree. -/
theorem nodes_subset {inner : Node} : (node : Node) → inner ∈ node.nodes →
    inner.nodes ⊆ node.nodes
  | .mk label block children, mem => by
    obtain rfl | mem := List.mem_cons.1 mem
    · exact List.Subset.refl _
    · exact List.Subset.trans (nodesAll_subset children mem) (List.subset_cons_self ..)

theorem nodesAll_subset {inner : Node} : (trees : List Node) → inner ∈ nodesAll trees →
    inner.nodes ⊆ nodesAll trees
  | [], mem => by cases mem
  | tree :: rest, mem => by
    rw [nodesAll] at mem ⊢
    rcases List.mem_append.1 mem with mem | mem
    · exact List.Subset.trans (nodes_subset tree mem) (List.subset_append_left ..)
    · exact List.Subset.trans (nodesAll_subset rest mem) (List.subset_append_right ..)

end

/-- A tree that declares no variable has no loop that does. -/
theorem loopsBindNothing_of_variableCount {node : Node} (h : node.variableCount = 0) :
    node.LoopsBindNothing := by
  rintro ⟨label, block, children⟩ mem - body inBody
  have within : body.nodes ⊆ node.nodes := by
    have own : body ∈ body.nodes := by
      cases body
      exact List.mem_cons_self
    have below : body ∈ (mk label block children).nodes :=
      List.mem_cons_of_mem _ (mem_nodesAll.2 ⟨body, List.mem_of_mem_tail inBody, own⟩)
    exact List.Subset.trans (nodes_subset _ below) (nodes_subset node mem)
  rw [variableCount, List.countP_eq_zero] at h ⊢
  exact fun inner found => h inner (within found)

end Node

/-! ## Bounds of calls -/

/-- Calls from an index on that give out so many locations at most, with no greater index in hand
at any of them. -/
structure Bounded (next count : Nat) (calls : List Call) : Prop where
  allocations_le : calls.countP Call.allocates ≤ count
  next_le : ∀ call ∈ calls, call.next ≤ next + count

namespace Bounded

variable {next count : Nat} {calls : List Call}

theorem nil : Bounded next count [] := ⟨Nat.zero_le _, List.forall_mem_nil _⟩

theorem mono {count' : Nat} (h : Bounded next count calls) (le : count ≤ count') :
    Bounded next count' calls :=
  ⟨h.allocations_le.trans le, fun call mem => (h.next_le call mem).trans (by omega)⟩

/-- Bounds add up. -/
theorem append {between more : Nat} {later : List Call} (h : Bounded next count calls)
    (le : between ≤ next + count) (h' : Bounded between more later) :
    Bounded next (count + more) (calls ++ later) where
  allocations_le := by
    rw [List.countP_append]
    exact Nat.add_le_add h.allocations_le h'.allocations_le
  next_le := by
    refine List.forall_mem_append.2 ⟨fun call mem => ?_, fun call mem => ?_⟩
    · have := h.next_le call mem
      omega
    · have := h'.next_le call mem
      omega

/-- Calls that give out nothing add nothing. -/
theorem silent {between more : Nat} {later : List Call} (h : Bounded next 0 calls)
    (le : between ≤ next) (h' : Bounded between more later) :
    Bounded next more (calls ++ later) := by
  rw [← Nat.zero_add more]
  exact h.append le h'

/-- Where the index has gone up by the locations given out, it has stayed within the bound. -/
theorem le_of_next (h : Bounded next count calls) {after : Nat}
    (eq : after = next + calls.countP Call.allocates) : after ≤ next + count :=
  eq ▸ Nat.add_le_add_left h.allocations_le next

/-- A call that gives out nothing itself adds nothing. -/
theorem cons {call : Call} (silent : call.allocates = false) (here : call.next = next)
    (h : Bounded next count calls) : Bounded next count (call :: calls) where
  allocations_le := by
    rw [List.countP_cons, silent]
    exact h.allocations_le
  next_le := List.forall_mem_cons.2 ⟨by omega, h.next_le⟩

end Bounded

section
variable {env : Environment} {store : Store} {progress : Progress} {limit : Nat}

theorem Expr.bounded_calls {next : Nat} (e : Expr) : Bounded next 0 (e.calls env store next) := by
  induction e with
  | value | identifier | unknown => exact .cons rfl rfl .nil
  | unary _ operand _ ih => exact .cons rfl rfl ih
  | parenthesis inner _ ih => exact .cons rfl rfl ih
  | binary left _ right _ ihLeft ihRight =>
    refine .cons rfl rfl (ihLeft.silent (Nat.le_refl _) ?_)
    cases evaluate env store left with
    | error => exact .nil
    | ok => exact ihRight

/-- A declaration gives out no more locations than it declares variables. -/
theorem Declaration.bounded_calls (declaration : Declaration) :
    Bounded progress.next declaration.node.variableCount
      (declaration.calls env store progress) := by
  induction declaration generalizing env store progress with
  | nil | unknown => exact .cons rfl rfl .nil
  | «variable» name type initial block =>
    have value : Bounded progress.next 0 (initial.calls env store progress.next) :=
      initial.bounded_calls
    have one : 1 ≤ (Declaration.variable name type initial block).node.variableCount := by
      rw [node, Node.variableCount_mk]
      exact Nat.le_add_left ..
    refine .mono ⟨?_, ?_⟩ one
    · rw [calls, List.countP_cons, Expr.countP_calls, Nat.zero_add]
      split <;> omega
    · exact List.forall_mem_cons.2 ⟨Nat.le_succ _, (value.mono (Nat.zero_le 1)).next_le⟩
  | constant name type value block =>
    exact .cons rfl rfl (value.bounded_calls.mono (Nat.zero_le _))
  | group first second block ihFirst ihSecond =>
    have both : (Declaration.group first second block).node.variableCount =
        first.node.variableCount + second.node.variableCount :=
      Node.variableCount_pair rfl
    have between := ihFirst.le_of_next (elaborate_next first env store progress)
    rw [both]
    refine .cons rfl rfl (ihFirst.append between ?_)
    rcases elaborate first env store progress with ⟨error | ⟨innerEnv, innerStore⟩, between⟩
    · exact .nil
    · exact ihSecond

/-- Rounds of a loop that declares nothing give out nothing. -/
theorem bounded_roundsCalls {condition : Expr} {body : Command}
    (inner : ∀ {store progress}, Bounded progress.next 0 (body.calls limit env store progress))
    (count : Nat) :
    Bounded progress.next 0 (roundsCalls (fun store => evaluateCondition env store condition)
      (fun store progress => execute limit body env store progress)
      (fun store progress => condition.calls env store progress.next)
      (fun store progress => body.calls limit env store progress) count store progress) := by
  induction count generalizing store progress with
  | zero => exact .nil
  | succ count ih =>
    rw [roundsCalls]
    refine condition.bounded_calls.silent (Nat.le_refl _) ?_
    rcases evaluateCondition env store condition with error | _ | _
    · exact .nil
    · exact .nil
    · rcases round : execute limit body env store progress with _ | ⟨error | store', after⟩
      · exact inner.silent (Nat.le_refl _) .nil
      · exact inner.silent (Nat.le_refl _) .nil
      · exact inner.silent (inner.le_of_next (execute_next round)) ih

/-- A loop whose body gives out nothing gives out nothing. -/
theorem Command.bounded_loop {condition : Expr} {body : Command} {block : Block}
    (inner : ∀ {store progress}, Bounded progress.next 0 (body.calls limit env store progress)) :
    Bounded progress.next 0 ((loop condition body block).calls limit env store progress) :=
  .cons rfl rfl (bounded_roundsCalls inner limit)

/-- **Where no loop declares a variable, a command gives out no more locations than it declares
variables**, up to any moment of its execution. -/
theorem Command.bounded_calls {command : Command} (h : command.node.LoopsBindNothing) :
    Bounded progress.next command.node.variableCount
      (command.calls limit env store progress) := by
  induction command generalizing env store progress with
  | nil | unknown => exact .cons rfl rfl .nil
  | scope declaration body block ih =>
    have both : (Command.scope declaration body block).node.variableCount =
        declaration.node.variableCount + body.node.variableCount :=
      Node.variableCount_pair rfl
    have declared : Bounded progress.next _ (declaration.calls env store progress) :=
      declaration.bounded_calls
    have between := declared.le_of_next (elaborate_next declaration env store progress)
    rw [both]
    refine .cons rfl rfl (declared.append between ?_)
    rcases elaborate declaration env store progress with ⟨error | ⟨innerEnv, innerStore⟩, between⟩
    · exact .nil
    · exact ih (h.child (by simp [node, Node.children]))
  | sequence first second block ihFirst ihSecond =>
    have both : (Command.sequence first second block).node.variableCount =
        first.node.variableCount + second.node.variableCount :=
      Node.variableCount_pair rfl
    have before : Bounded progress.next _ (first.calls limit env store progress) :=
      ihFirst (h.child (by simp [node, Node.children]))
    rw [both]
    rcases firstly : execute limit first env store progress with _ | ⟨error | store', after⟩
    all_goals rw [calls, firstly]
    · exact .cons rfl rfl (before.append (Nat.le_add_right ..) .nil)
    · exact .cons rfl rfl (before.append (Nat.le_add_right ..) .nil)
    · refine .cons rfl rfl (before.append (before.le_of_next (execute_next firstly)) ?_)
      exact ihSecond (h.child (by simp [node, Node.children]))
  | assign target value block =>
    refine .cons rfl rfl (.mono ?_ (Nat.zero_le _))
    rcases env.get? target.name with _ | cell | held
    · exact .nil
    · exact value.bounded_calls
    · exact .nil
  | branch condition body block ih =>
    have most : body.node.variableCount ≤
        (Command.branch condition body block).node.variableCount :=
      (Nat.le_add_left ..).trans (Node.variableCount_pair rfl).ge
    refine .cons rfl rfl (condition.bounded_calls.silent (Nat.le_refl _) (.mono ?_ most))
    rcases evaluateCondition env store condition with error | _ | _
    · exact .nil
    · exact .nil
    · exact ih (h.child (by simp [node, Node.children]))
  | branchElse condition body otherwise block ihBody ihOtherwise =>
    have total : (Command.branchElse condition body otherwise block).node.variableCount =
        condition.node.variableCount + (body.node.variableCount + otherwise.node.variableCount) := by
      rw [node, Node.variableCount_mk]
      rfl
    refine .cons rfl rfl (condition.bounded_calls.silent (Nat.le_refl _) ?_)
    rcases evaluateCondition env store condition with error | _ | _
    · exact .nil
    · exact (ihOtherwise (h.child (by simp [node, Node.children]))).mono (by omega)
    · exact (ihBody (h.child (by simp [node, Node.children]))).mono (by omega)
  | loop condition body block ih =>
    have inner {store : Store} {progress : Progress} :
        Bounded progress.next 0 (body.calls limit env store progress) := by
      rw [← h.body]
      exact ih (h.child (by simp [node, Node.children]))
    exact (bounded_loop inner).mono (Nat.zero_le _)
  | print value block => exact .cons rfl rfl (value.bounded_calls.mono (Nat.zero_le _))

/-- A command that declares no variable gives out no location. -/
theorem Command.bounded_zero {command : Command} (h : command.node.variableCount = 0) :
    Bounded progress.next 0 (command.calls limit env store progress) := by
  rw [← h]
  exact bounded_calls (Node.loopsBindNothing_of_variableCount h)

/-! ## `for` loops -/

/-- A `for` loop gives out the location of its initialiser, and no other where its body and its
step declare nothing. -/
theorem Phrase.countP_expandedFor {initial : Declaration} {condition : Expr}
    {body : SmallImp.Command} {step : Option SmallImp.Command} {block : Block} {value : Value}
    (isVariable : initial.constant = false) (bodySilent : body.node.variableCount = 0)
    (stepSilent : ∀ after ∈ step, after.node.variableCount = 0)
    (evaluated : evaluate env store initial.value = .ok value) :
    ((expandedFor (some initial) condition body step block).calls limit env store
      progress).countP Call.allocates = 1 := by
  have afterSilent : (step.getD (.nil body.block.finish)).node.variableCount = 0 := by
    cases step with
    | none => rfl
    | some after => exact stepSilent after rfl
  have silent (place : Block) {env : Environment} {store : Store} {progress : Progress} :
      Bounded progress.next 0 ((SmallImp.Command.sequence body
        (step.getD (.nil body.block.finish)) place).calls limit env store progress) := by
    refine SmallImp.Command.bounded_zero ?_
    rw [SmallImp.Command.node, Node.variableCount_pair rfl, bodySilent, afterSilent]
  have once : (initial.tree.calls env store progress).countP Call.allocates = 1 := by
    have next := elaborate_next initial.tree env store progress
    simp only [Declaration.tree, isVariable, Bool.false_eq_true, if_false, elaborate, evaluated,
      Progress.note, Progress.allocate] at next ⊢
    omega
  obtain ⟨inner, innerStore, between, elaborated⟩ : ∃ inner innerStore between,
      elaborate initial.tree env store progress = ⟨.ok (inner, innerStore), between⟩ := by
    simp [Declaration.tree, isVariable, elaborate, evaluated]
  rw [expandedFor, SmallImp.Command.calls, countP_execute, List.countP_append, once, elaborated]
  exact congrArg (1 + ·) (Nat.le_zero.1 (SmallImp.Command.bounded_loop (silent _)).allocations_le)

end

/-- **Where no loop declares a variable in its body, a run gives out no more locations than
variables are declared in the program**, however many rounds its loops go: so it is where the run
ends, well or not, and after any number of its calls where it goes on.  A `for` loop that declares
a variable first, with a body and a step that declare none, takes exactly one location once the
first value has been computed. -/
theorem run_bounded (program : Command) (h : program.node.LoopsBindNothing) :
    (∀ limit attempt, run limit program = some attempt →
      attempt.progress.next ≤ program.node.variableCount) ∧
    (∀ limit count,
      let calls := (program.calls limit .empty .empty (.fresh 0)).take count
      calls.countP Call.allocates ≤ program.node.variableCount ∧
        ∀ call ∈ calls, call.next ≤ program.node.variableCount) ∧
    ∀ (initial : Phrase.Declaration) (condition : Expr) (body : Command) (step : Option Command)
      (block : Block) (env : Environment) (store : Store) (progress : Progress) (value : Value),
      initial.constant = false → body.node.variableCount = 0 →
      (∀ after ∈ step, after.node.variableCount = 0) →
      evaluate env store initial.value = .ok value → ∀ limit,
        let loop := Phrase.expandedFor (some initial) condition body step block
        (loop.calls limit env store progress).countP Call.allocates = 1 ∧
          ∀ attempt, execute limit loop env store progress = some attempt →
            attempt.progress.next = progress.next + 1 := by
  have bounded (limit : Nat) : Bounded (Progress.fresh 0).next program.node.variableCount
      (program.calls limit .empty .empty (.fresh 0)) := Command.bounded_calls h
  refine ⟨fun limit attempt ended => ?_, fun limit count => ?_, ?_⟩
  · have most := (bounded limit).le_of_next (execute_next ended)
    rwa [Progress.fresh, Nat.zero_add] at most
  · have part := List.take_sublist count (program.calls limit .empty .empty (.fresh 0))
    refine ⟨part.countP_le.trans (bounded limit).allocations_le, fun call mem => ?_⟩
    have most := (bounded limit).next_le call (part.subset mem)
    rwa [Progress.fresh, Nat.zero_add] at most
  · intro initial condition body step block env store progress value isVariable bodySilent
      stepSilent evaluated limit loop
    have once : (loop.calls limit env store progress).countP Call.allocates = 1 :=
      Phrase.countP_expandedFor isVariable bodySilent stepSilent evaluated
    refine ⟨once, fun attempt ended => ?_⟩
    rw [execute_next ended, once]

/-- `for (let b : bool = true, b, b = false) print b` declares one variable: a run of it takes one
location. -/
theorem run_bounded_forLoop :
    let literal (lexeme : String) : Expr := .value ⟨.boolean, lexeme, .origin⟩ .origin
    let b : Identifier := ⟨"b", .origin⟩
    let initial : Phrase.Declaration :=
      ⟨.origin, false, true, b, ⟨.boolean, .origin⟩, literal "true"⟩
    let body : Command := .print (.identifier b .origin) .origin
    let step : Option Command := some (.assign b (literal "false") .origin)
    let loop := Phrase.expandedFor (some initial) (.identifier b .origin) body step .origin
    loop.node.LoopsBindNothing ∧ loop.node.variableCount = 1 ∧
      (∀ limit attempt, run limit loop = some attempt → attempt.progress.next ≤ 1) ∧
      (loop.calls 2 .empty .empty (.fresh 0)).countP Call.allocates = 1 ∧
      ∃ attempt, run 2 loop = some attempt ∧ attempt.progress.next = 1 := by
  intro literal b initial body step loop
  have bindNothing : loop.node.LoopsBindNothing := by decide
  have one : loop.node.variableCount = 1 := by decide
  obtain ⟨most, -, forLoop⟩ := run_bounded loop bindNothing
  obtain ⟨once, ends⟩ := forLoop initial (.identifier b .origin) body step .origin .empty .empty
    (.fresh 0) (.boolean true) rfl (by decide) (by decide) rfl 2
  obtain ⟨attempt, ended⟩ : ∃ attempt, run 2 loop = some attempt := ⟨_, rfl⟩
  exact ⟨bindNothing, one, one ▸ most, once, attempt, ended, ends attempt ended⟩

end SmallImp

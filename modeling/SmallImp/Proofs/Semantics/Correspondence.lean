/-
# Locations are opaque

Two runs of one command, from different environments and stores, go on side by side as long as
their names mean the same: each name that is free in the command is bound in neither environment,
or to one value in both, or to locations that stand for each other and hold one value.  Which
locations stand for each other is up to a `Pairing`, which pairs each location with at most one
other; what the locations are, what else is bound and what else is stored makes no difference.

The relation of the two states is kept by every step (`Advances`): new locations are paired in
the order in which they are given out, and paired cells that held one value still do.  So for
every limit the two runs both stay without an outcome, or both fail with one error, or both
succeed (`execute_matches`, by induction on the command, and for a loop on the limit); and a run
without an outcome for any limit goes on for ever (`execute_alike`).
-/
import SmallImp.Proofs.Semantics.Execution
import SmallImp.Proofs.Semantics.Names

namespace SmallImp

/-! ## Pairings -/

/-- A store, and the index of the next location. -/
structure Memory where
  store : Store
  next : Nat

/-- Which locations of one store stand for which of another. -/
abbrev Pairing := Location → Location → Prop

/-- A pairing with a number of new locations, those next in two memories, paired one by one. -/
def Pairing.extended (b : Pairing) (left right : Memory) (count : Nat) : Pairing := fun l l' =>
  b l l' ∨ ∃ i < count, l = ⟨(left.next + i : Nat)⟩ ∧ l' = ⟨(right.next + i : Nat)⟩

/-- A pairing of the locations of two stores, all of them given out before, with at most one
partner for each. -/
structure Paired (b : Pairing) (left right : Memory) : Prop where
  injective : ∀ {l l' m m'}, b l l' → b m m' → (l = m ↔ l' = m')
  bound : ∀ {l l'}, b l l' → l ∈ left.store.keys ∧ l' ∈ right.store.keys
  left_below : ∀ {l}, l ∈ left.store.keys → l.index < left.next
  right_below : ∀ {l}, l ∈ right.store.keys → l.index < right.next

/-- What a name is bound to in two environments, if it means the same in both. -/
inductive Alike (b : Pairing) (left right : Store) : Option Binding → Option Binding → Prop
  | unbound : Alike b left right none none
  | constant (held : Value) : Alike b left right (some (.value held)) (some (.value held))
  | cell {l l' : Location} {held : Value} : b l l' → left.get? l = some held →
      right.get? l' = some held → Alike b left right (some (.location l)) (some (.location l'))

/-- Names that mean the same in two environments and stores. -/
def AlikeOn (names : List String) (b : Pairing) (env env' : Environment) (left right : Store) :
    Prop :=
  ∀ name ∈ names, Alike b left right (env.get? name) (env'.get? name)

theorem alikeOn_append {first second : List String} {b : Pairing} {env env' : Environment}
    {left right : Store} :
    AlikeOn (first ++ second) b env env' left right ↔
      AlikeOn first b env env' left right ∧ AlikeOn second b env env' left right :=
  List.forall_mem_append

/-! ## Side by side -/

/-- What becomes of two memories in two runs side by side: the same number of locations is given
out in both, and paired cells hold one value if they did before or are new.  Paired cells that
did not are left alone. -/
structure Advances (b : Pairing) (count : Nat) (left right left' right' : Memory) : Prop where
  left_next : left'.next = left.next + count
  right_next : right'.next = right.next + count
  paired : Paired (b.extended left right count) left' right'
  agree : ∀ {l l'}, b.extended left right count l l' →
    left.store.get? l = right.store.get? l' → left'.store.get? l = right'.store.get? l'
  apart : ∀ {l l'}, b l l' → left.store.get? l ≠ right.store.get? l' →
    left'.store.get? l = left.store.get? l ∧ right'.store.get? l' = right.store.get? l'

section
variable {b : Pairing} {count : Nat} {left right left' right' : Memory}

theorem Pairing.extended_of {l l' : Location} (h : b l l') : b.extended left right count l l' :=
  .inl h

@[simp]
theorem Pairing.extended_zero : b.extended left right 0 = b := by
  funext l l'
  simp [Pairing.extended]

/-- New locations may be paired in two steps. -/
theorem Pairing.extended_extended {mid mid' : Memory} (more : Nat)
    (next : mid.next = left.next + count) (next' : mid'.next = right.next + count) :
    (b.extended left right count).extended mid mid' more =
      b.extended left right (count + more) := by
  funext l l'
  refine propext ⟨?_, ?_⟩
  · rintro ((h | ⟨i, less, rfl, rfl⟩) | ⟨i, less, rfl, rfl⟩)
    · exact .inl h
    · exact .inr ⟨i, by omega, rfl, rfl⟩
    · exact .inr ⟨count + i, by omega, by simp only [next, Nat.add_assoc],
        by simp only [next', Nat.add_assoc]⟩
  · rintro (h | ⟨i, less, rfl, rfl⟩)
    · exact .inl (.inl h)
    · by_cases old : i < count
      · exact .inl (.inr ⟨i, old, rfl, rfl⟩)
      · exact .inr ⟨i - count, by omega, congrArg Location.mk (by omega),
          congrArg Location.mk (by omega)⟩

namespace Paired

/-- A location that has not been given out yet has no cell. -/
theorem left_new (h : Paired b left right) (i : Nat) :
    left.store.get? ⟨(left.next + i : Nat)⟩ = none := by
  refine (Bindings.get?_eq_none_iff _ _).2 fun mem => ?_
  have less := h.left_below mem
  simp only at less
  omega

theorem right_new (h : Paired b left right) (i : Nat) :
    right.store.get? ⟨(right.next + i : Nat)⟩ = none := by
  refine (Bindings.get?_eq_none_iff _ _).2 fun mem => ?_
  have less := h.right_below mem
  simp only at less
  omega

/-- A paired cell holds something. -/
theorem exists_held (h : Paired b left right) {l l' : Location} (pair : b l l') :
    ∃ held, left.store.get? l = some held := by
  refine Option.ne_none_iff_exists'.1 fun missing => ?_
  exact (Bindings.get?_eq_none_iff _ _).1 missing (h.bound pair).1

end Paired

namespace Advances

theorem refl (h : Paired b left right) : Advances b 0 left right left right where
  left_next := rfl
  right_next := rfl
  paired := by rwa [Pairing.extended_zero]
  agree _ same := same
  apart _ _ := ⟨rfl, rfl⟩

theorem trans {mid mid' : Memory} {more : Nat} (h : Advances b count left right mid mid')
    (h' : Advances (b.extended left right count) more mid mid' left' right') :
    Advances b (count + more) left right left' right' where
  left_next := by rw [h'.left_next, h.left_next, Nat.add_assoc]
  right_next := by rw [h'.right_next, h.right_next, Nat.add_assoc]
  paired := by
    rw [← Pairing.extended_extended more h.left_next h.right_next]
    exact h'.paired
  agree := by
    intro l l' pair same
    rw [← Pairing.extended_extended more h.left_next h.right_next] at pair
    refine h'.agree pair ?_
    obtain pair | ⟨i, -, rfl, rfl⟩ := pair
    · exact h.agree pair same
    · rw [h.paired.left_new, h.paired.right_new]
  apart := by
    intro l l' pair different
    obtain ⟨kept, kept'⟩ := h.apart pair different
    have still : mid.store.get? l ≠ mid'.store.get? l' := by rwa [kept, kept']
    obtain ⟨kept₂, kept₂'⟩ := h'.apart (Pairing.extended_of pair) still
    exact ⟨kept₂.trans kept, kept₂'.trans kept'⟩

/-- What means the same goes on meaning the same. -/
theorem alike (h : Advances b count left right left' right') {binding binding' : Option Binding}
    (alike : Alike b left.store right.store binding binding') :
    Alike (b.extended left right count) left'.store right'.store binding binding' := by
  cases alike with
  | unbound => exact .unbound
  | constant held => exact .constant held
  | @cell l l' held pair stored stored' =>
    obtain ⟨held, now⟩ := h.paired.exists_held (Pairing.extended_of pair)
    have same := h.agree (Pairing.extended_of pair) (stored.trans stored'.symm)
    exact .cell (Pairing.extended_of pair) now (same ▸ now)

theorem alikeOn (h : Advances b count left right left' right') {names : List String}
    {env env' : Environment} (alike : AlikeOn names b env env' left.store right.store) :
    AlikeOn names (b.extended left right count) env env' left'.store right'.store :=
  fun name mem => h.alike (alike name mem)

end Advances

end

section
variable {b : Pairing} {store store' : Store} {next next' : Nat}

/-- The locations with cells have been given out, the one given out next among them. -/
theorem below_extend (below : ∀ {l}, l ∈ store.keys → l.index < next) (value : Value)
    {l : Location} (mem : l ∈ (store.extend ⟨next⟩ value).keys) : l.index < (next + 1 : Nat) := by
  have new : (⟨next⟩ : Location) ∉ store.keys := fun mem => Int.lt_irrefl _ (below mem)
  rw [Bindings.keys_extend, if_neg new, List.mem_append, List.mem_singleton] at mem
  obtain mem | rfl := mem
  · have less := below mem
    omega
  · simp only
    omega

/-- A new variable in both runs, with one value. -/
theorem Paired.allocate (h : Paired b ⟨store, next⟩ ⟨store', next'⟩) (value : Value) :
    Advances b 1 ⟨store, next⟩ ⟨store', next'⟩ ⟨store.extend ⟨next⟩ value, next + 1⟩
      ⟨store'.extend ⟨next'⟩ value, next' + 1⟩ := by
  have new : (⟨next⟩ : Location) ∉ store.keys := fun mem => Int.lt_irrefl _ (h.left_below mem)
  have new' : (⟨next'⟩ : Location) ∉ store'.keys := fun mem => Int.lt_irrefl _ (h.right_below mem)
  have old {l l' : Location} (pair : b l l') : ⟨next⟩ ≠ l ∧ ⟨next'⟩ ≠ l' := by
    obtain ⟨mem, mem'⟩ := h.bound pair
    exact ⟨fun same => new (same ▸ mem), fun same => new' (same ▸ mem')⟩
  -- a pair is one from before, or that of the two new locations
  have cases_pair {l l' : Location} (pair : b.extended ⟨store, next⟩ ⟨store', next'⟩ 1 l l') :
      b l l' ∨ ⟨next⟩ = l ∧ ⟨next'⟩ = l' := by
    refine pair.imp_right ?_
    rintro ⟨i, less, rfl, rfl⟩
    obtain rfl : i = 0 := by omega
    exact ⟨rfl, rfl⟩
  refine ⟨rfl, rfl, ⟨?_, ?_, ?_, ?_⟩, ?_, ?_⟩
  · intro l l' m m' pair pair'
    obtain pair | ⟨rfl, rfl⟩ := cases_pair pair <;> obtain pair' | ⟨rfl, rfl⟩ := cases_pair pair'
    · exact h.injective pair pair'
    · simp [Ne.symm (old pair).1, Ne.symm (old pair).2]
    · simp [(old pair').1, (old pair').2]
    · simp
  · intro l l' pair
    simp only [Bindings.keys_extend, if_neg new, if_neg new']
    obtain pair | ⟨rfl, rfl⟩ := cases_pair pair
    · obtain ⟨mem, mem'⟩ := h.bound pair
      exact ⟨List.mem_append_left _ mem, List.mem_append_left _ mem'⟩
    · simp
  · exact below_extend h.left_below value
  · exact below_extend h.right_below value
  · intro l l' pair same
    simp only [Bindings.get?_extend] at same ⊢
    obtain pair | ⟨rfl, rfl⟩ := cases_pair pair
    · rwa [if_neg (old pair).1, if_neg (old pair).2]
    · simp
  · intro l l' pair _
    simp only [Bindings.get?_extend]
    rw [if_neg (old pair).1, if_neg (old pair).2]
    exact ⟨rfl, rfl⟩

/-- An assignment of one value to paired cells that hold one value. -/
theorem Paired.assign (h : Paired b ⟨store, next⟩ ⟨store', next'⟩) {cell cell' : Location}
    (pair : b cell cell') (same : store.get? cell = store'.get? cell') (value : Value) :
    Advances b 0 ⟨store, next⟩ ⟨store', next'⟩ ⟨store.extend cell value, next⟩
      ⟨store'.extend cell' value, next'⟩ := by
  obtain ⟨mem, mem'⟩ := h.bound pair
  have keys : (store.extend cell value).keys = store.keys := by
    rw [Bindings.keys_extend, if_pos mem]
  have keys' : (store'.extend cell' value).keys = store'.keys := by
    rw [Bindings.keys_extend, if_pos mem']
  refine ⟨rfl, rfl, ⟨?_, ?_, ?_, ?_⟩, ?_, ?_⟩
  · rw [Pairing.extended_zero]
    exact h.injective
  · rw [Pairing.extended_zero]
    intro l l' other
    simpa only [keys, keys'] using h.bound other
  · intro l mem
    exact h.left_below (keys ▸ mem)
  · intro l mem
    exact h.right_below (keys' ▸ mem)
  · rw [Pairing.extended_zero]
    intro l l' other agree
    simp only [Bindings.get?_extend]
    by_cases here : cell = l
    · rw [if_pos here, if_pos ((h.injective pair other).1 here)]
    · rwa [if_neg here, if_neg (mt (h.injective pair other).2 here)]
  · intro l l' other different
    -- the cells assigned to hold one value, so these are others
    have here : cell ≠ l := by
      rintro rfl
      obtain rfl := (h.injective pair other).1 rfl
      exact different same
    simp only [Bindings.get?_extend]
    rw [if_neg here, if_neg (mt (h.injective pair other).2 here)]
    exact ⟨rfl, rfl⟩

end

/-! ## Expressions -/

section
variable {b : Pairing} {env env' : Environment} {left right : Store}

/-- **An expression has one value where its names mean the same.** -/
theorem evaluate_alike {e : Expr} (alike : AlikeOn e.names b env env' left right) :
    evaluate env left e = evaluate env' right e := by
  induction e with
  | value | unknown => rfl
  | identifier name _ =>
    have same := alike name.name (List.mem_singleton_self _)
    rw [evaluate, evaluate, resolve, resolve]
    generalize env.get? name.name = binding at same ⊢
    generalize env'.get? name.name = binding' at same ⊢
    cases same with
    | unbound => rfl
    | constant => rfl
    | cell _ stored stored' => simp [Except.bind, Binding.read, stored, stored']
  | unary operator operand _ ih => rw [evaluate, evaluate, ih alike]
  | binary first operator second _ ihFirst ihSecond =>
    obtain ⟨firstly, secondly⟩ := alikeOn_append.1 alike
    rw [evaluate, evaluate, ihFirst firstly, ihSecond secondly]
  | parenthesis inner _ ih => exact ih alike

theorem evaluateCondition_alike {condition : Expr}
    (alike : AlikeOn condition.names b env env' left right) :
    evaluateCondition env left condition = evaluateCondition env' right condition := by
  rw [evaluateCondition, evaluateCondition, evaluate_alike alike]

end

/-! ## Declarations -/

/-- Two attempts at a declaration side by side: names that it binds, or that meant the same
before, mean the same after it. -/
inductive DeclaredAlike (declaration : Declaration) (b : Pairing) (env env' : Environment)
    (left right : Memory) :
    Attempt (Environment × Store) → Attempt (Environment × Store) → Prop
  | error {error progress progress'} : progress.output = progress'.output →
      DeclaredAlike declaration b env env' left right ⟨.error error, progress⟩
        ⟨.error error, progress'⟩
  | ok {innerEnv innerEnv' store store' progress progress' count} :
      progress.output = progress'.output →
      Advances b count left right ⟨store, progress.next⟩ ⟨store', progress'.next⟩ →
      (∀ name, (name ∉ declaration.bound →
          Alike b left.store right.store (env.get? name) (env'.get? name)) →
        Alike (b.extended left right count) store store' (innerEnv.get? name)
          (innerEnv'.get? name)) →
      DeclaredAlike declaration b env env' left right ⟨.ok (innerEnv, store), progress⟩
        ⟨.ok (innerEnv', store'), progress'⟩

/-- **A declaration is elaborated alike where its free names mean the same.** -/
theorem elaborate_alike (declaration : Declaration) {b : Pairing} {env env' : Environment}
    {store store' : Store} {progress progress' : Progress}
    (paired : Paired b ⟨store, progress.next⟩ ⟨store', progress'.next⟩)
    (alike : AlikeOn declaration.free b env env' store store')
    (printed : progress.output = progress'.output) :
    DeclaredAlike declaration b env env' ⟨store, progress.next⟩ ⟨store', progress'.next⟩
      (elaborate declaration env store progress) (elaborate declaration env' store' progress') := by
  induction declaration generalizing b env env' store store' progress progress' with
  | nil =>
    refine .ok printed (.refl paired) fun name same => ?_
    rw [Pairing.extended_zero]
    exact same List.not_mem_nil
  | unknown => exact .error printed
  | «variable» name _ initial _ =>
    rw [elaborate, elaborate, evaluate_alike alike]
    cases evaluate env' store' initial with
    | error => exact .error printed
    | ok value =>
      have advances := paired.allocate value
      refine .ok printed advances fun other same => ?_
      simp only [Bindings.get?_extend]
      by_cases here : name.name = other
      · rw [if_pos here, if_pos here]
        refine .cell (.inr ⟨0, Nat.one_pos, rfl, rfl⟩) (?_ : _ = some value) ?_ <;>
          simp [Bindings.get?_extend]
      · rw [if_neg here, if_neg here]
        exact advances.alike (same (by simpa [Declaration.bound] using Ne.symm here))
  | constant name _ value _ =>
    rw [elaborate, elaborate, evaluate_alike alike]
    cases evaluate env' store' value with
    | error => exact .error printed
    | ok value =>
      refine .ok printed (.refl paired) fun other same => ?_
      rw [Pairing.extended_zero]
      simp only [Bindings.get?_extend]
      by_cases here : name.name = other
      · rw [if_pos here, if_pos here]
        exact .constant value
      · rw [if_neg here, if_neg here]
        exact same (by simpa [Declaration.bound] using Ne.symm here)
  | group first second _ ihFirst ihSecond =>
    obtain ⟨firstly, secondly⟩ := alikeOn_append.1 alike
    rw [elaborate, elaborate]
    have both := ihFirst paired firstly printed
    generalize elaborate first env store progress = attempt at both ⊢
    generalize elaborate first env' store' progress' = attempt' at both ⊢
    cases both with
    | error printed => exact .error printed
    | ok printed advances names =>
      have inner := ihSecond advances.paired (fun name mem => names name fun notFirst =>
        secondly name (mem_outside.2 ⟨mem, notFirst⟩)) printed
      dsimp only
      generalize elaborate second _ _ _ = attempt at inner ⊢
      generalize elaborate second _ _ _ = attempt' at inner ⊢
      cases inner with
      | error printed => exact .error printed
      | ok printed advances' names' =>
        refine .ok printed (advances.trans advances') fun name same => ?_
        rw [← Pairing.extended_extended _ advances.left_next advances.right_next]
        refine names' name fun notSecond => names name fun notFirst => same ?_
        simp [Declaration.bound, notFirst, notSecond]

/-! ## Commands -/

/-- Two attempts at a command side by side. -/
inductive RunAlike (b : Pairing) (left right : Memory) : Attempt Store → Attempt Store → Prop
  | error {error progress progress'} : progress.output = progress'.output →
      RunAlike b left right ⟨.error error, progress⟩ ⟨.error error, progress'⟩
  | ok {store store' progress progress' count} : progress.output = progress'.output →
      Advances b count left right ⟨store, progress.next⟩ ⟨store', progress'.next⟩ →
      RunAlike b left right ⟨.ok store, progress⟩ ⟨.ok store', progress'⟩

/-- What is alike from further on is alike from before. -/
theorem Advances.runAlike {b : Pairing} {count : Nat} {left right mid mid' : Memory}
    {attempt attempt' : Option (Attempt Store)} (advances : Advances b count left right mid mid')
    (h : Option.Rel (RunAlike (b.extended left right count) mid mid') attempt attempt') :
    Option.Rel (RunAlike b left right) attempt attempt' := by
  cases h with
  | none => exact .none
  | some alike =>
    cases alike with
    | error printed => exact .some (.error printed)
    | ok printed advances' => exact .some (.ok printed (advances.trans advances'))

section
variable {limit : Nat} {env env' : Environment}

/-- The rounds of a loop go on side by side if its body does. -/
theorem rounds_alike {condition : Expr} {body : Command}
    (bodies : ∀ {b : Pairing} {store store' : Store} {progress progress' : Progress},
      Paired b ⟨store, progress.next⟩ ⟨store', progress'.next⟩ →
      AlikeOn body.free b env env' store store' → progress.output = progress'.output →
      Option.Rel (RunAlike b ⟨store, progress.next⟩ ⟨store', progress'.next⟩)
        (execute limit body env store progress) (execute limit body env' store' progress'))
    (count : Nat) {b : Pairing} {store store' : Store} {progress progress' : Progress}
    (paired : Paired b ⟨store, progress.next⟩ ⟨store', progress'.next⟩)
    (alike : AlikeOn (condition.names ++ body.free) b env env' store store')
    (printed : progress.output = progress'.output) :
    Option.Rel (RunAlike b ⟨store, progress.next⟩ ⟨store', progress'.next⟩)
      (rounds (fun store => evaluateCondition env store condition)
        (fun store progress => execute limit body env store progress) count store progress)
      (rounds (fun store => evaluateCondition env' store condition)
        (fun store progress => execute limit body env' store progress) count store' progress') := by
  induction count generalizing b store store' progress progress' with
  | zero => exact .none
  | succ count ih =>
    obtain ⟨tested, inner⟩ := alikeOn_append.1 alike
    rw [rounds, rounds, evaluateCondition_alike tested]
    rcases evaluateCondition env' store' condition with error | _ | _
    · exact .some (.error printed)
    · exact .some (.ok printed (.refl paired))
    · have round := bodies paired inner printed
      dsimp only
      generalize execute limit body env store progress = attempt at round ⊢
      generalize execute limit body env' store' progress' = attempt' at round ⊢
      cases round with
      | none => exact .none
      | some round =>
        cases round with
        | error printed => exact .some (.error printed)
        | ok printed advances =>
          exact advances.runAlike (ih advances.paired (advances.alikeOn alike) printed)

/-- **Within every limit a command runs alike where its free names mean the same.** -/
theorem execute_alike_within (limit : Nat) (command : Command) {b : Pairing} {store store' : Store}
    {progress progress' : Progress}
    (paired : Paired b ⟨store, progress.next⟩ ⟨store', progress'.next⟩)
    (alike : AlikeOn command.free b env env' store store')
    (printed : progress.output = progress'.output) :
    Option.Rel (RunAlike b ⟨store, progress.next⟩ ⟨store', progress'.next⟩)
      (execute limit command env store progress) (execute limit command env' store' progress') := by
  induction command generalizing b env env' store store' progress progress' with
  | nil => exact .some (.ok printed (.refl paired))
  | unknown => exact .some (.error printed)
  | scope declaration body _ ih =>
    obtain ⟨declared, inner⟩ := alikeOn_append.1 alike
    have both := elaborate_alike declaration paired declared printed
    rw [execute, execute]
    generalize elaborate declaration env store progress = attempt at both ⊢
    generalize elaborate declaration env' store' progress' = attempt' at both ⊢
    cases both with
    | error printed => exact .some (.error printed)
    | ok printed advances names =>
      refine advances.runAlike (ih advances.paired (fun name mem => ?_) printed)
      exact names name fun notBound => inner name (mem_outside.2 ⟨mem, notBound⟩)
  | sequence first second _ ihFirst ihSecond =>
    obtain ⟨firstly, secondly⟩ := alikeOn_append.1 alike
    have both := ihFirst paired firstly printed
    rw [execute, execute]
    generalize execute limit first env store progress = attempt at both ⊢
    generalize execute limit first env' store' progress' = attempt' at both ⊢
    cases both with
    | none => exact .none
    | some both =>
      cases both with
      | error printed => exact .some (.error printed)
      | ok printed advances =>
        exact advances.runAlike (ihSecond advances.paired (advances.alikeOn secondly) printed)
  | assign target value _ =>
    obtain ⟨named, valued⟩ := List.forall_mem_cons.1 alike
    rw [execute_assign, execute_assign, evaluate_alike valued]
    generalize env.get? target.name = binding at named ⊢
    generalize env'.get? target.name = binding' at named ⊢
    cases named with
    | unbound => exact .some (.error printed)
    | constant => exact .some (.error printed)
    | cell pair stored stored' =>
      cases evaluate env' store' value with
      | error => exact .some (.error printed)
      | ok held =>
        exact .some (.ok printed (paired.assign pair (stored.trans stored'.symm) held))
  | branch condition body _ ih =>
    obtain ⟨tested, inner⟩ := alikeOn_append.1 alike
    rw [execute, execute, evaluateCondition_alike tested]
    rcases evaluateCondition env' store' condition with error | _ | _
    · exact .some (.error printed)
    · exact .some (.ok printed (.refl paired))
    · exact ih paired inner printed
  | branchElse condition body otherwise _ ihBody ihOtherwise =>
    obtain ⟨tested, inner⟩ := alikeOn_append.1 alike
    obtain ⟨first, second⟩ := alikeOn_append.1 inner
    rw [execute, execute, evaluateCondition_alike tested]
    rcases evaluateCondition env' store' condition with error | _ | _
    · exact .some (.error printed)
    · exact ihOtherwise paired second printed
    · exact ihBody paired first printed
  | loop condition body _ ih => exact rounds_alike ih limit paired alike printed
  | print value _ =>
    rw [execute_print, execute_print, evaluate_alike alike]
    cases evaluate env' store' value with
    | error => exact .some (.error printed)
    | ok held => exact .some (.ok (congrArg (· ++ _) printed) (.refl paired))

end

/-- **Locations are opaque, and only free names matter.**  Take a command, two environments and
stores in which all locations have been given out, and a pairing of locations of the two stores
with at most one partner for each, so that each name that is free in the command means the same
in both: it is bound in neither, or to one value, or to paired locations that hold one value.
Then either both runs go on for ever, or both fail with the same text printed and the same error,
or both succeed with the same text printed and the same number of new locations.  In the end
paired cells, the new ones in their order among them, hold one value; if cells were paired that
did not at the start, no free name is bound to them, and they hold what they held. -/
theorem execute_alike (command : Command) {b : Pairing} {env env' : Environment}
    {store store' : Store} {next next' : Nat}
    (injective : ∀ l l' m m', b l l' → b m m' → (l = m ↔ l' = m'))
    (bound : ∀ l l', b l l' → l ∈ store.keys ∧ l' ∈ store'.keys)
    (below : ∀ l ∈ store.keys, l.index < next) (below' : ∀ l ∈ store'.keys, l.index < next')
    (names : ∀ name ∈ command.free,
      Alike b store store' (env.get? name) (env'.get? name)) :
    ((∀ limit, execute limit command env store (.fresh next) = none) ∧
      ∀ limit, execute limit command env' store' (.fresh next') = none) ∨
    (∃ error after after', after.output = after'.output ∧
      Ends command env store (.fresh next) ⟨.error error, after⟩ ∧
      Ends command env' store' (.fresh next') ⟨.error error, after'⟩) ∨
    ∃ final final' after after' count, after.output = after'.output ∧
      Ends command env store (.fresh next) ⟨.ok final, after⟩ ∧
      Ends command env' store' (.fresh next') ⟨.ok final', after'⟩ ∧
      after.next = next + count ∧ after'.next = next' + count ∧
      (∀ l l', b.extended ⟨store, next⟩ ⟨store', next'⟩ count l l' →
        store.get? l = store'.get? l' →
        ∃ held, final.get? l = some held ∧ final'.get? l' = some held) ∧
      ∀ l l', b l l' → store.get? l ≠ store'.get? l' →
        final.get? l = store.get? l ∧ final'.get? l' = store'.get? l' := by
  have paired : Paired b ⟨store, (Progress.fresh next).next⟩
      ⟨store', (Progress.fresh next').next⟩ :=
    ⟨injective _ _ _ _, bound _ _, below _, below' _⟩
  have within (limit : Nat) := execute_alike_within limit command paired names rfl
  by_cases never : ∀ limit, execute limit command env store (.fresh next) = none
  · refine .inl ⟨never, fun limit => ?_⟩
    have both := within limit
    rw [never limit] at both
    cases both' : execute limit command env' store' (.fresh next') with
    | none => rfl
    | some attempt => rw [both'] at both; cases both
  · refine .inr ?_
    obtain ⟨limit, some⟩ := Classical.not_forall.1 never
    have both := within limit
    generalize ended : execute limit command env store (.fresh next) = attempt at both some
    generalize ended' : execute limit command env' store' (.fresh next') = attempt' at both
    cases both with
    | none => exact absurd rfl some
    | some both =>
      have ends := ends_iff.2 ⟨limit, ended⟩
      have ends' := ends_iff.2 ⟨limit, ended'⟩
      cases both with
      | error printed => exact .inl ⟨_, _, _, printed, ends, ends'⟩
      | ok printed advances =>
        refine .inr ⟨_, _, _, _, _, printed, ends, ends', advances.left_next,
          advances.right_next, fun l l' pair same => ?_, fun _ _ => advances.apart⟩
        obtain ⟨held, now⟩ := advances.paired.exists_held pair
        exact ⟨held, now, (advances.agree pair same).symm.trans now⟩

/-- `let t : bool = x; x = false; print t` where `x` is the only variable, and where it is one of
more and `t` is bound to something else: the new variable is the second cell here and the fifth
there. -/
theorem execute_alike_elsewhere :
    let command : Command :=
      .scope (.variable ⟨"t", .origin⟩ (.leaf (.type .boolean) .origin)
          (.identifier ⟨"x", .origin⟩ .origin) .origin)
        (.sequence (.assign ⟨"x", .origin⟩ (.value ⟨.boolean, "false", .origin⟩ .origin) .origin)
          (.print (.identifier ⟨"t", .origin⟩ .origin) .origin) .origin) .origin
    let env : Environment := ⟨[("x", .location ⟨0⟩)]⟩
    let env' : Environment := ⟨[("t", .value (.boolean false)), ("x", .location ⟨3⟩)]⟩
    let store : Store := ⟨[(⟨0⟩, .boolean true)]⟩
    let store' : Store := ⟨[(⟨0⟩, .boolean false), (⟨3⟩, .boolean true)]⟩
    let b : Pairing := fun l l' => l = ⟨0⟩ ∧ l' = ⟨3⟩
    (∀ l l' m m', b l l' → b m m' → (l = m ↔ l' = m')) ∧
    (∀ l l', b l l' → l ∈ store.keys ∧ l' ∈ store'.keys) ∧
    (∀ l ∈ store.keys, l.index < (1 : Nat)) ∧ (∀ l ∈ store'.keys, l.index < (5 : Nat)) ∧
    (∀ name ∈ command.free, Alike b store store' (env.get? name) (env'.get? name)) ∧
    ∃ final final' after after', after.output = after'.output ∧
      Ends command env store (.fresh 1) ⟨.ok final, after⟩ ∧
      Ends command env' store' (.fresh 5) ⟨.ok final', after'⟩ ∧
      (∃ held, final.get? ⟨0⟩ = some held ∧ final'.get? ⟨3⟩ = some held) ∧
      ∃ held, final.get? ⟨1⟩ = some held ∧ final'.get? ⟨5⟩ = some held := by
  intro command env env' store store' b
  have injective : ∀ l l' m m', b l l' → b m m' → (l = m ↔ l' = m') := by
    rintro _ _ _ _ ⟨rfl, rfl⟩ ⟨rfl, rfl⟩
    exact ⟨fun _ => rfl, fun _ => rfl⟩
  have bound : ∀ l l', b l l' → l ∈ store.keys ∧ l' ∈ store'.keys := by
    rintro _ _ ⟨rfl, rfl⟩
    decide
  have below : ∀ l ∈ store.keys, l.index < (1 : Nat) := by decide
  have below' : ∀ l ∈ store'.keys, l.index < (5 : Nat) := by decide
  have names : ∀ name ∈ command.free, Alike b store store' (env.get? name) (env'.get? name) := by
    have free : command.free = ["x", "x"] := by decide
    have same : Alike b store store' (env.get? "x") (env'.get? "x") :=
      .cell ⟨rfl, rfl⟩ (rfl : store.get? ⟨0⟩ = some (.boolean true)) (by decide)
    simpa [free] using same
  have ended : execute 0 command env store (.fresh 1) = some ⟨.ok _, _⟩ := rfl
  have ends := ends_iff.2 ⟨0, ended⟩
  refine ⟨injective, bound, below, below', names, ?_⟩
  obtain ⟨never, -⟩ | ⟨error, _, _, -, failed, -⟩ |
    ⟨final, final', after, after', count, printed, done, done', next, -, agree, -⟩ :=
    execute_alike command injective bound below below' names
  · cases (never 0).symm.trans ended
  · exact absurd (ends.unique failed) (by simp)
  · obtain ⟨store_eq, after_eq⟩ := Attempt.mk.inj (ends.unique done)
    have count_eq : count = 1 := by
      have := congrArg Progress.next after_eq
      simp only [next] at this
      exact Nat.add_left_cancel this.symm
    subst count_eq
    refine ⟨final, final', after, after', printed, done, done', ?_, ?_⟩
    · exact agree ⟨0⟩ ⟨3⟩ (.inl ⟨rfl, rfl⟩) (by decide)
    · exact agree ⟨1⟩ ⟨5⟩ (.inr ⟨0, Nat.one_pos, rfl, rfl⟩) (by decide)

end SmallImp

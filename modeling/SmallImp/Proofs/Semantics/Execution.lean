/-
# What a command does

The equations of `execute` read as the cases that a command can come to: one lemma for each
kind of command with commands in it, and one for a round of a loop.  All that is proved of
runs goes by these cases.

`execute` stops each loop at a limit.  An attempt that it comes to within one limit it comes to
within all greater ones (`execute_mono`), so a run `Ends` with an attempt if there is a limit
within which it comes to it, and with one only.
-/
import SmallImp.Run

namespace SmallImp

variable {limit : Nat} {env : Environment} {store : Store} {progress : Progress}
variable {attempt : Attempt Store} {block : Block}

/-! ## Cases -/

theorem execute_scope_iff {declaration : Declaration} {body : Command} :
    execute limit (.scope declaration body block) env store progress = some attempt ↔
      (∃ error after, elaborate declaration env store progress = ⟨.error error, after⟩ ∧
        attempt = ⟨.error error, after⟩) ∨
      ∃ innerEnv innerStore between,
        elaborate declaration env store progress = ⟨.ok (innerEnv, innerStore), between⟩ ∧
        execute limit body innerEnv innerStore between = some attempt := by
  rw [execute]
  rcases elaborate declaration env store progress with ⟨error | ⟨innerEnv, innerStore⟩, after⟩
  · simp [eq_comm, and_assoc]
  · simp [and_assoc]

theorem execute_sequence_iff {first second : Command} :
    execute limit (.sequence first second block) env store progress = some attempt ↔
      (∃ error after, execute limit first env store progress = some ⟨.error error, after⟩ ∧
        attempt = ⟨.error error, after⟩) ∨
      ∃ innerStore between,
        execute limit first env store progress = some ⟨.ok innerStore, between⟩ ∧
        execute limit second env innerStore between = some attempt := by
  rw [execute]
  rcases execute limit first env store progress with _ | ⟨error | innerStore, after⟩
  · simp
  · simp [eq_comm, and_assoc]
  · simp [and_assoc]

theorem execute_branch_iff {condition : Expr} {body : Command} :
    execute limit (.branch condition body block) env store progress = some attempt ↔
      (∃ error, evaluateCondition env store condition = .error error ∧
        attempt = ⟨.error error, progress⟩) ∨
      (evaluateCondition env store condition = .ok true ∧
        execute limit body env store progress = some attempt) ∨
      (evaluateCondition env store condition = .ok false ∧ attempt = ⟨.ok store, progress⟩) := by
  rw [execute]
  rcases evaluateCondition env store condition with error | _ | _
  · simp [eq_comm]
  · simp [eq_comm]
  · simp

theorem execute_branchElse_iff {condition : Expr} {body otherwise : Command} :
    execute limit (.branchElse condition body otherwise block) env store progress =
        some attempt ↔
      (∃ error, evaluateCondition env store condition = .error error ∧
        attempt = ⟨.error error, progress⟩) ∨
      (evaluateCondition env store condition = .ok true ∧
        execute limit body env store progress = some attempt) ∨
      (evaluateCondition env store condition = .ok false ∧
        execute limit otherwise env store progress = some attempt) := by
  rw [execute]
  rcases evaluateCondition env store condition with error | _ | _
  · simp [eq_comm]
  · simp
  · simp

theorem rounds_succ_iff {condition : Store → Except RunError Bool}
    {round : Store → Progress → Option (Attempt Store)} :
    rounds condition round (limit + 1) store progress = some attempt ↔
      (∃ error, condition store = .error error ∧ attempt = ⟨.error error, progress⟩) ∨
      (condition store = .ok false ∧ attempt = ⟨.ok store, progress⟩) ∨
      (condition store = .ok true ∧
        ((∃ error after, round store progress = some ⟨.error error, after⟩ ∧
          attempt = ⟨.error error, after⟩) ∨
        ∃ innerStore between, round store progress = some ⟨.ok innerStore, between⟩ ∧
          rounds condition round limit innerStore between = some attempt)) := by
  rw [rounds]
  rcases condition store with error | _ | _
  · simp [eq_comm]
  · simp [eq_comm]
  · rcases round store progress with _ | ⟨error | innerStore, after⟩
    · simp
    · simp [eq_comm, and_assoc]
    · simp [and_assoc]

theorem execute_assign (target : Identifier) (value : Expr) :
    execute limit (.assign target value block) env store progress = some
      ⟨match env.get? target.name with
        | none => .error (.undefinedIdentifier target.name target.block)
        | some (.value _) => .error (.constantReassignment target.name block)
        | some (.location cell) => (evaluate env store value).map (store.extend cell),
        progress⟩ := by
  rw [execute, resolve]
  rcases env.get? target.name with _ | cell | held <;> rfl

theorem execute_print (value : Expr) :
    execute limit (.print value block) env store progress = some
      (match evaluate env store value with
        | .error error => ⟨.error error, progress⟩
        | .ok held => ⟨.ok store, progress.print held⟩) := by
  rw [execute]
  cases evaluate env store value <;> rfl

/-! ## The limit -/

/-- Rounds that have come to an end stay as they are when there may be more of them, and more
in each of them. -/
theorem rounds_mono {condition : Store → Except RunError Bool}
    {round round' : Store → Progress → Option (Attempt Store)}
    (more : ∀ store progress attempt, round store progress = some attempt →
      round' store progress = some attempt)
    {limit limit' : Nat} (le : limit ≤ limit')
    (h : rounds condition round limit store progress = some attempt) :
    rounds condition round' limit' store progress = some attempt := by
  induction limit generalizing limit' store progress with
  | zero => cases h
  | succ limit ih =>
    obtain ⟨limit', rfl⟩ : ∃ k, limit' = k + 1 := ⟨limit' - 1, by omega⟩
    rw [rounds_succ_iff] at h ⊢
    refine h.imp_right (Or.imp_right (And.imp_right ?_))
    rintro (⟨error, after, first, eq⟩ | ⟨innerStore, between, first, later⟩)
    · exact .inl ⟨error, after, more _ _ _ first, eq⟩
    · exact .inr ⟨innerStore, between, more _ _ _ first, ih (by omega) later⟩

/-- **An attempt within a limit is the attempt within all greater ones.** -/
theorem execute_mono {limit limit' : Nat} (le : limit ≤ limit') {command : Command}
    (h : execute limit command env store progress = some attempt) :
    execute limit' command env store progress = some attempt := by
  induction command generalizing env store progress attempt with
  | nil | assign | print | unknown => exact h
  | scope declaration body _ ih =>
    rw [execute_scope_iff] at h ⊢
    obtain failed | ⟨innerEnv, innerStore, between, elaborated, later⟩ := h
    · exact .inl failed
    · exact .inr ⟨innerEnv, innerStore, between, elaborated, ih later⟩
  | sequence first second _ ihFirst ihSecond =>
    rw [execute_sequence_iff] at h ⊢
    obtain ⟨error, after, firstly, eq⟩ | ⟨innerStore, between, firstly, later⟩ := h
    · exact .inl ⟨error, after, ihFirst firstly, eq⟩
    · exact .inr ⟨innerStore, between, ihFirst firstly, ihSecond later⟩
  | branch condition body _ ih =>
    rw [execute_branch_iff] at h ⊢
    exact h.imp_right (Or.imp_left (And.imp_right ih))
  | branchElse condition body otherwise _ ihBody ihOtherwise =>
    rw [execute_branchElse_iff] at h ⊢
    exact h.imp_right (Or.imp (And.imp_right ihBody) (And.imp_right ihOtherwise))
  | loop condition body _ ih =>
    rw [execute] at h ⊢
    exact rounds_mono (fun _ _ _ => ih) le h

/-- A run that comes to an end, with its attempt: it comes to it within all limits that are
great enough. -/
def Ends (command : Command) (env : Environment) (store : Store) (progress : Progress)
    (attempt : Attempt Store) : Prop :=
  ∃ bound, ∀ limit, bound ≤ limit → execute limit command env store progress = some attempt

/-- A run ends just if it comes to an end within some limit. -/
theorem ends_iff {command : Command} :
    Ends command env store progress attempt ↔
      ∃ limit, execute limit command env store progress = some attempt :=
  ⟨fun ⟨bound, h⟩ => ⟨bound, h bound (Nat.le_refl bound)⟩,
    fun ⟨limit, h⟩ => ⟨limit, fun _ le => execute_mono le h⟩⟩

/-- A run ends in one way only. -/
theorem Ends.unique {command : Command} {other : Attempt Store}
    (h : Ends command env store progress attempt) (h' : Ends command env store progress other) :
    attempt = other := by
  obtain ⟨bound, h⟩ := h
  obtain ⟨bound', h'⟩ := h'
  have first := h _ (Nat.le_max_left bound bound')
  rw [h' _ (Nat.le_max_right bound bound')] at first
  exact (Option.some.inj first).symm

theorem ends_scope_iff {declaration : Declaration} {body : Command} :
    Ends (.scope declaration body block) env store progress attempt ↔
      (∃ error after, elaborate declaration env store progress = ⟨.error error, after⟩ ∧
        attempt = ⟨.error error, after⟩) ∨
      ∃ innerEnv innerStore between,
        elaborate declaration env store progress = ⟨.ok (innerEnv, innerStore), between⟩ ∧
        Ends body innerEnv innerStore between attempt := by
  simp only [ends_iff, execute_scope_iff, exists_or, exists_const]
  refine or_congr_right ⟨?_, ?_⟩
  · rintro ⟨limit, innerEnv, innerStore, between, elaborated, later⟩
    exact ⟨innerEnv, innerStore, between, elaborated, limit, later⟩
  · rintro ⟨innerEnv, innerStore, between, elaborated, limit, later⟩
    exact ⟨limit, innerEnv, innerStore, between, elaborated, later⟩

theorem ends_sequence_iff {first second : Command} :
    Ends (.sequence first second block) env store progress attempt ↔
      (∃ error after, Ends first env store progress ⟨.error error, after⟩ ∧
        attempt = ⟨.error error, after⟩) ∨
      ∃ innerStore between, Ends first env store progress ⟨.ok innerStore, between⟩ ∧
        Ends second env innerStore between attempt := by
  constructor
  · rintro ⟨bound, h⟩
    obtain ⟨error, after, firstly, eq⟩ | ⟨innerStore, between, firstly, later⟩ :=
      execute_sequence_iff.1 (h bound (Nat.le_refl bound))
    · exact .inl ⟨error, after, ends_iff.2 ⟨bound, firstly⟩, eq⟩
    · exact .inr ⟨innerStore, between, ends_iff.2 ⟨bound, firstly⟩, ends_iff.2 ⟨bound, later⟩⟩
  · rintro (⟨error, after, ⟨bound, firstly⟩, eq⟩ |
      ⟨innerStore, between, ⟨bound, firstly⟩, bound', later⟩)
    · exact ⟨bound, fun limit le =>
        execute_sequence_iff.2 (.inl ⟨error, after, firstly limit le, eq⟩)⟩
    · exact ⟨max bound bound', fun limit le => execute_sequence_iff.2
        (.inr ⟨innerStore, between, firstly limit (by omega), later limit (by omega)⟩)⟩

end SmallImp

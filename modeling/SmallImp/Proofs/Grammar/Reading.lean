/-
# What readers promise

A reader takes tokens off the front of a list.  `Reads X follow tokens reading` says that the
outcome `reading` is right for the words of a language `X`, whatever stands after them:

* what was read spells a word of `X`, and if some word `w` that starts like the rest makes
  `X` and then `K` of it, then `w` alone is in `K`: nothing else could have been read;
* if the reader failed, then what was read can be continued to a word of `X`, and no word that
  starts like the rest continues it to `X` and then `K`.

Both are claimed for all languages `K` that `follow` admits.  The second halves speak of all
words that start like the rest: a reader sees one token ahead, and this is what makes the
token it fails at the first one that is wrong.  Readers in a row read products
(`Reads.andThen`), and a choice is one reader whose next token rules the others out
(`Reads.widen`).
-/
import SmallImp.Phrase.Parser
import SmallImp.Proofs.Grammar.Levels

namespace SmallImp

open Grammar

/-- The terminals of tokens. -/
def spelling (tokens : List Token) : List Terminal := tokens.map (·.terminal)

@[simp]
theorem spelling_nil : spelling [] = [] := rfl

@[simp]
theorem spelling_cons (token : Token) (tokens : List Token) :
    spelling (token :: tokens) = token.terminal :: spelling tokens := rfl

@[simp]
theorem spelling_append (first second : List Token) :
    spelling (first ++ second) = spelling first ++ spelling second := List.map_append

/-- Whether a word starts like tokens, as far as the first one shows. -/
def Agrees (word : List Terminal) (tokens : List Token) : Prop :=
  word.head? = (spelling tokens).head?

namespace Agrees

theorem append {word : List Terminal} {rest : List Token} (h : Agrees word rest)
    (used : List Token) : Agrees (spelling used ++ word) (used ++ rest) := by
  cases used with
  | nil => exact h
  | cons token used => rfl

theorem eq_nil {word : List Terminal} (h : Agrees word []) : word = [] :=
  List.head?_eq_none_iff.1 h

theorem exists_eq_cons {word : List Terminal} {token : Token} {rest : List Token}
    (h : Agrees word (token :: rest)) : ∃ more, word = token.terminal :: more := by
  cases word with
  | nil => cases h
  | cons t more => exact ⟨more, by rw [Option.some.inj h]⟩

end Agrees

/-- A word that starts like tokens is not in a language whose words start otherwise. -/
theorem StartsWith.notMem_of_agrees {test : Terminal → Bool} {X : Language Terminal}
    (h : StartsWith test X) {tokens : List Token}
    (other : Phrase.nextIs test tokens = false) {word : List Terminal}
    (agrees : Agrees word tokens) : word ∉ X := by
  intro hw
  obtain ⟨t, rest, rfl, ht⟩ := h word hw
  cases tokens with
  | nil => cases agrees.eq_nil
  | cons token tokens =>
    obtain ⟨_, eq⟩ := agrees.exists_eq_cons
    rw [Phrase.nextIs, ← (List.cons.inj eq).1, ht] at other
    cases other

namespace Phrase

/-- A token of one kind is of no kind apart from it. -/
theorem nextIs_eq_false_of {test other : Terminal → Bool} {tokens : List Token}
    (h : nextIs test tokens = true) (apart : ∀ t, test t = true → other t = false) :
    nextIs other tokens = false := by
  cases tokens with
  | nil => rfl
  | cons token rest => exact apart _ h

/-- The outcome of a reader is right for a language, before any language that is admitted. -/
def Reads {α : Type} (X : Language Terminal) (follow : Language Terminal → Prop)
    (tokens : List Token) : Reading α → Prop
  | .read _ rest => ∃ used, tokens = used ++ rest ∧ spelling used ∈ X ∧
      ∀ K, follow K → ∀ w, Agrees w rest → spelling used ++ w ∈ X * K → w ∈ K
  | .failed rest => ∃ used, tokens = used ++ rest ∧ (∃ w, spelling used ++ w ∈ X) ∧
      ∀ K, follow K → ∀ w, Agrees w rest → spelling used ++ w ∉ X * K

namespace Reads

variable {α β : Type} {X Y Z : Language Terminal} {F G : Language Terminal → Prop}
variable {tokens : List Token} {reading : Reading α}

/-- Fewer languages may be admitted. -/
theorem weaken (h : Reads X F tokens reading) (sub : ∀ K, G K → F K) :
    Reads X G tokens reading := by
  cases reading with
  | read phrase rest =>
    obtain ⟨used, eq, mem, exact_⟩ := h
    exact ⟨used, eq, mem, fun K hK => exact_ K (sub K hK)⟩
  | failed rest =>
    obtain ⟨used, eq, viable, wrong⟩ := h
    exact ⟨used, eq, viable, fun K hK => wrong K (sub K hK)⟩

/-- What the phrase is does not matter. -/
theorem map (h : Reads X F tokens reading) (make : α → β) :
    Reads X F tokens (reading.map make) := by
  cases reading <;> exact h

/-- **More words may be read if the first token excludes them.** -/
theorem widen (h : Reads X F tokens reading) (sub : X ≤ Z)
    (only : ∀ K, F K → ∀ w, Agrees w tokens → w ∈ Z * K → w ∈ X * K) :
    Reads Z F tokens reading := by
  cases reading with
  | read phrase rest =>
    obtain ⟨used, rfl, mem, exact_⟩ := h
    exact ⟨used, rfl, sub mem, fun K hK w agrees hw =>
      exact_ K hK w agrees (only K hK _ (agrees.append used) hw)⟩
  | failed rest =>
    obtain ⟨used, rfl, ⟨more, viable⟩, wrong⟩ := h
    exact ⟨used, rfl, ⟨more, sub viable⟩, fun K hK w agrees hw =>
      wrong K hK w agrees (only K hK _ (agrees.append used) hw)⟩

/-- **Readers in a row read a product.** -/
theorem andThen {next : α → List Token → Reading β} (h : Reads X F tokens reading)
    (follow : ∀ K, G K → F (Y * K)) (inhabited : ∃ w, w ∈ Y)
    (second : ∀ phrase rest, reading = .read phrase rest → rest.length ≤ tokens.length →
      Reads Y G rest (next phrase rest)) :
    Reads (X * Y) G tokens (reading.andThen next) := by
  cases reading with
  | failed rest =>
    obtain ⟨used, eq, ⟨w, viable⟩, wrong⟩ := h
    obtain ⟨y, hy⟩ := inhabited
    refine ⟨used, eq, ⟨w ++ y, ?_⟩, fun K hK w agrees hw => ?_⟩
    · rw [← List.append_assoc]
      exact Language.append_mem_mul viable hy
    · rw [mul_assoc] at hw
      exact wrong _ (follow K hK) w agrees hw
  | read phrase rest =>
    obtain ⟨used, rfl, mem, exact_⟩ := h
    have after := second phrase rest rfl (by simp)
    rw [Reading.andThen_read]
    -- what the second reader needs to know of a word that starts like its rest
    have pass (K : Language Terminal) (hK : G K) (read rest' : List Token)
        (eq : rest = read ++ rest') (w : List Terminal) (agrees : Agrees w rest')
        (hw : spelling (used ++ read) ++ w ∈ X * Y * K) : spelling read ++ w ∈ Y * K := by
      rw [spelling_append, List.append_assoc, mul_assoc] at hw
      exact exact_ _ (follow K hK) _ (eq ▸ agrees.append read) hw
    cases result : next phrase rest with
    | read phrase' rest' =>
      rw [result] at after
      obtain ⟨read, rfl, mem', exact'⟩ := after
      refine ⟨used ++ read, (List.append_assoc ..).symm, ?_, fun K hK w agrees hw =>
        exact' K hK w agrees (pass K hK read rest' rfl w agrees hw)⟩
      rw [spelling_append]
      exact Language.append_mem_mul mem mem'
    | failed rest' =>
      rw [result] at after
      obtain ⟨read, rfl, ⟨more, viable⟩, wrong⟩ := after
      refine ⟨used ++ read, (List.append_assoc ..).symm, ⟨more, ?_⟩, fun K hK w agrees hw =>
        wrong K hK w agrees (pass K hK read rest' rfl w agrees hw)⟩
      rw [spelling_append, List.append_assoc]
      exact Language.append_mem_mul mem viable

/-- Reading nothing reads the empty word. -/
theorem nothing (phrase : α) : Reads 1 F tokens (.read phrase tokens) :=
  ⟨[], rfl, rfl, fun K _ w _ hw => by simpa using hw⟩

/-- Failing at once is right where no word starts like the tokens. -/
theorem fail (inhabited : ∃ w, w ∈ X) (none : ∀ K, F K → ∀ w, Agrees w tokens → w ∉ X * K) :
    Reads X F tokens (.failed tokens : Reading α) :=
  ⟨[], rfl, inhabited, none⟩

/-- A token of a terminal reads the word of that terminal. -/
theorem one (first : Token) (rest : List Token) (phrase : α) :
    Reads (single first.terminal) F (first :: rest) (.read phrase rest) := by
  exact ⟨[first], rfl, rfl, fun K _ w _ hw => (cons_mem_single_mul.1 hw).2⟩

/-- A token that has been read stands before what its successors spell. -/
theorem token {first : Token} {rest : List Token} (inhabited : ∃ w, w ∈ Y)
    (h : Reads Y G rest reading) :
    Reads (single first.terminal * Y) G (first :: rest) reading := by
  have whole : Reads (single first.terminal * Y) G (first :: rest)
      ((Reading.read () rest).andThen fun _ _ => reading) := by
    refine (one (F := fun _ => True) first rest ()).andThen (fun _ _ => trivial) inhabited ?_
    intro _ _ same _
    cases same
    exact h
  exact whole

/-- **A token that decides on one of several choices.** -/
theorem branch {first : Token} {rest : List Token} {t : Terminal} (same : first.terminal = t)
    (inhabited : ∃ w, w ∈ Y) (sub : single t * Y ≤ Z)
    (only : ∀ K, G K → ∀ more, t :: more ∈ Z * K → more ∈ Y * K)
    (h : Reads Y G rest reading) : Reads Z G (first :: rest) reading := by
  subst same
  refine (h.token inhabited).widen sub fun K hK w agrees hw => ?_
  obtain ⟨more, rfl⟩ := agrees.exists_eq_cons
  rw [mul_assoc]
  exact cons_mem_single_mul.2 ⟨rfl, only K hK more hw⟩

/-- Failing is right at a token that starts no word. -/
theorem fail_of_startsWith {test : Terminal → Bool} (starts : StartsWith test X)
    (inhabited : ∃ w, w ∈ X) (other : nextIs test tokens = false) :
    Reads X F tokens (.failed tokens : Reading α) :=
  fail inhabited fun K _ _ agrees => (starts.mul K).notMem_of_agrees other agrees

/-- One expected token. -/
theorem expect (t : Terminal) (tokens : List Token) :
    Reads (single t) F tokens (Phrase.expect t tokens) := by
  have inhabited := exists_mem_single t
  cases tokens with
  | nil =>
    refine fail inhabited fun K _ w agrees hw => ?_
    exact nil_notMem_single_mul (agrees.eq_nil ▸ hw)
  | cons first rest =>
    rw [Phrase.expect]
    split
    case isTrue same => exact same ▸ one first rest first
    case isFalse other =>
      refine fail inhabited fun K _ w agrees hw => ?_
      obtain ⟨_, rfl⟩ := agrees.exists_eq_cons
      exact other (cons_mem_single_mul.1 hw).1

/-- One expected token, with more after it. -/
theorem expect_andThen {t : Terminal} {next : Token → List Token → Reading β}
    (inhabited : ∃ w, w ∈ Y)
    (second : ∀ first rest, rest.length ≤ tokens.length → Reads Y G rest (next first rest)) :
    Reads (single t * Y) G tokens ((Phrase.expect t tokens).andThen next) :=
  (expect (F := fun _ => True) t tokens).andThen (fun _ _ => trivial) inhabited
    fun first rest _ => second first rest

/-- A token that may be left out, where no word without it starts with it. -/
theorem optional {t : Terminal} (inhabited : ∃ w, w ∈ Y)
    (excluded : ∀ K, G K → ∀ rest, t :: rest ∉ Y * K)
    (h : Reads Y G (Phrase.optional t tokens).2 reading) :
    Reads ((1 + single t) * Y) G tokens reading := by
  have split : (1 + single t) * Y = Y + single t * Y := by rw [add_mul, one_mul]
  rw [split]
  cases tokens with
  | nil =>
    refine h.widen (fun _ => .inl) fun K _ w agrees hw => ?_
    obtain rfl := agrees.eq_nil
    rw [add_mul] at hw
    obtain hw | hw := hw
    · exact hw
    · exact absurd (mul_assoc (single t) Y K ▸ hw) nil_notMem_single_mul
  | cons first rest =>
    rw [Phrase.optional] at h
    split at h
    case isTrue same =>
      refine (same ▸ h.token inhabited).widen (fun _ => .inr) fun K hK w agrees hw => ?_
      rw [add_mul] at hw
      obtain hw | hw := hw
      · obtain ⟨more, rfl⟩ := agrees.exists_eq_cons
        exact absurd hw (same ▸ excluded K hK more)
      · exact hw
    case isFalse other =>
      refine h.widen (fun _ => .inl) fun K _ w agrees hw => ?_
      obtain ⟨_, rfl⟩ := agrees.exists_eq_cons
      rw [add_mul, mul_assoc] at hw
      obtain hw | hw := hw
      · exact hw
      · exact absurd (cons_mem_single_mul.1 hw).1 other

/-- **A word is in the language just if its reader takes all of it**, where nothing may follow. -/
theorem mem_iff (h : Reads X F tokens reading) (last : F 1) :
    spelling tokens ∈ X ↔ ∃ phrase, reading = .read phrase [] := by
  constructor
  · intro mem
    have whole : spelling tokens ∈ X * 1 := by rwa [mul_one]
    cases reading with
    | read phrase rest =>
      obtain ⟨used, rfl, -, exact_⟩ := h
      have nothing : spelling rest ∈ (1 : Language Terminal) :=
        exact_ 1 last _ rfl (by rwa [← spelling_append])
      obtain rfl : rest = [] := List.map_eq_nil_iff.1 nothing
      exact ⟨phrase, rfl⟩
    | failed rest =>
      obtain ⟨used, rfl, -, wrong⟩ := h
      rw [spelling_append] at whole
      exact absurd whole (wrong 1 last _ rfl)
  · rintro ⟨phrase, rfl⟩
    obtain ⟨used, rfl, mem, -⟩ := h
    rwa [List.append_nil]

end Reads

end Phrase
end SmallImp

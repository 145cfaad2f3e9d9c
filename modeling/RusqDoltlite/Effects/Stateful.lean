import Mathlib.Order.Defs.Unbundled

/-! Code of one process that reads and changes a state and may fail. A failure keeps
the changes made before it, as in a C function that returns a code. -/

namespace RusqDoltlite.Effects

abbrev Act (σ ε : Type) := ExceptT ε (StateM σ)

variable {σ ε α β : Type}

namespace Act

def when (condition : Prop) [Decidable condition] (act : Act σ ε Unit) : Act σ ε Unit :=
  if condition then act else pure ()

def require (condition : Prop) [Decidable condition] (error : ε) : Act σ ε Unit :=
  if condition then pure () else throw error

def attempt (act : Act σ ε α) : Act σ ε (Except ε α) :=
  tryCatch (do return .ok (← act)) fun error => pure (.error error)

/-- Runs the action on every item, whatever fails in between, and returns the values
and the errors. -/
def sift (act : α → Act σ ε β) : List α → Act σ ε (List β × List ε)
  | [] => pure ([], [])
  | item :: rest => do
      let result ← (act item).attempt
      let (values, errors) ← sift act rest
      match result with
      | .ok value => return (value :: values, errors)
      | .error error => return (values, error :: errors)

def retry (again : ε → Bool) (act : Act σ ε α) : Nat → Act σ ε α
  | 0 => act
  | rounds + 1 => tryCatch act fun error => if again error then retry again act rounds else throw error

end Act

variable {state : σ} {success : α → σ → Prop} {failure : ε → σ → Prop} {relation : σ → σ → Prop}
  {act : Act σ ε α} {condition : Prop}

/-- Started in `state`, the action ends with `success` of its value and the state it
leaves, or with `failure` of its error and that state. -/
def Meets (act : Act σ ε α) (state : σ) (success : α → σ → Prop) (failure : ε → σ → Prop) :
    Prop :=
  match act.run.run state with
  | (.ok value, after) => success value after
  | (.error error, after) => failure error after

namespace Meets

@[simp] theorem pure {value : α} :
    Meets (Pure.pure value : Act σ ε α) state success failure ↔ success value state := Iff.rfl

@[simp] theorem throw {error : ε} :
    Meets (throw error : Act σ ε α) state success failure ↔ failure error state := Iff.rfl

@[simp] theorem bind {first : Act σ ε α} {next : α → Act σ ε β} {success : β → σ → Prop} :
    Meets (first >>= next) state success failure ↔
      Meets first state (fun value after => Meets (next value) after success failure)
        failure := by
  unfold Meets
  rw [ExceptT.run_bind, StateT.run_bind]
  rcases ran : first.run.run state with ⟨error | value, after⟩
  · rfl
  · rfl

@[simp] theorem get {success : σ → σ → Prop} :
    Meets (get : Act σ ε σ) state success failure ↔ success state state := Iff.rfl

@[simp] theorem set {after : σ} {success : PUnit → σ → Prop} :
    Meets (set after : Act σ ε PUnit) state success failure ↔ success ⟨⟩ after := Iff.rfl

@[simp] theorem modify {change : σ → σ} {success : PUnit → σ → Prop} :
    Meets (modify change : Act σ ε PUnit) state success failure ↔ success ⟨⟩ (change state) :=
  Iff.rfl

@[simp] theorem tryCatch {handler : ε → Act σ ε α} :
    Meets (tryCatch act handler) state success failure ↔
      Meets act state success
        (fun error after => Meets (handler error) after success failure) := by
  unfold Meets
  rw [ExceptT.run_tryCatch, StateT.run_bind]
  rcases ran : act.run.run state with ⟨error | value, after⟩
  · rfl
  · rfl

theorem mono {stronger : α → σ → Prop} {stronger' : ε → σ → Prop} (holds : Meets act state stronger stronger')
    (succeeds : ∀ value after, stronger value after → success value after)
    (fails : ∀ error after, stronger' error after → failure error after) :
    Meets act state success failure := by
  unfold Meets at holds ⊢
  split at holds
  · exact succeeds _ _ holds
  · exact fails _ _ holds

theorem sure {stronger : α → σ → Prop} (holds : Meets act state stronger fun _ _ => False)
    (succeeds : ∀ value after, stronger value after → success value after) :
    Meets act state success failure :=
  holds.mono succeeds fun _ _ impossible => impossible.elim

theorem always (succeeds : ∀ value after, success value after) (fails : ∀ error after, failure error after) :
    Meets act state success failure := by
  unfold Meets
  split
  · exact succeeds _ _
  · exact fails _ _

@[simp] theorem attempt {success : Except ε α → σ → Prop} :
    Meets act.attempt state success failure ↔
      Meets act state (fun value after => success (.ok value) after)
        (fun error after => success (.error error) after) := by
  simp only [Act.attempt, Meets.tryCatch, Meets.bind, Meets.pure]

theorem ite [Decidable condition] {first second : Act σ ε α}
    (yes : condition → Meets first state success failure)
    (no : ¬ condition → Meets second state success failure) :
    Meets (if condition then first else second) state success failure := by
  split
  · exact yes ‹_›
  · exact no ‹_›

@[simp] theorem when [Decidable condition] {act : Act σ ε Unit} {success : Unit → σ → Prop} :
    Meets (Act.when condition act) state success failure ↔
      if condition then Meets act state success failure else success () state := by
  unfold Act.when
  split <;> rfl

@[simp] theorem require [Decidable condition] {error : ε} {success : Unit → σ → Prop} :
    Meets (Act.require condition error : Act σ ε Unit) state success failure ↔
      if condition then success () state else failure error state := by
  unfold Act.require
  split <;> rfl

end Meets

def Moves (relation : σ → σ → Prop) (act : Act σ ε α) : Prop :=
  ∀ state, Meets act state (fun _ after => relation state after) (fun _ after => relation state after)

namespace Moves

theorem ite [Decidable condition] {first second : Act σ ε α} (yes : Moves relation first)
    (no : Moves relation second) :
    Moves relation (if condition then first else second) := by
  split
  · exact yes
  · exact no

theorem weaken {weaker : σ → σ → Prop} (moves : Moves relation act)
    (implies : ∀ before after, relation before after → weaker before after) :
    Moves weaker act :=
  fun state => (moves state).mono (fun _ _ => implies _ _) (fun _ _ => implies _ _)

variable [IsPreorder σ relation]

theorem pure (value : α) : Moves relation (Pure.pure value : Act σ ε α) :=
  fun state => refl_of relation state

theorem throw (error : ε) : Moves relation (throw error : Act σ ε α) :=
  fun state => refl_of relation state

theorem bind {first : Act σ ε α} {next : α → Act σ ε β} (moves : Moves relation first)
    (rest : ∀ value, Moves relation (next value)) : Moves relation (first >>= next) := by
  intro state
  rw [Meets.bind]
  apply (moves state).mono
  · intro value middle step
    apply (rest value middle).mono
    · exact fun _ _ => trans_of relation step
    · exact fun _ _ => trans_of relation step
  · exact fun _ _ step => step

theorem get : Moves relation (get : Act σ ε σ) := fun state => refl_of relation state

theorem tryCatch {handler : ε → Act σ ε α} (moves : Moves relation act)
    (handles : ∀ error, Moves relation (handler error)) :
    Moves relation (tryCatch act handler) := by
  intro state
  rw [Meets.tryCatch]
  apply (moves state).mono
  · exact fun _ _ step => step
  · intro error middle step
    apply (handles error middle).mono
    · exact fun _ _ => trans_of relation step
    · exact fun _ _ => trans_of relation step

theorem attempt (moves : Moves relation act) : Moves relation act.attempt :=
  tryCatch (bind moves fun _ => pure _) fun _ => pure _

theorem when [Decidable condition] {act : Act σ ε Unit} (moves : Moves relation act) :
    Moves relation (Act.when condition act) :=
  ite moves (pure ())

theorem require [Decidable condition] (error : ε) :
    Moves relation (Act.require condition error : Act σ ε Unit) :=
  ite (pure ()) (throw error)

end Moves

/-- Run from `state`, the action stays where `relation` leads from `start`, and a value it
returns satisfies `post`. -/
def Follows (relation : σ → σ → Prop) (start : σ) (act : Act σ ε α) (state : σ)
    (post : α → σ → Prop) : Prop :=
  Meets act state (fun value after => relation start after ∧ post value after)
    (fun _ after => relation start after)

namespace Follows

variable {start : σ} {post : α → σ → Prop}

theorem pure {value : α} (reached : relation start state) (holds : post value state) :
    Follows relation start (Pure.pure value : Act σ ε α) state post := ⟨reached, holds⟩

theorem throw {error : ε} (reached : relation start state) :
    Follows relation start (throw error : Act σ ε α) state post := reached

theorem bind {first : Act σ ε α} {next : α → Act σ ε β} {mid : α → σ → Prop}
    {post : β → σ → Prop} (follows : Follows relation start first state mid)
    (rest : ∀ value middle, relation start middle → mid value middle →
      Follows relation start (next value) middle post) :
    Follows relation start (first >>= next) state post := by
  unfold Follows
  rw [Meets.bind]
  apply Meets.mono follows
  · exact fun value middle both => rest value middle both.1 both.2
  · exact fun _ _ reached => reached

theorem mono {stronger : α → σ → Prop} (follows : Follows relation start act state stronger)
    (implies : ∀ value after, relation start after → stronger value after → post value after) :
    Follows relation start act state post := by
  apply Meets.mono follows
  · exact fun value after both => ⟨both.1, implies value after both.1 both.2⟩
  · exact fun _ _ reached => reached

theorem get_bind {next : σ → Act σ ε α} (rest : Follows relation start (next state) state post) :
    Follows relation start (MonadState.get >>= next) state post := by
  unfold Follows
  rw [Meets.bind, Meets.get]
  exact rest

theorem modified {change : σ → σ} {post : PUnit → σ → Prop} (reached : relation start (change state))
    (holds : post ⟨⟩ (change state)) :
    Follows relation start (modify change : Act σ ε PUnit) state post := ⟨reached, holds⟩

theorem modified_bind {change : σ → σ} {next : PUnit → Act σ ε α}
    (rest : Follows relation start (next ⟨⟩) (change state) post) :
    Follows relation start (modify change >>= next) state post := by
  unfold Follows
  rw [Meets.bind, Meets.modify]
  exact rest

theorem attempt {post : Except ε α → σ → Prop} {mid : α → σ → Prop}
    (follows : Follows relation start act state mid)
    (succeeds : ∀ value after, mid value after → post (.ok value) after)
    (fails : ∀ error after, relation start after → post (.error error) after) :
    Follows relation start act.attempt state post := by
  unfold Follows
  rw [Meets.attempt]
  apply Meets.mono follows
  · exact fun value after both => ⟨both.1, succeeds value after both.2⟩
  · exact fun error after reached => ⟨reached, fails error after reached⟩

theorem tryCatch {handler : ε → Act σ ε α} (follows : Follows relation start act state post)
    (handles : ∀ error middle, relation start middle → Follows relation start (handler error) middle post) :
    Follows relation start (tryCatch act handler) state post := by
  unfold Follows
  rw [Meets.tryCatch]
  apply Meets.mono follows
  · exact fun _ _ both => both
  · exact handles

theorem when [Decidable condition] {act : Act σ ε Unit} {post : Unit → σ → Prop}
    (yes : condition → Follows relation start act state post)
    (no : ¬ condition → relation start state ∧ post () state) :
    Follows relation start (Act.when condition act) state post := by
  unfold Act.when
  split
  · exact yes ‹_›
  · exact no ‹_›

theorem require [Decidable condition] {error : ε} {post : Unit → σ → Prop}
    (reached : relation start state) (yes : condition → post () state) :
    Follows relation start (Act.require condition error : Act σ ε Unit) state post := by
  unfold Act.require
  split
  · exact pure reached (yes ‹_›)
  · exact throw reached

theorem of_moves [IsPreorder σ relation] (moves : Moves relation act) (reached : relation start state) :
    Follows relation start act state fun _ after => relation state after := by
  apply (moves state).mono
  · exact fun _ after step => ⟨trans_of relation reached step, step⟩
  · exact fun _ after step => trans_of relation reached step

theorem moves (follows : ∀ state, Follows relation state act state fun _ _ => True) :
    Moves relation act := by
  intro state
  apply Meets.mono (follows state)
  · exact fun _ _ reached => reached.1
  · exact fun _ _ reached => reached

theorem retry {again : ε → Bool}
    (follows : ∀ state, relation start state → Follows relation start act state post) (rounds : Nat)
    (reached : relation start state) :
    Follows relation start (Act.retry again act rounds) state post := by
  induction rounds generalizing state with
  | zero => exact follows state reached
  | succ rounds ih =>
    apply tryCatch (follows state reached)
    intro error middle moved
    split
    · exact ih moved
    · exact throw moved

theorem sift [IsPreorder σ relation] {act : α → Act σ ε β} {good : β → σ → Prop} (items : List α)
    (reached : relation start state)
    (stable : ∀ value before after, relation before after → good value before → good value after)
    (keeps : ∀ item ∈ items, ∀ before, relation state before →
      Follows relation before (act item) before good) :
    Follows relation start (Act.sift act items) state fun result after =>
      relation state after ∧ ∀ value ∈ result.1, good value after := by
  induction items generalizing state with
  | nil => exact pure reached ⟨refl_of relation state, by simp⟩
  | cons item rest ih =>
    have head : Follows relation start (act item).attempt state fun result after =>
        relation state after ∧ ∀ value, result = .ok value → good value after := by
      apply Meets.attempt.mpr
      apply Meets.mono (keeps item List.mem_cons_self state (refl_of relation state))
      · intro value after both
        refine ⟨trans_of relation reached both.1, both.1, ?_⟩
        rintro _ ⟨⟩
        exact both.2
      · intro error after step
        refine ⟨trans_of relation reached step, step, ?_⟩
        rintro _ ⟨⟩
    apply bind head
    rintro result middle reached ⟨step, found⟩
    have later := ih reached fun item member before moved =>
      keeps item (List.mem_cons_of_mem _ member) before (trans_of relation step moved)
    apply bind later
    rintro ⟨values, errors⟩ after reached ⟨steps, all⟩
    have moved := trans_of relation step steps
    cases result with
    | ok value =>
      have holds := stable value middle after steps (found value rfl)
      exact pure reached ⟨moved, List.forall_mem_cons.mpr ⟨holds, all⟩⟩
    | error error => exact pure reached ⟨moved, all⟩

end Follows

theorem Meets.sift {act : α → Act σ ε β} (inv : List β → List α → σ → Prop)
    (step : ∀ done item rest state, inv done (item :: rest) state →
      Meets (act item) state (fun value after => inv (done ++ [value]) rest after)
        (fun _ _ => False))
    (done : List β) (items : List α) (holds : inv done items state) :
    Meets (Act.sift act items) state
      (fun result after => result.2 = [] ∧ inv (done ++ result.1) [] after) failure := by
  induction items generalizing done state with
  | nil =>
    refine ⟨rfl, ?_⟩
    rw [List.append_nil]
    exact holds
  | cons item rest ih =>
    simp only [Act.sift, Meets.bind, Meets.attempt]
    apply (step done item rest state holds).mono
    · intro value middle kept
      apply (ih (done ++ [value]) kept).mono
      · rintro ⟨values, errors⟩ after ⟨fine, ended⟩
        refine ⟨fine, ?_⟩
        rw [List.append_assoc] at ended
        exact ended
      · exact fun _ _ failed => failed
    · exact fun _ _ impossible => impossible.elim

theorem Meets.both {other : α → σ → Prop}
    {worse : ε → σ → Prop} (first : Meets act state success failure)
    (second : Meets act state other worse) :
    Meets act state (fun value after => success value after ∧ other value after)
      (fun error after => failure error after ∧ worse error after) := by
  unfold Meets at *
  split at first
  · rename_i ran
    rw [ran] at second
    exact ⟨first, second⟩
  · rename_i ran
    rw [ran] at second
    exact ⟨first, second⟩

/-- As `Meets`, for runs that keep to a promise about the states they leave. A state an action
starts from keeps to it if the state it leaves does. -/
def Under (promise : σ → Prop) (act : Act σ ε α) (state : σ) (success : α → σ → Prop)
    (failure : ε → σ → Prop) : Prop :=
  Meets act state (fun value after => promise after → promise state ∧ success value after)
    (fun error after => promise after → promise state ∧ failure error after)

namespace Under

variable {promise : σ → Prop}

theorem pure {value : α} (holds : promise state → success value state) :
    Under promise (Pure.pure value : Act σ ε α) state success failure :=
  fun kept => ⟨kept, holds kept⟩

theorem throw {error : ε} (holds : promise state → failure error state) :
    Under promise (throw error : Act σ ε α) state success failure :=
  fun kept => ⟨kept, holds kept⟩

theorem bind {first : Act σ ε α} {next : α → Act σ ε β} {mid : α → σ → Prop}
    {success : β → σ → Prop} (starts : Under promise first state mid failure)
    (rest : ∀ value middle, (promise middle → mid value middle) →
      Under promise (next value) middle success failure) :
    Under promise (first >>= next) state success failure := by
  unfold Under
  rw [Meets.bind]
  apply Meets.mono starts
  · intro value middle known
    apply Meets.mono (rest value middle fun kept => (known kept).2)
    · intro last after ended kept
      obtain ⟨before, holds⟩ := ended kept
      exact ⟨(known before).1, holds⟩
    · intro error after ended kept
      obtain ⟨before, holds⟩ := ended kept
      exact ⟨(known before).1, holds⟩
  · exact fun _ _ known => known

theorem get_bind {next : σ → Act σ ε α} (rest : Under promise (next state) state success failure) :
    Under promise (MonadState.get >>= next) state success failure := by
  unfold Under
  rw [Meets.bind, Meets.get]
  exact rest

theorem tryCatch {handler : ε → Act σ ε α} {caught : ε → σ → Prop}
    (starts : Under promise act state success caught)
    (handles : ∀ error middle, (promise middle → caught error middle) →
      Under promise (handler error) middle success failure) :
    Under promise (tryCatch act handler) state success failure := by
  unfold Under
  rw [Meets.tryCatch]
  apply Meets.mono starts
  · exact fun _ _ known => known
  · intro error middle known
    apply Meets.mono (handles error middle fun kept => (known kept).2)
    · intro value after ended kept
      obtain ⟨before, holds⟩ := ended kept
      exact ⟨(known before).1, holds⟩
    · intro error after ended kept
      obtain ⟨before, holds⟩ := ended kept
      exact ⟨(known before).1, holds⟩

theorem mono {stronger : α → σ → Prop} {stronger' : ε → σ → Prop}
    (holds : Under promise act state stronger stronger')
    (succeeds : ∀ value after, promise after → stronger value after → success value after)
    (fails : ∀ error after, promise after → stronger' error after → failure error after) :
    Under promise act state success failure := by
  apply Meets.mono holds
  · exact fun value after known kept => ⟨(known kept).1, succeeds value after kept (known kept).2⟩
  · exact fun error after known kept => ⟨(known kept).1, fails error after kept (known kept).2⟩

theorem guard (back : Moves (fun before after => promise after → promise before) act)
    (holds : promise state → Under promise act state success failure) :
    Under promise act state success failure := by
  by_cases kept : promise state
  · exact holds kept
  · apply Meets.mono (back state)
    · exact fun _ _ returns later => absurd (returns later) kept
    · exact fun _ _ returns later => absurd (returns later) kept

theorem of_meets (back : Moves (fun before after => promise after → promise before) act)
    (holds : Meets act state success failure) : Under promise act state success failure := by
  apply (holds.both (back state)).mono
  · exact fun _ _ both kept => ⟨both.2 kept, both.1⟩
  · exact fun _ _ both kept => ⟨both.2 kept, both.1⟩

theorem along {other : α → σ → Prop} {worse : ε → σ → Prop} (holds : Under promise act state success failure)
    (also : Meets act state other worse) :
    Under promise act state (fun value after => success value after ∧ other value after)
      (fun error after => failure error after ∧ worse error after) := by
  apply (Meets.both holds also).mono
  · exact fun _ _ both kept => ⟨(both.1 kept).1, (both.1 kept).2, both.2⟩
  · exact fun _ _ both kept => ⟨(both.1 kept).1, (both.1 kept).2, both.2⟩

theorem first_bind {first : Act σ ε α} {next : α → Act σ ε β} {mid : α → σ → Prop} {success : β → σ → Prop}
    (back : Moves (fun before after => promise after → promise before) first)
    (starts : Meets first state mid failure)
    (rest : ∀ value middle, mid value middle → Under promise (next value) middle success failure) :
    Under promise (first >>= next) state success failure := by
  unfold Under
  rw [Meets.bind]
  apply (starts.both (back state)).mono
  · rintro value middle ⟨known, returns⟩
    apply Meets.mono (rest value middle known)
    · exact fun last after ended kept => ⟨returns (ended kept).1, (ended kept).2⟩
    · exact fun error after ended kept => ⟨returns (ended kept).1, (ended kept).2⟩
  · exact fun _ _ both kept => ⟨both.2 kept, both.1⟩

theorem attempt {success : Except ε α → σ → Prop}
    (holds : Under promise act state (fun value after => success (.ok value) after)
      (fun error after => success (.error error) after)) :
    Under promise act.attempt state success failure := by
  unfold Under
  rw [Meets.attempt]
  exact holds

theorem retry {again : ε → Bool} {inv : σ → Prop}
    (back : Moves (fun before after => promise after → promise before) act)
    (holds : ∀ state, inv state → Under promise act state success (fun _ after => inv after)) (rounds : Nat)
    (start : promise state → inv state) :
    Under promise (Act.retry again act rounds) state success (fun _ after => inv after) := by
  induction rounds generalizing state with
  | zero => exact guard back fun kept => holds state (start kept)
  | succ rounds ih =>
    apply tryCatch (guard back fun kept => holds state (start kept))
    intro error middle known
    split
    · exact ih known
    · exact throw known

end Under

end RusqDoltlite.Effects

import RusqDoltlite.Effects.Pool

/-! A program that has the store to itself and whose requests do not fail. `Alone` is its weakest
precondition: what has to hold before for `post` to hold of every outcome. `Watches` is a program
that only reads, run beside the clients of a pool: between any two of its requests the clients may
take any number of steps. -/

namespace RusqDoltlite.Effects

variable {Key : Type} {Blob : Key → Type} {ETag Tag Query ε α β : Type} {Reply : Query → Type}
variable {Local Call Out : Type} [DecidableEq Key]

/-- A request served without a fault: only a write whose precondition does not hold is
refused, and the other requests are answered as `answers` says. -/
def Faultless (answers : (query : Query) → Reply query → Prop) (store : Store Key Blob ETag) :
    (request : Request Key Blob ETag Tag Query) → Answer ε Reply request →
      Store Key Blob ETag → Prop
  | .get key _, .ok found, after => found = store.current key ∧ after = store
  | .get _ _, .error _, _ => False
  | .put key condition blob, .ok etag, after => store.Writes key condition ⟨etag, blob⟩ after
  | .put key condition _, .error _, after => ¬store.Admits key condition ∧ after = store
  | .ask query, reply, after => answers query reply ∧ after = store

variable {answers : (query : Query) → Reply query → Prop} {store after : Store Key Blob ETag}
  {program : Prog (Request Key Blob ETag Tag Query) (Answer ε Reply) ε α} {outcome : Except ε α} {key : Key}
  {value : α} {error : ε} {next : α → Prog (Request Key Blob ETag Tag Query) (Answer ε Reply) ε β} {σ : Type}
  {state : σ} {condition : Prop} {result : Except ε β} {final : β → Store Key Blob ETag → Prop}
  {post : α → Store Key Blob ETag → Prop}

theorem Faultless.serves {request : Request Key Blob ETag Tag Query} {answer : Answer ε Reply request}
    (served : Faultless answers store request answer after) :
    Serves store request answer after := by
  match request, answer, served with
  | .get _ _, .ok _, served => exact served
  | .put _ _ _, .ok _, served => exact served
  | .put _ _ _, .error _, served => exact .inl served.2
  | .ask _, _, served => exact served.2

inductive Executes (answers : (query : Query) → Reply query → Prop) :
    Prog (Request Key Blob ETag Tag Query) (Answer ε Reply) ε α → Store Key Blob ETag →
      Except ε α → Store Key Blob ETag → Prop
  | done (value : α) (store : Store Key Blob ETag) :
      Executes answers (.done value) store (.ok value) store
  | fail (error : ε) (store : Store Key Blob ETag) :
      Executes answers (.fail error) store (.error error) store
  | call {request : Request Key Blob ETag Tag Query}
      {next : Answer ε Reply request →
        Prog (Request Key Blob ETag Tag Query) (Answer ε Reply) ε α}
      {answer : Answer ε Reply request} {store middle after : Store Key Blob ETag}
      {outcome : Except ε α} (served : Faultless answers store request answer middle)
      (rest : Executes answers (next answer) middle outcome after) :
      Executes answers (.call request next) store outcome after

theorem Executes.run {system : System Key Blob ETag Tag Query ε Reply Local Call Out}
    (unrestricted : ∀ store event, system.admits store event)
    {program : Prog (Request Key Blob ETag Tag Query) (Answer ε Reply) ε (Local × Except ε Out)}
    {outcome : Except ε (Local × Except ε Out)} (executes : Executes answers program store outcome after)
    {pool : Pool Key Blob ETag Tag Query ε Reply Local Call Out} {pid : Nat} {call : Call} {start : Local}
    {log : Log (Request Key Blob ETag Tag Query) (Answer ε Reply)} (here : pool.store = store)
    (busy : pool.clients pid = .busy call start program log) :
    ∃ last, Run system pool last ∧ last.store = after ∧
      (∃ later, last.clients pid = .busy call start (.ofExcept outcome) later) ∧
      ∀ other ≠ pid, last.clients other = pool.clients other := by
  induction executes generalizing pool log with
  | done value store => exact ⟨pool, .refl, here, ⟨log, busy⟩, fun _ _ => rfl⟩
  | fail error store => exact ⟨pool, .refl, here, ⟨log, busy⟩, fun _ _ => rfl⟩
  | @call request next answer store middle after outcome served rest ih =>
    subst here
    let stepped := Pool.setClient ⟨middle, pool.clients⟩ pid
      (.busy call start (next answer) (⟨request, answer⟩ :: log))
    have step : Step system pool stepped := .serve pid busy served.serves (unrestricted _ _)
    have still : stepped.clients pid =
        .busy call start (next answer) (⟨request, answer⟩ :: log) := by
      simp [stepped, Pool.setClient]
    obtain ⟨last, run, ends, finished, others⟩ := ih rfl still
    refine ⟨last, run.head step, ends, finished, ?_⟩
    intro other different
    rw [others other different]
    simp [stepped, Pool.setClient, different]

theorem Executes.grows (executes : Executes answers program store outcome after) : store.Grows after := by
  induction executes with
  | done value store => exact .refl store
  | fail error store => exact .refl store
  | call served rest ih => exact served.serves.grows.trans ih

theorem Executes.frame (executes : Executes answers program store outcome after)
    {rule : Log (Request Key Blob ETag Tag Query) (Answer ε Reply) → Request Key Blob ETag Tag Query → Prop}
    {post : α → Log (Request Key Blob ETag Tag Query) (Answer ε Reply) → Prop}
    {log : Log (Request Key Blob ETag Tag Query) (Answer ε Reply)} (obeys : Obeys rule post program log)
    (spares : ∀ later condition blob, ¬rule later (.put key condition blob)) :
    after.versions key = store.versions key := by
  induction executes generalizing log with
  | done value store => rfl
  | fail error store => rfl
  | @call request next answer store middle after outcome served rest ih =>
    rw [ih (obeys.2 answer)]
    match request, answer, served with
    | .get _ _, .ok _, served => rw [served.2]
    | .put other condition blob, .ok etag, served =>
      have different : key ≠ other := by
        rintro rfl
        exact spares log condition blob obeys.1
      exact served.versions_other different
    | .put _ _ _, .error _, served => rw [served.2]
    | .ask _, _, served => rw [served.2]

/-- Every execution of the program alone, from `store`, ends in `post`. -/
def Alone (answers : (query : Query) → Reply query → Prop)
    (post : Except ε α → Store Key Blob ETag → Prop) :
    Prog (Request Key Blob ETag Tag Query) (Answer ε Reply) ε α → Store Key Blob ETag → Prop
  | .done value, store => post (.ok value) store
  | .fail error, store => post (.error error) store
  | .call request next, store => ∀ answer after, Faultless answers store request answer after →
      Alone answers post (next answer) after

section
variable {post : Except ε α → Store Key Blob ETag → Prop}

theorem Alone.executes (alone : Alone answers post program store)
    (executes : Executes answers program store outcome after) : post outcome after := by
  induction executes with
  | done value store => exact alone
  | fail error store => exact alone
  | call served rest ih => exact ih (alone _ _ served)

theorem alone_of_executes
    (all : ∀ outcome after, Executes answers program store outcome after → post outcome after) :
    Alone answers post program store := by
  induction program generalizing store with
  | done value => exact all _ _ (.done value store)
  | fail error => exact all _ _ (.fail error store)
  | call request next ih =>
    intro answer middle served
    apply ih
    intro outcome after rest
    exact all outcome after (.call served rest)

theorem Alone.mono {weaker : Except ε α → Store Key Blob ETag → Prop}
    (alone : Alone answers post program store)
    (implies : ∀ outcome after, post outcome after → weaker outcome after) :
    Alone answers weaker program store :=
  alone_of_executes fun _ _ executes => implies _ _ (alone.executes executes)

theorem Alone.and {other : Except ε α → Store Key Blob ETag → Prop}
    (alone : Alone answers post program store) (also : Alone answers other program store) :
    Alone answers (fun outcome after => post outcome after ∧ other outcome after) program store :=
  alone_of_executes fun _ _ executes => ⟨alone.executes executes, also.executes executes⟩

@[simp] theorem alone_done :
    Alone answers post (.done value : Prog (Request Key Blob ETag Tag Query) (Answer ε Reply) ε α)
      store ↔ post (.ok value) store := Iff.rfl

@[simp] theorem alone_fail :
    Alone answers post (.fail error : Prog (Request Key Blob ETag Tag Query) (Answer ε Reply) ε α)
      store ↔ post (.error error) store := Iff.rfl

theorem alone_bind {post : Except ε β → Store Key Blob ETag → Prop} :
    Alone answers post (program >>= next) store ↔
      Alone answers (fun outcome after => match outcome with
        | .ok value => Alone answers post (next value) after
        | .error error => post (.error error) after) program store := by
  induction program generalizing store with
  | done value => rfl
  | fail error => rfl
  | call request rest ih =>
    constructor
    · intro alone answer middle served
      exact ih answer |>.mp (alone answer middle served)
    · intro alone answer middle served
      exact ih answer |>.mpr (alone answer middle served)

theorem alone_attempt {post : Except ε (Except ε α) → Store Key Blob ETag → Prop} :
    Alone answers post program.attempt store ↔
      Alone answers (fun outcome after => post (.ok outcome) after) program store := by
  induction program generalizing store with
  | done value => rfl
  | fail error => rfl
  | call request rest ih =>
    constructor
    · intro alone answer middle served
      exact ih answer |>.mp (alone answer middle served)
    · intro alone answer middle served
      exact ih answer |>.mpr (alone answer middle served)

@[simp] theorem alone_get {tag : Tag}
    {next : Except ε (Option (Version ETag (Blob key))) →
      Prog (Request Key Blob ETag Tag Query) (Answer ε Reply) ε α} :
    Alone answers post (.call (.get key tag) next) store ↔
      Alone answers post (next (.ok (store.current key))) store := by
  constructor
  · intro alone
    exact alone (.ok (store.current key)) store ⟨rfl, rfl⟩
  · intro alone answer middle served
    cases answer with
    | ok found =>
      obtain ⟨rfl, rfl⟩ := served
      exact alone
    | error error => exact served.elim

@[simp] theorem alone_put {condition : Condition ETag} {blob : Blob key}
    {next : Except ε ETag → Prog (Request Key Blob ETag Tag Query) (Answer ε Reply) ε α} :
    Alone answers post (.call (.put key condition blob) next) store ↔
      (store.Admits key condition → ∀ etag, store.Coherent key ⟨etag, blob⟩ →
        Alone answers post (next (.ok etag)) (store.write key ⟨etag, blob⟩)) ∧
      (¬store.Admits key condition → ∀ error, Alone answers post (next (.error error)) store) := by
  constructor
  · intro alone
    constructor
    · intro admits etag coherent
      exact alone (.ok etag) _ ⟨admits, coherent, rfl⟩
    · intro refused error
      exact alone (.error error) store ⟨refused, rfl⟩
  · rintro ⟨stored, refused⟩ answer middle served
    cases answer with
    | ok etag =>
      obtain ⟨admits, coherent, rfl⟩ := served
      exact stored admits etag coherent
    | error error =>
      obtain ⟨rejects, rfl⟩ := served
      exact refused rejects error

@[simp] theorem alone_ask {query : Query} {next : Reply query →
      Prog (Request Key Blob ETag Tag Query) (Answer ε Reply) ε α} :
    Alone answers post (.call (.ask query) next) store ↔
      ∀ reply, answers query reply → Alone answers post (next reply) store := by
  constructor
  · intro alone reply answered
    exact alone reply store ⟨answered, rfl⟩
  · rintro alone reply middle ⟨answered, rfl⟩
    exact alone reply answered

theorem Alone.bind {mid : Except ε α → Store Key Blob ETag → Prop}
    {post : Except ε β → Store Key Blob ETag → Prop} (first : Alone answers mid program store)
    (rest : ∀ value after, mid (.ok value) after → Alone answers post (next value) after)
    (stops : ∀ error after, mid (.error error) after → post (.error error) after) :
    Alone answers post (program >>= next) store := by
  rw [alone_bind]
  apply first.mono
  intro outcome after holds
  cases outcome with
  | ok value => exact rest value after holds
  | error error => exact stops error after holds

theorem Alone.orKeep {next : α → Prog (Request Key Blob ETag Tag Query) (Answer ε Reply) ε (σ × Except ε β)}
    {mid : Except ε α → Store Key Blob ETag → Prop}
    {post : Except ε (σ × Except ε β) → Store Key Blob ETag → Prop} (first : Alone answers mid program store)
    (rest : ∀ value after, mid (.ok value) after → Alone answers post (next value) after)
    (stops : ∀ error after, mid (.error error) after → post (.ok (state, .error error)) after) :
    Alone answers post (program.orKeep state next) store := by
  unfold Prog.orKeep
  rw [alone_bind, alone_attempt]
  apply first.mono
  intro outcome after holds
  cases outcome with
  | ok value => exact rest value after holds
  | error error => exact stops error after holds

theorem Alone.require_bind [Decidable condition]
    {next : Unit → Prog (Request Key Blob ETag Tag Query) (Answer ε Reply) ε α}
    (rest : condition → Alone answers post (next ()) store) (stops : ¬condition → post (.error error) store) :
    Alone answers post (Prog.require condition error >>= next) store := by
  unfold Prog.require
  split
  · exact rest ‹condition›
  · exact stops ‹¬condition›

theorem Alone.ofExcept_bind {next : β → Prog (Request Key Blob ETag Tag Query) (Answer ε Reply) ε α}
    (rest : ∀ value, result = .ok value → Alone answers post (next value) store)
    (stops : ∀ error, result = .error error → post (.error error) store) :
    Alone answers post (Prog.ofExcept result >>= next) store := by
  cases result with
  | ok value => exact rest value rfl
  | error error => exact stops error rfl

end

/-- Every execution of the program alone returns, with a value that satisfies `post`. -/
def Yields (answers : (query : Query) → Reply query → Prop)
    (post : α → Store Key Blob ETag → Prop)
    (program : Prog (Request Key Blob ETag Tag Query) (Answer ε Reply) ε α)
    (store : Store Key Blob ETag) : Prop :=
  Alone answers (fun outcome after => ∃ value, outcome = .ok value ∧ post value after) program store

namespace Yields

variable {post : α → Store Key Blob ETag → Prop}

theorem done (holds : post value store) :
    Yields answers post
      (.done value : Prog (Request Key Blob ETag Tag Query) (Answer ε Reply) ε α) store :=
  ⟨value, rfl, holds⟩

variable (yields : Yields answers post program store)

include yields in
theorem mono {weaker : α → Store Key Blob ETag → Prop}
    (implies : ∀ value after, post value after → weaker value after) :
    Yields answers weaker program store := by
  apply Alone.mono yields
  rintro _ after ⟨value, rfl, holds⟩
  exact ⟨value, rfl, implies value after holds⟩

include yields in
theorem bind_alone {final : Except ε β → Store Key Blob ETag → Prop}
    (rest : ∀ value after, post value after → Alone answers final (next value) after) :
    Alone answers final (program >>= next) store := by
  apply Alone.bind yields
  · rintro value after ⟨_, same, holds⟩
    cases same
    exact rest value after holds
  · rintro error after ⟨_, impossible, _⟩
    cases impossible

include yields in
theorem bind (rest : ∀ value after, post value after → Yields answers final (next value) after) :
    Yields answers final (program >>= next) store :=
  yields.bind_alone rest

include yields in
theorem attempt_alone {next : Except ε α → Prog (Request Key Blob ETag Tag Query) (Answer ε Reply) ε β}
    {final : Except ε β → Store Key Blob ETag → Prop}
    (rest : ∀ value after, post value after → Alone answers final (next (.ok value)) after) :
    Alone answers final (program.attempt >>= next) store := by
  rw [alone_bind, alone_attempt]
  apply Alone.mono yields
  rintro _ after ⟨value, rfl, holds⟩
  exact rest value after holds

include yields in
theorem attempt {next : Except ε α → Prog (Request Key Blob ETag Tag Query) (Answer ε Reply) ε β}
    (rest : ∀ value after, post value after → Yields answers final (next (.ok value)) after) :
    Yields answers final (program.attempt >>= next) store :=
  yields.attempt_alone rest

include yields in
theorem orKeep {next : α → Prog (Request Key Blob ETag Tag Query) (Answer ε Reply) ε (σ × Except ε β)}
    {final : σ × Except ε β → Store Key Blob ETag → Prop}
    (rest : ∀ value after, post value after → Yields answers final (next value) after) :
    Yields answers final (program.orKeep state next) store :=
  yields.attempt rest

theorem orKeep_caught {next : α → Prog (Request Key Blob ETag Tag Query) (Answer ε Reply) ε (σ × Except ε β)}
    (rest : ∀ value after, Yields answers (fun _ _ => True) (next value) after) :
    Yields answers (fun _ _ => True) (program.orKeep state next) store := by
  have any : Alone answers (fun _ _ => True) program store :=
    alone_of_executes fun _ _ _ => trivial
  apply any.orKeep
  · exact fun value after _ => rest value after
  · exact fun error after _ => ⟨_, rfl, trivial⟩

theorem require_bind [Decidable condition]
    {next : Unit → Prog (Request Key Blob ETag Tag Query) (Answer ε Reply) ε α} (holds : condition)
    (rest : Yields answers post (next ()) store) :
    Yields answers post (Prog.require condition error >>= next) store := by
  rw [Prog.require_true holds, Prog.bind_done]
  exact rest

theorem ofExcept_bind {value : β} {next : β → Prog (Request Key Blob ETag Tag Query) (Answer ε Reply) ε α}
    (success : result = .ok value) (rest : Yields answers post (next value) store) :
    Yields answers post (Prog.ofExcept result >>= next) store := by
  rw [success, Prog.ofExcept_ok, Prog.bind_done]
  exact rest

end Yields

/-- What the program returns, if it returns when alone, satisfies `post`. -/
def Ensures (answers : (query : Query) → Reply query → Prop)
    (post : α → Store Key Blob ETag → Prop)
    (program : Prog (Request Key Blob ETag Tag Query) (Answer ε Reply) ε α)
    (store : Store Key Blob ETag) : Prop :=
  Alone answers (fun outcome after => ∀ value, outcome = .ok value → post value after) program store

namespace Ensures

variable {post : α → Store Key Blob ETag → Prop}

theorem done (holds : post value store) :
    Ensures answers post
      (.done value : Prog (Request Key Blob ETag Tag Query) (Answer ε Reply) ε α) store := by
  rintro _ ⟨rfl⟩
  exact holds

theorem fail : Ensures answers post
    (.fail error : Prog (Request Key Blob ETag Tag Query) (Answer ε Reply) ε α) store := by
  rintro _ ⟨⟩

theorem mono {weaker : α → Store Key Blob ETag → Prop} (ensures : Ensures answers post program store)
    (implies : ∀ value after, post value after → weaker value after) :
    Ensures answers weaker program store := by
  apply Alone.mono ensures
  intro outcome after holds value same
  exact implies value after (holds value same)

theorem bind (ensures : Ensures answers post program store)
    (rest : ∀ value after, post value after → Ensures answers final (next value) after) :
    Ensures answers final (program >>= next) store := by
  apply Alone.bind ensures
  · intro value after holds
    exact rest value after (holds value rfl)
  · rintro error after _ value ⟨⟩

theorem attempt {next : Except ε α → Prog (Request Key Blob ETag Tag Query) (Answer ε Reply) ε β}
    (ensures : Ensures answers post program store)
    (rest : ∀ value after, post value after → Ensures answers final (next (.ok value)) after)
    (handler : ∀ error after, Ensures answers final (next (.error error)) after) :
    Ensures answers final (program.attempt >>= next) store := by
  unfold Ensures
  rw [alone_bind, alone_attempt]
  apply Alone.mono ensures
  intro outcome after holds
  cases outcome with
  | ok value => exact rest value after (holds value rfl)
  | error error => exact handler error after

theorem orKeep {next : α → Prog (Request Key Blob ETag Tag Query) (Answer ε Reply) ε (σ × Except ε β)}
    {final : σ × Except ε β → Store Key Blob ETag → Prop} (ensures : Ensures answers post program store)
    (kept : ∀ error after, final (state, .error error) after)
    (rest : ∀ value after, post value after → Ensures answers final (next value) after) :
    Ensures answers final (program.orKeep state next) store :=
  ensures.attempt rest fun error after => done (kept error after)

theorem require_bind [Decidable condition]
    {next : Unit → Prog (Request Key Blob ETag Tag Query) (Answer ε Reply) ε α}
    (rest : condition → Ensures answers post (next ()) store) :
    Ensures answers post (Prog.require condition error >>= next) store := by
  apply Alone.require_bind rest
  rintro _ value ⟨⟩

theorem ofExcept_bind {next : β → Prog (Request Key Blob ETag Tag Query) (Answer ε Reply) ε α}
    (rest : ∀ value, result = .ok value → Ensures answers post (next value) store) :
    Ensures answers post (Prog.ofExcept result >>= next) store := by
  apply Alone.ofExcept_bind rest
  rintro error _ value ⟨⟩

end Ensures

theorem Yields.ensures (yields : Yields answers post program store) :
    Ensures answers post program store := by
  apply Alone.mono yields
  rintro _ after ⟨value, rfl, holds⟩ _ ⟨rfl⟩
  exact holds

theorem Yields.ensured {ensured : α → Store Key Blob ETag → Prop} (yields : Yields answers post program store)
    (ensures : Ensures answers ensured program store) :
    Yields answers (fun value after => post value after ∧ ensured value after) program store := by
  apply (Alone.and yields ensures).mono
  rintro outcome after ⟨⟨value, same, holds⟩, rest⟩
  exact ⟨value, same, holds, rest value same⟩

theorem Yields.grows (yields : Yields answers post program store) :
    Yields answers (fun value after => post value after ∧ store.Grows after) program store := by
  apply alone_of_executes
  intro outcome after executes
  obtain ⟨value, same, holds⟩ := Alone.executes yields executes
  exact ⟨value, same, holds, executes.grows⟩

def Reads (answers : (query : Query) → Reply query → Prop) (value : α)
    (program : Prog (Request Key Blob ETag Tag Query) (Answer ε Reply) ε α)
    (store : Store Key Blob ETag) : Prop :=
  Yields answers (fun found after => found = value ∧ after = store) program store

namespace Reads

theorem done : Reads answers value
    (.done value : Prog (Request Key Blob ETag Tag Query) (Answer ε Reply) ε α) store :=
  Yields.done ⟨rfl, rfl⟩

theorem bind_alone {final : Except ε β → Store Key Blob ETag → Prop} (reads : Reads answers value program store)
    (rest : Alone answers final (next value) store) :
    Alone answers final (program >>= next) store := by
  apply Yields.bind_alone reads
  rintro _ _ ⟨rfl, rfl⟩
  exact rest

theorem bind (reads : Reads answers value program store) (rest : Yields answers final (next value) store) :
    Yields answers final (program >>= next) store :=
  reads.bind_alone rest

theorem attempt_alone {next : Except ε α → Prog (Request Key Blob ETag Tag Query) (Answer ε Reply) ε β}
    {final : Except ε β → Store Key Blob ETag → Prop} (reads : Reads answers value program store)
    (rest : Alone answers final (next (.ok value)) store) :
    Alone answers final (program.attempt >>= next) store := by
  apply Yields.attempt_alone reads
  rintro _ _ ⟨rfl, rfl⟩
  exact rest

end Reads

section
variable [DecidableEq ETag]

def Service.execute (service : Service ETag ε Query Reply) :
    Prog (Request Key Blob ETag Tag Query) (Answer ε Reply) ε α → Store Key Blob ETag →
      Option (Except ε α × Store Key Blob ETag)
  | .done value, store => some (.ok value, store)
  | .fail error, store => some (.error error, store)
  | .call (.get key _) next, store => service.execute (next (.ok (store.current key))) store
  | .call (.put key condition blob) next, store =>
    let tag := service.tag (store.versions key).length
    if store.Admits key condition then
      if ∀ old ∈ store.versions key, old.etag ≠ tag then
        service.execute (next (.ok tag)) (store.write key ⟨tag, blob⟩)
      else
        none
    else
      service.execute (next (.error service.refusal)) store
  | .call (.ask query) next, store => service.execute (next (service.reply query)) store

theorem Service.execute_executes (service : Service ETag ε Query Reply)
    (answered : ∀ query, answers query (service.reply query))
    (success : service.execute program store = some (outcome, after)) :
    Executes answers program store outcome after := by
  induction program generalizing store with
  | done value =>
    simp only [execute, Option.some.injEq, Prod.mk.injEq] at success
    obtain ⟨rfl, rfl⟩ := success
    exact .done value _
  | fail error =>
    simp only [execute, Option.some.injEq, Prod.mk.injEq] at success
    obtain ⟨rfl, rfl⟩ := success
    exact .fail error _
  | call request next ih =>
    cases request with
    | get key tag =>
      have served : Faultless answers store
          (.get key tag : Request Key Blob ETag Tag Query)
          (.ok (store.current key) : Except ε _) store := ⟨rfl, rfl⟩
      exact .call served (ih _ success)
    | put key condition blob =>
      simp only [execute] at success
      split at success
      · rename_i admits
        split at success
        · rename_i fresh
          let tag := service.tag (store.versions key).length
          have served : Faultless answers store
              (.put key condition blob : Request Key Blob ETag Tag Query)
              (.ok tag : Except ε ETag) (store.write key ⟨tag, blob⟩) :=
            ⟨admits, fun old member same => absurd same (fresh old member), rfl⟩
          exact .call served (ih _ success)
        · cases success
      · rename_i refused
        have served : Faultless answers store
            (.put key condition blob : Request Key Blob ETag Tag Query)
            (.error service.refusal : Except ε ETag) store := ⟨refused, rfl⟩
        exact .call served (ih _ success)
    | ask query =>
      have served : @Faultless Key Blob ETag Tag Query ε Reply _ answers store (.ask query)
          (service.reply query) store := ⟨answered query, rfl⟩
      exact .call served (ih _ success)

end

/-- The value of a program that only reads and only asks what has a certain reply. -/
def Service.evaluate (service : Service ETag ε Query Reply) (certain : Query → Bool) :
    Prog (Request Key Blob ETag Tag Query) (Answer ε Reply) ε α → Store Key Blob ETag → Option α
  | .done value, _ => some value
  | .fail _, _ => none
  | .call (.get key _) next, store => service.evaluate certain (next (.ok (store.current key))) store
  | .call (.put _ _ _) _, _ => none
  | .call (.ask query) next, store =>
    if certain query then service.evaluate certain (next (service.reply query)) store else none

theorem Service.evaluate_reads (service : Service ETag ε Query Reply) {certain : Query → Bool}
    (only : ∀ query, certain query = true → ∀ reply, answers query reply → reply = service.reply query)
    (success : service.evaluate certain program store = some value) :
    Reads answers value program store := by
  induction program with
  | done result =>
    cases success
    exact Reads.done
  | fail error => cases success
  | call request next ih =>
    unfold Reads Yields at ih ⊢
    cases request with
    | get key tag =>
      rw [alone_get]
      exact ih _ success
    | put key condition blob => cases success
    | ask query =>
      rw [evaluate] at success
      split at success
      · rename_i sure
        rw [alone_ask]
        intro reply answered
        rw [only query sure reply answered]
        exact ih _ success
      · cases success

/-- The program, having seen `log`, starts in one pool and ends in another with an outcome
and all it has seen. -/
inductive Watches (system : System Key Blob ETag Tag Query ε Reply Local Call Out) :
    Prog (Request Key Blob ETag Tag Query) (Answer ε Reply) ε α →
      Log (Request Key Blob ETag Tag Query) (Answer ε Reply) →
      Pool Key Blob ETag Tag Query ε Reply Local Call Out → Except ε α →
      Log (Request Key Blob ETag Tag Query) (Answer ε Reply) →
      Pool Key Blob ETag Tag Query ε Reply Local Call Out → Prop
  | done (value : α) (log) {pool last} (run : Run system pool last) :
      Watches system (.done value) log pool (.ok value) log last
  | fail (error : ε) (log) {pool last} (run : Run system pool last) :
      Watches system (.fail error) log pool (.error error) log last
  | call {request next log pool seen last answer outcome later} (run : Run system pool seen)
      (served : Serves seen.store request answer seen.store)
      (rest : Watches system (next answer) (⟨request, answer⟩ :: log) seen outcome later last) :
      Watches system (.call request next) log pool outcome later last

variable {system : System Key Blob ETag Tag Query ε Reply Local Call Out}
variable {log later : Log (Request Key Blob ETag Tag Query) (Answer ε Reply)}
variable {pool last : Pool Key Blob ETag Tag Query ε Reply Local Call Out}

theorem Watches.run (watches : Watches system program log pool outcome later last) :
    Run system pool last := by
  induction watches with
  | done _ _ run => exact run
  | fail _ _ run => exact run
  | call run _ _ ih => exact run.trans ih

theorem Watches.obeys {rule : Log (Request Key Blob ETag Tag Query) (Answer ε Reply) →
      Request Key Blob ETag Tag Query → Prop}
    {post : α → Log (Request Key Blob ETag Tag Query) (Answer ε Reply) → Prop}
    (watches : Watches system program log pool outcome later last)
    (obeys : Obeys rule post program log) (returned : outcome = .ok value) : post value later := by
  induction watches with
  | done _ _ _ =>
    cases returned
    exact obeys
  | fail _ _ _ => cases returned
  | call _ _ _ ih => exact ih (obeys.2 _) returned

theorem Watches.moment {event : Event (Request Key Blob ETag Tag Query) (Answer ε Reply)}
    (watches : Watches system program log pool outcome later last) (member : event ∈ later) :
    event ∈ log ∨ ∃ seen, Run system pool seen ∧ Run system seen last ∧
      Serves seen.store event.request event.answer seen.store := by
  induction watches with
  | done _ _ _ => exact .inl member
  | fail _ _ _ => exact .inl member
  | @call request next log pool seen last answer outcome later run served rest ih =>
    rcases ih member with known | ⟨moment, before, after, here⟩
    · rcases List.mem_cons.mp known with rfl | older
      · exact .inr ⟨seen, run, rest.run, served⟩
      · exact .inl older
    · exact .inr ⟨moment, run.trans before, after, here⟩

theorem Watches.traced (watches : Watches system program [] pool outcome later last) :
    Traced (fun _ _ => True) last.store later := by
  intro event member
  rcases watches.moment member with impossible | ⟨seen, _, after, served⟩
  · cases impossible
  · exact ⟨seen.store, seen.store, served, trivial, .refl _, after.grows⟩

theorem Service.evaluate_watches (service : Service ETag ε Query Reply) {certain : Query → Bool}
    (success : service.evaluate certain program pool.store = some value)
    (log : Log (Request Key Blob ETag Tag Query) (Answer ε Reply)) :
    ∃ later, Watches system program log pool (.ok value) later pool := by
  induction program generalizing log with
  | done result =>
    cases success
    exact ⟨log, .done value log .refl⟩
  | fail error => cases success
  | call request next ih =>
    cases request with
    | get key tag =>
      obtain ⟨later, rest⟩ := ih _ success (⟨.get key tag, .ok (pool.store.current key)⟩ :: log)
      have served : @Serves Key Blob ETag Tag Query ε Reply _ pool.store (.get key tag)
          (.ok (pool.store.current key)) pool.store := ⟨rfl, rfl⟩
      exact ⟨later, .call .refl served rest⟩
    | put key condition blob => cases success
    | ask query =>
      rw [evaluate] at success
      split at success
      · obtain ⟨later, rest⟩ := ih _ success (⟨.ask query, service.reply query⟩ :: log)
        exact ⟨later, .call .refl rfl rest⟩
      · cases success

end RusqDoltlite.Effects

import RusqDoltlite.Effects.ObjectStore
import Mathlib.Logic.Relation

/-! Any number of clients of one object store, interleaved request by request. A client that is never
scheduled again has crashed; its last request may or may not have taken effect. A scheduler that can
be evaluated drives the clients in a given order against a store that answers every request without
a fault; what it reaches is reached by a run. -/

namespace RusqDoltlite.Effects

variable {Key : Type} {Blob : Key → Type} {ETag Tag Query ε : Type} {Reply : Query → Type}
variable {Local Call Out : Type}

section
variable (Key Blob ETag Tag Query ε Reply Local Call Out)

/-- A client between calls, or inside one: with the state the call started in, what is
left of its program, and what the call has seen so far. -/
inductive Client where
  | idle (state : Local)
  | busy (call : Call) (start : Local)
      (program : Prog (Request Key Blob ETag Tag Query) (Answer ε Reply) ε (Local × Except ε Out))
      (log : Log (Request Key Blob ETag Tag Query) (Answer ε Reply))

structure Pool where
  store : Store Key Blob ETag
  clients : Nat → Client Key Blob ETag Tag Query ε Reply Local Call Out

/-- What the clients run, and which calls and which served requests a run is
restricted to. -/
structure System where
  body : Call → Local →
    Prog (Request Key Blob ETag Tag Query) (Answer ε Reply) ε (Local × Except ε Out)
  starts : Local → Call → Prop
  admits : Store Key Blob ETag → Event (Request Key Blob ETag Tag Query) (Answer ε Reply) → Prop

end

def Pool.setClient (pool : Pool Key Blob ETag Tag Query ε Reply Local Call Out) (pid : Nat)
    (client : Client Key Blob ETag Tag Query ε Reply Local Call Out) :
    Pool Key Blob ETag Tag Query ε Reply Local Call Out :=
  { pool with clients := Function.update pool.clients pid client }

@[simp] theorem Pool.setClient_self (pool : Pool Key Blob ETag Tag Query ε Reply Local Call Out) (pid : Nat)
    (client : Client Key Blob ETag Tag Query ε Reply Local Call Out) :
    (pool.setClient pid client).clients pid = client :=
  Function.update_self ..

@[simp] theorem Pool.setClient_other (pool : Pool Key Blob ETag Tag Query ε Reply Local Call Out) {pid other : Nat}
    (apart : other ≠ pid) (client : Client Key Blob ETag Tag Query ε Reply Local Call Out) :
    (pool.setClient pid client).clients other = pool.clients other :=
  Function.update_of_ne apart ..

variable [DecidableEq Key]

inductive Step (system : System Key Blob ETag Tag Query ε Reply Local Call Out) :
    Pool Key Blob ETag Tag Query ε Reply Local Call Out →
      Pool Key Blob ETag Tag Query ε Reply Local Call Out → Prop
  | start {pool} (pid : Nat) {state} (call : Call) (idle : pool.clients pid = .idle state)
      (starts : system.starts state call) :
      Step system pool (pool.setClient pid (.busy call state (system.body call state) []))
  | serve {pool} (pid : Nat) {call start request next log answer after}
      (busy : pool.clients pid = .busy call start (.call request next) log)
      (served : Serves pool.store request answer after)
      (admits : system.admits pool.store ⟨request, answer⟩) :
      Step system pool (Pool.setClient ⟨after, pool.clients⟩ pid
        (.busy call start (next answer) (⟨request, answer⟩ :: log)))
  | finish {pool} (pid : Nat) {call start state outcome log}
      (busy : pool.clients pid = .busy call start (.done (state, outcome)) log) :
      Step system pool (pool.setClient pid (.idle state))
  | abort {pool} (pid : Nat) {call start error log}
      (busy : pool.clients pid = .busy call start (.fail error) log) :
      Step system pool (pool.setClient pid (.idle start))

abbrev Run (system : System Key Blob ETag Tag Query ε Reply Local Call Out) :=
  Relation.ReflTransGen (Step system)

variable {system : System Key Blob ETag Tag Query ε Reply Local Call Out}
  {pool next last : Pool Key Blob ETag Tag Query ε Reply Local Call Out}

theorem Run.weaken {weaker : System Key Blob ETag Tag Query ε Reply Local Call Out}
    (run : Run system pool last) (body : weaker.body = system.body)
    (starts : ∀ state call, system.starts state call → weaker.starts state call)
    (admits : ∀ store event, system.admits store event → weaker.admits store event) :
    Run weaker pool last := by
  induction run with
  | refl => exact .refl
  | tail _ step ih =>
    refine ih.tail ?_
    cases step with
    | start pid call idle allowed =>
      rw [← body]
      exact .start pid call idle (starts _ _ allowed)
    | serve pid busy served allowed => exact .serve pid busy served (admits _ _ allowed)
    | finish pid busy => exact .finish pid busy
    | abort pid busy => exact .abort pid busy

theorem Step.grows (step : Step system pool next) : pool.store.Grows next.store := by
  cases step with
  | start pid call idle starts => exact .refl _
  | serve pid busy served admits => exact served.grows
  | finish pid busy => exact .refl _
  | abort pid busy => exact .refl _

theorem Run.grows (run : Run system pool last) : pool.store.Grows last.store := by
  induction run with
  | refl => exact .refl _
  | tail _ step ih => exact ih.trans step.grows

/-- A proof that a system keeps an invariant of its store: what each request of a call
satisfies (`rule`) and what a call has established when it returns (`post`), both judged
from the call's own log; and that requests satisfying the rule keep `inv`. -/
structure Certificate (system : System Key Blob ETag Tag Query ε Reply Local Call Out) where
  inv : Store Key Blob ETag → Prop
  rule : Call → Local → Log (Request Key Blob ETag Tag Query) (Answer ε Reply) →
    Request Key Blob ETag Tag Query → Prop
  post : Call → Local → Local × Except ε Out →
    Log (Request Key Blob ETag Tag Query) (Answer ε Reply) → Prop
  body_obeys : ∀ {call state}, system.starts state call →
    Obeys (rule call state) (post call state) (system.body call state) []
  step_inv : ∀ {call state store log request answer after}, inv store →
    Traced system.admits store log → rule call state log request →
      Serves store request answer after → system.admits store ⟨request, answer⟩ → inv after

namespace Certificate

def Good (cert : Certificate system) (store : Store Key Blob ETag) :
    Client Key Blob ETag Tag Query ε Reply Local Call Out → Prop
  | .idle _ => True
  | .busy call start program log => Traced system.admits store log ∧
      Obeys (cert.rule call start) (cert.post call start) program log

structure Holds (cert : Certificate system)
    (pool : Pool Key Blob ETag Tag Query ε Reply Local Call Out) : Prop where
  inv : cert.inv pool.store
  good : ∀ pid, cert.Good pool.store (pool.clients pid)

variable {cert : Certificate system}

theorem Good.grow {store after : Store Key Blob ETag}
    {client : Client Key Blob ETag Tag Query ε Reply Local Call Out} (good : cert.Good store client)
    (grows : store.Grows after) : cert.Good after client := by
  cases client with
  | idle state => trivial
  | busy call start program log => exact ⟨good.1.grow grows, good.2⟩

theorem Holds.setClient (holds : cert.Holds pool) {pid : Nat}
    {client : Client Key Blob ETag Tag Query ε Reply Local Call Out} (good : cert.Good pool.store client) :
    cert.Holds (pool.setClient pid client) := by
  refine ⟨holds.inv, fun other => ?_⟩
  by_cases same : other = pid
  · subst same
    simpa [Pool.setClient] using good
  · simpa [Pool.setClient, same] using holds.good other

theorem Holds.step (holds : cert.Holds pool)
    (step : Step system pool next) : cert.Holds next := by
  cases step with
  | start pid call idle starts => exact holds.setClient ⟨.nil, cert.body_obeys starts⟩
  | @serve pid call start request continuation log answer after busy served admits =>
    have good := holds.good pid
    rw [busy] at good
    obtain ⟨traced, allowed, rest⟩ := good
    have inv := cert.step_inv holds.inv traced allowed served admits
    have others : cert.Holds ⟨after, pool.clients⟩ :=
      ⟨inv, fun other => (holds.good other).grow served.grows⟩
    exact others.setClient ⟨traced.step served admits, rest answer⟩
  | finish pid busy => exact holds.setClient trivial
  | abort pid busy => exact holds.setClient trivial

theorem Holds.writes (holds : cert.Holds pool)
    (step : Step system pool next) :
    next.store = pool.store ∨ ∃ pid call start program log key condition version,
      pool.clients pid = .busy call start program log ∧
      (∀ other, next.clients other ≠ pool.clients other ↔ other = pid) ∧
      cert.rule call start log (.put key condition version.blob) ∧
      pool.store.Writes key condition version next.store := by
  cases step with
  | start pid call idle starts => exact .inl rfl
  | @serve pid call start request continuation log answer after busy served admits =>
    have good := holds.good pid
    rw [busy] at good
    obtain ⟨_, allowed, _⟩ := good
    rcases served.inversion with same | ⟨key, condition, version, rfl, writes⟩
    · exact .inl same
    right
    refine ⟨pid, call, start, _, log, key, condition, version, busy, ?_, allowed, writes⟩
    intro other
    by_cases same : other = pid
    · subst same
      simp [busy]
    · simp [same]
  | finish pid busy => exact .inl rfl
  | abort pid busy => exact .inl rfl

theorem Holds.run (holds : cert.Holds pool)
    (run : Run system pool last) : cert.Holds last := by
  induction run with
  | refl => exact holds
  | tail _ step ih => exact ih.step step

end Certificate

/-- What a client is about to request in a run, its call issues. -/
theorem busy_issues {first : Pool Key Blob ETag Tag Query ε Reply Local Call Out}
    (idle : ∀ pid, ∃ state, first.clients pid = .idle state) (run : Run system first pool) {pid : Nat}
    {call : Call} {start : Local} {request : Request Key Blob ETag Tag Query}
    {continuation} {log : Log (Request Key Blob ETag Tag Query) (Answer ε Reply)}
    (busy : pool.clients pid = .busy call start (.call request continuation) log) :
    Issues (system.body call start) [] request log := by
  let issued : Certificate system :=
    { inv := fun _ => True
      rule := fun call start log request => Issues (system.body call start) [] request log
      post := fun _ _ _ _ => True
      body_obeys := fun _ => obeys_issues _ _
      step_inv := fun _ _ _ _ _ => trivial }
  have begun : issued.Holds first := by
    refine ⟨trivial, fun pid => ?_⟩
    obtain ⟨state, here⟩ := idle pid
    rw [here]
    trivial
  have good := (begun.run run).good pid
  rw [busy] at good
  exact good.2.1

structure Service (ETag ε Query : Type) (Reply : Query → Type) where
  tag : Nat → ETag
  refusal : ε
  reply : (query : Query) → Reply query

inductive Action (Call : Type) where
  | start (pid : Nat) (call : Call)
  /-- At most `count` requests of the client. -/
  | serve (pid count : Nat)
  | finish (pid : Nat)

variable [DecidableEq ETag]

def Service.answer (service : Service ETag ε Query Reply) (store : Store Key Blob ETag) :
    (request : Request Key Blob ETag Tag Query) →
      Answer ε Reply request × Store Key Blob ETag
  | .get key _ => (.ok (store.current key), store)
  | .put key condition blob =>
    let tag := service.tag (store.versions key).length
    if store.Admits key condition ∧ ∀ old ∈ store.versions key, old.etag ≠ tag then
      (.ok tag, store.write key ⟨tag, blob⟩)
    else
      (.error service.refusal, store)
  | .ask query => (service.reply query, store)

theorem Service.answer_serves (service : Service ETag ε Query Reply)
    (store : Store Key Blob ETag) (request : Request Key Blob ETag Tag Query) :
    Serves store request (service.answer store request).1 (service.answer store request).2 := by
  cases request with
  | get key tag => exact ⟨rfl, rfl⟩
  | put key condition blob =>
    unfold answer
    dsimp only
    split
    · rename_i allowed
      exact ⟨allowed.1, fun old member same => absurd same (allowed.2 old member), rfl⟩
    · exact .inl rfl
  | ask query => rfl

section
variable (system : System Key Blob ETag Tag Query ε Reply Local Call Out)
variable [∀ state call, Decidable (system.starts state call)]
variable [∀ store event, Decidable (system.admits store event)]
variable (service : Service ETag ε Query Reply)

def serveClient (pid : Nat) : Nat →
    Pool Key Blob ETag Tag Query ε Reply Local Call Out × List Key →
      Option (Pool Key Blob ETag Tag Query ε Reply Local Call Out × List Key)
  | 0, state => some state
  | count + 1, (pool, written) =>
    match pool.clients pid with
    | .busy call start (.call request next) log =>
      let served := service.answer pool.store request
      if system.admits pool.store ⟨request, served.1⟩ then
        serveClient pid count
          (Pool.setClient ⟨served.2, pool.clients⟩ pid
            (.busy call start (next served.1) (⟨request, served.1⟩ :: log)),
          match request with
          | .put key _ _ => key :: written
          | _ => written)
      else
        none
    | _ => some (pool, written)

def act (state : Pool Key Blob ETag Tag Query ε Reply Local Call Out × List Key) :
    Action Call → Option (Pool Key Blob ETag Tag Query ε Reply Local Call Out × List Key)
  | .start pid call =>
    match state.1.clients pid with
    | .idle container =>
      if system.starts container call then
        some (state.1.setClient pid (.busy call container (system.body call container) []),
          state.2)
      else
        none
    | _ => none
  | .serve pid count => serveClient system service pid count state
  | .finish pid =>
    match state.1.clients pid with
    | .busy _ _ (.done (container, _)) _ => some (state.1.setClient pid (.idle container), state.2)
    | _ => none

def schedule (actions : List (Action Call))
    (state : Pool Key Blob ETag Tag Query ε Reply Local Call Out × List Key) :
    Option (Pool Key Blob ETag Tag Query ε Reply Local Call Out × List Key) :=
  match actions with
  | [] => some state
  | action :: rest => (act system service state action).bind (schedule rest)

end

def Drives (system : System Key Blob ETag Tag Query ε Reply Local Call Out)
    (state last : Pool Key Blob ETag Tag Query ε Reply Local Call Out × List Key) : Prop :=
  Run system state.1 last.1 ∧ state.2 ⊆ last.2 ∧
    ∀ key ∉ last.2, last.1.store.versions key = state.1.store.versions key

namespace Drives

variable {state middle last : Pool Key Blob ETag Tag Query ε Reply Local Call Out × List Key}

omit [DecidableEq ETag] in
theorem refl (state : Pool Key Blob ETag Tag Query ε Reply Local Call Out × List Key) :
    Drives system state state :=
  ⟨.refl, List.Subset.refl _, fun _ _ => rfl⟩

omit [DecidableEq ETag] in
theorem trans (first : Drives system state middle) (second : Drives system middle last) :
    Drives system state last := by
  refine ⟨first.1.trans second.1, List.Subset.trans first.2.1 second.2.1, fun key fresh => ?_⟩
  rw [second.2.2 key fresh, first.2.2 key fun member => fresh (second.2.1 member)]

omit [DecidableEq ETag] in
theorem local_step (step : Step system state.1 middle.1) (store : middle.1.store = state.1.store)
    (written : middle.2 = state.2) : Drives system state middle :=
  ⟨.single step, written ▸ List.Subset.refl _, fun _ _ => by rw [store]⟩

end Drives

section
variable [∀ state call, Decidable (system.starts state call)]
variable [∀ store event, Decidable (system.admits store event)]
variable {service : Service ETag ε Query Reply}
variable {state last : Pool Key Blob ETag Tag Query ε Reply Local Call Out × List Key}

omit [∀ state call, Decidable (system.starts state call)] in
theorem serveClient_drives {pid count : Nat}
    (success : serveClient system service pid count state = some last) :
    Drives system state last := by
  induction count generalizing state with
  | zero =>
    cases success
    exact .refl _
  | succ count ih =>
    obtain ⟨pool, written⟩ := state
    unfold serveClient at success
    split at success
    · rename_i call start request next log busy
      dsimp only at success
      split at success
      · rename_i admits
        refine Drives.trans ?_ (ih success)
        have served := service.answer_serves pool.store request
        refine ⟨.single (.serve pid busy served admits), ?_, ?_⟩
        · dsimp only
          split <;> simp
        · intro key fresh
          rcases served.inversion with same | ⟨wrote, condition, version, rfl, writes⟩
          · show (service.answer pool.store request).2.versions key = _
            rw [same]
          · exact writes.versions_other fun same => fresh (same ▸ List.mem_cons_self)
      · cases success
    · cases success
      exact .refl _

theorem act_drives {action : Action Call} (success : act system service state action = some last) :
    Drives system state last := by
  cases action with
  | start pid call =>
    unfold act at success
    dsimp only at success
    split at success
    · rename_i container idle
      split at success
      · rename_i starts
        cases success
        exact .local_step (.start pid call idle starts) rfl rfl
      · cases success
    · cases success
  | serve pid count => exact serveClient_drives success
  | finish pid =>
    unfold act at success
    dsimp only at success
    split at success
    · rename_i busy
      cases success
      exact .local_step (.finish pid busy) rfl rfl
    · cases success

theorem schedule_drives {actions : List (Action Call)}
    (success : schedule system service actions state = some last) : Drives system state last := by
  induction actions generalizing state with
  | nil =>
    cases success
    exact .refl _
  | cons action rest ih =>
    obtain ⟨middle, first, second⟩ := Option.bind_eq_some_iff.mp success
    exact (act_drives first).trans (ih second)

/-- What a check finds at the end of a schedule is found at the end of a run. -/
theorem schedule_reaches (check : Pool Key Blob ETag Tag Query ε Reply Local Call Out → List Key → Bool)
    {actions : List (Action Call)}
    (checked : (schedule system service actions (pool, [])).any (fun last => check last.1 last.2) =
      true) :
    ∃ last written, Run system pool last ∧
      (∀ key ∉ written, last.store.versions key = pool.store.versions key) ∧
      check last written = true := by
  obtain ⟨⟨last, written⟩, success, holds⟩ := (Option.any_eq_true _ _).mp checked
  obtain ⟨run, _, frame⟩ := schedule_drives success
  exact ⟨last, written, run, frame, holds⟩

theorem schedule_continues {check : Pool Key Blob ETag Tag Query ε Reply Local Call Out × List Key →
      Pool Key Blob ETag Tag Query ε Reply Local Call Out × List Key → Bool}
    {before actions : List (Action Call)}
    (checked : (schedule system service before (pool, [])).any (fun middle =>
      (schedule system service actions middle).any (check middle)) = true) :
    ∃ middle last, Run system pool middle.1 ∧ Run system middle.1 last.1 ∧ check middle last = true := by
  obtain ⟨middle, first, checked⟩ := (Option.any_eq_true _ _).mp checked
  obtain ⟨last, second, holds⟩ := (Option.any_eq_true _ _).mp checked
  exact ⟨middle, last, (schedule_drives first).1, (schedule_drives second).1, holds⟩

end

end RusqDoltlite.Effects

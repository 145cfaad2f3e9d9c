import Mathlib.Logic.Basic

/-! Programs that talk to a service by typed requests, and what a program may do, judged from its own
log alone. A program is its own control flow: it either returns, fails, or issues one request and
continues with whatever the service answers. The log holds every request the program has issued with
the answer it got, newest first. -/

namespace RusqDoltlite.Effects

inductive Prog (Req : Type) (Resp : Req → Type) (ε α : Type) where
  | done (value : α)
  | fail (error : ε)
  | call (request : Req) (next : Resp request → Prog Req Resp ε α)

namespace Prog

variable {Req : Type} {Resp : Req → Type} {ε α β γ : Type}

def bind (program : Prog Req Resp ε α) (next : α → Prog Req Resp ε β) : Prog Req Resp ε β :=
  match program with
  | .done value => next value
  | .fail error => .fail error
  | .call request rest => .call request (fun answer => (rest answer).bind next)

instance : Monad (Prog Req Resp ε) where
  pure := .done
  bind := bind

/-- Runs a program and hands its failure to the caller as a value, as a C caller
that keeps the return code and goes on does. -/
def attempt (program : Prog Req Resp ε α) : Prog Req Resp ε (Except ε α) :=
  match program with
  | .done value => .done (.ok value)
  | .fail error => .done (.error error)
  | .call request rest => .call request (fun answer => (rest answer).attempt)

def require (condition : Prop) [Decidable condition] (error : ε) : Prog Req Resp ε Unit :=
  if condition then .done () else .fail error

def when (condition : Prop) [Decidable condition] (program : Prog Req Resp ε Unit) :
    Prog Req Resp ε Unit :=
  if condition then program else .done ()

def ofExcept : Except ε α → Prog Req Resp ε α
  | .ok value => .done value
  | .error error => .fail error

/-- Goes on with the value of a program that succeeds; a failure becomes the outcome
of a call that leaves `state` behind. -/
def orKeep {σ : Type} (program : Prog Req Resp ε α) (state : σ)
    (next : α → Prog Req Resp ε (σ × Except ε β)) : Prog Req Resp ε (σ × Except ε β) :=
  program.attempt >>= fun
    | .ok value => next value
    | .error error => .done (state, .error error)

@[simp] theorem pure_eq (value : α) : (pure value : Prog Req Resp ε α) = .done value := rfl

@[simp] theorem bind_done (value : α) (next : α → Prog Req Resp ε β) :
    (Prog.done value >>= next) = next value := rfl

@[simp] theorem bind_fail (error : ε) (next : α → Prog Req Resp ε β) :
    ((Prog.fail error : Prog Req Resp ε α) >>= next) = .fail error := rfl

@[simp] theorem bind_call (request : Req) (rest : Resp request → Prog Req Resp ε α)
    (next : α → Prog Req Resp ε β) :
    (Prog.call request rest >>= next) = .call request (fun answer => rest answer >>= next) := rfl

@[simp] theorem attempt_done (value : α) :
    (Prog.done value : Prog Req Resp ε α).attempt = .done (.ok value) := rfl

@[simp] theorem attempt_fail (error : ε) :
    (Prog.fail error : Prog Req Resp ε α).attempt = .done (.error error) := rfl

@[simp] theorem attempt_call (request : Req) (rest : Resp request → Prog Req Resp ε α) :
    (Prog.call request rest).attempt = .call request (fun answer => (rest answer).attempt) := rfl

@[simp] theorem ofExcept_ok (value : α) :
    (ofExcept (.ok value) : Prog Req Resp ε α) = .done value := rfl

@[simp] theorem ofExcept_error (error : ε) :
    (ofExcept (.error error) : Prog Req Resp ε α) = .fail error := rfl

@[simp] theorem orKeep_ok {σ : Type} (value : α) (state : σ)
    (next : α → Prog Req Resp ε (σ × Except ε β)) :
    (ofExcept (.ok value)).orKeep state next = next value := rfl

theorem require_true {condition : Prop} [Decidable condition] (holds : condition) (error : ε) :
    (require condition error : Prog Req Resp ε Unit) = .done () := if_pos holds

end Prog

structure Event (Req : Type) (Resp : Req → Type) where
  request : Req
  answer : Resp request

abbrev Log (Req : Type) (Resp : Req → Type) := List (Event Req Resp)

variable {Req : Type} {Resp : Req → Type} {ε α β : Type}

/-- Whatever the service answers, every request the program issues is allowed by
`rule` at its place in the log, and a value it returns satisfies `post`. Nothing
is asked of a program that fails. -/
def Obeys (rule : Log Req Resp → Req → Prop) (post : α → Log Req Resp → Prop) :
    Prog Req Resp ε α → Log Req Resp → Prop
  | .done value, log => post value log
  | .fail _, _ => True
  | .call request next, log =>
    rule log request ∧ ∀ answer, Obeys rule post (next answer) (⟨request, answer⟩ :: log)

variable {post mid : α → Log Req Resp → Prop} {request : Req} {first program : Prog Req Resp ε α}
  {next : α → Prog Req Resp ε β} {condition : Prop}

namespace Obeys

variable {rule : Log Req Resp → Req → Prop} {log : Log Req Resp}

theorem done {value : α} (holds : post value log) :
    Obeys rule post (.done value : Prog Req Resp ε α) log := holds

/-- Sequencing. The continuation is entered with a log that extends the first
program's log, so whatever was known from the shorter log is still known. -/
theorem bind {post : β → Log Req Resp → Prop} (obeys : Obeys rule mid first log)
    (rest : ∀ value later, log <:+ later → mid value later → Obeys rule post (next value) later) :
    Obeys rule post (first >>= next) log := by
  induction first generalizing log with
  | done value => exact rest value log (List.suffix_refl log) obeys
  | fail error => trivial
  | call request body ih =>
    refine ⟨obeys.1, fun answer => ih answer (obeys.2 answer) ?_⟩
    intro value later grown holds
    exact rest value later ((List.suffix_cons _ _).trans grown) holds

/-- Sequencing after a caught failure: the handler is entered with no knowledge
about the failed program other than that the log only grew. -/
theorem attempt {post : β → Log Req Resp → Prop} {next : Except ε α → Prog Req Resp ε β}
    (obeys : Obeys rule mid first log)
    (rest : ∀ value later, log <:+ later → mid value later → Obeys rule post (next (.ok value)) later)
    (handler : ∀ error later, log <:+ later → Obeys rule post (next (.error error)) later) :
    Obeys rule post (first.attempt >>= next) log := by
  induction first generalizing log with
  | done value => exact rest value log (List.suffix_refl log) obeys
  | fail error => exact handler error log (List.suffix_refl log)
  | call request body ih =>
    refine ⟨obeys.1, fun answer => ih answer (obeys.2 answer) ?_ ?_⟩
    · intro value later grown holds
      exact rest value later ((List.suffix_cons _ _).trans grown) holds
    · intro error later grown
      exact handler error later ((List.suffix_cons _ _).trans grown)

theorem orKeep {σ : Type} {post : σ × Except ε β → Log Req Resp → Prop} {state : σ}
    {next : α → Prog Req Resp ε (σ × Except ε β)} (obeys : Obeys rule mid first log)
    (kept : ∀ error later, log <:+ later → post (state, .error error) later)
    (rest : ∀ value later, log <:+ later → mid value later → Obeys rule post (next value) later) :
    Obeys rule post (first.orKeep state next) log :=
  attempt obeys rest kept

theorem mono {weaker : α → Log Req Resp → Prop} (obeys : Obeys rule post program log)
    (implies : ∀ value later, log <:+ later → post value later → weaker value later) :
    Obeys rule weaker program log := by
  induction program generalizing log with
  | done value => exact implies value log (List.suffix_refl log) obeys
  | fail error => trivial
  | call request body ih =>
    refine ⟨obeys.1, fun answer => ih answer (obeys.2 answer) ?_⟩
    intro value later grown holds
    exact implies value later ((List.suffix_cons _ _).trans grown) holds

theorem weaken {weaker : Log Req Resp → Req → Prop} (obeys : Obeys rule post program log)
    (implies : ∀ later request, rule later request → weaker later request) :
    Obeys weaker post program log := by
  induction program generalizing log with
  | done value => exact obeys
  | fail error => trivial
  | call request body ih => exact ⟨implies _ _ obeys.1, fun answer => ih answer (obeys.2 answer)⟩

theorem require {post : Unit → Log Req Resp → Prop} [Decidable condition] {error : ε}
    (holds : condition → post () log) :
    Obeys rule post (Prog.require condition error : Prog Req Resp ε Unit) log := by
  unfold Prog.require
  split
  · exact holds ‹condition›
  · trivial

theorem require_bind {post : β → Log Req Resp → Prop} [Decidable condition] {error : ε}
    {next : Unit → Prog Req Resp ε β} (rest : condition → Obeys rule post (next ()) log) :
    Obeys rule post (Prog.require condition error >>= next) log := by
  by_cases holds : condition
  · simpa [Prog.require, holds] using rest holds
  · simp [Prog.require, holds, Obeys]

theorem when_bind {mid : Log Req Resp → Prop} {post : β → Log Req Resp → Prop} [Decidable condition]
    {program : Prog Req Resp ε Unit} {next : Unit → Prog Req Resp ε β}
    (obeys : condition → Obeys rule (fun _ => mid) program log) (skipped : ¬condition → mid log)
    (rest : ∀ later, log <:+ later → mid later → Obeys rule post (next ()) later) :
    Obeys rule post (Prog.when condition program >>= next) log := by
  by_cases holds : condition
  · rw [Prog.when, if_pos holds]
    exact bind (obeys holds) (fun _ later grown known => rest later grown known)
  · rw [Prog.when, if_neg holds]
    exact rest log (List.suffix_refl log) (skipped holds)

theorem ofExcept_bind {post : β → Log Req Resp → Prop} {result : Except ε α}
    (rest : ∀ value, result = .ok value → Obeys rule post (next value) log) :
    Obeys rule post (Prog.ofExcept result >>= next) log := by
  cases result with
  | ok value => exact rest value rfl
  | error error => trivial

end Obeys

/-- The program, whatever it is answered, may come to issue the request with `later` as its
log. -/
inductive Issues : Prog Req Resp ε α → Log Req Resp → Req → Log Req Resp → Prop
  | now {request : Req} {next : Resp request → Prog Req Resp ε α} {log : Log Req Resp} :
      Issues (.call request next) log request log
  | after {request issued : Req} {next : Resp request → Prog Req Resp ε α} {log later : Log Req Resp}
      (answer : Resp request) (rest : Issues (next answer) (⟨request, answer⟩ :: log) issued later) :
      Issues (.call request next) log issued later

theorem Issues.bind {log later : Log Req Resp} (issues : Issues first log request later) :
    Issues (first >>= next) log request later := by
  induction issues with
  | now => exact .now
  | after answer _ ih => exact .after answer ih

theorem Obeys.issues {rule : Log Req Resp → Req → Prop} {log later : Log Req Resp}
    (obeys : Obeys rule post program log) (issues : Issues program log request later) :
    rule later request := by
  induction issues with
  | now => exact obeys.1
  | after answer _ ih => exact ih (obeys.2 answer)

theorem obeys_issues (program : Prog Req Resp ε α) (log : Log Req Resp) :
    Obeys (fun later request => Issues program log request later) (fun _ _ => True) program log := by
  induction program generalizing log with
  | done value => trivial
  | fail error => trivial
  | call request next ih =>
    refine ⟨.now, fun answer => (ih answer (⟨request, answer⟩ :: log)).weaken ?_⟩
    intro later issued rest
    exact .after answer rest

end RusqDoltlite.Effects

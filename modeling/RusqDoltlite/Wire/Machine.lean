import Mathlib.Tactic.Common

/-! Machines that take one symbol at a time. A step may refuse its symbol, and puts out symbols of its
own. -/

namespace RusqDoltlite.Wire

abbrev Machine (σ α β ε : Type) := σ → α → Except ε (σ × List β)

namespace Machine

variable {σ α β ε : Type} {step : Machine σ α β ε}

def run (step : Machine σ α β ε) : σ → List α → Except ε (σ × List β)
  | s, [] => .ok (s, [])
  | s, a :: word =>
    match step s a with
    | .error e => .error e
    | .ok next => (run step next.1 word).map fun last => (last.1, next.2 ++ last.2)

def Takes (step : Machine σ α β ε) (s : σ) (word : List α) (t : σ) (out : List β) : Prop :=
  run step s word = .ok (t, out)

theorem Takes.nil (s : σ) : Takes step s [] s [] := rfl

theorem Takes.cons {s next t : σ} {a : α} {word : List α} {first out : List β}
    (here : step s a = .ok (next, first)) (later : Takes step next word t out) :
    Takes step s (a :: word) t (first ++ out) := by
  rw [Takes, run, here]
  simp only
  rw [later]
  rfl

theorem Takes.one {s t : σ} {a : α} {out : List β} (here : step s a = .ok (t, out)) :
    Takes step s [a] t out := by
  have taken := Takes.cons here (Takes.nil t)
  rwa [List.append_nil] at taken

theorem takes_cons_iff {s t : σ} {a : α} {word : List α} {out : List β} :
    Takes step s (a :: word) t out ↔ ∃ next first later, step s a = .ok (next, first) ∧
      Takes step next word t later ∧ out = first ++ later := by
  constructor
  · intro taken
    rw [Takes, run] at taken
    split at taken
    · cases taken
    · next mid here =>
        obtain ⟨next, first⟩ := mid
        cases rest : run step next word with
        | error e =>
          rw [rest] at taken
          cases taken
        | ok last =>
          rw [rest] at taken
          obtain ⟨last, later⟩ := last
          cases taken
          exact ⟨next, first, later, here, rest, rfl⟩
  · intro found
    obtain ⟨next, first, later, here, rest, rfl⟩ := found
    exact rest.cons here

theorem run_append (s : σ) (front rest : List α) :
    run step s (front ++ rest) =
      match run step s front with
      | .error e => .error e
      | .ok mid => (run step mid.1 rest).map fun last => (last.1, mid.2 ++ last.2) := by
  induction front generalizing s with
  | nil =>
    rw [List.nil_append, run]
    simp only [List.nil_append]
    cases run step s rest <;> rfl
  | cons a front ih =>
    rw [List.cons_append, run, run]
    cases step s a with
    | error e => rfl
    | ok next =>
      simp only
      rw [ih]
      cases run step next.1 front with
      | error e => rfl
      | ok mid =>
        simp only [Except.map]
        cases run step mid.1 rest with
        | error e => rfl
        | ok last => simp only [List.append_assoc]

theorem Takes.append {s mid t : σ} {front rest : List α} {first out : List β}
    (here : Takes step s front mid first) (later : Takes step mid rest t out) :
    Takes step s (front ++ rest) t (first ++ out) := by
  rw [Takes, run_append, here]
  simp only
  rw [later]
  rfl

theorem takes_append_iff {s t : σ} {front rest : List α} {out : List β} :
    Takes step s (front ++ rest) t out ↔ ∃ mid first later, Takes step s front mid first ∧
      Takes step mid rest t later ∧ out = first ++ later := by
  constructor
  · intro taken
    rw [Takes, run_append] at taken
    cases here : run step s front with
    | error e =>
      rw [here] at taken
      cases taken
    | ok mid =>
      rw [here] at taken
      simp only at taken
      cases rest' : run step mid.1 rest with
      | error e =>
        rw [rest'] at taken
        cases taken
      | ok last =>
        rw [rest'] at taken
        cases taken
        exact ⟨mid.1, mid.2, last.2, here, rest', rfl⟩
  · intro found
    obtain ⟨mid, first, later, here, rest, rfl⟩ := found
    exact here.append rest

def runs (step : Machine σ α β ε) : σ → List (List α) → Except ε (σ × List β)
  | s, [] => .ok (s, [])
  | s, word :: words =>
    match run step s word with
    | .error e => .error e
    | .ok next => (runs step next.1 words).map fun last => (last.1, next.2 ++ last.2)

theorem runs_eq_run_flatten (s : σ) (words : List (List α)) :
    runs step s words = run step s words.flatten := by
  induction words generalizing s with
  | nil => rfl
  | cons word words ih =>
    rw [runs, List.flatten_cons, run_append]
    cases run step s word with
    | error e => rfl
    | ok next =>
      simp only
      rw [ih]

end Machine

end RusqDoltlite.Wire

import Mathlib.Data.List.Forall2
import Mathlib.Data.List.Nodup
import Mathlib.Tactic.Common

/-! Worklists that are taken in batches: the items of a batch are surveyed together, and then visited
one after the other. A visit names further items; those that are new are queued, as long as there is
room for them. -/

namespace RusqDoltlite.Search

theorem forall_mem_snoc {α : Type} {P : α → Prop} {list : List α} {last : α} (all : ∀ a ∈ list, P a)
    (also : P last) : ∀ a ∈ list ++ [last], P a :=
  List.forall_mem_append.mpr ⟨all, List.forall_mem_singleton.mpr also⟩

/-- What was seen, in the order in which it was queued, and what of it is still queued. -/
structure Frontier (α : Type) where
  seen : List α
  queue : List α
deriving DecidableEq

structure Visited (α ν σ : Type) where
  state : σ
  items : List α
  note : ν

structure Walker (α δ ν σ ε : Type) where
  survey : σ → List α → Except ε (σ × List δ)
  visit : σ → α → δ → Except ε (Visited α ν σ)
  finish : σ → ν → Except ε σ

structure Bounds (ε : Type) where
  capacity : Nat
  batch : Nat
  full : ε

variable {α δ ν σ ε : Type} [DecidableEq α]

def Frontier.push (skip : α → Bool) (capacity : Nat) (frontier : Frontier α) :
    List α → Option (Frontier α)
  | [] => some frontier
  | item :: items =>
    if skip item = true ∨ item ∈ frontier.seen then frontier.push skip capacity items
    else if capacity ≤ frontier.seen.length then none
    else Frontier.push skip capacity ⟨frontier.seen ++ [item], frontier.queue ++ [item]⟩ items

def visits (walker : Walker α δ ν σ ε) (skip : α → Bool) (bounds : Bounds ε) :
    σ → Frontier α → List (α × δ) → Except ε (σ × Frontier α)
  | state, frontier, [] => .ok (state, frontier)
  | state, frontier, task :: tasks =>
    match walker.visit state task.1 task.2 with
    | .error e => .error e
    | .ok visited =>
      match frontier.push skip bounds.capacity visited.items with
      | none => .error bounds.full
      | some next =>
        match walker.finish visited.state visited.note with
        | .error e => .error e
        | .ok state => visits walker skip bounds state next tasks

def Frontier.measure (capacity : Nat) (frontier : Frontier α) : Nat :=
  2 * (capacity - frontier.seen.length) + frontier.queue.length

variable {skip : α → Bool} {capacity : Nat} {roots : List α} {frontier next : Frontier α}

omit [DecidableEq α] in
theorem measure_drop (capacity batch : Nat) (frontier : Frontier α) :
    (Frontier.mk frontier.seen (frontier.queue.drop batch)).measure capacity + min batch frontier.queue.length =
      frontier.measure capacity := by
  simp only [Frontier.measure, List.length_drop]
  omega

theorem measure_push {items : List α} (pushed : frontier.push skip capacity items = some next) :
    next.measure capacity ≤ frontier.measure capacity := by
  induction items generalizing frontier with
  | nil =>
    rw [Frontier.push] at pushed
    cases pushed
    exact Nat.le_refl _
  | cons item items ih =>
    rw [Frontier.push] at pushed
    split at pushed
    · exact ih pushed
    · split at pushed
      · cases pushed
      · have later := ih pushed
        simp only [Frontier.measure, List.length_append, List.length_singleton] at later ⊢
        omega

theorem measure_visits {walker : Walker α δ ν σ ε} {bounds : Bounds ε} {state last : σ}
    {tasks : List (α × δ)}
    (visited : visits walker skip bounds state frontier tasks = .ok (last, next)) :
    next.measure bounds.capacity ≤ frontier.measure bounds.capacity := by
  induction tasks generalizing state frontier with
  | nil =>
    rw [visits] at visited
    cases visited
    exact Nat.le_refl _
  | cons task tasks ih =>
    rw [visits] at visited
    split at visited
    · cases visited
    · split at visited
      · cases visited
      · next pushed =>
          split at visited
          · cases visited
          · exact Nat.le_trans (ih visited) (measure_push pushed)

/-- The loop: a batch from the front of the queue is surveyed and visited, until nothing is queued. -/
def walk (walker : Walker α δ ν σ ε) (skip : α → Bool) (bounds : Bounds ε) (positive : 0 < bounds.batch)
    (state : σ) (frontier : Frontier α) : Except ε (σ × Frontier α) :=
  if frontier.queue = [] then .ok (state, frontier)
  else
    match walker.survey state (frontier.queue.take bounds.batch) with
    | .error e => .error e
    | .ok surveyed =>
      match _visited : visits walker skip bounds surveyed.1 ⟨frontier.seen, frontier.queue.drop bounds.batch⟩
          ((frontier.queue.take bounds.batch).zip surveyed.2) with
      | .error e => .error e
      | .ok next => walk walker skip bounds positive next.1 next.2
termination_by frontier.measure bounds.capacity
decreasing_by
  rename_i some
  have taken := measure_drop bounds.capacity bounds.batch frontier
  have later := measure_visits _visited
  have length : 0 < frontier.queue.length := List.length_pos_iff.mpr some
  omega

def search (walker : Walker α δ ν σ ε) (skip : α → Bool) (bounds : Bounds ε) (positive : 0 < bounds.batch)
    (state : σ) (roots : List α) : Except ε (σ × Frontier α) :=
  match Frontier.push skip bounds.capacity ⟨[], []⟩ roots with
  | none => .error bounds.full
  | some frontier => walk walker skip bounds positive state frontier

theorem walk_eq (walker : Walker α δ ν σ ε) (skip : α → Bool) (bounds : Bounds ε)
    (positive : 0 < bounds.batch) (state : σ) (frontier : Frontier α) :
    walk walker skip bounds positive state frontier =
      if frontier.queue = [] then .ok (state, frontier)
      else
        match walker.survey state (frontier.queue.take bounds.batch) with
        | .error e => .error e
        | .ok surveyed =>
          match visits walker skip bounds surveyed.1 ⟨frontier.seen, frontier.queue.drop bounds.batch⟩
              ((frontier.queue.take bounds.batch).zip surveyed.2) with
          | .error e => .error e
          | .ok next => walk walker skip bounds positive next.1 next.2 := by
  rw [walk]
  split
  · rfl
  · cases walker.survey state (frontier.queue.take bounds.batch) with
    | error e => rfl
    | ok surveyed =>
      simp only
      split <;> simp_all

abbrev History (α : Type) := List (α × List α)

/-- What a frontier is made of: the items visited, those of the batch in hand, and the queue. All are
different, there was room for them, and the roots and what the visits named are among them. -/
structure Frontier.Sound (skip : α → Bool) (capacity : Nat) (roots : List α) (frontier : Frontier α)
    (history : History α) (pending : List α) : Prop where
  seen : frontier.seen = history.map Prod.fst ++ (pending ++ frontier.queue)
  distinct : frontier.seen.Nodup
  room : frontier.seen.length ≤ capacity
  kept : ∀ item ∈ frontier.seen, skip item = false
  started : ∀ root ∈ roots, skip root = true ∨ root ∈ frontier.seen
  closed : ∀ visit ∈ history, ∀ item ∈ visit.2, skip item = true ∨ item ∈ frontier.seen

structure Frontier.Pushed (skip : α → Bool) (capacity : Nat) (frontier : Frontier α) (items : List α)
    (next : Frontier α) (new : List α) : Prop where
  seen : next.seen = frontier.seen ++ new
  queue : next.queue = frontier.queue ++ new
  named : ∀ item ∈ new, item ∈ items
  all : ∀ item ∈ items, skip item = true ∨ item ∈ next.seen
  distinct : frontier.seen.Nodup → next.seen.Nodup
  room : frontier.seen.length ≤ capacity → next.seen.length ≤ capacity
  kept : (∀ item ∈ frontier.seen, skip item = false) → ∀ item ∈ next.seen, skip item = false

theorem push_pushed {items : List α} (pushed : frontier.push skip capacity items = some next) :
    ∃ new, frontier.Pushed skip capacity items next new := by
  induction items generalizing frontier with
  | nil =>
    rw [Frontier.push] at pushed
    cases pushed
    exact ⟨[], by simp, by simp, by simp, by simp, id, id, id⟩
  | cons item items ih =>
    rw [Frontier.push] at pushed
    split at pushed
    · next old =>
        obtain ⟨new, later⟩ := ih pushed
        refine ⟨new, later.seen, later.queue, fun other member => .tail _ (later.named other member), ?_,
          later.distinct, later.room, later.kept⟩
        intro other member
        rcases List.mem_cons.mp member with rfl | member
        · rcases old with skipped | known
          · exact .inl skipped
          · rw [later.seen]
            exact .inr (List.mem_append_left _ known)
        · exact later.all other member
    · next fresh =>
        obtain ⟨used, unknown⟩ := not_or.mp fresh
        split at pushed
        · cases pushed
        · next free =>
            obtain ⟨new, later⟩ := ih pushed
            refine ⟨item :: new, ?_, ?_, ?_, ?_, ?_, ?_, ?_⟩
            · rw [later.seen, List.append_assoc, List.singleton_append]
            · rw [later.queue, List.append_assoc, List.singleton_append]
            · intro other member
              rcases List.mem_cons.mp member with rfl | member
              · exact List.mem_cons_self
              · exact .tail _ (later.named other member)
            · intro other member
              rcases List.mem_cons.mp member with rfl | member
              · rw [later.seen]
                exact .inr (List.mem_append_left _ (List.mem_append_right _ (List.mem_singleton_self _)))
              · exact later.all other member
            · intro distinct
              apply later.distinct
              rw [List.nodup_append]
              refine ⟨distinct, List.nodup_singleton item, ?_⟩
              intro other known another member same
              rw [same, List.mem_singleton.mp member] at known
              exact unknown known
            · intro room
              apply later.room
              rw [List.length_append, List.length_singleton]
              omega
            · intro kept
              exact later.kept (forall_mem_snoc kept (Bool.not_eq_true _ ▸ used))

section sound
variable {history : History α}

theorem Frontier.Sound.visit {item : α} {pending items : List α}
    (sound : frontier.Sound skip capacity roots history (item :: pending))
    (pushed : frontier.push skip capacity items = some next) :
    next.Sound skip capacity roots (history ++ [(item, items)]) pending := by
  obtain ⟨new, pushed⟩ := push_pushed pushed
  have still : ∀ item, skip item = true ∨ item ∈ frontier.seen → skip item = true ∨ item ∈ next.seen := by
    intro item either
    rw [pushed.seen]
    exact either.imp id (List.mem_append_left _)
  refine ⟨?_, pushed.distinct sound.distinct, pushed.room sound.room, pushed.kept sound.kept,
    fun root member => still root (sound.started root member), ?_⟩
  · rw [pushed.seen, pushed.queue, sound.seen]
    simp only [List.map_append, List.map_cons, List.map_nil, List.append_assoc, List.cons_append,
      List.nil_append]
  · exact forall_mem_snoc (fun visit before named inside =>
      still named (sound.closed visit before named inside)) pushed.all

omit [DecidableEq α] in
theorem Frontier.Sound.fresh {item : α} {pending : List α}
    (sound : frontier.Sound skip capacity roots history (item :: pending)) :
    item ∉ history.map Prod.fst ∧ history.length < capacity := by
  have distinct := sound.distinct
  have room := sound.room
  rw [sound.seen] at distinct room
  constructor
  · intro again
    exact (List.nodup_append.mp distinct).2.2 item again item (.head _) rfl
  · simp only [List.length_append, List.length_map, List.length_cons] at room
    omega

omit [DecidableEq α] in
theorem Frontier.Sound.take (sound : frontier.Sound skip capacity roots history []) (batch : Nat) :
    (Frontier.mk frontier.seen (frontier.queue.drop batch)).Sound skip capacity roots history
      (frontier.queue.take batch) := by
  refine ⟨?_, sound.distinct, sound.room, sound.kept, sound.started, sound.closed⟩
  simp only [List.take_append_drop]
  exact sound.seen

omit [DecidableEq α] in
theorem Frontier.Sound.batch (sound : frontier.Sound skip capacity roots history []) (batch : Nat) :
    (frontier.queue.take batch).Nodup ∧ ∀ item ∈ frontier.queue.take batch, item ∉ history.map Prod.fst := by
  have distinct := sound.distinct
  rw [sound.seen, List.nil_append] at distinct
  obtain ⟨_, queued, apart⟩ := List.nodup_append.mp distinct
  refine ⟨queued.sublist (List.take_sublist _ _), ?_⟩
  intro item member again
  exact apart item again item (List.mem_of_mem_take member) rfl

end sound

section simulation
variable {ν' σ' ε' : Type} {walker : Walker α δ ν σ ε} {other : Walker α δ ν' σ' ε'} {skip : α → Bool}
  {bounds : Bounds ε} {bounds' : Bounds ε'} {roots : List α}

/-- Two walkers that do the same, as long as the first succeeds: what they keep is related after each
visit, with what is left of the batch, and they name the same items. A decision of a survey holds for
its item alone. -/
structure Simulates (walker : Walker α δ ν σ ε) (other : Walker α δ ν' σ' ε') (capacity : Nat)
    (related : σ → σ' → History α → List α → Prop) (decided : α → δ → Prop) : Prop where
  survey : ∀ state state' history batch surveyed, related state state' history [] → batch.Nodup →
    (∀ item ∈ batch, item ∉ history.map Prod.fst) → walker.survey state batch = .ok surveyed →
      ∃ last, other.survey state' batch = .ok (last, surveyed.2) ∧ related surveyed.1 last history batch ∧
        List.Forall₂ decided batch surveyed.2
  visit : ∀ state state' history item pending decision visited,
    related state state' history (item :: pending) → item ∉ history.map Prod.fst →
      history.length < capacity → decided item decision → walker.visit state item decision = .ok visited →
        ∃ visited', other.visit state' item decision = .ok visited' ∧ visited'.items = visited.items ∧
          ∀ last, walker.finish visited.state visited.note = .ok last →
            ∃ last', other.finish visited'.state visited'.note = .ok last' ∧
              related last last' (history ++ [(item, visited.items)]) pending

variable {related : σ → σ' → History α → List α → Prop} {decided : α → δ → Prop}

variable (simulates : Simulates walker other bounds.capacity related decided)
  (same : bounds'.capacity = bounds.capacity) (batches : bounds'.batch = bounds.batch)

include simulates same in
theorem visits_simulate {batch : List α} {decisions : List δ} {state last : σ}
    {state' : σ'} {history : History α} (here : related state state' history batch)
    (sound : frontier.Sound skip bounds.capacity roots history batch)
    (valid : List.Forall₂ decided batch decisions)
    (visited : visits walker skip bounds state frontier (batch.zip decisions) = .ok (last, next)) :
    ∃ last' history', visits other skip bounds' state' frontier (batch.zip decisions) = .ok (last', next) ∧
      related last last' history' [] ∧ next.Sound skip bounds.capacity roots history' [] := by
  induction valid generalizing state state' history frontier with
  | nil =>
    rw [List.zip_nil_left, visits] at visited
    cases visited
    exact ⟨state', history, rfl, here, sound⟩
  | @cons item decision batch decisions decides valid ih =>
    obtain ⟨fresh, few⟩ := sound.fresh
    rw [List.zip_cons_cons, visits] at visited
    split at visited
    · cases visited
    · next first taken =>
        split at visited
        · cases visited
        · next queued pushed =>
            split at visited
            · cases visited
            · next done finished =>
                obtain ⟨first', taken', items, finish⟩ :=
                  simulates.visit state state' history item batch decision first here fresh few decides taken
                obtain ⟨done', finished', again⟩ := finish done finished
                obtain ⟨last', history', later, ended, whole⟩ := ih again (sound.visit pushed) visited
                refine ⟨last', history', ?_, ended, whole⟩
                rw [List.zip_cons_cons, visits, taken']
                simp only [items, same, pushed, finished']
                exact later

include simulates same batches in
theorem walk_simulates
    {positive : 0 < bounds.batch} {positive' : 0 < bounds'.batch} {state last : σ} {state' : σ'}
    {history : History α} (here : related state state' history [])
    (sound : frontier.Sound skip bounds.capacity roots history [])
    (walked : walk walker skip bounds positive state frontier = .ok (last, next)) :
    ∃ last' history', walk other skip bounds' positive' state' frontier = .ok (last', next) ∧
      related last last' history' [] ∧ next.Sound skip bounds.capacity roots history' [] ∧
        next.queue = [] := by
  induction size : frontier.measure bounds.capacity using Nat.strongRecOn
    generalizing state state' history frontier with
  | ind count ih =>
    rw [walk_eq] at walked
    by_cases empty : frontier.queue = []
    · rw [if_pos empty] at walked
      cases walked
      exact ⟨state', history, by rw [walk_eq, if_pos empty], here, sound, empty⟩
    · rw [if_neg empty] at walked
      split at walked
      · cases walked
      · next surveyed asked =>
          split at walked
          · cases walked
          · next middle visited =>
              obtain ⟨distinct, fresh⟩ := sound.batch bounds.batch
              obtain ⟨mid', asked', again, valid⟩ :=
                simulates.survey state state' history _ surveyed here distinct fresh asked
              obtain ⟨half', half, visited', still, whole⟩ :=
                visits_simulate simulates same again (sound.take bounds.batch) valid visited
              have shorter : middle.2.measure bounds.capacity < count := by
                have taken := measure_drop bounds.capacity bounds.batch frontier
                have later := measure_visits visited
                have length : 0 < frontier.queue.length := List.length_pos_iff.mpr empty
                omega
              obtain ⟨last', history', rest, ended⟩ := ih _ shorter still whole walked rfl
              refine ⟨last', history', ?_, ended⟩
              rw [walk_eq, if_neg empty, batches, asked']
              simp only [visited']
              exact rest

include simulates same batches in
theorem search_simulates
    {positive : 0 < bounds.batch} {positive' : 0 < bounds'.batch} {state last : σ} {state' : σ'}
    {next : Frontier α} (here : related state state' [] [])
    (searched : search walker skip bounds positive state roots = .ok (last, next)) :
    ∃ last' history, search other skip bounds' positive' state' roots = .ok (last', next) ∧
      related last last' history [] ∧ next.Sound skip bounds.capacity roots history [] ∧
        next.queue = [] := by
  rw [search] at searched
  split at searched
  · cases searched
  · next start pushed =>
      obtain ⟨new, first⟩ := push_pushed pushed
      have sound : start.Sound skip bounds.capacity roots [] [] := by
        refine ⟨?_, first.distinct List.nodup_nil, first.room (Nat.zero_le _),
          first.kept fun item member => absurd member List.not_mem_nil, first.all,
          fun visit member => absurd member List.not_mem_nil⟩
        rw [first.seen, first.queue]
        rfl
      obtain ⟨last', history, rest, ended⟩ := walk_simulates simulates same batches here sound searched
      refine ⟨last', history, ?_, ended⟩
      rw [search, same, pushed]
      exact rest

/-- What a walker keeps through its visits it has at the end of a search; a walker simulates itself. -/
structure Keeps (walker : Walker α δ ν σ ε) (capacity : Nat) (kept : σ → History α → List α → Prop)
    (decided : α → δ → Prop) : Prop where
  survey : ∀ state history batch surveyed, kept state history [] → batch.Nodup →
    (∀ item ∈ batch, item ∉ history.map Prod.fst) → walker.survey state batch = .ok surveyed →
      kept surveyed.1 history batch ∧ List.Forall₂ decided batch surveyed.2
  visit : ∀ state history item pending decision visited last, kept state history (item :: pending) →
    item ∉ history.map Prod.fst → history.length < capacity → decided item decision →
      walker.visit state item decision = .ok visited → walker.finish visited.state visited.note = .ok last →
        kept last (history ++ [(item, visited.items)]) pending

theorem search_keeps {kept : σ → History α → List α → Prop}
    (keeps : Keeps walker bounds.capacity kept decided) {positive : 0 < bounds.batch} {state last : σ}
    {next : Frontier α} (here : kept state [] [])
    (searched : search walker skip bounds positive state roots = .ok (last, next)) :
    ∃ history, kept last history [] ∧ next.Sound skip bounds.capacity roots history [] ∧ next.queue = [] := by
  have simulates : Simulates walker walker bounds.capacity
      (fun state state' history pending => state = state' ∧ kept state history pending) decided := by
    constructor
    · rintro state _ history batch surveyed ⟨rfl, here⟩ distinct fresh asked
      obtain ⟨still, valid⟩ := keeps.survey state history batch surveyed here distinct fresh asked
      exact ⟨surveyed.1, asked, ⟨rfl, still⟩, valid⟩
    · rintro state _ history item pending decision visited ⟨rfl, here⟩ fresh few decides taken
      refine ⟨visited, taken, rfl, ?_⟩
      intro last finished
      exact ⟨last, finished, rfl,
        keeps.visit state history item pending decision visited last here fresh few decides taken finished⟩
  obtain ⟨_, history, _, ⟨_, ended⟩, sound, empty⟩ :=
    @search_simulates _ _ _ _ _ _ _ _ _ _ _ _ bounds bounds roots _ _ simulates rfl rfl positive positive
      state last state next ⟨rfl, here⟩ searched
  exact ⟨history, ended, sound, empty⟩

end simulation

end RusqDoltlite.Search

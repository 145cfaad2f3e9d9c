import Mathlib.Data.Finset.Card
import Mathlib.Data.Finset.Range
import Mathlib.Data.Nat.Find

/-! Hash tables with open addressing and linear probing. -/

namespace RusqDoltlite.Wire

structure ProbeTable (α : Type) where
  size : Nat
  cells : Nat → Option α

namespace ProbeTable

variable {α : Type}

def empty (size : Nat) : ProbeTable α := ⟨size, fun _ => none⟩

def put (table : ProbeTable α) (index : Nat) (key : α) : ProbeTable α :=
  { table with cells := fun other => if other = index then some key else table.cells other }

section

variable [DecidableEq α] (bucket : α → Nat)

/-- The first cell from `index` on that is free or holds the key.  The search has no end of its own
in a table without such a cell; there the fuel runs out. -/
def seek (table : ProbeTable α) (key : α) : Nat → Nat → Option Nat
  | 0, _ => none
  | fuel + 1, index =>
    if table.cells index = none ∨ table.cells index = some key then some index
    else table.seek key fuel ((index + 1) % table.size)

def find (table : ProbeTable α) (key : α) : Option Nat :=
  table.seek key table.size (bucket key % table.size)

def query (table : ProbeTable α) (key : α) : Option Bool :=
  (table.find bucket key).map fun index => table.cells index = some key

def add (table : ProbeTable α) (key : α) : Option (ProbeTable α) :=
  (table.find bucket key).map fun index =>
    if table.cells index = none then table.put index key else table

def build (size : Nat) (keys : List α) : Option (ProbeTable α) :=
  keys.foldlM (fun table key => table.add bucket key) (empty size)

end

def filled (table : ProbeTable α) [∀ i, Decidable (table.cells i ≠ none)] : Finset Nat :=
  (Finset.range table.size).filter (table.cells · ≠ none)

/-- The table holds exactly the keys of the list, each behind filled cells only. -/
structure Holds [DecidableEq α] (bucket : α → Nat) (table : ProbeTable α) (keys : List α) : Prop where
  stored : ∀ index key, table.cells index = some key → key ∈ keys
  reached : ∀ key ∈ keys, ∃ steps, table.cells ((bucket key + steps) % table.size) = some key ∧
    ∀ before < steps, table.cells ((bucket key + before) % table.size) ≠ none
  room : table.filled.card ≤ keys.length

variable [DecidableEq α] {bucket : α → Nat} {table : ProbeTable α} {keys : List α}

theorem Holds.empty (size : Nat) : Holds bucket (empty size) [] where
  stored _ _ held := absurd held (by simp [ProbeTable.empty])
  reached _ member := absurd member List.not_mem_nil
  room := by simp [filled, ProbeTable.empty]

theorem seek_first {key : α} (steps : Nat) {fuel start : Nat} (enough : steps < fuel)
    (stop : table.cells ((start + steps) % table.size) = none ∨
      table.cells ((start + steps) % table.size) = some key)
    (first : ∀ before < steps, ¬ (table.cells ((start + before) % table.size) = none ∨
      table.cells ((start + before) % table.size) = some key)) :
    table.seek key fuel (start % table.size) = some ((start + steps) % table.size) := by
  induction steps generalizing fuel start with
  | zero =>
    obtain ⟨fuel, rfl⟩ := Nat.exists_eq_succ_of_ne_zero (Nat.ne_of_gt enough)
    exact if_pos stop
  | succ steps ih =>
    obtain ⟨fuel, rfl⟩ := Nat.exists_eq_succ_of_ne_zero (Nat.ne_of_gt (Nat.zero_lt_of_lt enough))
    have shift (n : Nat) : start + 1 + n = start + (n + 1) := by omega
    have later : table.seek key fuel ((start + 1) % table.size) = some ((start + 1 + steps) % table.size) := by
      refine ih (by omega) (by rwa [shift]) fun before less => ?_
      rw [shift]
      exact first _ (by omega)
    have here := first 0 (by omega)
    rw [Nat.add_zero] at here
    rw [seek, if_neg here, Nat.mod_add_mod, later, shift]

variable (holds : Holds bucket table keys) (room : keys.length < table.size) (key : α)

include holds room in
theorem Holds.free : ∃ index < table.size, table.cells index = none := by
  by_contra full
  have all : table.filled = Finset.range table.size := by
    refine Finset.filter_true_of_mem fun index member => ?_
    intro free
    exact full ⟨index, Finset.mem_range.mp member, free⟩
  have count := holds.room
  rw [all, Finset.card_range] at count
  omega

include holds room key in
theorem Holds.find :
    ∃ steps, table.find bucket key = some ((bucket key + steps) % table.size) ∧
      (table.cells ((bucket key + steps) % table.size) = none ∨
        table.cells ((bucket key + steps) % table.size) = some key) ∧
      ∀ before < steps, ¬ (table.cells ((bucket key + before) % table.size) = none ∨
        table.cells ((bucket key + before) % table.size) = some key) := by
  obtain ⟨index, inside, free⟩ := holds.free room
  let Stop (steps : Nat) := table.cells ((bucket key + steps) % table.size) = none ∨
    table.cells ((bucket key + steps) % table.size) = some key
  have near := Nat.mod_lt (bucket key) (Nat.zero_lt_of_lt inside)
  let far := (index + (table.size - bucket key % table.size)) % table.size
  have there : (bucket key + far) % table.size = index := by
    rw [Nat.add_mod_mod, ← Nat.mod_add_mod, show bucket key % table.size +
      (index + (table.size - bucket key % table.size)) = index + table.size by omega,
      Nat.add_mod_right, Nat.mod_eq_of_lt inside]
  have stops : ∃ steps, Stop steps := ⟨far, .inl (by rw [there, free])⟩
  have early : Nat.find stops ≤ far := Nat.find_min' stops (.inl (by rw [there, free]))
  have bound : far < table.size := Nat.mod_lt _ (Nat.zero_lt_of_lt inside)
  exact ⟨Nat.find stops, seek_first _ (by omega) (Nat.find_spec stops) (fun _ less => Nat.find_min stops less),
    Nat.find_spec stops, fun _ less => Nat.find_min stops less⟩

include holds room key in
theorem Holds.query :
    ∃ found, table.query bucket key = some found ∧ (found = true ↔ key ∈ keys) := by
  obtain ⟨steps, found, stop, first⟩ := holds.find room key
  refine ⟨_, by rw [ProbeTable.query, found, Option.map_some], ?_⟩
  rw [decide_eq_true_eq]
  constructor
  · exact holds.stored _ key
  · intro member
    obtain ⟨there, held, path⟩ := holds.reached key member
    refine stop.resolve_left fun free => ?_
    -- a free cell on the way to the key would have ended the probing before it
    have before : there < steps ∨ there = steps ∨ steps < there := by omega
    rcases before with less | rfl | less
    · exact first there less (.inr held)
    · rw [free] at held
      cases held
    · exact path steps less free

include holds in
/-- A key written into the free cell where its probing ended.  The cell was on no path, so that every
old entry is still reached. -/
theorem Holds.put {key : α} {steps : Nat} (free : table.cells ((bucket key + steps) % table.size) = none)
    (path : ∀ before < steps, table.cells ((bucket key + before) % table.size) ≠ none) :
    Holds bucket (table.put ((bucket key + steps) % table.size) key) (keys ++ [key]) := by
  have still {index : Nat} (held : table.cells index ≠ none) :
      (table.put ((bucket key + steps) % table.size) key).cells index = table.cells index :=
    if_neg (by rintro rfl; exact held free)
  refine ⟨?_, ?_, ?_⟩
  · intro index other held
    simp only [ProbeTable.put] at held
    split_ifs at held with same
    · simp [Option.some_inj.mp held]
    · exact List.mem_append_left _ (holds.stored index other held)
  · intro other member
    rcases List.mem_append.mp member with member | member
    · obtain ⟨there, held, way⟩ := holds.reached other member
      refine ⟨there, ?_, fun before less => ?_⟩
      · exact (still (held.trans_ne (Option.some_ne_none _))).trans held
      · exact (still (way before less)).trans_ne (way before less)
    · obtain rfl := List.mem_singleton.mp member
      exact ⟨steps, if_pos rfl, fun before less => (still (path before less)).trans_ne (path before less)⟩
  · have more : (table.put ((bucket key + steps) % table.size) key).filled ⊆
        insert ((bucket key + steps) % table.size) table.filled := by
      intro index member
      rw [filled, Finset.mem_filter] at member
      by_cases same : index = (bucket key + steps) % table.size
      · exact Finset.mem_insert.mpr (.inl same)
      · refine Finset.mem_insert_of_mem (Finset.mem_filter.mpr ⟨member.1, ?_⟩)
        simpa only [ProbeTable.put, if_neg same] using member.2
    rw [List.length_append]
    exact (Finset.card_le_card more).trans ((Finset.card_insert_le ..).trans (Nat.succ_le_succ holds.room))

include holds room key in
theorem Holds.add :
    ∃ after, table.add bucket key = some after ∧ after.size = table.size ∧
      Holds bucket after (keys ++ [key]) := by
  obtain ⟨steps, found, stop, first⟩ := holds.find room key
  have path (before : Nat) (less : before < steps) : table.cells ((bucket key + before) % table.size) ≠ none :=
    fun free => first before less (.inl free)
  rw [ProbeTable.add, found, Option.map_some]
  by_cases free : table.cells ((bucket key + steps) % table.size) = none
  · rw [if_pos free]
    exact ⟨_, rfl, rfl, holds.put free path⟩
  · rw [if_neg free]
    refine ⟨table, rfl, rfl, ?_, ?_, ?_⟩
    · exact fun index other held => List.mem_append_left _ (holds.stored index other held)
    · intro other member
      rcases List.mem_append.mp member with member | member
      · exact holds.reached other member
      · obtain rfl := List.mem_singleton.mp member
        exact ⟨steps, stop.resolve_left free, path⟩
    · rw [List.length_append]
      exact holds.room.trans (Nat.le_add_right ..)

theorem Holds.build (bucket : α → Nat) (size : Nat) (keys : List α) (room : keys.length ≤ size) :
    ∃ table, build bucket size keys = some table ∧ table.size = size ∧ Holds bucket table keys := by
  induction keys using List.reverseRecOn with
  | nil => exact ⟨ProbeTable.empty size, rfl, rfl, .empty size⟩
  | append_singleton keys key ih =>
    rw [List.length_append, List.length_singleton] at room
    obtain ⟨table, built, sized, holds⟩ := ih (by omega)
    obtain ⟨after, added, same, more⟩ := holds.add (by omega) key
    refine ⟨after, ?_, by omega, more⟩
    rw [ProbeTable.build] at built ⊢
    rw [List.foldlM_append, built]
    simpa using added

end ProbeTable

end RusqDoltlite.Wire

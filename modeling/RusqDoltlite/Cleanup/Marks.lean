import RusqDoltlite.Session.Record
import RusqDoltlite.Wire.BigEndian
import RusqDoltlite.Wire.Probe

/-! The two sets of a session cleanup: the block ids it keeps, and the ids it hands to the delete list
of the manifest.  Each is an array with a hash table over it. -/

namespace RusqDoltlite.Cleanup

open Wire
open Session (Bytes)

def maxBlocks : Nat := 262144

def bucketWord (key : Bytes) : Nat := getBe ((key.drop 4).take 4)

/-- The fields of `BcvSessionGc` for the two sets.  `inMain` is the query of `pMainHash`. -/
structure SessionGc where
  nameBytes : Nat
  findOrphans : Bool
  inMain : Bytes → Bool
  keep : List Bytes
  keepHash : Option (ProbeTable Bytes)
  orphans : List (Bytes × Int)
  orphanAlloc : Nat
  orphanHash : Option (ProbeTable Bytes)

inductive GcResult where
  | ok
  | tooBig
  deriving DecidableEq

/-- A table of 256 cells at first; at half its size it is built anew with twice the cells. -/
def growHash (hash : Option (ProbeTable Bytes)) (keys : List Bytes) : Option (Option (ProbeTable Bytes)) :=
  hash.elim ((ProbeTable.build bucketWord 256 keys).map some) fun table =>
    if table.size ≤ keys.length * 2 then
      if 0x3FFFFFFF < table.size then some none
      else (ProbeTable.build bucketWord (table.size * 2) keys).map some
    else some (some table)

namespace SessionGc

def fresh (nameBytes : Nat) (findOrphans : Bool) (inMain : Bytes → Bool) : SessionGc :=
  ⟨nameBytes, findOrphans, inMain, [], none, [], 0, none⟩

def key (gc : SessionGc) (block : Bytes) : Bytes := block.take gc.nameBytes

def orphanIds (gc : SessionGc) : List Bytes := gc.orphans.map Prod.fst

def keepIn (gc : SessionGc) (key : Bytes) (table : ProbeTable Bytes) : Option (GcResult × SessionGc) :=
  (table.query bucketWord key).bind fun found =>
    if found then some (.ok, { gc with keepHash := some table })
    else (table.add bucketWord key).map fun table =>
      (.ok, { gc with keep := gc.keep ++ [key], keepHash := some table })

def keepAdd (gc : SessionGc) (block : Bytes) : Option (GcResult × SessionGc) :=
  if maxBlocks ≤ gc.keep.length then some (.tooBig, gc)
  else (growHash gc.keepHash gc.keep).bind fun grown =>
    grown.elim (some (.tooBig, gc)) (gc.keepIn (gc.key block))

def keepQuery (gc : SessionGc) (block : Bytes) : Option Bool :=
  gc.keepHash.elim (some (gc.keep.contains (gc.key block))) (·.query bucketWord (gc.key block))

def orphanAppend (gc : SessionGc) (key : Bytes) (observed : Int) (table : ProbeTable Bytes) :
    Option (GcResult × SessionGc) :=
  (table.add bucketWord key).map fun table =>
    (.ok, { gc with orphans := gc.orphans ++ [(key, observed)], orphanHash := some table })

def moreOrphans (gc : SessionGc) : SessionGc :=
  { gc with orphanAlloc := min (if gc.orphanAlloc = 0 then 16 else gc.orphanAlloc * 2) maxBlocks }

/-- The array moves when it grows, and the table of pointers into it is built anew. -/
def orphanInsert (gc : SessionGc) (key : Bytes) (observed : Int) (table : ProbeTable Bytes) :
    Option (GcResult × SessionGc) :=
  if maxBlocks ≤ gc.orphans.length then some (.tooBig, { gc with orphanHash := some table })
  else if gc.orphanAlloc ≤ gc.orphans.length then
    (ProbeTable.build bucketWord table.size gc.orphanIds).bind (gc.moreOrphans.orphanAppend key observed)
  else gc.orphanAppend key observed table

def orphanIn (gc : SessionGc) (key : Bytes) (observed : Int) (table : ProbeTable Bytes) :
    Option (GcResult × SessionGc) :=
  (table.query bucketWord key).bind fun found =>
    if found then some (.ok, { gc with orphanHash := some table }) else gc.orphanInsert key observed table

def orphanAdd (gc : SessionGc) (block : Bytes) (observed : Int) : Option (GcResult × SessionGc) :=
  if gc.findOrphans ∨ gc.inMain (gc.key block) then some (.ok, gc)
  else (gc.keepQuery block).bind fun kept =>
    if kept then some (.ok, gc)
    else (growHash gc.orphanHash gc.orphanIds).bind fun grown =>
      grown.elim (some (.tooBig, gc)) (gc.orphanIn (gc.key block) observed)

def Wanted (gc : SessionGc) (block : Bytes) : Prop :=
  gc.findOrphans = false ∧ gc.inMain (gc.key block) = false ∧ gc.keepQuery block = some false

end SessionGc

inductive GcOp where
  | keep (block : Bytes)
  | orphan (block : Bytes) (observed : Int)

/-- The set that the call adds to is not full, or nothing is left to add. -/
def SessionGc.Fits (gc : SessionGc) : GcOp → Prop
  | .keep _ => gc.keep.length < maxBlocks
  | .orphan block _ => gc.Wanted block → gc.key block ∈ gc.orphanIds ∨ gc.orphans.length < maxBlocks

def SessionGc.step (gc : SessionGc) : GcOp → Option (GcResult × SessionGc)
  | .keep block => gc.keepAdd block
  | .orphan block observed => gc.orphanAdd block observed

structure GcEvent where
  before : SessionGc
  op : GcOp
  result : GcResult

def SessionGc.run (gc : SessionGc) : List GcOp → Option (List GcEvent × SessionGc)
  | [] => some ([], gc)
  | op :: ops => (gc.step op).bind fun done =>
    (done.2.run ops).map fun rest => (⟨gc, op, done.1⟩ :: rest.1, rest.2)

def GcEvent.Keeps (event : GcEvent) (key : Bytes) : Prop :=
  ∃ block, event.op = .keep block ∧ event.result = .ok ∧ key = event.before.key block

def GcEvent.Orphans (event : GcEvent) (key : Bytes) : Prop :=
  ∃ block observed, event.op = .orphan block observed ∧ event.result = .ok ∧ event.before.Wanted block ∧
    key = event.before.key block

/-- The size stays within four times the number of keys, so that a table is never too large to double. -/
structure TableOf (keys : List Bytes) (table : ProbeTable Bytes) : Prop where
  large : 256 ≤ table.size
  small : table.size ≤ 256 + 4 * keys.length
  holds : ProbeTable.Holds bucketWord table keys

def Indexed (hash : Option (ProbeTable Bytes)) (keys : List Bytes) : Prop :=
  keys.length ≤ maxBlocks ∧
    (hash = none ∧ keys = [] ∨
      ∃ table, hash = some table ∧ keys.length < table.size ∧ TableOf keys table)

theorem growHash_spec {hash : Option (ProbeTable Bytes)} {keys : List Bytes} (indexed : Indexed hash keys) :
    ∃ table, growHash hash keys = some (some table) ∧ keys.length + 1 < table.size ∧ TableOf keys table := by
  have built (size : Nat) (large : 256 ≤ size) (small : size ≤ 256 + 4 * keys.length)
      (room : keys.length + 1 < size) :
      ∃ table, (ProbeTable.build bucketWord size keys).map some = some (some table) ∧
        keys.length + 1 < table.size ∧ TableOf keys table := by
    obtain ⟨table, done, rfl, holds⟩ := ProbeTable.Holds.build bucketWord size keys (by omega)
    exact ⟨table, by rw [done]; rfl, room, large, small, holds⟩
  obtain ⟨few, ⟨rfl, rfl⟩ | ⟨table, rfl, room, of⟩⟩ := indexed
  · exact built 256 le_rfl (by simp) (by simp)
  · have most : maxBlocks = 262144 := rfl
    have large := of.large
    have small := of.small
    simp only [growHash, Option.elim_some]
    split_ifs with half limit
    · omega
    · exact built _ (by omega) (by omega) (by omega)
    · exact ⟨table, rfl, by omega, of⟩

theorem Indexed.append {table : ProbeTable Bytes} {keys : List Bytes} (few : keys.length < maxBlocks)
    (room : keys.length + 1 < table.size) (of : TableOf keys table) (key : Bytes) :
    ∃ after, table.add bucketWord key = some after ∧ Indexed (some after) (keys ++ [key]) := by
  obtain ⟨after, added, sized, more⟩ := of.holds.add (by omega) key
  have large := of.large
  have small := of.small
  have length : (keys ++ [key]).length = keys.length + 1 := List.length_append
  refine ⟨after, added, by omega, .inr ⟨after, rfl, by omega, by omega, by omega, more⟩⟩

namespace SessionGc

structure Sound (gc : SessionGc) : Prop where
  keep : Indexed gc.keepHash gc.keep
  orphans : Indexed gc.orphanHash gc.orphanIds
  once : gc.orphanIds.Nodup

variable {gc : SessionGc}

theorem Sound.keepQuery (sound : gc.Sound) (block : Bytes) :
    ∃ found, gc.keepQuery block = some found ∧ (found = true ↔ gc.key block ∈ gc.keep) := by
  obtain ⟨_, ⟨missing, -⟩ | ⟨table, present, room, of⟩⟩ := sound.keep
  · exact ⟨_, by rw [SessionGc.keepQuery, missing, Option.elim_none], List.contains_iff_mem⟩
  · rw [SessionGc.keepQuery, present]
    exact of.holds.query room _

structure Grows (gc : SessionGc) (op : GcOp) (result : GcResult) (after : SessionGc) : Prop where
  sound : after.Sound
  names : after.nameBytes = gc.nameBytes
  fits : result = .ok ↔ gc.Fits op
  keep : ∀ key, key ∈ after.keep ↔ key ∈ gc.keep ∨ GcEvent.Keeps ⟨gc, op, result⟩ key
  orphans : ∀ key, key ∈ after.orphanIds ↔ key ∈ gc.orphanIds ∨ GcEvent.Orphans ⟨gc, op, result⟩ key

theorem Sound.keepAdd (sound : gc.Sound) (block : Bytes) :
    ∃ result after, gc.keepAdd block = some (result, after) ∧ gc.Grows (.keep block) result after := by
  have apart (key : Bytes) (result : GcResult) : ¬ GcEvent.Orphans ⟨gc, .keep block, result⟩ key := by
    rintro ⟨_, _, op, -⟩
    cases op
  have kept (key : Bytes) (result : GcResult) :
      GcEvent.Keeps ⟨gc, .keep block, result⟩ key ↔ result = .ok ∧ key = gc.key block := by
    simp [GcEvent.Keeps]
  rw [SessionGc.keepAdd]
  split_ifs with full
  · exact ⟨_, _, rfl, sound, rfl, by simp [Fits, full], fun key => by simp [kept],
      fun key => by simp [apart]⟩
  · obtain ⟨table, done, room, of⟩ := growHash_spec sound.keep
    obtain ⟨found, asked, member⟩ := of.holds.query (by omega) (gc.key block)
    have fits : GcResult.ok = .ok ↔ gc.Fits (.keep block) := by simpa [Fits] using full
    rw [done, Option.bind_some, Option.elim_some, keepIn, asked, Option.bind_some]
    split_ifs with here
    · rw [member] at here
      refine ⟨_, _, rfl, ⟨⟨sound.keep.1, .inr ⟨table, rfl, Nat.lt_of_succ_lt room, of⟩⟩, sound.orphans,
        sound.once⟩, rfl, fits, fun key => ?_, fun key => by simp [apart, orphanIds]⟩
      simp only [kept, true_and]
      exact (or_iff_left_of_imp fun same => same ▸ here).symm
    · obtain ⟨after, added, indexed⟩ := Indexed.append (by omega) room of (gc.key block)
      rw [added]
      exact ⟨_, _, rfl, ⟨indexed, sound.orphans, sound.once⟩, rfl, fits, fun key => by simp [kept],
        fun key => by simp [apart, orphanIds]⟩

theorem orphanAppend_spec (sound : gc.Sound) {table : ProbeTable Bytes}
    (few : gc.orphanIds.length < maxBlocks) (room : gc.orphanIds.length + 1 < table.size)
    (of : TableOf gc.orphanIds table) {key : Bytes} (absent : key ∉ gc.orphanIds) (observed : Int) :
    ∃ after, gc.orphanAppend key observed table = some (.ok, after) ∧ after.Sound ∧
      after.nameBytes = gc.nameBytes ∧ after.keep = gc.keep ∧ after.orphanIds = gc.orphanIds ++ [key] := by
  obtain ⟨after, added, indexed⟩ := Indexed.append few room of key
  have ids : (gc.orphans ++ [(key, observed)]).map Prod.fst = gc.orphanIds ++ [key] := by
    rw [List.map_append]
    rfl
  rw [orphanAppend, added]
  refine ⟨_, rfl, ⟨sound.keep, ?_, ?_⟩, rfl, rfl, ids⟩
  · rwa [orphanIds, ids]
  · rw [orphanIds, ids]
    exact List.concat_eq_append .. ▸ sound.once.concat absent

theorem orphanIn_spec (sound : gc.Sound) {table : ProbeTable Bytes}
    (room : gc.orphanIds.length + 1 < table.size) (of : TableOf gc.orphanIds table)
    (key : Bytes) (observed : Int) :
    ∃ result after, gc.orphanIn key observed table = some (result, after) ∧ after.Sound ∧
      after.nameBytes = gc.nameBytes ∧ after.keep = gc.keep ∧
      (result = .ok ↔ key ∈ gc.orphanIds ∨ gc.orphans.length < maxBlocks) ∧
      ∀ other, other ∈ after.orphanIds ↔ other ∈ gc.orphanIds ∨ result = .ok ∧ other = key := by
  have count : gc.orphanIds.length = gc.orphans.length := List.length_map _
  have same : ({ gc with orphanHash := some table } : SessionGc).Sound :=
    ⟨sound.keep, ⟨sound.orphans.1, .inr ⟨table, rfl, Nat.lt_of_succ_lt room, of⟩⟩, sound.once⟩
  obtain ⟨found, asked, present⟩ := of.holds.query (by omega) key
  rw [orphanIn, asked, Option.bind_some]
  by_cases member : key ∈ gc.orphanIds
  · rw [if_pos (present.mpr member)]
    refine ⟨_, _, rfl, same, rfl, rfl, by simp [member], fun other => ?_⟩
    simp only [true_and]
    exact (or_iff_left_of_imp fun same => same ▸ member).symm
  · rw [if_neg (mt present.mp member), orphanInsert]
    split_ifs with full moved
    · exact ⟨_, _, rfl, same, rfl, rfl, by simp [member, full], fun other => by simp [orphanIds]⟩
    · obtain ⟨fresh, built, sized, anew⟩ :=
        ProbeTable.Holds.build bucketWord table.size gc.orphanIds (by omega)
      have larger : gc.moreOrphans.Sound := ⟨sound.keep, sound.orphans, sound.once⟩
      have ofFresh : TableOf gc.orphanIds fresh := ⟨sized ▸ of.large, sized ▸ of.small, anew⟩
      obtain ⟨after, done, sound', names, keep, ids⟩ := orphanAppend_spec larger
        (show gc.orphanIds.length < maxBlocks by omega) (sized.symm ▸ room) ofFresh member observed
      rw [built, Option.bind_some]
      refine ⟨_, after, done, sound', names, keep, by simpa [member] using full, fun other => ?_⟩
      rw [ids, List.mem_append, List.mem_singleton]
      simp [moreOrphans, orphanIds]
    · obtain ⟨after, done, sound', names, keep, ids⟩ :=
        orphanAppend_spec sound (by omega) room of member observed
      refine ⟨_, after, done, sound', names, keep, by simpa [member] using full, fun other => ?_⟩
      simp [ids]

theorem Sound.orphanAdd (sound : gc.Sound) (block : Bytes) (observed : Int) :
    ∃ result after, gc.orphanAdd block observed = some (result, after) ∧
      gc.Grows (.orphan block observed) result after := by
  have apart (key : Bytes) (result : GcResult) : ¬ GcEvent.Keeps ⟨gc, .orphan block observed, result⟩ key := by
    rintro ⟨_, op, -⟩
    cases op
  have wanted (key : Bytes) (result : GcResult) : GcEvent.Orphans ⟨gc, .orphan block observed, result⟩ key ↔
      result = .ok ∧ gc.Wanted block ∧ key = gc.key block := by
    simp [GcEvent.Orphans]
  have unchanged (skip : ¬ gc.Wanted block) : gc.Grows (.orphan block observed) .ok gc := by
    refine ⟨sound, rfl, by simp [Fits, skip], fun key => by simp [apart], fun key => ?_⟩
    rw [wanted]
    exact (or_iff_left fun asked => skip asked.2.1).symm
  obtain ⟨found, query, -⟩ := sound.keepQuery block
  rw [SessionGc.orphanAdd, query, Option.bind_some]
  split_ifs with skipped kept
  · refine ⟨_, _, rfl, unchanged fun asked => ?_⟩
    simp [asked.1, asked.2.1] at skipped
  · refine ⟨_, _, rfl, unchanged fun asked => ?_⟩
    simp [SessionGc.Wanted, query, kept] at asked
  · obtain ⟨table, done, room, of⟩ := growHash_spec sound.orphans
    have asked : gc.Wanted block := by
      rw [SessionGc.Wanted, query, Option.some_inj]
      simpa [not_or, and_assoc] using And.intro skipped kept
    obtain ⟨result, after, ends, sound', names, keep, fits, ids⟩ :=
      orphanIn_spec sound room of (gc.key block) observed
    rw [done, Option.bind_some, Option.elim_some]
    refine ⟨result, after, ends, sound', names, by simpa [Fits, asked] using fits,
      fun key => by simp [keep, apart], fun key => ?_⟩
    rw [ids, wanted]
    simp [asked]

theorem Sound.step (sound : gc.Sound) (op : GcOp) :
    ∃ result after, gc.step op = some (result, after) ∧ gc.Grows op result after := by
  cases op with
  | keep block => exact sound.keepAdd block
  | orphan block observed => exact sound.orphanAdd block observed

theorem Sound.run (sound : gc.Sound) (ops : List GcOp) :
    ∃ events last, gc.run ops = some (events, last) ∧ last.Sound ∧ last.nameBytes = gc.nameBytes ∧
      (∀ event ∈ events, event.result = .ok ↔ event.before.Fits event.op) ∧
      (∀ key, key ∈ last.keep ↔ key ∈ gc.keep ∨ ∃ event ∈ events, event.Keeps key) ∧
      ∀ key, key ∈ last.orphanIds ↔ key ∈ gc.orphanIds ∨ ∃ event ∈ events, event.Orphans key := by
  induction ops generalizing gc with
  | nil => exact ⟨[], gc, rfl, sound, rfl, by simp, by simp, by simp⟩
  | cons op ops ih =>
    obtain ⟨result, after, done, grows⟩ := sound.step op
    obtain ⟨events, last, rest, sound', names, fits, keep, orphans⟩ := ih grows.sound
    refine ⟨⟨gc, op, result⟩ :: events, last, ?_, sound', names.trans grows.names,
      List.forall_mem_cons.mpr ⟨grows.fits, fits⟩, fun key => ?_, fun key => ?_⟩
    · rw [SessionGc.run, done, Option.bind_some, rest]
      rfl
    · simp [keep, grows.keep, or_assoc]
    · simp [orphans, grows.orphans, or_assoc]

end SessionGc

/-- Every call of every sequence ends, and well unless its set is full; a query then finds the ids kept
with success, and the array of orphans holds each id accepted as an orphan once and nothing else. -/
theorem sessionGc_sets (nameBytes : Nat) (findOrphans : Bool) (inMain : Bytes → Bool) (ops : List GcOp) :
    ∃ events last, (SessionGc.fresh nameBytes findOrphans inMain).run ops = some (events, last) ∧
      (∀ event ∈ events, event.result = .ok ↔ event.before.Fits event.op) ∧
      (∀ block, ∃ found, last.keepQuery block = some found ∧
        (found = true ↔ ∃ event ∈ events, event.Keeps (block.take nameBytes))) ∧
      ∀ key, last.orphanIds.count key ≤ 1 ∧
        (last.orphanIds.count key = 1 ↔ ∃ event ∈ events, event.Orphans key) := by
  have start : (SessionGc.fresh nameBytes findOrphans inMain).Sound :=
    ⟨⟨Nat.zero_le _, .inl ⟨rfl, rfl⟩⟩, ⟨Nat.zero_le _, .inl ⟨rfl, rfl⟩⟩, List.nodup_nil⟩
  obtain ⟨events, last, done, sound, names, fits, keep, orphans⟩ := start.run ops
  refine ⟨events, last, done, fits, fun block => ?_, fun key => ⟨?_, ?_⟩⟩
  · obtain ⟨found, query, present⟩ := sound.keepQuery block
    refine ⟨found, query, ?_⟩
    rw [present, keep, SessionGc.key, names]
    simp [SessionGc.fresh]
  · exact List.nodup_iff_count_le_one.mp sound.once key
  · have member := orphans key
    rw [← List.count_pos_iff] at member
    have once := List.nodup_iff_count_le_one.mp sound.once key
    rw [show last.orphanIds.count key = 1 ↔ 0 < last.orphanIds.count key by omega, member]
    simp [SessionGc.fresh, SessionGc.orphanIds]

/-- Two ids, of which one is kept twice and handed over in vain, and the other one is handed over twice. -/
def keepAndOrphan : List GcOp :=
  [.keep [1, 1, 9], .keep [1, 1], .orphan [1, 1] 5, .orphan [2, 2] 5, .orphan [2, 2, 7] 6]

theorem sessionGc_sets_keepAndOrphan :
    ∃ events last, (SessionGc.fresh 2 false fun _ => false).run keepAndOrphan = some (events, last) ∧
      events.length = 5 ∧ last.orphanIds = [[2, 2]] ∧ (∃ event ∈ events, event.Keeps [1, 1]) ∧
      (∃ event ∈ events, event.Orphans [2, 2]) ∧ ¬ ∃ event ∈ events, event.Orphans [1, 1] := by
  have evaluated : ((SessionGc.fresh 2 false fun _ => false).run keepAndOrphan).map (fun done =>
      (done.1.length, done.2.orphanIds, done.2.keepQuery [1, 1])) = some (5, [[2, 2]], some true) := by
    decide +kernel
  obtain ⟨events, last, done, _, keep, orphans⟩ := sessionGc_sets 2 false (fun _ => false) keepAndOrphan
  rw [done, Option.map_some, Option.some_inj] at evaluated
  obtain ⟨found, query, kept⟩ := keep [1, 1]
  simp only [Prod.mk.injEq] at evaluated
  obtain ⟨length, ids, asked⟩ := evaluated
  rw [query, Option.some_inj] at asked
  refine ⟨events, last, done, length, ids, kept.mp asked, (orphans [2, 2]).2.mp ?_, fun given => ?_⟩
  · rw [ids]
    decide
  · have once := (orphans [1, 1]).2.mpr given
    rw [ids] at once
    exact absurd once (by decide)

end RusqDoltlite.Cleanup

import RusqDoltlite.Blocks.ReadSplit
import RusqDoltlite.Session.FreeDigest
import Mathlib.Data.List.Rotate

/-! Reads that find their blocks. Without faults and without other threads, a read returns if each
of its blocks stays in the cache or can be fetched; together with the split of its range this says
when it returns what was asked for. -/

namespace RusqDoltlite.Blocks

open Effects Session

variable {Hash : Type}

namespace Vfs

variable {vfs : Vfs Hash} {slot : Nat}

theorem inFile_iff : vfs.inFile slot = true ↔
    ∃ later < vfs.slots, slot ≤ later ∧ vfs.file later ≠ [] := by
  simp [inFile, List.any_eq_true]

theorem inFile_mono {after : Vfs Hash} (grown : vfs.slots ≤ after.slots)
    (kept : ∀ later, vfs.file later ≠ [] → after.file later ≠ []) (inside : vfs.inFile slot = true) :
    after.inFile slot = true := by
  obtain ⟨later, bound, reach, written⟩ := inFile_iff.mp inside
  exact inFile_iff.mpr ⟨later, by omega, reach, kept later written⟩

/-- A slot can be had without staging: one is unused, the file may grow, or a clean entry can
give up its own. -/
def Roomy (vfs : Vfs Hash) : Prop :=
  (∃ slot ∈ vfs.unused, slot < vfs.maxSlots) ∨ vfs.slots < vfs.maxSlots ∨
    ∃ entry ∈ vfs.hash, entry.dirty = false ∧ entry.slot < vfs.maxSlots

instance (vfs : Vfs Hash) : Decidable vfs.Roomy :=
  inferInstanceAs (Decidable (_ ∨ _ ∨ _))

theorem view_of_database {container : String} {dbId : Nat} {db : ManifestDb}
    (known : vfs.database container dbId = some db) :
    ∃ view, vfs.view container dbId = some view ∧ view.count = db.blkLocal.length := by
  unfold view blockSize
  cases attached : (vfs.containers container).man with
  | none => simp [database, attached] at known
  | some man => exact ⟨_, by rw [known]; rfl, rfl⟩

/-- A slot that the cache has given out is in no list. What left the hash table for it was
clean. -/
structure GivenOut (before : Vfs Hash) (entry : CacheEntry) (after : Vfs Hash) : Prop where
  blank : entry.valid = false ∧ entry.dirty = false ∧ entry.staged = false
  bound : entry.slot < before.maxSlots
  slot : entry.slot < after.slots
  hash : ∀ other, other ∈ after.hash ↔ other ∈ before.hash ∧ other.slot ≠ entry.slot
  clean : ∀ other ∈ before.hash, other.slot = entry.slot → other.dirty = false
  unused : ∀ other ∈ after.unused, other ∈ before.unused ∧ other ≠ entry.slot
  distinct : (after.hash.map CacheEntry.slot ++ after.unused).Nodup
  slots : before.slots ≤ after.slots
  file : after.file = before.file
  szBlk : after.szBlk = before.szBlk
  maxCache : after.maxCache = before.maxCache
  containers : after.containers = before.containers
  ledger : after.ledger = before.ledger

theorem givenOut {held : List Nat} {reuse : Nat} {entry : CacheEntry} {after : Vfs Hash}
    (slots : ∀ entry ∈ vfs.hash, entry.slot < vfs.slots) (unused : ∀ slot ∈ vfs.unused, slot < vfs.slots)
    (distinct : (vfs.hash.map CacheEntry.slot ++ vfs.unused).Nodup)
    (picked : vfs.allocCacheEntry held reuse = some (entry, after)) : vfs.GivenOut entry after := by
  obtain ⟨hashNodup, unusedNodup, apart⟩ := List.nodup_append.mp distinct
  unfold allocCacheEntry at picked
  cases found : vfs.unused.find? (· < vfs.maxSlots) with
  | some slot =>
    rw [found] at picked
    cases picked
    have member := List.mem_of_find?_eq_some found
    have bound : slot < vfs.maxSlots := by simpa using List.find?_some found
    have free : ∀ other ∈ vfs.hash, other.slot ≠ slot := by
      intro other there same
      exact apart _ (List.mem_map.mpr ⟨other, there, rfl⟩) _ member same
    refine ⟨⟨rfl, rfl, rfl⟩, bound, unused slot member, ?_, ?_, ?_, ?_, le_rfl, rfl, rfl, rfl, rfl, rfl⟩
    · exact fun other => ⟨fun there => ⟨there, free other there⟩, And.left⟩
    · exact fun other there same => absurd same (free other there)
    · intro other there
      exact (unusedNodup.mem_erase_iff.mp there).symm
    · exact List.Nodup.sublist (List.Sublist.append_left List.erase_sublist _) distinct
  | none =>
    rw [found] at picked
    dsimp only at picked
    split at picked
    · rename_i grows
      cases picked
      have free : ∀ other ∈ vfs.hash, other.slot ≠ vfs.slots := fun other there => (slots other there).ne
      refine ⟨⟨rfl, rfl, rfl⟩, grows, Nat.lt_succ_self _, ?_, ?_, ?_, distinct, Nat.le_succ _, rfl, rfl,
        rfl, rfl, rfl⟩
      · exact fun other => ⟨fun there => ⟨there, free other there⟩, And.left⟩
      · exact fun other there same => absurd same (free other there)
      · exact fun other there => ⟨there, (unused other there).ne⟩
    · obtain ⟨victim, head, made⟩ := Option.map_eq_some_iff.mp picked
      cases made
      have chosen : victim ∈ vfs.reusable held := List.mem_rotate.mp (List.mem_of_mem_head? head)
      obtain ⟨there, allowed⟩ := List.mem_filter.mp chosen
      have clean : victim.dirty = false ∧ victim.slot < vfs.maxSlots := by simp_all
      refine ⟨⟨rfl, rfl, rfl⟩, clean.2, slots victim there, ?_, ?_, ?_, ?_, le_rfl, rfl, rfl, rfl, rfl,
        rfl⟩
      · simp [hashRemove]
      · intro other member same
        rw [List.inj_on_of_nodup_map hashNodup member there same]
        exact clean.1
      · intro other member
        refine ⟨member, ?_⟩
        rintro rfl
        exact apart _ (List.mem_map.mpr ⟨victim, there, rfl⟩) _ member rfl
      · exact List.Nodup.sublist
          (List.Sublist.append_right (List.Sublist.map _ List.filter_sublist) _) distinct

theorem exists_allocCacheEntry (reuse : Nat) (roomy : vfs.Roomy)
    (valid : ∀ entry ∈ vfs.hash, entry.valid = true) :
    ∃ entry after, vfs.allocCacheEntry [] reuse = some (entry, after) := by
  unfold allocCacheEntry
  cases found : vfs.unused.find? (· < vfs.maxSlots) with
  | some slot => exact ⟨_, _, rfl⟩
  | none =>
    dsimp only
    split
    · exact ⟨_, _, rfl⟩
    · rename_i full
      have clean : vfs.reusable [] ≠ [] := by
        rcases roomy with ⟨slot, member, bound⟩ | grows | ⟨entry, member, clean, bound⟩
        · have refused := List.find?_eq_none.mp found slot member
          simp [bound] at refused
        · exact absurd grows full
        · apply List.ne_nil_of_mem
          exact List.mem_filter.mpr ⟨member, by simp [valid entry member, clean, bound]⟩
      have turned : (vfs.reusable []).rotate reuse ≠ [] := by
        rw [Ne, List.rotate_eq_nil_iff]
        exact clean
      obtain ⟨entry, rest, picked⟩ := List.exists_cons_of_ne_nil turned
      exact ⟨_, _, by rw [picked]; rfl⟩

end Vfs

variable [DecidableEq Hash] [Digest Hash]

def World.next (world : World Hash) : World Hash :=
  { world with
    choices := fun n => world.choices (n + 1)
    blocks := fun name => (world.blocks name).or ((world.choices 0).arrivals.lookup name) }

variable {world : World Hash} {failure : Err → World Hash → Prop} {entry : CacheEntry}
  {slot pos amount offset : Nat}

theorem draw_iff {success : Choice Hash → World Hash → Prop} :
    Meets (draw : VfsM Hash (Choice Hash)) world success failure ↔
      success (world.choices 0) world.next := Iff.rfl

theorem effect_iff (quiet : (world.choices 0).fault = none) {success : Unit → World Hash → Prop} :
    Meets (effect : VfsM Hash Unit) world success failure ↔ success () world.next := by
  simp only [effect, Meets.bind, draw_iff, quiet, Meets.pure]

theorem allocate_iff (quiet : (world.choices 1).fault = none) {vfs : Vfs Hash}
    (picked : world.vfs.allocCacheEntry (world.choices 0).held (world.choices 0).reuse = some (entry, vfs))
    {success : CacheEntry → World Hash → Prop} :
    Meets (allocate : VfsM Hash CacheEntry) world success failure ↔
      success entry (World.next { world.next with vfs := vfs }) := by
  unfold allocate draw onVfs
  simp only [Meets.bind, Meets.get, Meets.set, Meets.pure, picked, Meets.modify,
    Meets.tryCatch]
  exact effect_iff quiet

/-- The block has an object, and a read would look for it. -/
def Retrievable (db : ManifestDb) (szBlk : Nat) (place : Place) (name : BlockId) (world : World Hash) :
    Prop :=
  (place.pos < db.blkOrig.length ∨ (world.vfs.ledger.find place name).isSome = true) ∧
    ∃ bytes, world.blocks name = some bytes ∧ bytes.length = szBlk

/-- The block is still there when others have been loaded: no dirty entry gives up its slot. -/
def Lasting (db : ManifestDb) (szBlk : Nat) (place : Place) (name : BlockId) (world : World Hash) :
    Prop :=
  (∃ entry ∈ world.vfs.hash, entry.name = name ∧ entry.dirty = true) ∨
    Retrievable db szBlk place name world

/-- The blocks `asked` for can be read without a fault. If one of them is not in the cache, a slot
can be had without staging, and each of them lasts. The entry of the slot that is `loading` need
not be valid yet. -/
structure AtHand (container : String) (dbId : Nat) (db : ManifestDb) (szBlk : Nat)
    (asked : Nat → Prop) (loading : Option Nat) (world : World Hash) : Prop where
  calm : ∀ n, (world.choices n).fault = none ∧ (world.choices n).held = []
  size : world.vfs.szBlk = szBlk
  known : world.vfs.database container dbId = some db
  slots : ∀ entry ∈ world.vfs.hash, entry.slot < world.vfs.slots
  unused : ∀ slot ∈ world.vfs.unused, slot < world.vfs.slots
  distinct : (world.vfs.hash.map CacheEntry.slot ++ world.vfs.unused).Nodup
  valid : ∀ entry ∈ world.vfs.hash, some entry.slot = loading ∨
    entry.valid = true ∧ world.vfs.inFile entry.slot = true
  present :
    (∃ pos name, asked pos ∧ db.blkLocal[pos]? = some name ∧ world.vfs.hashFind name = none) →
      world.vfs.Roomy ∧ ∀ pos name, asked pos → db.blkLocal[pos]? = some name →
        Lasting db szBlk ⟨container, dbId, pos⟩ name world

namespace AtHand

variable {container : String} {dbId : Nat} {db : ManifestDb} {szBlk : Nat} {asked : Nat → Prop}
  {loading : Option Nat} {world : World Hash}

theorem next (hand : AtHand container dbId db szBlk asked loading world) :
    AtHand container dbId db szBlk asked loading world.next :=
  { hand with
    calm := fun n => hand.calm (n + 1)
    present := by
      intro absent
      obtain ⟨roomy, lasting⟩ := hand.present absent
      refine ⟨roomy, fun pos name wanted mapped => ?_⟩
      rcases lasting pos name wanted mapped with dirty | ⟨known, bytes, stored, length⟩
      · exact .inl dirty
      · exact .inr ⟨known, bytes, by simp [World.next, stored], length⟩ }

variable (hand : AtHand container dbId db szBlk asked none world) (positive : 0 < szBlk)
  (wanted : asked pos) (mapped : pos < db.blkLocal.length)

include hand in
theorem weaken (slot : Option Nat) : AtHand container dbId db szBlk asked slot world :=
  { hand with valid := fun entry member => .inr ((hand.valid entry member).resolve_left (by simp)) }

theorem setEntry (hand : AtHand container dbId db szBlk asked loading world) {change : CacheEntry → CacheEntry}
    {still : Option Nat}
    (kept : ∀ entry, (change entry).slot = entry.slot ∧ (change entry).name = entry.name ∧
      (change entry).dirty = entry.dirty)
    (valid : ∀ entry ∈ world.vfs.hash, some entry.slot = still ∨
      (if entry.slot = slot then change entry else entry).valid = true ∧ world.vfs.inFile entry.slot = true) :
    AtHand container dbId db szBlk asked still
      { world with vfs := world.vfs.setEntry slot change } := by
  have same : ∀ entry : CacheEntry,
      (if entry.slot = slot then change entry else entry).slot = entry.slot ∧
      (if entry.slot = slot then change entry else entry).name = entry.name ∧
      (if entry.slot = slot then change entry else entry).dirty = entry.dirty := by
    intro entry
    split
    · exact kept entry
    · exact ⟨rfl, rfl, rfl⟩
  have forth : ∀ old ∈ world.vfs.hash,
      (if old.slot = slot then change old else old) ∈ (world.vfs.setEntry slot change).hash :=
    fun old member => List.mem_map.mpr ⟨old, member, rfl⟩
  refine { hand with slots := ?_, distinct := ?_, valid := ?_, present := ?_ }
  · intro entry member
    obtain ⟨old, there, rfl⟩ := List.mem_map.mp member
    rw [(same old).1]
    exact hand.slots old there
  · have slots : (world.vfs.setEntry slot change).hash.map CacheEntry.slot =
        world.vfs.hash.map CacheEntry.slot := by
      simp only [Vfs.setEntry, List.map_map]
      exact List.map_congr_left fun entry _ => (same entry).1
    rw [slots]
    exact hand.distinct
  · intro entry member
    obtain ⟨old, there, rfl⟩ := List.mem_map.mp member
    rw [(same old).1]
    exact valid old there
  · rintro ⟨pos, name, wanted, mapped, absent⟩
    have before : world.vfs.hashFind name = none := by
      apply List.find?_eq_none.mpr
      intro old there
      have unlike := List.find?_eq_none.mp absent _ (forth old there)
      rwa [(same old).2.1] at unlike
    obtain ⟨roomy, lasting⟩ := hand.present ⟨pos, name, wanted, mapped, before⟩
    constructor
    · rcases roomy with free | grows | ⟨old, there, clean, bound⟩
      · exact .inl free
      · exact .inr (.inl grows)
      · refine .inr (.inr ⟨_, forth old there, ?_⟩)
        rw [(same old).2.2, (same old).1]
        exact ⟨clean, bound⟩
    · intro pos name wanted mapped
      rcases lasting pos name wanted mapped with ⟨old, there, called, dirty⟩ | retrievable
      · refine .inl ⟨_, forth old there, ?_⟩
        rw [(same old).2.1, (same old).2.2]
        exact ⟨called, dirty⟩
      · exact .inr retrievable

theorem setFile (hand : AtHand container dbId db szBlk asked loading world) {bytes : Bytes}
    (written : bytes ≠ []) :
    AtHand container dbId db szBlk asked loading
      { world with vfs := world.vfs.setFile slot bytes } :=
  { hand with
    valid := by
      intro entry member
      rcases hand.valid entry member with same | ⟨valid, inside⟩
      · exact .inl same
      · have kept : ∀ later, world.vfs.file later ≠ [] →
            (world.vfs.setFile slot bytes).file later ≠ [] := by
          intro later old
          dsimp only [Vfs.setFile]
          split
          · exact written
          · exact old
        exact .inr ⟨valid, Vfs.inFile_mono (le_refl world.vfs.slots) kept inside⟩ }

theorem fetchObject_loads (hand : AtHand container dbId db szBlk asked loading world) {name : BlockId}
    {bytes : Bytes} (stored : world.blocks name = some bytes) (length : bytes.length = szBlk)
    (positive : 0 < szBlk) (bound : slot < world.vfs.slots) :
    Meets (fetchObject name slot : VfsM Hash Unit) world
      (fun _ after => AtHand container dbId db szBlk asked loading after ∧
        after.vfs.inFile slot = true ∧ after.vfs.hash = world.vfs.hash)
      (fun _ _ => False) := by
  have there : world.next.blocks name = some bytes := by simp [World.next, stored]
  have whole : bytes.length = world.next.vfs.szBlk := length.trans hand.next.size.symm
  simp only [fetchObject, getBlock, writeSlot, onVfs, Meets.bind, effect_iff (hand.calm 0).1, Meets.get,
    there, Meets.pure, Meets.require, if_pos whole, effect_iff (hand.next.calm 0).1, Meets.modify]
  have written : bytes ≠ [] := by
    rintro rfl
    simp at length
    omega
  refine ⟨hand.next.next.setFile written, ?_, rfl⟩
  apply Vfs.inFile_iff.mpr
  exact ⟨slot, bound, le_rfl, by simpa [Vfs.setFile] using written⟩

include hand in
theorem hashAdd {after : Vfs Hash} (given : world.vfs.GivenOut entry after)
    (lasting : ∀ pos name, asked pos → db.blkLocal[pos]? = some name →
      Lasting db szBlk ⟨container, dbId, pos⟩ name world)
    (name : BlockId) :
    AtHand container dbId db szBlk asked (some entry.slot)
      { world with vfs := after.hashAdd { entry with name := name } } where
  calm := hand.calm
  size := given.szBlk.trans hand.size
  known := by
    rw [← hand.known]
    simp only [Vfs.database, Vfs.hashAdd, given.containers]
  slots := by
    intro other member
    rcases List.mem_cons.mp member with rfl | old
    · exact given.slot
    · exact (hand.slots other ((given.hash other).mp old).1).trans_le given.slots
  unused other member := (hand.unused other (given.unused other member).1).trans_le given.slots
  distinct := by
    apply List.nodup_cons.mpr
    refine ⟨?_, given.distinct⟩
    intro member
    rcases List.mem_append.mp member with there | there
    · obtain ⟨other, present, same⟩ := List.mem_map.mp there
      exact ((given.hash other).mp present).2 same
    · exact (given.unused entry.slot there).2 rfl
  valid := by
    intro other member
    rcases List.mem_cons.mp member with rfl | old
    · exact .inl rfl
    · obtain ⟨valid, inside⟩ :=
        (hand.valid other ((given.hash other).mp old).1).resolve_left (by simp)
      have same : ∀ later, world.vfs.file later ≠ [] → after.file later ≠ [] := by
        rw [given.file]
        exact fun _ written => written
      exact .inr ⟨valid, Vfs.inFile_mono given.slots same inside⟩
  present := by
    intro _
    constructor
    · refine .inr (.inr ⟨{ entry with name := name }, List.mem_cons_self, given.blank.2.1, ?_⟩)
      have bound := given.bound
      unfold Vfs.maxSlots at bound ⊢
      rw [← given.szBlk, ← given.maxCache] at bound
      exact bound
    · intro pos block wanted mapped
      rcases lasting pos block wanted mapped with ⟨other, there, called, dirty⟩ | ⟨known, stored⟩
      · refine .inl ⟨other, List.mem_cons_of_mem _ ((given.hash other).mpr ⟨there, ?_⟩), called, dirty⟩
        intro same
        rw [given.clean other there same] at dirty
        cases dirty
      · refine .inr ⟨?_, stored⟩
        change _ ∨ (after.ledger.find _ _).isSome = true
        rw [given.ledger]
        exact known

include hand wanted in
theorem findBlockForIo_loads {name : BlockId} (mapped : db.blkLocal[pos]? = some name) :
    Meets (findBlockForIo db pos : VfsM Hash CacheEntry) world
      (fun entry after => AtHand container dbId db szBlk asked (some entry.slot) after ∧
        entry.slot < after.vfs.slots ∧ entry.name = name ∧
        (entry.valid = true ∧ after.vfs.inFile entry.slot = true ∨
          entry.valid = false ∧ Retrievable db szBlk ⟨container, dbId, pos⟩ name after))
      (fun _ _ => False) := by
  simp only [findBlockForIo, mapped, Meets.bind, Meets.get]
  cases found : world.vfs.hashFind name with
  | some entry =>
    have member : entry ∈ world.vfs.hash := List.mem_of_find?_eq_some found
    have same : entry.name = name := by simpa using List.find?_some found
    obtain ⟨valid, inside⟩ := (hand.valid entry member).resolve_left (by simp)
    simp only [Meets.bind, Meets.require, valid, if_true, Meets.pure]
    exact ⟨hand.weaken _, hand.slots entry member, same, .inl ⟨trivial, inside⟩⟩
  | none =>
    obtain ⟨roomy, lasting⟩ := hand.next.next.present ⟨pos, name, wanted, mapped, found⟩
    obtain ⟨entry, vfs, picked⟩ := Vfs.exists_allocCacheEntry (world.choices 0).reuse roomy
      fun entry member => ((hand.valid entry member).resolve_left (by simp)).1
    have given := Vfs.givenOut hand.slots hand.unused hand.distinct picked
    change world.vfs.allocCacheEntry _ _ = _ at picked
    rw [← (hand.calm 0).2] at picked
    rw [Meets.bind, allocate_iff (hand.calm 1).1 picked]
    simp only [onVfs, Meets.bind, Meets.modify, Meets.pure]
    refine ⟨hand.next.next.hashAdd given lasting name, given.slot, trivial, .inr ⟨given.blank.1, ?_⟩⟩
    -- a dirty entry of the name would have been found
    rcases lasting pos name wanted mapped with ⟨other, there, called, _⟩ | ⟨known, stored⟩
    · exact absurd called (by simpa using List.find?_eq_none.mp found other there)
    · refine ⟨?_, stored⟩
      change _ ∨ (vfs.ledger.find _ _).isSome = true
      rw [given.ledger]
      exact known

theorem fetchBlock_loads {place : Place} (hand : AtHand container dbId db szBlk asked (some entry.slot) world)
    (positive : 0 < szBlk) (bound : entry.slot < world.vfs.slots) (mapped : place.pos < db.blkLocal.length)
    (filled : entry.valid = true ∧ world.vfs.inFile entry.slot = true ∨
      entry.valid = false ∧ Retrievable db szBlk place entry.name world) :
    Meets (fetchBlock place db entry : VfsM Hash (Bool × Bool)) world
      (fun _ after => AtHand container dbId db szBlk asked (some entry.slot) after ∧
        after.vfs.inFile entry.slot = true)
      (fun _ _ => False) := by
  unfold fetchBlock
  rcases filled with ⟨valid, inside⟩ | ⟨invalid, known, bytes, stored, length⟩
  · rw [if_pos (.inl valid)]
    exact ⟨hand, inside⟩
  · rw [if_neg (by simp [invalid]; omega)]
    by_cases published : place.pos < db.blkOrig.length
    · rw [if_pos published, Meets.bind]
      apply (hand.fetchObject_loads stored length positive bound).sure
      exact fun _ _ loaded => ⟨loaded.1, loaded.2.1⟩
    · have staged : (world.next.vfs.ledger.find place entry.name).isSome = true :=
        known.resolve_left published
      have there : world.next.blocks entry.name = some bytes := by simp [World.next, stored]
      rw [if_neg published]
      simp only [isStaged, Meets.bind, effect_iff (hand.calm 0).1, Meets.get, Meets.pure, staged,
        Meets.when, if_true]
      apply (hand.next.fetchObject_loads there length positive bound).sure
      exact fun _ _ loaded => ⟨loaded.1, loaded.2.1⟩

theorem readyBlock_loads {place : Place} (hand : AtHand container dbId db szBlk asked (some entry.slot) world)
    (positive : 0 < szBlk) (bound : entry.slot < world.vfs.slots) (mapped : place.pos < db.blkLocal.length)
    (filled : entry.valid = true ∧ world.vfs.inFile entry.slot = true ∨
      entry.valid = false ∧ Retrievable db szBlk place entry.name world) :
    Meets (readyBlock place db (.read amount) entry : VfsM Hash (CacheEntry × Bool)) world
      (fun result after => result.1.slot = entry.slot ∧
        AtHand container dbId db szBlk asked (some entry.slot) after ∧
        after.vfs.inFile entry.slot = true)
      (fun _ _ => False) := by
  simp only [readyBlock, fillBlock, Meets.bind, Meets.tryCatch]
  apply (hand.fetchBlock_loads positive bound mapped filled).sure
  rintro ⟨staged, downloaded⟩ middle ⟨ready, inside⟩
  simp only [Transfer.isWrite, Bool.false_eq_true, false_and, if_false, onVfs,
    Meets.bind, Meets.modify, Meets.pure]
  refine ⟨trivial, ready.setEntry (fun _ => ⟨rfl, rfl, rfl⟩) ?_, inside⟩
  intro other member
  rcases ready.valid other member with same | good
  · exact .inl same
  · right
    split
    · exact good
    · exact good

theorem transferBlock_loads {row : Bool} (hand : AtHand container dbId db szBlk asked (some entry.slot) world)
    (inside : world.vfs.inFile entry.slot = true) :
    Meets (transferBlock entry row (.read amount) offset : VfsM Hash Bytes) world
      (fun _ after => AtHand container dbId db szBlk asked none after) (fun _ _ => False) := by
  have fill : ∀ world : World Hash, AtHand container dbId db szBlk asked (some entry.slot) world →
      world.vfs.inFile entry.slot = true → AtHand container dbId db szBlk asked none
        { world with vfs := world.vfs.setEntry entry.slot fun entry => { entry with valid := true } } := by
    intro world hand inside
    refine hand.setEntry (fun _ => ⟨rfl, rfl, rfl⟩) ?_
    intro other member
    right
    by_cases same : other.slot = entry.slot
    · rw [if_pos same, same]
      exact ⟨rfl, inside⟩
    · rw [if_neg same]
      exact (hand.valid other member).resolve_left fun equal => same (Option.some.inj equal)
  have there : world.next.vfs.inFile entry.slot = true := inside
  unfold transferBlock moveBytes readSlot
  simp only [Meets.tryCatch, Meets.bind, effect_iff (hand.calm 0).1, Meets.get,
    Meets.require, there, if_true, Meets.pure, onVfs, Meets.modify, Meets.when]
  split
  · rw [effect_iff (hand.next.calm 0).1]
    exact fill _ hand.next.next inside
  · exact fill _ hand.next inside

variable [BlockDigest]

include hand positive wanted mapped in
theorem acquireBlock_loads :
    Meets (acquireBlock ⟨container, dbId, pos⟩ (.read amount) : VfsM Hash (Option (CacheEntry × Bool)))
      world
      (fun result after => ∃ entry row, result = some (entry, row) ∧
        AtHand container dbId db szBlk asked (some entry.slot) after ∧ after.vfs.inFile entry.slot = true)
      (fun _ _ => False) := by
  have named : db.blkLocal[pos]? = some db.blkLocal[pos] := List.getElem?_eq_getElem mapped
  unfold acquireBlock
  rw [Meets.bind, Meets.get, hand.known]
  dsimp only
  rw [Meets.bind, Meets.require, if_pos (.inr mapped), Meets.bind, Meets.attempt]
  apply (hand.findBlockForIo_loads wanted named).sure
  rintro entry middle ⟨ready, bound, same, filled⟩
  rw [← same] at filled
  rw [Meets.bind]
  apply (ready.readyBlock_loads positive bound mapped filled).sure
  rintro ⟨found, row⟩ after ⟨slot, loaded, inside⟩
  rw [← slot] at loaded inside
  exact ⟨found, row, rfl, loaded, inside⟩

include hand positive wanted mapped in
theorem readWriteDatabase_loads (rounds : Nat) :
    Meets (readWriteDatabase ⟨container, dbId, pos⟩ (.read amount) offset rounds : VfsM Hash Bytes)
      world (fun _ after => AtHand container dbId db szBlk asked none after) (fun _ _ => False) := by
  have once : Meets
      (readWriteOnce ⟨container, dbId, pos⟩ (.read amount) offset : VfsM Hash (Option Bytes)) world
      (fun result after => result.isSome = true ∧ AtHand container dbId db szBlk asked none after)
      (fun _ _ => False) := by
    unfold readWriteOnce
    rw [Meets.bind, Meets.attempt]
    apply (hand.acquireBlock_loads positive wanted mapped).sure
    rintro _ middle ⟨entry, row, rfl, ready, inside⟩
    dsimp only
    rw [Meets.bind]
    apply (ready.transferBlock_loads inside).sure
    intro bytes after rested
    rw [Meets.bind, Meets.when, if_neg (by simp [Transfer.isWrite])]
    exact ⟨rfl, rested⟩
  cases rounds with
  | zero =>
    rw [readWriteDatabase, Meets.bind]
    apply once.sure
    rintro (_ | bytes) after ⟨served, rested⟩
    · cases served
    · exact rested
  | succ rounds =>
    rw [readWriteDatabase, Meets.bind]
    apply once.sure
    rintro (_ | bytes) after ⟨served, rested⟩
    · cases served
    · exact rested

include hand positive in
theorem readWritePart_loads
    (wanted : asked (offset / szBlk)) (readable : Readable szBlk dbId db.blkLocal.length (offset, amount)) :
    Meets (readWritePart container dbId (.read amount) offset : VfsM Hash Bytes) world
      (fun _ after => AtHand container dbId db szBlk asked none after) (fun _ _ => False) := by
  have regular : ¬ (offset = 0 ∧ (Transfer.read amount).amount = 100 ∧ dbId < firstLocalId) :=
    readable.1
  unfold readWritePart
  rw [Meets.bind, Meets.require, if_pos regular, Meets.bind, Meets.get]
  dsimp only
  rw [hand.size, Meets.tryCatch, Act.retry, Meets.tryCatch]
  apply (hand.readWriteDatabase_loads positive wanted readable.2 _).sure
  exact fun _ _ rested => rested

include hand in
theorem readWritePart_stops (unreadable : ¬ Readable szBlk dbId db.blkLocal.length (offset, amount)) :
    Meets (readWritePart container dbId (.read amount) offset : VfsM Hash Bytes) world
      (fun _ _ => False) (fun error _ => error.code = shortRead) := by
  unfold readWritePart
  rw [Meets.bind, Meets.require]
  split
  · rename_i regular
    have outside : ¬ ((Transfer.read amount).isWrite = true ∨
        offset / szBlk < db.blkLocal.length) := by
      rintro (write | mapped)
      · cases write
      · exact unreadable ⟨regular, mapped⟩
    have once : Meets (readWriteOnce ⟨container, dbId, offset / szBlk⟩ (.read amount)
        (offset % szBlk) : VfsM Hash (Option Bytes)) world
        (fun _ _ => False) (fun error _ => error.code = shortRead) := by
      unfold readWriteOnce acquireBlock
      rw [Meets.bind, Meets.attempt, Meets.bind, Meets.get, hand.known]
      dsimp only
      rw [Meets.bind, Meets.require, if_neg outside, makeRoom, Meets.bind, Meets.require, if_neg (by decide)]
    rw [Meets.bind, Meets.get]
    dsimp only
    rw [hand.size, Meets.tryCatch, Act.retry, Meets.tryCatch, readWriteDatabase, Meets.bind]
    apply once.mono
    · exact fun _ _ impossible => impossible.elim
    · intro error after short
      rw [if_neg (by rw [short]; decide), Meets.throw, Meets.throw, if_pos short]
      exact short
  · rfl

theorem readParts_ends (pieces : List (Nat × Nat))
    (hand : AtHand container dbId db szBlk asked none world) (positive : 0 < szBlk)
    (within : ∀ part ∈ pieces, part.1 % szBlk + part.2 ≤ szBlk)
    (wanted : ∀ part ∈ pieces, part.1 / szBlk < db.blkLocal.length → asked (part.1 / szBlk)) :
    Meets (readParts container dbId pieces : VfsM Hash (Bytes × Bool)) world
      (fun result _ => ReadEnd (Readable szBlk dbId db.blkLocal.length)
        (fun part => ¬ Readable szBlk dbId db.blkLocal.length part) pieces result.1 result.2)
      (fun _ _ => False) := by
  induction pieces generalizing world with
  | nil => exact .complete
  | cons part rest ih =>
    obtain ⟨offset, amount⟩ := part
    simp only [readParts, Meets.bind, Meets.attempt]
    by_cases readable : Readable szBlk dbId db.blkLocal.length (offset, amount)
    · have asked := wanted (offset, amount) List.mem_cons_self readable.2
      have fits := within (offset, amount) List.mem_cons_self
      have length : Meets (readWritePart container dbId (.read amount) offset : VfsM Hash Bytes)
          world (fun bytes _ => bytes.length = amount) (fun _ _ => True) := by
        obtain ⟨view, found, _⟩ := Vfs.view_of_database hand.known
        rw [← hand.size] at fits
        apply Meets.mono (readWritePart_read found fits)
        · exact fun _ _ known => known.2.2.2
        · exact fun _ _ _ => trivial
      apply ((hand.readWritePart_loads positive asked readable).both length).mono
      · rintro bytes middle ⟨rested, size⟩
        apply (ih rested (fun part member => within part (List.mem_cons_of_mem _ member))
          fun part member => wanted part (List.mem_cons_of_mem _ member)).sure
        intro result _ ends
        exact .read (offset, amount) rest bytes result.1 result.2 readable size ends
      · exact fun _ _ both => both.1.elim
    · apply (hand.readWritePart_stops readable).mono
      · exact fun _ _ impossible => impossible.elim
      · intro error after short
        rw [if_pos short]
        exact .short (offset, amount) rest readable

end AtHand

theorem xRead_iff [BlockDigest] {container : String} {dbId : Nat} (positive : 0 < world.vfs.szBlk)
    {success : Bytes × Bool → World Hash → Prop} :
    Meets (xRead container dbId amount offset : VfsM Hash (Bytes × Bool)) world success failure ↔
      Meets (readParts container dbId (parts world.vfs.szBlk amount offset amount)) world success
        failure := by
  unfold xRead
  rw [Meets.bind, Meets.get, Meets.bind, Meets.require, if_pos fun _ => positive]

def InRange (szBlk amount offset pos : Nat) : Prop :=
  offset / szBlk ≤ pos ∧ pos ≤ (offset + amount - 1) / szBlk

/-- The parts of a read cover its range, each in one block. A read that returns does what it
is to do only if its range ends at the mapping; where the blocks are at hand it returns, and
then that is all it takes. -/
theorem xRead_faithful_iff [BlockDigest] {container : String} {dbId : Nat} {db : ManifestDb}
    {world : World Hash} (known : world.vfs.database container dbId = some db)
    (positive : 0 < world.vfs.szBlk) (amount offset : Nat) :
    (((parts world.vfs.szBlk amount offset amount).flatMap fun part => List.range' part.1 part.2) =
        List.range' offset amount ∧
      ∀ part ∈ parts world.vfs.szBlk amount offset amount,
        0 < part.2 ∧ part.1 % world.vfs.szBlk + part.2 ≤ world.vfs.szBlk) ∧
    (∀ read whole after,
      (xRead container dbId amount offset : VfsM Hash (Bytes × Bool)).run.run world =
        (.ok (read, whole), after) →
      ReadFaithful (db.blkLocal.length * world.vfs.szBlk) amount offset read whole →
      EndsAtMapping world.vfs.szBlk dbId db.blkLocal.length amount offset) ∧
    (AtHand container dbId db world.vfs.szBlk (InRange world.vfs.szBlk amount offset) none world →
      ∃ read whole after,
        (xRead container dbId amount offset : VfsM Hash (Bytes × Bool)).run.run world =
          (.ok (read, whole), after) ∧
        (ReadFaithful (db.blkLocal.length * world.vfs.szBlk) amount offset read whole ↔
          EndsAtMapping world.vfs.szBlk dbId db.blkLocal.length amount offset)) := by
  have within : ∀ part ∈ parts world.vfs.szBlk amount offset amount,
      part.1 % world.vfs.szBlk + part.2 ≤ world.vfs.szBlk :=
    fun part member => (parts_within positive member).2.1
  have returns : ∀ read whole after,
      (xRead container dbId amount offset : VfsM Hash (Bytes × Bool)).run.run world =
        (.ok (read, whole), after) →
      ReadFaithful (db.blkLocal.length * world.vfs.szBlk) amount offset read whole →
      EndsAtMapping world.vfs.szBlk dbId db.blkLocal.length amount offset := by
    intro read whole after ran faithful
    obtain ⟨view, found, count⟩ := Vfs.view_of_database known
    have ends : Meets (xRead container dbId amount offset : VfsM Hash (Bytes × Bool)) world
        (fun result _ => ReadEnd (Readable world.vfs.szBlk dbId view.count) (fun _ => True)
          (parts world.vfs.szBlk amount offset amount) result.1 result.2) (fun _ _ => True) := by
      rw [xRead_iff positive]
      exact readParts_ends _ found within
    unfold Meets at ends
    rw [ran] at ends
    rw [count] at ends
    exact ends.endsAtMapping positive faithful
  refine ⟨⟨parts_cover positive amount offset amount le_rfl, ?_⟩, returns, ?_⟩
  · intro part member
    obtain ⟨size, fits, _⟩ := parts_within positive member
    exact ⟨size, fits⟩
  · intro hand
    have wanted : ∀ part ∈ parts world.vfs.szBlk amount offset amount,
        part.1 / world.vfs.szBlk < db.blkLocal.length →
        InRange world.vfs.szBlk amount offset (part.1 / world.vfs.szBlk) := by
      intro part member _
      obtain ⟨size, _, start, ending⟩ := parts_within positive member
      exact ⟨Nat.div_le_div_right start, Nat.div_le_div_right (by omega)⟩
    have ends : Meets (xRead container dbId amount offset : VfsM Hash (Bytes × Bool)) world
        (fun result _ => ReadEnd (Readable world.vfs.szBlk dbId db.blkLocal.length)
          (fun part => ¬ Readable world.vfs.szBlk dbId db.blkLocal.length part)
          (parts world.vfs.szBlk amount offset amount) result.1 result.2) (fun _ _ => False) := by
      rw [xRead_iff positive]
      exact hand.readParts_ends _ positive within wanted
    unfold Meets at ends
    rcases ran : (xRead container dbId amount offset : VfsM Hash (Bytes × Bool)).run.run world with
      ⟨error | ⟨read, whole⟩, after⟩
    · rw [ran] at ends
      exact ends.elim
    · rw [ran] at ends
      refine ⟨read, whole, after, rfl, ?_⟩
      constructor
      · exact returns read whole after ran
      · exact ends.faithful positive

instance : BlockDigest where
  md5 bytes := (bytes ++ List.replicate 16 0).take 16
  md5_length bytes := by simp

/-- An environment without faults and without other threads. The name it draws is the given
one. -/
def calm (name : BlockId) : Choice Tree where
  fault := none
  applied := false
  reuse := 0
  held := []
  engaged := []
  rank entry := entry.slot
  name := name
  arrivals := []
  answer
    | .get _ _ => .ok none
    | .put _ _ _ => .ok (letters 1)
    | .ask query => stillService.reply query

def calmly (count : Nat) : Choice Tree := calm [1, UInt8.ofNat count]

def smallManifest (names : List BlockId) (fileSize : Nat) : Manifest :=
  { szBlk := 4
    nameBytes := 2
    maxDbId := 1
    dbs := [⟨1, 0, "main", 1, fileSize, names, names, false⟩]
    delBlk := []
    etag := some (letters 0) }

def smallVfs (slots : Nat) (container : Container Tree) : Vfs Tree :=
  { szBlk := 4
    maxCache := 4 * slots
    stageWatermark := 0
    requests := 4
    nextLocalId := firstLocalId
    slots := 0
    unused := []
    file := fun _ => []
    hash := []
    ledger := ⟨[], [], fun _ => 0⟩
    containers := fun name => if name = container.name then container else Container.free name
    spare := fun _ _ => [] }

def smallWorld (slots : Nat) (container : Container Tree) (blocks : List (BlockId × Bytes)) :
    World Tree where
  vfs := smallVfs slots container
  blocks name := blocks.lookup name
  choices := calmly
  events := []

/-- An ordinary container with one block of four bytes, three of which are in use. -/
def ordinary : Container Tree :=
  { Container.free "store" with man := some (smallManifest [[9, 9]] 3) }

/-- Three blocks of a database whose cache has two slots: a published one, a dirty one in the first
slot, and a staged one that has been evicted. -/
def threeBlocks : World Tree :=
  let names : List BlockId := [[9, 9], [1, 1], [2, 2]]
  let db : ManifestDb := ⟨1, 0, "main", 1, 0, [[9, 9]], names, true⟩
  let container := { ordinary with man := some { smallManifest [] 0 with dbs := [db] } }
  { smallWorld 2 container [([9, 9], [1, 2, 3, 4]), ([2, 2], [5, 6, 7, 8])] with
    vfs := { smallVfs 2 container with
      slots := 1
      hash := [⟨0, [1, 1], true, true, false, some ⟨"store", 1, 1⟩⟩]
      file := fun slot => if slot = 0 then [0, 1, 0, 1] else []
      ledger := ⟨[⟨⟨"store", 1, 2⟩, [2, 2], [2, 2], 1⟩], [], fun _ => 1⟩ } }

theorem threeBlocks_atHand (amount offset : Nat) :
    AtHand "store" 1 ⟨1, 0, "main", 1, 0, [[9, 9]], [[9, 9], [1, 1], [2, 2]], true⟩ 4
      (InRange 4 amount offset) none threeBlocks where
  calm _ := ⟨rfl, rfl⟩
  size := rfl
  known := by decide
  slots := by decide
  unused := by decide
  distinct := by decide
  valid := by decide
  present := by
    intro _
    refine ⟨by decide, ?_⟩
    intro pos name _ mapped
    match pos, mapped with
    | 0, rfl => exact .inr ⟨.inl (by decide), [1, 2, 3, 4], rfl, rfl⟩
    | 1, rfl => exact .inl (by decide)
    | 2, rfl => exact .inr ⟨.inr (by decide), [5, 6, 7, 8], rfl, rfl⟩

theorem xRead_faithful_threeBlocks :
    ∃ read whole after,
      (xRead "store" 1 12 2 : VfsM Tree (Bytes × Bool)).run.run threeBlocks =
        (.ok (read, whole), after) ∧ ReadFaithful 12 12 2 read whole := by
  obtain ⟨read, whole, after, ran, faithful⟩ :=
    (xRead_faithful_iff (threeBlocks_atHand 12 2).known (by decide) 12 2).2.2 (threeBlocks_atHand 12 2)
  exact ⟨read, whole, after, ran, faithful.mpr (by decide)⟩

def storedBlock : World Tree := smallWorld 2 ordinary [([9, 9], [1, 2, 3, 4])]

/-- Three blocks are read, of which one is mapped: the third one keeps what the buffer held. -/
theorem xRead_leaves_buffer :
    ((xRead "store" 1 12 0 : VfsM Tree (Bytes × Bool)).run.run storedBlock).1 =
        .ok ([1, 2, 3, 4, 0, 0, 0, 0], false) ∧
      ([1, 2, 3, 4, 0, 0, 0, 0] ++ (List.replicate 12 (7 : UInt8)).drop 8)[8]? = some 7 ∧
      ¬ ReadFaithful 4 12 0 [1, 2, 3, 4, 0, 0, 0, 0] false := by
  refine ⟨by decide +kernel, by decide, ?_⟩
  intro faithful
  exact absurd faithful.covered (by decide)

end RusqDoltlite.Blocks

import RusqDoltlite.Blocks.Frame

/-! Sizes of a database file. Every successful write and truncate acts on the view of its
database as a function of the call alone; the block plane below does not matter. -/

namespace RusqDoltlite.Blocks

open Effects Session

variable {Hash : Type}

namespace FileView

def bound (view : FileView Hash) : Bool := view.session ∧ view.context.isSome

def setContext (view : FileView Hash) (change : Context Hash → Context Hash) : FileView Hash :=
  { view with context := view.context.map change }

def ensureSize (view : FileView Hash) : FileView Hash :=
  if view.bound ∧ 0 < view.szBlk ∧ view.count ≤ maxFileSize / view.szBlk then
    view.setContext fun context =>
      { context with
        writeFileSize := some (context.writeFileSize.getD (view.count * view.szBlk)) }
  else view

theorem szBlk_ensureSize (view : FileView Hash) : view.ensureSize.szBlk = view.szBlk := by
  unfold ensureSize
  split <;> rfl

/-- The blocks a write of `amount` bytes at `offset` touches come to be mapped. -/
def growTo (view : FileView Hash) (offset amount : Nat) : FileView Hash :=
  if amount = 0 then view
  else { view with count := max view.count ((offset + amount + view.szBlk - 1) / view.szBlk) }

def noteLocal (view : FileView Hash) (offset amount : Nat) : FileView Hash :=
  if amount = 0 ∨ maxFileSize < offset + amount ∨ view.bound then view
  else
    { view with
      fileSize := if 0 < view.fileSize ∧ view.fileSize < offset + amount then offset + amount
        else view.fileSize }

def noteSession (view : FileView Hash) (offset amount : Nat) : FileView Hash :=
  if view.bound then
    view.ensureSize.setContext fun context =>
      { context with
        writeFileSize :=
          if maxFileSize < offset + amount then none
          else context.writeFileSize.map fun size => max size (offset + amount) }
  else view

def write (view : FileView Hash) (offset amount : Nat) : FileView Hash :=
  (((view.ensureSize.growTo offset amount).noteLocal offset amount).noteSession offset amount)

def truncate (view : FileView Hash) (size : Nat) : FileView Hash :=
  let cut := { view with count := min view.count ((size + view.szBlk - 1) / view.szBlk) }
  if view.bound then
    cut.setContext fun context => { context with writeFileSize := some size }
  else
    { cut with fileSize := if 0 < view.fileSize then size else view.fileSize }

def size (view : FileView Hash) : Nat :=
  (view.context.bind fun context =>
      if context.overlay ∧ view.name = context.scope.database then context.writeFileSize
      else none).getD
    (if 0 < view.fileSize then view.fileSize else view.count * view.szBlk)

end FileView

namespace Vfs

variable {vfs : Vfs Hash} {container : String} {dbId : Nat} {view : FileView Hash}

theorem view_setContext (change : Context Hash → Context Hash) :
    (vfs.setContext container change).view container dbId =
      (vfs.view container dbId).map (FileView.setContext · change) := by
  simp only [view, setContext, blockSize, database, ↓reduceIte]
  cases (vfs.containers container).man with
  | none => rfl
  | some man =>
    simp only [Option.map_some, Option.bind_some]
    cases man.findDatabaseById dbId with
    | none => rfl
    | some db => rfl

theorem view_setDatabase_own {change : ManifestDb → ManifestDb} (seen : FileView Hash → FileView Hash)
    (found : vfs.view container dbId = some view)
    (kept : ∀ db, (change db).dbId = db.dbId)
    (shows : ∀ container szBlk db,
      FileView.of container szBlk (change db) = seen (FileView.of container szBlk db)) :
    (vfs.setDatabase container dbId change).view container dbId = some (seen view) := by
  rw [view_setDatabase seen kept shows, found]
  simp

def SameOrigins (before after : Vfs Hash) : Prop :=
  after.szBlk = before.szBlk ∧ after.origins = before.origins

theorem SameOrigins.refl (vfs : Vfs Hash) : vfs.SameOrigins vfs := ⟨rfl, rfl⟩

theorem SameOrigins.trans {before middle after : Vfs Hash} (first : before.SameOrigins middle)
    (second : middle.SameOrigins after) : before.SameOrigins after :=
  ⟨second.1.trans first.1, second.2.trans first.2⟩

theorem sameOrigins_setContext (change : Context Hash → Context Hash) :
    vfs.SameOrigins (vfs.setContext container change) := by
  refine ⟨rfl, ?_⟩
  funext other
  unfold origins setContext
  dsimp only
  split <;> rfl

theorem sameOrigins_setDatabase {change : ManifestDb → ManifestDb}
    (kept : ∀ db, origin (change db) = origin db) :
    vfs.SameOrigins (vfs.setDatabase container dbId change) :=
  ⟨rfl, origins_setDatabase kept⟩

theorem sameOrigins_ensureWriteSize (container : String) (dbId : Nat) (vfs : Vfs Hash) :
    vfs.SameOrigins (ensureWriteSize container dbId vfs) := by
  unfold ensureWriteSize
  split
  · split
    · exact sameOrigins_setContext _
    · exact SameOrigins.refl vfs
  · exact SameOrigins.refl vfs

theorem sameOrigins_localNoteWrite (container : String) (dbId offset amount : Nat) (vfs : Vfs Hash) :
    vfs.SameOrigins (localNoteWrite container dbId offset amount vfs) := by
  unfold localNoteWrite
  split
  · exact SameOrigins.refl vfs
  · exact sameOrigins_setDatabase fun _ => rfl

theorem sameOrigins_sessionNoteWrite (container : String) (dbId offset amount : Nat)
    (vfs : Vfs Hash) : vfs.SameOrigins (sessionNoteWrite container dbId offset amount vfs) := by
  unfold sessionNoteWrite
  split
  · exact (sameOrigins_ensureWriteSize container dbId vfs).trans (sameOrigins_setContext _)
  · exact SameOrigins.refl vfs

theorem sameOrigins_noteTruncate (container : String) (dbId size : Nat) (vfs : Vfs Hash) :
    vfs.SameOrigins (noteTruncate container dbId size vfs) := by
  unfold noteTruncate
  split
  · exact sameOrigins_setContext _
  · exact sameOrigins_setDatabase fun _ => rfl

section
variable (found : vfs.view container dbId = some view)
include found

theorem sessionBound_eq :
    sessionBound vfs container = view.bound := by
  simp only [Vfs.view, Option.bind_eq_some_iff, Option.map_eq_some_iff] at found
  obtain ⟨_, _, db, _, rfl⟩ := found
  rfl

theorem view_eq_some :
    ∃ man db, (vfs.containers container).man = some man ∧ vfs.database container dbId = some db ∧
      view = FileView.of (vfs.containers container) man.szBlk db := by
  simp only [Vfs.view, blockSize, Option.bind_eq_some_iff, Option.map_eq_some_iff] at found
  obtain ⟨_, ⟨man, attached, rfl⟩, db, mapped, rfl⟩ := found
  exact ⟨man, db, attached, mapped, rfl⟩

theorem view_ensureWriteSize :
    (ensureWriteSize container dbId vfs).view container dbId = some view.ensureSize := by
  obtain ⟨man, db, attached, mapped, same⟩ := view_eq_some found
  have szBlk : man.szBlk = view.szBlk := by rw [same]; rfl
  have count : db.blkLocal.length = view.count := by rw [same]; rfl
  unfold ensureWriteSize FileView.ensureSize
  rw [sessionBound_eq found, attached, mapped]
  cases view.bound with
  | false => simpa using found
  | true =>
    simp only [szBlk, count, true_and]
    split
    · rw [view_setContext, found]
      rfl
    · exact found

theorem view_localNoteWrite (offset amount : Nat) :
    (localNoteWrite container dbId offset amount vfs).view container dbId =
      some (view.noteLocal offset amount) := by
  unfold localNoteWrite FileView.noteLocal
  rw [sessionBound_eq found]
  split
  · exact found
  · exact view_setDatabase_own (fun view => { view with
        fileSize := if 0 < view.fileSize ∧ view.fileSize < offset + amount then offset + amount
          else view.fileSize }) found (fun _ => rfl) (fun _ _ _ => rfl)

theorem view_sessionNoteWrite (offset amount : Nat) :
    (sessionNoteWrite container dbId offset amount vfs).view container dbId =
      some (view.noteSession offset amount) := by
  unfold sessionNoteWrite FileView.noteSession
  rw [sessionBound_eq found]
  split
  · rw [view_setContext, view_ensureWriteSize found]
    rfl
  · exact found

theorem view_noteTruncate (size : Nat) :
    (noteTruncate container dbId size vfs).view container dbId =
      some (if view.bound then
          view.setContext fun context => { context with writeFileSize := some size }
        else { view with fileSize := if 0 < view.fileSize then size else view.fileSize }) := by
  unfold noteTruncate
  rw [sessionBound_eq found]
  split
  · rw [view_setContext, found]
    rfl
  · exact view_setDatabase_own (fun view => { view with
        fileSize := if 0 < view.fileSize then size else view.fileSize }) found (fun _ => rfl)
      (fun _ _ _ => rfl)

theorem xFileSize_eq :
    xFileSize vfs container dbId = .ok view.size := by
  obtain ⟨man, db, attached, mapped, rfl⟩ := view_eq_some found
  unfold xFileSize
  rw [attached, mapped]
  rfl

end

end Vfs

theorem blocks_within {szBlk offset amount : Nat} (positive : 0 < amount)
    (within : offset % szBlk + amount ≤ szBlk) :
    (offset + amount + szBlk - 1) / szBlk = offset / szBlk + 1 := by
  have split := Nat.mod_add_div offset szBlk
  have shifted : offset + amount + szBlk - 1 =
      (offset % szBlk + amount - 1) + szBlk * (offset / szBlk + 1) := by
    rw [Nat.mul_add, Nat.mul_one]
    omega
  rw [shifted, Nat.add_mul_div_left _ _ (by omega), Nat.div_eq_of_lt (by omega)]
  omega

theorem blocks_first {szBlk offset amount : Nat} (size : 0 < szBlk) (positive : 0 < amount) :
    offset / szBlk + 1 ≤ (offset + amount + szBlk - 1) / szBlk := by
  have split := Nat.mod_add_div offset szBlk
  rw [Nat.le_div_iff_mul_le size, Nat.add_mul, Nat.one_mul, Nat.mul_comm]
  omega

theorem parts_grow {szBlk : Nat} (size : 0 < szBlk) (fuel offset amount : Nat)
    (enough : amount ≤ fuel) (view : FileView Hash) (same : view.szBlk = szBlk) :
    (parts szBlk fuel offset amount).foldl (fun view part => view.grow (part.1 / szBlk)) view =
      view.growTo offset amount := by
  induction fuel generalizing offset amount view with
  | zero =>
    have nothing : amount = 0 := by omega
    simp [parts, FileView.growTo, nothing]
  | succ fuel ih =>
    unfold parts
    by_cases nothing : amount = 0
    · simp [nothing, FileView.growTo]
    · have remainder := Nat.mod_lt offset size
      rw [if_neg nothing, List.foldl_cons]
      rw [ih _ _ (by omega) (view.grow (offset / szBlk)) same]
      unfold FileView.growTo
      rw [if_neg nothing]
      split
      · -- the part is the rest of the write
        have within : (offset + amount + szBlk - 1) / szBlk = offset / szBlk + 1 :=
          blocks_within (by omega) (by omega)
        simp only [FileView.grow, same, within]
      · have first : offset / szBlk + 1 ≤ (offset + amount + szBlk - 1) / szBlk :=
          blocks_first size (by omega)
        have ends : offset + min (szBlk - offset % szBlk) amount +
            (amount - min (szBlk - offset % szBlk) amount) = offset + amount := by omega
        simp only [FileView.grow, same, ends]
        congr 1
        omega

theorem writeParts_view {szBlk : Nat} {bytes : Bytes} {offset : Nat} (sized : bytes ≠ [] → 0 < szBlk)
    {view : FileView Hash} (same : view.szBlk = szBlk) :
    (parts szBlk bytes.length offset bytes.length).foldl
        (fun view part => view.grow (part.1 / szBlk)) view = view.growTo offset bytes.length := by
  by_cases empty : bytes = []
  · simp [empty, parts, FileView.growTo]
  · exact parts_grow (sized empty) _ _ _ le_rfl view same

variable [DecidableEq Hash] [Digest Hash] {view : FileView Hash}

theorem readWritePart_grows [BlockDigest] {container : String} {dbId offset : Nat} {bytes : Bytes}
    {world : World Hash} (found : world.vfs.view container dbId = some view) :
    Meets (readWritePart container dbId (.write bytes) offset : VfsM Hash Bytes) world
      (fun _ after => world.vfs.SameOrigins after.vfs ∧
        after.vfs.view container dbId = some (view.grow (offset / world.vfs.szBlk)))
      (fun _ _ => True) := by
  apply Meets.mono (readWritePart_follows container dbId (.write bytes) offset world)
  · rintro _ after ⟨_, framed⟩
    refine ⟨⟨framed.szBlk, framed.origins⟩, ?_⟩
    rw [framed.view]
    simp [Transfer.seen, Transfer.isWrite, growAt, found]
  · exact fun _ _ _ => trivial

theorem writeParts_grows [BlockDigest] {container : String} {dbId : Nat} (bytes : Bytes) (start : Nat)
    (pieces : List (Nat × Nat)) {world : World Hash}
    (found : world.vfs.view container dbId = some view) :
    Meets (writeParts container dbId bytes start pieces : VfsM Hash Unit) world
      (fun _ after => world.vfs.SameOrigins after.vfs ∧ after.vfs.view container dbId =
        some (pieces.foldl (fun view part => view.grow (part.1 / world.vfs.szBlk)) view))
      (fun _ _ => True) := by
  induction pieces generalizing world view with
  | nil => exact ⟨Vfs.SameOrigins.refl _, found⟩
  | cons piece rest ih =>
    obtain ⟨offset, amount⟩ := piece
    simp only [writeParts, Meets.bind]
    apply (readWritePart_grows found).mono
    · rintro _ middle ⟨same, grown⟩
      have rest := ih grown
      rw [same.1] at rest
      apply rest.mono
      · exact fun _ _ ended => ⟨same.trans ended.1, ended.2⟩
      · exact fun _ _ _ => trivial
    · exact fun _ _ _ => trivial

theorem xWrite_view [BlockDigest] {container : String} {dbId offset : Nat} {bytes : Bytes}
    {world : World Hash} (found : world.vfs.view container dbId = some view)
    (same : view.szBlk = world.vfs.szBlk) :
    Meets (xWrite container dbId bytes offset : VfsM Hash Unit) world
      (fun _ after => world.vfs.SameOrigins after.vfs ∧
        after.vfs.view container dbId = some (view.write offset bytes.length))
      (fun _ _ => True) := by
  have ensured := Vfs.view_ensureWriteSize found
  have seeded := Vfs.sameOrigins_ensureWriteSize container dbId world.vfs
  simp only [xWrite, onVfs, Meets.bind, Meets.modify, Meets.get, Meets.require]
  split
  · rename_i sized
    apply (writeParts_grows bytes offset _ ensured).mono
    · rintro _ after ⟨wrote, grown⟩
      rw [writeParts_view sized (by rw [FileView.szBlk_ensureSize, same, seeded.1])] at grown
      have noted := Vfs.view_sessionNoteWrite
        (Vfs.view_localNoteWrite grown offset bytes.length) offset bytes.length
      refine ⟨?_, noted⟩
      apply (seeded.trans wrote).trans
      exact (Vfs.sameOrigins_localNoteWrite container dbId offset bytes.length _).trans
        (Vfs.sameOrigins_sessionNoteWrite container dbId offset bytes.length _)
    · exact fun _ _ _ => trivial
  · trivial

theorem undirtyBlock_still (container : String) (db : ManifestDb) (pos : Nat) :
    Moves Still (undirtyBlock container db pos : VfsM Hash Unit) := by
  apply Moves.when
  apply Moves.bind effect_still
  intro _
  apply Moves.bind (stagedDelete_still _)
  intro _
  apply Moves.bind Moves.get
  intro world
  cases (db.blkLocal[pos]?).bind world.vfs.hashFind with
  | none => exact Moves.pure _
  | some entry => exact Moves.bind (setEntry_still _ _) fun _ => Moves.when effect_still

theorem undirtyBlocks_still (container : String) (db : ManifestDb) (positions : List Nat) :
    Moves Still (undirtyBlocks container db positions : VfsM Hash Unit) := by
  induction positions with
  | nil => exact Moves.pure _
  | cons pos rest ih => exact Moves.bind (undirtyBlock_still container db pos) fun _ => ih

theorem cutBlocks_view {container : String} {dbId count : Nat} {db : ManifestDb}
    {world : World Hash}
    (found : world.vfs.view container dbId = some view) :
    Meets (cutBlocks container dbId count db : VfsM Hash Unit) world
      (fun _ after => world.vfs.SameOrigins after.vfs ∧ after.vfs.view container dbId =
        some { view with count := min count view.count })
      (fun _ _ => True) := by
  simp only [cutBlocks, onVfs, Meets.bind, Meets.modify]
  apply (undirtyBlocks_still container db _ world).mono
  · intro _ after still
    have found : after.vfs.view container dbId = some view := by
      rw [still.view]
      exact found
    have same : world.vfs.SameOrigins after.vfs := ⟨still.szBlk, still.origins⟩
    have cut : after.vfs.SameOrigins (after.vfs.setDatabase container dbId fun db =>
        { db with blkLocal := db.blkLocal.take count }) := Vfs.sameOrigins_setDatabase fun _ => rfl
    refine ⟨same.trans cut, ?_⟩
    exact Vfs.view_setDatabase_own (fun view => { view with count := min count view.count }) found
      (fun _ => rfl) (fun _ _ _ => by simp [FileView.of])
  · exact fun _ _ _ => trivial

theorem xTruncate_view {container : String} {dbId size : Nat} {world : World Hash}
    (found : world.vfs.view container dbId = some view) :
    Meets (xTruncate container dbId size : VfsM Hash Unit) world
      (fun _ after => world.vfs.SameOrigins after.vfs ∧
        after.vfs.view container dbId = some (view.truncate size))
      (fun _ _ => True) := by
  obtain ⟨man, db, attached, mapped, same⟩ := Vfs.view_eq_some found
  have szBlk : man.szBlk = view.szBlk := by rw [same]; rfl
  have count : db.blkLocal.length = view.count := by rw [same]; rfl
  -- the size is noted on a mapping that has been cut to at most the new number of blocks
  have noted : ∀ middle : World Hash, world.vfs.SameOrigins middle.vfs →
      middle.vfs.view container dbId =
        some { view with count := min view.count ((size + view.szBlk - 1) / view.szBlk) } →
      world.vfs.SameOrigins (noteTruncate container dbId size middle.vfs) ∧
        (noteTruncate container dbId size middle.vfs).view container dbId =
          some (view.truncate size) := by
    intro middle kept cut
    exact ⟨kept.trans (Vfs.sameOrigins_noteTruncate container dbId size middle.vfs),
      Vfs.view_noteTruncate cut size⟩
  simp only [xTruncate, Meets.bind, Meets.get]
  rw [attached, mapped]
  simp only [Meets.bind, Meets.require, Meets.when, onVfs, Meets.modify, szBlk, count]
  split
  · split
    · split
      · rename_i shorter
        apply (cutBlocks_view found).mono
        · rintro _ middle ⟨kept, cut⟩
          rw [Nat.min_comm] at cut
          exact noted middle kept cut
        · exact fun _ _ _ => trivial
      · rename_i covered
        have same : min view.count ((size + view.szBlk - 1) / view.szBlk) = view.count := by omega
        apply noted world (Vfs.SameOrigins.refl _)
        rw [same]
        exact found
    · trivial
  · trivial

end RusqDoltlite.Blocks

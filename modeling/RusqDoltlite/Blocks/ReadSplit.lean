import RusqDoltlite.Blocks.Sizes

/-! How `xRead` splits a range into blocks. The parts cover the range, but the loop ends at
the first part behind the mapping: what the buffer held for later parts stays in it. -/

namespace RusqDoltlite.Blocks

open Effects Session

def reach : List (Nat × Nat) → Nat
  | [] => 0
  | part :: rest => part.2 + reach rest

@[simp] theorem reach_nil : reach [] = 0 := rfl

@[simp] theorem reach_cons (part : Nat × Nat) (rest : List (Nat × Nat)) :
    reach (part :: rest) = part.2 + reach rest := rfl

theorem reach_append (first second : List (Nat × Nat)) :
    reach (first ++ second) = reach first + reach second := by
  induction first with
  | nil => simp
  | cons part rest ih =>
    simp only [List.cons_append, reach_cons, ih]
    omega

theorem parts_split {szBlk : Nat} (positive : 0 < szBlk) (fuel offset amount : Nat)
    (enough : amount ≤ fuel) {done rest : List (Nat × Nat)} {part : Nat × Nat}
    (split : parts szBlk fuel offset amount = done ++ part :: rest) :
    part.1 = offset + reach done ∧ 0 < part.2 ∧ part.1 % szBlk + part.2 ≤ szBlk ∧
      (done ≠ [] → part.1 % szBlk = 0 ∧ offset < part.1) ∧
      (if rest = [] then part.1 + part.2 = offset + amount
        else part.1 % szBlk + part.2 = szBlk ∧ part.1 + part.2 < offset + amount) := by
  induction fuel generalizing offset amount done with
  | zero => cases done <;> cases split
  | succ fuel ih =>
    unfold parts at split
    by_cases nothing : amount = 0
    · rw [if_pos nothing] at split
      cases done <;> cases split
    · rw [if_neg nothing] at split
      have remainder := Nat.mod_lt offset positive
      cases done with
      | nil =>
        simp only [List.nil_append, List.cons.injEq] at split
        obtain ⟨rfl, rfl⟩ := split
        refine ⟨by simp, by dsimp only; omega, by dsimp only; omega, by simp, ?_⟩
        by_cases last : amount ≤ szBlk - offset % szBlk
        · have whole : min (szBlk - offset % szBlk) amount = amount := Nat.min_eq_right last
          have ended : parts szBlk fuel (offset + amount) (amount - amount) = [] := by
            rw [Nat.sub_self]
            cases fuel <;> simp [parts]
          rw [whole, if_pos ended]
        · have more : min (szBlk - offset % szBlk) amount = szBlk - offset % szBlk := by omega
          have unfinished : parts szBlk fuel (offset + (szBlk - offset % szBlk))
              (amount - (szBlk - offset % szBlk)) ≠ [] := by
            cases fuel with
            | zero => omega
            | succ fuel =>
              unfold parts
              rw [if_neg (by omega)]
              simp
          rw [more, if_neg unfinished]
          dsimp only
          omega
      | cons first done =>
        simp only [List.cons_append, List.cons.injEq] at split
        obtain ⟨rfl, split⟩ := split
        have unfinished : amount - min (szBlk - offset % szBlk) amount ≠ 0 := by
          intro ended
          rw [ended] at split
          cases fuel <;> simp [parts] at split
        have short : min (szBlk - offset % szBlk) amount = szBlk - offset % szBlk := by omega
        obtain ⟨start, size, within, later, ending⟩ := ih _ _ (by omega) split
        have boundary : (offset + (szBlk - offset % szBlk)) % szBlk = 0 := by
          have divided := Nat.mod_add_div offset szBlk
          have rounded : offset + (szBlk - offset % szBlk) = szBlk * (offset / szBlk + 1) := by
            rw [Nat.mul_add, Nat.mul_one]
            omega
          rw [rounded, Nat.mul_mod_right]
        rw [short] at start later ending
        refine ⟨?_, size, within, ?_, ?_⟩
        · simp only [reach_cons, short]
          omega
        · intro _
          by_cases begun : done = []
          · simp only [begun, reach_nil, Nat.add_zero] at start
            rw [start]
            exact ⟨boundary, by omega⟩
          · obtain ⟨aligned, after⟩ := later begun
            exact ⟨aligned, by omega⟩
        · split
          · rename_i ended
            rw [if_pos ended] at ending
            omega
          · rename_i more
            rw [if_neg more] at ending
            omega

theorem parts_next {szBlk : Nat} (positive : 0 < szBlk) (fuel offset amount : Nat)
    (enough : amount ≤ fuel) {done rest : List (Nat × Nat)} {first second : Nat × Nat}
    (split : parts szBlk fuel offset amount = done ++ first :: second :: rest) :
    second.1 / szBlk = first.1 / szBlk + 1 := by
  obtain ⟨start, _, _, _, ending⟩ := parts_split positive fuel offset amount enough split
  rw [if_neg (by simp)] at ending
  have again : parts szBlk fuel offset amount = (done ++ [first]) ++ second :: rest := by
    simpa using split
  obtain ⟨next, _⟩ := parts_split positive fuel offset amount enough again
  have divided := Nat.mod_add_div first.1 szBlk
  have begins : second.1 = szBlk * (first.1 / szBlk + 1) := by
    rw [Nat.mul_add, Nat.mul_one]
    simp only [reach_append, reach_cons, reach_nil] at next
    omega
  rw [begins, Nat.mul_div_cancel_left _ positive]

theorem reach_parts {szBlk : Nat} (positive : 0 < szBlk) (fuel offset amount : Nat)
    (enough : amount ≤ fuel) : reach (parts szBlk fuel offset amount) = amount := by
  induction fuel generalizing offset amount with
  | zero =>
    have nothing : amount = 0 := by omega
    simp [parts, nothing]
  | succ fuel ih =>
    unfold parts
    split
    · simp_all
    · have remainder := Nat.mod_lt offset positive
      simp only [reach_cons]
      rw [ih _ _ (by omega)]
      omega

theorem parts_cover {szBlk : Nat} (positive : 0 < szBlk) (fuel offset amount : Nat)
    (enough : amount ≤ fuel) :
    ((parts szBlk fuel offset amount).flatMap fun part => List.range' part.1 part.2) =
      List.range' offset amount := by
  induction fuel generalizing offset amount with
  | zero =>
    have nothing : amount = 0 := by omega
    simp [parts, nothing]
  | succ fuel ih =>
    unfold parts
    split
    · simp_all
    · have remainder := Nat.mod_lt offset positive
      have size : amount = min (szBlk - offset % szBlk) amount +
          (amount - min (szBlk - offset % szBlk) amount) := by omega
      rw [List.flatMap_cons, ih _ _ (by omega)]
      conv_rhs => rw [size]
      rw [← List.range'_append_1]

theorem parts_within {szBlk : Nat} (positive : 0 < szBlk) {offset amount : Nat} {part : Nat × Nat}
    (member : part ∈ parts szBlk amount offset amount) :
    0 < part.2 ∧ part.1 % szBlk + part.2 ≤ szBlk ∧ offset ≤ part.1 ∧
      part.1 + part.2 ≤ offset + amount := by
  obtain ⟨done, rest, split⟩ := List.append_of_mem member
  obtain ⟨start, size, within, _, ending⟩ :=
    parts_split positive amount offset amount le_rfl split
  refine ⟨size, within, by omega, ?_⟩
  split at ending <;> omega

section

variable {Hash : Type} [DecidableEq Hash] [Digest Hash]

variable {place : Place} {start world : World Hash} {view : FileView Hash}

omit [DecidableEq Hash] [Digest Hash] in
theorem Vfs.length_slotBytes (vfs : Vfs Hash) (slot : Nat) :
    (vfs.slotBytes slot).length = vfs.szBlk := by
  simp [Vfs.slotBytes]

theorem readSlot_length {slot : Nat} (reached : Still start world) :
    Follows Still start (readSlot slot : VfsM Hash Bytes) world
      fun bytes _ => bytes.length = start.vfs.szBlk := by
  apply Follows.bind (Follows.of_moves effect_still reached)
  intro _ middle reached _
  apply Follows.get_bind
  apply Follows.bind (Follows.of_moves (Moves.require _) reached)
  intro _ after moved _
  apply Follows.pure moved
  rw [Vfs.length_slotBytes, reached.szBlk]

theorem dropUnfilled_fails {entry : CacheEntry} {error : Err} {post : α → World Hash → Prop}
    (reached : Still start world) :
    Follows Still start (dropUnfilled entry error : VfsM Hash α) world post := by
  have dropped : Moves Still (Act.when (entry.valid = false)
      (onVfs fun vfs => (vfs.hashRemove entry.slot).unusedAdd entry.slot) : VfsM Hash Unit) :=
    Moves.when (onVfs_still fun _ => ⟨rfl, rfl, rfl⟩)
  apply Follows.bind (Follows.of_moves dropped reached)
  intro _ after moved _
  exact Follows.throw moved

theorem transferBlock_read {entry : CacheEntry} {row : Bool} {amount offset : Nat}
    (within : offset + amount ≤ start.vfs.szBlk) (reached : Still start world) :
    Follows Still start (transferBlock entry row (.read amount) offset : VfsM Hash Bytes) world
      fun bytes _ => bytes.length = amount := by
  apply Follows.tryCatch
  · have read : Follows Still start (moveBytes entry.slot (.read amount) offset : VfsM Hash Bytes)
        world fun bytes _ => bytes.length = amount := by
      apply Follows.bind (readSlot_length reached)
      intro bytes middle reached size
      apply Follows.pure reached
      rw [List.length_take, List.length_drop, size]
      omega
    apply Follows.bind read
    intro bytes middle reached size
    apply Follows.bind (Follows.of_moves (Moves.when effect_still) reached)
    intro _ middle reached _
    apply Follows.bind (Follows.of_moves (setEntry_still _ _) reached)
    intro _ after reached _
    exact Follows.pure reached size
  · intro error middle reached
    exact dropUnfilled_fails reached

variable [BlockDigest]

theorem acquireBlock_read {amount : Nat} (found : start.vfs.view place.container place.dbId = some view)
    (reached : Still start world) :
    Follows Still start (acquireBlock place (.read amount) : VfsM Hash (Option (CacheEntry × Bool))) world
      fun _ _ => place.pos < view.count := by
  have quiet : ∀ after, Extends (.read amount) place world after → Still world after := by
    rintro after (still | framed)
    · exact still
    · exact framed
  have moves : Meets (acquireBlock place (.read amount) : VfsM Hash (Option (CacheEntry × Bool))) world
      (fun _ after => Still world after) (fun _ after => Still world after) := by
    apply Meets.mono (acquireBlock_follows place (.read amount) world)
    · exact fun _ after both => quiet after both.1
    · exact fun _ after extended => quiet after extended
  have mapped : Meets (acquireBlock place (.read amount) : VfsM Hash (Option (CacheEntry × Bool))) world
      (fun _ _ => place.pos < view.count) (fun _ _ => True) := by
    have here : world.vfs.view place.container place.dbId = some view := by
      rw [reached.view]
      exact found
    obtain ⟨man, db, _, known, seen⟩ := Vfs.view_eq_some here
    unfold acquireBlock
    rw [Meets.bind, Meets.get, known]
    dsimp only
    rw [Meets.bind, Meets.require]
    split
    · rename_i allowed
      have inside : place.pos < view.count := by
        rw [seen]
        exact allowed.resolve_left (by simp [Transfer.isWrite])
      exact Meets.always (fun _ _ => inside) fun _ _ => trivial
    · trivial
  apply Meets.mono (moves.both mapped)
  · exact fun _ _ both => ⟨reached.trans both.1, both.2⟩
  · exact fun _ _ both => reached.trans both.1

theorem readWriteOnce_read {amount offset : Nat} (found : start.vfs.view place.container place.dbId = some view)
    (within : offset + amount ≤ start.vfs.szBlk) (reached : Still start world) :
    Follows Still start (readWriteOnce place (.read amount) offset : VfsM Hash (Option Bytes)) world
      fun result _ => ∀ bytes, result = some bytes →
        place.pos < view.count ∧ bytes.length = amount := by
  have acquired : Follows Still start
      (acquireBlock place (.read amount) : VfsM Hash (Option (CacheEntry × Bool))).attempt world
      fun result _ => ∀ value, result = .ok value → place.pos < view.count := by
    apply Follows.attempt (acquireBlock_read found reached)
    · intro value after inside _ _
      exact inside
    · intro error after _ value same
      cases same
  apply Follows.bind acquired
  intro result middle reached inside
  match result with
  | .ok none => exact Follows.pure reached (by simp)
  | .ok (some (entry, row)) =>
    apply Follows.bind (transferBlock_read within reached)
    intro bytes middle reached size
    apply Follows.bind (Follows.of_moves (Moves.when drainDirty_still) reached)
    intro _ after reached _
    apply Follows.pure reached
    rintro _ ⟨⟩
    exact ⟨inside _ rfl, size⟩
  | .error error =>
    apply (makeRoom_none reached).mono
    rintro _ after _ rfl _ ⟨⟩

theorem readWriteDatabase_read {amount offset : Nat}
    (found : start.vfs.view place.container place.dbId = some view) (within : offset + amount ≤ start.vfs.szBlk)
    (rounds : Nat) (reached : Still start world) :
    Follows Still start
      (readWriteDatabase place (.read amount) offset rounds : VfsM Hash Bytes) world
      fun bytes _ => place.pos < view.count ∧ bytes.length = amount := by
  induction rounds generalizing world with
  | zero =>
    apply Follows.bind (readWriteOnce_read found within reached)
    intro result after reached known
    cases result with
    | none => exact Follows.throw reached
    | some bytes => exact Follows.pure reached (known bytes rfl)
  | succ rounds ih =>
    apply Follows.bind (readWriteOnce_read found within reached)
    intro result after reached known
    cases result with
    | none => exact ih reached
    | some bytes => exact Follows.pure reached (known bytes rfl)

/-- The read SQLite makes of a header before it takes a lock. -/
def HeaderProbe (dbId : Nat) (part : Nat × Nat) : Prop :=
  part.1 = 0 ∧ part.2 = 100 ∧ dbId < firstLocalId

instance (dbId : Nat) (part : Nat × Nat) : Decidable (HeaderProbe dbId part) :=
  inferInstanceAs (Decidable (_ ∧ _ ∧ _))

theorem readWritePart_read {container : String} {dbId amount offset : Nat}
    (found : world.vfs.view container dbId = some view)
    (within : offset % world.vfs.szBlk + amount ≤ world.vfs.szBlk) :
    Follows Still world (readWritePart container dbId (.read amount) offset : VfsM Hash Bytes) world
      fun bytes _ => ¬ HeaderProbe dbId (offset, amount) ∧
        offset / world.vfs.szBlk < view.count ∧ bytes.length = amount := by
  unfold readWritePart
  by_cases probe : HeaderProbe dbId (offset, amount)
  · -- the requirement fails here, so nothing after it is run
    unfold Follows
    rw [Meets.bind, Meets.require, if_neg]
    · exact Still.refl world
    · exact not_not_intro probe
  · apply Follows.bind (Follows.of_moves (Moves.require _) (Still.refl world))
    intro _ middle reached _
    apply Follows.get_bind
    rw [reached.szBlk]
    apply Follows.tryCatch
    · apply Follows.mono (Follows.retry (fun state moved =>
        readWriteDatabase_read found within _ moved) 10 reached)
      exact fun _ _ _ known => ⟨probe, known⟩
    · intro error after moved
      exact Follows.throw moved

/-- How a read of parts ends: it reads parts that are `good` and stops behind the first other
one, whose bytes are zero. -/
inductive ReadEnd (good bad : Nat × Nat → Prop) : List (Nat × Nat) → Bytes → Bool → Prop
  | complete : ReadEnd good bad [] [] true
  | short (part : Nat × Nat) (rest : List (Nat × Nat)) (stops : bad part) :
      ReadEnd good bad (part :: rest) (List.replicate part.2 0) false
  | read (part : Nat × Nat) (rest : List (Nat × Nat)) (bytes more : Bytes) (whole : Bool)
      (reads : good part) (size : bytes.length = part.2) (later : ReadEnd good bad rest more whole) :
      ReadEnd good bad (part :: rest) (bytes ++ more) whole

/-- A part that can be read: it is no header probe, and its block is mapped. -/
def Readable (szBlk dbId count : Nat) (part : Nat × Nat) : Prop :=
  ¬ HeaderProbe dbId part ∧ part.1 / szBlk < count

/-- Whatever the environment does, a read that returns has read its parts in their order. -/
theorem readParts_ends {container : String} {dbId : Nat} (pieces : List (Nat × Nat))
    (found : world.vfs.view container dbId = some view)
    (within : ∀ part ∈ pieces, part.1 % world.vfs.szBlk + part.2 ≤ world.vfs.szBlk) :
    Meets (readParts container dbId pieces : VfsM Hash (Bytes × Bool)) world
      (fun result _ => ReadEnd (Readable world.vfs.szBlk dbId view.count) (fun _ => True) pieces
        result.1 result.2)
      (fun _ _ => True) := by
  induction pieces generalizing world with
  | nil => exact .complete
  | cons part rest ih =>
    obtain ⟨offset, amount⟩ := part
    simp only [readParts, Meets.bind, Meets.attempt]
    apply Meets.mono (readWritePart_read found (within (offset, amount) List.mem_cons_self))
    · rintro bytes middle ⟨still, regular, mapped, size⟩
      have same : middle.vfs.view container dbId = some view := by
        rw [still.view]
        exact found
      have later := ih same fun part member => by
        rw [still.szBlk]
        exact within part (List.mem_cons_of_mem _ member)
      rw [still.szBlk] at later
      apply later.mono
      · intro result _ ends
        exact .read (offset, amount) rest bytes result.1 result.2 ⟨regular, mapped⟩ size ends
      · exact fun _ _ _ => trivial
    · intro error middle _
      apply Meets.ite
      · exact fun _ => .short (offset, amount) rest trivial
      · exact fun _ => trivial

end

section

variable {szBlk dbId count amount offset : Nat} {good bad : Nat × Nat → Prop}
  {pieces : List (Nat × Nat)} {read : Bytes} {whole : Bool}

theorem ReadEnd.of_whole (ends : ReadEnd good bad pieces read true) :
    (∀ part ∈ pieces, good part) ∧ read.length = reach pieces := by
  generalize ended : true = whole at ends
  induction ends with
  | complete => simp
  | short part rest stops => cases ended
  | read part rest bytes more whole reads size later ih =>
    obtain ⟨all, length⟩ := ih ended
    constructor
    · exact List.forall_mem_cons.mpr ⟨reads, all⟩
    · simp [size, length]

theorem ReadEnd.of_short (ends : ReadEnd good bad pieces read false) :
    ∃ done part rest bytes, pieces = done ++ part :: rest ∧ bad part ∧ (∀ part ∈ done, good part) ∧
      bytes.length = reach done ∧ read = bytes ++ List.replicate part.2 0 := by
  generalize ended : false = whole at ends
  induction ends with
  | complete => cases ended
  | short part rest stops => exact ⟨[], part, rest, [], rfl, stops, by simp, rfl, rfl⟩
  | read part rest bytes more whole reads size later ih =>
    obtain ⟨done, last, after, taken, split, stops, all, length, rfl⟩ := ih ended
    refine ⟨part :: done, last, after, bytes ++ taken, ?_, stops, ?_, ?_, ?_⟩
    · rw [split, List.cons_append]
    · exact List.forall_mem_cons.mpr ⟨reads, all⟩
    · simp [size, length]
    · rw [List.append_assoc]

theorem parts_first (filled : amount ≠ 0) :
    ∃ rest, parts szBlk amount offset amount =
      (offset, min (szBlk - offset % szBlk) amount) :: rest := by
  obtain ⟨fuel, rfl⟩ : ∃ fuel, amount = fuel + 1 := ⟨amount - 1, by omega⟩
  unfold parts
  rw [if_neg filled]
  exact ⟨_, rfl⟩

theorem parts_last (positive : 0 < szBlk) {done : List (Nat × Nat)} {part : Nat × Nat}
    (split : parts szBlk amount offset amount = done ++ [part]) :
    (offset + amount - 1) / szBlk = part.1 / szBlk := by
  obtain ⟨_, size, within, _, ending⟩ := parts_split positive amount offset amount le_rfl split
  rw [if_pos rfl] at ending
  have divided := Nat.mod_add_div part.1 szBlk
  have last : offset + amount - 1 = szBlk * (part.1 / szBlk) + (part.1 % szBlk + part.2 - 1) := by
    omega
  have inside : (part.1 % szBlk + part.2 - 1) / szBlk = 0 := Nat.div_eq_of_lt (by omega)
  rw [last, Nat.mul_add_div positive, inside, Nat.add_zero]

/-- What a read is to do: it covers the range, it is complete if the range is mapped, and
otherwise the buffer is zero behind the extent. A read leaves alone what it does not cover. -/
structure ReadFaithful (extent amount offset : Nat) (read : Bytes) (whole : Bool) : Prop where
  covered : read.length = amount
  complete : whole = true ↔ ∀ i < amount, offset + i < extent
  zeros : whole = false → ∀ buffer : Bytes, buffer.length = amount → ∀ i < amount,
    extent ≤ offset + i → (read ++ buffer.drop read.length)[i]? = some 0

/-- At most the last part lies behind the mapping, and the first part of a mapped database is
no header probe. -/
def EndsAtMapping (szBlk dbId count amount offset : Nat) : Prop :=
  amount = 0 ∨
    ¬ (HeaderProbe dbId (offset, min (szBlk - offset % szBlk) amount) ∧ 0 < count) ∧
      (offset + amount - 1) / szBlk ≤ max count (offset / szBlk)

instance (szBlk dbId count amount offset : Nat) :
    Decidable (EndsAtMapping szBlk dbId count amount offset) :=
  inferInstanceAs (Decidable (_ ∨ _ ∧ _))

theorem inside_iff (positive : 0 < szBlk) (filled : amount ≠ 0) :
    (∀ i < amount, offset + i < count * szBlk) ↔ (offset + amount - 1) / szBlk < count := by
  rw [Nat.div_lt_iff_lt_mul positive]
  constructor
  · intro all
    have last := all (amount - 1) (by omega)
    omega
  · intro last i bound
    omega

theorem ReadEnd.endsAtMapping (positive : 0 < szBlk)
    (ends : ReadEnd (Readable szBlk dbId count) bad (parts szBlk amount offset amount) read whole)
    (faithful : ReadFaithful (count * szBlk) amount offset read whole) :
    EndsAtMapping szBlk dbId count amount offset := by
  by_cases nothing : amount = 0
  · exact .inl nothing
  · right
    obtain ⟨tail, first⟩ := @parts_first szBlk amount offset nothing
    cases whole with
    | true =>
      have inside := (inside_iff positive nothing).mp (faithful.complete.mp rfl)
      constructor
      · intro both
        have head := ends.of_whole.1 _ (first ▸ List.mem_cons_self)
        exact head.1 both.1
      · omega
    | false =>
      obtain ⟨done, part, rest, bytes, split, _, all, length, rfl⟩ := ends.of_short
      have total := reach_parts positive amount offset amount le_rfl
      have covered := faithful.covered
      rw [split] at total
      simp only [List.length_append, List.length_replicate, length] at covered
      simp only [reach_append, reach_cons] at total
      -- nothing is left for a further part
      have last : rest = [] := by
        by_contra more
        obtain ⟨next, others, rfl⟩ := List.exists_cons_of_ne_nil more
        have again : parts szBlk amount offset amount = (done ++ [part]) ++ next :: others := by
          simpa using split
        obtain ⟨_, size, _⟩ := parts_split positive amount offset amount le_rfl again
        simp only [reach_cons] at total
        omega
      subst last
      have block := parts_last positive split
      have outside : count ≤ (offset + amount - 1) / szBlk := by
        by_contra within
        have inside := (inside_iff positive nothing).mpr (Nat.lt_of_not_le within)
        exact Bool.false_ne_true (faithful.complete.mpr inside)
      rcases List.eq_nil_or_concat done with rfl | ⟨init, prev, rfl⟩
      · have same : (offset, min (szBlk - offset % szBlk) amount) = part := by
          rw [first] at split
          exact (List.cons.inj split).1
        rw [← same] at block
        dsimp only at block
        constructor
        · rintro ⟨⟨start, _⟩, mapped⟩
          dsimp only at start
          rw [block, start, Nat.zero_div] at outside
          omega
        · omega
      · have follows : part.1 / szBlk = prev.1 / szBlk + 1 :=
          parts_next positive amount offset amount le_rfl (by simpa using split)
        have mapped := (all prev (by simp)).2
        constructor
        · intro both
          have head : (offset, min (szBlk - offset % szBlk) amount) ∈ init.concat prev := by
            rw [first] at split
            cases init with
            | nil => simp_all
            | cons other init => simp_all
          exact (all _ head).1 both.1
        · omega

theorem ReadEnd.faithful (positive : 0 < szBlk)
    (ends : ReadEnd (Readable szBlk dbId count) (fun part => ¬ Readable szBlk dbId count part)
      (parts szBlk amount offset amount) read whole)
    (mapping : EndsAtMapping szBlk dbId count amount offset) :
    ReadFaithful (count * szBlk) amount offset read whole := by
  have total := reach_parts positive amount offset amount le_rfl
  cases whole with
  | true =>
    obtain ⟨all, length⟩ := ends.of_whole
    refine ⟨length.trans total, ?_, by simp⟩
    by_cases nothing : amount = 0
    · simp [nothing]
    · rw [inside_iff positive nothing]
      rcases List.eq_nil_or_concat (parts szBlk amount offset amount) with vacant | ⟨init, last, split⟩
      · rw [vacant] at total
        exact absurd total.symm nothing
      · have block := parts_last positive (by simpa using split)
        have mapped := (all last (by simp [split])).2
        simpa [block] using mapped
  | false =>
    obtain ⟨done, part, rest, bytes, split, stops, all, length, rfl⟩ := ends.of_short
    obtain ⟨start, size, _, later, ending⟩ :=
      parts_split positive amount offset amount le_rfl split
    have filled : amount ≠ 0 := by
      rintro rfl
      simp [parts] at split
    obtain ⟨regular, reach⟩ := mapping.resolve_left filled
    -- a header probe is the first part, and then nothing is mapped
    have outside : count ≤ part.1 / szBlk := by
      by_contra within
      apply stops
      refine ⟨?_, by omega⟩
      intro probe
      apply regular
      have first : done = [] := by
        by_contra begun
        have := (later begun).2
        have zero := probe.1
        omega
      obtain ⟨tail, head⟩ := @parts_first szBlk amount offset filled
      rw [head, first] at split
      rw [(List.cons.inj split).1]
      exact ⟨probe, Nat.zero_lt_of_lt (Nat.lt_of_not_le within)⟩
    have begins : offset / szBlk ≤ part.1 / szBlk := Nat.div_le_div_right (by omega)
    have last : rest = [] := by
      by_contra more
      rcases List.eq_nil_or_concat rest with nothing | ⟨init, final, rfl⟩
      · exact more nothing
      · have again : parts szBlk amount offset amount = (done ++ part :: init) ++ [final] := by
          simpa using split
        obtain ⟨next, others, shape⟩ := List.exists_cons_of_ne_nil more
        rw [shape] at split
        have block := parts_last positive again
        have follows := parts_next positive amount offset amount le_rfl split
        have third : parts szBlk amount offset amount = (done ++ [part]) ++ next :: others := by
          simpa using split
        obtain ⟨finish, _⟩ := parts_split positive amount offset amount le_rfl again
        obtain ⟨begin, _⟩ := parts_split positive amount offset amount le_rfl third
        have ordered : next.1 / szBlk ≤ final.1 / szBlk := by
          apply Nat.div_le_div_right
          simp only [reach_append, reach_cons, reach_nil] at finish begin
          omega
        omega
    subst last
    rw [if_pos rfl] at ending
    have block := parts_last positive split
    refine ⟨?_, ?_, ?_⟩
    · rw [List.length_append, List.length_replicate, length]
      omega
    · rw [inside_iff positive filled, block]
      constructor
      · intro impossible
        cases impossible
      · intro inside
        omega
    · intro _ buffer _ i bound beyond
      have behind : bytes.length ≤ i := by
        rcases List.eq_nil_or_concat done with rfl | ⟨init, prev, rfl⟩
        · simp [length]
        · have follows : part.1 / szBlk = prev.1 / szBlk + 1 :=
            parts_next positive amount offset amount le_rfl (by simpa using split)
          have mapped := (all prev (by simp)).2
          have aligned := (later (by simp)).1
          have divided := Nat.mod_add_div part.1 szBlk
          have bounded : szBlk * (part.1 / szBlk) ≤ count * szBlk := by
            rw [Nat.mul_comm]
            exact Nat.mul_le_mul_right _ (by omega)
          omega
      rw [List.getElem?_append_left (by simp; omega), List.getElem?_append_right behind,
        List.getElem?_replicate, if_pos (by omega)]

end

end RusqDoltlite.Blocks

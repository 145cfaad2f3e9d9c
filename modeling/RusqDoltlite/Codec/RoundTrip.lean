import RusqDoltlite.Codec.Record

/-! Encoding a session record and decoding its bytes are inverse to each other, up to the letter
case of the session id. -/

namespace RusqDoltlite.Codec

open Wire Session

theorem slice_eq_putBe {data : Bytes} {offset width value : Nat}
    (inside : offset + width ≤ data.length) (read : getBe (slice data offset width) = value) :
    slice data offset width = putBe width value := by
  rw [← read, putBe_getBe_of_length (length_slice_of_le inside)]

structure Acceptable (record : SessionRecord) (uuid : Uuid) : Prop where
  typeState : validTypeState record.type record.state record.outcome = true
  session : uuidDecode record.sessionId = some uuid
  scope : allZero record.scopeHash.1 = false
  operation : requiresOperationId record.type record.state = true →
    allZero record.operationId.1 = false
  time : record.validTime
  fits : headerBytes + record.body.length + trailerBytes ≤ recordMaxBytes
  body : ∃ fields, bodyDecode record.type record.state record.sessionId record.body = .ok fields

section
variable [RecordDigest]

def recordHash (record : SessionRecord) (uuid : Uuid) : Hash :=
  RecordDigest.sha256 (recordFields record uuid).flatten

variable {record : SessionRecord} {data : Bytes} {uuid : Uuid}

theorem recordEncode_eq_ok {out : Bytes × Hash} : recordEncode record = .ok out ↔
      ∃ uuid, Acceptable record uuid ∧ out = (recordBytes record uuid, recordHash record uuid) := by
  unfold recordEncode
  rw [check_bind_eq_ok]
  constructor
  · rintro ⟨typeState, rest⟩
    split at rest
    · cases rest
    · rename_i uuid session
      simp only [check_bind_eq_ok] at rest
      obtain ⟨present, scope, operation, time, fits, encoded⟩ := rest
      split at encoded
      · cases encoded
      · rename_i fields decoded
        cases encoded
        exact ⟨uuid, ⟨typeState, session, scope, operation, time, fits, fields, decoded⟩, rfl⟩
  · rintro ⟨uuid, ⟨typeState, session, scope, operation, time, fits, fields, decoded⟩, rfl⟩
    refine ⟨typeState, ?_⟩
    simp only [session, check_bind_eq_ok, decoded]
    exact ⟨uuidDecode_present session, scope, operation, time, fits, rfl⟩

omit [RecordDigest] in
theorem length_recordFields (record : SessionRecord) (uuid : Uuid) :
    (recordFields record uuid).map List.length = headerWidths ++ [record.body.length] := by
  have uuidSize := uuid.2
  have scopeSize := record.scopeHash.2
  have predecessorSize := record.predecessorHash.2
  have operationSize := record.operationId.2
  simp only [recordFields, List.map_cons, List.map_nil, length_putBe, uuidSize, scopeSize,
    predecessorSize, operationSize]
  rfl

theorem length_recordBytes (record : SessionRecord) (uuid : Uuid) :
    (recordBytes record uuid).length = headerBytes + record.body.length + trailerBytes := by
  have header : span headerWidths = headerBytes := rfl
  have body : span [record.body.length] = record.body.length := Nat.add_zero _
  rw [recordBytes, List.length_append, length_flatten_eq_span, length_recordFields, span_append,
    header, body, (RecordDigest.sha256 _).2]
  rfl

theorem slices_recordBytes (record : SessionRecord) (uuid : Uuid) :
    slices (recordBytes record uuid) 0 (headerWidths ++ [record.body.length, hashBytes]) =
      recordFields record uuid ++ [(recordHash record uuid).1] := by
  have all := slices_flatten [] (recordFields record uuid ++ [(recordHash record uuid).1])
  have digest : (recordHash record uuid).1.length = hashBytes := (recordHash record uuid).2
  rw [List.map_append, length_recordFields, List.map_singleton, digest, List.append_assoc,
    List.flatten_append, List.nil_append] at all
  simpa [recordBytes, recordHash] using all

structure Framed (data : Bytes) (record : SessionRecord) (uuid : Uuid) : Prop where
  length : data.length = headerBytes + record.body.length + trailerBytes
  magic : slice data 0 8 = recordMagic
  version : getBe (slice data 8 2) = recordVersion
  type : getBe (slice data 10 1) = typeCode record.type
  state : getBe (slice data 11 1) = stateCode record.state
  outcome : getBe (slice data 12 1) = outcomeCode record.outcome
  flags : getBe (slice data 13 1) = 0
  reserved : getBe (slice data 14 2) = 0
  header : getBe (slice data 16 4) = headerBytes
  total : getBe (slice data 20 4) = data.length
  sequence : getBe (slice data 24 8) = record.sequence.1
  created : getBe (slice data 32 8) = record.created.1.toNat
  expires : getBe (slice data 40 8) = record.expires.1.toNat
  session : slice data 48 16 = uuid.1
  scope : slice data 64 32 = record.scopeHash.1
  predecessor : slice data 96 32 = record.predecessorHash.1
  operation : slice data 128 32 = record.operationId.1
  bodyLength : getBe (slice data 160 4) = record.body.length
  padding : getBe (slice data 164 4) = 0
  body : slice data headerBytes record.body.length = record.body

omit [RecordDigest] in
theorem Framed.signed (frame : Framed data record uuid) :
    slice data 0 (data.length - trailerBytes) = (recordFields record uuid).flatten := by
  have length := frame.length
  have inside : ∀ offset width, offset + width ≤ 168 → offset + width ≤ data.length := by
    intro offset width below
    simp only [headerBytes, trailerBytes] at length
    omega
  have size : span (headerWidths ++ [record.body.length]) = data.length - trailerBytes := by
    rw [span_append, length]
    simp only [headerWidths, span, headerBytes, trailerBytes]
    omega
  have fields : slices data 0 (headerWidths ++ [record.body.length]) = recordFields record uuid := by
    simp only [headerWidths, slices, recordFields, List.cons_append, List.nil_append,
      List.cons.injEq, Nat.reduceAdd, and_true]
    refine ⟨frame.magic, slice_eq_putBe (inside _ _ ?_) frame.version,
      slice_eq_putBe (inside _ _ ?_) frame.type, slice_eq_putBe (inside _ _ ?_) frame.state,
      slice_eq_putBe (inside _ _ ?_) frame.outcome, slice_eq_putBe (inside _ _ ?_) frame.flags,
      slice_eq_putBe (inside _ _ ?_) frame.reserved, slice_eq_putBe (inside _ _ ?_) frame.header,
      slice_eq_putBe (inside _ _ ?_) (frame.total.trans length),
      slice_eq_putBe (inside _ _ ?_) frame.sequence, slice_eq_putBe (inside _ _ ?_) frame.created,
      slice_eq_putBe (inside _ _ ?_) frame.expires, frame.session, frame.scope, frame.predecessor,
      frame.operation, slice_eq_putBe (inside _ _ ?_) frame.bodyLength,
      slice_eq_putBe (inside _ _ ?_) frame.padding, frame.body⟩ <;> decide
  rw [← size, ← flatten_slices, fields]

structure Laid (data : Bytes) (record : SessionRecord) (uuid : Uuid) : Prop where
  frame : Framed data record uuid
  digest : slice data (data.length - trailerBytes) hashBytes = (recordHash record uuid).1

omit [RecordDigest] in
theorem toNat_lt_of_time (time : Time) : time.1.toNat < 256 ^ 8 := by
  have bound := time.2.2
  have width : (256 : Nat) ^ 8 = 2 ^ 64 := by decide
  omega

theorem laid_recordBytes (fits : headerBytes + record.body.length + trailerBytes ≤ recordMaxBytes) :
    Laid (recordBytes record uuid) record uuid := by
  have length := length_recordBytes record uuid
  have short : headerBytes + record.body.length + trailerBytes < 256 ^ 4 :=
    Nat.lt_of_le_of_lt fits (by decide)
  have small : record.body.length < 256 ^ 4 := by omega
  have fields := slices_recordBytes record uuid
  simp only [headerWidths, hashBytes, slices, recordFields, List.cons_append, List.nil_append,
    List.cons.injEq, Nat.reduceAdd, and_true] at fields
  obtain ⟨magic, version, type, state, outcome, flags, reserved, header, total, sequence, created,
    expires, session, scope, predecessor, operation, bodyLength, padding, body, digest⟩ := fields
  have frame : Framed (recordBytes record uuid) record uuid :=
    { length := length
      magic := magic
      version := by rw [version]; rfl
      type := by rw [type, getBe_putBe_of_lt (typeCode_lt _)]
      state := by rw [state, getBe_putBe_of_lt (stateCode_lt _)]
      outcome := by rw [outcome, getBe_putBe_of_lt (outcomeCode_lt _)]
      flags := by rw [flags]; rfl
      reserved := by rw [reserved]; rfl
      header := by rw [header]; rfl
      total := by rw [total, getBe_putBe_of_lt short, length]
      sequence := by rw [sequence, getBe_putBe_of_lt record.sequence.2]
      created := by rw [created, getBe_putBe_of_lt (toNat_lt_of_time _)]
      expires := by rw [expires, getBe_putBe_of_lt (toNat_lt_of_time _)]
      session := session
      scope := scope
      predecessor := predecessor
      operation := operation
      bodyLength := by rw [bodyLength, getBe_putBe_of_lt small]
      padding := by rw [padding]; rfl
      body := body }
  refine ⟨frame, ?_⟩
  rw [length, ← digest]
  rfl

theorem Laid.eq_recordBytes (laid : Laid data record uuid) : data = recordBytes record uuid := by
  have whole : slice data 0 (data.length - trailerBytes) ++
      slice data (data.length - trailerBytes) hashBytes = data := by
    have length := laid.frame.length
    have last : data.length - trailerBytes + hashBytes = data.length := by
      simp only [headerBytes, trailerBytes, hashBytes] at length ⊢
      omega
    have joined := slice_append_slice data 0 (data.length - trailerBytes) hashBytes
    rw [Nat.zero_add, last, slice_all] at joined
    exact joined
  calc
    data = slice data 0 (data.length - trailerBytes) ++
        slice data (data.length - trailerBytes) hashBytes := whole.symm
    _ = (recordFields record uuid).flatten ++ (recordHash record uuid).1 := by
      rw [laid.frame.signed, laid.digest]
    _ = recordBytes record uuid := rfl

/-- The record as the decoder returns it: the session id is in lower case. -/
def SessionRecord.canonical (record : SessionRecord) (uuid : Uuid) : SessionRecord :=
  { record with sessionId := uuidEncode uuid }

structure LaidHeader (data : Bytes) (record : SessionRecord) (uuid : Uuid) : Prop where
  enough : headerBytes + trailerBytes ≤ data.length
  type : typeOfCode (getBe (slice data 10 1)) = some record.type
  state : stateOfCode (getBe (slice data 11 1)) = some record.state
  outcome : outcomeOfCode (getBe (slice data 12 1)) = some record.outcome
  session : Fixed.read 16 data 48 = uuid
  scope : Fixed.read 32 data 64 = record.scopeHash
  predecessor : Fixed.read 32 data 96 = record.predecessorHash
  operation : Fixed.read 32 data 128 = record.operationId
  digest : RecordDigest.sha256 (slice data 0 (data.length - trailerBytes)) = recordHash record uuid

theorem Laid.header (laid : Laid data record uuid) : LaidHeader data record uuid := by
  have length := laid.frame.length
  have enough : headerBytes + trailerBytes ≤ data.length := by omega
  have read {offset width : Nat} {field : Fixed width} (below : offset + width ≤ 168)
      (laidOut : slice data offset width = field.1) : Fixed.read width data offset = field := by
    have inside : offset + width ≤ data.length := by
      simp only [headerBytes, trailerBytes] at enough
      omega
    exact Subtype.ext ((Fixed.read_eq_slice inside).trans laidOut)
  refine ⟨enough, typeOfCode_eq_some.mpr laid.frame.type, stateOfCode_eq_some.mpr laid.frame.state,
    outcomeOfCode_eq_some.mpr laid.frame.outcome, read (by decide) laid.frame.session,
    read (by decide) laid.frame.scope, read (by decide) laid.frame.predecessor,
    read (by decide) laid.frame.operation, ?_⟩
  rw [laid.frame.signed]
  rfl

theorem recordDecode_of_laid {expected : Option Bytes} (laid : Laid data record uuid)
    (accepted : Acceptable record uuid) (owner : checkSession record.type uuid expected = .ok ()) :
    recordDecode data expected (some record.scopeHash) =
      .ok (record.canonical uuid, recordHash record uuid) := by
  have length := laid.frame.length
  have header := laid.header
  have sequence : Fin.ofNat (2 ^ 64) (getBe (slice data 24 8)) = record.sequence := by
    apply Fin.ext
    rw [laid.frame.sequence]
    exact Nat.mod_eq_of_lt record.sequence.2
  obtain ⟨fields, decoded⟩ := accepted.body
  have body : bodyDecode record.type record.state (uuidEncode uuid) record.body = .ok fields := by
    rw [← decoded]
    exact bodyDecode_congr ((uuidDecode_canonical accepted.session).trans accepted.session.symm)
  have early := accepted.time.1
  have later := accepted.time.2.1
  have bounded : getBe (slice data 32 8) < 2 ^ 63 ∧ getBe (slice data 40 8) < 2 ^ 63 := by
    have createdBound := record.created.2.2
    have expiresBound := record.expires.2.2
    rw [laid.frame.created, laid.frame.expires]
    omega
  have created : ∀ small, Time.ofNat (getBe (slice data 32 8)) small = record.created := by
    intro small
    apply Subtype.ext
    simp only [Time.ofNat, laid.frame.created]
    omega
  have expires : ∀ small, Time.ofNat (getBe (slice data 40 8)) small = record.expires := by
    intro small
    apply Subtype.ext
    simp only [Time.ofNat, laid.frame.expires]
    omega
  unfold recordDecode
  simp only [header.type, header.state, header.outcome, header.session, header.scope,
    header.predecessor, header.operation, sequence, created, expires, header.digest, owner,
    unit_bind_eq_ok, check_eq_ok, dif_pos bounded, laid.frame.bodyLength, laid.frame.body, body]
  have room : record.body.length ≤ data.length - headerBytes - trailerBytes := by omega
  exact ⟨header.enough, length ▸ accepted.fits, ⟨laid.frame.magic, laid.frame.version⟩,
    ⟨accepted.typeState, laid.frame.flags, laid.frame.reserved, laid.frame.header⟩,
    ⟨laid.frame.total, room, laid.frame.total.trans length, laid.frame.padding⟩, laid.digest.symm,
    uuidDecode_present accepted.session,
    fun required => laid.frame.operation ▸ accepted.operation required, trivial,
    ⟨record.scopeHash, rfl, accepted.scope, laid.frame.scope⟩, accepted.time, rfl⟩

theorem recordDecode_eq_ok {expected : Option Bytes} {scopeHash : Option Hash} {hash : Hash}
    (success : recordDecode data expected scopeHash = .ok (record, hash)) :
    ∃ uuid, Laid data record uuid ∧ Acceptable record uuid ∧ record.sessionId = uuidEncode uuid ∧
      hash = recordHash record uuid ∧ scopeHash = some record.scopeHash ∧
      checkSession record.type uuid expected = .ok () := by
  unfold recordDecode at success
  simp only [unit_bind_eq_ok, check_eq_ok] at success
  obtain ⟨enough, fits, ⟨magic, version⟩, success⟩ := success
  split at success
  swap
  · cases success
  rename_i type state outcome typeRead stateRead outcomeRead
  simp only [unit_bind_eq_ok, check_eq_ok] at success
  obtain ⟨⟨typeState, flags, reserved, header⟩, ⟨total, room, sum, padding⟩, digest, present,
    operation, owner, ⟨scope, expectedScope, scopeSet, scopeRead⟩, success⟩ := success
  split at success
  swap
  · cases success
  rename_i bounded
  simp only [unit_bind_eq_ok, check_eq_ok] at success
  obtain ⟨time, success⟩ := success
  split at success
  · cases success
  rename_i fields decoded
  cases success
  have length : data.length = headerBytes + getBe (slice data 160 4) + trailerBytes :=
    total.symm.trans sum
  have inside : ∀ offset width, offset + width ≤ 168 → offset + width ≤ data.length := by
    intro offset width below
    simp only [headerBytes, trailerBytes] at length
    omega
  have bodySize : (slice data headerBytes (getBe (slice data 160 4))).length =
      getBe (slice data 160 4) := length_slice_of_le (by omega)
  have sessionRead := @Fixed.read_eq_slice 16 48 data (inside 48 16 (by decide))
  have scopeHashRead := @Fixed.read_eq_slice 32 64 data (inside 64 32 (by decide))
  have predecessorRead := @Fixed.read_eq_slice 32 96 data (inside 96 32 (by decide))
  have operationRead := @Fixed.read_eq_slice 32 128 data (inside 128 32 (by decide))
  have sequenceRead : getBe (slice data 24 8) < 2 ^ 64 := by
    have bound := getBe_lt (slice data 24 8)
    rw [length_slice_of_le (inside 24 8 (by decide))] at bound
    exact bound
  have frame : Framed data
      { type := type
        state := state
        outcome := outcome
        sequence := Fin.ofNat (2 ^ 64) (getBe (slice data 24 8))
        created := ⟨getBe (slice data 32 8), by omega⟩
        expires := ⟨getBe (slice data 40 8), by omega⟩
        sessionId := uuidEncode (Fixed.read 16 data 48)
        scopeHash := Fixed.read 32 data 64
        predecessorHash := Fixed.read 32 data 96
        operationId := Fixed.read 32 data 128
        body := slice data headerBytes (getBe (slice data 160 4)) } (Fixed.read 16 data 48) :=
    { length := by rw [length, bodySize]
      magic := magic
      version := version
      type := typeOfCode_eq_some.mp typeRead
      state := stateOfCode_eq_some.mp stateRead
      outcome := outcomeOfCode_eq_some.mp outcomeRead
      flags := flags
      reserved := reserved
      header := header
      total := total
      sequence := (Nat.mod_eq_of_lt sequenceRead).symm
      created := rfl
      expires := rfl
      session := sessionRead.symm
      scope := scopeHashRead.symm
      predecessor := predecessorRead.symm
      operation := operationRead.symm
      bodyLength := bodySize.symm
      padding := padding
      body := by rw [bodySize] }
  have scopeSame : scope = Fixed.read 32 data 64 := Subtype.ext (scopeRead.symm.trans scopeHashRead.symm)
  subst scopeSame
  have hashSame := congrArg RecordDigest.sha256 frame.signed
  refine ⟨Fixed.read 16 data 48, ⟨frame, ?_⟩, ⟨typeState, uuidDecode_encode present, scopeSet, ?_,
    time, ?_, fields, decoded⟩, rfl, hashSame, expectedScope, owner⟩
  · rw [← digest, hashSame]
    rfl
  · intro required
    exact (congrArg allZero operationRead).trans (operation required)
  · rw [bodySize, ← length]
    exact fits

/-- Decoding the bytes of an encoded record returns it with its hash, the session id in lower
case; encoding a decoded record returns the bytes. So no two byte strings are one record. -/
theorem record_codec_inverse :
    (∀ record bytes hash, recordEncode record = .ok (bytes, hash) →
      recordDecode bytes (some record.sessionId) (some record.scopeHash) =
        .ok ({ record with sessionId := record.sessionId.map lower }, hash)) ∧
    (∀ data expected scopeHash record hash, recordDecode data expected scopeHash = .ok (record, hash) →
      recordEncode record = .ok (data, hash)) ∧
    (∀ first second expected expected' scopeHash scopeHash' record hash hash',
      recordDecode first expected scopeHash = .ok (record, hash) →
      recordDecode second expected' scopeHash' = .ok (record, hash') → first = second) := by
  have again : ∀ data expected scopeHash record hash,
      recordDecode data expected scopeHash = .ok (record, hash) →
      recordEncode record = .ok (data, hash) := by
    intro data expected scopeHash record hash decoded
    obtain ⟨uuid, laid, accepted, _, rfl, _⟩ := recordDecode_eq_ok decoded
    rw [recordEncode_eq_ok]
    exact ⟨uuid, accepted, by rw [← laid.eq_recordBytes]⟩
  refine ⟨?_, again, ?_⟩
  · intro record bytes hash encoded
    obtain ⟨uuid, accepted, same⟩ := recordEncode_eq_ok.mp encoded
    obtain ⟨rfl, rfl⟩ := Prod.mk.inj same
    have owner : checkSession record.type uuid (some record.sessionId) = .ok () :=
      check_eq_ok.mpr accepted.session
    rw [recordDecode_of_laid (laid_recordBytes accepted.fits) accepted owner,
      SessionRecord.canonical, uuidEncode_decoded accepted.session]
  · intro first second expected expected' scopeHash scopeHash' record hash hash' one other
    have encoded := again _ _ _ _ _ one
    rw [again _ _ _ _ _ other] at encoded
    cases encoded
    rfl

end

@[reducible] def frontDigest : RecordDigest where
  sha256 bytes := Fixed.read 32 bytes 0

def sampleSession (digit : Char) : Bytes :=
  UInt8.ofNat digit.toNat :: ascii "0000000-0000-0000-0000-000000000000"

def sampleCheckpoint (digit : Char) : SessionRecord where
  type := .checkpoint
  state := .opened
  outcome := .none
  sequence := ⟨1, by decide⟩
  created := Time.ofNat 0 (by decide)
  expires := Time.ofNat 1 (by decide)
  sessionId := sampleSession digit
  scopeHash := Fixed.read 32 [1] 0
  predecessorHash := Fixed.read 32 [] 0
  operationId := Fixed.read 32 [2] 0
  body := checkpointBodyMagic ++ putBe 8 3 ++ putBe 4 1 ++ putBe 4 1 ++ [0x61, 7]

theorem record_codec_inverse_sample :
    ∃ bytes hash, @recordEncode frontDigest (sampleCheckpoint 'a') = .ok (bytes, hash) ∧
      @recordDecode frontDigest bytes (some (sampleCheckpoint 'a').sessionId)
        (some (sampleCheckpoint 'a').scopeHash) = .ok (sampleCheckpoint 'a', hash) := by
  have encoded : @recordEncode frontDigest (sampleCheckpoint 'a') =
      .ok (@recordBytes frontDigest (sampleCheckpoint 'a') (Fixed.read 16 [0xa0] 0),
        @recordHash frontDigest (sampleCheckpoint 'a') (Fixed.read 16 [0xa0] 0)) := by
    decide +kernel
  have same : { sampleCheckpoint 'a' with
      sessionId := (sampleCheckpoint 'a').sessionId.map lower } = sampleCheckpoint 'a' := by
    decide +kernel
  have decoded := (@record_codec_inverse frontDigest).1 _ _ _ encoded
  rw [same] at decoded
  exact ⟨_, _, encoded, decoded⟩

/-- A session id with an upper-case digit comes back in lower case. -/
theorem record_codec_changes_session :
    ∃ bytes hash record, @recordEncode frontDigest (sampleCheckpoint 'A') = .ok (bytes, hash) ∧
      @recordDecode frontDigest bytes (some (sampleCheckpoint 'A').sessionId)
        (some (sampleCheckpoint 'A').scopeHash) = .ok (record, hash) ∧
      record ≠ sampleCheckpoint 'A' := by
  refine ⟨@recordBytes frontDigest (sampleCheckpoint 'A') (Fixed.read 16 [0xa0] 0),
    @recordHash frontDigest (sampleCheckpoint 'A') (Fixed.read 16 [0xa0] 0), sampleCheckpoint 'a',
    by decide +kernel, by decide +kernel, by decide +kernel⟩

end RusqDoltlite.Codec

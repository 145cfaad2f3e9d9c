import RusqDoltlite.Http.ErrorMap
import RusqDoltlite.Wire.BigEndian

/-! Chunks by hash: `httpGetChunks`, which halves a request whose reply is too big. -/

namespace RusqDoltlite.Http

open Wire

def prollyHashSize : Nat := 20

structure ProllyHash where
  bytes : Bytes
  size : bytes.length = prollyHashSize
deriving DecidableEq

/-- What the requests so far and a further one are answered with: a status and a body, or the code of a
transport that gave up. -/
abbrev Server := List (List ProllyHash) → List ProllyHash → Except Code (Nat × Bytes)

abbrev Slots := List (Option Bytes)

structure Fetched where
  log : List (List ProllyHash)
  rc : Option Code
  slots : Slots
deriving DecidableEq

def cleared (count : Nat) : Slots := List.replicate count none

def absentLength : Nat := 0xffffffff

def fill (slot : Option Bytes) (result : Option Code × Slots) : Option Code × Slots :=
  (result.1, slot :: result.2)

/-- `httpParseChunkBatch`, from an offset on. The slots behind a fault stay empty. -/
def parseChunkBatch (resp : Bytes) : Nat → Nat → Option Code × Slots
  | _, 0 => (none, [])
  | offset, nHash + 1 =>
    if resp.length < offset + 4 then (some .error, cleared (nHash + 1))
    else
      let length := getBe (slice resp offset 4)
      if length = absentLength then fill none (parseChunkBatch resp (offset + 4) nHash)
      else if resp.length < offset + 4 + length then (some .error, cleared (nHash + 1))
      else
        fill (some (slice resp (offset + 4) length)) (parseChunkBatch resp (offset + 4 + length) nHash)

/-- `httpGetChunksRequest`; the flag is set when the request or its reply is too big. -/
def getChunksRequest (server : Server) (log : List (List ProllyHash)) (hashes : List ProllyHash) :
    Fetched × Bool :=
  if hashes = [] then (⟨log, none, []⟩, false)
  else if httpLimits.respMaxBytes / prollyHashSize < hashes.length then
    (⟨log, some .tooBig, cleared hashes.length⟩, true)
  else
    match server log hashes with
    | .error code => (⟨log ++ [hashes], some code, cleared hashes.length⟩, code == .tooBig)
    | .ok reply =>
      if reply.1 ≠ 200 then
        (⟨log ++ [hashes], some (mapError reply.1 reply.2), cleared hashes.length⟩, reply.1 == 413)
      else
        let parsed := parseChunkBatch reply.2 0 hashes.length
        (⟨log ++ [hashes], parsed.1, parsed.2⟩, false)

def getChunksRange (server : Server) (log : List (List ProllyHash)) (hashes : List ProllyHash) : Fetched :=
  let whole := getChunksRequest server log hashes
  if whole.1.rc ≠ some .tooBig ∨ whole.2 = false ∨ hashes.length ≤ 1 then whole.1
  else
    let nFirst := hashes.length / 2
    let first := getChunksRange server whole.1.log (hashes.take nFirst)
    if first.rc ≠ none then { first with slots := first.slots ++ whole.1.slots.drop nFirst }
    else
      let rest := getChunksRange server first.log (hashes.drop nFirst)
      { rest with slots := first.slots ++ rest.slots }
termination_by hashes.length
decreasing_by
  · rw [List.length_take]
    omega
  · rw [List.length_drop]
    omega

def getChunks (server : Server) (hashes : List ProllyHash) : Fetched :=
  if hashes = [] then ⟨[], none, []⟩
  else
    let fetched := getChunksRange server [] hashes
    if fetched.rc ≠ none then { fetched with slots := cleared hashes.length } else fetched

def writeChunk : Option Bytes → Bytes
  | none => putBe 4 absentLength
  | some data => putBe 4 data.length ++ data

def reply (store : ProllyHash → Option Bytes) (hashes : List ProllyHash) : Bytes :=
  (hashes.map store).flatMap writeChunk

/-- A server that answers in full what is within its limit, and anything else with a status 413, or
with more than the client takes. What is within the limit is taken. -/
structure Serves (store : ProllyHash → Option Bytes) (limit : Nat) (server : Server) : Prop where
  taken : limit ≤ httpLimits.respMaxBytes
  within : ∀ log hashes, (reply store hashes).length ≤ limit →
    server log hashes = .ok (200, reply store hashes)
  beyond : ∀ log hashes, limit < (reply store hashes).length →
    server log hashes = .error .tooBig ∨ ∃ body, server log hashes = .ok (413, body)

theorem parseChunkBatch_flatMap (front : Bytes) {entries : Slots}
    (small : ∀ data, some data ∈ entries → data.length < absentLength) :
    parseChunkBatch (front ++ entries.flatMap writeChunk) front.length entries.length =
      (none, entries) := by
  induction entries generalizing front with
  | nil => rfl
  | cons entry entries ih =>
    have others := fun front => ih front fun data member => small data (List.mem_cons_of_mem entry member)
    have absent : absentLength < 256 ^ 4 := by decide
    rw [List.flatMap_cons, List.length_cons, parseChunkBatch]
    cases entry with
    | none =>
      have length := slice_part front (putBe 4 absentLength) (entries.flatMap writeChunk)
      have later := others (front ++ putBe 4 absentLength)
      rw [List.append_assoc, List.length_append, length_putBe] at later
      rw [length_putBe] at length
      rw [writeChunk, if_neg (by simp only [List.length_append, length_putBe]; omega), length,
        getBe_putBe_of_lt absent]
      simp only [if_true, later]
      rfl
    | some data =>
      have few := small data List.mem_cons_self
      have length := slice_part front (putBe 4 data.length) (data ++ entries.flatMap writeChunk)
      have body := slice_part (front ++ putBe 4 data.length) data (entries.flatMap writeChunk)
      have later := others (front ++ (putBe 4 data.length ++ data))
      rw [List.append_assoc, List.append_assoc, List.length_append, List.length_append, length_putBe,
        ← Nat.add_assoc] at later
      rw [List.append_assoc, List.length_append, length_putBe] at body
      rw [length_putBe] at length
      rw [writeChunk, List.append_assoc, if_neg (by simp only [List.length_append, length_putBe]; omega),
        length, getBe_putBe_of_lt (by omega), if_neg (by omega),
        if_neg (by simp only [List.length_append, length_putBe]; omega), body, later]
      rfl

section
variable {store : ProllyHash → Option Bytes} {limit : Nat} {server : Server}

theorem reply_append (front rest : List ProllyHash) :
    reply store (front ++ rest) = reply store front ++ reply store rest := by
  rw [reply, List.map_append, List.flatMap_append]
  rfl

theorem length_reply_le {hash : ProllyHash} {hashes : List ProllyHash} (member : hash ∈ hashes) :
    (reply store [hash]).length ≤ (reply store hashes).length := by
  obtain ⟨front, rest, rfl⟩ := List.append_of_mem member
  have parts : front ++ hash :: rest = front ++ ([hash] ++ rest) := rfl
  rw [parts, reply_append, reply_append, List.length_append, List.length_append]
  omega

def Fits (store : ProllyHash → Option Bytes) (limit : Nat) (hash : ProllyHash) : Prop :=
  (reply store [hash]).length ≤ limit

theorem parseChunkBatch_reply {hashes : List ProllyHash} (taken : limit ≤ httpLimits.respMaxBytes)
    (within : (reply store hashes).length ≤ limit) :
    parseChunkBatch (reply store hashes) 0 hashes.length = (none, hashes.map store) := by
  have most : httpLimits.respMaxBytes < absentLength := by decide
  have small : ∀ data, some data ∈ hashes.map store → data.length < absentLength := by
    intro data member
    obtain ⟨hash, listed, stored⟩ := List.mem_map.mp member
    have part := @length_reply_le store hash hashes listed
    have alone : reply store [hash] = putBe 4 data.length ++ data := by
      simp only [reply, List.map_cons, List.map_nil, stored, List.flatMap_cons, List.flatMap_nil,
        writeChunk, List.append_nil]
    rw [alone, List.length_append] at part
    omega
  have parsed := parseChunkBatch_flatMap [] small
  rw [List.length_map, List.nil_append, ← reply] at parsed
  exact parsed

def PlainlyRefuses (server : Server) : Prop :=
  ∀ log hashes body, server log hashes = .ok (413, body) → (errorFields body).Plain

structure RangeDone (store : ProllyHash → Option Bytes) (limit : Nat) (log : List (List ProllyHash))
    (hashes : List ProllyHash) (fetched : Fetched) : Prop where
  requests : fetched.log.length + 1 ≤ log.length + 2 * hashes.length
  filled : (∀ hash ∈ hashes, Fits store limit hash) → fetched.rc = none ∧ fetched.slots = hashes.map store
  refused : (¬ ∀ hash ∈ hashes, Fits store limit hash) → fetched.rc = some .tooBig

theorem getChunksRequest_cases (serves : Serves store limit server) (plain : PlainlyRefuses server)
    (log : List (List ProllyHash)) {hashes : List ProllyHash} (asked : hashes ≠ []) :
    ((reply store hashes).length ≤ limit ∧
      getChunksRequest server log hashes = (⟨log ++ [hashes], none, hashes.map store⟩, false)) ∨
    (∃ log', log'.length ≤ log.length + 1 ∧ (limit < (reply store hashes).length ∨ 1 < hashes.length) ∧
      getChunksRequest server log hashes = (⟨log', some .tooBig, cleared hashes.length⟩, true)) := by
  rw [getChunksRequest, if_neg asked]
  by_cases many : httpLimits.respMaxBytes / prollyHashSize < hashes.length
  · rw [if_pos many]
    have least : 1 ≤ httpLimits.respMaxBytes / prollyHashSize := by decide
    exact .inr ⟨log, by omega, .inr (by omega), rfl⟩
  · rw [if_neg many]
    by_cases within : (reply store hashes).length ≤ limit
    · left
      refine ⟨within, ?_⟩
      rw [serves.within log hashes within]
      simp only [ne_eq, not_true_eq_false, if_false, parseChunkBatch_reply serves.taken within]
    · right
      refine ⟨log ++ [hashes], by simp, .inl (by omega), ?_⟩
      rcases serves.beyond log hashes (by omega) with big | ⟨body, refused⟩
      · rw [big]
        rfl
      · have code := mapError_plain (plain log hashes body refused)
        rw [refused]
        simp only [code]
        rfl

theorem getChunksRange_done (serves : Serves store limit server) (plain : PlainlyRefuses server)
    (log : List (List ProllyHash)) {hashes : List ProllyHash} (asked : hashes ≠ []) :
    RangeDone store limit log hashes (getChunksRange server log hashes) := by
  induction size : hashes.length using Nat.strong_induction_on generalizing log hashes with
  | h count ih =>
    have positive : 0 < hashes.length := List.length_pos_iff.mpr asked
    rcases getChunksRequest_cases serves plain log asked with ⟨within, answered⟩ | ⟨log', few, big, answered⟩
    · have whole : getChunksRange server log hashes = ⟨log ++ [hashes], none, hashes.map store⟩ := by
        rw [getChunksRange, answered]
        exact if_pos (.inl (by simp))
      have all : ∀ hash ∈ hashes, Fits store limit hash := by
        intro hash member
        exact Nat.le_trans (length_reply_le member) within
      rw [whole]
      exact ⟨by simp only [List.length_append, List.length_singleton]; omega, fun _ => ⟨rfl, rfl⟩,
        fun not => absurd all not⟩
    · by_cases one : hashes.length ≤ 1
      · have whole : getChunksRange server log hashes = ⟨log', some .tooBig, cleared hashes.length⟩ := by
          rw [getChunksRange, answered]
          exact if_pos (.inr (.inr one))
        obtain ⟨hash, rfl⟩ := List.length_eq_one_iff.mp (show hashes.length = 1 by omega)
        have beyond : limit < (reply store [hash]).length := by
          rcases big with beyond | two
          · exact beyond
          · omega
        rw [whole]
        refine ⟨by simp only [List.length_singleton]; omega, ?_, fun _ => rfl⟩
        intro all
        have fits : (reply store [hash]).length ≤ limit := all hash List.mem_cons_self
        omega
      · -- both halves are shorter, and none is empty
        have lengths : (hashes.take (hashes.length / 2)).length = hashes.length / 2 ∧
            (hashes.drop (hashes.length / 2)).length = hashes.length - hashes.length / 2 := by
          rw [List.length_take, List.length_drop]
          omega
        have halves : getChunksRange server log hashes =
            if (getChunksRange server log' (hashes.take (hashes.length / 2))).rc ≠ none then
              { getChunksRange server log' (hashes.take (hashes.length / 2)) with
                slots := (getChunksRange server log' (hashes.take (hashes.length / 2))).slots ++
                  (cleared hashes.length).drop (hashes.length / 2) }
            else
              { getChunksRange server (getChunksRange server log' (hashes.take (hashes.length / 2))).log
                  (hashes.drop (hashes.length / 2)) with
                slots := (getChunksRange server log' (hashes.take (hashes.length / 2))).slots ++
                  (getChunksRange server (getChunksRange server log' (hashes.take (hashes.length / 2))).log
                    (hashes.drop (hashes.length / 2))).slots } := by
          rw [getChunksRange, answered]
          exact if_neg (by simp; omega)
        have first := @ih (hashes.length / 2) (by omega) log' (hashes.take (hashes.length / 2))
          (List.ne_nil_of_length_pos (by omega)) lengths.1
        generalize getChunksRange server log' (hashes.take (hashes.length / 2)) = front at first halves
        have second := @ih (hashes.length - hashes.length / 2) (by omega) front.log
          (hashes.drop (hashes.length / 2)) (List.ne_nil_of_length_pos (by omega)) lengths.2
        generalize getChunksRange server front.log (hashes.drop (hashes.length / 2)) = back at second halves
        have early := first.requests
        have late := second.requests
        rw [lengths.1] at early
        rw [lengths.2] at late
        have parts : (∀ hash ∈ hashes, Fits store limit hash) ↔
            (∀ hash ∈ hashes.take (hashes.length / 2), Fits store limit hash) ∧
              ∀ hash ∈ hashes.drop (hashes.length / 2), Fits store limit hash := by
          conv_lhs => rw [← List.take_append_drop (hashes.length / 2) hashes]
          exact List.forall_mem_append
        by_cases fit : ∀ hash ∈ hashes.take (hashes.length / 2), Fits store limit hash
        · obtain ⟨ok, filled⟩ := first.filled fit
          rw [halves, if_neg (by rw [ok]; simp)]
          refine ⟨by simp only; omega, ?_, fun not => second.refused fun others => not (parts.mpr ⟨fit, others⟩)⟩
          intro all
          obtain ⟨done, rest⟩ := second.filled (parts.mp all).2
          refine ⟨done, ?_⟩
          simp only
          rw [filled, rest, ← List.map_append, List.take_append_drop]
        · have refused := first.refused fit
          rw [halves, if_pos (by rw [refused]; simp)]
          exact ⟨by simp only; omega, fun all => absurd (parts.mp all).1 fit, fun _ => refused⟩

/-- Every slot is filled when the chunk of every hash can be answered alone; otherwise the result is
that it is too big, and no slot is filled. -/
theorem getChunks_serves (serves : Serves store limit server) (plain : PlainlyRefuses server)
    (hashes : List ProllyHash) :
    ((∀ hash ∈ hashes, Fits store limit hash) →
      (getChunks server hashes).rc = none ∧ (getChunks server hashes).slots = hashes.map store) ∧
    ((¬ ∀ hash ∈ hashes, Fits store limit hash) →
      (getChunks server hashes).rc = some .tooBig ∧
        (getChunks server hashes).slots = cleared hashes.length) ∧
    (getChunks server hashes).log.length ≤ 2 * hashes.length - 1 := by
  by_cases empty : hashes = []
  · subst empty
    exact ⟨fun _ => ⟨rfl, rfl⟩, fun not => absurd (fun hash member => absurd member List.not_mem_nil) not,
      Nat.le_refl 0⟩
  · have done := getChunksRange_done serves plain [] empty
    have requests := done.requests
    rw [List.length_nil, Nat.zero_add] at requests
    by_cases all : ∀ hash ∈ hashes, Fits store limit hash
    · obtain ⟨ok, filled⟩ := done.filled all
      have whole : getChunks server hashes = getChunksRange server [] hashes := by
        rw [getChunks, if_neg empty]
        exact if_neg (by rw [ok]; simp)
      rw [whole]
      exact ⟨fun _ => ⟨ok, filled⟩, fun not => absurd all not, by omega⟩
    · have refused := done.refused all
      have whole : getChunks server hashes =
          { getChunksRange server [] hashes with slots := cleared hashes.length } := by
        rw [getChunks, if_neg empty]
        exact if_pos (by rw [refused]; simp)
      rw [whole]
      exact ⟨fun yes => absurd yes all, fun _ => ⟨refused, rfl⟩, by simp only; omega⟩

end

def sampleHash (byte : UInt8) : ProllyHash := ⟨List.replicate prollyHashSize byte, List.length_replicate⟩

def sampleStore (hash : ProllyHash) : Option Bytes := if hash = sampleHash 1 then some [7, 8, 9] else none

/-- A server that has one chunk, and whose limit that chunk fills. -/
def sampleServer (refusal : Bytes) : Server := fun _ hashes =>
  if (reply sampleStore hashes).length ≤ 7 then .ok (200, reply sampleStore hashes)
  else .ok (413, refusal)

theorem sampleServer_serves (refusal : Bytes) : Serves sampleStore 7 (sampleServer refusal) := by
  refine ⟨by decide, ?_, ?_⟩
  · intro log hashes within
    rw [sampleServer, if_pos within]
  · intro log hashes beyond
    rw [sampleServer, if_neg (by omega)]
    exact .inr ⟨refusal, rfl⟩

theorem sampleServer_fits : ∀ hash ∈ [sampleHash 1, sampleHash 2], Fits sampleStore 7 hash := by
  refine List.forall_mem_cons.mpr ⟨?_, List.forall_mem_singleton.mpr ?_⟩ <;> unfold Fits <;> decide

def busyRefusal : Bytes := ascii "\x7b\"code\":\"busy\"\x7d"

/-- A status 413 that names another error ends the transfer with that error. -/
theorem getChunks_busy_refusal :
    Serves sampleStore 7 (sampleServer busyRefusal) ∧
      (∀ hash ∈ [sampleHash 1, sampleHash 2], Fits sampleStore 7 hash) ∧
      (getChunks (sampleServer busyRefusal) [sampleHash 1, sampleHash 2]).rc = some .busy := by
  refine ⟨sampleServer_serves busyRefusal, sampleServer_fits, ?_⟩
  have request : getChunksRequest (sampleServer busyRefusal) [] [sampleHash 1, sampleHash 2] =
      (⟨[[sampleHash 1, sampleHash 2]], some .busy, [none, none]⟩, true) := by decide +kernel
  rw [getChunks, if_neg (List.cons_ne_nil _ _), getChunksRange, request]
  rfl

def tooBigRefusal : Bytes := ascii "\x7b\"code\":\"toobig\",\"sqlite\":18\x7d"

theorem tooBigRefusal_plain : (errorFields tooBigRefusal).Plain :=
  ⟨by decide +kernel, by decide +kernel⟩

theorem getChunks_serves_sample :
    (getChunks (sampleServer tooBigRefusal) [sampleHash 1, sampleHash 2]).rc = none ∧
      (getChunks (sampleServer tooBigRefusal) [sampleHash 1, sampleHash 2]).slots = [some [7, 8, 9], none] :=
  (getChunks_serves (sampleServer_serves tooBigRefusal)
    (by
      intro log hashes body refused
      rw [sampleServer] at refused
      split at refused
      · cases refused
      · cases refused
        exact tooBigRefusal_plain)
    [sampleHash 1, sampleHash 2]).1 sampleServer_fits

end RusqDoltlite.Http

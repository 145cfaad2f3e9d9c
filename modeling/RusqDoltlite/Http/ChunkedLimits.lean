import RusqDoltlite.Http.ChunkedLaws

/-! What does not depend on the limits: a greater limit changes nothing for a body that was taken under
a smaller one, so no body of the grammar is complete before its end. -/

namespace RusqDoltlite.Http

open Wire

namespace Decoder

variable {lim : Limits} {p : Decoder}

section limits
variable {more : Limits}

structure Below (lim more : Limits) : Prop where
  resp : lim.respMaxBytes ≤ more.respMaxBytes
  header : lim.headerMaxBytes ≤ more.headerMaxBytes

variable {q : Decoder} {c : UInt8} {out : Bytes}

theorem count_mono (below : Below lim more) (counted : p.count lim = .ok q) :
    p.count more = .ok q := by
  have resp := below.resp
  have header := below.header
  rw [count] at counted ⊢
  by_cases wire : lim.respMaxBytes ≤ p.nWire
  · rw [if_pos wire] at counted
    cases counted
  · rw [if_neg wire] at counted
    rw [if_neg (by omega)]
    by_cases sized : p.state.inSizeLine = true
    · rw [if_pos sized] at counted ⊢
      by_cases full : lim.headerMaxBytes ≤ p.nSizeLineBytes
      · rw [if_pos full] at counted
        cases counted
      · rw [if_neg full] at counted
        rw [if_neg (by omega), counted]
    · rw [if_neg sized] at counted ⊢
      by_cases trailing : p.state.inTrailer = true
      · rw [if_pos trailing] at counted ⊢
        by_cases full : lim.headerMaxBytes ≤ p.nTrailerBytes
        · rw [if_pos full] at counted
          cases counted
        · rw [if_neg full] at counted
          rw [if_neg (by omega), counted]
      · rw [if_neg trailing] at counted ⊢
        exact counted

theorem takeSize_mono (below : Below lim more) (taken : p.takeSize lim c = .ok q) :
    p.takeSize more c = .ok q := by
  have resp := below.resp
  rw [takeSize] at taken ⊢
  cases digit : chunkedHexValue c with
  | none =>
    rw [digit] at taken
    exact taken
  | some digit' =>
    rw [digit] at taken
    simp only at taken ⊢
    by_cases full : (lim.respMaxBytes - digit') / 16 < p.nChunkSize
    · rw [if_pos full] at taken
      cases taken
    · rw [if_neg full] at taken
      rw [if_neg (by omega), taken]

theorem takeSizeLf_mono (below : Below lim more) (taken : p.takeSizeLf lim c = .ok q) :
    p.takeSizeLf more c = .ok q := by
  have resp := below.resp
  rw [takeSizeLf] at taken ⊢
  by_cases feed : c ≠ lf
  · rw [if_pos feed] at taken
    cases taken
  · rw [if_neg feed] at taken ⊢
    by_cases last : p.nChunkSize = 0
    · rw [if_pos last] at taken ⊢
      exact taken
    · rw [if_neg last] at taken ⊢
      by_cases full : lim.respMaxBytes < p.nDecoded + p.nChunkSize
      · rw [if_pos full] at taken
        cases taken
      · rw [if_neg full] at taken
        rw [if_neg (by omega), taken]

theorem takeTrailerLine_mono (below : Below lim more) (taken : p.takeTrailerLine lim c = .ok q) :
    p.takeTrailerLine more c = .ok q := by
  have header := below.header
  rw [takeTrailerLine] at taken ⊢
  by_cases full : lim.headerMaxBytes ≤ p.nTrailerLineBytes
  · rw [if_pos full] at taken
    cases taken
  · rw [if_neg full] at taken
    rw [if_neg (by omega)]
    exact taken

theorem take_mono (below : Below lim more) (taken : p.take lim c = .ok q) :
    p.take more c = .ok q := by
  rw [take] at taken ⊢
  cases state : p.state with
  | size =>
    rw [state] at taken
    exact takeSize_mono below taken
  | sizeLf =>
    rw [state] at taken
    exact takeSizeLf_mono below taken
  | trailerLine =>
    rw [state] at taken
    exact takeTrailerLine_mono below taken
  | _ =>
    rw [state] at taken
    exact taken

theorem control_mono (below : Below lim more) (taken : p.control lim c = .ok q) : p.control more c = .ok q := by
  rw [control] at taken ⊢
  cases counted : p.count lim with
  | error e =>
    rw [counted] at taken
    cases taken
  | ok middle =>
    rw [counted] at taken
    rw [count_mono below counted]
    exact take_mono below taken

theorem quiet_mono (below : Below lim more) (taken : quiet (p.control lim c) = .ok (q, out)) :
    quiet (p.control more c) = .ok (q, out) := by
  cases controlled : p.control lim c with
  | error e =>
    rw [controlled] at taken
    cases taken
  | ok middle =>
    rw [controlled] at taken
    rw [control_mono below controlled, taken]

theorem byte_mono (below : Below lim more) (taken : byte lim p c = .ok (q, out)) :
    byte more p c = .ok (q, out) := by
  have resp := below.resp
  rw [byte] at taken ⊢
  by_cases ended : p.state = .done
  · rw [if_pos ended] at taken
    cases taken
  · rw [if_neg ended] at taken ⊢
    by_cases inside : p.state = .data
    · rw [if_pos inside] at taken ⊢
      by_cases full : p.Exceeds lim (min 1 p.nChunkRemaining)
      · rw [if_pos full] at taken
        cases taken
      · have fits : ¬ p.Exceeds more (min 1 p.nChunkRemaining) := by
          simp only [Exceeds] at full ⊢
          omega
        rw [if_neg full] at taken
        rw [if_neg fits]
        by_cases empty : p.nChunkRemaining = 0
        · rw [if_pos empty] at taken ⊢
          exact quiet_mono below taken
        · rw [if_neg empty] at taken ⊢
          exact taken
    · rw [if_neg inside] at taken ⊢
      exact quiet_mono below taken

theorem takes_mono {word : Bytes} (below : Below lim more) (taken : Machine.Takes (byte lim) p word q out) :
    Machine.Takes (byte more) p word q out := by
  induction word generalizing p out with
  | nil => exact taken
  | cons c word ih =>
    obtain ⟨next, first, later, here, rest, rfl⟩ := Machine.takes_cons_iff.mp taken
    exact (ih rest).cons (byte_mono below here)

end limits

theorem length_le_of_mem {α : Type} {render : α → Bytes} {part : α} {parts : List α}
    (member : part ∈ parts) : (render part).length ≤ (parts.flatMap render).length := by
  induction parts with
  | nil => cases member
  | cons other parts ih =>
    rw [List.flatMap_cons, List.length_append]
    rcases List.mem_cons.mp member with rfl | member
    · omega
    · have later := ih member
      omega

theorem exists_within (lim : Limits) (body : ChunkedBody) : ∃ more, Below lim more ∧ body.Within more := by
  have length : body.render.length = (body.chunks.flatMap Chunk.render).length +
      ((sizeLine body.zeros body.lastExts).length + body.trailerSection.length) := by
    rw [ChunkedBody.render, List.length_append, List.length_append]
  refine ⟨⟨lim.respMaxBytes + body.render.length, lim.headerMaxBytes + body.render.length⟩,
    ⟨Nat.le_add_right _ _, Nat.le_add_right _ _⟩,
    ⟨by simp only; omega, ?_, by simp only; omega, by simp only; omega⟩⟩
  intro chunk member
  have part := @length_le_of_mem Chunk Chunk.render chunk body.chunks member
  have line : (sizeLine chunk.digits chunk.exts).length ≤ chunk.render.length := by
    rw [Chunk.render, List.length_append]
    omega
  simp only
  omega

theorem not_done_of_prefix {body : ChunkedBody} {front rest out : Bytes} {q : Decoder}
    (parts : front ++ rest = body.render) (left : rest ≠ [])
    (taken : Machine.Takes (byte lim) {} front q out) : q.state ≠ .done := by
  obtain ⟨more, below, within⟩ := exists_within lim body
  obtain ⟨last, whole, _⟩ := takes_body body within
  rw [← parts] at whole
  obtain ⟨middle, first, here, running⟩ := not_done_of_takes whole left
  have same := takes_mono below taken
  rw [Machine.Takes, here] at same
  have states : middle = q := (Prod.mk.inj (Except.ok.inj same)).1
  rw [← states]
  exact running

end Decoder

/-- The decoder of chunked bodies: the pieces it is fed do not matter; it completes on the bodies of the
grammar that are within the limits, with their data, and not before their end; and nothing may follow
a complete body. -/
theorem chunkedDecoderFeed_correct :
    (∀ (p : Decoder) (pieces : List (Bytes × Option Nat)) (nOutMax : Option Nat),
      (∀ piece ∈ pieces, Decoder.Roomy piece) → Decoder.Roomy ((pieces.map Prod.fst).flatten, nOutMax) →
        p.feeds pieces = (chunkedDecoderFeed p (pieces.map Prod.fst).flatten nOutMax).map fun fed =>
          (fed.decoder, fed.out)) ∧
    (∀ (body : ChunkedBody) (nOutMax : Option Nat), body.Within httpLimits →
      Decoder.Roomy (body.render, nOutMax) →
        ∃ fed, chunkedDecoderFeed {} body.render nOutMax = .ok fed ∧ fed.bDone = true ∧
          fed.out = body.data) ∧
    (∀ (body : ChunkedBody) (front rest : Bytes) (nOutMax : Option Nat), front ++ rest = body.render →
      rest ≠ [] → ∀ fed, chunkedDecoderFeed {} front nOutMax = .ok fed → fed.bDone = false) ∧
    (∀ (p : Decoder) (input : Bytes) (nOutMax : Option Nat) (fed : Fed),
      chunkedDecoderFeed p input nOutMax = .ok fed → fed.bDone = true →
        ∀ (c : UInt8) (rest : Bytes) (nOutMax : Option Nat),
          chunkedDecoderFeed fed.decoder (c :: rest) nOutMax = .error .protocol) := by
  refine ⟨?_, ?_, ?_, ?_⟩
  · intro p pieces nOutMax each whole
    rw [Decoder.feeds_eq_run p each, Decoder.feed_eq_run p whole]
    cases Machine.run (Decoder.byte httpLimits) p (pieces.map Prod.fst).flatten <;> rfl
  · intro body nOutMax within room
    obtain ⟨last, taken, done⟩ := Decoder.takes_body body within
    refine ⟨⟨last, body.data, true⟩, ?_, rfl, rfl⟩
    rw [Decoder.feed_eq_run {} room, taken]
    simp only [Except.map, done]
    rfl
  · intro body front rest nOutMax parts more fed finished
    obtain ⟨taken, done⟩ := Decoder.takes_of_feed finished
    rw [done]
    exact beq_eq_false_iff_ne.mpr (Decoder.not_done_of_prefix parts more taken)
  · intro p input nOutMax fed finished done c rest room
    have state := (Decoder.takes_of_feed finished).2
    rw [done] at state
    rw [chunkedDecoderFeed, Decoder.feedLoop, if_pos (beq_iff_eq.mp state.symm)]
    rfl

theorem all_of {chars : Bytes} {p : UInt8 → Bool} (all : chars.all p = true) : ∀ c ∈ chars, p c = true :=
  List.all_eq_true.mp all

def noBlanks : Blanks := ⟨[], all_of rfl⟩

def sampleBody : ChunkedBody where
  chunks :=
    [{ digits := [⟨⟨0, by decide⟩, false⟩, ⟨⟨10, by decide⟩, true⟩]
       exts := [⟨⟨[0x20], all_of rfl⟩, noBlanks, ⟨0x61, [], rfl, all_of rfl⟩,
         some (noBlanks, noBlanks, .quoted [.pair 0x22 rfl])⟩]
       data := List.replicate 10 0
       size := rfl
       filled := List.cons_ne_nil 0 _ }]
  moreZeros := 1
  lastExts := []
  trailers := [⟨⟨0x58, [], rfl, all_of rfl⟩, [0x20, 0x79], all_of rfl⟩]

theorem sampleBody_within : sampleBody.Within httpLimits :=
  ⟨by decide, by decide, by decide, by decide⟩

theorem chunkedDecoderFeed_correct_sample :
    (∃ fed, chunkedDecoderFeed {} sampleBody.render none = .ok fed ∧ fed.bDone = true ∧
      fed.out = List.replicate 10 0) ∧
    ∀ front rest, front ++ rest = sampleBody.render → rest ≠ [] →
      ∀ fed, chunkedDecoderFeed {} front none = .ok fed → fed.bDone = false :=
  ⟨chunkedDecoderFeed_correct.2.1 sampleBody none sampleBody_within (by simp [Decoder.Roomy]),
    fun front rest parts more => chunkedDecoderFeed_correct.2.2.1 sampleBody front rest none parts more⟩

end RusqDoltlite.Http

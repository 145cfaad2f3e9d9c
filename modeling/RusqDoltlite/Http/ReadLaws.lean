import RusqDoltlite.Http.ChunkedLimits
import RusqDoltlite.Http.HeaderLaws

/-! Reading a response: how the transport cuts the stream makes no difference. -/

namespace RusqDoltlite.Http

open Wire

namespace Decoder

section counts
variable {lim : Limits} {p q : Decoder} {c : UInt8}

theorem count_wire (counted : p.count lim = .ok q) :
    q.nWire = p.nWire + 1 ∧ q.nDecoded = p.nDecoded ∧ q.nWire ≤ lim.respMaxBytes := by
  rw [count] at counted
  split at counted
  · cases counted
  · next room =>
      split at counted
      · split at counted
        · cases counted
        · cases counted
          exact ⟨rfl, rfl, by simp only; omega⟩
      · split at counted
        · split at counted
          · cases counted
          · cases counted
            exact ⟨rfl, rfl, by simp only; omega⟩
        · cases counted
          exact ⟨rfl, rfl, by simp only; omega⟩

def SameCounts (p q : Decoder) : Prop := q.nWire = p.nWire ∧ q.nDecoded = p.nDecoded

theorem goto_counts {state : ChunkState} (taken : p.goto state = .ok q) : SameCounts p q := by
  cases taken
  exact ⟨rfl, rfl⟩

theorem takeSize_counts (taken : p.takeSize lim c = .ok q) : SameCounts p q := by
  rw [takeSize] at taken
  split at taken
  · split at taken
    · cases taken
    · cases taken
      exact ⟨rfl, rfl⟩
  · split at taken
    · exact goto_counts taken
    · split at taken
      · exact goto_counts taken
      · split at taken
        · exact goto_counts taken
        · cases taken

theorem takeSizeLf_counts (taken : p.takeSizeLf lim c = .ok q) : SameCounts p q := by
  rw [takeSizeLf] at taken
  split at taken
  · cases taken
  · split at taken
    · cases taken
      exact ⟨rfl, rfl⟩
    · split at taken
      · cases taken
      · cases taken
        exact ⟨rfl, rfl⟩

theorem takeTrailerStart_counts (taken : p.takeTrailerStart c = .ok q) : SameCounts p q := by
  rw [takeTrailerStart] at taken
  split at taken
  · exact goto_counts taken
  · split at taken
    · cases taken
    · cases taken
      exact ⟨rfl, rfl⟩

theorem takeTrailerLine_counts (taken : p.takeTrailerLine lim c = .ok q) : SameCounts p q := by
  rw [takeTrailerLine] at taken
  repeat' split at taken
  all_goals
    cases taken
    try exact ⟨rfl, rfl⟩

theorem takeLf_counts {state : ChunkState} (taken : p.takeLf c state = .ok q) : SameCounts p q := by
  rw [takeLf] at taken
  split at taken
  · cases taken
  · exact goto_counts taken

theorem take_counts (taken : p.take lim c = .ok q) : SameCounts p q := by
  rw [take] at taken
  split at taken
  · exact takeSize_counts taken
  · exact takeSizeLf_counts taken
  · split at taken
    · cases taken
    · exact goto_counts taken
  · split at taken
    · cases taken
    · cases taken
      exact ⟨rfl, rfl⟩
  · exact takeTrailerStart_counts taken
  · exact takeTrailerLine_counts taken
  · exact takeLf_counts taken
  · exact takeLf_counts taken
  · cases taken
  · cases taken
  · split at taken
    · exact goto_counts taken
    · cases taken

theorem control_counts (taken : p.control lim c = .ok q) :
    q.nWire = p.nWire + 1 ∧ q.nDecoded = p.nDecoded ∧ q.nWire ≤ lim.respMaxBytes := by
  rw [control] at taken
  split at taken
  · cases taken
  · next counted counting =>
      obtain ⟨wire, decoded, room⟩ := count_wire counting
      obtain ⟨sameWire, sameDecoded⟩ := take_counts taken
      exact ⟨sameWire.trans wire, sameDecoded.trans decoded, sameWire ▸ room⟩

theorem quiet_control {out : Bytes} (taken : quiet (p.control lim c) = .ok (q, out)) :
    p.control lim c = .ok q ∧ out = [] := by
  cases controlled : p.control lim c with
  | error e =>
    rw [controlled] at taken
    cases taken
  | ok next =>
    rw [controlled] at taken
    cases taken
    exact ⟨rfl, rfl⟩

theorem byte_counts {out : Bytes} (taken : byte lim p c = .ok (q, out)) :
    q.nWire = p.nWire + 1 ∧ q.nDecoded = p.nDecoded + out.length ∧ q.nWire ≤ lim.respMaxBytes := by
  rw [byte] at taken
  split at taken
  · cases taken
  · split at taken
    · split at taken
      · cases taken
      · next fits =>
          split at taken
          · obtain ⟨controlled, rfl⟩ := quiet_control taken
            have counts := control_counts controlled
            simpa [takeData] using counts
          · next found =>
              cases taken
              simp only [Exceeds] at fits
              simp only [takeData, List.length_singleton]
              exact ⟨trivial, trivial, by omega⟩
    · obtain ⟨controlled, rfl⟩ := quiet_control taken
      exact control_counts controlled

theorem takes_counts {word out : Bytes} (taken : Machine.Takes (byte lim) p word q out) :
    q.nWire = p.nWire + word.length ∧ q.nDecoded = p.nDecoded + out.length := by
  induction word generalizing p out with
  | nil =>
    cases taken
    exact ⟨rfl, rfl⟩
  | cons c word ih =>
    obtain ⟨next, first, later, here, rest, rfl⟩ := Machine.takes_cons_iff.mp taken
    obtain ⟨wire, decoded, _⟩ := byte_counts here
    obtain ⟨moreWire, moreDecoded⟩ := ih rest
    simp only [List.length_cons, List.length_append]
    omega

theorem takes_wire {word out : Bytes} (taken : Machine.Takes (byte lim) p word q out)
    (room : p.nWire ≤ lim.respMaxBytes) : q.nWire ≤ lim.respMaxBytes := by
  induction word generalizing p out with
  | nil =>
    cases taken
    exact room
  | cons c word ih =>
    obtain ⟨next, first, later, here, rest, rfl⟩ := Machine.takes_cons_iff.mp taken
    exact ih rest (byte_counts here).2.2

theorem control_full (full : lim.respMaxBytes ≤ p.nWire) : p.control lim c = .error .tooBig := by
  rw [control, count, if_pos full]

theorem byte_full (running : p.state ≠ .done) (full : lim.respMaxBytes ≤ p.nWire) :
    byte lim p c = .error .tooBig := by
  rw [byte, if_neg running]
  by_cases inside : p.state = .data
  · rw [if_pos inside]
    by_cases exceeds : p.Exceeds lim (min 1 p.nChunkRemaining)
    · rw [if_pos exceeds]
    · rw [if_neg exceeds]
      simp only [Exceeds] at exceeds
      have same : (p.takeData 0).nWire = p.nWire := rfl
      rw [if_pos (by omega), control_full (same ▸ full)]
      rfl
  · rw [if_neg inside, control_full full]
    rfl

end counts

end Decoder

namespace Reading

variable {stream : Bytes} {cut : Nat → Nat}

theorem loop_eq (stream : Bytes) (cut : Nat → Nat) (s : Reading) :
    loop stream cut s =
      if s.complete = true then .ok s
      else
        match s.grow with
        | .error code => .error code
        | .ok larger =>
          if larger.arrives stream cut = 0 then larger.closed
          else
            match { larger with nUsed := larger.nUsed + larger.arrives stream cut }.advance stream with
            | .error code => .error code
            | .ok next => loop stream cut next := by
  rw [loop]
  split
  · rfl
  · split
    · next code grown => rw [grown]
    · next larger grown =>
        rw [grown]
        simp only
        split
        · rfl
        · split
          · next code read => rw [read]
          · next after read => rw [read]

structure Buffered (s : Reading) : Prop where
  fits : s.nUsed ≤ s.nAlloc
  positive : 0 < s.nAlloc
  bounded : s.nAlloc ≤ nMax

variable {s : Reading} {info : ResponseInfo}

theorem Buffered.grow (here : Buffered s) :
    (s.grow = .error .tooBig ∧ s.nUsed = nMax) ∨
      ∃ nAlloc, s.grow = .ok { s with nAlloc := nAlloc } ∧ s.nUsed < nAlloc ∧ nAlloc ≤ nMax := by
  have fits := here.fits
  have positive := here.positive
  have bounded := here.bounded
  rw [Reading.grow]
  by_cases room : s.nUsed ≠ s.nAlloc
  · rw [if_pos room]
    exact .inr ⟨s.nAlloc, rfl, by omega, bounded⟩
  · rw [if_neg room]
    by_cases full : min (s.nAlloc * 2) nMax ≤ s.nAlloc
    · rw [if_pos full]
      exact .inl ⟨rfl, by omega⟩
    · rw [if_neg full]
      exact .inr ⟨_, rfl, by omega, by omega⟩

structure Ready (stream : Bytes) (info : ResponseInfo) (s : Reading) : Prop where
  parsed : s.info = some info
  chunked : info.bChunked = true
  target : s.nTarget = none
  fed : info.bodyStart + s.nBodyFed ≤ s.nUsed
  inside : s.nUsed ≤ stream.length
  taken : ∃ out, Machine.Takes (Decoder.byte httpLimits) {} ((stream.drop info.bodyStart).take s.nBodyFed)
    s.decoder out

def unfed (stream : Bytes) (info : ResponseInfo) (s : Reading) : Bytes :=
  (stream.take s.nUsed).drop (info.bodyStart + s.nBodyFed)

variable (parsed : s.info = some info) (here : Ready stream info s) (plain : info.bChunked = false)
  (target : s.nTarget = none) (within : s.nTarget.any (· < s.nUsed) = false) (buf : Bytes)

include here in
theorem unfed_length : (unfed stream info s).length = s.nUsed - (info.bodyStart + s.nBodyFed) := by
  have inside := here.inside
  rw [unfed, List.length_drop, List.length_take]
  omega

include here in
theorem unfed_append :
    (stream.drop info.bodyStart).drop s.nBodyFed = unfed stream info s ++ stream.drop s.nUsed := by
  have fed := here.fed
  have inside := here.inside
  rw [List.drop_drop, unfed, ← List.drop_append_of_le_length (by rw [List.length_take]; omega),
    List.take_append_drop]

include here in
theorem take_unfed :
    (stream.drop info.bodyStart).take (s.nBodyFed + (unfed stream info s).length) =
      (stream.drop info.bodyStart).take s.nBodyFed ++ unfed stream info s := by
  have parts := unfed_append here
  rw [List.take_add, parts, List.take_left]

include here in
theorem Ready.feed (small : s.nUsed ≤ nMax) :
    match Machine.run (Decoder.byte httpLimits) s.decoder (unfed stream info s) with
    | .error code => s.feed (stream.take s.nUsed) = .error code
    | .ok last =>
      s.feed (stream.take s.nUsed) =
        .ok { s with decoder := last.1, nBodyFed := s.nBodyFed + (unfed stream info s).length } ∧
      Ready stream info { s with decoder := last.1, nBodyFed := s.nBodyFed + (unfed stream info s).length } := by
  have fed := here.fed
  have length := unfed_length here
  have few : nMax ≤ 0x7fffffff := by decide
  have started : ¬ s.nUsed < info.bodyStart := by omega
  have ahead : ¬ s.nUsed - info.bodyStart < s.nBodyFed := by omega
  have next : ∀ last, Machine.run (Decoder.byte httpLimits) s.decoder (unfed stream info s) = .ok last →
      Ready stream info { s with decoder := last.1, nBodyFed := s.nBodyFed + (unfed stream info s).length } := by
    intro last ran
    obtain ⟨out, taken⟩ := here.taken
    refine ⟨here.parsed, here.chunked, here.target, ?_, here.inside, out ++ last.2, ?_⟩
    · simp only
      omega
    · rw [take_unfed here]
      exact taken.append ran
  have run := Decoder.feed_eq_run s.decoder (show Decoder.Roomy (unfed stream info s, none) by simp [Decoder.Roomy])
  have short : ¬ 0x7fffffff < (unfed stream info s).length := by omega
  have fed_eq : s.feed (stream.take s.nUsed) =
      if unfed stream info s = [] then .ok s
      else (chunkedDecoderFeed s.decoder (unfed stream info s) none).map fun fed =>
        { s with decoder := fed.decoder, nBodyFed := s.nBodyFed + (unfed stream info s).length } := by
    rw [Reading.feed]
    split
    · next unparsed =>
        rw [here.parsed] at unparsed
        cases unparsed
    · next other parsed =>
        rw [here.parsed] at parsed
        cases parsed
        rw [if_pos here.chunked]
        simp only [if_neg started, if_neg ahead]
        rw [← unfed, if_neg short]
        cases chunkedDecoderFeed s.decoder (unfed stream info s) none <;> rfl
  rw [fed_eq]
  by_cases nothing : unfed stream info s = []
  · have unchanged := next (s.decoder, []) (by rw [nothing]; rfl)
    rw [if_pos nothing]
    rw [nothing] at unchanged ⊢
    exact ⟨rfl, unchanged⟩
  · rw [if_neg nothing, run]
    cases ran : Machine.run (Decoder.byte httpLimits) s.decoder (unfed stream info s) with
    | error code => rfl
    | ok last => exact ⟨rfl, next last ran⟩

/-- A body that the decoder completes exactly at its end, if it does not refuse it. -/
def Completes (body : Bytes) : Prop :=
  ∀ front rest q out, front ++ rest = body → Machine.Takes (Decoder.byte httpLimits) {} front q out →
    (q.state = .done ↔ rest = [])

structure ReadAll (stream : Bytes) (info : ResponseInfo) (result : Except Code Reading) : Prop where
  read : ∃ last, result = .ok last ∧ last.nUsed = stream.length ∧ last.info = some info ∧
    (info.bChunked = true → last.decoder.state = .done)

include parsed buf in
theorem scan_parsed : s.scan buf = .ok s := by
  rw [scan]
  split
  · rfl
  · next unparsed =>
      rw [parsed] at unparsed
      cases unparsed

include parsed in
theorem advance_parsed : s.advance stream = s.feed (stream.take s.nUsed) := by
  rw [advance, scan_parsed parsed]

include target in
theorem arrives_room (room : s.nUsed < s.nAlloc) :
    s.arrives stream cut ≤ stream.length - s.nUsed ∧ s.nUsed + s.arrives stream cut ≤ s.nAlloc ∧
      (s.nUsed < stream.length → 0 < s.arrives stream cut) := by
  rw [arrives, nRead, target]
  simp only
  omega

theorem loop_chunked (completes : Completes (stream.drop info.bodyStart))
    (early : info.bodyStart ≤ httpLimits.headerMaxBytes) (ready : Ready stream info s)
    (fed : info.bodyStart + s.nBodyFed = s.nUsed) (buffered : Buffered s) :
    match Machine.run (Decoder.byte httpLimits) s.decoder (stream.drop s.nUsed) with
    | .error code => loop stream cut s = .error code
    | .ok _ => ReadAll stream info (loop stream cut s) := by
  induction left : stream.length - s.nUsed using Nat.strongRecOn generalizing s with
  | ind count ih =>
    obtain ⟨out, taken⟩ := ready.taken
    have inside := ready.inside
    have rest : (stream.drop info.bodyStart).drop s.nBodyFed = stream.drop s.nUsed := by
      rw [List.drop_drop, fed]
    have ends := completes _ _ _ _ (List.take_append_drop s.nBodyFed (stream.drop info.bodyStart)) taken
    rw [rest] at ends
    have complete : s.complete = (s.decoder.state == .done) := by
      rw [Reading.complete, ready.parsed]
      simp only [ready.chunked, if_true]
    by_cases finished : stream.drop s.nUsed = []
    · -- all is read
      have done := ends.mpr finished
      rw [finished]
      refine ⟨s, ?_, ?_, ready.parsed, fun _ => done⟩
      · rw [loop_eq, complete, done, if_pos (by decide)]
      · have length := congrArg List.length finished
        simp only [List.length_drop, List.length_nil] at length
        omega
    · have running : s.decoder.state ≠ .done := fun done => finished (ends.mp done)
      have goes : s.complete ≠ true := by
        rw [complete]
        simpa using running
      rw [loop_eq, if_neg goes]
      rcases buffered.grow with ⟨full, atMax⟩ | ⟨nAlloc, grown, room, bounded⟩
      · -- the buffer is full, and so is the wire
        have wire := (Decoder.takes_counts taken).1
        have most : httpLimits.respMaxBytes ≤ s.decoder.nWire := by
          rw [wire, List.length_take, List.length_drop]
          simp only [nMax] at atMax
          omega
        rw [full]
        cases next : stream.drop s.nUsed with
        | nil => exact absurd next finished
        | cons c more =>
          rw [Machine.run, Decoder.byte_full running most]
      · -- what arrives is fed to the decoder
        obtain ⟨few, fits, arrived⟩ :=
          @arrives_room stream cut { s with nAlloc := nAlloc } ready.target room
        have more : s.nUsed < stream.length := by
          rcases Nat.lt_or_ge s.nUsed stream.length with more | past
          · exact more
          · exact absurd (List.drop_eq_nil_of_le past) finished
        have positive := arrived more
        rw [grown]
        simp only
        generalize arrived : arrives stream cut { s with nAlloc := nAlloc } = n at few fits positive
        simp only at few fits positive
        rw [if_neg (by omega)]
        have received : Ready stream info { s with nAlloc := nAlloc, nUsed := s.nUsed + n } :=
          ⟨ready.parsed, ready.chunked, ready.target, by simp only; omega, by simp only; omega, out, taken⟩
        have parts := unfed_append received
        simp only [rest] at parts
        have step := received.feed (by simp only; omega)
        have size := unfed_length received
        simp only at step size
        rw [advance_parsed received.parsed, parts, Machine.run_append]
        split at step
        · next code failed =>
            rw [failed, step]
        · next last ran =>
            obtain ⟨advanced, next⟩ := step
            rw [ran, advanced]
            have later := ih (stream.length - (s.nUsed + n)) (by omega) next (by simp only; omega)
              ⟨fits, by simp only; omega, bounded⟩ rfl
            simp only at later ⊢
            cases rerun : Machine.run (Decoder.byte httpLimits) last.1 (stream.drop (s.nUsed + n)) with
            | error code =>
              rw [rerun] at later
              exact later
            | ok ended =>
              rw [rerun] at later
              exact later

include parsed plain within buf in
theorem feed_plain : s.feed buf = .ok s := by
  rw [feed]
  split
  · rfl
  · next other same =>
      rw [parsed] at same
      cases same
      rw [if_neg (by rw [plain]; decide), within, if_neg (by decide)]

include parsed plain within in
theorem advance_plain : s.advance stream = .ok s := by
  rw [advance_parsed parsed, feed_plain parsed plain within]

include parsed plain in
theorem loop_length
    (target : s.nTarget = some stream.length) (inside : s.nUsed ≤ stream.length) (small : stream.length ≤ nMax)
    (buffered : Buffered s) : ReadAll stream info (loop stream cut s) := by
  induction left : stream.length - s.nUsed using Nat.strongRecOn generalizing s with
  | ind count ih =>
    have complete : s.complete = (stream.length == s.nUsed) := by
      rw [Reading.complete, parsed]
      simp only [plain, Bool.false_eq_true, if_false, target]
      rfl
    by_cases finished : stream.length = s.nUsed
    · refine ⟨s, ?_, finished.symm, parsed, by simp [plain]⟩
      rw [loop_eq, complete, finished, if_pos (by simp)]
    · have goes : s.complete ≠ true := by
        rw [complete]
        simpa using finished
      rw [loop_eq, if_neg goes]
      rcases buffered.grow with ⟨_, atMax⟩ | ⟨nAlloc, grown, room, bounded⟩
      · omega
      · rw [grown]
        simp only
        have few : arrives stream cut { s with nAlloc := nAlloc } ≤ stream.length - s.nUsed ∧
            s.nUsed + arrives stream cut { s with nAlloc := nAlloc } ≤ nAlloc ∧
            0 < arrives stream cut { s with nAlloc := nAlloc } := by
          rw [arrives, nRead]
          simp only [target]
          omega
        generalize arrives stream cut { s with nAlloc := nAlloc } = n at few
        obtain ⟨few, fits, positive⟩ := few
        have within : s.nTarget.any (· < s.nUsed + n) = false := by
          simp only [target, Option.any_some, decide_eq_false_iff_not]
          omega
        have advanced := @advance_plain stream { s with nAlloc := nAlloc, nUsed := s.nUsed + n } info parsed plain
          within
        rw [if_neg (by omega), advanced]
        exact ih (stream.length - (s.nUsed + n)) (by omega) parsed target (by simp only; omega)
          ⟨fits, by simp only; omega, bounded⟩ rfl

include parsed plain target in
theorem loop_close (inside : s.nUsed ≤ stream.length) (buffered : Buffered s) :
    if nMax ≤ stream.length then loop stream cut s = .error .tooBig
    else ReadAll stream info (loop stream cut s) := by
  induction left : stream.length - s.nUsed using Nat.strongRecOn generalizing s with
  | ind count ih =>
    have goes : s.complete ≠ true := by
      rw [Reading.complete, parsed]
      simp [plain, target]
    rw [loop_eq, if_neg goes]
    rcases buffered.grow with ⟨full, atMax⟩ | ⟨nAlloc, grown, room, bounded⟩
    · rw [full, if_pos (by omega)]
    · rw [grown]
      simp only
      obtain ⟨few, fits, arrived⟩ := @arrives_room stream cut { s with nAlloc := nAlloc } target room
      by_cases finished : stream.length = s.nUsed
      · -- the connection is at its end
        have nothing : arrives stream cut { s with nAlloc := nAlloc } = 0 := by
          simp only at few
          omega
        rw [if_neg (by omega), nothing, if_pos rfl]
        refine ⟨{ s with nAlloc := nAlloc }, ?_, finished.symm, parsed, by simp [plain]⟩
        rw [closed]
        simp [parsed, plain, target]
      · have positive := arrived (show s.nUsed < stream.length by omega)
        generalize arrives stream cut { s with nAlloc := nAlloc } = n at few fits positive
        simp only at few fits positive
        have advanced := @advance_plain stream { s with nAlloc := nAlloc, nUsed := s.nUsed + n } info parsed plain
          (by simp [target])
        rw [if_neg (show ¬ n = 0 by omega), advanced]
        exact ih (stream.length - (s.nUsed + n)) (by omega) parsed target (by simp only; omega)
          ⟨fits, by simp only; omega, bounded⟩ rfl

end Reading

end RusqDoltlite.Http

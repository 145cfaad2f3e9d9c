import RusqDoltlite.Http.ReadLaws

/-! Reading a response from its first byte on, and parsing it again. -/

namespace RusqDoltlite.Http

open Wire

namespace Reading

variable {stream : Bytes} {cut : Nat → Nat}

structure Scanning (stream : Bytes) (s : Reading) : Prop where
  parsed : s.info = none
  target : s.nTarget = none
  unfed : s.nBodyFed = 0
  inside : s.nUsed ≤ stream.length
  fits : s.nUsed ≤ s.nAlloc
  short : s.nUsed < httpLimits.headerMaxBytes
  sizes : s.nAlloc ∈ [4096, 8192, 16384, 32768, 65536]
  scanned : ∀ j, j < s.nHeaderScan → endsAt stream j = false

theorem scanning_start (stream : Bytes) : Scanning stream {} :=
  ⟨rfl, rfl, rfl, Nat.zero_le _, by decide, by decide, by decide, by simp⟩

theorem Scanning.buffered {s : Reading} (here : Scanning stream s) : Buffered s := by
  have sizes := here.sizes
  simp only [List.mem_cons, List.not_mem_nil, or_false] at sizes
  refine ⟨here.fits, by omega, ?_⟩
  have large : 65536 ≤ nMax := by decide
  omega

theorem Scanning.grow {s : Reading} (here : Scanning stream s) :
    ∃ nAlloc, s.grow = .ok { s with nAlloc := nAlloc } ∧ s.nUsed < nAlloc ∧
      nAlloc ∈ [4096, 8192, 16384, 32768, 65536] := by
  have sizes := here.sizes
  have fits := here.fits
  have short : s.nUsed < 65536 := here.short
  have large : nMax = 134283264 := by decide
  rw [Reading.grow]
  by_cases room : s.nUsed ≠ s.nAlloc
  · rw [if_pos room]
    exact ⟨s.nAlloc, rfl, by omega, sizes⟩
  · simp only [List.mem_cons, List.not_mem_nil, or_false] at sizes ⊢
    rw [if_neg room, if_neg (by omega)]
    exact ⟨_, rfl, by omega, by omega⟩

theorem Scanning.scan {s : Reading} (here : Scanning stream s) {nAlloc n : Nat}
    (sizes : nAlloc ∈ [4096, 8192, 16384, 32768, 65536]) (few : s.nUsed + n ≤ stream.length)
    (fits : s.nUsed + n ≤ nAlloc) :
    (∃ i, Head (stream.take (i + 4)) i ∧ i + 4 ≤ s.nUsed + n ∧
      { s with nAlloc := nAlloc, nUsed := s.nUsed + n }.scan (stream.take (s.nUsed + n)) =
        match parseResponseHeaders (stream.take (i + 4)) with
        | .error code => .error code
        | .ok info => { s with nAlloc := nAlloc, nUsed := s.nUsed + n, nHeaderScan := i }.start info) ∨
    (∀ i, Head (stream.take (i + 4)) i → s.nUsed + n < i + 4) ∧
      if httpLimits.headerMaxBytes ≤ s.nUsed + n then
        { s with nAlloc := nAlloc, nUsed := s.nUsed + n }.scan (stream.take (s.nUsed + n)) = .error .tooBig
      else
        ∃ m, { s with nAlloc := nAlloc, nUsed := s.nUsed + n }.scan (stream.take (s.nUsed + n)) =
          .ok { s with nAlloc := nAlloc, nUsed := s.nUsed + n, nHeaderScan := m } ∧
        Scanning stream { s with nAlloc := nAlloc, nUsed := s.nUsed + n, nHeaderScan := m } := by
  have length : (stream.take (s.nUsed + n)).length = s.nUsed + n := by
    rw [List.length_take]
    omega
  obtain ⟨found, missed, before⟩ := scanHeader_spec (stream.take (s.nUsed + n)) s.nHeaderScan
  generalize result : scanHeader (stream.take (s.nUsed + n)) s.nHeaderScan = scanned at found missed before
  have first : ∀ j, j < scanned.1 → endsAt stream j = false := by
    intro j early
    rcases Nat.lt_or_ge j s.nHeaderScan with old | new
    · exact here.scanned j old
    · obtain ⟨inside, unended⟩ := before j new early
      rwa [endsAt_take (by omega)] at unended
  have scan_eq : { s with nAlloc := nAlloc, nUsed := s.nUsed + n }.scan (stream.take (s.nUsed + n)) =
      if scanned.2 = true then
        match parseResponseHeaders (stream.take (s.nUsed + n)) with
        | .error code => .error code
        | .ok info => { s with nAlloc := nAlloc, nUsed := s.nUsed + n, nHeaderScan := scanned.1 }.start info
      else if httpLimits.headerMaxBytes ≤ s.nUsed + n then .error .tooBig
      else .ok { s with nAlloc := nAlloc, nUsed := s.nUsed + n, nHeaderScan := scanned.1 } := by
    rw [Reading.scan]
    split
    · next other parsed =>
        have both : some other = none := parsed.symm.trans here.parsed
        cases both
    · rewrite [result]
      rfl
  rw [scan_eq]
  cases hit : scanned.2 with
  | true =>
    have ends := found hit
    have inside := length_of_endsAt ends
    have head : Head (stream.take (scanned.1 + 4)) scanned.1 := by
      refine ⟨by rw [List.length_take]; omega, ?_, ?_⟩
      · rw [endsAt_take (Nat.le_refl _), ← endsAt_take (show scanned.1 + 4 ≤ s.nUsed + n by omega)]
        exact ends
      · intro j early
        rw [endsAt_take (by omega)]
        exact first j early
    refine .inl ⟨scanned.1, head, by omega, ?_⟩
    have parts : stream.take (s.nUsed + n) =
        stream.take (scanned.1 + 4) ++ (stream.take (s.nUsed + n)).drop (scanned.1 + 4) := by
      have cut := (List.take_append_drop (scanned.1 + 4) (stream.take (s.nUsed + n))).symm
      rwa [List.take_take, Nat.min_eq_left (by omega)] at cut
    rw [if_pos rfl, parts, (head.parseResponseHeaders _).1]
  | false =>
    have near := missed hit
    refine .inr ⟨?_, ?_⟩
    · intro i head
      have beyond : ¬ i < scanned.1 := by
        intro early
        have ends := head.ends
        rw [endsAt_take (Nat.le_refl _), first i early] at ends
        cases ends
      omega
    · by_cases large : httpLimits.headerMaxBytes ≤ s.nUsed + n
      · simp only [if_pos large, Bool.false_eq_true, if_false]
      · simp only [if_neg large, Bool.false_eq_true, if_false]
        exact ⟨scanned.1, rfl, here.parsed, here.target, here.unfed, few, fits, by simp only; omega, sizes, first⟩

def proceed (stream : Bytes) (cut : Nat → Nat) (started : Except Code Reading) : Except Code Reading :=
  match started with
  | .error code => .error code
  | .ok s =>
    match s.feed (stream.take s.nUsed) with
    | .error code => .error code
    | .ok next => loop stream cut next

theorem loop_read {s : Reading} {nAlloc : Nat} (goes : s.complete ≠ true)
    (grown : s.grow = .ok { s with nAlloc := nAlloc })
    (more : arrives stream cut { s with nAlloc := nAlloc } ≠ 0) :
    loop stream cut s =
      proceed stream cut
        ({ s with
            nAlloc := nAlloc
            nUsed := s.nUsed + arrives stream cut { s with nAlloc := nAlloc } }.scan
          (stream.take (s.nUsed + arrives stream cut { s with nAlloc := nAlloc }))) := by
  rw [loop_eq, if_neg goes, grown]
  simp only [if_neg more, advance]
  cases Reading.scan _ _ <;> rfl

structure Received (stream : Bytes) (info : ResponseInfo) (s : Reading) : Prop where
  target : s.nTarget = none
  unfed : s.nBodyFed = 0
  past : info.bodyStart ≤ s.nUsed
  inside : s.nUsed ≤ stream.length
  buffered : Buffered s
  early : info.bodyStart ≤ httpLimits.headerMaxBytes

section started
variable {info : ResponseInfo} {s : Reading}

theorem Received.chunked (here : Received stream info s) (chunked : info.bChunked = true)
    (completes : Completes (stream.drop info.bodyStart)) :
    match Machine.run (Decoder.byte httpLimits) {} (stream.drop info.bodyStart) with
    | .error code => proceed stream cut (s.start info) = .error code
    | .ok _ => ReadAll stream info (proceed stream cut (s.start info)) := by
  have started : s.start info = .ok { s with info := some info, decoder := {} } := by
    rw [start, if_pos chunked]
  have fits := here.buffered.fits
  have bounded := here.buffered.bounded
  have ready : Ready stream info { s with info := some info, decoder := {} } := by
    refine ⟨rfl, chunked, here.target, ?_, here.inside, [], ?_⟩
    · simp only [here.unfed]
      exact here.past
    · simp only [here.unfed, List.take_zero]
      exact .nil _
  have zero := here.unfed
  have size := unfed_length ready
  have whole : (stream.drop info.bodyStart).drop s.nBodyFed = stream.drop info.bodyStart := by
    rw [zero, List.drop_zero]
  have appended := unfed_append ready
  have parts := whole.symm.trans appended
  have step := ready.feed (by simp only; omega)
  simp only at size
  rw [started, proceed, parts, Machine.run_append]
  simp only at step ⊢
  split at step
  · next code failed =>
      rw [failed, step]
  · next last ran =>
      obtain ⟨advanced, next⟩ := step
      rw [ran, advanced]
      have past := here.past
      have later := @loop_chunked stream cut _ info completes here.early next
        (by simp only; omega) ⟨fits, here.buffered.positive, bounded⟩
      simp only at later ⊢
      cases rerun : Machine.run (Decoder.byte httpLimits) last.1 (stream.drop s.nUsed) with
      | error code =>
        rw [rerun] at later
        exact later
      | ok ended =>
        rw [rerun] at later
        exact later

theorem Received.length (here : Received stream info s) (plain : info.bChunked = false) {length : Nat}
    (given : info.contentLength = some length) (exact_ : info.bodyStart + length = stream.length)
    (small : length ≤ httpLimits.respMaxBytes) : ReadAll stream info (proceed stream cut (s.start info)) := by
  have inside := here.inside
  have early := here.early
  have room : ¬ nMax < info.bodyStart + length := by
    simp only [nMax]
    omega
  have started : s.start info = .ok { s with info := some info, nTarget := some stream.length } := by
    rw [start, if_neg (by rw [plain]; decide), given]
    simp only
    rw [if_neg room, if_neg (by omega), exact_]
  have within : (some stream.length).any (· < s.nUsed) = false := by
    simp only [Option.any_some, decide_eq_false_iff_not]
    omega
  have fed := @feed_plain { s with info := some info, nTarget := some stream.length } info rfl plain within
    (stream.take s.nUsed)
  rw [started, proceed]
  simp only [fed]
  exact loop_length rfl plain rfl inside (by omega)
    ⟨here.buffered.fits, here.buffered.positive, here.buffered.bounded⟩

theorem Received.close (here : Received stream info s) (plain : info.bChunked = false)
    (unknown : info.contentLength = none) :
    if nMax ≤ stream.length then proceed stream cut (s.start info) = .error .tooBig
    else ReadAll stream info (proceed stream cut (s.start info)) := by
  have started : s.start info = .ok { s with info := some info } := by
    rw [start, if_neg (by rw [plain]; decide), unknown]
  have fed := @feed_plain { s with info := some info } info rfl plain (by simp [here.target])
    (stream.take s.nUsed)
  rw [started, proceed]
  simp only [fed]
  exact loop_close rfl plain here.target here.inside
    ⟨here.buffered.fits, here.buffered.positive, here.buffered.bounded⟩

end started

structure Framed (info : ResponseInfo) (body : Bytes) : Prop where
  completes : info.bChunked = true → Completes body
  length : info.bChunked = false → ∀ length, info.contentLength = some length → body.length = length

def refused (head body : Bytes) : Option Code :=
  if httpLimits.headerMaxBytes < head.length then some .tooBig
  else
    match parseResponseHeaders head with
    | .error code => some code
    | .ok info =>
      if info.bChunked = true then
        match Machine.run (Decoder.byte httpLimits) {} body with
        | .error code => some code
        | .ok _ => none
      else if info.contentLength = none ∧ nMax ≤ (head ++ body).length then some .tooBig
      else none

def Settles (head body : Bytes) (result : Except Code Reading) : Prop :=
  match refused head body with
  | some code => result = .error code
  | none => ∃ info, parseResponseHeaders head = .ok info ∧ ReadAll (head ++ body) info result

section whole
variable {head body : Bytes} {i : Nat} {s : Reading}

theorem Received.settles {info : ResponseInfo} (here : Received (head ++ body) info s)
    (parsed : parseResponseHeaders head = .ok info) (start : info.bodyStart = head.length)
    (framed : Framed info body) : Settles head body (proceed (head ++ body) cut (s.start info)) := by
  have early := here.early
  rw [start] at early
  have rest : (head ++ body).drop info.bodyStart = body := by
    rw [start, List.drop_left]
  rw [Settles, refused, if_neg (by omega), parsed]
  simp only
  cases chunked : info.bChunked with
  | true =>
    have settled := @Received.chunked _ cut info s here chunked (by rw [rest]; exact framed.completes chunked)
    rw [rest] at settled
    simp only [if_true]
    cases ran : Machine.run (Decoder.byte httpLimits) {} body with
    | error code =>
      rw [ran] at settled
      exact settled
    | ok last =>
      rw [ran] at settled
      exact ⟨info, rfl, settled⟩
  | false =>
    simp only [Bool.false_eq_true, if_false]
    cases given : info.contentLength with
    | none =>
      have settled := @Received.close _ cut info s here chunked given
      by_cases large : nMax ≤ (head ++ body).length
      · rw [if_pos large] at settled
        rw [if_pos ⟨rfl, large⟩]
        exact settled
      · rw [if_neg large] at settled
        rw [if_neg (by simp only [large, and_false, not_false_eq_true])]
        exact ⟨info, rfl, settled⟩
    | some length =>
      have total : info.bodyStart + length = (head ++ body).length := by
        rw [List.length_append, start, framed.length chunked length given]
      simp only [reduceCtorEq, false_and, if_false]
      exact ⟨info, rfl, here.length chunked given total (parseResponseHeaders_short parsed length given)⟩

theorem Scanning.settles (here : Head head i)
    (framed : ∀ info, parseResponseHeaders head = .ok info → Framed info body)
    (scanning : Scanning (head ++ body) s) (short : s.nUsed < head.length) :
    Settles head body (loop (head ++ body) cut s) := by
  induction left : (head ++ body).length - s.nUsed using Nat.strongRecOn generalizing s with
  | ind count ih =>
    have size := here.length
    have total : (head ++ body).length = head.length + body.length := List.length_append
    have goes : s.complete ≠ true := by
      rw [Reading.complete, scanning.parsed]
      exact Bool.false_ne_true
    obtain ⟨nAlloc, grown, room, sizes⟩ := scanning.grow
    obtain ⟨few, fits, arrived⟩ :=
      @arrives_room (head ++ body) cut { s with nAlloc := nAlloc } scanning.target room
    have positive := arrived (by simp only; omega)
    have front : (head ++ body).take (i + 4) = head := by
      rw [← size, List.take_left]
    have limited : nAlloc ≤ httpLimits.headerMaxBytes := by
      simp only [List.mem_cons, List.not_mem_nil, or_false] at sizes
      rcases sizes with rfl | rfl | rfl | rfl | rfl <;> decide
    have read := @loop_read (head ++ body) cut s nAlloc goes grown (by omega)
    generalize arrives (head ++ body) cut { s with nAlloc := nAlloc } = n at few fits positive read
    simp only at few fits positive
    rw [read]
    rcases scanning.scan sizes (by omega) fits with ⟨j, found, past, scanned⟩ | ⟨unended, rest⟩
    · -- the end of the section is among what was received
      have same := here.unique found
      rw [same, front] at scanned
      rw [same] at past
      rw [scanned]
      cases parsed : parseResponseHeaders head with
      | error code =>
        rw [Settles, refused, if_neg (by omega), parsed]
        rfl
      | ok info =>
        obtain ⟨start, early⟩ := (here.parseResponseHeaders []).2 info parsed
        have received : Received (head ++ body) info
            { s with nAlloc := nAlloc, nUsed := s.nUsed + n, nHeaderScan := i } :=
          ⟨scanning.target, scanning.unfed, by simp only; omega, by simp only; omega,
            ⟨fits, by simp only; omega, Nat.le_trans limited (by decide)⟩, by omega⟩
        exact received.settles parsed start (framed info parsed)
    · have still := unended i (by rw [front]; exact here)
      by_cases large : httpLimits.headerMaxBytes ≤ s.nUsed + n
      · rw [if_pos large] at rest
        rw [rest, Settles, refused, if_pos (by omega)]
        rfl
      · rw [if_neg large] at rest
        obtain ⟨m, scanned, again⟩ := rest
        have unchanged : proceed (head ++ body) cut
            (.ok { s with nAlloc := nAlloc, nUsed := s.nUsed + n, nHeaderScan := m }) =
            loop (head ++ body) cut { s with nAlloc := nAlloc, nUsed := s.nUsed + n, nHeaderScan := m } := by
          rw [proceed, feed, scanning.parsed]
        rw [scanned, unchanged]
        exact ih ((head ++ body).length - (s.nUsed + n)) (by omega) again (by simp only; omega) rfl

end whole

section again
variable {info : ResponseInfo} {s last : Reading}

structure Decoding (stream : Bytes) (info : ResponseInfo) (s : Reading) : Prop where
  head : ∃ i, Head (stream.take (i + 4)) i ∧ parseResponseHeaders (stream.take (i + 4)) = .ok info
  ready : Ready stream info s
  fed : info.bodyStart + s.nBodyFed = s.nUsed

structure Located (stream : Bytes) (s : Reading) : Prop where
  phase : Scanning stream s ∨ ∃ info, s.info = some info ∧ (info.bChunked = true → Decoding stream info s)
  buffered : Buffered s
  inside : s.nUsed ≤ stream.length

theorem Decoding.larger (here : Decoding stream info s) (nAlloc : Nat) :
    Decoding stream info { s with nAlloc := nAlloc } :=
  ⟨here.head, ⟨here.ready.parsed, here.ready.chunked, here.ready.target, here.ready.fed, here.ready.inside,
    here.ready.taken⟩, here.fed⟩

theorem arrives_le (room : s.nUsed < s.nAlloc) :
    s.arrives stream cut ≤ stream.length - s.nUsed ∧ s.nUsed + s.arrives stream cut ≤ s.nAlloc := by
  rw [arrives, nRead]
  split <;> omega

theorem closed_eq (ended : s.closed = .ok last) : last = s := by
  rw [closed] at ended
  split at ended
  · cases ended
  · split at ended
    · cases ended
    · split at ended
      · cases ended
      · cases ended
        rfl

theorem feed_plain_eq (parsed : s.info = some info) (plain : info.bChunked = false) {buf : Bytes}
    (fed : s.feed buf = .ok last) : last = s := by
  rw [feed, parsed] at fed
  simp only [plain, Bool.false_eq_true, if_false] at fed
  split at fed
  · cases fed
  · cases fed
    rfl

theorem Decoding.feed {next : Reading} (ready : Ready stream info s) (small : s.nUsed ≤ nMax)
    (head : ∃ i, Head (stream.take (i + 4)) i ∧ parseResponseHeaders (stream.take (i + 4)) = .ok info)
    (fed : s.feed (stream.take s.nUsed) = .ok next) :
    Decoding stream info next ∧ next.nUsed = s.nUsed ∧ next.nAlloc = s.nAlloc := by
  have step := ready.feed small
  have size := unfed_length ready
  have before := ready.fed
  split at step
  · rw [step] at fed
    cases fed
  · obtain ⟨advanced, again⟩ := step
    rw [advanced] at fed
    cases fed
    exact ⟨⟨head, again, by simp only; omega⟩, rfl, rfl⟩

theorem Received.located {i : Nat} {started next : Reading} (here : Received stream info s)
    (head : Head (stream.take (i + 4)) i) (parsed : parseResponseHeaders (stream.take (i + 4)) = .ok info)
    (start : s.start info = .ok started) (fed : started.feed (stream.take started.nUsed) = .ok next) :
    Located stream next ∧ next.nUsed = s.nUsed := by
  have bounded := here.buffered.bounded
  have fits := here.buffered.fits
  rw [Reading.start] at start
  split at start
  · next chunked =>
      cases start
      have ready : Ready stream info { s with info := some info, decoder := {} } := by
        refine ⟨rfl, chunked, here.target, ?_, here.inside, [], ?_⟩
        · simp only [here.unfed]
          exact here.past
        · simp only [here.unfed, List.take_zero]
          exact .nil _
      obtain ⟨decoding, used, alloc⟩ := Decoding.feed ready (by simp only; omega) ⟨i, head, parsed⟩ fed
      refine ⟨⟨.inr ⟨info, decoding.ready.parsed, fun _ => decoding⟩, ?_, ?_⟩, used⟩
      · exact ⟨by rw [used, alloc]; exact fits, by rw [alloc]; exact here.buffered.positive,
          by rw [alloc]; exact bounded⟩
      · rw [used]
        exact here.inside
  · next plain =>
      have plain := Bool.eq_false_iff.mpr plain
      have started_eq : ∃ target, started = { s with info := some info, nTarget := target } := by
        split at start
        · cases start
          exact ⟨s.nTarget, rfl⟩
        · split at start
          · cases start
          · split at start
            · cases start
            · cases start
              exact ⟨_, rfl⟩
      obtain ⟨target, rfl⟩ := started_eq
      have same := feed_plain_eq (show _ = some info from rfl) plain fed
      rw [same]
      exact ⟨⟨.inr ⟨info, rfl, by simp [plain]⟩, ⟨fits, here.buffered.positive, bounded⟩, here.inside⟩, rfl⟩

theorem proceed_eq_ok {started : Except Code Reading} (ended : proceed stream cut started = .ok last) :
    ∃ s next, started = .ok s ∧ s.feed (stream.take s.nUsed) = .ok next ∧ loop stream cut next = .ok last := by
  cases started with
  | error code => cases ended
  | ok s =>
    simp only [proceed] at ended
    split at ended
    · cases ended
    · next next fed => exact ⟨s, next, rfl, fed, ended⟩

theorem feed_unparsed (unparsed : s.info = none) (buf : Bytes) : s.feed buf = .ok s := by
  rw [feed]
  split
  · rfl
  · next other parsed =>
      rw [unparsed] at parsed
      cases parsed

theorem Scanning.located (scanning : Scanning stream s) {nAlloc n : Nat}
    (sizes : nAlloc ∈ [4096, 8192, 16384, 32768, 65536]) (few : s.nUsed + n ≤ stream.length)
    (fits : s.nUsed + n ≤ nAlloc) {started next : Reading}
    (scanned : { s with nAlloc := nAlloc, nUsed := s.nUsed + n }.scan (stream.take (s.nUsed + n)) = .ok started)
    (fed : started.feed (stream.take started.nUsed) = .ok next) :
    Located stream next ∧ next.nUsed = s.nUsed + n := by
  have limited : 0 < nAlloc ∧ nAlloc ≤ nMax := by
    simp only [List.mem_cons, List.not_mem_nil, or_false] at sizes
    rcases sizes with rfl | rfl | rfl | rfl | rfl <;> decide
  rcases scanning.scan sizes few fits with ⟨i, head, past, result⟩ | ⟨_, rest⟩
  · rw [result] at scanned
    cases parsed : parseResponseHeaders (stream.take (i + 4)) with
    | error code =>
      rw [parsed] at scanned
      cases scanned
    | ok info =>
      rw [parsed] at scanned
      obtain ⟨start, early⟩ := (head.parseResponseHeaders []).2 info parsed
      have length := head.length
      have received : Received stream info { s with nAlloc := nAlloc, nUsed := s.nUsed + n, nHeaderScan := i } :=
        ⟨scanning.target, scanning.unfed, by simp only; omega, few, ⟨fits, limited.1, limited.2⟩, by omega⟩
      exact received.located head parsed scanned fed
  · by_cases large : httpLimits.headerMaxBytes ≤ s.nUsed + n
    · rw [if_pos large, scanned] at rest
      cases rest
    · rw [if_neg large] at rest
      obtain ⟨m, result, again⟩ := rest
      rw [result] at scanned
      cases scanned
      rw [feed_unparsed again.parsed] at fed
      cases fed
      exact ⟨⟨.inl again, again.buffered, few⟩, rfl⟩

theorem Located.feed {nAlloc n : Nat} {next : Reading} (parsed : s.info = some info)
    (decoding : info.bChunked = true → Decoding stream info s) (few : s.nUsed + n ≤ stream.length)
    (fits : s.nUsed + n ≤ nAlloc) (positive : 0 < nAlloc) (bounded : nAlloc ≤ nMax)
    (fed : { s with nAlloc := nAlloc, nUsed := s.nUsed + n }.feed (stream.take (s.nUsed + n)) = .ok next) :
    Located stream next ∧ next.nUsed = s.nUsed + n := by
  cases chunked : info.bChunked with
  | true =>
    have here := decoding chunked
    have before := here.fed
    have ready : Ready stream info { s with nAlloc := nAlloc, nUsed := s.nUsed + n } :=
      ⟨parsed, chunked, here.ready.target, by simp only; omega, few, here.ready.taken⟩
    obtain ⟨again, used, alloc⟩ := Decoding.feed ready (by simp only; omega) here.head fed
    refine ⟨⟨.inr ⟨info, again.ready.parsed, fun _ => again⟩, ?_, ?_⟩, used⟩
    · exact ⟨by rw [used, alloc]; exact fits, by rw [alloc]; exact positive, by rw [alloc]; exact bounded⟩
    · rw [used]
      exact few
  | false =>
    have same := @feed_plain_eq info { s with nAlloc := nAlloc, nUsed := s.nUsed + n } next parsed chunked _ fed
    rw [same]
    exact ⟨⟨.inr ⟨info, parsed, by simp [chunked]⟩, ⟨fits, positive, bounded⟩, few⟩, rfl⟩

theorem Located.read (here : Located stream s) {nAlloc : Nat} (grown : s.grow = .ok { s with nAlloc := nAlloc })
    (room : s.nUsed < nAlloc) (bounded : nAlloc ≤ nMax) {started next : Reading}
    (scanned : { s with
        nAlloc := nAlloc
        nUsed := s.nUsed + arrives stream cut { s with nAlloc := nAlloc } }.scan
      (stream.take (s.nUsed + arrives stream cut { s with nAlloc := nAlloc })) = .ok started)
    (fed : started.feed (stream.take started.nUsed) = .ok next) :
    Located stream next ∧ next.nUsed = s.nUsed + arrives stream cut { s with nAlloc := nAlloc } := by
  have inside := here.inside
  obtain ⟨few, fits⟩ := @arrives_le stream cut { s with nAlloc := nAlloc } room
  generalize arrives stream cut { s with nAlloc := nAlloc } = n at few fits scanned
  simp only at few fits
  rcases here.phase with scanning | ⟨info, parsed, decoding⟩
  · obtain ⟨other, same, _, sizes⟩ := scanning.grow
    rw [grown] at same
    have alloc : nAlloc = other := congrArg Reading.nAlloc (Except.ok.inj same)
    exact scanning.located (alloc ▸ sizes) (by omega) fits scanned fed
  · rw [@scan_parsed { s with nAlloc := nAlloc, nUsed := s.nUsed + n } info parsed] at scanned
    cases scanned
    exact Located.feed parsed decoding (by omega) fits (by omega) bounded fed

/-- When the loop ends with a chunked body, the decoder has taken all that was received of it. -/
theorem Located.loop (here : Located stream s) (ended : loop stream cut s = .ok last)
    (parsed : last.info = some info) (chunked : info.bChunked = true) : Decoding stream info last := by
  induction left : stream.length - s.nUsed using Nat.strongRecOn generalizing s with
  | ind count ih =>
    -- what was read so far is as it should be, if the loop stops here
    have stops : ∀ nAlloc, last = { s with nAlloc := nAlloc } → Decoding stream info last := by
      intro nAlloc same
      rcases here.phase with scanning | ⟨other, known, decoding⟩
      · rw [same, scanning.parsed] at parsed
        cases parsed
      · rw [same, known] at parsed
        cases parsed
        rw [same]
        exact (decoding chunked).larger nAlloc
    by_cases done : s.complete = true
    · rw [loop_eq, if_pos done] at ended
      cases ended
      exact stops last.nAlloc rfl
    · rcases here.buffered.grow with ⟨full, _⟩ | ⟨nAlloc, grown, room, bounded⟩
      · rw [loop_eq, if_neg done, full] at ended
        cases ended
      · by_cases nothing : arrives stream cut { s with nAlloc := nAlloc } = 0
        · rw [loop_eq, if_neg done, grown] at ended
          simp only [if_pos nothing] at ended
          exact stops nAlloc (closed_eq ended)
        · rw [loop_read done grown nothing] at ended
          obtain ⟨started, next, scanned, fed, later⟩ := proceed_eq_ok ended
          obtain ⟨located, used⟩ := here.read grown room bounded scanned fed
          have inside := located.inside
          exact ih (stream.length - next.nUsed) (by omega) located later rfl

end again

end Reading

open Reading

theorem completes_render (body : ChunkedBody) : Completes body.render := by
  intro front rest q out parts taken
  constructor
  · intro done
    by_contra more
    exact Decoder.not_done_of_prefix parts more taken done
  · intro nothing
    rw [nothing, List.append_nil] at parts
    rw [parts] at taken
    obtain ⟨more, below, within⟩ := Decoder.exists_within httpLimits body
    obtain ⟨last, whole, done⟩ := Decoder.takes_body body within
    have same := Decoder.takes_mono below taken
    rw [Machine.Takes, whole] at same
    rw [← (Prod.mk.inj (Except.ok.inj same)).1]
    exact done

/-- A stream that is one response: a header section, and the body that it announces. When the headers are
malformed, anything may follow them. -/
inductive OneResponse : Bytes → Prop
  | of {head body : Bytes} {i : Nat} : Head head i →
      (∀ info, parseResponseHeaders head = .ok info → info.bChunked = true →
        ∃ chunked : ChunkedBody, body = chunked.render) →
      (∀ info, parseResponseHeaders head = .ok info → info.bChunked = false →
        ∀ length, info.contentLength = some length → body.length = length) →
      OneResponse (head ++ body)

theorem framed_of_one {info : ResponseInfo} {body : Bytes}
    (chunked : info.bChunked = true → ∃ chunked : ChunkedBody, body = chunked.render)
    (length : info.bChunked = false → ∀ length, info.contentLength = some length → body.length = length) :
    Framed info body := by
  refine ⟨?_, length⟩
  intro isChunked
  obtain ⟨grammar, rfl⟩ := chunked isChunked
  exact completes_render grammar

theorem readHttpResponse_eq {head body : Bytes} {i : Nat} (here : Head head i)
    (framed : ∀ info, parseResponseHeaders head = .ok info → Framed info body) (cut : Nat → Nat) :
    match refused head body with
    | some code => readHttpResponse (head ++ body) cut = .error code
    | none => ∃ last info, readHttpResponse (head ++ body) cut = .ok last ∧
        parseResponseHeaders head = .ok info ∧ last.info = some info ∧ last.nUsed = (head ++ body).length := by
  have length := here.length
  have settled := @Scanning.settles cut head body i {} here framed (scanning_start _) (by simp only; omega)
  rw [Settles] at settled
  rw [readHttpResponse]
  split at settled
  · rw [settled]
  · obtain ⟨info, known, last, ended, used, parsed, done⟩ := settled
    have checked : last.checked = .ok last := by
      rw [Reading.checked, parsed]
      simp only
      rw [if_neg (by simpa using done)]
    rw [ended]
    exact ⟨last, info, checked, known, parsed, used⟩

theorem receive_eq {head body : Bytes} {i : Nat} (here : Head head i)
    (framed : ∀ info, parseResponseHeaders head = .ok info → Framed info body) (cut : Nat → Nat) :
    receive (head ++ body) cut =
      match refused head body with
      | some code => .error code
      | none => parseResponse (head ++ body) := by
  have read := readHttpResponse_eq here framed cut
  rw [receive]
  split at read
  · rw [read]
  · obtain ⟨last, info, read, _, _, used⟩ := read
    rw [read]
    simp only [used, List.take_length]

theorem Reading.Decoding.parseResponse {stream : Bytes} {info : ResponseInfo} {s : Reading}
    (here : Decoding stream info s) (done : s.decoder.state = .done) :
    ∃ body, parseResponse (stream.take s.nUsed) = .ok (info.status, body) ∧
      body.length = s.decoder.nDecoded := by
  obtain ⟨i, head, parsed⟩ := here.head
  obtain ⟨start, _⟩ := (head.parseResponseHeaders []).2 info parsed
  obtain ⟨out, taken⟩ := here.ready.taken
  have inside := here.ready.inside
  have fed := here.fed
  have length := head.length
  have room := Decoder.takes_wire taken (Nat.zero_le _)
  obtain ⟨wire, decoded⟩ := Decoder.takes_counts taken
  have parts : stream.take s.nUsed = stream.take (i + 4) ++ (stream.take s.nUsed).drop (i + 4) := by
    have cut := (List.take_append_drop (i + 4) (stream.take s.nUsed)).symm
    rwa [List.take_take, Nat.min_eq_left (by omega)] at cut
  have reparsed : parseResponseHeaders (stream.take s.nUsed) = .ok info := by
    rw [parts, (head.parseResponseHeaders _).1, parsed]
  have body : (stream.take s.nUsed).drop info.bodyStart = (stream.drop info.bodyStart).take s.nBodyFed := by
    rw [List.drop_take, ← fed, Nat.add_sub_cancel_left]
  have size : ((stream.drop info.bodyStart).take s.nBodyFed).length ≤ httpLimits.respMaxBytes := by
    have zero : ({} : Decoder).nWire = 0 := rfl
    omega
  have again : decodeChunkedBody ((stream.drop info.bodyStart).take s.nBodyFed) = .ok out := by
    have room : Decoder.Roomy ((stream.drop info.bodyStart).take s.nBodyFed,
        some ((stream.drop info.bodyStart).take s.nBodyFed).length) := by
      intro room same
      cases same
      exact Nat.le_refl _
    rw [decodeChunkedBody, if_neg (by omega), Decoder.feed_eq_run {} room, taken]
    simp only [Except.map, done]
    rfl
  refine ⟨out, ?_, ?_⟩
  · rw [Http.parseResponse, reparsed]
    simp only [body]
    rw [if_neg (by rw [List.length_take]; omega), if_neg (by omega), if_pos here.ready.chunked, again]
    rfl
  · have zero : ({} : Decoder).nDecoded = 0 := rfl
    omega

/-- How the transport cuts a response makes no difference for what is received. A chunked body that was
accepted while reading is accepted when it is parsed again, and decoded to the same length. -/
theorem receive_any_cut (stream : Bytes) (cut : Nat → Nat) :
    (OneResponse stream → ∀ other, receive stream cut = receive stream other) ∧
    ∀ last info, readHttpResponse stream cut = .ok last → last.info = some info → info.bChunked = true →
      ∃ body, parseResponse (stream.take last.nUsed) = .ok (info.status, body) ∧
        body.length = last.decoder.nDecoded := by
  constructor
  · intro one other
    cases one with
    | @of head body i here chunked length =>
      have framed : ∀ info, parseResponseHeaders head = .ok info → Framed info body := by
        intro info parsed
        exact framed_of_one (chunked info parsed) (length info parsed)
      rw [receive_eq here framed cut, receive_eq here framed other]
  · intro last info read parsed chunked
    rw [readHttpResponse] at read
    split at read
    · cases read
    · next ended looped =>
        rw [Reading.checked] at read
        split at read
        · cases read
        · next other known =>
            split at read
            · cases read
            · next done =>
                cases read
                rw [parsed] at known
                cases known
                have start : Located stream {} :=
                  ⟨.inl (scanning_start stream), (scanning_start stream).buffered, Nat.zero_le _⟩
                have decoding := start.loop looped parsed chunked
                exact decoding.parseResponse (by simpa [chunked] using done)

def sampleHead : Bytes := ascii "HTTP/1.1 200 OK\r\nTransfer-Encoding: chunked\r\n\r\n"

theorem sampleHead_parsed : parseResponseHeaders sampleHead = .ok ⟨200, 47, none, false, true⟩ := by decide +kernel

theorem sampleHead_head : Head sampleHead 43 := ⟨by decide +kernel, by decide +kernel, by decide +kernel⟩

theorem sample_plain {info : ResponseInfo} (parsed : parseResponseHeaders sampleHead = .ok info)
    (plain : info.bChunked = false) (length : Nat) (_ : info.contentLength = some length) :
    sampleBody.render.length = length := by
  rw [sampleHead_parsed] at parsed
  cases parsed
  cases plain

theorem sample_one : OneResponse (sampleHead ++ sampleBody.render) :=
  .of sampleHead_head (fun _ _ _ => ⟨sampleBody, rfl⟩) fun _ parsed plain => sample_plain parsed plain

theorem sample_accepted : refused sampleHead sampleBody.render = none := by
  obtain ⟨last, taken, _⟩ := Decoder.takes_body sampleBody sampleBody_within
  rw [refused, if_neg (by decide +kernel), sampleHead_parsed]
  simp only [if_true]
  rw [taken]

theorem receive_any_cut_sample :
    receive (sampleHead ++ sampleBody.render) (fun _ => 0) =
        receive (sampleHead ++ sampleBody.render) (fun _ => 63) ∧
    ∃ last body, readHttpResponse (sampleHead ++ sampleBody.render) (fun _ => 0) = .ok last ∧
      parseResponse ((sampleHead ++ sampleBody.render).take last.nUsed) = .ok (200, body) ∧
      body.length = last.decoder.nDecoded := by
  have both := receive_any_cut (sampleHead ++ sampleBody.render) fun _ => 0
  have read := readHttpResponse_eq sampleHead_head (fun _ parsed => framed_of_one (fun _ => ⟨sampleBody, rfl⟩)
    (sample_plain parsed)) fun _ => 0
  rw [sample_accepted] at read
  obtain ⟨last, info, read, parsed, known, _⟩ := read
  rw [sampleHead_parsed] at parsed
  cases parsed
  obtain ⟨body, again, length⟩ := both.2 last _ read known rfl
  exact ⟨both.1 sample_one _, last, body, read, again, length⟩

end RusqDoltlite.Http

import RusqDoltlite.Http.ErrorMap

/-! Responses: `httpParseResponseHeaders`, `readHttpResponse` and `httpParseResponse`. -/

namespace RusqDoltlite.Http

open Wire

def space : UInt8 := 0x20

def comma : UInt8 := 0x2c

def lower (c : UInt8) : UInt8 := if 0x41 ≤ c ∧ c ≤ 0x5a then c + 0x20 else c

def headerNameEquals (name expected : Bytes) : Bool := name.map lower == expected.map lower

def trimEnd (value : Bytes) : Bytes := (value.reverse.dropWhile isBlank).reverse

def headerValueHasToken (value token : Bytes) : Bool :=
  (value.splitOn comma).any fun part => headerNameEquals (trimEnd (part.dropWhile isBlank)) token

def splitLine : Bytes → Option (Bytes × Bytes)
  | [] => none
  | c :: rest =>
    if c = cr ∧ rest.head? = some lf then some ([], rest.drop 1)
    else (splitLine rest).map fun parts => (c :: parts.1, parts.2)

theorem splitLine_length {raw : Bytes} {parts : Bytes × Bytes} (found : splitLine raw = some parts) :
    parts.1.length + 2 + parts.2.length = raw.length := by
  induction raw generalizing parts with
  | nil => cases found
  | cons c rest ih =>
    rw [splitLine] at found
    split at found
    · next ends =>
        cases found
        cases rest with
        | nil => cases ends.2
        | cons d more =>
          simp only [List.length_nil, List.drop_succ_cons, List.drop_zero, List.length_cons]
          omega
    · obtain ⟨later, split, rfl⟩ := Option.map_eq_some_iff.mp found
      have length := ih split
      simp only [List.length_cons]
      omega

structure Fields where
  seenContentLength : Bool := false
  seenTransferEncoding : Bool := false
  closeConnection : Bool
  bChunked : Bool := false
  contentLength : Option Nat := none
deriving DecidableEq, Repr

/-- A line of the header. Lines without a name are passed over. -/
def Fields.take (fields : Fields) (line : Bytes) : Except Code Fields :=
  let name := line.takeWhile (· != colon)
  let value := trimEnd ((line.drop (name.length + 1)).dropWhile isBlank)
  if name = [] ∨ name.length = line.length then .ok fields
  else if headerNameEquals name (ascii "Content-Length") then
    if fields.seenContentLength = true then .error .protocol
    else
      match parseDecimal httpLimits.respMaxBytes value with
      | .ok value => .ok { fields with seenContentLength := true, contentLength := some value }
      | .range => .error .tooBig
      | .invalid => .error .protocol
  else if headerNameEquals name (ascii "Transfer-Encoding") then
    if fields.seenTransferEncoding = true then .error .protocol
    else if headerNameEquals value (ascii "chunked") = false then .error .protocol
    else .ok { fields with seenTransferEncoding := true, bChunked := true }
  else if headerNameEquals name (ascii "Connection") ∧ headerValueHasToken value (ascii "close") then
    .ok { fields with closeConnection := true }
  else .ok fields

def readFields (fields : Fields) (raw : Bytes) : Except Code (Fields × Bytes) :=
  if raw.take 2 = [cr, lf] then .ok (fields, raw.drop 2)
  else
    match _split : splitLine raw with
    | none => .error .protocol
    | some parts =>
      match fields.take parts.1 with
      | .error code => .error code
      | .ok next => readFields next parts.2
termination_by raw.length
decreasing_by
  have length := splitLine_length _split
  omega

structure ResponseInfo where
  status : Nat
  bodyStart : Nat
  contentLength : Option Nat
  closeConnection : Bool
  bChunked : Bool
deriving DecidableEq, Repr

def inWord (c : UInt8) : Bool := c != space && c != cr && c != lf

def statusLine (raw : Bytes) : Except Code (Bool × Nat × Bytes) :=
  let version := raw.takeWhile inWord
  let rest := raw.drop version.length
  let status := (rest.drop 1).takeWhile inWord
  if rest.head? ≠ some space then .error .protocol
  else if status.length ≠ 3 then .error .protocol
  else
    match parseDecimal 999 status with
    | .ok value =>
      if value < 100 then .error .protocol
      else
        match splitLine (rest.drop 4) with
        | none => .error .protocol
        | some parts => .ok (version != ascii "HTTP/1.1", value, parts.2)
    | _ => .error .protocol

def noBody (status : Nat) : Bool := (100 ≤ status && status < 200) || status == 204 || status == 304

def finishHeaders (status bodyStart : Nat) (fields : Fields) : Except Code ResponseInfo :=
  if httpLimits.headerMaxBytes < bodyStart then .error .tooBig
  else if fields.bChunked = true ∧ fields.seenContentLength = true then .error .protocol
  else if fields.bChunked = true ∧ noBody status = true then .error .protocol
  else
    .ok
      { status := status
        bodyStart := bodyStart
        contentLength :=
          if fields.bChunked = false ∧ fields.contentLength = none ∧ noBody status = true then some 0
          else fields.contentLength
        closeConnection := fields.closeConnection
        bChunked := fields.bChunked }

def parseResponseHeaders (raw : Bytes) : Except Code ResponseInfo :=
  match statusLine raw with
  | .error code => .error code
  | .ok line =>
    match readFields { closeConnection := line.1 } line.2.2 with
    | .error code => .error code
    | .ok last => finishHeaders line.2.1 (raw.length - last.2.length) last.1

def decodeChunkedBody (body : Bytes) : Except Code Bytes :=
  if httpLimits.respMaxBytes < body.length then .error .tooBig
  else
    match chunkedDecoderFeed {} body (some body.length) with
    | .error code => .error code
    | .ok fed => if fed.bDone = true then .ok fed.out else .error .protocol

def parseResponse (raw : Bytes) : Except Code (Nat × Bytes) :=
  match parseResponseHeaders raw with
  | .error code => .error code
  | .ok info =>
    let body := raw.drop info.bodyStart
    if raw.length < info.bodyStart then .error .protocol
    else if httpLimits.respMaxBytes < body.length then .error .tooBig
    else if info.bChunked = true then (decodeChunkedBody body).map fun decoded => (info.status, decoded)
    else if info.contentLength.any (· != body.length) = true then .error .protocol
    else .ok (info.status, body)

def endsAt (buf : Bytes) (i : Nat) : Bool := (buf.drop i).take 4 == [cr, lf, cr, lf]

/-- The scan for the end of the header section goes on where it stopped before. -/
def scanHeader (buf : Bytes) (nHeaderScan : Nat) : Nat × Bool :=
  if nHeaderScan + 3 < buf.length then
    if endsAt buf nHeaderScan = true then (nHeaderScan, true) else scanHeader buf (nHeaderScan + 1)
  else (nHeaderScan, false)
termination_by buf.length - nHeaderScan

/-- The variables of `readHttpResponse`. The buffer holds the first `nUsed` bytes of the stream, and
there is an `info` once the headers are parsed. -/
structure Reading where
  nAlloc : Nat := 4096
  nUsed : Nat := 0
  nTarget : Option Nat := none
  nBodyFed : Nat := 0
  nHeaderScan : Nat := 0
  info : Option ResponseInfo := none
  decoder : Decoder := {}
deriving DecidableEq

def nMax : Nat := httpLimits.headerMaxBytes + httpLimits.respMaxBytes

namespace Reading

def complete (s : Reading) : Bool :=
  match s.info with
  | none => false
  | some info => if info.bChunked = true then s.decoder.state == .done else s.nTarget == some s.nUsed

def grow (s : Reading) : Except Code Reading :=
  if s.nUsed ≠ s.nAlloc then .ok s
  else if min (s.nAlloc * 2) nMax ≤ s.nAlloc then .error .tooBig
  else .ok { s with nAlloc := min (s.nAlloc * 2) nMax }

def nRead (s : Reading) : Nat :=
  match s.nTarget with
  | some target => min (s.nAlloc - s.nUsed) (target - s.nUsed)
  | none => s.nAlloc - s.nUsed

def closed (s : Reading) : Except Code Reading :=
  match s.info with
  | none => .error .protocol
  | some info =>
    if info.bChunked = true ∧ s.decoder.state ≠ .done then .error .protocol
    else if info.bChunked = false ∧ s.nTarget.any (· != s.nUsed) = true then .error .protocol
    else .ok s

def start (s : Reading) (info : ResponseInfo) : Except Code Reading :=
  if info.bChunked = true then .ok { s with info := some info, decoder := {} }
  else
    match info.contentLength with
    | none => .ok { s with info := some info }
    | some length =>
      if nMax < info.bodyStart + length then .error .tooBig
      else if info.bodyStart + length < s.nUsed then .error .protocol
      else .ok { s with info := some info, nTarget := some (info.bodyStart + length) }

def scan (buf : Bytes) (s : Reading) : Except Code Reading :=
  match s.info with
  | some _ => .ok s
  | none =>
    let scanned := scanHeader buf s.nHeaderScan
    let s := { s with nHeaderScan := scanned.1 }
    if scanned.2 = true then
      match parseResponseHeaders buf with
      | .error code => .error code
      | .ok info => s.start info
    else if httpLimits.headerMaxBytes ≤ s.nUsed then .error .tooBig
    else .ok s

def feed (buf : Bytes) (s : Reading) : Except Code Reading :=
  match s.info with
  | none => .ok s
  | some info =>
    if info.bChunked = true then
      let piece := buf.drop (info.bodyStart + s.nBodyFed)
      if s.nUsed < info.bodyStart then .error .protocol
      else if s.nUsed - info.bodyStart < s.nBodyFed then .error .protocol
      else if piece = [] then .ok s
      else if 0x7fffffff < piece.length then .error .tooBig
      else
        match chunkedDecoderFeed s.decoder piece none with
        | .error code => .error code
        | .ok fed => .ok { s with decoder := fed.decoder, nBodyFed := s.nBodyFed + piece.length }
    else if s.nTarget.any (· < s.nUsed) = true then .error .protocol
    else .ok s

def advance (stream : Bytes) (s : Reading) : Except Code Reading :=
  match s.scan (stream.take s.nUsed) with
  | .error code => .error code
  | .ok next => next.feed (stream.take next.nUsed)

theorem start_nUsed {s next : Reading} {info : ResponseInfo} (started : s.start info = .ok next) :
    next.nUsed = s.nUsed := by
  rw [start] at started
  split at started
  · cases started
    rfl
  · split at started
    · cases started
      rfl
    · split at started
      · cases started
      · split at started
        · cases started
        · cases started
          rfl

theorem scan_nUsed {s next : Reading} {buf : Bytes} (scanned : s.scan buf = .ok next) :
    next.nUsed = s.nUsed := by
  rw [scan] at scanned
  split at scanned
  · cases scanned
    rfl
  · simp only at scanned
    split at scanned
    · split at scanned
      · cases scanned
      · have same := start_nUsed scanned
        exact same
    · split at scanned
      · cases scanned
      · cases scanned
        rfl

theorem feed_nUsed {s next : Reading} {buf : Bytes} (fed : s.feed buf = .ok next) : next.nUsed = s.nUsed := by
  rw [feed] at fed
  split at fed
  · cases fed
    rfl
  · split at fed
    · simp only at fed
      split at fed
      · cases fed
      · split at fed
        · cases fed
        · split at fed
          · cases fed
            rfl
          · split at fed
            · cases fed
            · split at fed
              · cases fed
              · cases fed
                rfl
    · split at fed
      · cases fed
      · cases fed
        rfl

theorem advance_nUsed {s next : Reading} {stream : Bytes} (advanced : s.advance stream = .ok next) :
    next.nUsed = s.nUsed := by
  rw [advance] at advanced
  split at advanced
  · cases advanced
  · next middle scanned => exact (feed_nUsed advanced).trans (scan_nUsed scanned)

theorem grow_nUsed {s next : Reading} (grown : s.grow = .ok next) : next.nUsed = s.nUsed := by
  rw [grow] at grown
  split at grown
  · cases grown
    rfl
  · split at grown
    · cases grown
    · cases grown
      rfl

/-- How many bytes a read gives. A transport may give less than it has and less than is asked for; how
much less depends on the position. -/
def arrives (stream : Bytes) (cut : Nat → Nat) (s : Reading) : Nat :=
  min (min s.nRead (stream.length - s.nUsed)) (cut s.nUsed + 1)

def loop (stream : Bytes) (cut : Nat → Nat) (s : Reading) : Except Code Reading :=
  if s.complete = true then .ok s
  else
    match _grown : s.grow with
    | .error code => .error code
    | .ok larger =>
      if larger.arrives stream cut = 0 then larger.closed
      else
        match _read : { larger with nUsed := larger.nUsed + larger.arrives stream cut }.advance stream with
        | .error code => .error code
        | .ok next => loop stream cut next
termination_by stream.length - s.nUsed
decreasing_by
  rename_i more
  have same := grow_nUsed _grown
  have used := advance_nUsed _read
  simp only [arrives] at used more
  omega

def checked (s : Reading) : Except Code Reading :=
  match s.info with
  | none => .error .protocol
  | some info => if info.bChunked = true ∧ s.decoder.state ≠ .done then .error .protocol else .ok s

end Reading

def readHttpResponse (stream : Bytes) (cut : Nat → Nat) : Except Code Reading :=
  match Reading.loop stream cut {} with
  | .error code => .error code
  | .ok last => last.checked

def receive (stream : Bytes) (cut : Nat → Nat) : Except Code (Nat × Bytes) :=
  match readHttpResponse stream cut with
  | .error code => .error code
  | .ok last => parseResponse (stream.take last.nUsed)

end RusqDoltlite.Http

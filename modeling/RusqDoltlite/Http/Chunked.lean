import RusqDoltlite.Wire.Machine

/-! The decoder of chunked bodies: `httpChunkedDecoderFeed`. -/

namespace RusqDoltlite.Http

open Wire

abbrev Bytes := List UInt8

inductive Code where
  | protocol | tooBig | ioerr | notFound | busy | busySnapshot | locked | constraint | auth | error
  | other (code : Int)
deriving DecidableEq, Repr

structure Limits where
  respMaxBytes : Nat
  headerMaxBytes : Nat

def httpLimits : Limits where
  respMaxBytes := 128 * 1024 * 1024
  headerMaxBytes := 64 * 1024

def cr : UInt8 := 0x0d

def lf : UInt8 := 0x0a

def semicolon : UInt8 := 0x3b

def equals : UInt8 := 0x3d

def quote : UInt8 := 0x22

def backslash : UInt8 := 0x5c

def colon : UInt8 := 0x3a

def isBlank (c : UInt8) : Bool := c == 0x20 || c == 0x09

def chunkedHexValue (c : UInt8) : Option Nat :=
  if 0x30 ≤ c ∧ c ≤ 0x39 then some (c.toNat - 0x30)
  else if 0x61 ≤ c ∧ c ≤ 0x66 then some (c.toNat - 0x61 + 10)
  else if 0x41 ≤ c ∧ c ≤ 0x46 then some (c.toNat - 0x41 + 10)
  else none

def tokenChar (c : UInt8) : Bool :=
  (0x30 ≤ c && c ≤ 0x39) || (0x41 ≤ c && c ≤ 0x5a) || (0x61 ≤ c && c ≤ 0x7a) ||
    [0x21, 0x23, 0x24, 0x25, 0x26, 0x27, 0x2a, 0x2b, 0x2d, 0x2e, 0x5e, 0x5f, 0x60, 0x7c, 0x7e].contains c

def chunkQuotedTextChar (c : UInt8) : Bool :=
  c == 0x09 || c == 0x20 || c == 0x21 || (0x23 ≤ c && c ≤ 0x5b) || (0x5d ≤ c && c ≤ 0x7e) || 0x80 ≤ c

def chunkQuotedPairChar (c : UInt8) : Bool :=
  c == 0x09 || c == 0x20 || (0x21 ≤ c && c ≤ 0x7e) || 0x80 ≤ c

inductive ChunkState where
  | size | sizeLf
  | extBeforeSemi | extNameStart | extName | extNameOws
  | extValueStart | extTokenValue | extTokenValueOws
  | extQuotedValue | extQuotedEscape | extQuotedEnd
  | data | dataCr | dataLf
  | trailerStart | trailerLine | trailerLineLf | trailerEndLf
  | done
deriving DecidableEq, Repr

def ChunkState.inSizeLine : ChunkState → Bool
  | .size | .sizeLf | .extBeforeSemi | .extNameStart | .extName | .extNameOws | .extValueStart
  | .extTokenValue | .extTokenValueOws | .extQuotedValue | .extQuotedEscape | .extQuotedEnd => true
  | _ => false

def ChunkState.inTrailer : ChunkState → Bool
  | .trailerStart | .trailerLine | .trailerLineLf | .trailerEndLf => true
  | _ => false

/-- `HttpChunkedDecoder`; the defaults are `httpChunkedDecoderInit`. -/
structure Decoder where
  state : ChunkState := .size
  nSizeDigits : Nat := 0
  nSizeLineBytes : Nat := 0
  nTrailerLineBytes : Nat := 0
  nTrailerNameBytes : Nat := 0
  bTrailerColon : Bool := false
  nChunkSize : Nat := 0
  nChunkRemaining : Nat := 0
  nDecoded : Nat := 0
  nWire : Nat := 0
  nTrailerBytes : Nat := 0
deriving DecidableEq, Repr

namespace Decoder

def count (lim : Limits) (p : Decoder) : Except Code Decoder :=
  if lim.respMaxBytes ≤ p.nWire then .error .tooBig
  else if p.state.inSizeLine then
    if lim.headerMaxBytes ≤ p.nSizeLineBytes then .error .tooBig
    else .ok { p with nWire := p.nWire + 1, nSizeLineBytes := p.nSizeLineBytes + 1 }
  else if p.state.inTrailer then
    if lim.headerMaxBytes ≤ p.nTrailerBytes then .error .tooBig
    else .ok { p with nWire := p.nWire + 1, nTrailerBytes := p.nTrailerBytes + 1 }
  else .ok { p with nWire := p.nWire + 1 }

def goto (p : Decoder) (state : ChunkState) : Except Code Decoder := .ok { p with state := state }

def takeSize (lim : Limits) (p : Decoder) (c : UInt8) : Except Code Decoder :=
  match chunkedHexValue c with
  | some digit =>
    if (lim.respMaxBytes - digit) / 16 < p.nChunkSize then .error .tooBig
    else .ok { p with nChunkSize := p.nChunkSize * 16 + digit, nSizeDigits := p.nSizeDigits + 1 }
  | none =>
    if c = cr ∧ 0 < p.nSizeDigits then p.goto .sizeLf
    else if c = semicolon ∧ 0 < p.nSizeDigits then p.goto .extNameStart
    else if isBlank c ∧ 0 < p.nSizeDigits then p.goto .extBeforeSemi
    else .error .protocol

def takeSizeLf (lim : Limits) (p : Decoder) (c : UInt8) : Except Code Decoder :=
  if c ≠ lf then .error .protocol
  else if p.nChunkSize = 0 then .ok { p with state := .trailerStart, nTrailerBytes := 0 }
  else if lim.respMaxBytes < p.nDecoded + p.nChunkSize then .error .tooBig
  else .ok { p with nChunkRemaining := p.nChunkSize, state := .data }

/-- The extensions behind a chunk size. These states only lead to one another and to the end of the
line; nothing is kept of an extension. -/
def extNext : ChunkState → UInt8 → Option ChunkState
  | .extBeforeSemi, c =>
    if isBlank c then some .extBeforeSemi else if c = semicolon then some .extNameStart else none
  | .extNameStart, c =>
    if isBlank c then some .extNameStart else if tokenChar c then some .extName else none
  | .extName, c =>
    if tokenChar c then some .extName
    else if c = equals then some .extValueStart
    else if c = semicolon then some .extNameStart
    else if isBlank c then some .extNameOws
    else if c = cr then some .sizeLf
    else none
  | .extNameOws, c =>
    if isBlank c then some .extNameOws
    else if c = equals then some .extValueStart
    else if c = semicolon then some .extNameStart
    else if c = cr then some .sizeLf
    else none
  | .extValueStart, c =>
    if isBlank c then some .extValueStart
    else if tokenChar c then some .extTokenValue
    else if c = quote then some .extQuotedValue
    else none
  | .extTokenValue, c =>
    if tokenChar c then some .extTokenValue
    else if isBlank c then some .extTokenValueOws
    else if c = semicolon then some .extNameStart
    else if c = cr then some .sizeLf
    else none
  | .extTokenValueOws, c =>
    if isBlank c then some .extTokenValueOws
    else if c = semicolon then some .extNameStart
    else if c = cr then some .sizeLf
    else none
  | .extQuotedValue, c =>
    if c = quote then some .extQuotedEnd
    else if c = backslash then some .extQuotedEscape
    else if chunkQuotedTextChar c then some .extQuotedValue
    else none
  | .extQuotedEscape, c => if chunkQuotedPairChar c then some .extQuotedValue else none
  | .extQuotedEnd, c =>
    if isBlank c then some .extQuotedEnd
    else if c = semicolon then some .extNameStart
    else if c = cr then some .sizeLf
    else none
  | _, _ => none

def takeTrailerStart (p : Decoder) (c : UInt8) : Except Code Decoder :=
  if c = cr then p.goto .trailerEndLf
  else if c = lf ∨ tokenChar c = false then .error .protocol
  else .ok { p with
    state := .trailerLine, nTrailerLineBytes := 1, nTrailerNameBytes := 1, bTrailerColon := false }

def takeTrailerLine (lim : Limits) (p : Decoder) (c : UInt8) : Except Code Decoder :=
  if lim.headerMaxBytes ≤ p.nTrailerLineBytes then .error .tooBig
  else if c = cr then
    if p.bTrailerColon = false ∨ p.nTrailerNameBytes = 0 then .error .protocol
    else .ok { p with nTrailerLineBytes := p.nTrailerLineBytes + 1, state := .trailerLineLf }
  else if c = lf then .error .protocol
  else if p.bTrailerColon = false then
    if c = colon then
      if p.nTrailerNameBytes = 0 then .error .protocol
      else .ok { p with nTrailerLineBytes := p.nTrailerLineBytes + 1, bTrailerColon := true }
    else if tokenChar c = false then .error .protocol
    else .ok { p with
      nTrailerLineBytes := p.nTrailerLineBytes + 1, nTrailerNameBytes := p.nTrailerNameBytes + 1 }
  else if (c < 0x20 ∧ c ≠ 0x09) ∨ c = 0x7f then .error .protocol
  else .ok { p with nTrailerLineBytes := p.nTrailerLineBytes + 1 }

def takeLf (p : Decoder) (c : UInt8) (state : ChunkState) : Except Code Decoder :=
  if c ≠ lf then .error .protocol else p.goto state

def take (lim : Limits) (p : Decoder) (c : UInt8) : Except Code Decoder :=
  match p.state with
  | .size => p.takeSize lim c
  | .sizeLf => p.takeSizeLf lim c
  | .dataCr => if c ≠ cr then .error .protocol else p.goto .dataLf
  | .dataLf =>
    if c ≠ lf then .error .protocol
    else .ok { p with state := .size, nChunkSize := 0, nSizeDigits := 0, nSizeLineBytes := 0 }
  | .trailerStart => p.takeTrailerStart c
  | .trailerLine => p.takeTrailerLine lim c
  | .trailerLineLf => p.takeLf c .trailerStart
  | .trailerEndLf => p.takeLf c .done
  | .data | .done => .error .protocol
  | state =>
    match extNext state c with
    | some next => p.goto next
    | none => .error .protocol

def takeData (p : Decoder) (nTake : Nat) : Decoder :=
  { p with
    nWire := p.nWire + nTake
    nDecoded := p.nDecoded + nTake
    nChunkRemaining := p.nChunkRemaining - nTake
    state := if p.nChunkRemaining - nTake = 0 then .dataCr else p.state }

/-- The loop of `httpChunkedDecoderFeed`. `out` is what was produced so far, and `nOutMax` the room
there is for it, if it is copied at all. -/
def feedLoop (lim : Limits) (nOutMax : Option Nat) (p : Decoder) (out : Bytes) (input : Bytes) :
    Except Code (Decoder × Bytes) :=
  match input with
  | [] => .ok (p, out)
  | c :: rest =>
    if p.state = .done then .error .protocol
    else if p.state = .data then
      let nTake := min (rest.length + 1) p.nChunkRemaining
      if lim.respMaxBytes < p.nWire + nTake ∨ lim.respMaxBytes < p.nDecoded + nTake then .error .tooBig
      else if ∃ room ∈ nOutMax, room < out.length + nTake then .error .tooBig
      else feedLoop lim nOutMax (p.takeData nTake) (out ++ (c :: rest).take nTake) ((c :: rest).drop nTake)
    else
      match p.count lim with
      | .error e => .error e
      | .ok counted =>
        match counted.take lim c with
        | .error e => .error e
        | .ok next => feedLoop lim nOutMax next out rest
termination_by (input.length, if p.state = .data then 1 else 0)
decreasing_by
  · by_cases ends : p.nChunkRemaining = 0
    · -- nothing is left of the chunk, so only the state changes
      simp only [*, takeData, Nat.min_zero, List.drop_zero, Nat.sub_self, if_true, reduceCtorEq, if_false]
      exact .right _ Nat.zero_lt_one
    · simp only [List.length_drop, List.length_cons]
      left
      omega
  · left
    simp

end Decoder

structure Fed where
  decoder : Decoder
  out : Bytes
  bDone : Bool
deriving DecidableEq

/-- `httpChunkedDecoderFeed`. Without room for them, only the number of the bytes is reported. -/
def chunkedDecoderFeed (p : Decoder) (input : Bytes) (nOutMax : Option Nat) : Except Code Fed :=
  (p.feedLoop httpLimits nOutMax [] input).map fun last => ⟨last.1, last.2, last.1.state == .done⟩

end RusqDoltlite.Http

import RusqDoltlite.Http.ChunkedSteps

/-! Chunked bodies by the grammar of HTTP/1.1 (RFC 9112, section 7.1; tokens, quoted strings and fields
of RFC 9110, section 5). The decoder completes on these, with their data. -/

namespace RusqDoltlite.Http

open Wire

def vchar (c : UInt8) : Bool := 0x21 ≤ c && c ≤ 0x7e

def textChar (c : UInt8) : Bool := c == 0x20 || c == 0x09 || vchar c || 0x80 ≤ c

/-- The delimiters that no token holds: the double quote and `(),/:;<=>?@[\]` and the braces. -/
def delimiters : Bytes :=
  [0x22, 0x28, 0x29, 0x2c, 0x2f, 0x3a, 0x3b, 0x3c, 0x3d, 0x3e, 0x3f, 0x40, 0x5b, 0x5c, 0x5d, 0x7b, 0x7d]

def tchar (c : UInt8) : Bool := vchar c && !delimiters.contains c

def qdtext (c : UInt8) : Bool := textChar c && c != 0x22 && c != 0x5c

theorem eq_of_bytes {first second : UInt8 → Bool}
    (all : ∀ n : Fin 256, first (UInt8.ofFin n) = second (UInt8.ofFin n)) (c : UInt8) :
    first c = second c := by
  have byte : UInt8.ofFin c.toFin = c := rfl
  rw [← byte]
  exact all c.toFin

theorem tokenChar_eq_tchar (c : UInt8) : tokenChar c = tchar c :=
  eq_of_bytes (by decide +kernel) c

structure Token where
  first : UInt8
  rest : Bytes
  chars : tchar first = true ∧ ∀ c ∈ rest, tchar c = true

def Token.render (token : Token) : Bytes := token.first :: token.rest

structure Blanks where
  text : Bytes
  blank : ∀ c ∈ text, isBlank c = true

inductive Quoted where
  | text (c : UInt8) (plain : qdtext c = true)
  | pair (c : UInt8) (quotable : textChar c = true)

def Quoted.render : Quoted → Bytes
  | .text c _ => [c]
  | .pair c _ => [backslash, c]

inductive ExtValue where
  | token (text : Token)
  | quoted (parts : List Quoted)

def ExtValue.render : ExtValue → Bytes
  | .token text => text.render
  | .quoted parts => quote :: (parts.flatMap Quoted.render ++ [quote])

structure ChunkExt where
  before : Blanks
  after : Blanks
  name : Token
  value : Option (Blanks × Blanks × ExtValue)

def renderValue : Option (Blanks × Blanks × ExtValue) → Bytes
  | none => []
  | some value => value.1.text ++ (equals :: (value.2.1.text ++ value.2.2.render))

def ChunkExt.render (ext : ChunkExt) : Bytes :=
  ext.before.text ++ (semicolon :: (ext.after.text ++ (ext.name.render ++ renderValue ext.value)))

structure HexDigit where
  value : Fin 16
  upper : Bool

def HexDigit.render (digit : HexDigit) : UInt8 :=
  if digit.value.val < 10 then UInt8.ofNat (0x30 + digit.value.val)
  else if digit.upper then UInt8.ofNat (0x41 + (digit.value.val - 10))
  else UInt8.ofNat (0x61 + (digit.value.val - 10))

def hexFrom (size : Nat) (digits : List HexDigit) : Nat :=
  digits.foldl (fun size digit => size * 16 + digit.value.val) size

theorem chunkedHexValue_render (digit : HexDigit) :
    chunkedHexValue digit.render = some digit.value.val := by
  have all : ∀ (value : Fin 16) (upper : Bool),
      chunkedHexValue (HexDigit.render ⟨value, upper⟩) = some value.val := by decide
  exact all digit.value digit.upper

def sizeLine (digits : List HexDigit) (exts : List ChunkExt) : Bytes :=
  digits.map HexDigit.render ++ (exts.flatMap ChunkExt.render ++ [cr, lf])

/-- `chunk`. Its size is that of the data, and not zero. -/
structure Chunk where
  digits : List HexDigit
  exts : List ChunkExt
  data : Bytes
  size : hexFrom 0 digits = data.length
  filled : data ≠ []

def Chunk.render (chunk : Chunk) : Bytes :=
  sizeLine chunk.digits chunk.exts ++ (chunk.data ++ [cr, lf])

structure Field where
  name : Token
  value : Bytes
  chars : ∀ c ∈ value, textChar c = true

def Field.render (field : Field) : Bytes := field.name.render ++ (colon :: (field.value ++ [cr, lf]))

structure ChunkedBody where
  chunks : List Chunk
  moreZeros : Nat
  lastExts : List ChunkExt
  trailers : List Field

namespace ChunkedBody

def zeros (body : ChunkedBody) : List HexDigit := List.replicate (body.moreZeros + 1) ⟨0, false⟩

def trailerSection (body : ChunkedBody) : Bytes := body.trailers.flatMap Field.render ++ [cr, lf]

def render (body : ChunkedBody) : Bytes :=
  body.chunks.flatMap Chunk.render ++ (sizeLine body.zeros body.lastExts ++ body.trailerSection)

def data (body : ChunkedBody) : Bytes := body.chunks.flatMap Chunk.data

/-- The limits on what is sent: the body, each size line, and the trailers. What is decoded is a part
of the body. -/
structure Within (body : ChunkedBody) (lim : Limits) : Prop where
  wire : body.render.length ≤ lim.respMaxBytes
  lines : ∀ chunk ∈ body.chunks, (sizeLine chunk.digits chunk.exts).length ≤ lim.headerMaxBytes
  lastLine : (sizeLine body.zeros body.lastExts).length ≤ lim.headerMaxBytes
  trailers : body.trailerSection.length ≤ lim.headerMaxBytes

end ChunkedBody

def lineNext : ChunkState → UInt8 → Option ChunkState
  | .size, c =>
    if c = cr then some .sizeLf
    else if c = semicolon then some .extNameStart
    else if isBlank c then some .extBeforeSemi
    else none
  | state, c => Decoder.extNext state c

inductive Walk : ChunkState → Bytes → ChunkState → Prop
  | nil (state : ChunkState) : Walk state [] state
  | cons {state next last : ChunkState} {c : UInt8} {word : Bytes} :
      lineNext state c = some next → Walk next word last → Walk state (c :: word) last

namespace Walk

theorem append {first middle last : ChunkState} {front rest : Bytes} (here : Walk first front middle)
    (later : Walk middle rest last) : Walk first (front ++ rest) last := by
  induction here with
  | nil state => exact later
  | cons move _ ih => exact .cons move (ih later)

theorem stay {state : ChunkState} {word : Bytes} (all : ∀ c ∈ word, lineNext state c = some state) :
    Walk state word state := by
  induction word with
  | nil => exact .nil state
  | cons c word ih =>
    obtain ⟨here, later⟩ := List.forall_mem_cons.mp all
    exact .cons here (ih later)

end Walk

section extensions
variable {state next : ChunkState}

def ChunkState.Ready (state : ChunkState) : Prop :=
  state = .size ∨ state = .extName ∨ state = .extTokenValue ∨ state = .extQuotedEnd

theorem moves_of_bytes {member : UInt8 → Bool}
    (all : ∀ n : Fin 256, member (UInt8.ofFin n) = true → lineNext state (UInt8.ofFin n) = some next)
    (c : UInt8) (isMember : member c = true) : lineNext state c = some next :=
  all c.toFin isMember

theorem walk_blanks {waiting last : ChunkState} {mark : UInt8} (blanks : Blanks)
    (enters : ∀ c, isBlank c = true → lineNext state c = some waiting)
    (stays : ∀ c, isBlank c = true → lineNext waiting c = some waiting)
    (marked : lineNext state mark = some last) (ends : lineNext waiting mark = some last) :
    Walk state (blanks.text ++ [mark]) last := by
  have blank := blanks.blank
  cases text : blanks.text with
  | nil => exact .cons marked (.nil last)
  | cons c word =>
    rw [text] at blank
    obtain ⟨here, later⟩ := List.forall_mem_cons.mp blank
    exact .cons (enters c here)
      ((Walk.stay fun c member => stays c (later c member)).append (.cons ends (.nil last)))

theorem walk_cr (ready : state.Ready) : Walk state [cr] .sizeLf := by
  refine .cons ?_ (.nil _)
  rcases ready with rfl | rfl | rfl | rfl <;> decide

theorem walk_semicolon (ready : state.Ready) (blanks : Blanks) :
    Walk state (blanks.text ++ [semicolon]) .extNameStart := by
  rcases ready with rfl | rfl | rfl | rfl
  · exact @walk_blanks .size .extBeforeSemi _ _ blanks (moves_of_bytes (by decide +kernel))
      (moves_of_bytes (by decide +kernel)) (by decide) (by decide)
  · exact @walk_blanks .extName .extNameOws _ _ blanks (moves_of_bytes (by decide +kernel))
      (moves_of_bytes (by decide +kernel)) (by decide) (by decide)
  · exact @walk_blanks .extTokenValue .extTokenValueOws _ _ blanks (moves_of_bytes (by decide +kernel))
      (moves_of_bytes (by decide +kernel)) (by decide) (by decide)
  · exact @walk_blanks .extQuotedEnd .extQuotedEnd _ _ blanks (moves_of_bytes (by decide +kernel))
      (moves_of_bytes (by decide +kernel)) (by decide) (by decide)

theorem walk_equals (blanks : Blanks) : Walk .extName (blanks.text ++ [equals]) .extValueStart :=
  @walk_blanks .extName .extNameOws _ _ blanks (moves_of_bytes (by decide +kernel))
    (moves_of_bytes (by decide +kernel)) (by decide) (by decide)

theorem walk_token {start inside : ChunkState} (blanks : Blanks) (token : Token)
    (waits : ∀ c, isBlank c = true → lineNext start c = some start)
    (starts : ∀ c, tchar c = true → lineNext start c = some inside)
    (goes : ∀ c, tchar c = true → lineNext inside c = some inside) :
    Walk start (blanks.text ++ token.render) inside :=
  (Walk.stay fun c member => waits c (blanks.blank c member)).append
    (.cons (starts token.first token.chars.1) (Walk.stay fun c member => goes c (token.chars.2 c member)))

theorem walk_quoted (parts : List Quoted) :
    Walk .extQuotedValue (parts.flatMap Quoted.render) .extQuotedValue := by
  induction parts with
  | nil => exact .nil _
  | cons part parts ih =>
    rw [List.flatMap_cons]
    refine Walk.append ?_ ih
    cases part with
    | text c plain =>
      exact .cons (@moves_of_bytes _ _ qdtext (by decide +kernel) c plain) (.nil _)
    | pair c quotable =>
      have escaped : lineNext .extQuotedEscape c = some .extQuotedValue :=
        @moves_of_bytes _ _ textChar (by decide +kernel) c quotable
      exact .cons rfl (.cons escaped (.nil _))

theorem walk_value (value : Option (Blanks × Blanks × ExtValue)) :
    ∃ state : ChunkState, state.Ready ∧ Walk .extName (renderValue value) state := by
  cases value with
  | none => exact ⟨.extName, .inr (.inl rfl), .nil _⟩
  | some value =>
    obtain ⟨before, after, value⟩ := value
    rw [renderValue, List.append_cons]
    cases value with
    | token text =>
      exact ⟨.extTokenValue, .inr (.inr (.inl rfl)), (walk_equals before).append
        (walk_token after text (moves_of_bytes (by decide +kernel)) (moves_of_bytes (by decide +kernel))
          (moves_of_bytes (by decide +kernel)))⟩
    | quoted parts =>
      have opening : Walk .extValueStart (after.text ++ [quote]) .extQuotedValue :=
        @walk_blanks .extValueStart .extValueStart _ _ after (moves_of_bytes (by decide +kernel))
          (moves_of_bytes (by decide +kernel)) (by decide) (by decide)
      have closing : Walk .extQuotedValue [quote] .extQuotedEnd := .cons (by decide) (.nil _)
      refine ⟨.extQuotedEnd, .inr (.inr (.inr rfl)), (walk_equals before).append ?_⟩
      rw [ExtValue.render, List.append_cons]
      exact opening.append ((walk_quoted parts).append closing)

theorem walk_ext (ready : state.Ready) (ext : ChunkExt) :
    ∃ last : ChunkState, last.Ready ∧ Walk state ext.render last := by
  have named : Walk .extNameStart (ext.after.text ++ ext.name.render) .extName :=
    walk_token ext.after ext.name (moves_of_bytes (by decide +kernel)) (moves_of_bytes (by decide +kernel))
      (moves_of_bytes (by decide +kernel))
  obtain ⟨last, again, valued⟩ := walk_value ext.value
  refine ⟨last, again, ?_⟩
  rw [ChunkExt.render, List.append_cons, ← List.append_assoc ext.after.text]
  exact (walk_semicolon ready ext.before).append (named.append valued)

theorem walk_exts (ready : state.Ready) (exts : List ChunkExt) :
    ∃ last : ChunkState, last.Ready ∧ Walk state (exts.flatMap ChunkExt.render) last := by
  induction exts generalizing state with
  | nil => exact ⟨state, ready, .nil state⟩
  | cons ext exts ih =>
    obtain ⟨middle, again, here⟩ := walk_ext ready ext
    obtain ⟨last, done, later⟩ := ih again
    rw [List.flatMap_cons]
    exact ⟨last, done, here.append later⟩

end extensions

namespace Decoder

variable {lim : Limits} {p : Decoder} {state next : ChunkState} {c : UInt8}

def line (p : Decoder) (state : ChunkState) (bytes : Nat) : Decoder :=
  { p with state := state, nWire := p.nWire + bytes, nSizeLineBytes := p.nSizeLineBytes + bytes }

theorem count_line (sized : p.state.inSizeLine = true) (wire : p.nWire < lim.respMaxBytes)
    (room : p.nSizeLineBytes < lim.headerMaxBytes) : p.count lim = .ok (p.line p.state 1) := by
  rw [count, if_neg (by omega), if_pos sized, if_neg (by omega)]
  rfl

theorem inSizeLine_of_lineNext
    (move : lineNext state c = some next) : state.inSizeLine = true ∧ state ≠ .sizeLf := by
  cases state <;> simp_all [lineNext, extNext, ChunkState.inSizeLine]

theorem hexValue_of_lineNext (move : lineNext .size c = some next) : chunkedHexValue c = none := by
  have all : ∀ n : Fin 256, (lineNext .size (UInt8.ofFin n)).isSome →
      chunkedHexValue (UInt8.ofFin n) = none := by decide +kernel
  exact all c.toFin (Option.isSome_iff_exists.mpr ⟨next, move⟩)

theorem take_line (digits : 0 < p.nSizeDigits)
    (move : lineNext p.state c = some next) : p.take lim c = p.goto next := by
  have sized := inSizeLine_of_lineNext move
  cases state : p.state with
  | size =>
    rw [state] at move
    have plain := hexValue_of_lineNext move
    simp only [lineNext] at move
    simp only [take, state, takeSize, plain, digits, and_true]
    by_cases ends : c = cr
    · rw [if_pos ends] at move ⊢
      rw [Option.some.inj move]
    · rw [if_neg ends] at move ⊢
      by_cases extended : c = semicolon
      · rw [if_pos extended] at move ⊢
        rw [Option.some.inj move]
      · rw [if_neg extended] at move ⊢
        by_cases blank : isBlank c = true
        · rw [if_pos blank] at move ⊢
          rw [Option.some.inj move]
        · rw [if_neg blank] at move
          cases move
  | sizeLf => exact absurd state sized.2
  | data | dataCr | dataLf | trailerStart | trailerLine | trailerLineLf | trailerEndLf | done =>
    rw [state] at sized
    cases sized.1
  | _ =>
    rw [state] at move
    simp only [lineNext] at move
    simp only [take, state, move]

theorem control_line (digits : 0 < p.nSizeDigits)
    (wire : p.nWire < lim.respMaxBytes) (room : p.nSizeLineBytes < lim.headerMaxBytes)
    (move : lineNext p.state c = some next) : p.control lim c = .ok (p.line next 1) := by
  rw [control, count_line (inSizeLine_of_lineNext move).1 wire room]
  simp only
  rw [@take_line lim (p.line p.state 1) next c digits move]
  rfl

theorem takes_control {q : Decoder} (state : ChunkState) (here : p.state = state)
    (running : state ≠ .done ∧ state ≠ .data) (controlled : p.control lim c = .ok q) :
    Machine.Takes (byte lim) p [c] q [] := by
  rw [← here] at running
  apply Machine.Takes.one
  rw [byte_control running.1 running.2, controlled]
  rfl

theorem running_of_inSizeLine (sized : state.inSizeLine = true) : state ≠ .done ∧ state ≠ .data := by
  constructor
  · rintro rfl
    cases sized
  · rintro rfl
    cases sized

theorem takes_walk {word : Bytes} (walk : Walk state word next)
    (here : p.state = state) (digits : 0 < p.nSizeDigits) (wire : p.nWire + word.length ≤ lim.respMaxBytes)
    (room : p.nSizeLineBytes + word.length ≤ lim.headerMaxBytes) :
    Machine.Takes (byte lim) p word (p.line next word.length) [] := by
  induction walk generalizing p with
  | nil state =>
    have same : p.line state 0 = p := by
      subst here
      rfl
    rw [List.length_nil, same]
    exact .nil p
  | @cons state next last c word move walk ih =>
    rw [List.length_cons] at wire room ⊢
    rw [← here] at move
    have running := running_of_inSizeLine (inSizeLine_of_lineNext move).1
    have first := takes_control p.state rfl running
      (@control_line lim p _ c digits (by omega) (by omega) move)
    have later := @ih (p.line next 1) rfl digits (by simp only [line]; omega) (by simp only [line]; omega)
    have same : (p.line next 1).line last word.length = p.line last (word.length + 1) := by
      simp only [line, Nat.add_assoc, Nat.add_comm 1]
    rw [same] at later
    exact first.append later

def sized (p : Decoder) (digits : List HexDigit) : Decoder :=
  { p with
    nChunkSize := hexFrom p.nChunkSize digits
    nSizeDigits := p.nSizeDigits + digits.length
    nWire := p.nWire + digits.length
    nSizeLineBytes := p.nSizeLineBytes + digits.length }

theorem le_hexFrom (size : Nat) (digits : List HexDigit) : size ≤ hexFrom size digits := by
  induction digits generalizing size with
  | nil => exact Nat.le_refl size
  | cons digit digits ih =>
    have later := ih (size * 16 + digit.value.val)
    rw [hexFrom, List.foldl_cons, ← hexFrom]
    omega

theorem takes_digits (digits : List HexDigit) (start : p.state = .size)
    (small : hexFrom p.nChunkSize digits ≤ lim.respMaxBytes)
    (wire : p.nWire + digits.length ≤ lim.respMaxBytes)
    (room : p.nSizeLineBytes + digits.length ≤ lim.headerMaxBytes) :
    Machine.Takes (byte lim) p (digits.map HexDigit.render) (p.sized digits) [] := by
  induction digits generalizing p with
  | nil => exact .nil p
  | cons digit digits ih =>
    rw [List.length_cons] at wire room
    rw [hexFrom, List.foldl_cons, ← hexFrom] at small
    have bound := le_hexFrom (p.nChunkSize * 16 + digit.value.val) digits
    have inside : p.state.inSizeLine = true := by
      rw [start]
      rfl
    have running := running_of_inSizeLine inside
    have fits : ¬ (lim.respMaxBytes - digit.value.val) / 16 < p.nChunkSize := by
      have few := digit.value.isLt
      omega
    have here : p.control lim digit.render = .ok (p.sized [digit]) := by
      rw [control, count_line inside (by omega) (by omega)]
      simp only [take, line, start, takeSize, chunkedHexValue_render, if_neg fits, sized]
      rfl
    have later := @ih (p.sized [digit]) start small (by simp only [sized, List.length_singleton]; omega)
      (by simp only [sized, List.length_singleton]; omega)
    have same : (p.sized [digit]).sized digits = p.sized (digit :: digits) := by
      simp only [sized, hexFrom, List.foldl_cons, List.foldl_nil, List.length_cons, List.length_nil,
        Nat.add_assoc, Nat.zero_add, Nat.add_comm 1]
    rw [same] at later
    exact (takes_control p.state rfl running here).append later

theorem sizeLine_eq (digits : List HexDigit) (exts : List ChunkExt) :
    sizeLine digits exts = (digits.map HexDigit.render ++ (exts.flatMap ChunkExt.render ++ [cr])) ++ [lf] := by
  simp only [sizeLine, List.append_assoc, List.cons_append, List.nil_append]

theorem takes_sizeLine {q : Decoder} (digits : List HexDigit) (exts : List ChunkExt)
    (start : p.state = .size) (filled : digits ≠ []) (small : hexFrom p.nChunkSize digits ≤ lim.respMaxBytes)
    (wire : p.nWire + (sizeLine digits exts).length ≤ lim.respMaxBytes)
    (room : p.nSizeLineBytes + (sizeLine digits exts).length ≤ lim.headerMaxBytes)
    (ends : ({ p with
      state := .sizeLf
      nChunkSize := hexFrom p.nChunkSize digits
      nSizeDigits := p.nSizeDigits + digits.length
      nWire := p.nWire + (sizeLine digits exts).length
      nSizeLineBytes := p.nSizeLineBytes + (sizeLine digits exts).length } : Decoder).takeSizeLf lim lf = .ok q) :
    Machine.Takes (byte lim) p (sizeLine digits exts) q [] := by
  obtain ⟨last, ready, walk⟩ := walk_exts (.inl rfl) exts
  have all := walk.append (walk_cr ready)
  have positive : 0 < digits.length := List.length_pos_iff.mpr filled
  have length : (sizeLine digits exts).length =
      digits.length + ((exts.flatMap ChunkExt.render ++ [cr]).length + 1) := by
    simp only [sizeLine, List.length_append, List.length_map, List.length_cons, List.length_nil]
  rw [length] at wire room ends
  have first := takes_digits digits start small (by omega) (by omega)
  have later := @takes_walk lim (p.sized digits) _ _ _ all start (by simp only [sized]; omega)
    (by simp only [sized]; omega) (by simp only [sized]; omega)
  have feed : ((p.sized digits).line .sizeLf (exts.flatMap ChunkExt.render ++ [cr]).length).control lim lf =
      .ok q := by
    rw [control, count_line rfl (by simp only [line, sized]; omega) (by simp only [line, sized]; omega),
      ← ends]
    simp only [take, line, sized, Nat.add_assoc]
  rw [sizeLine_eq]
  exact (first.append later).append (takes_control .sizeLf rfl (by decide) feed)

structure AtChunk (p : Decoder) : Prop where
  state : p.state = .size
  size : p.nChunkSize = 0
  digits : p.nSizeDigits = 0
  line : p.nSizeLineBytes = 0
  decoded : p.nDecoded ≤ p.nWire

theorem takes_dataEnd (here : p.state = .dataCr) (wire : p.nWire + 2 ≤ lim.respMaxBytes) :
    Machine.Takes (byte lim) p [cr, lf]
      { p with
        state := .size, nChunkSize := 0, nSizeDigits := 0, nSizeLineBytes := 0, nWire := p.nWire + 2 }
      [] := by
  have first : p.control lim cr = .ok { p with state := .dataLf, nWire := p.nWire + 1 } := by
    rw [control, count, if_neg (by omega), here]
    simp only [ChunkState.inSizeLine, ChunkState.inTrailer, Bool.false_eq_true, if_false, take]
    rfl
  have second : ({ p with state := .dataLf, nWire := p.nWire + 1 } : Decoder).control lim lf =
      .ok { p with
        state := .size, nChunkSize := 0, nSizeDigits := 0, nSizeLineBytes := 0, nWire := p.nWire + 2 } := by
    rw [control, count, if_neg (by simp only; omega)]
    rfl
  exact (takes_control .dataCr here (by decide) first).append (takes_control .dataLf rfl (by decide) second)

theorem takes_chunk (chunk : Chunk) (start : p.AtChunk)
    (wire : p.nWire + chunk.render.length ≤ lim.respMaxBytes)
    (room : (sizeLine chunk.digits chunk.exts).length ≤ lim.headerMaxBytes) :
    ∃ q, Machine.Takes (byte lim) p chunk.render q chunk.data ∧ q.AtChunk ∧
      q.nWire = p.nWire + chunk.render.length := by
  have length : chunk.render.length =
      (sizeLine chunk.digits chunk.exts).length + (chunk.data.length + 2) := by
    rw [Chunk.render, List.length_append, List.length_append]
    rfl
  have size : hexFrom p.nChunkSize chunk.digits = chunk.data.length := by
    rw [start.size, chunk.size]
  have positive : 0 < chunk.data.length := List.length_pos_iff.mpr chunk.filled
  have given : chunk.digits ≠ [] := by
    intro nothing
    have size := chunk.size
    rw [nothing] at size
    have zero : hexFrom 0 [] = 0 := rfl
    omega
  have decoded := start.decoded
  have lines := start.line
  -- the line feed of the size line opens the data
  obtain ⟨opened, line, inside, remaining, sent, same⟩ : ∃ opened : Decoder,
      Machine.Takes (byte lim) p (sizeLine chunk.digits chunk.exts) opened [] ∧ opened.state = .data ∧
        opened.nChunkRemaining = chunk.data.length ∧
        opened.nWire = p.nWire + (sizeLine chunk.digits chunk.exts).length ∧
        opened.nDecoded = p.nDecoded := by
    refine ⟨_, takes_sizeLine chunk.digits chunk.exts start.state given (by omega) (by omega) (by omega)
      (q := { p with
        state := .data
        nChunkSize := chunk.data.length
        nChunkRemaining := chunk.data.length
        nSizeDigits := p.nSizeDigits + chunk.digits.length
        nWire := p.nWire + (sizeLine chunk.digits chunk.exts).length
        nSizeLineBytes := p.nSizeLineBytes + (sizeLine chunk.digits chunk.exts).length }) ?_,
      rfl, rfl, rfl, rfl⟩
    rw [takeSizeLf, if_neg (by simp), size, if_neg (by simp only; omega), if_neg (by simp only; omega)]
  have fits : ¬ opened.Exceeds lim chunk.data.length := by
    simp only [Exceeds]
    omega
  have data : Machine.Takes (byte lim) opened chunk.data (opened.takeData chunk.data.length) chunk.data := by
    rw [Machine.Takes, run_data chunk.data inside positive (by omega), if_neg fits]
  have closed : (opened.takeData chunk.data.length).state = .dataCr := by
    simp only [takeData, remaining, Nat.sub_self, if_true]
  have close := @takes_dataEnd lim _ closed (by simp only [takeData]; omega)
  have all := line.append (data.append close)
  rw [List.append_nil, List.nil_append, ← Chunk.render] at all
  refine ⟨_, all, ⟨rfl, rfl, rfl, rfl, ?_⟩, ?_⟩
  · simp only [takeData]
    omega
  · simp only [takeData]
    omega

theorem takes_chunks (chunks : List Chunk) (start : p.AtChunk)
    (wire : p.nWire + (chunks.flatMap Chunk.render).length ≤ lim.respMaxBytes)
    (room : ∀ chunk ∈ chunks, (sizeLine chunk.digits chunk.exts).length ≤ lim.headerMaxBytes) :
    ∃ q, Machine.Takes (byte lim) p (chunks.flatMap Chunk.render) q (chunks.flatMap Chunk.data) ∧ q.AtChunk ∧
      q.nWire = p.nWire + (chunks.flatMap Chunk.render).length := by
  induction chunks generalizing p with
  | nil => exact ⟨p, .nil p, start, rfl⟩
  | cons chunk chunks ih =>
    obtain ⟨first, others⟩ := List.forall_mem_cons.mp room
    rw [List.flatMap_cons, List.length_append] at wire
    obtain ⟨middle, here, again, sent⟩ := takes_chunk chunk start (by omega) first
    obtain ⟨last, later, ended, all⟩ := ih again (by omega) others
    rw [List.flatMap_cons, List.flatMap_cons, List.length_append]
    exact ⟨last, here.append later, ended, by omega⟩

section trailers

structure Trailed (p q : Decoder) (bytes : Nat) : Prop where
  wire : q.nWire = p.nWire + bytes
  trailer : q.nTrailerBytes = p.nTrailerBytes + bytes

theorem Trailed.trans {q r : Decoder} {first more : Nat} (here : Trailed p q first)
    (later : Trailed q r more) : Trailed p r (first + more) :=
  ⟨by rw [later.wire, here.wire, Nat.add_assoc], by rw [later.trailer, here.trailer, Nat.add_assoc]⟩

structure Room (lim : Limits) (p : Decoder) (bytes : Nat) : Prop where
  wire : p.nWire + bytes ≤ lim.respMaxBytes
  trailer : p.nTrailerBytes + bytes ≤ lim.headerMaxBytes

theorem Room.rest {q : Decoder} {first more : Nat} (room : p.Room lim (first + more))
    (here : Trailed p q first) : q.Room lim more :=
  ⟨by rw [here.wire, Nat.add_assoc]; exact room.wire, by rw [here.trailer, Nat.add_assoc]; exact room.trailer⟩

theorem Room.front {first more : Nat} (room : p.Room lim (first + more)) : p.Room lim first :=
  ⟨Nat.le_trans (by omega) room.wire, Nat.le_trans (by omega) room.trailer⟩

theorem count_trailer (inside : p.state.inTrailer = true) (room : p.Room lim 1) :
    p.count lim = .ok { p with nWire := p.nWire + 1, nTrailerBytes := p.nTrailerBytes + 1 } := by
  have wire := room.wire
  have trailer := room.trailer
  have outside : p.state.inSizeLine ≠ true := by
    cases state : p.state <;> rw [state] at inside <;> first | decide | cases inside
  rw [count, if_neg (by omega), if_neg outside, if_pos inside, if_neg (by omega)]

structure InTrailer (p : Decoder) (colon : Bool) : Prop where
  state : p.state = .trailerLine
  named : p.nTrailerNameBytes ≠ 0
  line : p.nTrailerLineBytes ≤ p.nTrailerBytes
  colon : p.bTrailerColon = colon

def Leads (lim : Limits) (before : Bool) (c : UInt8) (after : Bool) : Prop :=
  ∀ p : Decoder, p.InTrailer before → p.Room lim 1 →
    ∃ q, Machine.Takes (byte lim) p [c] q [] ∧ q.InTrailer after ∧ Trailed p q 1

theorem control_trailerLine (c : UInt8) (here : p.state = .trailerLine) (room : p.Room lim 1) :
    p.control lim c =
      ({ p with nWire := p.nWire + 1, nTrailerBytes := p.nTrailerBytes + 1 } : Decoder).takeTrailerLine lim c := by
  rw [control, count_trailer (by rw [here]; rfl) room]
  simp only [take, here]

theorem leads_name (named : tchar c = true) : Leads lim false c false := by
  intro p inside room
  have trailer := room.trailer
  have line := inside.line
  have plain : c ≠ cr ∧ c ≠ lf ∧ c ≠ colon := by
    have all : ∀ n : Fin 256, tchar (UInt8.ofFin n) = true →
        UInt8.ofFin n ≠ cr ∧ UInt8.ofFin n ≠ lf ∧ UInt8.ofFin n ≠ colon := by decide +kernel
    exact all c.toFin named
  have controlled : p.control lim c = .ok { p with
      nWire := p.nWire + 1, nTrailerBytes := p.nTrailerBytes + 1,
      nTrailerLineBytes := p.nTrailerLineBytes + 1, nTrailerNameBytes := p.nTrailerNameBytes + 1 } := by
    rw [control_trailerLine c inside.state room, takeTrailerLine, if_neg (by simp only; omega),
      if_neg plain.1, if_neg plain.2.1, if_pos inside.colon, if_neg plain.2.2,
      if_neg (by rw [tokenChar_eq_tchar, named]; decide)]
  exact ⟨_, takes_control .trailerLine inside.state (by decide) controlled,
    ⟨inside.state, by simp only; omega, by simp only; omega, inside.colon⟩, ⟨rfl, rfl⟩⟩

theorem leads_colon : Leads lim false colon true := by
  intro p inside room
  have trailer := room.trailer
  have line := inside.line
  have controlled : p.control lim colon = .ok { p with
      nWire := p.nWire + 1, nTrailerBytes := p.nTrailerBytes + 1,
      nTrailerLineBytes := p.nTrailerLineBytes + 1, bTrailerColon := true } := by
    rw [control_trailerLine colon inside.state room, takeTrailerLine, if_neg (by simp only; omega),
      if_neg (by decide), if_neg (by decide), if_pos inside.colon, if_pos rfl, if_neg inside.named]
  exact ⟨_, takes_control .trailerLine inside.state (by decide) controlled,
    ⟨inside.state, inside.named, by simp only; omega, rfl⟩, ⟨rfl, rfl⟩⟩

theorem leads_value (text : textChar c = true) : Leads lim true c true := by
  intro p inside room
  have trailer := room.trailer
  have line := inside.line
  have plain : c ≠ cr ∧ c ≠ lf ∧ ¬ ((c < 0x20 ∧ c ≠ 0x09) ∨ c = 0x7f) := by
    have all : ∀ n : Fin 256, textChar (UInt8.ofFin n) = true →
        UInt8.ofFin n ≠ cr ∧ UInt8.ofFin n ≠ lf ∧
          ¬ ((UInt8.ofFin n < 0x20 ∧ UInt8.ofFin n ≠ 0x09) ∨ UInt8.ofFin n = 0x7f) := by decide +kernel
    exact all c.toFin text
  have behind : ¬ p.bTrailerColon = false := by
    rw [inside.colon]
    decide
  have controlled : p.control lim c = .ok { p with
      nWire := p.nWire + 1, nTrailerBytes := p.nTrailerBytes + 1,
      nTrailerLineBytes := p.nTrailerLineBytes + 1 } := by
    rw [control_trailerLine c inside.state room, takeTrailerLine, if_neg (by simp only; omega),
      if_neg plain.1, if_neg plain.2.1, if_neg behind, if_neg plain.2.2]
  exact ⟨_, takes_control .trailerLine inside.state (by decide) controlled,
    ⟨inside.state, inside.named, by simp only; omega, inside.colon⟩, ⟨rfl, rfl⟩⟩

theorem takes_text {part : Bool} {word : Bytes} (leads : ∀ c ∈ word, Leads lim part c part)
    (inside : p.InTrailer part) (room : p.Room lim word.length) :
    ∃ q, Machine.Takes (byte lim) p word q [] ∧ q.InTrailer part ∧ Trailed p q word.length := by
  induction word generalizing p with
  | nil => exact ⟨p, .nil p, inside, ⟨rfl, rfl⟩⟩
  | cons c word ih =>
    obtain ⟨first, others⟩ := List.forall_mem_cons.mp leads
    rw [List.length_cons, Nat.add_comm] at room
    obtain ⟨middle, here, still, one⟩ := first p inside room.front
    obtain ⟨last, later, ended, more⟩ := ih others still (room.rest one)
    rw [List.length_cons, Nat.add_comm]
    exact ⟨last, here.append later, ended, one.trans more⟩

theorem takes_trailerLf (here : p.state = state) (room : p.Room lim 1)
    (ends : (state = .trailerLineLf ∧ next = .trailerStart) ∨ (state = .trailerEndLf ∧ next = .done)) :
    ∃ q, Machine.Takes (byte lim) p [lf] q [] ∧ q.state = next ∧ Trailed p q 1 := by
  have inside : p.state.inTrailer = true := by
    rcases ends with ⟨rfl, _⟩ | ⟨rfl, _⟩ <;> rw [here] <;> rfl
  have controlled : p.control lim lf = .ok { p with
      state := next, nWire := p.nWire + 1, nTrailerBytes := p.nTrailerBytes + 1 } := by
    rw [control, count_trailer inside room]
    rcases ends with ⟨rfl, rfl⟩ | ⟨rfl, rfl⟩ <;> simp only [take, here] <;> rfl
  exact ⟨_, takes_control state here (by rcases ends with ⟨rfl, _⟩ | ⟨rfl, _⟩ <;> decide) controlled,
    rfl, ⟨rfl, rfl⟩⟩

theorem takes_trailerCr (inside : p.InTrailer true) (room : p.Room lim 1) :
    ∃ q, Machine.Takes (byte lim) p [cr] q [] ∧ q.state = .trailerLineLf ∧ Trailed p q 1 := by
  have trailer := room.trailer
  have line := inside.line
  have controlled : p.control lim cr = .ok { p with
      nWire := p.nWire + 1, nTrailerBytes := p.nTrailerBytes + 1,
      nTrailerLineBytes := p.nTrailerLineBytes + 1, state := .trailerLineLf } := by
    rw [control_trailerLine cr inside.state room, takeTrailerLine, if_neg (by simp only; omega),
      if_pos rfl, if_neg (by simp [inside.colon, inside.named])]
  exact ⟨_, takes_control .trailerLine inside.state (by decide) controlled, rfl, ⟨rfl, rfl⟩⟩

theorem takes_trailerStart (named : tchar c = true) (here : p.state = .trailerStart)
    (room : p.Room lim 1) : ∃ q, Machine.Takes (byte lim) p [c] q [] ∧ q.InTrailer false ∧ Trailed p q 1 := by
  have plain : c ≠ cr ∧ c ≠ lf := by
    have all : ∀ n : Fin 256, tchar (UInt8.ofFin n) = true →
        UInt8.ofFin n ≠ cr ∧ UInt8.ofFin n ≠ lf := by decide +kernel
    exact all c.toFin named
  have controlled : p.control lim c = .ok { p with
      nWire := p.nWire + 1, nTrailerBytes := p.nTrailerBytes + 1, state := .trailerLine,
      nTrailerLineBytes := 1, nTrailerNameBytes := 1, bTrailerColon := false } := by
    rw [control, count_trailer (by rw [here]; rfl) room]
    simp only [take, here]
    rw [takeTrailerStart, if_neg plain.1,
      if_neg (by simp [plain.2, tokenChar_eq_tchar, named])]
  exact ⟨_, takes_control .trailerStart here (by decide) controlled,
    ⟨rfl, Nat.one_ne_zero, by simp only; omega, rfl⟩, ⟨rfl, rfl⟩⟩

theorem takes_field (field : Field) (here : p.state = .trailerStart) (room : p.Room lim field.render.length) :
    ∃ q, Machine.Takes (byte lim) p field.render q [] ∧ q.state = .trailerStart ∧
      Trailed p q field.render.length := by
  have length : field.render.length =
      1 + (field.name.rest.length + (1 + (field.value.length + (1 + 1)))) := by
    simp only [Field.render, Token.render, List.length_append, List.length_cons, List.length_nil]
    omega
  rw [length] at room ⊢
  obtain ⟨named, one, inName, first⟩ := takes_trailerStart field.name.chars.1 here room.front
  have room := room.rest first
  obtain ⟨full, two, stillName, second⟩ := takes_text
    (fun c member => leads_name (field.name.chars.2 c member)) inName room.front
  have room := room.rest second
  obtain ⟨parted, three, inValue, third⟩ := leads_colon full stillName room.front
  have room := room.rest third
  obtain ⟨valued, four, stillValue, fourth⟩ := takes_text
    (fun c member => leads_value (field.chars c member)) inValue room.front
  have room := room.rest fourth
  obtain ⟨turned, five, returned, fifth⟩ := takes_trailerCr stillValue room.front
  have room := room.rest fifth
  obtain ⟨last, six, ended, sixth⟩ := takes_trailerLf returned room (.inl ⟨rfl, rfl⟩)
  refine ⟨last, ?_, ended, first.trans (second.trans (third.trans (fourth.trans (fifth.trans sixth))))⟩
  exact one.append (two.append (three.append (four.append (five.append six))))

theorem takes_fields (fields : List Field) (here : p.state = .trailerStart)
    (room : p.Room lim (fields.flatMap Field.render).length) :
    ∃ q, Machine.Takes (byte lim) p (fields.flatMap Field.render) q [] ∧ q.state = .trailerStart ∧
      Trailed p q (fields.flatMap Field.render).length := by
  induction fields generalizing p with
  | nil => exact ⟨p, .nil p, here, ⟨rfl, rfl⟩⟩
  | cons field fields ih =>
    rw [List.flatMap_cons, List.length_append] at room ⊢
    obtain ⟨middle, first, again, one⟩ := takes_field field here room.front
    obtain ⟨last, later, ended, more⟩ := ih again (room.rest one)
    exact ⟨last, first.append later, ended, one.trans more⟩

theorem takes_emptyLine (here : p.state = .trailerStart) (room : p.Room lim 1) :
    ∃ q, Machine.Takes (byte lim) p [cr] q [] ∧ q.state = .trailerEndLf ∧ Trailed p q 1 := by
  have controlled : p.control lim cr = .ok { p with
      nWire := p.nWire + 1, nTrailerBytes := p.nTrailerBytes + 1, state := .trailerEndLf } := by
    rw [control, count_trailer (by rw [here]; rfl) room]
    simp only [take, here]
    rw [takeTrailerStart, if_pos rfl]
    rfl
  exact ⟨_, takes_control .trailerStart here (by decide) controlled, rfl, ⟨rfl, rfl⟩⟩

theorem takes_trailerSection (body : ChunkedBody) (here : p.state = .trailerStart)
    (room : p.Room lim body.trailerSection.length) :
    ∃ q, Machine.Takes (byte lim) p body.trailerSection q [] ∧ q.state = .done := by
  have length : body.trailerSection.length =
      (body.trailers.flatMap Field.render).length + (1 + 1) := by
    rw [ChunkedBody.trailerSection, List.length_append]
    rfl
  rw [length] at room
  obtain ⟨ended, fields, again, first⟩ := takes_fields body.trailers here room.front
  have room := room.rest first
  obtain ⟨turned, back, returned, second⟩ := takes_emptyLine again room.front
  obtain ⟨last, feed, done, _⟩ := takes_trailerLf returned (room.rest second) (.inr ⟨rfl, rfl⟩)
  exact ⟨last, fields.append (back.append feed), done⟩

end trailers

theorem hexFrom_zeros (count : Nat) : hexFrom 0 (List.replicate count ⟨0, false⟩) = 0 := by
  induction count with
  | zero => rfl
  | succ count ih =>
    rw [List.replicate_succ, hexFrom, List.foldl_cons]
    exact ih

theorem takes_body (body : ChunkedBody) (within : body.Within lim) :
    ∃ q, Machine.Takes (byte lim) {} body.render q body.data ∧ q.state = .done := by
  have wire := within.wire
  rw [ChunkedBody.render, List.length_append, List.length_append] at wire
  have start : AtChunk {} := ⟨rfl, rfl, rfl, rfl, Nat.le_refl 0⟩
  have zero : ({} : Decoder).nWire = 0 := rfl
  obtain ⟨chunked, chunks, again, sent⟩ := takes_chunks body.chunks start (by omega) within.lines
  have size : hexFrom chunked.nChunkSize body.zeros = 0 := by
    rw [again.size]
    exact hexFrom_zeros _
  have lines := again.line
  have lastLine := within.lastLine
  obtain ⟨ended, line, here, counted, fresh⟩ : ∃ ended : Decoder,
      Machine.Takes (byte lim) chunked (sizeLine body.zeros body.lastExts) ended [] ∧
        ended.state = .trailerStart ∧
        ended.nWire = chunked.nWire + (sizeLine body.zeros body.lastExts).length ∧
        ended.nTrailerBytes = 0 := by
    refine ⟨_, takes_sizeLine body.zeros body.lastExts again.state (List.cons_ne_nil _ _) (by omega)
      (by omega) (by omega)
      (q := { chunked with
        state := .trailerStart
        nChunkSize := 0
        nSizeDigits := chunked.nSizeDigits + body.zeros.length
        nWire := chunked.nWire + (sizeLine body.zeros body.lastExts).length
        nSizeLineBytes := chunked.nSizeLineBytes + (sizeLine body.zeros body.lastExts).length
        nTrailerBytes := 0 }) ?_,
      rfl, rfl, rfl⟩
    rw [takeSizeLf, if_neg (by simp), if_pos size, size]
  obtain ⟨last, trailers, done⟩ := @takes_trailerSection lim ended body here
    ⟨by omega, by rw [fresh, Nat.zero_add]; exact within.trailers⟩
  have all := chunks.append (line.append trailers)
  rw [List.append_nil, List.append_nil, ← ChunkedBody.render, ← ChunkedBody.data] at all
  exact ⟨last, all, done⟩

theorem run_done (ended : p.state = .done) (c : UInt8) (rest : Bytes) :
    Machine.run (byte lim) p (c :: rest) = .error .protocol := by
  rw [Machine.run, byte, if_pos ended]

theorem not_done_of_takes {front rest out : Bytes} {q : Decoder}
    (whole : Machine.Takes (byte lim) p (front ++ rest) q out) (more : rest ≠ []) :
    ∃ middle first, Machine.Takes (byte lim) p front middle first ∧ middle.state ≠ .done := by
  obtain ⟨middle, first, later, here, next, _⟩ := Machine.takes_append_iff.mp whole
  refine ⟨middle, first, here, ?_⟩
  intro ended
  cases rest with
  | nil => exact more rfl
  | cons c rest =>
    rw [Machine.Takes, run_done ended] at next
    cases next

end Decoder

end RusqDoltlite.Http

import RusqDoltlite.Http.Chunked

/-! The decoder as a machine over single bytes: the bytes of a chunk that are taken at once might as
well be taken one at a time. -/

namespace RusqDoltlite.Http

open Wire

namespace Decoder

def control (lim : Limits) (p : Decoder) (c : UInt8) : Except Code Decoder :=
  match p.count lim with
  | .error e => .error e
  | .ok counted => counted.take lim c

def Exceeds (lim : Limits) (p : Decoder) (nTake : Nat) : Prop :=
  lim.respMaxBytes < p.nWire + nTake ∨ lim.respMaxBytes < p.nDecoded + nTake

instance (lim : Limits) (p : Decoder) (nTake : Nat) :
    Decidable (p.Exceeds lim nTake) :=
  inferInstanceAs (Decidable (_ ∨ _))

def quiet (result : Except Code Decoder) : Except Code (Decoder × Bytes) := result.map fun p => (p, [])

def byte (lim : Limits) : Machine Decoder UInt8 UInt8 Code := fun p c =>
  if p.state = .done then .error .protocol
  else if p.state = .data then
    if p.Exceeds lim (min 1 p.nChunkRemaining) then .error .tooBig
    else if p.nChunkRemaining = 0 then quiet ((p.takeData 0).control lim c)
    else .ok (p.takeData 1, [c])
  else quiet (p.control lim c)

variable {lim : Limits} {p : Decoder}

theorem byte_data (inside : p.state = .data) (more : 0 < p.nChunkRemaining) (c : UInt8) :
    byte lim p c = if p.Exceeds lim 1 then .error .tooBig else .ok (p.takeData 1, [c]) := by
  have one : min 1 p.nChunkRemaining = 1 := by omega
  have going : p.state ≠ .done := by
    rw [inside]
    decide
  rw [byte, if_neg going, if_pos inside, one, if_neg (show p.nChunkRemaining ≠ 0 by omega)]

theorem byte_control (running : p.state ≠ .done) (outside : p.state ≠ .data) (c : UInt8) :
    byte lim p c = quiet (p.control lim c) := by
  rw [byte, if_neg running, if_neg outside]

theorem run_control (running : p.state ≠ .done) (outside : p.state ≠ .data) (c : UInt8) (rest : Bytes) :
    Machine.run (byte lim) p (c :: rest) =
      match p.control lim c with
      | .error e => .error e
      | .ok next => Machine.run (byte lim) next rest := by
  rw [Machine.run, byte_control running outside]
  cases p.control lim c with
  | error e => rfl
  | ok next =>
    simp only [quiet, Except.map, List.nil_append]
    cases Machine.run (byte lim) next rest <;> rfl

theorem takeData_takeData {first more : Nat} (inside : first < p.nChunkRemaining) :
    (p.takeData first).takeData more = p.takeData (first + more) := by
  have still : ¬ p.nChunkRemaining - first = 0 := by omega
  simp only [takeData, still, if_false, Nat.sub_sub, Nat.add_assoc]

theorem run_data (word : Bytes) (inside : p.state = .data) (more : 0 < word.length)
    (all : word.length ≤ p.nChunkRemaining) :
    Machine.run (byte lim) p word =
      if p.Exceeds lim word.length then .error .tooBig else .ok (p.takeData word.length, word) := by
  induction word generalizing p with
  | nil => cases more
  | cons c word ih =>
    rw [List.length_cons] at all ⊢
    rw [Machine.run, byte_data inside (by omega)]
    by_cases exceeds : p.Exceeds lim 1
    · rw [if_pos exceeds, if_pos]
      simp only [Exceeds] at exceeds ⊢
      omega
    · rw [if_neg exceeds]
      simp only
      by_cases last : word = []
      · subst last
        rw [List.length_nil, Nat.zero_add, if_neg exceeds]
        rfl
      · have longer : 0 < word.length := List.length_pos_iff.mpr last
        have still : ¬ p.nChunkRemaining - 1 = 0 := by omega
        have later := @ih (p.takeData 1) (by simp only [takeData, still, if_false, inside]) longer
          (by simp only [takeData]; omega)
        have same : (p.takeData 1).Exceeds lim word.length ↔ p.Exceeds lim (word.length + 1) := by
          simp only [Exceeds, takeData]
          omega
        rw [later, takeData_takeData (by omega), Nat.add_comm 1]
        by_cases beyond : p.Exceeds lim (word.length + 1)
        · rw [if_pos beyond, if_pos (same.mpr beyond)]
          rfl
        · rw [if_neg beyond, if_neg (same.not.mpr beyond)]
          rfl

theorem run_bulk (inside : p.state = .data) (c : UInt8) (rest : Bytes) :
    Machine.run (byte lim) p (c :: rest) =
      if p.Exceeds lim (min (rest.length + 1) p.nChunkRemaining) then .error .tooBig
      else (Machine.run (byte lim) (p.takeData (min (rest.length + 1) p.nChunkRemaining))
          ((c :: rest).drop (min (rest.length + 1) p.nChunkRemaining))).map fun last =>
        (last.1, (c :: rest).take (min (rest.length + 1) p.nChunkRemaining) ++ last.2) := by
  have going : p.state ≠ .done := by
    rw [inside]
    decide
  by_cases ends : p.nChunkRemaining = 0
  · -- a chunk without data left: the byte is taken in the next state
    have turned : (p.takeData 0).state = .dataCr := by
      simp only [takeData, ends, Nat.sub_self, if_true]
    rw [ends, Nat.min_zero, List.drop_zero, List.take_zero, Machine.run, byte, if_neg going,
      if_pos inside, ends, Nat.min_zero]
    by_cases exceeds : p.Exceeds lim 0
    · rw [if_pos exceeds, if_pos exceeds]
    · have here := @byte_control lim (p.takeData 0) (by rw [turned]; decide) (by rw [turned]; decide) c
      rw [if_neg exceeds, if_neg exceeds, if_pos rfl, Machine.run, here]
      cases quiet ((p.takeData 0).control lim c) with
      | error e => rfl
      | ok next =>
        simp only
        cases Machine.run (byte lim) next.1 rest <;> rfl
  · have length : ((c :: rest).take (min (rest.length + 1) p.nChunkRemaining)).length =
        min (rest.length + 1) p.nChunkRemaining := by
      rw [List.length_take, List.length_cons]
      omega
    have front := @run_data lim p ((c :: rest).take (min (rest.length + 1) p.nChunkRemaining)) inside
      (by omega) (by omega)
    rw [length] at front
    have parts := @Machine.run_append _ _ _ _ (byte lim) p
      ((c :: rest).take (min (rest.length + 1) p.nChunkRemaining))
      ((c :: rest).drop (min (rest.length + 1) p.nChunkRemaining))
    rw [List.take_append_drop, front] at parts
    rw [parts]
    by_cases exceeds : p.Exceeds lim (min (rest.length + 1) p.nChunkRemaining)
    · rw [if_pos exceeds, if_pos exceeds]
    · rw [if_neg exceeds, if_neg exceeds]

/-- The loop does what the machine does, as long as there is room for what it produces. -/
theorem feedLoop_eq_run (nOutMax : Option Nat) (out input : Bytes)
    (room : ∀ room ∈ nOutMax, out.length + input.length ≤ room) :
    p.feedLoop lim nOutMax out input =
      (Machine.run (byte lim) p input).map fun last => (last.1, out ++ last.2) := by
  induction p, out, input using feedLoop.induct lim nOutMax with
  | case1 p out =>
    rw [feedLoop, Machine.run]
    simp only [Except.map, List.append_nil]
  | case2 p out c rest ended =>
    rw [feedLoop, if_pos ended, Machine.run, byte, if_pos ended]
    rfl
  | case3 p out c rest going inside nTake exceeds =>
    have beyond : p.Exceeds lim nTake := exceeds
    rw [feedLoop, if_neg going, if_pos inside, run_bulk inside, if_pos beyond, if_pos exceeds]
    rfl
  | case4 p out c rest going inside nTake fits full =>
    obtain ⟨most, isMost, beyond⟩ := full
    have enough := room most isMost
    rw [List.length_cons] at enough
    omega
  | case5 p out c rest going inside nTake fits free ih =>
    have within : ¬ p.Exceeds lim nTake := fits
    have later := ih (by
      intro most isMost
      have enough := room most isMost
      rw [List.length_append, List.length_take, List.length_drop]
      rw [List.length_cons] at enough ⊢
      omega)
    rw [feedLoop, if_neg going, if_pos inside, run_bulk inside, if_neg within, if_neg fits,
      if_neg free, later]
    cases Machine.run (byte lim) (p.takeData nTake) ((c :: rest).drop nTake) with
    | error e => rfl
    | ok last =>
      simp only [Except.map, List.append_assoc]
      rfl
  | case6 p out c rest going outside e counting =>
    rw [feedLoop, if_neg going, if_neg outside, counting, run_control going outside, control, counting]
    rfl
  | case7 p out c rest going outside counted counting e taking =>
    rw [feedLoop, if_neg going, if_neg outside, counting, run_control going outside, control, counting]
    simp only [taking]
    rfl
  | case8 p out c rest going outside counted counting next taking ih =>
    have later := ih (by
      intro most isMost
      have enough := room most isMost
      rw [List.length_cons] at enough
      omega)
    rw [feedLoop, if_neg going, if_neg outside, counting, run_control going outside, control, counting]
    simp only [taking, later]

theorem feedLoop_unbounded {nOutMax : Option Nat} {out input : Bytes} {result : Decoder × Bytes}
    (taken : p.feedLoop lim nOutMax out input = .ok result) :
    p.feedLoop lim none out input = .ok result := by
  induction p, out, input using feedLoop.induct lim nOutMax with
  | case1 p out =>
    rw [feedLoop] at taken ⊢
    exact taken
  | case2 p out c rest ended =>
    rw [feedLoop, if_pos ended] at taken
    cases taken
  | case3 p out c rest going inside nTake exceeds =>
    rw [feedLoop, if_neg going, if_pos inside, if_pos exceeds] at taken
    cases taken
  | case4 p out c rest going inside nTake fits full =>
    rw [feedLoop, if_neg going, if_pos inside, if_neg fits, if_pos full] at taken
    cases taken
  | case5 p out c rest going inside nTake fits free ih =>
    have unbounded : ¬ ∃ room ∈ (none : Option Nat), room < out.length + nTake := by simp
    rw [feedLoop, if_neg going, if_pos inside, if_neg fits, if_neg free] at taken
    rw [feedLoop, if_neg going, if_pos inside, if_neg fits, if_neg unbounded]
    exact ih taken
  | case6 p out c rest going outside e counting =>
    rw [feedLoop, if_neg going, if_neg outside, counting] at taken
    cases taken
  | case7 p out c rest going outside counted counting e taking =>
    rw [feedLoop, if_neg going, if_neg outside, counting] at taken
    simp only [taking] at taken
    cases taken
  | case8 p out c rest going outside counted counting next taking ih =>
    rw [feedLoop, if_neg going, if_neg outside, counting] at taken ⊢
    simp only [taking] at taken ⊢
    exact ih taken

def feeds (p : Decoder) : List (Bytes × Option Nat) → Except Code (Decoder × Bytes)
  | [] => .ok (p, [])
  | piece :: pieces =>
    match chunkedDecoderFeed p piece.1 piece.2 with
    | .error e => .error e
    | .ok fed => (feeds fed.decoder pieces).map fun last => (last.1, fed.out ++ last.2)

def Roomy (piece : Bytes × Option Nat) : Prop := ∀ room ∈ piece.2, piece.1.length ≤ room

theorem feed_eq_run (p : Decoder) {piece : Bytes × Option Nat} (room : Roomy piece) :
    chunkedDecoderFeed p piece.1 piece.2 = (Machine.run (byte httpLimits) p piece.1).map fun last =>
      ⟨last.1, last.2, last.1.state == .done⟩ := by
  rw [chunkedDecoderFeed, feedLoop_eq_run piece.2 [] piece.1 (by simpa [Roomy] using room)]
  cases Machine.run (byte httpLimits) p piece.1 <;> rfl

theorem takes_of_feed {input : Bytes} {nOutMax : Option Nat} {fed : Fed}
    (finished : chunkedDecoderFeed p input nOutMax = .ok fed) :
    Machine.Takes (byte httpLimits) p input fed.decoder fed.out ∧
      fed.bDone = (fed.decoder.state == .done) := by
  rw [chunkedDecoderFeed] at finished
  cases taken : p.feedLoop httpLimits nOutMax [] input with
  | error e =>
    rw [taken] at finished
    cases finished
  | ok last =>
    rw [taken] at finished
    cases finished
    have same := feedLoop_unbounded taken
    rw [feedLoop_eq_run none [] input (by simp)] at same
    refine ⟨?_, rfl⟩
    cases ran : Machine.run (byte httpLimits) p input with
    | error e =>
      rw [ran] at same
      cases same
    | ok end_ =>
      rw [ran] at same
      cases same
      exact ran

theorem feeds_eq_run (p : Decoder) {pieces : List (Bytes × Option Nat)}
    (room : ∀ piece ∈ pieces, Roomy piece) :
    p.feeds pieces = Machine.run (byte httpLimits) p (pieces.map Prod.fst).flatten := by
  rw [← Machine.runs_eq_run_flatten]
  induction pieces generalizing p with
  | nil => rfl
  | cons piece pieces ih =>
    rw [feeds, List.map_cons, Machine.runs, feed_eq_run p (room piece List.mem_cons_self)]
    cases Machine.run (byte httpLimits) p piece.1 with
    | error e => rfl
    | ok next =>
      simp only [Except.map]
      rw [ih next.1 fun other member => room other (List.mem_cons_of_mem piece member)]

end Decoder

end RusqDoltlite.Http

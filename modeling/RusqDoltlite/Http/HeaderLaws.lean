import RusqDoltlite.Http.Response

/-! The header section of a response ends where it first has an empty line, and what follows it does not
matter for what it says. -/

namespace RusqDoltlite.Http

theorem endsAt_drop (buf : Bytes) (first i : Nat) : endsAt (buf.drop first) i = endsAt buf (first + i) := by
  rw [endsAt, endsAt, List.drop_drop]

variable {i : Nat} {raw head : Bytes} {fields : Fields}

theorem endsAt_append {buf : Bytes} (inside : i + 4 ≤ buf.length) (more : Bytes) :
    endsAt (buf ++ more) i = endsAt buf i := by
  rw [endsAt, endsAt, List.drop_append_of_le_length (by omega), List.take_append_of_le_length (by simp; omega)]

theorem length_of_endsAt {buf : Bytes} (ends : endsAt buf i = true) : i + 4 ≤ buf.length := by
  have four := congrArg List.length (beq_iff_eq.mp ends)
  simp only [List.length_take, List.length_drop, List.length_cons, List.length_nil] at four
  omega

/-- A header section: it has its end at this position, behind which nothing follows, and none before. -/
structure Head (head : Bytes) (i : Nat) : Prop where
  length : head.length = i + 4
  ends : endsAt head i = true
  first : ∀ j, j < i → endsAt head j = false

namespace Head

variable {head : Bytes} {i : Nat}

theorem drop (here : Head head i) {first : Nat} (inside : first ≤ i) : Head (head.drop first) (i - first) := by
  refine ⟨?_, ?_, ?_⟩
  · rw [List.length_drop, here.length]
    omega
  · rw [endsAt_drop, Nat.add_sub_cancel' inside]
    exact here.ends
  · intro j before
    rw [endsAt_drop]
    exact here.first (first + j) (by omega)

theorem tail (here : Head head i) : head.drop i = [cr, lf, cr, lf] := by
  have all : (head.drop i).length = 4 := by
    rw [List.length_drop, here.length]
    omega
  have ends := beq_iff_eq.mp here.ends
  rwa [List.take_of_length_le (Nat.le_of_eq all)] at ends

theorem split (here : Head head i) : head = head.take i ++ [cr, lf, cr, lf] := by
  rw [← here.tail, List.take_append_drop]

end Head

theorem splitLine_append {parts : Bytes × Bytes} (found : splitLine raw = some parts) (more : Bytes) :
    splitLine (raw ++ more) = some (parts.1, parts.2 ++ more) := by
  induction raw generalizing parts with
  | nil => cases found
  | cons c rest ih =>
    rw [splitLine] at found
    rw [List.cons_append, splitLine]
    split at found
    · next ends =>
        cases found
        cases rest with
        | nil => cases ends.2
        | cons d later => rw [if_pos ⟨ends.1, by simpa using ends.2⟩]; rfl
    · next goes =>
        obtain ⟨later, inner, rfl⟩ := Option.map_eq_some_iff.mp found
        have goes' : ¬ (c = cr ∧ (rest ++ more).head? = some lf) := by
          intro both
          cases rest with
          | nil => cases inner
          | cons d later => exact goes ⟨both.1, by simpa using both.2⟩
        rw [if_neg goes', ih inner]
        rfl

theorem splitLine_of_mem (front rest : Bytes) :
    ∃ parts, splitLine (front ++ cr :: lf :: rest) = some parts ∧ parts.1.length ≤ front.length ∧
      front ++ cr :: lf :: rest = parts.1 ++ cr :: lf :: parts.2 := by
  induction front with
  | nil => exact ⟨([], rest), by rw [List.nil_append, splitLine, if_pos ⟨rfl, rfl⟩]; rfl, Nat.le_refl _, rfl⟩
  | cons c front ih =>
    obtain ⟨parts, found, before, same⟩ := ih
    rw [List.cons_append, splitLine]
    split
    · next ends =>
        refine ⟨_, rfl, Nat.zero_le _, ?_⟩
        cases whole : front ++ cr :: lf :: rest with
        | nil => simp at whole
        | cons d later =>
          rw [whole] at ends
          rw [ends.1, show d = lf by simpa using ends.2]
          rfl
    · rw [found]
      refine ⟨(c :: parts.1, parts.2), rfl, ?_, ?_⟩
      · simpa using before
      · rw [same]
        rfl

inductive Terminated : Bytes → Prop
  | blank : Terminated [cr, lf]
  | line {raw : Bytes} {parts : Bytes × Bytes} : raw.take 2 ≠ [cr, lf] → splitLine raw = some parts →
      Terminated parts.2 → Terminated raw

theorem readFields_eq (fields : Fields) (raw : Bytes) :
    readFields fields raw =
      if raw.take 2 = [cr, lf] then .ok (fields, raw.drop 2)
      else
        match splitLine raw with
        | none => .error .protocol
        | some parts =>
          match fields.take parts.1 with
          | .error code => .error code
          | .ok next => readFields next parts.2 := by
  rw [readFields]
  split
  · rfl
  · split
    · next absent => rw [absent]
    · next parts found =>
      rewrite [found]
      rfl

theorem readFields_append (lines : Terminated raw) (fields : Fields) (more : Bytes) :
    readFields fields (raw ++ more) = (readFields fields raw).map fun last => (last.1, more) := by
  induction lines generalizing fields with
  | blank =>
    have blank : ([cr, lf] ++ more).take 2 = [cr, lf] := rfl
    rw [readFields_eq, readFields_eq fields [cr, lf], if_pos blank,
      if_pos (show [cr, lf].take 2 = [cr, lf] from rfl)]
    rfl
  | @line raw parts goes found lines ih =>
    have length := splitLine_length found
    have goes' : (raw ++ more).take 2 ≠ [cr, lf] := by
      rwa [List.take_append_of_le_length (by omega)]
    rw [readFields_eq, readFields_eq fields raw, if_neg goes', if_neg goes, found, splitLine_append found more]
    cases taken : fields.take parts.1 with
    | error code =>
      simp only [taken]
      rfl
    | ok next =>
      simp only [taken]
      exact ih next

theorem readFields_rest (lines : Terminated raw) {last : Fields × Bytes}
    (read : readFields fields raw = .ok last) : last.2 = [] := by
  have same := readFields_append lines fields []
  rw [List.append_nil, read] at same
  exact (Prod.mk.inj (Except.ok.inj same)).2

theorem Head.terminated (here : Head (cr :: lf :: raw) i) : Terminated raw := by
  induction size : raw.length using Nat.strongRecOn generalizing raw i with
  | ind count ih =>
    by_cases start : i = 0
    · have all := here.tail
      rw [start, List.drop_zero] at all
      have same : raw = [cr, lf] := (List.cons.inj (List.cons.inj all).2).2
      rw [same]
      exact .blank
    · have second : i ≠ 1 := by
        intro one
        have all := here.tail
        rw [one, List.drop_succ_cons, List.drop_zero] at all
        exact absurd (List.cons.inj all).1 (by decide)
      have goes : raw.take 2 ≠ [cr, lf] := by
        intro blank
        have early := here.first 0 (by omega)
        simp [endsAt, blank] at early
      have length := here.length
      have inside : raw.drop (i - 2) = [cr, lf, cr, lf] := by
        have all := here.tail
        rwa [show i = (i - 2) + 2 by omega, List.drop_succ_cons, List.drop_succ_cons] at all
      obtain ⟨parts, found, before, same⟩ := splitLine_of_mem (raw.take (i - 2)) [cr, lf]
      rw [← inside, List.take_append_drop] at found same
      rw [List.length_take] at before
      have behind : (cr :: lf :: raw).drop (2 + parts.1.length) = cr :: lf :: parts.2 := by
        rw [same, ← List.drop_drop, List.drop_succ_cons, List.drop_succ_cons, List.drop_zero, List.drop_left]
      have later : Head (cr :: lf :: parts.2) (i - (2 + parts.1.length)) := by
        rw [← behind]
        exact here.drop (by omega)
      have shorter := splitLine_length found
      exact .line goes found (ih _ (by omega) later rfl)

theorem Head.word (here : Head head i) : (head.takeWhile inWord).length ≤ i := by
  have length : (head.take i).length = i := by
    rw [List.length_take, here.length]
    omega
  rw [here.split, List.takeWhile_append]
  split
  · have stop : [cr, lf, cr, lf].takeWhile inWord = [] := by decide
    rw [stop, List.append_nil]
    exact Nat.le_of_eq length
  · exact Nat.le_trans (List.takeWhile_sublist inWord).length_le (Nat.le_of_eq length)

theorem Head.word_append (here : Head head i) (more : Bytes) :
    (head ++ more).takeWhile inWord = head.takeWhile inWord := by
  have word := here.word
  have length := here.length
  rw [List.takeWhile_append, if_neg (by omega)]

theorem Head.line (here : Head raw i) :
    ∃ parts, splitLine raw = some parts ∧ Terminated parts.2 := by
  obtain ⟨parts, found, before, same⟩ := splitLine_of_mem (raw.take i) [cr, lf]
  rw [← here.split] at found same
  have length := here.length
  rw [List.length_take] at before
  have behind : raw.drop parts.1.length = cr :: lf :: parts.2 := by
    rw [same, List.drop_left]
  have later : Head (cr :: lf :: parts.2) (i - parts.1.length) := by
    rw [← behind]
    exact here.drop (by omega)
  exact ⟨parts, found, later.terminated⟩

theorem Head.spaced (here : Head raw i) (spaced : raw.head? = some space) : 0 < i := by
  rcases Nat.eq_zero_or_pos i with start | positive
  · have all := here.tail
    rw [start, List.drop_zero] at all
    rw [all] at spaced
    exact absurd spaced (by decide)
  · exact positive

theorem Head.statusLine (here : Head head i) (more : Bytes) :
    statusLine (head ++ more) = (statusLine head).map (fun line => (line.1, line.2.1, line.2.2 ++ more)) ∧
      ∀ line, statusLine head = .ok line → Terminated line.2.2 := by
  have version := here.word
  have length := here.length
  have after : (head ++ more).drop (head.takeWhile inWord).length =
      head.drop (head.takeWhile inWord).length ++ more := List.drop_append_of_le_length (by omega)
  have rest := here.drop version
  simp only [Http.statusLine, here.word_append more, after]
  generalize head.drop (head.takeWhile inWord).length = raw at rest
  generalize i - (head.takeWhile inWord).length = j at rest
  have size := rest.length
  have first : (raw ++ more).head? = raw.head? := by
    cases raw with
    | nil => simp at size
    | cons c raw => rfl
  rw [first]
  by_cases spaced : raw.head? ≠ some space
  · rw [if_pos spaced, if_pos spaced]
    exact ⟨rfl, by simp⟩
  · rw [if_neg spaced, if_neg spaced]
    have positive := rest.spaced (not_not.mp spaced)
    have status : Head (raw.drop 1) (j - 1) := rest.drop positive
    rw [List.drop_append_of_le_length (show 1 ≤ raw.length by omega), status.word_append more]
    have word := status.word
    by_cases three : ((raw.drop 1).takeWhile inWord).length ≠ 3
    · rw [if_pos three, if_pos three]
      exact ⟨rfl, by simp⟩
    · rw [if_neg three, if_neg three, List.drop_append_of_le_length (show 4 ≤ raw.length by omega)]
      obtain ⟨parts, found, lines⟩ := (rest.drop (show 4 ≤ j by omega)).line
      rw [splitLine_append found more, found]
      cases parseDecimal 999 ((raw.drop 1).takeWhile inWord) with
      | ok value =>
        by_cases low : value < 100
        · simp only [if_pos low]
          exact ⟨rfl, by simp⟩
        · simp only [if_neg low]
          refine ⟨rfl, ?_⟩
          intro line same
          cases same
          exact lines
      | invalid => exact ⟨rfl, by simp⟩
      | range => exact ⟨rfl, by simp⟩

/-- What a header section says does not depend on what follows it, and the body starts behind it. -/
theorem Head.parseResponseHeaders (here : Head head i) (more : Bytes) :
    parseResponseHeaders (head ++ more) = parseResponseHeaders head ∧
      ∀ info, parseResponseHeaders head = .ok info →
        info.bodyStart = head.length ∧ head.length ≤ httpLimits.headerMaxBytes := by
  obtain ⟨same, lines⟩ := here.statusLine more
  simp only [Http.parseResponseHeaders, same]
  cases read : Http.statusLine head with
  | error code => exact ⟨rfl, by simp⟩
  | ok line =>
    have rest := lines line read
    simp only [Except.map, readFields_append rest]
    cases fields : readFields { closeConnection := line.1 } line.2.2 with
    | error code => exact ⟨rfl, by simp⟩
    | ok last =>
      have ended := readFields_rest rest fields
      simp only [ended, List.length_append, List.length_nil, Nat.add_sub_cancel, Nat.sub_zero]
      refine ⟨trivial, ?_⟩
      intro info finished
      rw [finishHeaders] at finished
      split at finished
      · cases finished
      · next small =>
          split at finished
          · cases finished
          · split at finished
            · cases finished
            · cases finished
              exact ⟨rfl, Nat.le_of_not_lt small⟩

theorem parseDigits_le {mxValue value last : Nat} {digits : Bytes} (small : value ≤ mxValue)
    (parsed : parseDigits mxValue value digits = .ok last) : last ≤ mxValue := by
  induction digits generalizing value with
  | nil =>
    cases parsed
    exact small
  | cons c digits ih =>
    simp only [parseDigits] at parsed
    split at parsed
    · cases parsed
    · split at parsed
      · cases parsed
      · exact ih (by omega) parsed

theorem parseDecimal_le {mxValue last : Nat} {digits : Bytes}
    (parsed : parseDecimal mxValue digits = .ok last) : last ≤ mxValue := by
  rw [parseDecimal] at parsed
  split at parsed
  · cases parsed
  · exact parseDigits_le (Nat.zero_le _) parsed

def Fields.Short (fields : Fields) : Prop :=
  ∀ length, fields.contentLength = some length → length ≤ httpLimits.respMaxBytes

theorem Fields.Short.take {next : Fields} (short : fields.Short) {line : Bytes}
    (taken : fields.take line = .ok next) : next.Short := by
  simp only [Fields.take] at taken
  split at taken
  · cases taken
    exact short
  · split at taken
    · split at taken
      · cases taken
      · split at taken
        · next parsed =>
            cases taken
            intro length same
            cases same
            exact parseDecimal_le parsed
        · cases taken
        · cases taken
    · split at taken
      · split at taken
        · cases taken
        · split at taken
          · cases taken
          · cases taken
            exact short
      · split at taken
        · cases taken
          exact short
        · cases taken
          exact short

theorem readFields_short {last : Fields × Bytes} (short : fields.Short)
    (read : readFields fields raw = .ok last) : last.1.Short := by
  fun_induction readFields fields raw with
  | case1 fields raw blank =>
    cases read
    exact short
  | case2 => cases read
  | case3 => cases read
  | case4 fields raw goes parts found next taken ih => exact ih (short.take taken) read

theorem parseResponseHeaders_short {info : ResponseInfo} (parsed : parseResponseHeaders raw = .ok info)
    (length : Nat) (given : info.contentLength = some length) :
    length ≤ httpLimits.respMaxBytes := by
  rw [parseResponseHeaders] at parsed
  split at parsed
  · cases parsed
  · split at parsed
    · cases parsed
    · next last read =>
        have short := readFields_short (by simp [Fields.Short]) read
        rw [finishHeaders] at parsed
        split at parsed
        · cases parsed
        · split at parsed
          · cases parsed
          · split at parsed
            · cases parsed
            · cases parsed
              simp only at given
              split at given
              · cases given
                exact Nat.zero_le _
              · exact short length given

/-- The scan finds the first end that is not before its start, or stops three bytes before the end of the
buffer. -/
theorem scanHeader_spec (buf : Bytes) (n : Nat) :
    ((scanHeader buf n).2 = true → endsAt buf (scanHeader buf n).1 = true) ∧
    ((scanHeader buf n).2 = false → buf.length ≤ (scanHeader buf n).1 + 3) ∧
    ∀ j, n ≤ j → j < (scanHeader buf n).1 → j + 4 ≤ buf.length ∧ endsAt buf j = false := by
  fun_induction scanHeader buf n with
  | case1 n inside ends => exact ⟨fun _ => ends, by simp, fun j _ _ => by omega⟩
  | case2 n inside goes ih =>
    refine ⟨ih.1, ih.2.1, ?_⟩
    intro j after before
    rcases Nat.eq_or_lt_of_le after with same | later
    · rw [← same]
      exact ⟨inside, Bool.eq_false_iff.mpr goes⟩
    · exact ih.2.2 j later before
  | case3 n outside => exact ⟨by simp, fun _ => by omega, fun j _ _ => by omega⟩

theorem endsAt_take {stream : Bytes} {used : Nat} (inside : i + 4 ≤ used) :
    endsAt (stream.take used) i = endsAt stream i := by
  rw [endsAt, endsAt, List.drop_take, List.take_take, Nat.min_eq_left (by omega)]

theorem Head.unique {body : Bytes} {j : Nat} (here : Head head i) (there : Head ((head ++ body).take (j + 4)) j) :
    j = i := by
  have length := here.length
  have ends : endsAt (head ++ body) i = true := by
    rw [endsAt_append (by omega)]
    exact here.ends
  have ends' : endsAt (head ++ body) j = true := by
    rw [← endsAt_take (Nat.le_refl (j + 4))]
    exact there.ends
  rcases Nat.lt_trichotomy i j with before | same | after
  · have early := there.first i before
    rw [endsAt_take (by omega), ends] at early
    cases early
  · exact same.symm
  · have early := here.first j after
    rw [← endsAt_append (by omega) body, ends'] at early
    cases early

end RusqDoltlite.Http

import Mathlib.Data.List.Infix

/-! Replacement of every occurrence of a pattern, from left to right and without overlap. -/

namespace RusqDoltlite.Wire

section

variable {α : Type} [DecidableEq α]

/-- The first argument counts what is left of the occurrence just replaced. -/
def replaceFrom (pattern insert : List α) : Nat → List α → List α
  | _, [] => []
  | skip + 1, _ :: text => replaceFrom pattern insert skip text
  | 0, c :: text =>
    if pattern <+: c :: text then insert ++ replaceFrom pattern insert (pattern.length - 1) text
    else c :: replaceFrom pattern insert 0 text

def replace (pattern insert text : List α) : List α := replaceFrom pattern insert 0 text

def dedupAfter (last : α) : List α → List α
  | [] => []
  | a :: rest => if a = last then dedupAfter last rest else a :: dedupAfter a rest

def dedupNeighbours : List α → List α
  | [] => []
  | a :: rest => a :: dedupAfter a rest

theorem mem_dedupAfter (a last : α) (list : List α) : a ∈ last :: dedupAfter last list ↔ a ∈ last :: list := by
  induction list generalizing last with
  | nil => rfl
  | cons b list ih =>
    rw [dedupAfter]
    split_ifs with same
    · subst same
      rw [ih]
      simp
    · rw [List.mem_cons, ih, ← List.mem_cons]

theorem mem_dedupNeighbours (a : α) (list : List α) : a ∈ dedupNeighbours list ↔ a ∈ list := by
  cases list with
  | nil => rfl
  | cons b list => exact mem_dedupAfter a b list

end

section

variable {α : Type} {needle : List α}

theorem infix_append_cons {b : α} (free : b ∉ needle) {front rest : List α}
    (found : needle <:+: front ++ b :: rest) : needle <:+: front ∨ needle <:+: rest := by
  obtain ⟨before, after, whole⟩ := found
  rw [List.append_assoc, List.append_eq_append_iff] at whole
  rcases whole with ⟨left, rfl, right⟩ | ⟨left, rfl, right⟩
  · rcases List.append_eq_append_iff.mp right with ⟨more, rfl, -⟩ | ⟨more, rfl, tail⟩
    · exact .inl ⟨before, more, by simp⟩
    · cases more with
      | nil => exact .inl ⟨before, [], by simp⟩
      | cons d more =>
        rw [List.cons_append, List.cons.injEq] at tail
        exact absurd (by simp [tail.1]) free
  · cases left with
    | cons d left =>
      rw [List.cons_append, List.cons.injEq] at right
      exact .inr ⟨left, after, by rw [right.2, List.append_assoc]⟩
    | nil =>
      cases needle with
      | nil => exact .inl List.nil_infix
      | cons d needle =>
        rw [List.nil_append, List.cons_append, List.cons.injEq] at right
        exact absurd (by simp [right.1]) free

def Unmatched (pattern front rest : List α) : Prop :=
  ∀ before after, front = before ++ after → after ≠ [] → ¬ pattern <+: after ++ rest

theorem Unmatched.absent {pattern front rest : List α} (unmatched : Unmatched pattern front rest)
    (nonempty : pattern ≠ []) : ¬ pattern <:+: front := by
  rintro ⟨before, after, rfl⟩
  refine unmatched before (pattern ++ after) (List.append_assoc ..) (by simp [nonempty]) ?_
  rw [List.append_assoc]
  exact List.prefix_append ..

theorem Unmatched.snoc {pattern front rest : List α} {c : α}
    (unmatched : Unmatched pattern front (c :: rest)) (here : ¬ pattern <+: c :: rest) :
    Unmatched pattern (front ++ [c]) rest := by
  intro before after split nonempty
  rcases List.eq_nil_or_concat after with rfl | ⟨after, d, rfl⟩
  · exact absurd rfl nonempty
  · rw [List.concat_eq_append, ← List.append_assoc] at split
    obtain ⟨rfl, same⟩ := List.append_inj' split rfl
    obtain rfl := List.singleton_inj.mp same
    rw [List.concat_eq_append, List.append_assoc, List.singleton_append]
    by_cases last : after = []
    · rw [last, List.nil_append]
      exact here
    · exact unmatched before after rfl last

end

section

variable {α : Type} [DecidableEq α] {pattern needle word : List α} {opening closing : α}
  (free : opening ∉ needle ∧ closing ∉ needle ∧ ¬ needle <:+: word) (nonempty : pattern ≠ [])
include free nonempty

/-- What stands in the result and has no part of the inserted text in it stood in one piece of the
text without an occurrence of the pattern.  `front` is that piece as far as it has been read. -/
theorem replaceFrom_part (text : List α) (skip : Nat) (front : List α) (start : skip ≠ 0 → front = [])
    (unmatched : Unmatched pattern front text)
    (found : needle <:+: front ++ replaceFrom pattern (opening :: (word ++ [closing])) skip text) :
    ∃ piece, needle <:+: piece ∧ piece <:+: front ++ text ∧ ¬ pattern <:+: piece := by
  induction text generalizing skip front with
  | nil =>
    rw [replaceFrom, List.append_nil] at found
    exact ⟨front, found, (List.prefix_append ..).isInfix, unmatched.absent nonempty⟩
  | cons c text ih =>
    have fresh : Unmatched pattern [] text := fun before after split nonempty =>
      absurd (List.append_eq_nil_iff.mp split.symm).2 nonempty
    cases skip with
    | succ skip =>
      obtain rfl := start (by simp)
      obtain ⟨piece, inside, part, plain⟩ := ih skip [] (fun _ => rfl) fresh found
      exact ⟨piece, inside, List.infix_cons part, plain⟩
    | zero =>
      rw [replaceFrom] at found
      by_cases here : pattern <+: c :: text
      · rw [if_pos here, List.cons_append, List.append_assoc, List.singleton_append] at found
        rcases infix_append_cons free.1 found with found | found
        · exact ⟨front, found, (List.prefix_append ..).isInfix, unmatched.absent nonempty⟩
        · rcases infix_append_cons free.2.1 found with found | found
          · exact absurd found free.2.2
          · obtain ⟨piece, inside, part, plain⟩ := ih _ [] (fun _ => rfl) fresh found
            exact ⟨piece, inside, (List.infix_cons part).trans (List.suffix_append ..).isInfix, plain⟩
      · rw [if_neg here] at found
        have next := ih 0 (front ++ [c]) (absurd rfl) (unmatched.snoc here) (by simpa using found)
        rwa [List.append_assoc, List.singleton_append] at next

theorem replace_part (text : List α)
    (found : needle <:+: replace pattern (opening :: (word ++ [closing])) text) :
    needle <:+: text ∧ needle ≠ pattern := by
  obtain ⟨piece, inside, part, plain⟩ := replaceFrom_part free nonempty text 0 [] (fun _ => rfl)
    (fun before after split nonempty => absurd (List.append_eq_nil_iff.mp split.symm).2 nonempty) found
  refine ⟨inside.trans part, ?_⟩
  rintro rfl
  exact plain inside

end

end RusqDoltlite.Wire

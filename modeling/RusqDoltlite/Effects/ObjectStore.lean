import RusqDoltlite.Effects.Contract
import Mathlib.Logic.Function.Basic
import Mathlib.Tactic.Common

/-! An object store with linearizable reads and conditional writes. It keeps all versions of every
object, newest first, so that "the object once held this" is a fact about the current state and
never stops being true. In such a sequence tags identify contents, and labels are not taken up again
once they have been left. -/

namespace RusqDoltlite.Effects

structure Version (ETag β : Type) where
  etag : ETag
  blob : β
deriving DecidableEq, Repr

inductive Condition (ETag : Type) where
  | always
  | absent
  | tagged (etag : ETag)
deriving DecidableEq, Repr

inductive Request (Key : Type) (Blob : Key → Type) (ETag Tag Query : Type) where
  | get (key : Key) (tag : Tag)
  | put (key : Key) (condition : Condition ETag) (blob : Blob key)
  | ask (query : Query)

/-- A read answers with the current version or a fault, a write with the new tag or
a fault, and `Reply` gives the answers of requests the store has no part in. -/
abbrev Answer {Key : Type} {Blob : Key → Type} {ETag Tag Query : Type} (ε : Type)
    (Reply : Query → Type) : Request Key Blob ETag Tag Query → Type
  | .get key _ => Except ε (Option (Version ETag (Blob key)))
  | .put _ _ _ => Except ε ETag
  | .ask query => Reply query

structure Store (Key : Type) (Blob : Key → Type) (ETag : Type) where
  versions : (key : Key) → List (Version ETag (Blob key))

variable {Key : Type} {Blob : Key → Type} {ETag Tag Query ε : Type} {Reply : Query → Type}

variable {store after : Store Key Blob ETag} {key other : Key} {version : Version ETag (Blob key)}
  {request : Request Key Blob ETag Tag Query} {answer : Answer ε Reply request}

namespace Store

def current (store : Store Key Blob ETag) (key : Key) : Option (Version ETag (Blob key)) :=
  (store.versions key).head?

def Admits (store : Store Key Blob ETag) (key : Key) : Condition ETag → Prop
  | .always => True
  | .absent => store.current key = none
  | .tagged etag => (store.current key).map Version.etag = some etag

instance [DecidableEq ETag] (store : Store Key Blob ETag) (key : Key)
    (condition : Condition ETag) : Decidable (store.Admits key condition) :=
  match condition with
  | .always => isTrue trivial
  | .absent => decidable_of_iff ((store.current key).isNone = true) Option.isNone_iff_eq_none
  | .tagged etag => inferInstanceAs (Decidable ((store.current key).map Version.etag = some etag))

/-- A tag is a strong validator: it may return, but only with the same content. -/
def Coherent (store : Store Key Blob ETag) (key : Key) (version : Version ETag (Blob key)) : Prop :=
  ∀ old ∈ store.versions key, old.etag = version.etag → old.blob = version.blob

theorem mem_of_current (now : store.current key = some version) : version ∈ store.versions key :=
  List.mem_of_mem_head? now

variable [DecidableEq Key]

def write (store : Store Key Blob ETag) (key : Key) (version : Version ETag (Blob key)) :
    Store Key Blob ETag :=
  ⟨Function.update store.versions key (version :: store.versions key)⟩

@[simp] theorem write_versions_same (store : Store Key Blob ETag) (key : Key)
    (version : Version ETag (Blob key)) :
    (store.write key version).versions key = version :: store.versions key := by
  simp [write]

@[simp] theorem write_versions_other (store : Store Key Blob ETag) (version : Version ETag (Blob key))
    (different : other ≠ key) :
    (store.write key version).versions other = store.versions other := by
  simp [write, Function.update_of_ne different]

@[simp] theorem write_current_same (store : Store Key Blob ETag) (key : Key)
    (version : Version ETag (Blob key)) : (store.write key version).current key = some version := by
  simp [current]

@[simp] theorem write_current_other (store : Store Key Blob ETag) (version : Version ETag (Blob key))
    (different : other ≠ key) :
    (store.write key version).current other = store.current other := by
  simp [current, different]

theorem write_suffix (store : Store Key Blob ETag) (key other : Key)
    (version : Version ETag (Blob key)) :
    store.versions other <:+ (store.write key version).versions other := by
  by_cases same : other = key
  · subst same
    simp
  · simp [same]

end Store

variable [DecidableEq Key]

def Store.Writes (store : Store Key Blob ETag) (key : Key) (condition : Condition ETag)
    (version : Version ETag (Blob key)) (after : Store Key Blob ETag) : Prop :=
  store.Admits key condition ∧ store.Coherent key version ∧ after = store.write key version

theorem Store.Writes.created (written : store.Writes key .absent version after) :
    after.versions key = [version] := by
  obtain ⟨absent, _, rfl⟩ := written
  have empty : store.versions key = [] := List.head?_eq_none_iff.mp absent
  simp [empty]

theorem Store.Writes.versions_other {condition : Condition ETag}
    (written : store.Writes key condition version after) (different : other ≠ key) :
    after.versions other = store.versions other := by
  obtain ⟨_, _, rfl⟩ := written
  exact store.write_versions_other version different

theorem Store.Writes.mem {condition : Condition ETag} {new : Version ETag (Blob key)}
    (written : store.Writes key condition version after) :
    new ∈ after.versions key ↔ new = version ∨ new ∈ store.versions key := by
  obtain ⟨_, _, rfl⟩ := written
  simp

def Store.Unique (store : Store Key Blob ETag) (key : Key) : Prop :=
  ∀ one ∈ store.versions key, ∀ other ∈ store.versions key, one = other

omit [DecidableEq Key] in
theorem Store.Unique.current (unique : store.Unique key) (held : version ∈ store.versions key) :
    store.current key = some version := by
  cases shape : store.versions key with
  | nil =>
    rw [shape] at held
    cases held
  | cons first rest =>
    have latest : first ∈ store.versions key := by simp [shape]
    rw [Store.current, shape, List.head?_cons, unique first latest version held]

/-- One request served. A write that reports a fault may still have taken effect;
a read or a write may fail for any reason of the transport. -/
def Serves (store : Store Key Blob ETag) :
    (request : Request Key Blob ETag Tag Query) → Answer ε Reply request →
      Store Key Blob ETag → Prop
  | .get key _, .ok found, after => found = store.current key ∧ after = store
  | .get _ _, .error _, after => after = store
  | .put key condition blob, .ok etag, after => store.Writes key condition ⟨etag, blob⟩ after
  | .put key condition blob, .error _, after =>
    after = store ∨ ∃ etag, store.Writes key condition ⟨etag, blob⟩ after
  | .ask _, _, after => after = store

theorem Serves.inversion (served : Serves store request answer after) :
    after = store ∨ ∃ key condition version, request = .put key condition version.blob ∧
      store.Writes key condition version after := by
  match request, answer, served with
  | .get _ _, .ok _, served => exact .inl served.2
  | .get _ _, .error _, served => exact .inl served
  | .put key condition blob, .ok etag, served => exact .inr ⟨key, condition, ⟨etag, blob⟩, rfl, served⟩
  | .put key condition blob, .error _, .inl same => exact .inl same
  | .put key condition blob, .error _, .inr ⟨etag, written⟩ =>
    exact .inr ⟨key, condition, ⟨etag, blob⟩, rfl, written⟩
  | .ask _, _, served => exact .inl served

theorem Serves.preserves {property : (key : Key) → Blob key → Prop} (served : Serves store request answer after)
    (old : ∀ key, ∀ version ∈ store.versions key, property key version.blob)
    (new : ∀ key condition blob, request = .put key condition blob → property key blob) (key : Key)
    (version : Version ETag (Blob key)) (stored : version ∈ after.versions key) :
    property key version.blob := by
  rcases served.inversion with rfl | ⟨written, condition, latest, rfl, writes⟩
  · exact old key version stored
  · by_cases same : key = written
    · subst same
      rcases writes.mem.mp stored with rfl | earlier
      · exact new key condition version.blob rfl
      · exact old key version earlier
    · rw [writes.versions_other same] at stored
      exact old key version stored

theorem Store.Unique.serves (unique : store.Unique key) (served : Serves store request answer after)
    (creates : ∀ condition blob, request = .put key condition blob → condition = .absent) :
    after.Unique key := by
  rcases served.inversion with rfl | ⟨written, condition, latest, rfl, writes⟩
  · exact unique
  · by_cases same : key = written
    · subst same
      obtain rfl := creates condition latest.blob rfl
      intro one here other there
      rw [writes.created, List.mem_singleton] at here there
      rw [here, there]
    · rw [Store.Unique, writes.versions_other same]
      exact unique

def Store.Grows (store after : Store Key Blob ETag) : Prop :=
  ∀ key, store.versions key <:+ after.versions key

omit [DecidableEq Key] in
theorem Store.Grows.refl (store : Store Key Blob ETag) : store.Grows store :=
  fun _ => List.suffix_refl _

omit [DecidableEq Key] in
theorem Store.Grows.trans {middle : Store Key Blob ETag} (first : store.Grows middle)
    (second : middle.Grows after) : store.Grows after :=
  fun key => (first key).trans (second key)

omit [DecidableEq Key] in
theorem Store.Grows.mem (grows : store.Grows after) (held : version ∈ store.versions key) :
    version ∈ after.versions key :=
  (grows key).subset held

theorem Store.write_grows (store : Store Key Blob ETag) (key : Key)
    (version : Version ETag (Blob key)) : store.Grows (store.write key version) :=
  fun other => store.write_suffix key other version

theorem Serves.grows (served : Serves store request answer after) : store.Grows after := by
  intro key
  rcases served.inversion with rfl | ⟨written, _, _, _, _, _, rfl⟩
  · exact List.suffix_refl _
  · exact store.write_grows written _ key

def Saw (log : Log (Request Key Blob ETag Tag Query) (Answer ε Reply)) (key : Key)
    (version : Version ETag (Blob key)) : Prop :=
  (∃ tag, ⟨.get key tag, .ok (some version)⟩ ∈ log) ∨
    ∃ condition, ⟨.put key condition version.blob, .ok version.etag⟩ ∈ log

omit [DecidableEq Key] in
theorem Saw.grow {log later : Log (Request Key Blob ETag Tag Query) (Answer ε Reply)}
    (saw : Saw log key version) (grown : log <:+ later) :
    Saw later key version := by
  rcases saw with ⟨tag, read⟩ | ⟨condition, stored⟩
  · exact .inl ⟨tag, grown.subset read⟩
  · exact .inr ⟨condition, grown.subset stored⟩

/-- The served event, as it happened at some earlier moment of a store that has grown
to `store` since. `admits` is what the event satisfied at that moment. -/
def Witnessed (admits : Store Key Blob ETag → Event (Request Key Blob ETag Tag Query)
      (Answer ε Reply) → Prop) (store : Store Key Blob ETag)
    (event : Event (Request Key Blob ETag Tag Query) (Answer ε Reply)) : Prop :=
  ∃ before after, Serves before event.request event.answer after ∧ admits before event ∧
    before.Grows after ∧ after.Grows store

def Traced (admits : Store Key Blob ETag → Event (Request Key Blob ETag Tag Query)
      (Answer ε Reply) → Prop) (store : Store Key Blob ETag)
    (log : Log (Request Key Blob ETag Tag Query) (Answer ε Reply)) : Prop :=
  ∀ event ∈ log, Witnessed admits store event

section
variable {admits : Store Key Blob ETag → Event (Request Key Blob ETag Tag Query)
  (Answer ε Reply) → Prop} {store after : Store Key Blob ETag}
variable {log : Log (Request Key Blob ETag Tag Query) (Answer ε Reply)}

theorem Traced.nil : Traced admits store ([] : Log (Request Key Blob ETag Tag Query)
    (Answer ε Reply)) := by
  intro event member
  cases member

theorem Traced.grow (traced : Traced admits store log) (grows : store.Grows after) :
    Traced admits after log := by
  intro event member
  obtain ⟨before, middle, served, admitted, first, second⟩ := traced event member
  exact ⟨before, middle, served, admitted, first, second.trans grows⟩

theorem Traced.step (traced : Traced admits store log) (served : Serves store request answer after)
    (admitted : admits store ⟨request, answer⟩) :
    Traced admits after (⟨request, answer⟩ :: log) := by
  intro event member
  rcases List.mem_cons.mp member with rfl | older
  · exact ⟨store, after, served, admitted, served.grows, .refl after⟩
  · exact traced.grow served.grows event older

theorem Traced.held (traced : Traced admits store log) (saw : Saw log key version) :
    version ∈ store.versions key := by
  rcases saw with ⟨tag, read⟩ | ⟨condition, stored⟩
  · obtain ⟨before, middle, served, _, first, second⟩ := traced _ read
    exact (first.trans second).mem (Store.mem_of_current served.1.symm)
  · obtain ⟨before, middle, ⟨_, _, same⟩, _, _, second⟩ := traced _ stored
    subst same
    exact second.mem (by simp)

end

section
variable {Key : Type} {Blob : Key → Type} {ETag : Type}

def Store.Faithful (store : Store Key Blob ETag) (key : Key) : Prop :=
  ∀ one ∈ store.versions key, ∀ other ∈ store.versions key, one.etag = other.etag →
    one.blob = other.blob

theorem Store.Faithful.current {store : Store Key Blob ETag} {key : Key}
    {known : Version ETag (Blob key)} (faithful : store.Faithful key)
    (held : known ∈ store.versions key) (admitted : store.Admits key (.tagged known.etag)) :
    ∃ current, store.current key = some current ∧ current.blob = known.blob := by
  obtain ⟨current, now, same⟩ := Option.map_eq_some_iff.mp admitted
  exact ⟨current, now, faithful current (Store.mem_of_current now) known held same⟩

variable [DecidableEq Key]

theorem Store.Faithful.write {store after : Store Key Blob ETag} {key written : Key}
    {condition : Condition ETag} {version : Version ETag (Blob written)}
    (faithful : store.Faithful key) (writes : store.Writes written condition version after) :
    after.Faithful key := by
  by_cases same : key = written
  · subst same
    have coherent := writes.2.1
    intro one here other there tags
    rcases writes.mem.mp here with rfl | here <;> rcases writes.mem.mp there with rfl | there
    · rfl
    · exact (coherent other there tags.symm).symm
    · exact coherent one here tags
    · exact faithful one here other there tags
  · rw [Store.Faithful, writes.versions_other same]
    exact faithful

theorem Traced.replaced {Tag Query ε : Type} {Reply : Query → Type} {store : Store Key Blob ETag}
    {admits : Store Key Blob ETag → Event (Request Key Blob ETag Tag Query) (Answer ε Reply) → Prop}
    {log : Log (Request Key Blob ETag Tag Query) (Answer ε Reply)} {key : Key}
    {known current : Version ETag (Blob key)} (traced : Traced admits store log)
    (faithful : store.Faithful key) (saw : Saw log key known)
    (admitted : store.Admits key (.tagged known.etag)) (now : current ∈ store.current key) :
    current.blob = known.blob := by
  obtain ⟨found, foundNow, same⟩ := faithful.current (traced.held saw) admitted
  obtain rfl : found = current := Option.some.inj (foundNow.symm.trans now)
  exact same

end

section
variable {α β : Type}

/-- Newest first: between two entries with the same label there is no other label. -/
def Contiguous (label : α → β) (entries : List α) : Prop :=
  ∀ newer between older, [newer, between, older].Sublist entries → label newer = label older →
    label between = label older

theorem Contiguous.nil (label : α → β) : Contiguous label [] := by
  intro newer between older inside
  cases inside

theorem Contiguous.map {label : α → β} {entries : List α} (contiguous : Contiguous label entries)
    {newer between older : β} (inside : [newer, between, older].Sublist (entries.map label))
    (same : newer = older) : between = older := by
  obtain ⟨part, partInside, split⟩ := List.sublist_map_iff.mp inside
  match part, split with
  | [one, two, three], split =>
    obtain ⟨rfl, rfl, rfl⟩ : newer = label one ∧ between = label two ∧ older = label three := by
      simpa using split
    exact contiguous one two three partInside same

theorem Contiguous.cons_same {label : α → β} {new first : α} {rest : List α}
    (contiguous : Contiguous label (first :: rest)) (same : label new = label first) :
    Contiguous label (new :: first :: rest) := by
  intro newer between older inside equal
  rcases List.sublist_cons_iff.mp inside with inside | ⟨tail, split, inside⟩
  · exact contiguous newer between older inside equal
  · obtain ⟨rfl, rfl⟩ : newer = new ∧ tail = [between, older] := by simpa [eq_comm] using split
    rw [same] at equal
    rcases List.sublist_cons_iff.mp inside with inside | ⟨tail, split, inside⟩
    · exact contiguous first between older (List.Sublist.cons_cons first inside) equal
    · obtain ⟨rfl, -⟩ : between = first ∧ tail = [older] := by simpa [eq_comm] using split
      exact equal

theorem Contiguous.cons_fresh {label : α → β} {new : α} {rest : List α}
    (contiguous : Contiguous label rest) (fresh : ∀ old ∈ rest, label old ≠ label new) :
    Contiguous label (new :: rest) := by
  intro newer between older inside equal
  rcases List.sublist_cons_iff.mp inside with inside | ⟨tail, split, inside⟩
  · exact contiguous newer between older inside equal
  · obtain ⟨rfl, rfl⟩ : newer = new ∧ tail = [between, older] := by simpa [eq_comm] using split
    exact absurd equal.symm (fresh older (inside.subset (by simp)))

end

end RusqDoltlite.Effects

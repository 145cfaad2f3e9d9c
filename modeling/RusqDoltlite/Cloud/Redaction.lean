import RusqDoltlite.Codec.Uuid
import RusqDoltlite.Wire.Replace

/-! Credentials taken out of the text of an error. -/

namespace RusqDoltlite.Cloud

open Codec Wire
open Session (Bytes)

/-- The error of the crate: a failure of the library, or any other error by its text. -/
inductive CloudError (Code : Type) where
  | sqliteFailure (code : Code) (message : Option Bytes)
  | other (text : Bytes)
  deriving DecidableEq

def redactedWord : Bytes := ascii "redacted"

def redacted : Bytes := 0x5B :: (redactedWord ++ [0x5D])

/-- Longer credentials first, then in the order of their bytes. -/
def credentialFirst (left right : Bytes) : Bool :=
  right.length < left.length || (left.length == right.length && left ≤ right)

def redactionOrder (credentials : List Bytes) : List Bytes :=
  dedupNeighbours ((credentials.filter fun credential => !credential.isEmpty).mergeSort credentialFirst)

def redactAll (credentials : List Bytes) (message : Bytes) : Bytes :=
  credentials.foldl (fun message credential => Wire.replace credential redacted message) message

section

variable {Code : Type} (display : Code → Bytes) (sqliteError : Code)

def errorMessage : CloudError Code → Code × Bytes
  | .sqliteFailure code message => (code, message.getD (display code))
  | .other text => (sqliteError, text)

def sanitizeCloudError (error : CloudError Code) (credentials : List Bytes) : CloudError Code :=
  let (code, message) := errorMessage display sqliteError error
  .sqliteFailure code (some (redactAll (redactionOrder credentials) message))

end

/-- A credential that no part of `[redacted]` can hold. -/
def Redactable (credential : Bytes) : Prop :=
  0x5B ∉ credential ∧ 0x5D ∉ credential ∧ ¬ credential <:+: redactedWord

theorem mem_redactionOrder (credential : Bytes) (credentials : List Bytes) :
    credential ∈ redactionOrder credentials ↔ credential ∈ credentials ∧ credential ≠ [] := by
  rw [redactionOrder, mem_dedupNeighbours, List.mem_mergeSort, List.mem_filter]
  simp

/-- A redaction never brings a credential into the message, and takes out those it names. -/
theorem redactAll_part {needle : Bytes} (free : Redactable needle) (credentials : List Bytes)
    (nonempty : [] ∉ credentials) (message : Bytes) (found : needle <:+: redactAll credentials message) :
    needle <:+: message ∧ needle ∉ credentials := by
  induction credentials generalizing message with
  | nil => exact ⟨found, List.not_mem_nil⟩
  | cons credential credentials ih =>
    rw [List.mem_cons, not_or] at nonempty
    obtain ⟨rest, later⟩ := ih nonempty.2 _ found
    obtain ⟨first, apart⟩ := replace_part free (Ne.symm nonempty.1) message rest
    exact ⟨first, by simp [apart, later]⟩

theorem sanitizeCloudError_redacts {Code : Type} (display : Code → Bytes) (sqliteError : Code)
    (error : CloudError Code) (credentials : List Bytes)
    (free : ∀ credential ∈ credentials, credential ≠ [] → Redactable credential) :
    ∃ code message,
      sanitizeCloudError display sqliteError error credentials = .sqliteFailure code (some message) ∧
      ∀ credential ∈ credentials, credential ≠ [] → ¬ credential <:+: message := by
  refine ⟨_, _, rfl, ?_⟩
  intro credential member nonempty found
  have empty : [] ∉ redactionOrder credentials := by simp [mem_redactionOrder]
  have absent := (redactAll_part (free credential member nonempty) _ empty _ found).2
  exact absent ((mem_redactionOrder ..).mpr ⟨member, nonempty⟩)

theorem sanitizeCloudError_redacts_overlap :
    ∃ code message,
      sanitizeCloudError (fun _ => []) () (.other (ascii "sig=abcab")) [ascii "ab", [], ascii "bca"] =
        .sqliteFailure code (some message) ∧
      ∀ credential ∈ [ascii "ab", [], ascii "bca"], credential ≠ [] → ¬ credential <:+: message :=
  sanitizeCloudError_redacts _ _ _ _ (by unfold Redactable; decide)

end RusqDoltlite.Cloud

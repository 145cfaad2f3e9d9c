import RusqDoltlite.Http.Chunked
import RusqDoltlite.Wire.Table

/-! Error replies: `httpMapError` and the fields it finds in their bodies. -/

namespace RusqDoltlite.Http

open Wire

def jsonSpace (c : UInt8) : Bool := c == 0x20 || c == 0x09 || c == cr || c == lf

def jsonValue (key : Bytes) (body : Bytes) : Option Bytes :=
  let needle := quote :: (key ++ [quote])
  if needle.length < body.length ∧ needle.isPrefixOf body then
    match (body.drop needle.length).dropWhile jsonSpace with
    | c :: rest => if c = colon then some (rest.dropWhile jsonSpace) else none
    | [] => none
  else none

/-- A string up to its quote. The characters behind backslashes are not looked at. -/
def jsonString : Bytes → Option Bytes
  | [] => none
  | [c] => if c = quote then some [] else none
  | c :: d :: rest =>
    if c = quote then some []
    else if c = backslash then (jsonString rest).map fun more => c :: d :: more
    else (jsonString (d :: rest)).map fun more => c :: more

def jsonStringField (key : Bytes) : Bytes → Option Bytes
  | [] => none
  | c :: rest =>
    match jsonValue key (c :: rest) with
    | some (first :: more) =>
      if first = quote then jsonString more else jsonStringField key rest
    | _ => jsonStringField key rest

inductive Decimal where
  | ok (value : Nat)
  | invalid
  | range
deriving DecidableEq, Repr

def parseDigits (mxValue : Nat) : Nat → Bytes → Decimal
  | value, [] => .ok value
  | value, c :: rest =>
    if c < 0x30 ∨ 0x39 < c then .invalid
    else
      let digit := c.toNat - 0x30
      if mxValue < digit ∨ (mxValue - digit) / 10 < value then .range
      else parseDigits mxValue (value * 10 + digit) rest

def parseDecimal (mxValue : Nat) (digits : Bytes) : Decimal :=
  if digits = [] then .invalid else parseDigits mxValue 0 digits

def jsonNumber (value : Bytes) : Option (Bool × Bytes) :=
  let negative := value.head? = some 0x2d
  let digits := (if negative then value.drop 1 else value).takeWhile isDigit
  if digits = [] then none else some (negative, digits)

def jsonIntField (key : Bytes) : Bytes → Option Int
  | [] => none
  | c :: rest =>
    match (jsonValue key (c :: rest)).bind jsonNumber with
    | some number =>
      match parseDecimal 0x7fffffff number.2 with
      | .ok value => some (if number.1 then -(value : Int) else value)
      | _ => none
    | none => jsonIntField key rest

/-- What the body of an error says. A string of the source ends at a zero byte. -/
structure ErrorFields where
  zCode : Option Bytes
  sqliteRc : Option Int
deriving DecidableEq

def errorFields (resp : Bytes) : ErrorFields :=
  if resp.head? = some 0x7b then
    { zCode := (jsonStringField (ascii "code") resp).map fun code => code.takeWhile (· != 0)
      sqliteRc := jsonIntField (ascii "sqlite") resp }
  else { zCode := none, sqliteRc := none }

def ErrorFields.names (fields : ErrorFields) (code : String) : Prop := fields.zCode = some (ascii code)

instance (fields : ErrorFields) (code : String) : Decidable (fields.names code) :=
  inferInstanceAs (Decidable (_ = _))

/-- The codes of the body come before the status of the response, apart from those it has in common
with a status. -/
def ErrorFields.code (fields : ErrorFields) (status : Nat) : Code :=
  if fields.names "working_set" ∨ fields.sqliteRc = some 6 then .locked
  else if fields.names "busy" ∨ (fields.sqliteRc = some 5 ∧ ¬ fields.names "refs_changed") then .busy
  else if fields.names "missing_chunks" then .busySnapshot
  else if fields.names "refs_changed" ∨ fields.sqliteRc = some 517 ∨ status = 409 then .busySnapshot
  else if status = 401 ∨ status = 403 ∨ fields.names "unauthorized" ∨ fields.names "forbidden" ∨
      fields.sqliteRc = some 23 then .auth
  else if status = 404 ∨ fields.names "not_found" ∨ fields.sqliteRc = some 12 then .notFound
  else if status = 413 ∨ fields.names "toobig" ∨ fields.sqliteRc = some 18 then .tooBig
  else if fields.names "non_ff" ∨ fields.sqliteRc = some 19 then .constraint
  else
    match fields.sqliteRc with
    | some code => if code ≠ 0 then .other code else if 500 ≤ status then .ioerr else .error
    | none => if 500 ≤ status then .ioerr else .error

def mapError (status : Nat) (resp : Bytes) : Code := (errorFields resp).code status

structure ErrorFields.Plain (fields : ErrorFields) : Prop where
  code : ∀ code ∈ ["working_set", "busy", "missing_chunks", "refs_changed", "unauthorized", "forbidden",
    "not_found"], ¬ fields.names code
  sqlite : ∀ code ∈ [6, 5, 517, 23, 12], fields.sqliteRc ≠ some code

theorem mapError_plain {resp : Bytes} (plain : (errorFields resp).Plain) : mapError 413 resp = .tooBig := by
  have codes := plain.code
  have numbers := plain.sqlite
  simp only [List.forall_mem_cons] at codes numbers
  obtain ⟨workingSet, busy, missing, changed, unauthorized, forbidden, absent, _⟩ := codes
  obtain ⟨six, five, snapshot, auth, twelve, _⟩ := numbers
  rw [mapError, ErrorFields.code, if_neg (not_or.mpr ⟨workingSet, six⟩),
    if_neg (not_or.mpr ⟨busy, fun both => five both.1⟩), if_neg missing,
    if_neg (by simp [changed, snapshot]), if_neg (by simp [unauthorized, forbidden, auth]),
    if_neg (by simp [absent, twelve]), if_pos (.inl rfl)]

end RusqDoltlite.Http

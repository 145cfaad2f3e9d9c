import Mathlib.Data.List.DropRight
import RusqDoltlite.Codec.Uuid

/-! `bcvSessionEndpointCanonical`: the endpoint spelling a scoped selector may use. -/

namespace RusqDoltlite.Codec

open Wire Session

def maxFieldBytes : Nat := 4096

def misuse (message : String) : Err := ⟨.misuse, message⟩

def splitScheme : Bytes → Option (Bytes × Bytes)
  | [] => none
  | char :: rest =>
    if [0x3a, 0x2f, 0x2f].isPrefixOf (char :: rest) then some ([], rest.drop 2)
    else (splitScheme rest).map fun parts => (char :: parts.1, parts.2)

def http : Bytes := ascii "http"

def https : Bytes := ascii "https"

/-- The part of an authority that names the host, and the port behind it. A host in brackets is an
IPv6 address. -/
def hostAndPort (authority : Bytes) : Except Err (Bytes × Option Bytes) :=
  if authority.head? = some 0x5b then
    match authority.findIdx? (· == 0x5d) with
    | none => .error (misuse "storage endpoint IPv6 host is invalid")
    | some close =>
      match authority.drop (close + 1) with
      | [] => .ok (authority, none)
      | next :: port =>
        if next = 0x3a then .ok (authority.take (close + 1), some port)
        else .error (misuse "storage endpoint port is invalid")
  else
    match authority.findIdx? (· == 0x3a) with
    | none => .ok (authority, none)
    | some colon => .ok (authority.take colon, some (authority.drop (colon + 1)))

def badEndpointByte (char : UInt8) : Bool :=
  char < 0x20 || char == 0x7f || char == 0x3f || char == 0x23

def isUpper (char : UInt8) : Bool := 0x41 ≤ char && char ≤ 0x5a

def checkHost (host : Bytes) : Except Err Unit := do
  check (host ≠ [] ∧ host ≠ [0x2e] ∧ host.getLast? ≠ some 0x2e) .misuse
    "storage endpoint host is not canonical"
  host.forM fun char => do
    check (isUpper char = false) .misuse "storage endpoint host must be lowercase"
    check (badEndpointByte char = false ∧ char ≠ 0x40) .misuse "storage endpoint host is invalid"

/-- A decimal number; no further digit is taken once the value is above `limit`. -/
def decimal (limit : Nat) : Nat → Bytes → Option Nat
  | value, [] => some value
  | value, char :: rest =>
    if isDigit char && value ≤ limit then decimal limit (value * 10 + (char.toNat - 0x30)) rest
    else none

def checkPort (secure : Bool) (port : Bytes) : Except Err Unit := do
  check (port ≠ []) .misuse "storage endpoint port is empty"
  check (¬(1 < port.length ∧ port.head? = some 0x30)) .misuse "storage endpoint port is not canonical"
  match decimal 6553 0 port with
  | none => .error (misuse "storage endpoint port is invalid")
  | some value =>
    check (value ≠ 0 ∧ value ≤ 65535 ∧ value ≠ if secure then 443 else 80) .misuse
      "storage endpoint uses a non-canonical port"

def octetCanonical (label : Bytes) : Prop :=
  label.length ≤ 3 ∧ ¬(1 < label.length ∧ label.head? = some 0x30) ∧
    ∃ value ∈ decimal 255 0 label, value ≤ 255

instance (label : Bytes) : Decidable (octetCanonical label) := inferInstanceAs (Decidable (_ ∧ _))

/-- The labels of a host that is not in brackets; a host of digits is an IPv4 address. -/
def checkLabels (host : Bytes) : Except Err Unit := do
  let labels := host.splitOn 0x2e
  check ([] ∉ labels) .misuse "storage endpoint host is not canonical"
  check (host.all (fun char => char == 0x2e || isDigit char) = true →
      labels.length = 4 ∧ labels.all (fun label => octetCanonical label) = true) .misuse
    "storage endpoint IPv4 host is not canonical"

def authorityOf (rest : Bytes) : Bytes := rest.takeWhile (· != 0x2f)

def pathOf (rest : Bytes) : Bytes := rest.dropWhile (· != 0x2f)

def checkScheme (scheme : Bytes) : Except Err Unit :=
  check (scheme = http ∨ scheme = https) .misuse "storage endpoint scheme is not canonical"

def checkAuthority (secure : Bool) (authority : Bytes) : Except Err Unit := do
  check (authority ≠ [] ∧ 0x40 ∉ authority) .misuse "storage endpoint authority is invalid"
  let parts ← hostAndPort authority
  checkHost parts.1
  parts.2.forM (checkPort secure)
  if authority.head? = some 0x5b then .ok () else checkLabels parts.1

def checkRest (rest : Bytes) : Except Err Unit := do
  check (rest.all (fun char => !badEndpointByte char) = true) .misuse
    "storage endpoint contains an invalid byte"
  check ((pathOf rest).all (· == 0x2f) = true) .misuse "storage endpoint path is not canonical"

def endpointCanonical (endpoint : Bytes) : Except Err Unit := do
  check (endpoint ≠ [] ∧ endpoint.length ≤ maxFieldBytes) .misuse "invalid storage endpoint"
  match splitScheme endpoint with
  | none => .error (misuse "storage endpoint requires an http(s) URL")
  | some (scheme, rest) => do
      checkScheme scheme
      checkAuthority (scheme == https) (authorityOf rest)
      checkRest rest

def amazon : Bytes := ascii "amazonaws.com"

def aliasHost (authority : Bytes) : Bytes :=
  if authority.head? = some 0x5b then
    match authority.findIdx? (· == 0x5d) with
    | none => authority
    | some close => authority.take (close + 1)
  else authority.takeWhile (· != 0x3a)

def awsAlias (endpoint : Bytes) : Bool :=
  match splitScheme endpoint with
  | none => false
  | some (scheme, rest) =>
    (scheme == http || scheme == https) &&
      let host := (aliasHost (authorityOf rest)).map lower
      host == amazon || (0x2e :: amazon).isSuffixOf host

def trimSlashes (endpoint : Bytes) : Bytes := endpoint.rdropWhile (· == 0x2f)

theorem splitScheme_eq_some {endpoint scheme rest : Bytes}
    (split : splitScheme endpoint = some (scheme, rest)) :
    endpoint = scheme ++ 0x3a :: 0x2f :: 0x2f :: rest := by
  induction endpoint generalizing scheme with
  | nil => cases split
  | cons char tail ih =>
    rw [splitScheme] at split
    split at split
    · rename_i here
      cases split
      obtain ⟨more, same⟩ := List.isPrefixOf_iff_prefix.mp here
      cases same
      rfl
    · obtain ⟨parts, inner, same⟩ := Option.map_eq_some_iff.mp split
      cases same
      rw [ih inner]
      rfl

theorem splitScheme_append {scheme : Bytes} (known : scheme = http ∨ scheme = https) (rest : Bytes) :
    splitScheme (scheme ++ 0x3a :: 0x2f :: 0x2f :: rest) = some (scheme, rest) := by
  rcases known with rfl | rfl
  · rfl
  · rfl

theorem trimSlashes_append {front path : Bytes} (slashes : path.all (· == 0x2f) = true)
    (last : front.getLast? ≠ some 0x2f) : trimSlashes (front ++ path) = front := by
  have all : ∀ char ∈ path.reverse, (char == 0x2f) = true := by
    intro char member
    exact List.all_eq_true.mp slashes char (List.mem_reverse.mp member)
  rw [trimSlashes, List.rdropWhile, List.reverse_append, List.dropWhile_append_of_pos all]
  have stop : front.reverse.dropWhile (· == 0x2f) = front.reverse := by
    rw [← List.head?_reverse] at last
    cases backwards : front.reverse with
    | nil => rfl
    | cons char rest =>
      rw [backwards, List.head?_cons] at last
      have differs : (char == 0x2f) = false := by simpa using last
      rw [List.dropWhile_cons, differs]
      rfl
  rw [stop, List.reverse_reverse]

theorem not_mem_authorityOf (rest : Bytes) : 0x2f ∉ authorityOf rest := by
  intro member
  have plain := List.mem_takeWhile_imp member
  simp at plain

theorem authorityOf_of_not_mem {authority : Bytes} (plain : 0x2f ∉ authority) :
    authorityOf authority = authority := by
  apply List.takeWhile_eq_self_iff.mpr
  intro char member
  have differs : char ≠ 0x2f := fun same => plain (same ▸ member)
  simpa using differs

theorem pathOf_of_not_mem {authority : Bytes} (plain : 0x2f ∉ authority) : pathOf authority = [] := by
  apply List.dropWhile_eq_nil_iff.mpr
  intro char member
  have differs : char ≠ 0x2f := fun same => plain (same ▸ member)
  simpa using differs

theorem endpointCanonical_eq_ok {endpoint : Bytes} (accepted : endpointCanonical endpoint = .ok ()) :
    ∃ scheme rest, (scheme = http ∨ scheme = https) ∧ splitScheme endpoint = some (scheme, rest) ∧
      endpoint.length ≤ maxFieldBytes ∧
      checkAuthority (scheme == https) (authorityOf rest) = .ok () ∧ checkRest rest = .ok () := by
  unfold endpointCanonical at accepted
  rw [check_bind_eq_ok] at accepted
  obtain ⟨⟨_, short⟩, accepted⟩ := accepted
  split at accepted
  · cases accepted
  · rename_i scheme rest split
    simp only [unit_bind_eq_ok, checkScheme, check_eq_ok] at accepted
    exact ⟨scheme, rest, accepted.1, split, short, accepted.2⟩

theorem endpointCanonical_trimSlashes {endpoint : Bytes} (accepted : endpointCanonical endpoint = .ok ()) :
    endpointCanonical (trimSlashes endpoint) = .ok () ∧
      awsAlias (trimSlashes endpoint) = awsAlias endpoint := by
  obtain ⟨scheme, rest, known, split, short, authority, bytes⟩ := endpointCanonical_eq_ok accepted
  have plain := not_mem_authorityOf rest
  have parts : authorityOf rest ++ pathOf rest = rest := List.takeWhile_append_dropWhile
  rw [checkRest, check_bind_eq_ok, check_eq_ok] at bytes
  have nonempty : authorityOf rest ≠ [] := by
    rw [checkAuthority, check_bind_eq_ok] at authority
    exact authority.1.1
  have whole : endpoint = (scheme ++ 0x3a :: 0x2f :: 0x2f :: authorityOf rest) ++ pathOf rest := by
    rw [splitScheme_eq_some split, List.append_assoc, List.cons_append, List.cons_append,
      List.cons_append, parts]
  have last : (scheme ++ 0x3a :: 0x2f :: 0x2f :: authorityOf rest).getLast? ≠ some 0x2f := by
    intro same
    have member : (0x2f : UInt8) ∈ authorityOf rest := by
      apply List.mem_of_getLast?
      rw [← same, List.getLast?_append_of_ne_nil _ (by simp), List.getLast?_cons_cons,
        List.getLast?_cons_cons, List.getLast?_cons_of_ne_nil nonempty]
    exact plain member
  have trimmed : trimSlashes endpoint = scheme ++ 0x3a :: 0x2f :: 0x2f :: authorityOf rest := by
    rw [whole]
    exact trimSlashes_append bytes.2 last
  have again := splitScheme_append known (authorityOf rest)
  have good : (authorityOf rest).all (fun char => !badEndpointByte char) = true := by
    rw [List.all_eq_true] at bytes ⊢
    intro char member
    apply bytes.1 char
    rw [← parts]
    exact List.mem_append_left _ member
  constructor
  · rw [trimmed, endpointCanonical, check_bind_eq_ok, again]
    refine ⟨⟨by simp, ?_⟩, ?_⟩
    · have length := congrArg List.length whole
      rw [List.length_append] at length
      omega
    · simp only [unit_bind_eq_ok, checkScheme, check_eq_ok, authorityOf_of_not_mem plain, authority,
        checkRest, good, pathOf_of_not_mem plain]
      exact ⟨known, trivial, trivial, rfl⟩
  · rw [trimmed]
    simp only [awsAlias, again, split, authorityOf_of_not_mem plain]

end RusqDoltlite.Codec

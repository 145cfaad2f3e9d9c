import RusqDoltlite.Cloud.Containers

/-! `bcvDispatchRun` for one request: bearer refresh, the replay of a denied attempt, ordinary retries. -/

namespace RusqDoltlite.Cloud

open Wire Session Codec S3

/-- `BcvDispatchReq`; the bodies and headers received play no part. -/
structure DispatchReq where
  eMethod : Method
  zUri : Bytes
  pList : List Bytes
  aBody : Bytes
  bBearerAuth : Bool
  bSkipAuthRefresh : Bool := false
  nAuthRetry : Nat := 0
  nRetry : Nat := 0
deriving DecidableEq

/-- The job's error when the request is taken from the queue, the tokens the refresh callback gives
before the attempt and after a denial, and the status of the answer. -/
structure Turn where
  jobRc : Int
  requestToken : Except Int Bytes
  eStatus : Int
  unauthorizedToken : Except Int Bytes

abbrev Attempt := DispatchReq × Turn

def isAuthorization (header : Bytes) : Bool :=
  (ascii "authorization:").isPrefixOf (header.map lower)

def bearerHeader (token : Bytes) : Bytes := ascii "Authorization: Bearer " ++ token

def ioerrAuth : Int := 7178

def isDenied (eStatus : Int) : Bool := eStatus == 401 || eStatus == 403

def dispatchRetry (eStatus : Int) (nRetry : Nat) : Bool :=
  nRetry < 6 && (eStatus.tdiv 100 != 0 || eStatus == 1) && eStatus.tdiv 100 != 2 && eStatus.tdiv 100 != 3 &&
    eStatus != 403 && eStatus != 412 && eStatus != 404

namespace DispatchReq

variable (req : DispatchReq) (turn : Turn)

def replaceBearerHeader (token : Bytes) : DispatchReq :=
  { req with pList := req.pList.filter (!isAuthorization ·) ++ [bearerHeader token] }

/-- `bcvDispatchRequestAuth`; an empty token is `SQLITE_AUTH`, and `SQLITE_NOMEM` alone is passed on
as it is. -/
def requestAuth (answer : Except Int Bytes) : Except Int DispatchReq :=
  match answer with
  | .error rc => .error (if rc = 7 then rc else ioerrAuth)
  | .ok token => if token = [] then .error ioerrAuth else .ok (req.replaceBearerHeader token)

def jobUpdate : Except Int DispatchReq :=
  if turn.jobRc ≠ 0 then .error turn.jobRc
  else if req.bBearerAuth && !req.bSkipAuthRefresh then req.requestAuth turn.requestToken
  else .ok { req with bSkipAuthRefresh := false }

def answered : Except Int DispatchReq :=
  if req.bBearerAuth && req.nAuthRetry == 0 && isDenied turn.eStatus then
    (req.requestAuth turn.unauthorizedToken).map fun req =>
      { req with nAuthRetry := req.nAuthRetry + 1, bSkipAuthRefresh := true, nRetry := req.nRetry + 1 }
  else if !(req.bBearerAuth && isDenied turn.eStatus) && dispatchRetry turn.eStatus req.nRetry then
    .ok { req with nRetry := req.nRetry + 1 }
  else .error turn.eStatus

def run (req : DispatchReq) : List Turn → List Attempt × Option Int
  | [] => ([], none)
  | turn :: turns =>
    match req.jobUpdate turn with
    | .error rc => ([], some rc)
    | .ok sent =>
      match sent.answered turn with
      | .error rc => ([(sent, turn)], some rc)
      | .ok next => ((sent, turn) :: (next.run turns).1, (next.run turns).2)

def content : Method × Bytes × Bytes × List Bytes :=
  (req.eMethod, req.zUri, req.aBody, req.pList.filter (!isAuthorization ·))

def Holds (token : Bytes) : Prop := req.pList.filter isAuthorization = [bearerHeader token]

/-- Between two attempts a token is kept only if it has just been refreshed. -/
def Ready : Prop := req.bBearerAuth = true ∧ (req.bSkipAuthRefresh = true → ∃ token, req.Holds token)

theorem replaceBearerHeader_spec (token : Bytes) : (req.replaceBearerHeader token).Holds token ∧
    (req.replaceBearerHeader token).content = req.content := by
  have named : isAuthorization (bearerHeader token) = true := rfl
  simp [Holds, content, replaceBearerHeader, named]

variable {req turn} {sent next : DispatchReq}

theorem requestAuth_eq_ok {answer : Except Int Bytes} (done : req.requestAuth answer = .ok next) :
    ∃ token, answer = .ok token ∧ next = req.replaceBearerHeader token := by
  cases answer with
  | error rc => cases done
  | ok token =>
    rw [requestAuth] at done
    split_ifs at done
    cases done
    exact ⟨token, rfl, rfl⟩

theorem Ready.sends (ready : req.Ready) (done : req.jobUpdate turn = .ok sent) :
    (sent.content = req.content ∧ ∃ token, sent.Holds token) ∧ sent.bBearerAuth = true ∧
      sent.bSkipAuthRefresh = false ∧ sent.nAuthRetry = req.nAuthRetry ∧
      (req.bSkipAuthRefresh = true → sent.pList = req.pList) := by
  unfold jobUpdate at done
  split_ifs at done with failed refresh
  · simp only [Bool.and_eq_true, Bool.not_eq_true'] at refresh
    obtain ⟨token, -, rfl⟩ := requestAuth_eq_ok done
    obtain ⟨holds, same⟩ := req.replaceBearerHeader_spec token
    refine ⟨⟨same, token, holds⟩, ready.1, refresh.2, rfl, ?_⟩
    intro skip
    cases refresh.2.symm.trans skip
  · cases done
    have skip : req.bSkipAuthRefresh = true := by simpa [ready.1] using refresh
    exact ⟨⟨rfl, ready.2 skip⟩, ready.1, rfl, rfl, fun _ => rfl⟩

/-- What goes back to the queue; after a denial that happens once, with the refreshed token. -/
theorem answered_again (bearer : sent.bBearerAuth = true) (sending : sent.bSkipAuthRefresh = false)
    (again : sent.answered turn = .ok next) : next.Ready ∧ next.content = sent.content ∧
      sent.nAuthRetry ≤ next.nAuthRetry ∧ (isDenied turn.eStatus = true → sent.nAuthRetry = 0 ∧
        next.nAuthRetry ≠ 0 ∧ next.bSkipAuthRefresh = true ∧
        ∃ token, turn.unauthorizedToken = .ok token ∧ next.Holds token) := by
  unfold answered at again
  split_ifs at again with replay retry
  · obtain ⟨renewed, done, rfl⟩ := map_eq_ok.mp again
    obtain ⟨token, given, rfl⟩ := requestAuth_eq_ok done
    obtain ⟨holds, same⟩ := sent.replaceBearerHeader_spec token
    refine ⟨⟨bearer, fun _ => ⟨token, holds⟩⟩, same, Nat.le_succ _, fun _ => ?_⟩
    have first : sent.nAuthRetry = 0 := by simp_all
    exact ⟨first, Nat.succ_ne_zero _, rfl, token, given, holds⟩
  · cases again
    refine ⟨⟨bearer, fun skip => ?_⟩, rfl, le_rfl, fun denied => ?_⟩
    · cases sending.symm.trans skip
    · simp [bearer, denied] at retry

variable {turns : List Turn} {attempts rest : List Attempt} {reported : Option Int}

theorem run_cons {attempt : Attempt} (ran : req.run turns = (attempt :: rest, reported)) :
    req.jobUpdate attempt.2 = .ok attempt.1 ∧
      ((∃ rc, attempt.1.answered attempt.2 = .error rc ∧ rest = [] ∧ reported = some rc) ∨
        ∃ next later, attempt.1.answered attempt.2 = .ok next ∧ next.run later = (rest, reported)) := by
  cases turns with
  | nil => cases ran
  | cons turn turns =>
    rw [run] at ran
    cases update : req.jobUpdate turn with
    | error rc => simp [update] at ran
    | ok sent =>
      cases again : sent.answered turn with
      | error rc =>
        simp only [update, again] at ran
        cases ran
        exact ⟨update, .inl ⟨rc, again, rfl, rfl⟩⟩
      | ok next =>
        simp only [update, again] at ran
        cases ran
        exact ⟨update, .inr ⟨next, turns, again, rfl⟩⟩

theorem Ready.run_spec (ready : req.Ready) (ran : req.run turns = (attempts, reported)) :
    (∀ attempt ∈ attempts, attempt.1.content = req.content ∧ ∃ token, attempt.1.Holds token) ∧
      ∀ before first after, attempts = before ++ first :: after → isDenied first.2.eStatus = true →
        (req.nAuthRetry ≠ 0 ∨ (∃ earlier ∈ before, isDenied earlier.2.eStatus = true) →
          after = [] ∧ reported = some first.2.eStatus) ∧
        ∀ next ∈ after.head?, ∃ token, first.2.unauthorizedToken = .ok token ∧ next.1.Holds token := by
  induction attempts generalizing req turns with
  | nil => simp
  | cons attempt rest ih =>
    obtain ⟨update, ended⟩ := run_cons ran
    obtain ⟨same, bearer, sending, count, -⟩ := ready.sends update
    rcases ended with ⟨rc, answer, rfl, rfl⟩ | ⟨next, later, again, ran⟩
    · refine ⟨by simpa using same, fun before first after split denied => ?_⟩
      obtain ⟨rfl, rfl, rfl⟩ : before = [] ∧ attempt = first ∧ after = [] := by
        cases before <;> simp_all
      refine ⟨fun spent => ⟨rfl, ?_⟩, by simp⟩
      have spent : attempt.1.nAuthRetry ≠ 0 := by simpa [count] using spent
      simp [answered, bearer, denied, spent] at answer
      rw [answer]
    · obtain ⟨next_ready, kept, more, replays⟩ := answered_again bearer sending again
      obtain ⟨all, pairs⟩ := ih next_ready ran
      refine ⟨List.forall_mem_cons.mpr ⟨same, fun other member => ?_⟩, fun before first after split denied => ?_⟩
      · rw [← same.1, ← kept]
        exact all other member
      · cases before with
        | nil =>
          obtain ⟨rfl, rfl⟩ := List.cons.inj split
          obtain ⟨unspent, -, skip, token, given, holds⟩ := replays denied
          refine ⟨fun spent => absurd unspent (by simpa [count] using spent), fun second there => ?_⟩
          obtain ⟨rest, rfl⟩ := List.head?_eq_some_iff.mp there
          have list := (next_ready.sends (run_cons ran).1).2.2.2.2 skip
          exact ⟨token, given, by rwa [Holds, list]⟩
        | cons earlier before =>
          obtain ⟨rfl, rfl⟩ := List.cons.inj split
          obtain ⟨last, refreshed⟩ := pairs before first after rfl denied
          refine ⟨fun spent => last ?_, refreshed⟩
          rw [List.exists_mem_cons_iff, ← or_assoc] at spent
          refine spent.imp_left ?_
          rintro (spent | denied)
          · omega
          · exact (replays denied).2.1

def left (req : DispatchReq) : Nat :=
  6 - req.nRetry + if req.bBearerAuth && req.nAuthRetry == 0 then 1 else 0

theorem jobUpdate_left (done : req.jobUpdate turn = .ok sent) : sent.left = req.left := by
  unfold jobUpdate at done
  split_ifs at done
  · obtain ⟨token, -, rfl⟩ := requestAuth_eq_ok done
    rfl
  · cases done
    rfl

theorem answered_left (again : sent.answered turn = .ok next) : next.left < sent.left := by
  unfold answered at again
  split_ifs at again with replay retry
  · obtain ⟨renewed, done, rfl⟩ := map_eq_ok.mp again
    obtain ⟨token, -, rfl⟩ := requestAuth_eq_ok done
    simp_all [left, replaceBearerHeader]
    omega
  · cases again
    simp [dispatchRetry] at retry
    simp only [left]
    omega

end DispatchReq

/-- Each attempt repeats the request with one Authorization header. After a denial that header has the
refreshed token, and a second denial is reported and ends the attempts. -/
theorem denied_replayed_once (eMethod : Method) (zUri : Bytes) (pList : List Bytes) (aBody : Bytes)
    (turns : List Turn) :
    let req : DispatchReq := { eMethod, zUri, pList, aBody, bBearerAuth := true }
    (∀ attempt ∈ (req.run turns).1,
      attempt.1.content = req.content ∧ ∃ token, attempt.1.Holds token) ∧
    ∀ before first after, (req.run turns).1 = before ++ first :: after →
      isDenied first.2.eStatus = true →
        ((∃ earlier ∈ before, isDenied earlier.2.eStatus = true) →
          after = [] ∧ (req.run turns).2 = some first.2.eStatus) ∧
        ∀ next ∈ after.head?, ∃ token, first.2.unauthorizedToken = .ok token ∧ next.1.Holds token := by
  intro req
  have ready : req.Ready := ⟨rfl, by simp [req]⟩
  obtain ⟨same, pairs⟩ := ready.run_spec (Prod.mk.eta (p := req.run turns)).symm
  refine ⟨same, fun before first after split denied => ?_⟩
  obtain ⟨last, refreshed⟩ := pairs before first after split denied
  exact ⟨fun earlier => last (.inr earlier), refreshed⟩

/-- The replay of a denied attempt was answered 503, and the same request went out a third time. -/
theorem denied_sent_twice_more :
    let turn (eStatus : Int) : Turn := ⟨0, .ok (ascii "old"), eStatus, .ok (ascii "new")⟩
    let sent (token : Bytes) : DispatchReq :=
      ⟨.put, ascii "/object", [ascii "x: y", bearerHeader token], ascii "body", true, false, 0, 0⟩
    let run := (⟨.put, ascii "/object", [ascii "x: y"], ascii "body", true, false, 0, 0⟩ : DispatchReq).run
      [turn 401, turn 503, turn 200]
    run.1.map (fun attempt => attempt.2.eStatus) = [401, 503, 200] ∧
      run.1.map Prod.fst = [sent (ascii "old"), { sent (ascii "new") with nAuthRetry := 1, nRetry := 1 },
        { sent (ascii "old") with nAuthRetry := 1, nRetry := 2 }] := by
  intro turn sent run
  decide +kernel

/-- A request is sent eight times at most, and seven times without a bearer token; its callback is called
by then. -/
theorem dispatch_ends (req : DispatchReq) (turns : List Turn) :
    (req.run turns).1.length ≤ (if req.bBearerAuth then 8 else 7) ∧
      ((if req.bBearerAuth then 8 else 7) ≤ turns.length → (req.run turns).2.isSome = true) := by
  have bound : req.left < if req.bBearerAuth then 8 else 7 := by
    unfold DispatchReq.left
    cases req.bBearerAuth <;> grind
  suffices ends : (req.run turns).1.length ≤ req.left + 1 ∧
      (req.left < turns.length → (req.run turns).2.isSome = true) from
    ⟨ends.1.trans bound, fun enough => ends.2 (bound.trans_le enough)⟩
  clear bound
  induction turns generalizing req with
  | nil => simp [DispatchReq.run]
  | cons turn turns ih =>
    rw [DispatchReq.run]
    cases update : req.jobUpdate turn with
    | error rc => simp
    | ok sent =>
      rw [← DispatchReq.jobUpdate_left update]
      cases again : sent.answered turn with
      | error rc => simp [again]
      | ok next =>
        have fewer := DispatchReq.answered_left again
        obtain ⟨few, ends⟩ := ih next
        simp only [again, List.length_cons]
        exact ⟨by omega, fun enough => ends (by omega)⟩

end RusqDoltlite.Cloud

import Ironclaw.Secrets.Broker

/-! # Sessions minted on first use

What holds of the broker in every state it can reach (`Broker.Sound`): both indices name existing
sessions only, and the count of a minted session is the number of leases on it that are held.
Joining a cached session makes none of the checks of `build_session`; `Broker.Rechecked` says when this
makes no difference. -/

namespace Ironclaw.Secrets

variable {crate : UrlCrate}

/-! ### What `build_session` accepts -/

/-- The account of a request, as it is now, would admit the method and the URL. -/
def Admits (crate : UrlCrate) (accounts : Table CredentialAccount.key) (request : CredentialSessionRequest) :
    Prop :=
  ∃ account, accounts.get (.new request.scope request.accountId) = some account ∧
    account.providerOrExtensionId = request.extensionId ∧ account.status = .active ∧
    ∃ target ∈ account.allowedTargets, target.matches crate request.method request.url = true

section build
variable {accounts : Table CredentialAccount.key} {request : CredentialSessionRequest}
  {now : Timestamp} {fresh : CredentialSessionId}

theorem buildSession_ok {session : CredentialSession}
    (h : buildSession crate accounts request now fresh = .ok session) :
    request.invocationId = request.scope.invocationId ∧ Admits crate accounts request ∧
      session.scope = request.scope ∧ session.capabilityId = request.capabilityId ∧
      session.accountId = request.accountId ∧ session.correlationId = fresh := by
  unfold buildSession at h
  split at h
  · cases h
  rename_i hinvocation
  split at h
  · cases h
  rename_i account haccount
  split at h
  · cases h
  rename_i hkey
  split at h
  · cases h
  rename_i hextension
  split at h
  · cases h
  · cases h
  rename_i hstatus
  split at h
  · cases h
  rename_i htargets
  rw [Except.ok.injEq] at h
  subst h
  rw [ne_eq, not_not] at hinvocation hkey hextension
  rw [Bool.not_eq_true', Bool.not_eq_false, List.any_eq_true] at htargets
  refine ⟨hinvocation, ⟨account, haccount, hextension, hstatus, htargets⟩, rfl, rfl, ?_, rfl⟩
  exact congrArg CredentialAccountKey.accountId hkey

theorem exists_buildSession (hinvocation : request.invocationId = request.scope.invocationId)
    (h : Admits crate accounts request) :
    ∃ session, buildSession crate accounts request now fresh = .ok session := by
  obtain ⟨account, haccount, hextension, hstatus, htargets⟩ := h
  rw [← List.any_eq_true] at htargets
  have hkey := Table.key_of_get haccount
  unfold buildSession
  rw [if_neg (not_not.2 hinvocation), haccount]
  dsimp only
  rw [if_neg (not_not.2 hkey), if_neg (not_not.2 hextension), hstatus, htargets]
  exact ⟨_, rfl⟩

end build

/-! ### The indices -/

/-- A session that may stand in the index under a key. -/
structure Fits (key : JitMintKey) (session : CredentialSession) : Prop where
  invocation : session.scope.invocationId = key.invocationId
  capability : session.capabilityId = key.capabilityId
  account : session.accountId = key.accountId

/-- Both indices name existing sessions only, and the first one minted sessions. -/
structure Indexed (minted : List CredentialSessionId) (state : SessionState) : Prop where
  jit : ∀ row ∈ state.jitMinted.rows, row.2 ∈ minted ∧
    ∃ record, state.sessions.get row.2 = some record ∧ Fits row.1 record.session
  bound : ∀ row ∈ state.sessionsByPlaceholder.rows, ∀ id ∈ row.2,
    ∃ record, state.sessions.get id = some record

section indexed
variable {minted : List CredentialSessionId} {state : SessionState}

variable (h : Indexed minted state)
include h

/-- The sessions may change in everything but the session itself. -/
theorem Indexed.of_sessions {sessions : Table CredentialSessionRecord.id}
    (hkept : ∀ id record, state.sessions.get id = some record →
      ∃ record', sessions.get id = some record' ∧ record'.session = record.session) :
    Indexed minted { state with sessions := sessions } where
  jit row hrow := by
    obtain ⟨hminted, record, hget, hfits⟩ := h.jit row hrow
    obtain ⟨record', hget', hsession⟩ := hkept _ _ hget
    exact ⟨hminted, record', hget', hsession ▸ hfits⟩
  bound row hrow id hid := by
    obtain ⟨record, hget⟩ := h.bound row hrow id hid
    obtain ⟨record', hget', _⟩ := hkept _ _ hget
    exact ⟨record', hget'⟩

theorem Indexed.put (record : CredentialSessionRecord)
    {old : CredentialSessionRecord} (hold : state.sessions.get record.id = some old) (hsession : record.session = old.session) :
    Indexed minted { state with sessions := state.sessions.put record } := by
  refine h.of_sessions fun id found hfound => ?_
  by_cases hid : record.id = id
  · subst hid
    rw [hold, Option.some.injEq] at hfound
    subst hfound
    exact ⟨record, Table.get_put_self _ _, hsession⟩
  · exact ⟨found, by rw [Table.get_put_of_ne _ hid, hfound], rfl⟩

theorem Indexed.remove (sessionId : CredentialSessionId) :
    Indexed minted (state.removeSessionAndIndices sessionId) where
  jit row hrow := by
    obtain ⟨hold, hne⟩ := List.mem_filter.1 hrow
    obtain ⟨hminted, record, hget, hfits⟩ := h.jit row hold
    refine ⟨hminted, record, ?_, hfits⟩
    show (state.sessions.remove sessionId).get row.2 = _
    rw [Table.get_remove, if_neg (Ne.symm (of_decide_eq_true hne)), hget]
  bound row hrow id hid := by
    obtain ⟨hmapped, -⟩ := List.mem_filter.1 hrow
    obtain ⟨old, hold, rfl⟩ := List.mem_map.1 hmapped
    obtain ⟨hid, hne⟩ := List.mem_filter.1 hid
    obtain ⟨record, hget⟩ := h.bound old hold id hid
    refine ⟨record, ?_⟩
    show (state.sessions.remove sessionId).get id = _
    rw [Table.get_remove, if_neg (Ne.symm (of_decide_eq_true hne)), hget]

theorem Indexed.release (sessionId : CredentialSessionId) :
    Indexed minted (state.releaseLeaseInState sessionId) := by
  unfold SessionState.releaseLeaseInState
  split
  · rename_i record hget
    split
    · have hid : record.id = sessionId := Table.key_of_get hget
      exact h.put { record with leaseCount := record.leaseCount - 1 }
        (show state.sessions.get record.id = some record by rw [hid, hget]) rfl
    · exact h.remove sessionId
  · exact h.remove sessionId

theorem Indexed.bind (placeholder : CredentialPlaceholderToken)
    {sessionId : CredentialSessionId} (hlive : ∃ record, state.sessions.get sessionId = some record) :
    Indexed minted (state.bindPlaceholderToSession placeholder sessionId) where
  jit := h.jit
  bound row hrow id hid := by
    rcases (Table.mem_put _ _ _).1 hrow with rfl | ⟨hold, -⟩
    · rcases List.mem_insert_iff.1 hid with rfl | hid
      · exact hlive
      · cases hget : state.sessionsByPlaceholder.get placeholder with
        | none =>
          rw [hget] at hid
          cases hid
        | some old =>
          rw [hget] at hid
          exact h.bound old (Table.mem_of_get hget) id hid
    · exact h.bound row hold id hid

theorem Indexed.publish {key : JitMintKey} {session : CredentialSession}
    (hnew : state.sessions.get session.correlationId = none) (hfits : Fits key session) :
    Indexed (session.correlationId :: minted) (state.publish key session) := by
  have hkept : ∀ id record, state.sessions.get id = some record →
      (state.publish key session).sessions.get id = some record := by
    intro id record hget
    have hne : CredentialSessionRecord.id ⟨session, 0, 1⟩ ≠ id := by
      rintro rfl
      exact absurd (hnew.symm.trans hget) nofun
    exact (Table.get_put_of_ne state.sessions hne).trans hget
  refine ⟨fun row hrow => ?_, fun row hrow id hid => ?_⟩
  · rcases (Table.mem_put _ _ _).1 hrow with rfl | ⟨hold, -⟩
    · exact ⟨List.mem_cons_self, _, Table.get_put_self _ _, hfits⟩
    · obtain ⟨hminted, record, hget, hfits'⟩ := h.jit row hold
      exact ⟨List.mem_cons_of_mem _ hminted, record, hkept _ _ hget, hfits'⟩
  · obtain ⟨record, hget⟩ := h.bound row hrow id hid
    exact ⟨record, hkept _ _ hget⟩

omit h

end indexed

/-! ### The counts -/

namespace Broker

/-- The leases on a session that are held. -/
def outstanding (broker : Broker) (sessionId : CredentialSessionId) : ℕ :=
  broker.leases.countP fun lease => lease.sessionId = sessionId && !lease.revoked

/-- How many leases the broker counts for a session, when it exists. -/
def leaseCount (broker : Broker) (sessionId : CredentialSessionId) : Option ℕ :=
  (broker.state.sessions.get sessionId).map CredentialSessionRecord.leaseCount

/-- A minted session exists while it has a lease and was not revoked. -/
def Live (broker : Broker) (sessionId : CredentialSessionId) : Prop :=
  0 < broker.outstanding sessionId ∧ sessionId ∉ broker.revoked

/-- What holds in every state of the broker. -/
structure Sound (broker : Broker) : Prop where
  indexed : Indexed broker.minted broker.state
  live : ∀ id ∈ broker.minted, broker.Live id → broker.leaseCount id = some (broker.outstanding id)
  gone : ∀ id ∈ broker.minted, ¬ broker.Live id → broker.leaseCount id = none
  lent : ∀ lease ∈ broker.leases, lease.sessionId ∈ broker.minted
  stored : ∀ id record, broker.state.sessions.get id = some record → id ∈ broker.issued
  minted : ∀ id ∈ broker.minted, id ∈ broker.issued
  revoked : ∀ id ∈ broker.revoked, id ∈ broker.minted

theorem sound_new : Sound new where
  indexed := ⟨fun _ h => (by cases h), fun _ h => (by cases h)⟩
  live _ h := by cases h
  gone _ h := by cases h
  lent _ h := by cases h
  stored _ _ h := by cases h
  minted _ h := by cases h
  revoked _ h := by cases h

variable {broker : Broker}

theorem outstanding_append (broker : Broker) (sessionId id : CredentialSessionId) :
    (broker.leases ++ [(⟨sessionId, false⟩ : CredentialSessionLease)]).countP
        (fun lease => lease.sessionId = id && !lease.revoked) =
      broker.outstanding id + if sessionId = id then 1 else 0 := by
  rw [List.countP_append, outstanding]
  by_cases hid : sessionId = id
  · simp [hid]
  · simp [hid]

theorem outstanding_set {lease : ℕ} {held : CredentialSessionLease} (h : broker.leases[lease]? = some held)
    (hheld : held.revoked = false) (id : CredentialSessionId) :
    (broker.leases.set lease { held with revoked := true }).countP
        (fun lease => lease.sessionId = id && !lease.revoked) =
      broker.outstanding id - if held.sessionId = id then 1 else 0 := by
  obtain ⟨hlt, hget⟩ := List.getElem?_eq_some_iff.1 h
  rw [List.countP_set hlt, hget, outstanding]
  by_cases hid : held.sessionId = id
  · simp [hid, hheld]
  · simp [hid]

theorem outstanding_pos {lease : ℕ} {held : CredentialSessionLease} (h : broker.leases[lease]? = some held)
    (hheld : held.revoked = false) : 0 < broker.outstanding held.sessionId := by
  rw [outstanding, List.countP_pos_iff]
  exact ⟨held, List.mem_of_getElem? h, by simp [hheld]⟩

/-! ### Joining a cached session -/

variable (h : broker.Sound)
include h

theorem Sound.row {key : JitMintKey} {row : JitMintKey × CredentialSessionId}
    (hrow : broker.state.jitMinted.get key = some row) :
    row.2 ∈ broker.minted ∧ ∃ record, broker.state.sessions.get row.2 = some record ∧
      Fits key record.session ∧ record.leaseCount = broker.outstanding row.2 ∧ broker.Live row.2 := by
  have hkey : row.1 = key := Table.key_of_get hrow
  obtain ⟨hminted, record, hget, hfits⟩ := h.indexed.jit row (Table.mem_of_get hrow)
  have hcount : broker.leaseCount row.2 = some record.leaseCount := by
    rw [leaseCount, hget]
    rfl
  have hlive : broker.Live row.2 := by
    by_contra hdead
    rw [h.gone _ hminted hdead] at hcount
    cases hcount
  rw [h.live _ hminted hlive, Option.some.injEq] at hcount
  exact ⟨hminted, record, hget, hkey ▸ hfits, hcount.symm, hlive⟩

/-- The index has, under a key, a session that can be used now. -/
def Cached (broker : Broker) (key : JitMintKey) (now : Timestamp) (id : CredentialSessionId)
    (record : CredentialSessionRecord) : Prop :=
  broker.state.jitMinted.get key = some (key, id) ∧ broker.state.sessions.get id = some record ∧
    ensureCredentialSessionRecordUsable record id now = .ok ()

variable {id : CredentialSessionId} {record : CredentialSessionRecord} {now : Timestamp}

omit h in
theorem ensureUsable_error {error : CredentialBrokerError}
    (h : ensureCredentialSessionRecordUsable record id now = .error error) :
    error = .sessionExpired id ∨ error = .sessionUseLimitExceeded id := by
  unfold ensureCredentialSessionRecordUsable at h
  split at h
  · cases h
    exact .inl rfl
  · split at h
    · cases h
      exact .inr rfl
    · cases h

omit h in
/-- A lease that was counted and given back leaves the sessions as they were. -/
theorem releaseLeaseInState_join {state : SessionState} (hget : state.sessions.get id = some record)
    (hcount : 0 < record.leaseCount) :
    ∃ sessions, SessionState.releaseLeaseInState { state with
        sessions := state.sessions.put { record with leaseCount := record.leaseCount + 1 } } id =
        { state with sessions := sessions } ∧ ∀ other, sessions.get other = state.sessions.get other := by
  have hid : record.id = id := Table.key_of_get hget
  subst hid
  have hjoined : (state.sessions.put { record with leaseCount := record.leaseCount + 1 }).get record.id =
      some { record with leaseCount := record.leaseCount + 1 } := Table.get_put_self state.sessions _
  unfold SessionState.releaseLeaseInState
  dsimp only
  rw [hjoined]
  dsimp only
  rw [if_pos (by omega)]
  refine ⟨_, rfl, fun other => ?_⟩
  rw [Table.get_put, Table.get_put]
  show (if record.id = other then some record else if record.id = other then _ else _) = _
  by_cases hother : record.id = other
  · rw [if_pos hother, ← hother, hget]
  · rw [if_neg hother, if_neg hother]

/-- Either a lease is joined, or the sessions are as they were. -/
theorem Sound.joinMinted (key : JitMintKey) (now : Timestamp) :
    (∃ id record, broker.Cached key now id record ∧ broker.state.joinMinted key now =
      (.ok (some id), { broker.state with
        sessions := broker.state.sessions.put { record with leaseCount := record.leaseCount + 1 } })) ∨
    (∃ sessions, broker.state.joinMinted key now = (.ok none, { broker.state with sessions := sessions }) ∧
      (∀ id, sessions.get id = broker.state.sessions.get id) ∧
      ∀ id record, ¬ broker.Cached key now id record) := by
  unfold SessionState.joinMinted
  cases hrow : broker.state.jitMinted.get key with
  | none =>
    refine .inr ⟨broker.state.sessions, rfl, fun _ => rfl, fun id record hcached => ?_⟩
    exact absurd (hrow.symm.trans hcached.1) nofun
  | some row =>
    obtain ⟨-, record, hget, -, hcount, hlive, -⟩ := h.row hrow
    have hkey : row.1 = key := Table.key_of_get hrow
    have hid : record.id = row.2 := Table.key_of_get hget
    dsimp only
    unfold SessionState.tryJoinLiveLease
    rw [hget]
    dsimp only
    cases husable : ensureCredentialSessionRecordUsable record row.2 now with
    | ok _ =>
      have husable' : ensureCredentialSessionRecordUsable
          { record with leaseCount := record.leaseCount + 1 } row.2 now = .ok () := husable
      rw [husable']
      exact .inl ⟨row.2, record, ⟨by rw [hrow, ← hkey], hget, husable⟩, rfl⟩
    | error error =>
      have husable' : ensureCredentialSessionRecordUsable
          { record with leaseCount := record.leaseCount + 1 } row.2 now = .error error := husable
      rw [husable']
      obtain ⟨sessions, hrelease, hsame⟩ := releaseLeaseInState_join hget (hcount ▸ hlive)
      refine .inr ⟨sessions, ?_, hsame, fun id found hcached => ?_⟩
      · dsimp only
        rw [hrelease]
        rcases ensureUsable_error husable with rfl | rfl
        · rfl
        · rfl
      · obtain ⟨hrow', hget', hcached⟩ := hcached
        rw [hrow, Option.some.injEq] at hrow'
        rw [hrow'] at hget husable
        rw [hget, Option.some.injEq] at hget'
        rw [← hget', husable] at hcached
        cases hcached

/-! ### What each operation keeps -/

theorem Sound.of_sessions {sessions : Table CredentialSessionRecord.id}
    {issued : List CredentialSessionId}
    (hkept : ∀ id record, broker.state.sessions.get id = some record →
      ∃ record', sessions.get id = some record' ∧ record'.session = record.session)
    (hcount : ∀ id ∈ broker.minted, (sessions.get id).map CredentialSessionRecord.leaseCount =
      broker.leaseCount id)
    (hstored : ∀ id record, sessions.get id = some record → id ∈ issued)
    (hissued : ∀ id ∈ broker.issued, id ∈ issued) :
    Sound { broker with state := { broker.state with sessions := sessions }, issued := issued } where
  indexed := h.indexed.of_sessions hkept
  live id hid hlive := (hcount id hid).trans (h.live id hid hlive)
  gone id hid hdead := (hcount id hid).trans (h.gone id hid hdead)
  lent := h.lent
  stored := hstored
  minted id hid := hissued id (h.minted id hid)
  revoked := h.revoked

variable {fresh : CredentialSessionId}

theorem Sound.createSession (request : CredentialSessionRequest) (now : Timestamp)
    (hfresh : fresh ∉ broker.issued) :
    Sound (broker.createSession crate request now fresh).2 := by
  unfold Broker.createSession
  cases hbuild : buildSession crate broker.accounts request now fresh with
  | error error => exact h
  | ok session =>
    have hid : CredentialSessionRecord.id ⟨session, 0, 0⟩ = fresh := (buildSession_ok hbuild).2.2.2.2.2
    have hother : ∀ id ∈ broker.issued,
        (broker.state.sessions.put ⟨session, 0, 0⟩).get id = broker.state.sessions.get id := by
      intro id hissued
      refine Table.get_put_of_ne broker.state.sessions ?_
      rw [hid]
      rintro rfl
      exact hfresh hissued
    refine h.of_sessions (fun id record hget => ?_) (fun id hminted => ?_) (fun id record hget => ?_)
      fun id hissued => List.mem_cons_of_mem _ hissued
    · exact ⟨record, (hother id (h.stored id record hget)).trans hget, rfl⟩
    · rw [hother id (h.minted id hminted), leaseCount]
    · rw [Table.get_put, hid] at hget
      split at hget
      · rename_i heq
        exact heq ▸ List.mem_cons_self
      · exact List.mem_cons_of_mem _ (h.stored id record hget)

theorem Sound.consumeSessionUse (sessionId : CredentialSessionId) (now : Timestamp) :
    Sound { broker with state := (broker.state.consumeSessionUse sessionId now).2 } := by
  unfold SessionState.consumeSessionUse
  split
  · exact h
  · rename_i record hget
    split
    · exact h
    · have hid : record.id = sessionId := Table.key_of_get hget
      subst hid
      have hnew : ∀ id, (broker.state.sessions.put { record with uses := record.uses + 1 }).get id =
          if record.id = id then some { record with uses := record.uses + 1 }
          else broker.state.sessions.get id := Table.get_put broker.state.sessions _
      refine h.of_sessions (fun id found hfound => ?_) (fun id _ => ?_) (fun id found hfound => ?_)
        fun id hissued => hissued
      · rw [hnew]
        split
        · rename_i heq
          rw [← heq, hget, Option.some.injEq] at hfound
          exact ⟨_, rfl, by rw [← hfound]⟩
        · exact ⟨found, hfound, rfl⟩
      · rw [hnew, leaseCount]
        split
        · rename_i heq
          rw [← heq, hget]
          rfl
        · rfl
      · rw [hnew] at hfound
        split at hfound
        · rename_i heq
          exact heq ▸ h.stored _ _ hget
        · exact h.stored _ _ hfound

theorem Sound.revokeSession (sessionId : CredentialSessionId) :
    Sound (broker.revokeSession sessionId) := by
  have hget : ∀ id, (broker.state.removeSessionAndIndices sessionId).sessions.get id =
      if sessionId = id then none else broker.state.sessions.get id :=
    Table.get_remove broker.state.sessions sessionId
  have hrevoked : ∀ id ∈ broker.minted, id ∈ (broker.revokeSession sessionId).revoked ↔
      id = sessionId ∨ id ∈ broker.revoked := by
    intro id hminted
    show id ∈ (if sessionId ∈ broker.minted then sessionId :: broker.revoked else broker.revoked) ↔ _
    split
    · exact List.mem_cons
    · rename_i hnot
      refine ⟨.inr, fun hid => hid.resolve_left ?_⟩
      rintro rfl
      exact hnot hminted
  refine ⟨h.indexed.remove sessionId, fun id hminted hlive => ?_, fun id hminted hdead => ?_, h.lent,
    fun id record hstored => ?_, h.minted, fun id hid => ?_⟩
  · obtain ⟨hheld, hnot⟩ := hlive
    rw [hrevoked id hminted, not_or] at hnot
    show ((broker.state.removeSessionAndIndices sessionId).sessions.get id).map _ = _
    rw [hget, if_neg (Ne.symm hnot.1)]
    exact h.live id hminted ⟨hheld, hnot.2⟩
  · show ((broker.state.removeSessionAndIndices sessionId).sessions.get id).map _ = _
    rw [hget]
    split
    · rfl
    · rename_i hne
      refine h.gone id hminted fun hlive => hdead ⟨hlive.1, fun hin => ?_⟩
      rcases (hrevoked id hminted).1 hin with heq | hin
      · exact hne heq.symm
      · exact hlive.2 hin
  · have hstored' := (hget id).symm.trans hstored
    split at hstored'
    · cases hstored'
    · exact h.stored id record hstored'
  · have hid' : id ∈ if sessionId ∈ broker.minted then sessionId :: broker.revoked else broker.revoked := hid
    split at hid'
    · rcases List.mem_cons.1 hid' with rfl | hid'
      · assumption
      · exact h.revoked id hid'
    · exact h.revoked id hid'

omit h in
theorem get_releaseLeaseInState (state : SessionState) (sessionId id : CredentialSessionId) :
    (state.releaseLeaseInState sessionId).sessions.get id =
      if sessionId = id then
        (state.sessions.get sessionId).bind fun record =>
          if 1 < record.leaseCount then some { record with leaseCount := record.leaseCount - 1 } else none
      else state.sessions.get id := by
  have hremove : (state.removeSessionAndIndices sessionId).sessions.get id =
      if sessionId = id then none else state.sessions.get id :=
    Table.get_remove state.sessions sessionId id
  unfold SessionState.releaseLeaseInState
  cases hget : state.sessions.get sessionId with
  | none => exact hremove
  | some record =>
    have hid : record.id = sessionId := Table.key_of_get hget
    dsimp only [Option.bind_some]
    split
    · rename_i hmany
      have hput := Table.get_put state.sessions { record with leaseCount := record.leaseCount - 1 } id
      rw [show CredentialSessionRecord.id { record with leaseCount := record.leaseCount - 1 } = sessionId
        from hid] at hput
      exact hput
    · exact hremove

theorem Sound.revokeInner (lease : ℕ) : Sound (broker.revokeInner lease) := by
  unfold Broker.revokeInner
  cases hlease : broker.leases[lease]? with
  | none => exact h
  | some held =>
    dsimp only
    cases hheld : held.revoked with
    | true => exact h
    | false =>
      rw [if_neg Bool.false_ne_true]
      have hminted := h.lent held (List.mem_of_getElem? hlease)
      have hpos := outstanding_pos hlease hheld
      refine ⟨h.indexed.release held.sessionId, fun id hid hlive => ?_, fun id hid hdead => ?_,
        fun other hother => ?_, fun id record hget => ?_, h.minted, h.revoked⟩
      · obtain ⟨hleft, hnot⟩ := hlive
        have hcount := outstanding_set hlease hheld id
        have hleft' := lt_of_lt_of_eq hleft hcount
        show ((broker.state.releaseLeaseInState held.sessionId).sessions.get id).map _ = some _
        rw [get_releaseLeaseInState]
        refine Eq.trans ?_ (congrArg some hcount.symm)
        split
        · rename_i heq
          subst heq
          rw [if_pos rfl] at hleft'
          have hold := h.live _ hminted ⟨hpos, hnot⟩
          rw [leaseCount] at hold
          obtain ⟨record, hget, hrecord⟩ := Option.map_eq_some_iff.1 hold
          rw [hget, Option.bind_some, if_pos (by omega), ← hrecord]
          rfl
        · rename_i hne
          rw [if_neg hne, Nat.sub_zero] at hleft'
          exact h.live id hid ⟨hleft', hnot⟩
      · have hcount := outstanding_set hlease hheld id
        show ((broker.state.releaseLeaseInState held.sessionId).sessions.get id).map _ = none
        rw [get_releaseLeaseInState]
        split
        · rename_i heq
          subst heq
          rw [if_pos rfl] at hcount
          by_cases hnot : held.sessionId ∈ broker.revoked
          · have hold := h.gone _ hminted fun hlive => hlive.2 hnot
            rw [leaseCount, Option.map_eq_none_iff] at hold
            rw [hold]
            rfl
          · have hold := h.live _ hminted ⟨hpos, hnot⟩
            rw [leaseCount] at hold
            obtain ⟨record, hget, hrecord⟩ := Option.map_eq_some_iff.1 hold
            have hlast : ¬ 1 < record.leaseCount := by
              intro hmany
              refine hdead ⟨?_, hnot⟩
              show 0 < List.countP _ _
              rw [hcount, ← hrecord]
              omega
            rw [hget, Option.bind_some, if_neg hlast]
            rfl
        · rename_i hne
          rw [if_neg hne, Nat.sub_zero] at hcount
          refine h.gone id hid fun hlive => hdead ⟨?_, hlive.2⟩
          show 0 < List.countP _ _
          rw [hcount]
          exact hlive.1
      · rcases List.mem_or_eq_of_mem_set hother with hother | rfl
        · exact h.lent other hother
        · exact hminted
      · have hget' := (get_releaseLeaseInState broker.state held.sessionId id).symm.trans hget
        split at hget'
        · rename_i heq
          obtain ⟨old, hold, -⟩ := Option.bind_eq_some_iff.1 hget'
          exact heq ▸ h.stored _ old hold
        · exact h.stored id record hget'

/-- A state in which one more lease is counted for a session than is held. -/
structure Lending (broker : Broker) (id : CredentialSessionId) : Prop where
  indexed : Indexed broker.minted broker.state
  mem : id ∈ broker.minted
  kept : id ∉ broker.revoked
  count : broker.leaseCount id = some (broker.outstanding id + 1)
  live : ∀ other ∈ broker.minted, id ≠ other → broker.Live other →
    broker.leaseCount other = some (broker.outstanding other)
  gone : ∀ other ∈ broker.minted, id ≠ other → ¬ broker.Live other → broker.leaseCount other = none
  lent : ∀ lease ∈ broker.leases, lease.sessionId ∈ broker.minted
  stored : ∀ other record, broker.state.sessions.get other = some record → other ∈ broker.issued
  minted : ∀ other ∈ broker.minted, other ∈ broker.issued
  revoked : ∀ other ∈ broker.revoked, other ∈ broker.minted

omit h in
theorem Lending.lend (h : broker.Lending id)
    (placeholder : CredentialPlaceholderToken) : Sound (broker.lend placeholder id).2 := by
  have hexists : ∃ record, broker.state.sessions.get id = some record := by
    obtain ⟨record, hget, -⟩ := Option.map_eq_some_iff.1 h.count
    exact ⟨record, hget⟩
  have hleases : ∀ other, (broker.lend placeholder id).2.outstanding other =
      broker.outstanding other + if id = other then 1 else 0 := outstanding_append broker id
  have hcount : ∀ other, (broker.lend placeholder id).2.leaseCount other = broker.leaseCount other :=
    fun _ => rfl
  refine ⟨h.indexed.bind placeholder hexists, fun other hother hlive => ?_, fun other hother hdead => ?_,
    fun lease hlease => ?_, h.stored, h.minted, h.revoked⟩
  · rw [hleases, hcount]
    split
    · rename_i heq
      exact heq ▸ h.count
    · rename_i hne
      have hpos := hlive.1
      rw [hleases, if_neg hne] at hpos
      exact h.live other hother hne ⟨hpos, hlive.2⟩
  · by_cases heq : id = other
    · subst heq
      refine absurd ⟨?_, h.kept⟩ hdead
      rw [hleases, if_pos rfl]
      exact Nat.succ_pos _
    · refine h.gone other hother heq fun hlive => hdead ⟨?_, hlive.2⟩
      rw [hleases, if_neg heq]
      exact hlive.1
  · rcases List.mem_append.1 hlease with hlease | hlease
    · exact h.lent lease hlease
    · rw [List.mem_singleton.1 hlease]
      exact h.mem

theorem Sound.join {key : JitMintKey} (hcached : broker.Cached key now id record) :
    Lending { broker with state := { broker.state with
      sessions := broker.state.sessions.put { record with leaseCount := record.leaseCount + 1 } } } id := by
  obtain ⟨hminted, found, hfound, -, hcount, hlive⟩ := h.row hcached.1
  dsimp only at hminted hfound hcount hlive
  rw [hcached.2.1, Option.some.injEq] at hfound
  subst hfound
  have hid : record.id = id := Table.key_of_get hcached.2.1
  subst hid
  have hget : ∀ other,
      (broker.state.sessions.put { record with leaseCount := record.leaseCount + 1 }).get other =
        if record.id = other then some { record with leaseCount := record.leaseCount + 1 }
        else broker.state.sessions.get other := Table.get_put broker.state.sessions _
  have hother : ∀ other, record.id ≠ other →
      ((broker.state.sessions.put { record with leaseCount := record.leaseCount + 1 }).get other).map
        CredentialSessionRecord.leaseCount = broker.leaseCount other := by
    intro other hne
    rw [hget, if_neg hne, leaseCount]
  refine ⟨h.indexed.put { record with leaseCount := record.leaseCount + 1 } hcached.2.1 rfl, hminted, hlive.2,
    ?_, fun other hmem hne hlive' => (hother other hne).trans (h.live other hmem hlive'),
    fun other hmem hne hdead => (hother other hne).trans (h.gone other hmem hdead), h.lent,
    fun other found hfound => ?_, h.minted, h.revoked⟩
  · show ((broker.state.sessions.put _).get record.id).map _ = some _
    rw [hget, if_pos rfl]
    exact congrArg (fun n => some (n + 1)) hcount
  · have hfound' := (hget other).symm.trans hfound
    split at hfound'
    · rename_i heq
      exact heq ▸ h.stored _ _ hcached.2.1
    · exact h.stored _ _ hfound'

/-- A session that was just built is published. -/
theorem Sound.publish {key : JitMintKey} {session : CredentialSession}
    (hid : session.correlationId = fresh) (hfresh : fresh ∉ broker.issued)
    (hfits : Fits key session) :
    Lending { broker with
      state := broker.state.publish key session
      issued := fresh :: broker.issued
      minted := fresh :: broker.minted } fresh := by
  subst hid
  have hnew : broker.state.sessions.get session.correlationId = none := by
    cases hget : broker.state.sessions.get session.correlationId with
    | none => rfl
    | some record => exact absurd (h.stored _ _ hget) hfresh
  have hget : ∀ other, (broker.state.publish key session).sessions.get other =
      if session.correlationId = other then some ⟨session, 0, 1⟩ else broker.state.sessions.get other :=
    Table.get_put broker.state.sessions ⟨session, 0, 1⟩
  have hother : ∀ other, session.correlationId ≠ other →
      ((broker.state.publish key session).sessions.get other).map CredentialSessionRecord.leaseCount =
        broker.leaseCount other := by
    intro other hne
    rw [hget, if_neg hne, leaseCount]
  have hold : ∀ {other}, other ∈ session.correlationId :: broker.minted → session.correlationId ≠ other →
      other ∈ broker.minted := fun hmem hne => (List.mem_cons.1 hmem).resolve_left (Ne.symm hne)
  refine ⟨h.indexed.publish hnew hfits, List.mem_cons_self, fun hin => ?_, ?_,
    fun other hmem hne hlive => (hother other hne).trans (h.live other (hold hmem hne) hlive),
    fun other hmem hne hdead => (hother other hne).trans (h.gone other (hold hmem hne) hdead),
    fun lease hlease => List.mem_cons_of_mem _ (h.lent lease hlease), fun other found hfound => ?_,
    fun other hmem => ?_, fun other hin => List.mem_cons_of_mem _ (h.revoked other hin)⟩
  · exact hfresh (h.minted _ (h.revoked _ hin))
  · have hnone : broker.outstanding session.correlationId = 0 := by
      rw [outstanding, List.countP_eq_zero]
      intro lease hlease hcounted
      have hsame := of_decide_eq_true (Bool.and_eq_true_iff.1 hcounted).1
      exact hfresh (hsame ▸ h.minted _ (h.lent lease hlease))
    show ((broker.state.publish key session).sessions.get session.correlationId).map _ =
      some (broker.outstanding session.correlationId + 1)
    rw [hget, if_pos rfl, hnone]
    rfl
  · have hfound' := (hget other).symm.trans hfound
    split at hfound'
    · rename_i heq
      exact heq ▸ List.mem_cons_self
    · exact List.mem_cons_of_mem _ (h.stored _ _ hfound')
  · rcases List.mem_cons.1 hmem with rfl | hmem
    · exact List.mem_cons_self
    · exact List.mem_cons_of_mem _ (h.minted other hmem)

variable {request : CredentialSessionRequest}

omit h in
theorem fits_of_buildSession {accounts : Table CredentialAccount.key} {session : CredentialSession}
    (h : buildSession crate accounts request now fresh = .ok session) : Fits request.key session := by
  obtain ⟨hinvocation, -, hscope, hcapability, haccount, -⟩ := buildSession_ok h
  exact ⟨by rw [hscope]; exact hinvocation.symm, hcapability, haccount⟩

theorem Sound.same_sessions {sessions : Table CredentialSessionRecord.id}
    (hsame : ∀ id, sessions.get id = broker.state.sessions.get id) :
    Sound { broker with state := { broker.state with sessions := sessions } } := by
  refine h.of_sessions (fun id record hget => ⟨record, (hsame id).trans hget, rfl⟩) (fun id _ => ?_)
    (fun id record hget => h.stored id record ((hsame id).symm.trans hget)) fun _ hid => hid
  rw [hsame, leaseCount]

omit h

section mint
variable {placeholder : CredentialPlaceholderToken} {request : CredentialSessionRequest}
  {now later : Timestamp} {fresh : CredentialSessionId}

/-- The three ways of a mint: a lease on the cached session, a new session, or a refusal. -/
theorem Sound.mint_cases (h : broker.Sound) (hfresh : fresh ∉ broker.issued) :
    (∃ id record b, broker.Cached request.key now id record ∧ Lending b id ∧ b.accounts = broker.accounts ∧
      b.state.sessions.get id = some { record with leaseCount := record.leaseCount + 1 } ∧
      broker.mintOnFirstUse crate placeholder request now later fresh = b.lend placeholder id) ∨
    ((∀ id record, ¬ broker.Cached request.key now id record) ∧
      ((∃ session b, buildSession crate broker.accounts request later fresh = .ok session ∧
        Lending b fresh ∧ b.accounts = broker.accounts ∧
        b.state.sessions.get fresh = some ⟨session, 0, 1⟩ ∧
        broker.mintOnFirstUse crate placeholder request now later fresh = b.lend placeholder fresh) ∨
      ∃ error b, Sound b ∧ broker.mintOnFirstUse crate placeholder request now later fresh = (.error error, b))) := by
  unfold mintOnFirstUse
  rcases h.joinMinted request.key now with ⟨id, record, hcached, hjoin⟩ | ⟨sessions, hjoin, hsame, hnone⟩
  · rw [hjoin]
    have hid : record.id = id := Table.key_of_get hcached.2.1
    refine .inl ⟨id, record, _, hcached, h.join hcached, rfl, ?_, rfl⟩
    subst hid
    exact Table.get_put_self broker.state.sessions _
  · rw [hjoin]
    have hsound := h.same_sessions hsame
    refine .inr ⟨hnone, ?_⟩
    dsimp only
    cases hbuild : buildSession crate broker.accounts request later fresh with
    | error error => exact .inr ⟨error, _, hsound, rfl⟩
    | ok session =>
      have hid := (buildSession_ok hbuild).2.2.2.2.2
      refine .inl ⟨session, _, rfl, hsound.publish hid hfresh (fits_of_buildSession hbuild), rfl, ?_, ?_⟩
      · show (sessions.put ⟨session, 0, 1⟩).get fresh = _
        rw [← hid]
        exact Table.get_put_self sessions ⟨session, 0, 1⟩
      · dsimp only
        rw [hid]

theorem Sound.mintOnFirstUse (h : broker.Sound) (hfresh : fresh ∉ broker.issued) :
    Sound (broker.mintOnFirstUse crate placeholder request now later fresh).2 := by
  rcases h.mint_cases hfresh with ⟨id, record, b, -, hlending, -, -, hmint⟩ |
    ⟨-, ⟨session, b, -, hlending, -, -, hmint⟩ | ⟨error, b, hsound, hmint⟩⟩
  · rw [hmint]
    exact hlending.lend placeholder
  · rw [hmint]
    exact hlending.lend placeholder
  · rw [hmint]
    exact hsound

end mint

theorem Sound.next (h : broker.Sound) (op : BrokerOp) (hfresh : broker.Fresh op) :
    Sound (broker.next crate op) := by
  cases op with
  | putAccount account => exact ⟨h.indexed, h.live, h.gone, h.lent, h.stored, h.minted, h.revoked⟩
  | createSession request now fresh => exact h.createSession request now hfresh
  | mintOnFirstUse placeholder request now later fresh => exact h.mintOnFirstUse hfresh
  | dropLease lease => exact h.revokeInner lease
  | revokeSession sessionId => exact h.revokeSession sessionId
  | consumeSessionUse sessionId now => exact h.consumeSessionUse sessionId now

theorem sound_run {ops : List BrokerOp} (h : Along (next crate) Fresh new ops) :
    Sound (ops.foldl (next crate) new) :=
  h.invariant (fun _ op hfresh hsound => hsound.next op hfresh) sound_new

/-! ### What a lease is for -/

/-- The session of a lease is the one that the request asked for, and the account would admit the
request now. -/
def Confined (crate : UrlCrate) (broker : Broker) (request : CredentialSessionRequest)
    (id : CredentialSessionId) : Prop :=
  ∃ record, broker.state.sessions.get id = some record ∧ record.session.scope = request.scope ∧
    record.session.capabilityId = request.capabilityId ∧ record.session.accountId = request.accountId ∧
    Admits crate broker.accounts request

/-- A usable session that is cached for the binding of the request has the scope of the request, and
`build_session` would accept the request too. -/
def Rechecked (crate : UrlCrate) (broker : Broker) (request : CredentialSessionRequest)
    (now later : Timestamp) (fresh : CredentialSessionId) : Prop :=
  ∀ id record, broker.Cached request.key now id record → record.session.scope = request.scope ∧
    (buildSession crate broker.accounts request later fresh).isOk = true

theorem isOk_buildSession {accounts : Table CredentialAccount.key} :
    (buildSession crate accounts request now fresh).isOk = true ↔
      request.invocationId = request.scope.invocationId ∧ Admits crate accounts request := by
  constructor
  · intro h
    cases hbuild : buildSession crate accounts request now fresh with
    | error error =>
      rw [hbuild] at h
      cases h
    | ok session =>
      obtain ⟨hinvocation, hadmits, -⟩ := buildSession_ok hbuild
      exact ⟨hinvocation, hadmits⟩
  · rintro ⟨hinvocation, hadmits⟩
    obtain ⟨session, hbuild⟩ := exists_buildSession hinvocation hadmits
    rw [hbuild]
    rfl

theorem Sound.confined_iff (h : broker.Sound) {placeholder : CredentialPlaceholderToken}
    {now later : Timestamp} {fresh id : CredentialSessionId} (hfresh : fresh ∉ broker.issued)
    (hok : (broker.mintOnFirstUse crate placeholder request now later fresh).1 = .ok id) :
    Confined crate (broker.mintOnFirstUse crate placeholder request now later fresh).2 request id ↔
      broker.Rechecked crate request now later fresh := by
  rcases h.mint_cases hfresh with ⟨id', record, b, hcached, hlending, haccounts, hget, hmint⟩ |
    ⟨hnone, ⟨session, b, hbuild, hlending, haccounts, hget, hmint⟩ | ⟨error, b, -, hmint⟩⟩
  · rw [hmint] at hok ⊢
    cases hok
    obtain ⟨-, found, hfound, hfits, -⟩ := h.row hcached.1
    dsimp only at hfound
    rw [hcached.2.1, Option.some.injEq] at hfound
    subst hfound
    constructor
    · rintro ⟨found, hfound, hscope, -, -, hadmits⟩ other record' hcached'
      -- the key has one row, so that this is the session that was joined
      have hrow := hcached'.1.symm.trans hcached.1
      rw [Option.some.injEq, Prod.mk.injEq] at hrow
      obtain ⟨-, rfl⟩ := hrow
      have hrecord := hcached'.2.1.symm.trans hcached.2.1
      rw [Option.some.injEq] at hrecord
      subst hrecord
      have hfound' := hget.symm.trans hfound
      rw [Option.some.injEq] at hfound'
      subst hfound'
      have hscope' : record'.session.scope = request.scope := hscope
      refine ⟨hscope, isOk_buildSession.2 ⟨?_, haccounts ▸ hadmits⟩⟩
      rw [← hscope', hfits.invocation]
      rfl
    · intro hrechecked
      obtain ⟨hscope, hbuild⟩ := hrechecked id record hcached
      exact ⟨_, hget, hscope, hfits.capability, hfits.account,
        haccounts.symm ▸ (isOk_buildSession.1 hbuild).2⟩
  · rw [hmint] at hok ⊢
    cases hok
    obtain ⟨-, hadmits, hscope, hcapability, haccount, -⟩ := buildSession_ok hbuild
    refine iff_of_true ⟨_, hget, hscope, hcapability, haccount, haccounts.symm ▸ hadmits⟩ ?_
    exact fun id record hcached => absurd hcached (hnone id record)
  · rw [hmint] at hok
    cases hok

/-- In every run: a minted session exists while a lease on it is held and it was not revoked, the indices
name existing sessions, and the lease that a mint returns is for what was asked exactly when a cached
session was minted for the same scope and the request would pass the checks of a new one. -/
theorem jit_sessions_rechecked (crate : UrlCrate) (ops : List BrokerOp)
    (hfresh : Along (next crate) Fresh new ops) :
    let broker := ops.foldl (next crate) new
    (∀ id ∈ broker.minted, (broker.state.sessions.get id).isSome = true ↔
        0 < broker.outstanding id ∧ id ∉ broker.revoked) ∧
      (∀ row ∈ broker.state.jitMinted.rows, (broker.state.sessions.get row.2).isSome = true) ∧
      (∀ row ∈ broker.state.sessionsByPlaceholder.rows, ∀ id ∈ row.2,
        (broker.state.sessions.get id).isSome = true) ∧
      ∀ placeholder request now later fresh id, fresh ∉ broker.issued →
        (broker.mintOnFirstUse crate placeholder request now later fresh).1 = .ok id →
        (Confined crate (broker.mintOnFirstUse crate placeholder request now later fresh).2 request id ↔
          broker.Rechecked crate request now later fresh) := by
  have hsound := sound_run hfresh
  refine ⟨fun id hminted => ?_, fun row hrow => ?_, fun row hrow id hid => ?_,
    fun placeholder request now later fresh id => hsound.confined_iff⟩
  · constructor
    · intro hsome
      by_contra hdead
      have hgone := hsound.gone id hminted hdead
      rw [leaseCount, Option.map_eq_none_iff] at hgone
      rw [hgone] at hsome
      cases hsome
    · intro hlive
      have hcount := hsound.live id hminted hlive
      rw [leaseCount] at hcount
      obtain ⟨record, hget, -⟩ := Option.map_eq_some_iff.1 hcount
      rw [hget]
      rfl
  · obtain ⟨-, record, hget, -⟩ := hsound.indexed.jit row hrow
    rw [hget]
    rfl
  · obtain ⟨record, hget⟩ := hsound.indexed.bound row hrow id hid
    rw [hget]
    rfl

/-! ### A cached session and a request out of policy -/

/-- The `url` crate on the two URLs below. -/
def exampleCrate : UrlCrate where
  Url := String
  parse url := .ok url
  username _ := ""
  password _ := none
  scheme _ := "https"
  hostStr _ := some "api.example.com"
  portOrKnownDefault _ := some 443
  join _ _ := none
  asStr url := url
  debugStr text := text
  path url := (rawUrlPath url).getD "/"

def exampleScope : ResourceScope where
  tenantId := ⟨"tenant-a"⟩
  userId := ⟨"user-a"⟩
  agentId := none
  projectId := some ⟨"project-a"⟩
  missionId := none
  threadId := none
  invocationId := ⟨1⟩

def exampleAccount : CredentialAccount where
  scope := exampleScope
  id := ⟨"google_prod"⟩
  providerOrExtensionId := ⟨"google"⟩
  status := .active
  secretHandles := [⟨"google_key"⟩]
  allowedTargets := [⟨"https", "api.example.com", some 443, .prefixed "/v1/", [.get]⟩]

def exampleRequest (url : String) : CredentialSessionRequest where
  scope := exampleScope
  invocationId := ⟨1⟩
  capabilityId := ⟨"google.drive"⟩
  extensionId := ⟨"google"⟩
  accountId := ⟨"google_prod"⟩
  method := .get
  url := url
  expiresAt := none
  maxUses := none

/-- A session is minted for a URL that the account allows. -/
def exampleMint : List BrokerOp :=
  [.putAccount exampleAccount,
    .mintOnFirstUse ⟨"icsbx_0"⟩ (exampleRequest "https://api.example.com/v1/x") 0 0 ⟨1⟩]

theorem exampleMint_fresh : Along (next exampleCrate) Fresh new exampleMint :=
  ⟨trivial, List.not_mem_nil, trivial⟩

/-- A URL that the account does not allow is refused, unless a session is cached for the binding. -/
theorem cached_session_joined_out_of_policy :
    let broker := exampleMint.foldl (next exampleCrate) new
    let request := exampleRequest "https://api.example.com/v2/x"
    Along (next exampleCrate) Fresh new exampleMint ∧
    (broker.mintOnFirstUse exampleCrate ⟨"icsbx_0"⟩ request 0 0 ⟨2⟩).1 = .ok ⟨1⟩ ∧
      ¬ Confined exampleCrate (broker.mintOnFirstUse exampleCrate ⟨"icsbx_0"⟩ request 0 0 ⟨2⟩).2 request
        ⟨1⟩ := by
  refine ⟨exampleMint_fresh, by decide +kernel, fun hconfined => ?_⟩
  obtain ⟨-, -, -, -, -, hadmits⟩ := hconfined
  have hrefused : (buildSession exampleCrate
      ((exampleMint.foldl (next exampleCrate) new).mintOnFirstUse exampleCrate ⟨"icsbx_0"⟩
        (exampleRequest "https://api.example.com/v2/x") 0 0 ⟨2⟩).2.accounts
      (exampleRequest "https://api.example.com/v2/x") 0 ⟨2⟩).isOk = false := by
    decide +kernel
  rw [isOk_buildSession.2 ⟨rfl, hadmits⟩] at hrefused
  cases hrefused

/-- The minted session exists: its lease is held. -/
theorem minted_session_exists : let broker := exampleMint.foldl (next exampleCrate) new
    Along (next exampleCrate) Fresh new exampleMint ∧ (broker.state.sessions.get ⟨1⟩).isSome = true :=
  ⟨exampleMint_fresh, ((jit_sessions_rechecked exampleCrate exampleMint exampleMint_fresh).1 ⟨1⟩
    (by decide +kernel)).2 (by decide +kernel)⟩

end Broker

end Ironclaw.Secrets

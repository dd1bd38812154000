import Ironclaw.Resources.Step

/-! # The sharded authority of the filesystem governor

`filesystem_governor/authority.rs` and the operations of `filesystem_governor.rs` on it: the
in-memory state is cut into shards by account; an operation copies the accounts it locks, and the
one reservation it is about, into a small `ResourceState`, runs the shared operation on that, and
writes the accounts and the record back.

* `ShardIndex` stands for the hash of an account, any function into the shards.
* `ResourceAuthority.toState` reads the whole authority as one state.
* An operation returns, beside its answer, the delta it appends to the log; an operation that
  fails appends none and writes nothing back. -/

namespace Ironclaw.Resources

variable {Tz : Type}

def accountShards : ℕ := 64

abbrev ShardIndex := ResourceAccount → Fin accountShards

/-- The shards, each with its maps from account to parts, and the reservations. -/
structure ResourceAuthority (Tz : Type) where
  shards : Fin accountShards → ResourceAccount → AccountParts Tz
  reservations : Table ReservationRecord.id

/-- A change of the durable state, with the clock reading it was made at. -/
inductive ResourceGovernorDelta (Tz : Type) where
  | setLimit (account : ResourceAccount) (limits : ResourceLimits Tz) («at» : ℤ)
  | reserve (scope : ResourceScope) (estimate : ResourceEstimate)
      (reservationId : ResourceReservationId) («at» : ℤ)
  | reconcile (reservationId : ResourceReservationId) (actual : ResourceUsage) («at» : ℤ)
  | release (reservationId : ResourceReservationId) («at» : ℤ)
  | accountSnapshot (account : ResourceAccount) («at» : ℤ)
deriving DecidableEq

/-- No threshold of a delta is infinite or a NaN. -/
def ResourceGovernorDelta.isFinite : ResourceGovernorDelta Tz → Bool
  | .setLimit _ limits _ => limits.thresholds.isFinite
  | _ => true

/-- The encoding of deltas as JSON, by `serde_json`: a number that is not finite is written as
`null`, which is not read as a number. -/
class DeltaCodec (Tz : Type) where
  Payload : Type
  encode : ResourceGovernorDelta Tz → Payload
  decode : Payload → Except String (ResourceGovernorDelta Tz)
  decode_encode : ∀ delta, delta.isFinite = true → decode (encode delta) = .ok delta
  decode_encode_null : ∀ delta, delta.isFinite = false → ∃ e, decode (encode delta) = .error e

/-- An encoding that keeps the delta, to be refused when it is read. -/
instance : DeltaCodec UtcOnly where
  Payload := ResourceGovernorDelta UtcOnly
  encode := id
  decode := fun delta => if delta.isFinite then .ok delta else .error "expected f64"
  decode_encode := fun _ h => if_pos h
  decode_encode_null := fun _ h => ⟨_, if_neg (Bool.not_eq_true _ ▸ h)⟩

namespace ResourceAuthority

variable (index : ShardIndex)

variable (authority : ResourceAuthority Tz)

/-- What the shard of an account has for it. -/
def parts (account : ResourceAccount) : AccountParts Tz :=
  authority.shards (index account) account

variable (s : ResourceState Tz)

def fromState : ResourceAuthority Tz where
  shards := fun shard account => if index account = shard then s.account account else .empty
  reservations := s.reservations

/-- The whole authority as one state. -/
def toState : ResourceState Tz :=
  ⟨authority.parts index, authority.reservations⟩

/-- Replace what the shard of an account has for it. -/
def setParts (account : ResourceAccount)
    (parts : AccountParts Tz) : ResourceAuthority Tz :=
  { authority with
    shards := Function.update authority.shards (index account)
      (Function.update (authority.shards (index account)) account parts) }

def stateForAccounts (accounts : List ResourceAccount)
    (reservations : Table ReservationRecord.id) : ResourceState Tz :=
  accounts.foldl (fun s account => s.modify account fun _ => authority.parts index account)
    { ResourceState.empty with reservations := reservations }

def writeAccountsFromState (accounts : List ResourceAccount)
    (s : ResourceState Tz) : ResourceAuthority Tz :=
  accounts.foldl (fun authority account => authority.setParts index account (s.account account))
    authority

@[simp] theorem toState_fromState : (fromState index s).toState index = s := by
  have h : (fromState index s).parts index = s.account := by
    funext a
    exact if_pos rfl
  unfold toState
  rw [h]
  rfl

theorem parts_setParts (a b : ResourceAccount)
    (p : AccountParts Tz) :
    (authority.setParts index a p).parts index b = if b = a then p else authority.parts index b := by
  unfold parts setParts
  dsimp only
  by_cases hi : index b = index a
  · rw [hi, Function.update_self]
    by_cases hb : b = a
    · subst hb
      rw [Function.update_self, if_pos rfl]
    · rw [Function.update_of_ne hb, if_neg hb]
  · have hb : b ≠ a := fun e => hi (e ▸ rfl)
    rw [Function.update_of_ne hi, if_neg hb]

theorem stateForAccounts_reservations (reservations : Table ReservationRecord.id)
    (accounts : List ResourceAccount) :
    (authority.stateForAccounts index accounts reservations).reservations = reservations := by
  unfold stateForAccounts
  generalize hs : ({ ResourceState.empty with reservations } : ResourceState Tz) = s
  have hr : s.reservations = reservations := by rw [← hs]
  clear hs
  induction accounts generalizing s with
  | nil => exact hr
  | cons a accounts ih => exact ih _ hr

/-- The copy has the accounts it was made for, and nothing else. -/
theorem stateForAccounts_account (reservations : Table ReservationRecord.id)
    (accounts : List ResourceAccount)
    (a : ResourceAccount) :
    (authority.stateForAccounts index accounts reservations).account a =
      if a ∈ accounts then authority.parts index a else .empty := by
  have key : ∀ (accounts : List ResourceAccount) (s : ResourceState Tz),
      (accounts.foldl (fun s account => s.modify account fun _ => authority.parts index account)
        s).account a = if a ∈ accounts then authority.parts index a else s.account a := by
    intro accounts
    induction accounts with
    | nil => exact fun s => (if_neg List.not_mem_nil).symm
    | cons b accounts ih =>
      intro s
      rw [List.foldl_cons, ih, ResourceState.modify_account]
      by_cases ha : a ∈ accounts
      · rw [if_pos ha, if_pos (List.mem_cons_of_mem b ha)]
      · rw [if_neg ha]
        by_cases hb : a = b
        · subst hb
          rw [if_pos rfl, if_pos List.mem_cons_self]
        · rw [if_neg hb, if_neg (by simp [hb, ha])]
  exact key accounts _

@[simp] theorem writeAccountsFromState_reservations
    (accounts : List ResourceAccount) : ∀ authority : ResourceAuthority Tz,
    (authority.writeAccountsFromState index accounts s).reservations = authority.reservations := by
  induction accounts with
  | nil => exact fun _ => rfl
  | cons a accounts ih => exact fun authority => ih (authority.setParts index a (s.account a))

/-- The write-back replaces the accounts it is made for, and nothing else. -/
theorem writeAccountsFromState_parts (a : ResourceAccount)
    (accounts : List ResourceAccount) : ∀ authority : ResourceAuthority Tz,
    (authority.writeAccountsFromState index accounts s).parts index a =
      if a ∈ accounts then s.account a else authority.parts index a := by
  induction accounts with
  | nil => exact fun authority => (if_neg List.not_mem_nil).symm
  | cons b accounts ih =>
    intro authority
    refine (ih (authority.setParts index b (s.account b))).trans ?_
    rw [parts_setParts]
    by_cases ha : a ∈ accounts
    · rw [if_pos ha, if_pos (List.mem_cons_of_mem b ha)]
    · rw [if_neg ha]
      by_cases hb : a = b
      · subst hb
        rw [if_pos rfl, if_pos List.mem_cons_self]
      · rw [if_neg hb, if_neg (by simp [hb, ha])]

end ResourceAuthority

/-! ### Operations -/

/-- A call of the governor. -/
inductive Call (Tz : Type) where
  | setLimit (account : ResourceAccount) (limits : ResourceLimits Tz)
  | reserveWithId (scope : ResourceScope) (estimate : ResourceEstimate)
      (reservationId : ResourceReservationId)
  | reconcile (reservationId : ResourceReservationId) (actual : ResourceUsage)
  | release (reservationId : ResourceReservationId)
  | validateReservation (reservation : ResourceReservation)
  | accountSnapshot (account : ResourceAccount)
  | reservedFor (account : ResourceAccount)
  | usageFor (account : ResourceAccount)

/-- No threshold of a call is infinite or a NaN. -/
def Call.isFinite : Call Tz → Bool
  | .setLimit _ limits => limits.thresholds.isFinite
  | _ => true

/-- What a call returns when it succeeds. -/
inductive Reply (Tz : Type) where
  | done
  | reservation (outcome : ReservationOutcome)
  | receipt (receipt : ResourceReceipt)
  | snapshot (snapshot : Option (AccountSnapshot Tz))
  | tally (tally : ResourceTally)

/-- The reply of a call, the authority after it and the delta it hands to the journal. -/
structure Outcome (Tz : Type) where
  reply : Except ResourceError (Reply Tz)
  authority : ResourceAuthority Tz
  delta : Option (ResourceGovernorDelta Tz)

/-- The copy of the reservations that `reserve` works on: what exists under its id. -/
def reservationSubset (reservations : Table ReservationRecord.id) (id : ResourceReservationId) :
    Table ReservationRecord.id :=
  match reservations.get id with
  | some existing => Table.empty.put existing
  | none => .empty

theorem get_reservationSubset (reservations : Table ReservationRecord.id)
    (id : ResourceReservationId) :
    (reservationSubset reservations id).get id = reservations.get id := by
  unfold reservationSubset
  cases hg : reservations.get id with
  | none => rfl
  | some existing =>
    have hid := Table.key_of_get hg
    subst hid
    exact Table.get_put_self _ existing

namespace ResourceAuthority

variable (index : ShardIndex)

variable (authority : ResourceAuthority Tz)

/-- The end of `reserve`, `reconcile` and `release`: only a success is written back, together with
the record the operation left under the id. -/
def commitRecord (accounts : List ResourceAccount)
    (reservationId : ResourceReservationId) (missing : String)
    (result : Except ResourceError (Reply Tz)) (s : ResourceState Tz)
    (delta : ResourceGovernorDelta Tz) : Outcome Tz :=
  match result with
  | .error error => ⟨.error error, authority, none⟩
  | .ok reply =>
    let authority := authority.writeAccountsFromState index accounts s
    match s.reservations.get reservationId with
    | none => ⟨.error (.storage missing), authority, none⟩
    | some record =>
      ⟨.ok reply, { authority with reservations := authority.reservations.put record },
        some delta⟩

variable [DecidableEq Tz]

/-- The end of `account_snapshot`, `reserved_for` and `usage_for`: the account is written back
always, and a delta is appended unless its parts compare equal. -/
def commitRead (account : ResourceAccount) (reply : Reply Tz)
    (s : ResourceState Tz) (now : ℤ) : Outcome Tz :=
  let after := authority.writeAccountsFromState index [account] s
  ⟨.ok reply, after,
    if (authority.parts index account).same (after.parts index account) then none
    else some (.accountSnapshot account now)⟩

variable [Platform Tz]

def setLimit (account : ResourceAccount)
    (limits : ResourceLimits Tz) (now : ℤ) : Outcome Tz :=
  let s := setLimitInState (authority.stateForAccounts index [account] .empty) account limits now
  ⟨.ok .done, authority.writeAccountsFromState index [account] s,
    some (.setLimit account limits now)⟩

def reserveWithId (scope : ResourceScope)
    (estimate : ResourceEstimate) (reservationId : ResourceReservationId) (now : ℤ) : Outcome Tz :=
  let accounts := ResourceAccount.cascade scope
  let subset := reservationSubset authority.reservations reservationId
  let r := reserveWithOutcomeInState (authority.stateForAccounts index accounts subset) scope
    estimate reservationId now
  authority.commitRecord index accounts reservationId
    "reserve did not produce reservation record" (r.1.map .reservation) r.2
    (.reserve scope estimate reservationId now)

def reconcile (reservationId : ResourceReservationId)
    (actual : ResourceUsage) (now : ℤ) : Outcome Tz :=
  match authority.reservations.get reservationId with
  | none => ⟨.error (.unknownReservation reservationId), authority, none⟩
  | some record =>
    let r := reconcileInState
      (authority.stateForAccounts index record.accounts (Table.empty.put record)) reservationId
      actual now
    authority.commitRecord index record.accounts reservationId
      "reconcile removed reservation record" (r.1.map .receipt) r.2
      (.reconcile reservationId actual now)

def release (reservationId : ResourceReservationId) (now : ℤ) : Outcome Tz :=
  match authority.reservations.get reservationId with
  | none => ⟨.error (.unknownReservation reservationId), authority, none⟩
  | some record =>
    let r := releaseInState
      (authority.stateForAccounts index record.accounts (Table.empty.put record)) reservationId
      now
    authority.commitRecord index record.accounts reservationId
      "release removed reservation record" (r.1.map .receipt) r.2 (.release reservationId now)

omit [DecidableEq Tz] [Platform Tz] in
def validateReservation (reservation : ResourceReservation) : Outcome Tz :=
  match authority.reservations.get reservation.id with
  | none => ⟨.error (.unknownReservation reservation.id), authority, none⟩
  | some record =>
    let s := authority.stateForAccounts index record.accounts (Table.empty.put record)
    ⟨(validateReservationInState s reservation).map fun _ => .done, authority, none⟩

def accountSnapshot (account : ResourceAccount) (now : ℤ) : Outcome Tz :=
  let r := accountSnapshotInState (authority.stateForAccounts index [account] .empty) account now
  authority.commitRead index account (.snapshot r.1) r.2 now

def reservedFor (account : ResourceAccount) (now : ℤ) : Outcome Tz :=
  let s := (authority.stateForAccounts index [account] .empty).modify account
    (·.advancePeriodIfRolledOver now)
  authority.commitRead index account (.tally (s.account account).reservedTally) s now

def usageFor (account : ResourceAccount) (now : ℤ) : Outcome Tz :=
  let s := (authority.stateForAccounts index [account] .empty).modify account
    (·.advancePeriodIfRolledOver now)
  authority.commitRead index account (.tally (s.account account).usageTally) s now

/-- Execute a call at a clock reading. -/
def operate (call : Call Tz) (now : ℤ) : Outcome Tz :=
  match call with
  | .setLimit account limits => authority.setLimit index account limits now
  | .reserveWithId scope estimate reservationId =>
    authority.reserveWithId index scope estimate reservationId now
  | .reconcile reservationId actual => authority.reconcile index reservationId actual now
  | .release reservationId => authority.release index reservationId now
  | .validateReservation reservation => authority.validateReservation index reservation
  | .accountSnapshot account => authority.accountSnapshot index account now
  | .reservedFor account => authority.reservedFor index account now
  | .usageFor account => authority.usageFor index account now

end ResourceAuthority

end Ironclaw.Resources

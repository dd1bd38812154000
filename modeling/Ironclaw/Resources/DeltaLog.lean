import Ironclaw.Lib.Reject
import Ironclaw.Resources.Authority
import Ironclaw.Resources.Holds

/-! # Replaying the delta log

`ResourceGovernorDelta::apply_to` and `replay_journal`: a record of the log is decoded, and the delta
is applied to the whole state at the clock reading it was made at. The authority instead runs every operation on a copy of the
accounts it has locked.

* `Write` is what a successful operation writes: one change, made to every account of a list, and
  at most one record. It is the same write on the copy as on the whole state (`reserve_write`,
  `reconcile_write`, `release_write`).
* `Footprint` is what an operation locks. `operate_commits` says that an operation changes
  nothing outside its footprint, and that its delta makes the same write on every state that
  agrees with the authority on the footprint. -/

namespace Ironclaw.Resources

variable {Tz : Type} [Platform Tz] [DecidableEq Tz]

def ResourceGovernorDelta.applyTo (s : ResourceState Tz) :
    ResourceGovernorDelta Tz → Except ResourceError (ResourceState Tz)
  | .setLimit account limits «at» => .ok (setLimitInState s account limits «at»)
  | .reserve scope estimate reservationId «at» =>
    let r := reserveWithOutcomeInState s scope estimate reservationId «at»
    r.1.map fun _ => r.2
  | .reconcile reservationId actual «at» =>
    let r := reconcileInState s reservationId actual «at»
    r.1.map fun _ => r.2
  | .release reservationId «at» =>
    let r := releaseInState s reservationId «at»
    r.1.map fun _ => r.2
  | .accountSnapshot account «at» => .ok (accountSnapshotInState s account «at»).2

section Replay

variable [DeltaCodec Tz]

/-- One round of the loop of `replay_journal`. -/
def replayPayload (s : ResourceState Tz) (payload : DeltaCodec.Payload Tz) :
    Except ResourceError (ResourceState Tz) :=
  match DeltaCodec.decode payload with
  | .error e => .error (.storage ("decode resource governor delta: " ++ e))
  | .ok delta => delta.applyTo s

/-- The loop of `replay_journal`. -/
def replayDeltas (s : ResourceState Tz) (payloads : List (DeltaCodec.Payload Tz)) :
    Except ResourceError (ResourceState Tz) :=
  payloads.foldlM replayPayload s

/-- `replay_journal`: the holds of the snapshot are rebuilt, then the deltas are decoded and applied
in order. -/
def replayJournal (snapshot : ResourceState Tz) (payloads : List (DeltaCodec.Payload Tz)) :
    Except ResourceError (ResourceState Tz) :=
  replayDeltas (rebuildActiveHoldsFromReservations snapshot) payloads

theorem replayPayload_encode {delta : ResourceGovernorDelta Tz} (h : delta.isFinite = true)
    (s : ResourceState Tz) : replayPayload s (DeltaCodec.encode delta) = delta.applyTo s := by
  rw [replayPayload, DeltaCodec.decode_encode delta h]

theorem replayDeltas_append_singleton {s s' s'' : ResourceState Tz}
    {payloads : List (DeltaCodec.Payload Tz)} {payload : DeltaCodec.Payload Tz}
    (h : replayDeltas s payloads = .ok s') (hd : replayPayload s' payload = .ok s'') :
    replayDeltas s (payloads ++ [payload]) = .ok s'' := by
  unfold replayDeltas at h ⊢
  rw [List.foldlM_append, h]
  show List.foldlM replayPayload s' [payload] = .ok s''
  rw [List.foldlM_cons, hd]
  rfl

theorem exists_decode_of_replayDeltas {payloads : List (DeltaCodec.Payload Tz)} :
    ∀ {s s' : ResourceState Tz}, replayDeltas s payloads = .ok s' →
      ∀ payload ∈ payloads, ∃ delta, DeltaCodec.decode payload = .ok delta := by
  induction payloads with
  | nil => exact fun _ payload hmem => absurd hmem List.not_mem_nil
  | cons first payloads ih =>
    intro s s' h payload hmem
    unfold replayDeltas at h
    rw [List.foldlM_cons] at h
    obtain ⟨t, hfirst, hrest⟩ := bind_eq_ok.1 h
    rcases List.mem_cons.1 hmem with rfl | hmem
    · unfold replayPayload at hfirst
      cases hdecode : DeltaCodec.decode payload with
      | error e => simp [hdecode] at hfirst
      | ok delta => exact ⟨delta, rfl⟩
    · exact ih hrest payload hmem

end Replay

/-! ### What an operation writes -/

/-- One change of every account of a list, and at most one record. -/
structure Write (Tz : Type) where
  accounts : List ResourceAccount
  change : AccountParts Tz → AccountParts Tz
  record : Option ReservationRecord

namespace ResourceState

omit [Platform Tz] [DecidableEq Tz]

def write (s : ResourceState Tz) (w : Write Tz) : ResourceState Tz :=
  { s.modifyAll w.accounts w.change with
    reservations := w.record.elim s.reservations s.reservations.put }

theorem modifyAll_account_congr (accounts : List ResourceAccount)
    (f : AccountParts Tz → AccountParts Tz) {a : ResourceAccount} :
    ∀ {s t : ResourceState Tz}, s.account a = t.account a →
      (s.modifyAll accounts f).account a = (t.modifyAll accounts f).account a := by
  induction accounts with
  | nil => exact fun h => h
  | cons b accounts ih =>
    intro s t h
    apply ih
    rw [modify_account, modify_account, h]

theorem modifyAll_account_of_not_mem {accounts : List ResourceAccount}
    {f : AccountParts Tz → AccountParts Tz} {a : ResourceAccount} (ha : a ∉ accounts) :
    ∀ s : ResourceState Tz, (s.modifyAll accounts f).account a = s.account a := by
  induction accounts with
  | nil => exact fun _ => rfl
  | cons b accounts ih =>
    intro s
    rw [List.mem_cons, not_or] at ha
    refine (ih ha.2 (s.modify b f)).trans ?_
    rw [modify_account, if_neg ha.1]

theorem modifyAll_modifyAll {accounts : List ResourceAccount} (hnd : accounts.Nodup)
    (f g : AccountParts Tz → AccountParts Tz) (s : ResourceState Tz) :
    (s.modifyAll accounts f).modifyAll accounts g = s.modifyAll accounts (fun p => g (f p)) := by
  have haccount : ((s.modifyAll accounts f).modifyAll accounts g).account =
      (s.modifyAll accounts (fun p => g (f p))).account := by
    funext a
    rw [modifyAll_account hnd, modifyAll_account hnd, modifyAll_account hnd]
    split_ifs <;> rfl
  have hreservations : ((s.modifyAll accounts f).modifyAll accounts g).reservations =
      (s.modifyAll accounts (fun p => g (f p))).reservations := by
    rw [modifyAll_reservations, modifyAll_reservations, modifyAll_reservations]
  exact congrArg₂ ResourceState.mk haccount hreservations

end ResourceState

/-! ### Where an operation looks and writes -/

omit [Platform Tz] [DecidableEq Tz] in
/-- The check reads the accounts of the cascade only. -/
theorem evaluateCascade_congr [Platform Tz] {s t : ResourceState Tz} {requested : ResourceTally} :
    ∀ {accounts : List ResourceAccount} {warnings : List BudgetWarning},
      (∀ a ∈ accounts, s.account a = t.account a) →
      evaluateCascade s requested accounts warnings = evaluateCascade t requested accounts warnings
  | [], _, _ => rfl
  | b :: accounts, warnings, h => by
    rw [List.forall_mem_cons] at h
    rw [evaluateCascade, evaluateCascade, h.1]
    cases (t.account b).limits with
    | none => exact evaluateCascade_congr h.2
    | some limits =>
      dsimp only
      cases evaluateCascadeForAccount b limits (t.account b).usageTally
        (t.account b).reservedTally requested (t.account b).periodAnchor with
      | allow w => exact evaluateCascade_congr h.2
      | requiresApproval w needed => rfl
      | deny w denial => rfl

section Writes

variable {s t : ResourceState Tz} {now : ℤ}

variable {id : ResourceReservationId}

theorem reserve_congr {scope : ResourceScope} {estimate : ResourceEstimate}
    (haccount : ∀ a ∈ ResourceAccount.cascade scope, s.account a = t.account a)
    (hget : s.reservations.get id = t.reservations.get id) :
    (reserveWithOutcomeInState s scope estimate id now).1 =
      (reserveWithOutcomeInState t scope estimate id now).1 := by
  have hcascade : evaluateCascade
      (s.modifyAll (ResourceAccount.cascade scope) (·.advancePeriodIfRolledOver now))
      (.fromEstimate estimate) (ResourceAccount.cascade scope) [] =
      evaluateCascade
      (t.modifyAll (ResourceAccount.cascade scope) (·.advancePeriodIfRolledOver now))
      (.fromEstimate estimate) (ResourceAccount.cascade scope) [] :=
    evaluateCascade_congr fun a ha =>
      ResourceState.modifyAll_account_congr _ _ (haccount a ha)
  unfold reserveWithOutcomeInState
  rw [hget]
  dsimp only
  rw [hcascade]
  cases validateEstimate estimate with
  | some e => rfl
  | none =>
    dsimp only
    split_ifs
    · rfl
    · split <;> rfl

theorem reserve_write {scope : ResourceScope} {estimate : ResourceEstimate}
    {outcome : ReservationOutcome}
    (h : (reserveWithOutcomeInState s scope estimate id now).1 = .ok outcome) :
    (reserveWithOutcomeInState s scope estimate id now).2 =
      s.write ⟨ResourceAccount.cascade scope,
        fun p => (p.advancePeriodIfRolledOver now).hold (.fromEstimate estimate),
        some (activeRecord ⟨id, scope, estimate⟩ now)⟩ := by
  unfold reserveWithOutcomeInState at h ⊢
  cases hv : validateEstimate estimate with
  | some e => simp [hv] at h
  | none =>
    simp only [hv] at h ⊢
    split_ifs at h ⊢ with hfresh
    split at h
    · simp at h
    · rename_i heval
      dsimp only
      unfold ResourceState.write
      rw [ResourceState.modifyAll_modifyAll (ResourceAccount.cascade_nodup scope)]
      simp

theorem reconcile_congr {actual : ResourceUsage}
    (hget : s.reservations.get id = t.reservations.get id) :
    (reconcileInState s id actual now).1 = (reconcileInState t id actual now).1 := by
  unfold reconcileInState
  rw [hget]
  cases t.reservations.get id with
  | none => rfl
  | some record =>
    dsimp only
    split_ifs
    · rfl
    · cases validateUsage actual <;> rfl

theorem reconcile_write {actual : ResourceUsage}
    {record : ReservationRecord} (hget : s.reservations.get id = some record)
    {receipt : ResourceReceipt} (h : (reconcileInState s id actual now).1 = .ok receipt) :
    (reconcileInState s id actual now).2 =
      s.write ⟨record.accounts,
        fun p => ((p.advancePeriodIfRolledOver now).unhold record.tally).spend (.fromUsage actual),
        some { record with status := .reconciled, actual := some actual }⟩ := by
  unfold reconcileInState at h ⊢
  simp only [hget] at h ⊢
  split_ifs at h ⊢ with hactive
  cases hv : validateUsage actual with
  | some e => simp [hv] at h
  | none => simp [ResourceState.write]

theorem release_congr (hget : s.reservations.get id = t.reservations.get id) :
    (releaseInState s id now).1 = (releaseInState t id now).1 := by
  unfold releaseInState
  rw [hget]
  cases t.reservations.get id with
  | none => rfl
  | some record =>
    dsimp only
    split_ifs <;> rfl

theorem release_write {record : ReservationRecord}
    (hget : s.reservations.get id = some record) {receipt : ResourceReceipt}
    (h : (releaseInState s id now).1 = .ok receipt) :
    (releaseInState s id now).2 =
      s.write ⟨record.accounts, fun p => (p.advancePeriodIfRolledOver now).unhold record.tally,
        some { record with status := .released }⟩ := by
  unfold releaseInState at h ⊢
  simp only [hget] at h ⊢
  split_ifs at h ⊢
  simp [ResourceState.write]

omit [Platform Tz] [DecidableEq Tz] in
theorem modify_eq_write (s : ResourceState Tz) (a : ResourceAccount)
    (f : AccountParts Tz → AccountParts Tz) : s.modify a f = s.write ⟨[a], f, none⟩ := rfl

theorem accountSnapshot_write (s : ResourceState Tz) (a : ResourceAccount) (now : ℤ) :
    (accountSnapshotInState s a now).2 =
      s.write ⟨[a], (·.advancePeriodIfRolledOver now), none⟩ := by
  rw [← modify_eq_write]
  unfold accountSnapshotInState
  dsimp only
  split_ifs <;> rfl

end Writes

/-! ### Footprints -/

/-- What an operation locks: the shards of some accounts, and perhaps the reservations. -/
structure Footprint where
  accounts : List ResourceAccount
  reservations : Bool

/-- The accounts of a reservation, when it exists. -/
def recordAccounts (reservations : Table ReservationRecord.id) (id : ResourceReservationId) :
    List ResourceAccount :=
  match reservations.get id with
  | some record => record.accounts
  | none => []

/-- What a call locks while it runs. -/
def Call.footprint (reservations : Table ReservationRecord.id) : Call Tz → Footprint
  | .setLimit account _ => ⟨[account], false⟩
  | .reserveWithId scope _ _ => ⟨ResourceAccount.cascade scope, true⟩
  | .reconcile id _ => ⟨recordAccounts reservations id, true⟩
  | .release id => ⟨recordAccounts reservations id, true⟩
  | .validateReservation reservation => ⟨recordAccounts reservations reservation.id, true⟩
  | .accountSnapshot account => ⟨[account], false⟩
  | .reservedFor account => ⟨[account], false⟩
  | .usageFor account => ⟨[account], false⟩

/-- Two states are the same inside a footprint. -/
structure AgreesOn (f : Footprint) (s t : ResourceState Tz) : Prop where
  account : ∀ a ∈ f.accounts, s.account a = t.account a
  reservations : f.reservations = true → s.reservations = t.reservations

/-- Two states are the same outside a footprint. -/
structure AgreesOff (f : Footprint) (s t : ResourceState Tz) : Prop where
  account : ∀ a ∉ f.accounts, s.account a = t.account a
  reservations : f.reservations = false → s.reservations = t.reservations

/-- A write that stays inside a footprint. -/
structure Write.Within (w : Write Tz) (f : Footprint) : Prop where
  accounts : w.accounts ⊆ f.accounts
  record : f.reservations = false → w.record = none

section Footprints

omit [Platform Tz] [DecidableEq Tz]

variable {f : Footprint} {w : Write Tz} {s t : ResourceState Tz}

theorem AgreesOn.refl (f : Footprint) (s : ResourceState Tz) : AgreesOn f s s :=
  ⟨fun _ _ => rfl, fun _ => rfl⟩

theorem AgreesOn.write (h : AgreesOn f s t) (w : Write Tz) :
    AgreesOn f (s.write w) (t.write w) where
  account := fun a ha => ResourceState.modifyAll_account_congr _ _ (h.account a ha)
  reservations := by
    intro hr
    show w.record.elim s.reservations s.reservations.put = _
    rw [h.reservations hr]
    rfl

theorem Write.Within.agreesOff (hw : w.Within f) (s : ResourceState Tz) :
    AgreesOff f (s.write w) s where
  account := fun a ha =>
    ResourceState.modifyAll_account_of_not_mem (fun hm => ha (hw.accounts hm)) s
  reservations := by
    intro hr
    show w.record.elim s.reservations s.reservations.put = _
    rw [hw.record hr]
    rfl

end Footprints

/-! ### The write of an operation -/

namespace ResourceAuthority

variable {index : ShardIndex}

variable (authority : ResourceAuthority Tz)
include authority

omit [Platform Tz] [DecidableEq Tz] in
theorem writeAccountsFromState_write (reservations : Table ReservationRecord.id) (w : Write Tz)
    (a : ResourceAccount) :
    (authority.writeAccountsFromState index w.accounts
      ((authority.stateForAccounts index w.accounts reservations).write w)).parts index a =
      ((authority.toState index).write w).account a := by
  rw [writeAccountsFromState_parts]
  by_cases ha : a ∈ w.accounts
  · rw [if_pos ha]
    apply ResourceState.modifyAll_account_congr
    rw [stateForAccounts_account, if_pos ha]
    rfl
  · rw [if_neg ha]
    exact (ResourceState.modifyAll_account_of_not_mem ha (authority.toState index)).symm

omit authority in
omit [Platform Tz] [DecidableEq Tz] in
theorem toState_write_of_none (index : ShardIndex) (authority : ResourceAuthority Tz)
    (reservations : Table ReservationRecord.id) {w : Write Tz} (hw : w.record = none) :
    (authority.writeAccountsFromState index w.accounts
      ((authority.stateForAccounts index w.accounts reservations).write w)).toState index =
      (authority.toState index).write w := by
  apply congrArg₂ ResourceState.mk
  · funext a
    exact authority.writeAccountsFromState_write reservations w a
  · rw [hw, writeAccountsFromState_reservations]
    rfl

omit authority in
omit [Platform Tz] [DecidableEq Tz] in
/-- A successful operation on a reservation makes its write on the whole authority. -/
theorem commitRecord_write (index : ShardIndex) (authority : ResourceAuthority Tz)
    (reservations : Table ReservationRecord.id) {w : Write Tz} {record : ReservationRecord}
    (hw : w.record = some record) (missing : String) (reply : Reply Tz)
    (delta : ResourceGovernorDelta Tz) :
    let o := authority.commitRecord index w.accounts record.id missing (.ok reply)
      ((authority.stateForAccounts index w.accounts reservations).write w) delta
    o.delta = some delta ∧ o.authority.toState index = (authority.toState index).write w := by
  have hget : ((authority.stateForAccounts index w.accounts reservations).write w).reservations.get
      record.id = some record := by
    unfold ResourceState.write
    rw [hw]
    exact Table.get_put_self _ record
  simp only [commitRecord, hget, true_and]
  apply congrArg₂ ResourceState.mk
  · funext a
    exact authority.writeAccountsFromState_write reservations w a
  · rw [hw, writeAccountsFromState_reservations]
    rfl

/-- What an operation leaves behind: nothing, or one write inside its footprint and a delta that
makes the same write on every state that agrees with the authority there. -/
inductive Commits (index : ShardIndex) (authority : ResourceAuthority Tz) (f : Footprint)
    (o : Outcome Tz) : Prop
  | silent (hdelta : o.delta = none)
      (hstate : o.authority.toState index = authority.toState index)
  | writes (delta : ResourceGovernorDelta Tz) (w : Write Tz) (hdelta : o.delta = some delta)
      (hwithin : w.Within f)
      (hstate : o.authority.toState index = (authority.toState index).write w)
      (hreplay : ∀ s, AgreesOn f s (authority.toState index) → delta.applyTo s = .ok (s.write w))

theorem setLimit_commits (account : ResourceAccount) (limits : ResourceLimits Tz) (now : ℤ) :
    Commits index authority ⟨[account], false⟩ (authority.setLimit index account limits now) := by
  have hstate := authority.toState_write_of_none index .empty
    (w := ⟨[account], (·.setLimit limits now), none⟩) rfl
  exact .writes (.setLimit account limits now) _ rfl ⟨List.Subset.refl _, fun _ => rfl⟩ hstate
    (fun _ _ => rfl)

theorem commitRead_commits (account : ResourceAccount) (reply : Reply Tz) (now : ℤ) :
    Commits index authority ⟨[account], false⟩
      (authority.commitRead index account reply
        ((authority.stateForAccounts index [account] .empty).write
          ⟨[account], (·.advancePeriodIfRolledOver now), none⟩) now) := by
  have hstate := authority.toState_write_of_none index .empty
    (w := ⟨[account], (·.advancePeriodIfRolledOver now), none⟩) rfl
  cases hsame : (authority.parts index account).same
      ((authority.writeAccountsFromState index [account]
        ((authority.stateForAccounts index [account] .empty).write
          ⟨[account], (·.advancePeriodIfRolledOver now), none⟩)).parts index account) with
  | true =>
    have hparts := AccountParts.eq_of_same hsame
    refine .silent (if_pos hsame) (hstate.trans ?_)
    apply congrArg₂ ResourceState.mk
    · funext a
      by_cases ha : a = account
      · subst ha
        exact (congrFun (congrArg ResourceState.account hstate) a).symm.trans hparts.symm
      · exact ResourceState.modifyAll_account_of_not_mem (by simpa using ha) _
    · rfl
  | false =>
    refine .writes (.accountSnapshot account now) _ (if_neg (by simp [hsame]))
      ⟨List.Subset.refl _, fun _ => rfl⟩ hstate ?_
    intro s _
    exact congrArg Except.ok (accountSnapshot_write s account now)

theorem commitRecord_commits {α : Type} {f : Footprint}
    {subset : Table ReservationRecord.id} {w : Write Tz} {record : ReservationRecord}
    (hw : w.record = some record) (hwithin : w.Within f) (missing : String) (reply : α → Reply Tz)
    {delta : ResourceGovernorDelta Tz}
    {r : ResourceState Tz → Except ResourceError α × ResourceState Tz}
    (hdelta : ∀ s, delta.applyTo s = (r s).1.map fun _ => (r s).2)
    (hanswer : ∀ s, AgreesOn f s (authority.toState index) →
      (r s).1 = (r (authority.stateForAccounts index w.accounts subset)).1)
    (hcopy : ∀ x, (r (authority.stateForAccounts index w.accounts subset)).1 = .ok x →
      (r (authority.stateForAccounts index w.accounts subset)).2 =
        (authority.stateForAccounts index w.accounts subset).write w)
    (hwhole : ∀ s x, AgreesOn f s (authority.toState index) → (r s).1 = .ok x →
      (r s).2 = s.write w) :
    Commits index authority f
      (authority.commitRecord index w.accounts record.id missing
        ((r (authority.stateForAccounts index w.accounts subset)).1.map reply)
        (r (authority.stateForAccounts index w.accounts subset)).2 delta) := by
  cases hr : (r (authority.stateForAccounts index w.accounts subset)).1 with
  | error e => exact .silent rfl rfl
  | ok x =>
    rw [hcopy x hr]
    obtain ⟨hsome, hstate⟩ :=
      authority.commitRecord_write index subset hw missing (reply x) delta
    refine .writes delta w hsome hwithin hstate ?_
    intro s hs
    have hok : (r s).1 = .ok x := (hanswer s hs).trans hr
    rw [hdelta, hok, hwhole s x hs hok]
    rfl

theorem reserveWithId_commits (scope : ResourceScope)
    (estimate : ResourceEstimate) (id : ResourceReservationId) (now : ℤ) :
    Commits index authority ⟨ResourceAccount.cascade scope, true⟩
      (authority.reserveWithId index scope estimate id now) := by
  unfold reserveWithId
  have hget := get_reservationSubset authority.reservations id
  generalize reservationSubset authority.reservations id = subset at hget
  refine authority.commitRecord_commits
    (w := ⟨ResourceAccount.cascade scope,
      fun p => (p.advancePeriodIfRolledOver now).hold (.fromEstimate estimate),
      some (activeRecord ⟨id, scope, estimate⟩ now)⟩) rfl ⟨List.Subset.refl _, Bool.noConfusion⟩ _ _
    (r := fun s => reserveWithOutcomeInState s scope estimate id now) (fun _ => rfl) ?_
    (fun _ hok => reserve_write hok) (fun _ _ _ hok => reserve_write hok)
  intro s hs
  apply reserve_congr
  · intro a ha
    rw [stateForAccounts_account, if_pos ha, hs.account a ha]
    rfl
  · rw [stateForAccounts_reservations, hget, hs.reservations rfl]
    rfl

omit authority in
omit [Platform Tz] [DecidableEq Tz] in
theorem get_copied_record (index : ShardIndex) (authority : ResourceAuthority Tz) (accounts : List ResourceAccount)
    (record : ReservationRecord) :
    (authority.stateForAccounts index accounts (Table.empty.put record)).reservations.get
      record.id = some record := by
  rw [stateForAccounts_reservations]
  exact Table.get_put_self _ record

theorem reconcile_commits (id : ResourceReservationId) (actual : ResourceUsage) (now : ℤ) :
    Commits index authority ⟨recordAccounts authority.reservations id, true⟩
      (authority.reconcile index id actual now) := by
  unfold reconcile recordAccounts
  cases hg : authority.reservations.get id with
  | none => exact .silent rfl rfl
  | some record =>
    have hid := Table.key_of_get hg
    subst hid
    have hcopy := authority.get_copied_record index record.accounts record
    have hwhole : ∀ s, AgreesOn ⟨record.accounts, true⟩ s (authority.toState index) →
        s.reservations.get record.id = some record := by
      intro s hs
      rw [hs.reservations rfl]
      exact hg
    exact authority.commitRecord_commits
      (w := ⟨record.accounts,
        fun p =>
          ((p.advancePeriodIfRolledOver now).unhold record.tally).spend (.fromUsage actual),
        some { record with status := .reconciled, actual := some actual }⟩) rfl
      ⟨List.Subset.refl _, Bool.noConfusion⟩ _ _
      (r := fun s => reconcileInState s record.id actual now) (fun _ => rfl)
      (fun s hs => reconcile_congr ((hwhole s hs).trans hcopy.symm))
      (fun _ hok => reconcile_write hcopy hok)
      (fun s _ hs hok => reconcile_write (hwhole s hs) hok)

theorem release_commits (id : ResourceReservationId) (now : ℤ) :
    Commits index authority ⟨recordAccounts authority.reservations id, true⟩
      (authority.release index id now) := by
  unfold release recordAccounts
  cases hg : authority.reservations.get id with
  | none => exact .silent rfl rfl
  | some record =>
    have hid := Table.key_of_get hg
    subst hid
    have hcopy := authority.get_copied_record index record.accounts record
    have hwhole : ∀ s, AgreesOn ⟨record.accounts, true⟩ s (authority.toState index) →
        s.reservations.get record.id = some record := by
      intro s hs
      rw [hs.reservations rfl]
      exact hg
    exact authority.commitRecord_commits
      (w := ⟨record.accounts,
        fun p => (p.advancePeriodIfRolledOver now).unhold record.tally,
        some { record with status := .released }⟩) rfl
      ⟨List.Subset.refl _, Bool.noConfusion⟩ _ _
      (r := fun s => releaseInState s record.id now) (fun _ => rfl)
      (fun s hs => release_congr ((hwhole s hs).trans hcopy.symm))
      (fun _ hok => release_write hcopy hok)
      (fun s _ hs hok => release_write (hwhole s hs) hok)

omit authority

/-- Every operation leaves nothing behind, or its write and a delta that makes it again. -/
theorem operate_commits (index : ShardIndex) (authority : ResourceAuthority Tz) (call : Call Tz)
    (now : ℤ) :
    Commits index authority (call.footprint authority.reservations)
      (authority.operate index call now) := by
  cases call with
  | setLimit account limits => exact authority.setLimit_commits account limits now
  | reserveWithId scope estimate id => exact authority.reserveWithId_commits scope estimate id now
  | reconcile id actual => exact authority.reconcile_commits id actual now
  | release id => exact authority.release_commits id now
  | validateReservation reservation =>
    show Commits index authority _ (authority.validateReservation index reservation)
    unfold validateReservation
    split <;> exact .silent rfl rfl
  | accountSnapshot account =>
    show Commits index authority _ (authority.accountSnapshot index account now)
    unfold accountSnapshot
    dsimp only
    rw [accountSnapshot_write]
    exact authority.commitRead_commits account _ now
  | reservedFor account => exact authority.commitRead_commits account _ now
  | usageFor account => exact authority.commitRead_commits account _ now

/-- A delta is finite when the call that makes it is. -/
theorem operate_isFinite {index : ShardIndex} {authority : ResourceAuthority Tz} {call : Call Tz}
    {now : ℤ} {delta : ResourceGovernorDelta Tz}
    (h : (authority.operate index call now).delta = some delta) : delta.isFinite = call.isFinite := by
  have hrecord : ∀ {accounts id missing result s} {made : ResourceGovernorDelta Tz},
      made.isFinite = true →
      (authority.commitRecord index accounts id missing result s made).delta = some delta →
      delta.isFinite = true := by
    intro accounts id missing result s made hmade hdelta
    unfold commitRecord at hdelta
    split at hdelta
    · cases hdelta
    · dsimp only at hdelta
      split at hdelta
      · cases hdelta
      · cases hdelta
        exact hmade
  have hread : ∀ {account reply s},
      (authority.commitRead index account reply s now).delta = some delta →
      delta.isFinite = true := by
    intro account reply s hdelta
    unfold commitRead at hdelta
    dsimp only at hdelta
    split_ifs at hdelta
    cases hdelta
    rfl
  cases call with
  | setLimit account limits =>
    cases h
    rfl
  | reserveWithId scope estimate id => exact hrecord rfl h
  | reconcile id actual =>
    replace h : (authority.reconcile index id actual now).delta = some delta := h
    unfold reconcile at h
    split at h
    · cases h
    · exact hrecord rfl h
  | release id =>
    replace h : (authority.release index id now).delta = some delta := h
    unfold release at h
    split at h
    · cases h
    · exact hrecord rfl h
  | validateReservation reservation =>
    replace h : (authority.validateReservation index reservation).delta = some delta := h
    unfold validateReservation at h
    split at h <;> cases h
  | accountSnapshot account => exact hread h
  | reservedFor account => exact hread h
  | usageFor account => exact hread h

end ResourceAuthority

/-! ### Sequences of operations -/

variable [DeltaCodec Tz]

/-- A call and the clock reading it is executed at. -/
structure TimedCall (Tz : Type) where
  now : ℤ
  call : Call Tz

/-- The authority in memory and the records appended since it was loaded, oldest first. -/
structure Session (Tz : Type) [DeltaCodec Tz] where
  authority : ResourceAuthority Tz
  appended : List (DeltaCodec.Payload Tz)

/-- Execute a call and append its delta. -/
def Session.serve (index : ShardIndex) (session : Session Tz) (c : TimedCall Tz) : Session Tz :=
  let o := session.authority.operate index c.call c.now
  ⟨o.authority, session.appended ++ o.delta.toList.map DeltaCodec.encode⟩

namespace Session

variable {index : ShardIndex} {session : Session Tz} {s : ResourceState Tz}

/-- One call: what the log replays to is what the authority holds. -/
theorem replay_serve (h : replayDeltas s session.appended = .ok (session.authority.toState index))
    {c : TimedCall Tz} (hfinite : c.call.isFinite = true) :
    replayDeltas s (session.serve index c).appended =
      .ok ((session.serve index c).authority.toState index) := by
  unfold serve
  cases session.authority.operate_commits index c.call c.now with
  | silent hdelta hstate =>
    simp only [hdelta, hstate, Option.toList_none, List.map_nil, List.append_nil, h]
  | writes delta w hdelta _ hstate hreplay =>
    have hdecoded := replayPayload_encode (hfinite ▸ ResourceAuthority.operate_isFinite hdelta)
      (session.authority.toState index)
    simp only [hdelta, hstate, Option.toList_some, List.map_cons, List.map_nil]
    exact replayDeltas_append_singleton h (hdecoded.trans (hreplay _ (.refl _ _)))

theorem replay_serves (calls : List (TimedCall Tz)) : ∀ {session : Session Tz},
    (∀ c ∈ calls, c.call.isFinite = true) →
    replayDeltas s session.appended = .ok (session.authority.toState index) →
      replayDeltas s (calls.foldl (serve index) session).appended =
        .ok ((calls.foldl (serve index) session).authority.toState index) := by
  induction calls with
  | nil => exact fun _ h => h
  | cons c calls ih =>
    intro session hfinite h
    rw [List.forall_mem_cons] at hfinite
    exact ih hfinite.2 (replay_serve h hfinite.1)

theorem appended_subset (calls : List (TimedCall Tz)) : ∀ session : Session Tz,
    session.appended ⊆ (calls.foldl (serve index) session).appended := by
  induction calls with
  | nil => exact fun _ => List.Subset.refl _
  | cons c calls ih =>
    exact fun session => List.Subset.trans (List.subset_append_left _ _) (ih (session.serve index c))

/-- A call that is not finite leaves a record that cannot be decoded. -/
theorem exists_undecodable (calls : List (TimedCall Tz)) : ∀ {session : Session Tz}
    {c : TimedCall Tz}, c ∈ calls → c.call.isFinite = false →
      ∃ payload ∈ (calls.foldl (serve index) session).appended,
        ∃ e, DeltaCodec.decode payload = .error e := by
  induction calls with
  | nil => exact fun hc => absurd hc List.not_mem_nil
  | cons first calls ih =>
    intro session c hc hinfinite
    rcases List.mem_cons.1 hc with rfl | hc
    · obtain ⟨now, call⟩ := c
      cases call with
      | setLimit account limits =>
        refine ⟨DeltaCodec.encode (.setLimit account limits now), ?_,
          DeltaCodec.decode_encode_null _ hinfinite⟩
        exact appended_subset calls _ (List.mem_append_right _ List.mem_cons_self)
      | _ => cases hinfinite
    · exact ih hc hinfinite

end Session

end Ironclaw.Resources

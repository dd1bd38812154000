import Ironclaw.Secrets.SecretStore

/-! # One-shot leases

Any number of calls run on one store: puts, deletes, leases, consumes and revocations, with writes that
come too late, requests that fail with or without effect, and calls that stop anywhere.

A lease is consumed by one call at most, for the scope it was issued for, and its status never changes once
it is not active (`Follows`). The material comes from a secret that was put under the handle of the
lease; that this secret has not expired is what the lease remembers of an earlier one, which is enough when
no put gives a secret less time than the secrets before it under the same handle had (`Renewing`). -/

namespace Ironclaw.Secrets

/-- What happened, with the call that did it. -/
inductive StoreEvent (ι Sealed : Type) where
  | clock (caller : ι) (now : Timestamp)
  | stored (caller : ι) (path : SecretPath) (secret : StoredSecret Sealed)
  | settled (caller : ι) (path : LeasePath) (lease : StoredLease)

structure StoreState (ι Sealed : Type) where
  secrets : SecretPath → Option (StoredSecret Sealed)
  leases : LeasePath → Option (StoredLease × ℕ)
  clock : Timestamp
  issued : List (SecretLeaseId × ι)
  /-- Newest first. -/
  log : List (StoreEvent ι Sealed)

def CasExpectation.Met : CasExpectation → Option (StoredLease × ℕ) → Prop
  | .any, _ => True
  | .absent, current => current = none
  | .version expected, current => current.map Prod.snd = some expected

section served
variable {ι Sealed : Type}

namespace StoreState

variable (state : StoreState ι Sealed)

def putSecret (caller : ι) (path : SecretPath) (secret : StoredSecret Sealed) : StoreState ι Sealed :=
  { state with
    secrets := Function.update state.secrets path (some secret)
    log := .stored caller path secret :: state.log }

def deleteSecret (path : SecretPath) : StoreState ι Sealed :=
  { state with secrets := Function.update state.secrets path none }

def putLease (caller : ι) (path : LeasePath) (lease : StoredLease) : StoreState ι Sealed :=
  { state with
    leases := Function.update state.leases path
      (some (lease, ((state.leases path).map Prod.snd).getD 0 + 1))
    log := .settled caller path lease :: state.log }

def tick (caller : ι) (now : Timestamp) : StoreState ι Sealed :=
  { state with clock := now, log := .clock caller now :: state.log }

def issue (caller : ι) (leaseId : SecretLeaseId) : StoreState ι Sealed :=
  { state with issued := (leaseId, caller) :: state.issued }

end StoreState

/-- An operation of the filesystem, at once. -/
inductive Effect : StoreState ι Sealed → ι → (op : FileOp Sealed) → op.Value → StoreState ι Sealed → Prop
  | getSecret (state : StoreState ι Sealed) (caller : ι) (path : SecretPath) :
      Effect state caller (.getSecret path) (state.secrets path) state
  | putSecret (state : StoreState ι Sealed) (caller : ι) (path : SecretPath) (secret : StoredSecret Sealed) :
      Effect state caller (.putSecret path secret) () (state.putSecret caller path secret)
  | deleteSecret (state : StoreState ι Sealed) (caller : ι) (path : SecretPath) : state.secrets path ≠ none →
      Effect state caller (.deleteSecret path) () (state.deleteSecret path)
  | getLease (state : StoreState ι Sealed) (caller : ι) (path : LeasePath) :
      Effect state caller (.getLease path) (state.leases path) state
  | putLease (state : StoreState ι Sealed) (caller : ι) (path : LeasePath) (lease : StoredLease)
      (cas : CasExpectation) : cas.Met (state.leases path) →
      Effect state caller (.putLease path lease cas) () (state.putLease caller path lease)

/-- The clock does not go back, a generated id is a new one, and an operation of the filesystem happens, fails,
or happens and is reported as failed. -/
inductive Served : StoreState ι Sealed → (request : ι × StoreRequest Sealed) → request.2.Answer →
    StoreState ι Sealed → Prop
  | now (state : StoreState ι Sealed) (caller : ι) (now : Timestamp) : state.clock ≤ now →
      Served state (caller, .now) now (state.tick caller now)
  | newLeaseId (state : StoreState ι Sealed) (caller : ι) (leaseId : SecretLeaseId) :
      (∀ i, (leaseId, i) ∉ state.issued) →
      Served state (caller, .newLeaseId) leaseId (state.issue caller leaseId)
  | done {state state' : StoreState ι Sealed} {caller : ι} {op : FileOp Sealed} {value : op.Value} :
      Effect state caller op value state' → Served state (caller, .file op) (.ok value) state'
  | refused (state : StoreState ι Sealed) (caller : ι) (op : FileOp Sealed) (fault : FsFault) :
      Served state (caller, .file op) (.error fault) state
  | lost {state state' : StoreState ι Sealed} {caller : ι} {op : FileOp Sealed} {value : op.Value}
      (fault : FsFault) : Effect state caller op value state' →
      Served state (caller, .file op) (.error fault) state'

end served

/-! ### What the calls keep -/

section protocol
variable {ι : Type} {store : SecretStore} {calls : ι → SecretCall}

abbrev SecretStore.State (store : SecretStore) (ι : Type) := StoreState ι store.crypto.Sealed

/-- An expiry that is not earlier than another one. -/
def NotEarlier (expiry other : Option Timestamp) : Prop :=
  ∀ x, expiry = some x → ∃ y, other = some y ∧ y ≤ x

/-- A put gives a secret no less time than an earlier one under the same handle gave. -/
def Renews {Sealed : Type} : StoreEvent ι Sealed → StoreEvent ι Sealed → Prop
  | .stored _ path secret, .stored _ path' secret' => path = path' → NotEarlier secret.expiresAt secret'.expiresAt
  | _, _ => True

/-- No put in the log shortens the time of a secret. -/
def Renewing {Sealed : Type} (log : List (StoreEvent ι Sealed)) : Prop := log.Pairwise Renews

structure Inv (store : SecretStore) (calls : ι → SecretCall) (s : store.State ι) : Prop where
  path : ∀ path lease version, s.leases path = some (lease, version) →
    path = store.leasePath lease.scope lease.leaseId
  issued : ∀ path lease version, s.leases path = some (lease, version) →
    ∃ i, (lease.leaseId, i) ∈ s.issued
  remembers : ∀ path lease version, s.leases path = some (lease, version) →
    ∃ k secret, .stored k (store.secretPath lease.scope lease.handle) secret ∈ s.log ∧
      secret.expiresAt = lease.secretExpiresAt
  one : ∀ path path', s.leases path ≠ none → s.leases path' ≠ none → path.leaseId = path'.leaseId →
    path = path'
  once : ∀ leaseId i j, (leaseId, i) ∈ s.issued → (leaseId, j) ∈ s.issued → i = j
  consumed : ∀ i path lease, .settled i path lease ∈ s.log → lease.status = .consumed →
    ∃ version, s.leases path = some (lease, version)
  taken : ∀ i j path lease lease', .settled i path lease ∈ s.log → .settled j path lease' ∈ s.log →
    lease.status = .consumed → lease'.status = .consumed → i = j
  newest : ∀ path secret, s.secrets path = some secret → ∃ k newer older,
    s.log = newer ++ .stored k path secret :: older ∧ ∀ k' secret', .stored k' path secret' ∉ newer
  stored : ∀ k path secret, .stored k path secret ∈ s.log → ∃ material random,
    calls k = .put secret.scope secret.handle material secret.expiresAt random ∧
    store.crypto.encrypt random material (filesystemSecretAad secret.scope secret.handle) = .ok secret.box
  clock : ∀ i now, .clock i now ∈ s.log → now ≤ s.clock

/-- The row of a lease changes its status only, and not any more once it is not active. -/
structure Follows (s t : store.State ι) : Prop where
  log : s.log <:+ t.log
  issued : ∀ x ∈ s.issued, x ∈ t.issued
  lease : ∀ path lease version, s.leases path = some (lease, version) → ∃ status version',
    t.leases path = some ({ lease with status := status }, version') ∧ version ≤ version' ∧
    (version' = version → status = lease.status) ∧ (lease.status ≠ .active → status = lease.status)

theorem Follows.refl (s : store.State ι) : Follows s s :=
  ⟨List.suffix_refl _, fun _ h => h,
    fun _ lease version h => ⟨lease.status, version, h, le_refl _, fun _ => rfl, fun _ => rfl⟩⟩

theorem Follows.trans {s t u : store.State ι} (h : Follows s t) (h' : Follows t u) : Follows s u where
  log := h.log.trans h'.log
  issued x hx := h'.issued x (h.issued x hx)
  lease path lease version hrow := by
    obtain ⟨status, v, hrow', hle, hsame, hfinal⟩ := h.lease path lease version hrow
    obtain ⟨status', v', hrow'', hle', hsame', hfinal'⟩ := h'.lease path _ v hrow'
    refine ⟨status', v', hrow'', hle.trans hle', fun heq => ?_, fun hterminal => ?_⟩
    · have hv : v = version := by omega
      exact (hsame' (heq.trans hv.symm)).trans (hsame hv)
    · have hstatus := hfinal hterminal
      refine (hfinal' ?_).trans hstatus
      rw [show ({ lease with status := status } : StoredLease).status = lease.status from hstatus]
      exact hterminal

/-- What the others leave to a call: its clock readings are its own, and so are the rows of the ids that were
generated for it. -/
structure Undisturbed (i : ι) (s t : store.State ι) : Prop where
  clock : ∀ now, .clock i now ∈ t.log → .clock i now ∈ s.log
  reserved : ∀ path : LeasePath, (path.leaseId, i) ∈ s.issued → s.leases path = none → t.leases path = none

def leaseProtocol (store : SecretStore) (calls : ι → SecretCall) : Protocol (store.State ι) where
  Inv := Inv store calls
  Later := Follows
  refl := Follows.refl
  trans h h' := h.trans h'

def leaseRole (store : SecretStore) (calls : ι → SecretCall) (i : ι) : (leaseProtocol store calls).Role where
  Rely s t := Follows s t ∧ Undisturbed i s t
  Own s t := Follows s t ∧ ∀ j, j ≠ i → Undisturbed j s t
  refl s := ⟨Follows.refl s, fun _ h => h, fun _ _ h => h⟩
  trans h h' := ⟨h.1.trans h'.1, fun now hnow => h.2.clock now (h'.2.clock now hnow),
    fun path hissued hnone => h'.2.reserved path (h.1.issued _ hissued) (h.2.reserved path hissued hnone)⟩
  rely_later h := h.1
  own_later h := h.1

/-! ### One request -/

variable {i : ι} {s t : store.State ι}

theorem own_of_leases (hlog : s.log <:+ t.log) (hissued : t.issued = s.issued) (hleases : t.leases = s.leases)
    (hclock : ∀ j now, .clock j now ∈ t.log → .clock j now ∈ s.log) : (leaseRole store calls i).Own s t := by
  refine ⟨⟨hlog, fun x hx => hissued ▸ hx, fun path lease version hrow => ?_⟩, fun j _ => ⟨hclock j, ?_⟩⟩
  · exact ⟨lease.status, version, hleases ▸ hrow, le_refl _, fun _ => rfl, fun _ => rfl⟩
  · exact fun path _ hnone => hleases ▸ hnone

theorem own_refl (s : store.State ι) : (leaseRole store calls i).Own s s :=
  own_of_leases (List.suffix_refl _) rfl rfl fun _ _ h => h

theorem own_tick {now : Timestamp} (s : store.State ι) : (leaseRole store calls i).Own s (s.tick i now) := by
  refine ⟨⟨List.suffix_cons _ _, fun _ h => h, fun path lease version hrow => ?_⟩, fun j hj => ⟨?_, ?_⟩⟩
  · exact ⟨lease.status, version, hrow, le_refl _, fun _ => rfl, fun _ => rfl⟩
  · intro reading hreading
    rcases List.mem_cons.1 hreading with heq | hreading
    · cases heq
      exact absurd rfl hj
    · exact hreading
  · exact fun path _ hnone => hnone

theorem inv_tick {now : Timestamp} (h : Inv store calls s) (hnow : s.clock ≤ now) :
    Inv store calls (s.tick i now) where
  path := h.path
  issued := h.issued
  remembers path lease version hrow := by
    obtain ⟨k, secret, hstored, hexpiry⟩ := h.remembers path lease version hrow
    exact ⟨k, secret, List.mem_cons_of_mem _ hstored, hexpiry⟩
  one := h.one
  once := h.once
  consumed j path lease hsettled := h.consumed j path lease (by simpa [StoreState.tick] using hsettled)
  taken j k path lease lease' hj hk :=
    h.taken j k path lease lease' (by simpa [StoreState.tick] using hj) (by simpa [StoreState.tick] using hk)
  newest path secret hsecret := by
    obtain ⟨k, newer, older, hlog, hnewest⟩ := h.newest path secret hsecret
    exact ⟨k, .clock i now :: newer, older, by simp [StoreState.tick, hlog], by simpa using hnewest⟩
  stored k path secret hstored := h.stored k path secret (by simpa [StoreState.tick] using hstored)
  clock j reading hreading := by
    rcases List.mem_cons.1 hreading with heq | hreading
    · cases heq
      exact le_refl _
    · exact (h.clock j reading hreading).trans hnow

theorem inv_deleteSecret {path : SecretPath} (h : Inv store calls s) : Inv store calls (s.deleteSecret path) where
  path := h.path
  issued := h.issued
  remembers := h.remembers
  one := h.one
  once := h.once
  consumed := h.consumed
  taken := h.taken
  newest other secret hsecret := by
    have hsecret' : Function.update s.secrets path none other = some secret := hsecret
    rw [Function.update_apply] at hsecret'
    split at hsecret'
    · cases hsecret'
    · exact h.newest other secret hsecret'
  stored := h.stored
  clock := h.clock

theorem inv_putSecret {path : SecretPath} {secret : StoredSecret store.crypto.Sealed}
    (h : Inv store calls s) (hsealed : ∃ material random,
      calls i = .put secret.scope secret.handle material secret.expiresAt random ∧
      store.crypto.encrypt random material (filesystemSecretAad secret.scope secret.handle) = .ok secret.box) :
    Inv store calls (s.putSecret i path secret) where
  path := h.path
  issued := h.issued
  remembers path lease version hrow := by
    obtain ⟨k, secret, hstored, hexpiry⟩ := h.remembers path lease version hrow
    exact ⟨k, secret, List.mem_cons_of_mem _ hstored, hexpiry⟩
  one := h.one
  once := h.once
  consumed j path lease hsettled := h.consumed j path lease (by simpa [StoreState.putSecret] using hsettled)
  taken j k path lease lease' hj hk := h.taken j k path lease lease'
    (by simpa [StoreState.putSecret] using hj) (by simpa [StoreState.putSecret] using hk)
  newest other found hfound := by
    have hfound' : Function.update s.secrets path (some secret) other = some found := hfound
    rw [Function.update_apply] at hfound'
    split at hfound'
    · rename_i heq
      cases hfound'
      subst heq
      exact ⟨i, [], s.log, rfl, fun _ _ => List.not_mem_nil⟩
    · rename_i hne
      obtain ⟨k, newer, older, hlog, hnewest⟩ := h.newest other found hfound'
      refine ⟨k, .stored i path secret :: newer, older, by simp [StoreState.putSecret, hlog],
        fun k' secret' hmem => ?_⟩
      rcases List.mem_cons.1 hmem with heq | hmem
      · cases heq
        exact hne rfl
      · exact hnewest k' secret' hmem
  stored k other found hstored := by
    rcases List.mem_cons.1 hstored with heq | hstored
    · cases heq
      exact hsealed
    · exact h.stored k other found hstored
  clock j reading hreading := h.clock j reading (by simpa [StoreState.putSecret] using hreading)

variable {lease : StoredLease} {path : LeasePath}

theorem putLease_leases (s : store.State ι) (lease : StoredLease) (path : LeasePath) :
    ∃ version, ∀ other, (s.putLease i path lease).leases other =
      if other = path then some (lease, version) else s.leases other :=
  ⟨_, fun other => Function.update_apply _ _ _ other⟩

/-- The row of a lease is written, over one that no call has consumed. -/
theorem inv_putLease (h : Inv store calls s) (hpath : path = store.leasePath lease.scope lease.leaseId)
    (hissued : ∃ j, (lease.leaseId, j) ∈ s.issued)
    (hremembers : ∃ k secret, .stored k (store.secretPath lease.scope lease.handle) secret ∈ s.log ∧
      secret.expiresAt = lease.secretExpiresAt)
    (hone : ∀ other, s.leases other ≠ none → other.leaseId = path.leaseId → other = path)
    (hunsettled : ∀ j settled, .settled j path settled ∈ s.log → settled.status ≠ .consumed) :
    Inv store calls (s.putLease i path lease) := by
  obtain ⟨version, hget⟩ := putLease_leases (i := i) s lease path
  have hrows : ∀ other found v, (s.putLease i path lease).leases other = some (found, v) →
      (other = path ∧ found = lease) ∨ s.leases other = some (found, v) := by
    intro other found v hfound
    rw [hget] at hfound
    split at hfound
    · rename_i heq
      cases hfound
      exact .inl ⟨heq, rfl⟩
    · exact .inr hfound
  refine
    { path := fun other found v hfound => ?_
      issued := fun other found v hfound => ?_
      remembers := fun other found v hfound => ?_
      one := fun path₁ path₂ h₁ h₂ hid => ?_
      once := h.once
      consumed := fun j other found hfound hstatus => ?_
      taken := fun j k other found found' hj hk hstatus hstatus' => ?_
      newest := fun other secret hsecret => ?_
      stored := fun k other secret hstored =>
        h.stored k other secret (by simpa [StoreState.putLease] using hstored)
      clock := fun j reading hreading =>
        h.clock j reading (by simpa [StoreState.putLease] using hreading) }
  · rcases hrows other found v hfound with ⟨rfl, rfl⟩ | hold
    · exact hpath
    · exact h.path other found v hold
  · rcases hrows other found v hfound with ⟨rfl, rfl⟩ | hold
    · exact hissued
    · exact h.issued other found v hold
  · have hold : ∃ k secret, .stored k (store.secretPath found.scope found.handle) secret ∈ s.log ∧
        secret.expiresAt = found.secretExpiresAt := by
      rcases hrows other found v hfound with ⟨rfl, rfl⟩ | hold
      · exact hremembers
      · exact h.remembers other found v hold
    obtain ⟨k, secret, hstored, hexpiry⟩ := hold
    exact ⟨k, secret, List.mem_cons_of_mem _ hstored, hexpiry⟩
  · rw [hget] at h₁ h₂
    split at h₁
    · rename_i heq₁
      split at h₂
      · rename_i heq₂
        exact heq₁.trans heq₂.symm
      · exact heq₁.trans (hone path₂ h₂ (by rw [← hid, heq₁])).symm
    · split at h₂
      · rename_i heq₂
        exact (hone path₁ h₁ (by rw [hid, heq₂])).trans heq₂.symm
      · exact h.one path₁ path₂ h₁ h₂ hid
  · rcases List.mem_cons.1 hfound with heq | hold
    · cases heq
      exact ⟨version, (hget path).trans (if_pos rfl)⟩
    · obtain ⟨v, hrow'⟩ := h.consumed j other found hold hstatus
      have hne : other ≠ path := by
        rintro rfl
        exact hunsettled j found hold hstatus
      exact ⟨v, (hget other).trans ((if_neg hne).trans hrow')⟩
  · rcases List.mem_cons.1 hj with heq | hj
    · cases heq
      rcases List.mem_cons.1 hk with heq | hk
      · cases heq
        rfl
      · exact absurd hstatus' (hunsettled k found' hk)
    · rcases List.mem_cons.1 hk with heq | hk
      · cases heq
        exact absurd hstatus (hunsettled j found hj)
      · exact h.taken j k other found found' hj hk hstatus hstatus'
  · obtain ⟨k, newer, older, hlog, hnewest⟩ := h.newest other secret hsecret
    refine ⟨k, .settled i path lease :: newer, older, ?_, by simpa using hnewest⟩
    exact congrArg (List.cons _) hlog

theorem inv_settle {version : ℕ} (h : Inv store calls s)
    (hrow : s.leases path = some (lease, version)) (hactive : lease.status = .active)
    (status : SecretLeaseStatus) :
    Inv store calls (s.putLease i path { lease with status := status }) := by
  refine inv_putLease h (h.path path lease version hrow) (h.issued path lease version hrow)
    (h.remembers path lease version hrow) (fun other hother hid => ?_) fun j settled hsettled hstatus => ?_
  · exact h.one other path hother (by simp [hrow]) hid
  · obtain ⟨v, hrow'⟩ := h.consumed j path settled hsettled hstatus
    rw [hrow, Option.some.injEq, Prod.mk.injEq] at hrow'
    rw [← hrow'.1, hactive] at hstatus
    cases hstatus

theorem own_settle {version : ℕ}
    (hrow : s.leases path = some (lease, version)) (hactive : lease.status = .active)
    (status : SecretLeaseStatus) :
    (leaseRole store calls i).Own s (s.putLease i path { lease with status := status }) := by
  have hget : ∀ other, (s.putLease i path { lease with status := status }).leases other =
      if other = path then some ({ lease with status := status }, version + 1) else s.leases other := by
    intro other
    show Function.update s.leases path _ other = _
    rw [Function.update_apply, hrow]
    rfl
  refine ⟨⟨List.suffix_cons _ _, fun _ h => h, fun other found v hfound => ?_⟩, fun j _ => ⟨?_, ?_⟩⟩
  · rw [hget]
    split
    · rename_i heq
      rw [heq, hrow, Option.some.injEq, Prod.mk.injEq] at hfound
      obtain ⟨rfl, rfl⟩ := hfound
      exact ⟨status, version + 1, rfl, Nat.le_succ _, fun h => absurd h (Nat.succ_ne_self _),
        fun h => absurd hactive h⟩
    · exact ⟨found.status, v, hfound, le_refl _, fun _ => rfl, fun _ => rfl⟩
  · intro reading hreading
    simpa [StoreState.putLease] using hreading
  · intro other _ hnone
    rw [hget]
    split
    · rename_i heq
      rw [heq, hrow] at hnone
      cases hnone
    · exact hnone

variable {leaseId : SecretLeaseId}

theorem inv_issue (h : Inv store calls s) (hnew : ∀ j, (leaseId, j) ∉ s.issued) :
    Inv store calls (s.issue i leaseId) where
  path := h.path
  issued path lease version hrow := by
    obtain ⟨j, hj⟩ := h.issued path lease version hrow
    exact ⟨j, List.mem_cons_of_mem _ hj⟩
  remembers := h.remembers
  one := h.one
  once other j k hj hk := by
    rcases List.mem_cons.1 hj with heq | hj
    · cases heq
      rcases List.mem_cons.1 hk with heq | hk
      · cases heq
        rfl
      · exact absurd hk (hnew k)
    · rcases List.mem_cons.1 hk with heq | hk
      · cases heq
        exact absurd hj (hnew j)
      · exact h.once other j k hj hk
  consumed := h.consumed
  taken := h.taken
  newest := h.newest
  stored := h.stored
  clock := h.clock

theorem own_issue : (leaseRole store calls i).Own s (s.issue i leaseId) := by
  refine ⟨⟨List.suffix_refl _, fun _ h => List.mem_cons_of_mem _ h, fun path lease version hrow => ?_⟩,
    fun j _ => ⟨fun _ h => h, fun _ _ hnone => hnone⟩⟩
  exact ⟨lease.status, version, hrow, le_refl _, fun _ => rfl, fun _ => rfl⟩

theorem inv_create (lease : StoredLease) (h : Inv store calls s) (hissued : (lease.leaseId, i) ∈ s.issued)
    (hnone : ∀ path : LeasePath, path.leaseId = lease.leaseId → s.leases path = none)
    (hremembers : ∃ k secret, .stored k (store.secretPath lease.scope lease.handle) secret ∈ s.log ∧
      secret.expiresAt = lease.secretExpiresAt) :
    Inv store calls (s.putLease i (store.leasePath lease.scope lease.leaseId) lease) := by
  refine inv_putLease h rfl ⟨i, hissued⟩ hremembers (fun other hother hid => ?_)
    fun j settled hsettled hstatus => ?_
  · exact absurd (hnone other hid) hother
  · obtain ⟨v, hrow⟩ := h.consumed j _ settled hsettled hstatus
    rw [hnone _ rfl] at hrow
    cases hrow

theorem own_create (lease : StoredLease) (h : Inv store calls s) (hissued : (lease.leaseId, i) ∈ s.issued)
    (hnone : s.leases (store.leasePath lease.scope lease.leaseId) = none) :
    (leaseRole store calls i).Own s (s.putLease i (store.leasePath lease.scope lease.leaseId) lease) := by
  have hget : ∀ other, other ≠ store.leasePath lease.scope lease.leaseId →
      (s.putLease i (store.leasePath lease.scope lease.leaseId) lease).leases other = s.leases other :=
    fun other hne => Function.update_of_ne hne _ _
  refine ⟨⟨List.suffix_cons _ _, fun _ h => h, fun other found v hfound => ?_⟩,
    fun j hj => ⟨fun reading hreading => by simpa [StoreState.putLease] using hreading, ?_⟩⟩
  · refine ⟨found.status, v, (hget other ?_).trans hfound, le_refl _, fun _ => rfl, fun _ => rfl⟩
    rintro rfl
    rw [hnone] at hfound
    cases hfound
  · intro other hreserved hother
    refine (hget other ?_).trans hother
    rintro rfl
    exact hj (h.once _ _ _ hreserved hissued)

/-! ### The programs -/

/-- A program of the call `i`, among the others. -/
abbrev Keeps (store : SecretStore) (calls : ι → SecretCall) (i : ι) {α : Type} (task : store.Task α)
    (s : store.State ι) (Q : α → store.State ι → Prop) : Prop :=
  Meets (fun s request => Served s (i, request)) (leaseRole store calls i) task s Q

theorem Renewing.of_suffix {Sealed : Type} {log log' : List (StoreEvent ι Sealed)} (h : Renewing log')
    (hsuffix : log <:+ log') : Renewing log := List.Pairwise.sublist hsuffix.sublist h

/-- The readings of the clock that a call has made are up to `now`. -/
def ReadUpTo (i : ι) (now : Timestamp) (s : store.State ι) : Prop :=
  ∀ reading, .clock i reading ∈ s.log → reading ≤ now

theorem now_keeps : Keeps store calls i now s (ReadUpTo i) := by
  refine Meets.request fun t _ hinv reading t' hserved => ?_
  cases hserved with
  | now _ _ hclock =>
    refine ⟨inv_tick hinv hclock, own_tick t, fun u hu _ earlier hearlier => ?_⟩
    rcases List.mem_cons.1 (hu.2.clock earlier hearlier) with heq | hold
    · cases heq
      exact le_refl _
    · exact (hinv.clock i earlier hold).trans hclock

/-- What is known of a secret that a call has read since `s`. -/
structure Found (i : ι) (s : store.State ι) (scope : ResourceScope) (handle : SecretHandle)
    (secret : StoredSecret store.crypto.Sealed) (t : store.State ι) : Prop where
  owner : sameScopeOwner secret.scope scope = true
  named : secret.handle = handle
  stored : ∃ k, .stored k (store.secretPath scope handle) secret ∈ t.log
  renews : ∀ k earlier, .stored k (store.secretPath scope handle) earlier ∈ s.log → Renewing t.log →
    NotEarlier secret.expiresAt earlier.expiresAt
  clock : ∀ reading, .clock i reading ∈ t.log → .clock i reading ∈ s.log

theorem NotEarlier.refl (expiry : Option Timestamp) : NotEarlier expiry expiry :=
  fun x h => ⟨x, h, le_refl _⟩

/-- The newest secret under a handle lasts as long as each of the others. -/
theorem notEarlier_of_newest {path : SecretPath} {secret earlier : StoredSecret store.crypto.Sealed} {k k' : ι}
    {newer older : List (StoreEvent ι store.crypto.Sealed)}
    (hnewest : ∀ k' secret', .stored k' path secret' ∉ newer)
    (hearlier : .stored k' path earlier ∈ newer ++ .stored k path secret :: older)
    (hrenewing : Renewing (newer ++ .stored k path secret :: older)) :
    NotEarlier secret.expiresAt earlier.expiresAt := by
  rcases List.mem_append.1 hearlier with hmem | hmem
  · exact absurd hmem (hnewest k' earlier)
  · rcases List.mem_cons.1 hmem with heq | hmem
    · cases heq
      exact NotEarlier.refl _
    · have hpairs := (List.pairwise_append.1 hrenewing).2.1
      exact (List.pairwise_cons.1 hpairs).1 _ hmem rfl

theorem readSecret_keeps (scope : ResourceScope) (handle : SecretHandle) :
    Keeps store calls i (store.readSecret scope handle) s fun result t =>
      ∀ secret, result = .ok (some secret) → Found i s scope handle secret t := by
  refine Meets.bind (Meets.request fun t ht hinv answer t' hserved => ?_)
  -- reading changes nothing, whether it fails or not
  have hsame : t' = t ∧ ∀ secret, answer = .ok (some secret) →
      t.secrets (store.secretPath scope handle) = some secret := by
    cases hserved with
    | done heffect =>
      cases heffect
      exact ⟨rfl, fun secret h => Except.ok.inj h⟩
    | refused => exact ⟨rfl, fun _ h => by cases h⟩
    | lost fault heffect =>
      cases heffect
      exact ⟨rfl, fun _ h => by cases h⟩
  obtain ⟨rfl, hsecret⟩ := hsame
  refine ⟨hinv, own_refl _, fun u hu _ => ?_⟩
  match answer with
  | .error fault => exact Meets.pure fun _ _ _ _ h => by cases h
  | .ok none => exact Meets.pure fun _ _ _ _ h => by cases h
  | .ok (some stored) =>
    dsimp only
    split
    · exact Meets.pure fun _ _ _ _ h => by cases h
    · rename_i hmatch
      refine Meets.pure fun v hv _ secret h => ?_
      cases h
      rw [Bool.not_eq_true, Bool.or_eq_false_iff, Bool.not_eq_false', decide_eq_false_iff_not, not_not] at hmatch
      obtain ⟨k, newer, older, hlog, hnewest⟩ := hinv.newest _ _ (hsecret stored rfl)
      have hlogs : t'.log <:+ v.log := hu.1.log.trans hv.1.log
      refine ⟨hmatch.1, hmatch.2, ⟨k, hlogs.subset (by simp [hlog])⟩, fun k' earlier hearlier hrenewing => ?_,
        fun reading hreading => ht.2.clock _ (hu.2.clock _ (hv.2.clock _ hreading))⟩
      have hearlier' := ht.1.log.subset hearlier
      have hrenewing' := hrenewing.of_suffix hlogs
      rw [hlog] at hearlier' hrenewing'
      exact notEarlier_of_newest hnewest hearlier' hrenewing'

/-- The material has been put under a handle of the owner; and it has not expired when the call read the clock,
as long as no put shortens the time of a secret. -/
def Material (calls : ι → SecretCall) (i : ι) (scope : ResourceScope) (handle : SecretHandle) (material : String)
    (t : store.State ι) : Prop :=
  ∃ k owner expiresAt random, calls k = .put owner handle material expiresAt random ∧
    sameScopeOwner owner scope = true ∧
    (∃ secret, .stored k (store.secretPath scope handle) secret ∈ t.log) ∧
    (Renewing t.log → ∀ reading, .clock i reading ∈ t.log → passed expiresAt reading = false)

variable {scope : ResourceScope} {handle : SecretHandle}

theorem Material.rely {material : String}
    (h : Material calls i scope handle material s) (hrely : (leaseRole store calls i).Rely s t) :
    Material calls i scope handle material t := by
  obtain ⟨k, owner, expiresAt, random, hcall, howner, ⟨secret, hstored⟩, hvalid⟩ := h
  refine ⟨k, owner, expiresAt, random, hcall, howner, ⟨secret, hrely.1.log.subset hstored⟩,
    fun hrenewing reading hreading => ?_⟩
  exact hvalid (hrenewing.of_suffix hrely.1.log) reading (hrely.2.clock reading hreading)

theorem passed_eq_false {expiry : Option Timestamp} {now : Timestamp} :
    passed expiry now = false ↔ ∀ x, expiry = some x → now < x := by
  cases expiry with
  | none => exact ⟨fun _ _ h => (by cases h), fun _ => rfl⟩
  | some x =>
    rw [passed, Option.any_some, decide_eq_false_iff_not, not_le]
    exact ⟨fun h y hy => (by cases hy; exact h), fun h => h x rfl⟩

theorem aad_eq {left right : ResourceScope} (h : sameScopeOwner left right = true) (handle : SecretHandle) :
    filesystemSecretAad left handle = filesystemSecretAad right handle := by
  simp only [sameScopeOwner, Bool.and_eq_true, decide_eq_true_eq] at h
  obtain ⟨⟨⟨htenant, huser⟩, hagent⟩, hproject⟩ := h
  simp only [filesystemSecretAad, htenant, huser, hagent, hproject]

theorem scope_eq {left right : ResourceScope} (h : sameScopeForLease left right = true) : left = right := by
  simp only [sameScopeForLease, sameScopeOwner, Bool.and_eq_true, decide_eq_true_eq] at h
  cases left
  cases right
  simp_all

/-- The row of a lease remembers the expiry of a secret that was stored under its handle. -/
def Remembers (store : SecretStore) (lease : StoredLease) (s : store.State ι) : Prop :=
  ∃ k secret, .stored k (store.secretPath lease.scope lease.handle) secret ∈ s.log ∧
    secret.expiresAt = lease.secretExpiresAt

theorem takeMaterial_keeps {now : Timestamp} (hremembers : Remembers store lease s)
    (hnow : ReadUpTo i now s) (hvalid : passed lease.secretExpiresAt now = false) :
    Keeps store calls i (store.takeMaterial lease.scope lease) s fun result t => ∀ snapshot outcome,
      result = .ok (snapshot, outcome) → snapshot = { lease with status := .consumed } ∧
        ∃ material, outcome = .ok material ∧ Material calls i lease.scope lease.handle material t := by
  refine (readSecret_keeps lease.scope lease.handle).seq fun result t _ hinv hfound => ?_
  match result with
  | .error error => exact Meets.pure fun _ _ _ _ _ h => by cases h
  | .ok none => exact Meets.pure fun _ _ _ _ _ h => by cases h
  | .ok (some secret) =>
    obtain ⟨howner, hhandle, ⟨k, hstored⟩, hrenews, hclock⟩ := hfound secret rfl
    dsimp only
    cases hdecrypt : store.crypto.decrypt secret.box (filesystemSecretAad lease.scope lease.handle) with
    | error error => exact Meets.pure fun _ _ _ _ _ h => by cases h
    | ok material =>
      refine Meets.pure fun u hu _ snapshot outcome h => ?_
      cases h
      refine ⟨rfl, material, rfl, Material.rely ?_ hu⟩
      obtain ⟨sealed, random, hcall, hencrypt⟩ := hinv.stored k _ secret hstored
      have hsame : sealed = material := by
        have hopened := store.crypto.decrypt_encrypt hencrypt
        rw [hhandle, aad_eq howner, hdecrypt, Except.ok.injEq] at hopened
        exact hopened.symm
      subst hsame
      refine ⟨k, secret.scope, secret.expiresAt, random, hhandle ▸ hcall, howner, ⟨secret, hstored⟩,
        fun hrenewing reading hreading => passed_eq_false.2 fun x hx => ?_⟩
      obtain ⟨k', earlier, hearlier, hexpiry⟩ := hremembers
      obtain ⟨y, hy, hle⟩ := hrenews k' earlier hearlier hrenewing x hx
      have hread := hnow reading (hclock reading hreading)
      exact lt_of_le_of_lt hread ((passed_eq_false.1 hvalid y (hexpiry ▸ hy)).trans_le hle)

/-- What a round of `cas_update` may make of a lease: leave one that is not active as it is, or end one that
is. -/
def Decides (lease snapshot : StoredLease) : Prop :=
  (snapshot = lease ∧ lease.status ≠ .active) ∨
    (lease.status = .active ∧ ∃ status, status ≠ .active ∧ snapshot = { lease with status := status })

/-- The outcome of a round of `consume` that returns material. -/
def Consumes (calls : ι → SecretCall) (i : ι) (scope : ResourceScope) (lease snapshot : StoredLease)
    (outcome : Except SecretStoreError String) (t : store.State ι) : Prop :=
  ∀ material, outcome = .ok material → lease.status = .active ∧ lease.scope = scope ∧
    snapshot = { lease with status := .consumed } ∧ Material calls i scope lease.handle material t

theorem effectiveStatus_active {now : Timestamp} (h : lease.effectiveStatus now = .active) :
    lease.status = .active ∧ passed lease.secretExpiresAt now = false := by
  unfold StoredLease.effectiveStatus at h
  cases hstatus : lease.status with
  | active =>
    rw [hstatus] at h
    dsimp only at h
    split at h
    · cases h
    · rename_i hvalid
      rw [Bool.or_eq_true, not_or] at hvalid
      exact ⟨rfl, Bool.eq_false_iff.2 hvalid.2⟩
  | consumed | revoked | expired =>
    rw [hstatus] at h
    cases h

theorem effectiveStatus_expired {now : Timestamp}
    (h : lease.effectiveStatus now = .expired) : lease.status = .active ∨ lease.status = .expired := by
  unfold StoredLease.effectiveStatus at h
  cases hstatus : lease.status with
  | active => exact .inl rfl
  | expired => exact .inr rfl
  | consumed | revoked =>
    rw [hstatus] at h
    cases h

theorem Remembers.follows (h : Remembers store lease s) (hfollows : Follows s t) :
    Remembers store lease t := by
  obtain ⟨k, secret, hstored, hexpiry⟩ := h
  exact ⟨k, secret, hfollows.log.subset hstored, hexpiry⟩

theorem consumeApply_keeps (hremembers : Remembers store lease s) :
    Keeps store calls i (store.consumeApply scope leaseId (some lease)) s fun result t =>
      ∀ snapshot outcome, result = .ok (snapshot, outcome) →
        Decides lease snapshot ∧ Consumes calls i scope lease snapshot outcome t := by
  unfold SecretStore.consumeApply
  dsimp only
  split
  · exact Meets.pure fun _ _ _ _ _ h => by cases h
  rename_i hscope
  rw [Bool.not_eq_true, Bool.not_eq_false'] at hscope
  refine now_keeps.seq fun readAt t ht _ hread => ?_
  cases heffective : lease.effectiveStatus readAt with
  | consumed => exact Meets.pure fun _ _ _ _ _ h => by cases h
  | revoked => exact Meets.pure fun _ _ _ _ _ h => by cases h
  | expired =>
    dsimp only
    split
    · exact Meets.pure fun _ _ _ _ _ h => by cases h
    · rename_i hunmarked
      have hactive := (effectiveStatus_expired heffective).resolve_right hunmarked
      refine Meets.pure fun _ _ _ snapshot outcome h => ?_
      cases h
      exact ⟨.inr ⟨hactive, .expired, by decide, rfl⟩, fun _ h => by cases h⟩
  | active =>
    obtain ⟨hactive, hvalid⟩ := effectiveStatus_active heffective
    have heq := scope_eq hscope
    subst heq
    refine (takeMaterial_keeps (hremembers.follows ht) hread hvalid).mono fun result u _ htaken => ?_
    intro snapshot outcome h
    obtain ⟨rfl, material, rfl, hmaterial⟩ := htaken snapshot outcome h
    refine ⟨.inr ⟨hactive, .consumed, by decide, rfl⟩, fun found hfound => ?_⟩
    cases hfound
    exact ⟨hactive, rfl, rfl, hmaterial⟩

theorem revokeApply_keeps (lease : StoredLease) :
    Keeps store calls i (store.revokeApply scope leaseId (some lease)) s fun result _ =>
      ∀ snapshot outcome, result = .ok (snapshot, outcome) →
        Decides lease snapshot ∧ outcome = snapshot.toPublic := by
  unfold SecretStore.revokeApply
  dsimp only
  split
  · exact Meets.pure fun _ _ _ _ _ h => by cases h
  cases hstatus : lease.status with
  | consumed | revoked | expired =>
    refine Meets.pure fun _ _ _ snapshot outcome h => ?_
    cases h
    exact ⟨.inl ⟨rfl, by rw [hstatus]; decide⟩, rfl⟩
  | active =>
    refine now_keeps.seq fun readAt t _ _ _ => Meets.pure fun _ _ _ snapshot outcome h => ?_
    cases h
    refine ⟨.inr ⟨hstatus, _, ?_, rfl⟩, rfl⟩
    split
    · decide
    · decide

/-- The row of a lease ended as decided; the call that ended it is in the log. -/
structure Landed (i : ι) (path : LeasePath) (lease snapshot : StoredLease) (t : store.State ι) : Prop where
  row : ∃ version, t.leases path = some (snapshot, version)
  ended : snapshot.status ≠ .active
  settled : lease.status = .active → .settled i path snapshot ∈ t.log

theorem row_of_ended {version : ℕ} (h : Follows s t)
    (hrow : s.leases path = some (lease, version)) (hended : lease.status ≠ .active) :
    ∃ version', t.leases path = some (lease, version') := by
  obtain ⟨status, version', hrow', -, -, hfinal⟩ := h.lease path lease version hrow
  rw [hfinal hended] at hrow'
  exact ⟨version', hrow'⟩

theorem Landed.follows {lease snapshot : StoredLease}
    (h : Landed i path lease snapshot s) (hfollows : Follows s t) : Landed i path lease snapshot t where
  row := by
    obtain ⟨version, hrow⟩ := h.row
    exact row_of_ended hfollows hrow h.ended
  ended := h.ended
  settled hactive := hfollows.log.subset (h.settled hactive)

section cas
variable {T : Type} {path : LeasePath}
  {apply : Option StoredLease → store.Task (Except SecretStoreError (StoredLease × T))}
  {R : StoredLease → StoredLease → T → store.State ι → Prop}

/-- What a round knows is not disturbed by the others, nor by its own write. -/
structure Stable (store : SecretStore) (calls : ι → SecretCall) (i : ι) (path : LeasePath)
    (R : StoredLease → StoredLease → T → store.State ι → Prop) : Prop where
  rely : ∀ {lease snapshot outcome s t}, (leaseRole store calls i).Rely s t → R lease snapshot outcome s →
    R lease snapshot outcome t
  write : ∀ {lease snapshot outcome s}, R lease snapshot outcome s →
    R lease snapshot outcome (s.putLease i path snapshot)

/-- What a round returns, when it returns. -/
def Ends (i : ι) (path : LeasePath) (R : StoredLease → StoredLease → T → store.State ι → Prop)
    (result : Except CasUpdateError T) (t : store.State ι) : Prop :=
  ∀ outcome, result = .ok outcome → ∃ lease snapshot, R lease snapshot outcome t ∧ Landed i path lease snapshot t

/-- The conditional write of a round whose row was read in `s`. -/
theorem write_keeps {lease snapshot : StoredLease} {version : ℕ} {outcome : T}
    {retry : store.Task (Except CasUpdateError T)}
    (hR : Stable store calls i path R) (hrow : s.leases path = some (lease, version)) (hfollows : Follows s t) (hpost : R lease snapshot outcome t)
    (hactive : lease.status = .active) (status : SecretLeaseStatus) (hended : status ≠ .active)
    (hsnapshot : snapshot = { lease with status := status })
    (hretry : ∀ u, Keeps store calls i retry u (Ends i path R)) :
    Keeps store calls i ((FileOp.putLease path snapshot (.version version)).make >>= afterWrite retry outcome) t
      (Ends i path R) := by
  refine Meets.bind (Meets.request fun u hu hinv answer u' hserved => ?_)
  -- a write that lands finds the row as it was read
  have hlands : ∀ value, Effect u i (.putLease path snapshot (.version version)) value u' →
      u.leases path = some (lease, version) ∧ u' = u.putLease i path snapshot := by
    intro value heffect
    cases heffect with
    | putLease _ _ _ hmet =>
      obtain ⟨found, version', hfound, -, hsame, -⟩ := (hfollows.trans hu.1).lease path lease version hrow
      have hmet' : (u.leases path).map Prod.snd = some version := hmet
      rw [hfound, Option.map_some, Option.some.injEq] at hmet'
      dsimp only at hmet'
      rw [hmet', hsame hmet'] at hfound
      exact ⟨hfound, rfl⟩
  have hkept : ∀ value, Effect u i (.putLease path snapshot (.version version)) value u' →
      Inv store calls u' ∧ (leaseRole store calls i).Own u u' ∧ Landed i path lease snapshot u' ∧
        R lease snapshot outcome u' := by
    intro value heffect
    obtain ⟨hfound, rfl⟩ := hlands value heffect
    have hpost' := hR.write (hR.rely hu hpost)
    subst hsnapshot
    refine ⟨inv_settle hinv hfound hactive status, own_settle hfound hactive status, ⟨?_, hended, ?_⟩, hpost'⟩
    · exact ⟨_, Function.update_self path _ _⟩
    · exact fun _ => List.mem_cons_self
  cases hserved with
  | done heffect =>
    obtain ⟨hinv', hown, hlanded, hpost'⟩ := hkept _ heffect
    refine ⟨hinv', hown, fun v hv _ => Meets.pure fun w hw _ found hfound => ?_⟩
    cases hfound
    exact ⟨lease, snapshot, hR.rely hw (hR.rely hv hpost'), (hlanded.follows hv.1).follows hw.1⟩
  | refused _ _ fault =>
    refine ⟨hinv, own_refl _, fun v _ _ => ?_⟩
    cases fault with
    | versionMismatch => exact hretry v
    | notFound | permissionDenied | unsupported | other => exact Meets.pure fun _ _ _ _ h => by cases h
  | lost fault heffect =>
    obtain ⟨hinv', hown, -, -⟩ := hkept _ heffect
    refine ⟨hinv', hown, fun v _ _ => ?_⟩
    cases fault with
    | versionMismatch => exact hretry v
    | notFound | permissionDenied | unsupported | other => exact Meets.pure fun _ _ _ _ h => by cases h

/-- One round, up to the point where a changed lease is to be written. -/
theorem casRound_keeps {change : Option (StoredLease × ℕ) → StoredLease → T → store.Task (Except CasUpdateError T)}
    (hR : Stable store calls i path R) (hnone : ∃ error, apply none = pure (.error error))
    (hsome : ∀ s lease, Remembers store lease s → Keeps store calls i (apply (some lease)) s fun result t =>
      ∀ snapshot outcome, result = .ok (snapshot, outcome) →
        Decides lease snapshot ∧ R lease snapshot outcome t)
    (hchange : ∀ {s t : store.State ι} {lease snapshot : StoredLease} {version : ℕ} {outcome : T},
      s.leases path = some (lease, version) → Follows s t → lease ≠ snapshot → Decides lease snapshot →
      R lease snapshot outcome t →
      Keeps store calls i (change (some (lease, version)) snapshot outcome) t (Ends i path R))
    (s : store.State ι) :
    Keeps store calls i (casRound path apply change) s (Ends i path R) := by
  obtain ⟨error, hnone⟩ := hnone
  refine Meets.bind (Meets.request fun t _ hinv answer t' hserved => ?_)
  have hsame : t' = t ∧ ∀ current, answer = .ok current → t.leases path = current := by
    cases hserved with
    | done heffect =>
      cases heffect
      exact ⟨rfl, fun current h => Except.ok.inj h⟩
    | refused => exact ⟨rfl, fun _ h => by cases h⟩
    | lost fault heffect =>
      cases heffect
      exact ⟨rfl, fun _ h => by cases h⟩
  obtain ⟨rfl, hread⟩ := hsame
  refine ⟨hinv, own_refl _, fun u hu _ => ?_⟩
  match answer with
  | .error fault => exact Meets.pure fun _ _ _ _ h => by cases h
  | .ok none =>
    dsimp only [Option.map_none]
    rw [hnone]
    exact Meets.pure fun _ _ _ _ h => by cases h
  | .ok (some (lease, version)) =>
    have hrow := hread _ rfl
    have hremembers := hinv.remembers path lease version hrow
    dsimp only [Option.map_some]
    refine (hsome u lease (Remembers.follows hremembers hu.1)).seq fun result v hv _ hresult => ?_
    match result with
    | .error error => exact Meets.pure fun _ _ _ _ h => by cases h
    | .ok (snapshot, outcome) =>
      obtain ⟨hdecides, hpost⟩ := hresult snapshot outcome rfl
      dsimp only
      split
      · rename_i heq
        cases heq
        -- the lease is left as it is, which is one that had ended
        have hended : lease.status ≠ .active := by
          rcases hdecides with ⟨-, hended⟩ | ⟨-, status, hended, hstatus⟩
          · exact hended
          · rw [hstatus]
            exact hended
        refine Meets.pure fun w hw _ found hfound => ?_
        cases hfound
        refine ⟨lease, lease, hR.rely hw hpost, row_of_ended ((hu.1.trans hv).trans hw.1) hrow hended, hended, ?_⟩
        exact fun hactive => absurd hactive hended
      · rename_i hne
        exact hchange hrow (hu.1.trans hv) (fun heq => hne (congrArg some heq)) hdecides hpost

/-- The loop, for an operation that refuses a lease that is not there. -/
theorem casUpdateLoop_keeps (hR : Stable store calls i path R)
    (hnone : ∃ error, apply none = pure (.error error))
    (hsome : ∀ s lease, Remembers store lease s → Keeps store calls i (apply (some lease)) s fun result t =>
      ∀ snapshot outcome, result = .ok (snapshot, outcome) →
        Decides lease snapshot ∧ R lease snapshot outcome t) (attempts : ℕ) :
    ∀ s, Keeps store calls i (casUpdateLoop path apply attempts) s (Ends i path R) := by
  induction attempts with
  | zero =>
    exact casRound_keeps hR hnone hsome fun _ _ _ _ _ => Meets.pure fun _ _ _ _ h => by cases h
  | succ attempts ih =>
    refine casRound_keeps hR hnone hsome fun hrow hfollows hne hdecides hpost => ?_
    rcases hdecides with ⟨rfl, -⟩ | ⟨hactive, status, hended, hsnapshot⟩
    · exact absurd rfl hne
    · exact write_keeps hR hrow hfollows hpost hactive status hended hsnapshot ih

end cas

/-! ### The calls -/

theorem put_keeps {material : String}
    {expiresAt : Option Timestamp} {random : ℕ} (hcall : calls i = .put scope handle material expiresAt random) :
    Keeps store calls i (store.put scope handle material expiresAt random) s fun _ _ => True := by
  unfold SecretStore.put
  cases hencrypt : store.crypto.encrypt random material (filesystemSecretAad scope handle) with
  | error error => exact Meets.pure fun _ _ _ => trivial
  | ok box =>
    refine Meets.bind (Meets.request fun t _ hinv answer t' hserved => ?_)
    have hput : Inv store calls (t.putSecret i (store.secretPath scope handle) ⟨scope, handle, box, expiresAt⟩) :=
      inv_putSecret hinv ⟨material, random, hcall, hencrypt⟩
    have hown : (leaseRole store calls i).Own t
        (t.putSecret i (store.secretPath scope handle) ⟨scope, handle, box, expiresAt⟩) :=
      own_of_leases (List.suffix_cons _ _) rfl rfl fun j now hmem => by simpa [StoreState.putSecret] using hmem
    cases hserved with
    | done heffect =>
      cases heffect
      exact ⟨hput, hown, fun _ _ _ => Meets.pure fun _ _ _ => trivial⟩
    | refused => exact ⟨hinv, own_refl _, fun _ _ _ => Meets.pure fun _ _ _ => trivial⟩
    | lost fault heffect =>
      cases heffect
      exact ⟨hput, hown, fun _ _ _ => Meets.pure fun _ _ _ => trivial⟩

theorem delete_keeps (scope : ResourceScope) (handle : SecretHandle) :
    Keeps store calls i (store.delete scope handle) s fun _ _ => True := by
  refine Meets.bind (Meets.request fun t _ hinv answer t' hserved => ?_)
  have hkept : Inv store calls t' ∧ (leaseRole store calls i).Own t t' := by
    have hown : (leaseRole store calls i).Own t (t.deleteSecret (store.secretPath scope handle)) :=
      own_of_leases (List.suffix_refl _) rfl rfl fun _ _ h => h
    cases hserved with
    | done heffect =>
      cases heffect
      exact ⟨inv_deleteSecret hinv, hown⟩
    | refused => exact ⟨hinv, own_refl _⟩
    | lost fault heffect =>
      cases heffect
      exact ⟨inv_deleteSecret hinv, hown⟩
  refine ⟨hkept.1, hkept.2, fun u _ _ => ?_⟩
  match answer with
  | .ok () => exact Meets.pure fun _ _ _ => trivial
  | .error .notFound => exact Meets.pure fun _ _ _ => trivial
  | .error .permissionDenied => exact Meets.pure fun _ _ _ => trivial
  | .error .versionMismatch => exact Meets.pure fun _ _ _ => trivial
  | .error .unsupported => exact Meets.pure fun _ _ _ => trivial
  | .error (.other kind) => exact Meets.pure fun _ _ _ => trivial

/-- The id was generated for the call, and no row has it. -/
structure Reserved (i : ι) (leaseId : SecretLeaseId) (s : store.State ι) : Prop where
  issued : (leaseId, i) ∈ s.issued
  rows : ∀ path : LeasePath, path.leaseId = leaseId → s.leases path = none

theorem Reserved.rely (h : Reserved i leaseId s)
    (hrely : (leaseRole store calls i).Rely s t) : Reserved i leaseId t where
  issued := hrely.1.issued _ h.issued
  rows path hpath := hrely.2.reserved path (hpath ▸ h.issued) (h.rows path hpath)

theorem newLeaseId_keeps : Keeps store calls i newLeaseId s fun leaseId t => Reserved i leaseId t := by
  refine Meets.request fun t _ hinv leaseId t' hserved => ?_
  cases hserved with
  | newLeaseId _ _ hnew =>
    refine ⟨inv_issue hinv hnew, own_issue, fun u hu _ => Reserved.rely ⟨List.mem_cons_self, ?_⟩ hu⟩
    intro path hpath
    show t.leases path = none
    cases hrow : t.leases path with
    | none => rfl
    | some row =>
      -- every row has an id that was generated before
      have hid := hinv.path path row.1 row.2 hrow
      obtain ⟨j, hj⟩ := hinv.issued path row.1 row.2 hrow
      rw [hid] at hpath
      have hsame : row.1.leaseId = leaseId := hpath
      rw [hsame] at hj
      exact absurd hj (hnew j)

theorem now_reserves (h : Reserved i leaseId s) :
    Keeps store calls i now s fun _ t => Reserved i leaseId t := by
  refine Meets.request fun t ht hinv reading t' hserved => ?_
  cases hserved with
  | now _ _ hclock =>
    refine ⟨inv_tick hinv hclock, own_tick t, fun u hu _ => Reserved.rely ?_ hu⟩
    exact ⟨(h.rely ht).issued, (h.rely ht).rows⟩

/-- The row of a lease that was issued. -/
def IssuedFor (store : SecretStore) (scope : ResourceScope) (handle : SecretHandle) (leaseId : SecretLeaseId)
    (t : store.State ι) : Prop :=
  ∃ lease version, t.leases (store.leasePath scope leaseId) = some (lease, version) ∧ lease.scope = scope ∧
    lease.handle = handle

theorem IssuedFor.follows (h : IssuedFor store scope handle leaseId s) (hfollows : Follows s t) :
    IssuedFor store scope handle leaseId t := by
  obtain ⟨lease, version, hrow, hscope, hhandle⟩ := h
  obtain ⟨status, version', hrow', -⟩ := hfollows.lease _ lease version hrow
  exact ⟨_, version', hrow', hscope, hhandle⟩

theorem issueLease_keeps {secretExpiresAt : Option Timestamp}
    (hremembers : ∃ k secret, .stored k (store.secretPath scope handle) secret ∈ s.log ∧
      secret.expiresAt = secretExpiresAt) :
    Keeps store calls i (store.issueLease scope handle secretExpiresAt) s fun result t =>
      ∀ lease, result = .ok lease → IssuedFor store scope handle lease.id t := by
  refine newLeaseId_keeps.seq fun leaseId t ht _ hreserved => ?_
  refine (now_reserves hreserved).seq fun issuedAt u hu _ hreserved => ?_
  refine Meets.bind (Meets.request fun v hv hinv answer v' hserved => ?_)
  have hreserved' := hreserved.rely hv
  let lease : StoredLease := ⟨scope, handle, leaseId, .active, issuedAt + store.leaseTtl, secretExpiresAt⟩
  obtain ⟨k, secret, hstored, hexpiry⟩ := hremembers
  have hcreated : Inv store calls (v.putLease i (store.leasePath scope leaseId) lease) ∧
      (leaseRole store calls i).Own v (v.putLease i (store.leasePath scope leaseId) lease) := by
    refine ⟨inv_create lease hinv hreserved'.issued hreserved'.rows ⟨k, secret, ?_, hexpiry⟩,
      own_create lease hinv hreserved'.issued (hreserved'.rows _ rfl)⟩
    exact ((ht.log.trans hu.log).trans hv.1.log).subset hstored
  cases hserved with
  | done heffect =>
    cases heffect
    refine ⟨hcreated.1, hcreated.2, fun w hw _ => Meets.pure fun x hx _ found hfound => ?_⟩
    cases hfound
    have hissued : IssuedFor store scope handle leaseId
        (v.putLease i (store.leasePath scope leaseId) lease) :=
      ⟨lease, _, Function.update_self _ _ _, rfl, rfl⟩
    exact (hissued.follows hw.1).follows hx.1
  | refused => exact ⟨hinv, own_refl _, fun _ _ _ => Meets.pure fun _ _ _ _ h => by cases h⟩
  | lost fault heffect =>
    cases heffect
    exact ⟨hcreated.1, hcreated.2, fun _ _ _ => Meets.pure fun _ _ _ _ h => by cases h⟩

theorem leaseOnce_keeps (scope : ResourceScope) (handle : SecretHandle) :
    Keeps store calls i (store.leaseOnce scope handle) s fun result t =>
      ∀ lease, result = .ok lease → IssuedFor store scope handle lease.id t := by
  refine (readSecret_keeps scope handle).seq fun result t _ _ hfound => ?_
  match result with
  | .error error => exact Meets.pure fun _ _ _ _ h => by cases h
  | .ok none => exact Meets.pure fun _ _ _ _ h => by cases h
  | .ok (some secret) =>
    obtain ⟨k, hstored⟩ := (hfound secret rfl).stored
    dsimp only
    cases hexpiry : secret.expiresAt with
    | none => exact issueLease_keeps ⟨k, secret, hstored, hexpiry⟩
    | some expiresAt =>
      refine now_keeps.seq fun readAt u hu _ _ => ?_
      dsimp only
      split
      · exact Meets.pure fun _ _ _ _ h => by cases h
      · exact issueLease_keeps ⟨k, secret, hu.log.subset hstored, hexpiry⟩

/-- What a call that has returned knows. -/
structure Delivered (store : SecretStore) (calls : ι → SecretCall) (i : ι) (scope : ResourceScope)
    (leaseId : SecretLeaseId) (material : String) (lease : StoredLease) (t : store.State ι) : Prop where
  row : ∃ version, t.leases (store.leasePath scope leaseId) = some (lease, version)
  status : lease.status = .consumed
  owner : lease.scope = scope
  settled : .settled i (store.leasePath scope leaseId) lease ∈ t.log
  material : Material calls i scope lease.handle material t

theorem stable_consumes (scope : ResourceScope) (path : LeasePath) :
    Stable store calls i path (fun lease snapshot outcome (t : store.State ι) =>
      Consumes calls i scope lease snapshot outcome t) where
  rely hrely h material houtcome := by
    obtain ⟨hactive, hscope, hsnapshot, hmaterial⟩ := h material houtcome
    exact ⟨hactive, hscope, hsnapshot, hmaterial.rely hrely⟩
  write h material houtcome := by
    obtain ⟨hactive, hscope, hsnapshot, k, owner, expiresAt, random, hcall, howner, ⟨secret, hstored⟩,
      hvalid⟩ := h material houtcome
    refine ⟨hactive, hscope, hsnapshot, k, owner, expiresAt, random, hcall, howner,
      ⟨secret, List.mem_cons_of_mem _ hstored⟩, fun hrenewing reading hreading => ?_⟩
    refine hvalid (hrenewing.of_suffix (List.suffix_cons _ _)) reading ?_
    simpa [StoreState.putLease] using hreading

theorem mapError_eq_ok {ε ε' α : Type} {f : ε → ε'} {result : Except ε α} {a : α}
    (h : result.mapError f = .ok a) : result = .ok a := by
  cases result with
  | error e => cases h
  | ok b =>
    cases h
    rfl

theorem consume_keeps (scope : ResourceScope) (leaseId : SecretLeaseId) :
    Keeps store calls i (store.consume scope leaseId) s fun result t =>
      ∀ material, result = .ok material → ∃ lease, Delivered store calls i scope leaseId material lease t := by
  refine Meets.bind (Meets.bind ((casUpdateLoop_keeps (stable_consumes scope _) ⟨_, rfl⟩
    (fun _ _ hremembers => consumeApply_keeps hremembers) filesystemCasRetries s).mono
      fun result t _ hends => ?_))
  refine Meets.pure fun u hu _ => Meets.pure fun v hv _ material hmaterial => ?_
  obtain ⟨outcome, hmapped, houtcome⟩ : ∃ outcome, result.mapError (mapCasErrorSecret "consume") = .ok outcome ∧
      outcome = .ok material := by
    cases hresult : result.mapError (mapCasErrorSecret "consume") with
    | error error =>
      rw [hresult] at hmaterial
      cases hmaterial
    | ok outcome =>
      rw [hresult] at hmaterial
      exact ⟨outcome, rfl, hmaterial⟩
  obtain ⟨lease, snapshot, hconsumes, hlanded⟩ := hends outcome (mapError_eq_ok hmapped)
  obtain ⟨hactive, hscope, hsnapshot, hmaterial'⟩ := hconsumes material houtcome
  have hlanded' := (hlanded.follows hu.1).follows hv.1
  subst hsnapshot
  exact ⟨_, hlanded'.row, rfl, hscope, hlanded'.settled hactive, (hmaterial'.rely hu).rely hv⟩

theorem revoke_keeps (scope : ResourceScope) (leaseId : SecretLeaseId) :
    Keeps store calls i (store.revoke scope leaseId) s fun result t => ∀ lease, result = .ok lease →
      ∃ stored version, t.leases (store.leasePath scope leaseId) = some (stored, version) ∧
        stored.status ≠ .active ∧ lease = stored.toPublic := by
  have hstable : Stable store calls i (store.leasePath scope leaseId)
      (fun _ snapshot (outcome : SecretLease) (_ : store.State ι) => outcome = snapshot.toPublic) :=
    ⟨fun _ h => h, fun h => h⟩
  refine Meets.bind ((casUpdateLoop_keeps hstable ⟨_, rfl⟩ (fun _ lease _ => revokeApply_keeps lease)
    filesystemCasRetries s).mono fun result t _ hends => ?_)
  refine Meets.pure fun u hu _ lease hlease => ?_
  obtain ⟨stored, snapshot, hpublic, hlanded⟩ := hends lease (mapError_eq_ok hlease)
  obtain ⟨version, hrow⟩ := (hlanded.follows hu.1).row
  exact ⟨snapshot, version, hrow, hlanded.ended, hpublic⟩

def Answers (store : SecretStore) (calls : ι → SecretCall) (i : ι) (result : SecretResult) (t : store.State ι) :
    Prop :=
  match calls i with
  | .put _ _ _ _ _ | .delete _ _ => True
  | .leaseOnce scope handle => ∀ lease, result = .leased (.ok lease) → IssuedFor store scope handle lease.id t
  | .consume scope leaseId => ∀ material, result = .consumed (.ok material) →
      ∃ lease, Delivered store calls i scope leaseId material lease t
  | .revoke scope leaseId => ∀ lease, result = .revoked (.ok lease) →
      ∃ stored version, t.leases (store.leasePath scope leaseId) = some (stored, version) ∧
        stored.status ≠ .active ∧ lease = stored.toPublic

theorem program_keeps (i : ι) (s : store.State ι) :
    Keeps store calls i ((calls i).program store) s (Answers store calls i) := by
  unfold Answers
  cases hcall : calls i with
  | put scope handle material expiresAt random =>
    exact (put_keeps hcall).seq fun _ _ _ _ _ => Meets.pure fun _ _ _ => trivial
  | delete scope handle =>
    exact (delete_keeps scope handle).seq fun _ _ _ _ _ => Meets.pure fun _ _ _ => trivial
  | leaseOnce scope handle =>
    refine (leaseOnce_keeps scope handle).seq fun result t _ _ hissued => ?_
    refine Meets.pure fun u hu _ lease hlease => ?_
    cases hlease
    exact (hissued lease rfl).follows hu.1
  | consume scope leaseId =>
    refine (consume_keeps scope leaseId).seq fun result t _ _ hdelivered => ?_
    refine Meets.pure fun u hu _ material hmaterial => ?_
    cases hmaterial
    obtain ⟨lease, hrow, hstatus, hscope, hsettled, htaken⟩ := hdelivered material rfl
    obtain ⟨version, hrow⟩ := hrow
    refine ⟨lease, row_of_ended hu.1 hrow ?_, hstatus, hscope, hu.1.log.subset hsettled, htaken.rely hu⟩
    rw [hstatus]
    decide
  | revoke scope leaseId =>
    refine (revoke_keeps scope leaseId).seq fun result t _ _ hrevoked => ?_
    refine Meets.pure fun u hu _ lease hlease => ?_
    cases hlease
    obtain ⟨stored, version, hrow, hended, hpublic⟩ := hrevoked lease rfl
    obtain ⟨version', hrow'⟩ := row_of_ended hu.1 hrow hended
    exact ⟨stored, version', hrow', hended, hpublic⟩

end protocol

/-! ### Systems of calls -/

/-- Calls that share a store. -/
abbrev SecretStore.System (store : SecretStore) (ι : Type) :=
  Shared (fun request : ι × StoreRequest store.crypto.Sealed => request.2.Answer) (store.State ι)
    fun _ : ι => SecretResult

/-- No call has made a request, and the store is empty. -/
def SecretStore.System.start {ι : Type} (store : SecretStore) (calls : ι → SecretCall) (clock : Timestamp) :
    store.System ι :=
  ⟨⟨fun _ => none, fun _ => none, clock, [], []⟩, fun i => ((calls i).program store).tag i⟩

section system
variable {ι : Type} {store : SecretStore} {calls : ι → SecretCall} {clock : Timestamp}

theorem inv_start : Inv store calls (SecretStore.System.start store calls clock).state where
  path _ _ _ h := by cases h
  issued _ _ _ h := by cases h
  remembers _ _ _ h := by cases h
  one _ _ h := absurd rfl h
  once _ _ _ h := by cases h
  consumed _ _ _ h := by cases h
  taken _ _ _ _ _ h := by cases h
  newest _ _ h := by cases h
  stored _ _ _ h := by cases h
  clock _ _ h := by cases h

theorem sound_start : Shared.Sound Served (leaseRole store calls) (Answers store calls)
    (SecretStore.System.start store calls clock) where
  apart hne hown := ⟨hown.1, hown.2 _ (Ne.symm hne)⟩
  inv := inv_start
  meets i := (program_keeps i _).tag

theorem Inv.same_row {s : store.State ι} (h : Inv store calls s) {scope scope' : ResourceScope}
    {leaseId : SecretLeaseId} {lease lease' : StoredLease} {version version' : ℕ}
    (hrow : s.leases (store.leasePath scope leaseId) = some (lease, version))
    (hrow' : s.leases (store.leasePath scope' leaseId) = some (lease', version')) :
    store.leasePath scope leaseId = store.leasePath scope' leaseId ∧ lease = lease' := by
  have hpath := h.one (store.leasePath scope leaseId) (store.leasePath scope' leaseId) (by rw [hrow]; nofun)
    (by rw [hrow']; nofun) rfl
  rw [hpath, hrow', Option.some.injEq, Prod.mk.injEq] at hrow
  exact ⟨hpath, hrow.1.symm⟩

end system

/-- Over every run: a lease gives material to one consume at most, to none when a revocation of it returns
that it is revoked, and to the scope it was issued for only; once a lease is not active its row stays as it
is; and by the time the consume has returned, the material has been put under the handle of the lease, with an
expiry that no clock reading of the consume has reached if no put up to now has shortened the time of a
secret. -/
theorem secret_lease_yields_once {ι : Type} [DecidableEq ι] (store : SecretStore) (calls : ι → SecretCall)
    (clock : Timestamp) {early late : store.System ι}
    (hearly : Shared.Reach Served (SecretStore.System.start store calls clock) early)
    (hlate : Shared.Reach Served early late) :
    (∀ i j scope scope' leaseId material material', calls i = .consume scope leaseId →
      calls j = .consume scope' leaseId → late.task i = .done (.consumed (.ok material)) →
      late.task j = .done (.consumed (.ok material')) → i = j) ∧
    (∀ i j scope scope' leaseId material lease, calls i = .consume scope leaseId →
      calls j = .revoke scope' leaseId → late.task i = .done (.consumed (.ok material)) →
      late.task j = .done (.revoked (.ok lease)) → lease.status ≠ .revoked) ∧
    (∀ i j scope scope' handle leaseId material lease, calls i = .consume scope leaseId →
      calls j = .leaseOnce scope' handle → late.task i = .done (.consumed (.ok material)) →
      late.task j = .done (.leased (.ok lease)) → lease.id = leaseId → scope = scope') ∧
    (∀ path lease version, early.state.leases path = some (lease, version) → lease.status ≠ .active →
      ∃ version', late.state.leases path = some (lease, version')) ∧
    ∀ i scope leaseId material, calls i = .consume scope leaseId →
      late.task i = .done (.consumed (.ok material)) →
      ∃ lease version, late.state.leases (store.leasePath scope leaseId) = some (lease, version) ∧
        ∃ k owner expiresAt random, calls k = .put owner lease.handle material expiresAt random ∧
          sameScopeOwner owner scope = true ∧
          (∃ secret, .stored k (store.secretPath scope lease.handle) secret ∈ late.state.log) ∧
          (Renewing late.state.log → ∀ reading, .clock i reading ∈ late.state.log →
            passed expiresAt reading = false) := by
  have hstart : Shared.Sound Served (leaseRole store calls) (Answers store calls)
      (SecretStore.System.start store calls clock) := sound_start
  obtain ⟨hsound, -⟩ := hstart.reach hearly
  obtain ⟨hsound', hfollows⟩ := hsound.reach hlate
  have hdelivered : ∀ i scope leaseId material, calls i = .consume scope leaseId →
      late.task i = .done (.consumed (.ok material)) →
      ∃ lease, Delivered store calls i scope leaseId material lease late.state := by
    intro i scope leaseId material hcall hdone
    have hanswers := hsound'.result hdone
    unfold Answers at hanswers
    rw [hcall] at hanswers
    exact hanswers material rfl
  refine ⟨?_, ?_, ?_, ?_, ?_⟩
  · intro i j scope scope' leaseId material material' hi hj hidone hjdone
    obtain ⟨lease, ⟨version, hrow⟩, hstatus, -, hsettled, -⟩ := hdelivered i scope leaseId material hi hidone
    obtain ⟨lease', ⟨version', hrow'⟩, hstatus', -, hsettled', -⟩ :=
      hdelivered j scope' leaseId material' hj hjdone
    obtain ⟨hpath, -⟩ := hsound'.inv.same_row hrow hrow'
    rw [hpath] at hsettled
    exact hsound'.inv.taken i j _ lease lease' hsettled hsettled' hstatus hstatus'
  · intro i j scope scope' leaseId material lease hi hj hidone hjdone hrevoked
    obtain ⟨stored, ⟨version, hrow⟩, hstatus, -⟩ := hdelivered i scope leaseId material hi hidone
    have hanswers := hsound'.result hjdone
    unfold Answers at hanswers
    rw [hj] at hanswers
    obtain ⟨stored', version', hrow', -, rfl⟩ := hanswers lease rfl
    obtain ⟨-, rfl⟩ := hsound'.inv.same_row hrow hrow'
    exact absurd (hstatus.symm.trans hrevoked) (by decide)
  · intro i j scope scope' handle leaseId material lease hi hj hidone hjdone hid
    obtain ⟨stored, ⟨version, hrow⟩, -, hscope, -⟩ := hdelivered i scope leaseId material hi hidone
    have hanswers := hsound'.result hjdone
    unfold Answers at hanswers
    rw [hj] at hanswers
    obtain ⟨stored', version', hrow', hscope', -⟩ := hanswers lease rfl
    rw [hid] at hrow'
    obtain ⟨-, rfl⟩ := hsound'.inv.same_row hrow hrow'
    exact hscope.symm.trans hscope'
  · intro path lease version hrow hended
    exact row_of_ended hfollows hrow hended
  · intro i scope leaseId material hi hdone
    obtain ⟨lease, ⟨version, hrow⟩, -, -, -, k, owner, expiresAt, random, hcall, howner, hstored, hvalid⟩ :=
      hdelivered i scope leaseId material hi hdone
    exact ⟨lease, version, hrow, k, owner, expiresAt, random, hcall, howner, hstored, hvalid⟩

/-! ### A secret that is replaced by one with less time -/

instance (cas : CasExpectation) (current : Option (StoredLease × ℕ)) : Decidable (cas.Met current) :=
  match cas with
  | .any => isTrue trivial
  | .absent => inferInstanceAs (Decidable (current = none))
  | .version _ => inferInstanceAs (Decidable (current.map Prod.snd = some _))

section replies
variable {ι Sealed : Type}

def StoreState.freshId (state : StoreState ι Sealed) : SecretLeaseId :=
  ⟨(state.issued.map fun x => x.1.asUuid).foldr max 0 + 1⟩

theorem freshId_not_mem (state : StoreState ι Sealed) (i : ι) : (state.freshId, i) ∉ state.issued := by
  have hle : ∀ (ids : List (SecretLeaseId × ι)), ∀ x ∈ ids,
      x.1.asUuid ≤ (ids.map fun x => x.1.asUuid).foldr max 0 := by
    intro ids
    induction ids with
    | nil => exact fun x hx => absurd hx List.not_mem_nil
    | cons y ids ih =>
      intro x hx
      rw [List.map_cons, List.foldr_cons]
      rcases List.mem_cons.1 hx with rfl | hx
      · exact le_max_left _ _
      · exact (ih x hx).trans (le_max_right _ _)
  intro hmem
  exact absurd (hle _ _ hmem) (Nat.not_succ_le_self _)

/-- A filesystem that works, and a clock that goes on by ten at every reading. -/
def StoreState.replies (state : StoreState ι Sealed) :
    (request : ι × StoreRequest Sealed) → request.2.Answer × StoreState ι Sealed
  | (i, .now) => (state.clock + 10, state.tick i (state.clock + 10))
  | (i, .newLeaseId) => (state.freshId, state.issue i state.freshId)
  | (_, .file (.getSecret path)) => (.ok (state.secrets path), state)
  | (i, .file (.putSecret path secret)) => (.ok (), state.putSecret i path secret)
  | (_, .file (.deleteSecret path)) =>
    match state.secrets path with
    | none => (.error .notFound, state)
    | some _ => (.ok (), state.deleteSecret path)
  | (_, .file (.getLease path)) => (.ok (state.leases path), state)
  | (i, .file (.putLease path lease cas)) =>
    if cas.Met (state.leases path) then (.ok (), state.putLease i path lease)
    else (.error .versionMismatch, state)

theorem served_replies (state : StoreState ι Sealed) (request : ι × StoreRequest Sealed) :
    Served state request (state.replies request).1 (state.replies request).2 := by
  obtain ⟨i, request⟩ := request
  match request with
  | .now =>
    have hle : state.clock ≤ state.clock + 10 := Int.le_add_of_nonneg_right (show (0 : ℤ) ≤ 10 by decide)
    exact .now state i _ hle
  | .newLeaseId => exact .newLeaseId state i _ (freshId_not_mem state)
  | .file (.getSecret path) => exact .done (.getSecret state i path)
  | .file (.putSecret path secret) => exact .done (.putSecret state i path secret)
  | .file (.deleteSecret path) =>
    unfold StoreState.replies
    dsimp only
    split
    · exact .refused state i _ .notFound
    · rename_i secret hsecret
      exact .done (.deleteSecret state i path (by rw [hsecret]; nofun))
  | .file (.getLease path) => exact .done (.getLease state i path)
  | .file (.putLease path lease cas) =>
    unfold StoreState.replies
    dsimp only
    split
    · rename_i hmet
      exact .done (.putLease state i path lease cas hmet)
    · exact .refused state i _ .versionMismatch

end replies

/-- A cipher that hides nothing. -/
def exampleStore : SecretStore where
  crypto :=
    { Sealed := String × SecretAad
      encrypt := fun _ text aad => .ok (text, aad)
      decrypt := fun box aad =>
        if box.2 = aad then .ok box.1 else .error (.secretMaterialUnreadable "secret decryption failed")
      decrypt_encrypt := fun {_ _ _ _} h => by
        cases h
        exact if_pos rfl }
  mounted := fun scope => "/tenants/" ++ scope.tenantId.asStr ++ "/users/" ++ scope.userId.asStr ++ "/secrets"
  leaseTtl := 1000

def exampleOwner : ResourceScope := ⟨⟨"tenant-a"⟩, ⟨"user-a"⟩, none, none, none, none, ⟨1⟩⟩

/-- A lease is issued on a secret without an expiry; the secret is then replaced by one that expires at 5. -/
def replacedSecret : Fin 4 → SecretCall
  | 0 => .put exampleOwner ⟨"token"⟩ "old" none 0
  | 1 => .leaseOnce exampleOwner ⟨"token"⟩
  | 2 => .put exampleOwner ⟨"token"⟩ "new" (some 5) 0
  | 3 => .consume exampleOwner ⟨1⟩

def replacedSystem : exampleStore.System (Fin 4) := .start exampleStore replacedSecret 0

/-- The calls one after the other, in the order given. -/
def runInOrder (system : exampleStore.System (Fin 4)) (order : List (Fin 4)) : exampleStore.System (Fin 4) :=
  order.foldl (Shared.after StoreState.replies) system

theorem reach_runInOrder (order : List (Fin 4)) : ∀ system,
    Shared.Reach Served system (runInOrder system order) := by
  induction order with
  | nil => exact fun _ => Relation.ReflTransGen.refl
  | cons i order ih =>
    exact fun system => (Shared.reach_after served_replies system i).trans (ih _)

theorem log_replacedSystem : ∃ path lease path' secret path'' lease' path''' secret',
    (runInOrder replacedSystem [0, 1, 2, 3]).state.log =
      [.settled 3 path lease, .clock 3 20, .stored 2 path' secret, .settled 1 path'' lease', .clock 1 10,
        .stored 0 path''' secret'] :=
  ⟨_, _, _, _, _, _, _, _, rfl⟩

/-- The consume returns material whose expiry has passed at each of its clock readings. -/
theorem expired_replacement_consumed :
    ∃ late, Shared.Reach Served replacedSystem late ∧ late.task 3 = .done (.consumed (.ok "new")) ∧
      (∃ reading, .clock 3 reading ∈ late.state.log) ∧
      ∀ k owner handle expiresAt random, replacedSecret k = .put owner handle "new" expiresAt random →
        ∀ reading, .clock 3 reading ∈ late.state.log → passed expiresAt reading = true := by
  obtain ⟨_, _, _, _, _, _, _, _, hlog⟩ := log_replacedSystem
  refine ⟨runInOrder replacedSystem [0, 1, 2, 3], reach_runInOrder _ _, rfl, ⟨20, by simp [hlog]⟩, ?_⟩
  intro k owner handle expiresAt random hput reading hreading
  have hreading' : reading = 20 := by simpa [hlog] using hreading
  have hexpiry : expiresAt = some 5 := by
    match k with
    | 0 => simp [replacedSecret] at hput
    | 1 => simp [replacedSecret] at hput
    | 2 =>
      simp only [replacedSecret, SecretCall.put.injEq] at hput
      exact hput.2.2.2.1.symm
    | 3 => simp [replacedSecret] at hput
  rw [hreading', hexpiry]
  rfl

/-- Before the secret is replaced, what the consume returns has not expired. -/
theorem unexpired_secret_consumed :
    ∃ late : exampleStore.System (Fin 4), Shared.Reach Served replacedSystem late ∧
      late.task 3 = .done (.consumed (.ok "old")) ∧
      ∃ k owner handle expiresAt random, replacedSecret k = .put owner handle "old" expiresAt random ∧
        ∀ reading, .clock 3 reading ∈ late.state.log → passed expiresAt reading = false := by
  have hreach := reach_runInOrder [0, 1, 3] replacedSystem
  obtain ⟨-, -, -, -, hmaterial⟩ := secret_lease_yields_once exampleStore replacedSecret 0 .refl hreach
  obtain ⟨lease, version, -, k, owner, expiresAt, random, hput, -, -, hvalid⟩ :=
    hmaterial 3 exampleOwner ⟨1⟩ "old" rfl rfl
  refine ⟨_, hreach, rfl, k, owner, lease.handle, expiresAt, random, hput, hvalid ?_⟩
  obtain ⟨_, _, _, _, _, _, hlog⟩ : ∃ path lease path' lease' path'' secret,
      (runInOrder replacedSystem [0, 1, 3]).state.log =
        [.settled 3 path lease, .clock 3 20, .settled 1 path' lease', .clock 1 10, .stored 0 path'' secret] :=
    ⟨_, _, _, _, _, _, rfl⟩
  rw [hlog]
  simp [Renewing, Renews]

end Ironclaw.Secrets

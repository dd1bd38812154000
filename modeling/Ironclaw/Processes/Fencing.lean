import Ironclaw.Processes.Lifecycle

/-! # Stale workers are fenced

A lease is identified by the token a claim mints from its nonce. A step gives a process a
token it did not have only by a claim with that nonce (`ProcessStep.heldToken`), every token a
state holds was issued earlier in the run (`run_heldToken_issued`), and a lease write with a
token the process does not hold is rejected (`bearsLease_rejected`). With fresh nonces a token
that a process has lost therefore never opens that process again: `stale_worker_fenced`. -/

namespace Ironclaw.Processes

open ProcessJournalMaterializedState

variable {s : ProcessJournalMaterializedState} {p : ProcessId} {c : StoredProcessCommand}

/-! ### Tokens -/

/-- The token of the lease a row carries. -/
def heldToken (row : Option JournaledProcessSnapshot) : Option ProcessLeaseToken :=
  (row.bind (·.lease)).map (·.leaseToken)

def StoredProcessCommand.claimNonce : StoredProcessCommand → Option ProcessId
  | .claim _ _ _ leaseNonce _ => some leaseNonce
  | _ => none

/-- The command hands out the token: a claim mints it, or an imported state contains it. -/
def StoredProcessCommand.Issues (command : StoredProcessCommand) (token : ProcessLeaseToken) :
    Prop :=
  (∃ nonce, command.claimNonce = some nonce ∧ token = ⟨nonce.toText⟩) ∨
    ∃ state, command = .importLegacyState state ∧ ∃ p, heldToken (state.processes.get p) = some token

/-- The nonce of the later command, if it is a claim, is not the nonce of the earlier one and
not the source of a token the earlier one imports. -/
def FreshAfter (earlier later : StoredProcessCommand) : Prop :=
  ∀ nonce, later.claimNonce = some nonce →
    earlier.claimNonce ≠ some nonce ∧
    ∀ state, earlier = .importLegacyState state →
      ∀ p, heldToken (state.processes.get p) ≠ some ⟨nonce.toText⟩

theorem FreshAfter.not_issues {earlier later : StoredProcessCommand} {nonce : ProcessId}
    (h : FreshAfter earlier later) (hn : later.claimNonce = some nonce) :
    ¬ earlier.Issues ⟨nonce.toText⟩ := by
  rintro (⟨nonce', hn', ht⟩ | ⟨state, hstate, q, hq⟩)
  · have hsame : nonce = nonce' := ProcessId.toText_injective (ProcessLeaseToken.mk.inj ht)
    subst hsame
    exact (h nonce hn).1 hn'
  · exact (h nonce hn).2 state hstate q hq

/-- A step leaves the token of a row, drops it, or is a claim that mints the new one. -/
theorem ProcessStep.heldToken {before after : Option JournaledProcessSnapshot}
    (h : ProcessStep s p c before after) :
    heldToken after = heldToken before ∨ heldToken after = none ∨
      ∃ nonce, c.claimNonce = some nonce ∧ heldToken after = some ⟨nonce.toText⟩ := by
  cases h with
  | unchanged => exact .inl rfl
  | submitted => exact .inl rfl
  | submittedWithCheckpoint _ _ _ link =>
    rcases link with rfl | ⟨-, rfl⟩
    · exact .inl rfl
    · exact .inl rfl
  | submittedAtEdge => exact .inl rfl
  | claimed => exact .inr (.inr ⟨_, rfl, rfl⟩)
  | @renewed _ _ _ stored =>
    refine .inl ?_
    cases hl : stored.lease <;> simp [Processes.heldToken, renewedSnapshot, hl]
  | recovered => exact .inr (.inl rfl)
  | transitioned =>
    simp only [Processes.heldToken, transitionedSnapshot, Option.bind_some]
    split_ifs
    · exact .inl rfl
    · exact .inr (.inl rfl)
  | controlled =>
    simp only [Processes.heldToken, controlledSnapshot, Option.bind_some]
    split_ifs
    · exact .inl rfl
    · exact .inr (.inl rfl)
  | linked => exact .inl rfl

theorem advance_stored (h : (s.processes.get p).isSome) :
    ((advance applyCommand s c).processes.get p).isSome := by
  cases hc : c.isImport with
  | false =>
    have step := advance_processStep s (StoredProcessCommand.spares_of_not_import hc p)
    obtain ⟨a, ha⟩ := Option.isSome_iff_exists.mp h
    rw [ha] at step
    generalize (advance applyCommand s c).processes.get p = after at step
    cases step <;> rfl
  | true =>
    cases c <;> simp [StoredProcessCommand.isImport] at hc
    rcases advance_import_get s _ p with hs | ⟨hn, -⟩
    · rwa [hs]
    · simp [hn] at h

/-- Every token a state holds was handed out by a command of the run. -/
theorem run_heldToken_issued {history : List JournalStep} (run : JournalRun history s) :
    ∀ p token, heldToken (s.processes.get p) = some token →
      ∃ x ∈ history, x.command.Issues token := by
  refine run.induct_history (I := fun history s => ∀ p token,
    heldToken (s.processes.get p) = some token → ∃ x ∈ history, x.command.Issues token)
    (A := fun _ => True) ?_ ?_ ?_ (fun _ _ => trivial)
  · intro p token h
    simp [empty, heldToken] at h
  · intro history u v huv ih p token h
    exact ih p token (by rwa [huv.processes_get])
  · intro history u c _ ih p token h
    have earlier : heldToken (u.processes.get p) = some token →
        ∃ x ∈ history ++ [⟨u, c, advance applyCommand u c⟩], x.command.Issues token := by
      intro hu
      obtain ⟨x, hx, hissue⟩ := ih p token hu
      exact ⟨x, List.mem_append_left _ hx, hissue⟩
    have now : c.Issues token →
        ∃ x ∈ history ++ [⟨u, c, advance applyCommand u c⟩], x.command.Issues token :=
      fun hissue => ⟨_, List.mem_append_right _ (List.mem_singleton.mpr rfl), hissue⟩
    cases hc : c.isImport with
    | false =>
      rcases (advance_processStep u (StoredProcessCommand.spares_of_not_import hc p)).heldToken with hs | hs | ⟨nonce, hn, hs⟩
      · exact earlier (hs ▸ h)
      · rw [hs] at h
        cases h
      · rw [hs, Option.some.injEq] at h
        exact now (.inl ⟨nonce, hn, h.symm⟩)
    | true =>
      cases c <;> simp [StoredProcessCommand.isImport] at hc
      rcases advance_import_get u _ p with hs | ⟨-, hs⟩
      · exact earlier (hs ▸ h)
      · exact now (.inr ⟨_, rfl, p, hs ▸ h⟩)

variable {token : ProcessLeaseToken}

/-- A stored process stays stored, and it does not come to hold a token that no claim of the
continuation mints. -/
theorem run_token_stays_lost {history : List JournalStep}
    {t u : ProcessJournalMaterializedState} (run : Run SameRows applyCommand t history u)
    (hsome : (t.processes.get p).isSome) (hlost : heldToken (t.processes.get p) ≠ some token)
    (hclaims : ∀ x ∈ history, ∀ nonce, x.command.claimNonce = some nonce →
      token ≠ ⟨nonce.toText⟩) :
    heldToken (u.processes.get p) ≠ some token := by
  refine (run.invariant (I := fun u => (u.processes.get p).isSome ∧
    heldToken (u.processes.get p) ≠ some token)
    (A := fun c => ∀ nonce, c.claimNonce = some nonce → token ≠ ⟨nonce.toText⟩)
    ⟨hsome, hlost⟩ ?_ ?_ hclaims).2
  · intro u v huv
    rw [huv.processes_get]
    exact id
  · rintro u c hclaim ⟨hu, hl⟩
    refine ⟨advance_stored hu, ?_⟩
    cases hc : c.isImport with
    | false =>
      rcases (advance_processStep u (StoredProcessCommand.spares_of_not_import hc p)).heldToken with hs | hs | ⟨nonce, hn, hs⟩
      · rwa [hs]
      · simp [hs]
      · rw [hs]
        exact fun h => hclaim nonce hn (Option.some.inj h).symm
    | true =>
      cases c <;> simp [StoredProcessCommand.isImport] at hc
      rcases advance_import_get u _ p with hs | ⟨hn, -⟩
      · rwa [hs]
      · simp [hn] at hu

/-! ### The fence -/

/-- The command is a heartbeat or a leased transition of the process with the token. -/
def StoredProcessCommand.BearsLease (command : StoredProcessCommand) (p : ProcessId)
    (token : ProcessLeaseToken) : Prop :=
  ∃ request : ProcessLeaseRequest, request.processId = p ∧ request.leaseToken = token ∧
    ((∃ now millis, command = .heartbeat request now millis) ∨
      ∃ mutation, command = .leasedTransition request mutation)

theorem heldToken_of_holdsLease {stored : JournaledProcessSnapshot} {workerId : ProcessWorkerId}
    (h : holdsLease stored workerId token = true) :
    heldToken (some stored) = some token := by
  obtain ⟨lease, hl, -, ht⟩ := holdsLease_iff.mp h
  simp [heldToken, hl, ht]

theorem bearsLease_rejected (hc : c.BearsLease p token)
    (hlost : heldToken (s.processes.get p) ≠ some token) :
    ∃ e, s.applyCommand c = .error e := by
  cases h : s.applyCommand c with
  | error e => exact ⟨e, rfl⟩
  | ok result =>
    obtain ⟨o, s'⟩ := result
    refine absurd ?_ hlost
    obtain ⟨request, rfl, rfl, ⟨now, millis, rfl⟩ | ⟨mutation, rfl⟩⟩ := hc
    · obtain ⟨stored, hg, -, hl, -⟩ := applyHeartbeat_ok h
      rw [hg]
      exact heldToken_of_holdsLease hl
    · obtain ⟨stored, hg, hl, -⟩ := applyLeasedTransition_ok h
      rw [hg]
      exact heldToken_of_holdsLease hl

/-- **Stale-worker fencing.**  In a run whose claims carry fresh nonces, once a process that
held the lease `token` no longer does, every later heartbeat or leased transition of that
process with that token is rejected and leaves the state as it was. -/
theorem stale_worker_fenced {first second third : List JournalStep}
    {s t u v : ProcessJournalMaterializedState} (run : JournalRun first s)
    (dropped : Run SameRows applyCommand s second t)
    (continued : Run SameRows applyCommand t third u)
    (fresh : ((first ++ (second ++ third)).map (·.command)).Pairwise FreshAfter)
    {p : ProcessId} {token : ProcessLeaseToken} (held : heldToken (s.processes.get p) = some token)
    (lost : heldToken (t.processes.get p) ≠ some token) (here : SameRows u v)
    {command : StoredProcessCommand} (stale : command.BearsLease p token) :
    (∃ e, v.applyCommand command = .error e) ∧ advance applyCommand v command = v := by
  obtain ⟨issuer, hissuer, hissues⟩ := run_heldToken_issued run p token held
  -- the issuer stands before every claim of the continuation, so none of them mints the token
  have hclaims : ∀ x ∈ second ++ third, ∀ nonce, x.command.claimNonce = some nonce →
      token ≠ ⟨nonce.toText⟩ := by
    rintro x hx nonce hn rfl
    rw [List.map_append, List.pairwise_append] at fresh
    exact (fresh.2.2 _ (List.mem_map_of_mem hissuer) _ (List.mem_map_of_mem hx)).not_issues hn
      hissues
  have hstored : (t.processes.get p).isSome := by
    have hs : (s.processes.get p).isSome := by
      cases h : s.processes.get p with
      | none => simp [heldToken, h] at held
      | some a => rfl
    refine dropped.invariant (I := fun t => (t.processes.get p).isSome) (A := fun _ => True) hs
      ?_ ?_ (fun _ _ => trivial)
    · intro a b hab
      rw [hab.processes_get]
      exact id
    · intro a c _ ha
      exact advance_stored ha
  have hlost : heldToken (v.processes.get p) ≠ some token := by
    rw [← here.processes_get]
    exact run_token_stays_lost continued hstored lost
      (fun x hx => hclaims x (List.mem_append_right _ hx))
  obtain ⟨e, he⟩ := bearsLease_rejected stale hlost
  exact ⟨⟨e, he⟩, advance_of_error he⟩

/-- A worker that gave its process back cannot renew its old lease once the process is claimed
again under another nonce. -/
theorem relinquished_worker_fenced :
    let claimed := [.submit (Sample.submission 1), Sample.claim 9 0].foldl
      (advance applyCommand) empty
    let reclaimed := [Sample.transition 1 9 .queued .heartbeat, Sample.claim 10 5].foldl
      (advance applyCommand) claimed
    ∃ e, reclaimed.applyCommand (.heartbeat (Sample.lease 1 9) 6 1000) = .error e := by
  intro claimed reclaimed
  have fresh : [.submit (Sample.submission 1), Sample.claim 9 0,
      Sample.transition 1 9 .queued .heartbeat, Sample.claim 10 5].Pairwise FreshAfter := by
    have hne : Sample.processId 9 ≠ Sample.processId 10 := by decide
    simp [FreshAfter, StoredProcessCommand.claimNonce, Sample.claim, Sample.transition, hne]
  have held : heldToken (claimed.processes.get (Sample.processId 1)) =
      some ⟨(Sample.processId 9).toText⟩ := by decide
  exact (stale_worker_fenced (JournalRun.of_commands _)
    (Run.of_commands SameRows.refl [Sample.transition 1 9 .queued .heartbeat] claimed)
    (Run.of_commands SameRows.refl [Sample.claim 10 5] _) fresh held (by decide)
    (SameRows.refl _) ⟨Sample.lease 1 9, rfl, rfl, .inl ⟨6, 1000, rfl⟩⟩).1

end Ironclaw.Processes

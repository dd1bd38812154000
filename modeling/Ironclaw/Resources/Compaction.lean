import Ironclaw.Lib.Reject
import Ironclaw.Resources.DeltaLog
import Ironclaw.Resources.Reads

/-! # Compaction of the delta log

`compact_resource_governor_snapshot` reads the stored snapshot, replays the log after its cursor, and stores
the result unless a later one has been stored; `load_authority` begins in the same way and keeps the result in
memory. Any number of them run at the same time, each at its own pace, while deltas are appended.

* `Replays payloads s`: `s` is what the records give, each decoded and applied once and in order, with the
  holds rebuilt from the reservations at some points. Every snapshot that is stored and every state that is
  loaded is of this form (`Durable.represents`).
* Rebuilding takes the holds from the active reservations, without the clamps and the rounding the ledger went
  through. While the sums stay in range and fit, this changes nothing that is read. -/

namespace Ironclaw.Resources

variable {Tz : Type}

/-! ### The log, the snapshot and those who read them -/

structure DeltaRecord (Tz : Type) [DeltaCodec Tz] where
  seq : ℕ
  payload : DeltaCodec.Payload Tz

structure ResourceGovernorSnapshot (Tz : Type) where
  state : ResourceState Tz
  journalSeq : ℕ

/-- How far a compaction, or a load, has got. -/
inductive Compactor (Tz : Type) where
  | idle
  | inspected (snapshot : ResourceGovernorSnapshot Tz)
  | replayed (state : ResourceState Tz) (latestSeq : ℕ)

structure Durable (Tz : Type) [DeltaCodec Tz] where
  log : List (DeltaRecord Tz)
  snapshot : ResourceGovernorSnapshot Tz
  compactors : ℕ → Compactor Tz

variable [DeltaCodec Tz]

/-- An empty store. -/
def Durable.fresh : Durable Tz := ⟨[], ⟨.empty, 0⟩, fun _ => .idle⟩

/-- What happens next; `gap` is how many sequence numbers the backend skips. -/
inductive DurableAction (Tz : Type) [DeltaCodec Tz] where
  | append (gap : ℕ) (payload : DeltaCodec.Payload Tz)
  | inspect (compactor : ℕ)
  | replay (compactor : ℕ)
  | store (compactor : ℕ)
  | stop (compactor : ℕ)

/-- The sequence number of the last record. -/
def lastSeq (log : List (DeltaRecord Tz)) : ℕ := (log.getLast?.map DeltaRecord.seq).getD 0

/-- `tail`: the records after a cursor. -/
def tail (log : List (DeltaRecord Tz)) (cursor : ℕ) : List (DeltaRecord Tz) :=
  log.filter fun record => decide (cursor < record.seq)

def upTo (log : List (DeltaRecord Tz)) (cursor : ℕ) : List (DeltaRecord Tz) :=
  log.filter fun record => decide (record.seq ≤ cursor)

section Operations

variable [Platform Tz] [DecidableEq Tz]

/-- One round of the loop of `replay_journal`. -/
def replayRecord (acc : ResourceState Tz × ℕ) (record : DeltaRecord Tz) :
    Except ResourceError (ResourceState Tz × ℕ) :=
  (replayPayload acc.1 record.payload).map fun s => (s, record.seq)

/-- `replay_journal`: the state and the sequence number of the last record. -/
def replayFrom (log : List (DeltaRecord Tz)) (snapshot : ResourceGovernorSnapshot Tz) :
    Except ResourceError (ResourceState Tz × ℕ) :=
  (tail log snapshot.journalSeq).foldlM replayRecord
    (rebuildActiveHoldsFromReservations snapshot.state, snapshot.journalSeq)

/-- `load_authority`, when nothing else happens while it runs. -/
def Durable.loadAuthority (d : Durable Tz) : Except ResourceError (ResourceState Tz) :=
  (replayFrom d.log d.snapshot).map Prod.fst

omit [Platform Tz] [DecidableEq Tz] [DeltaCodec Tz] in
/-- The update of `compact_resource_governor_snapshot`. -/
def storeSnapshot (state : ResourceState Tz) (latestSeq : ℕ)
    (snapshot : ResourceGovernorSnapshot Tz) : ResourceGovernorSnapshot Tz :=
  if latestSeq ≤ snapshot.journalSeq then snapshot else ⟨state, latestSeq⟩

/-- One action. -/
def Durable.next (d : Durable Tz) : DurableAction Tz → Durable Tz
  | .append gap payload => { d with log := d.log ++ [⟨lastSeq d.log + gap + 1, payload⟩] }
  | .inspect i => { d with compactors := Function.update d.compactors i (.inspected d.snapshot) }
  | .replay i =>
    match d.compactors i with
    | .inspected snapshot =>
      match replayFrom d.log snapshot with
      | .ok (state, latestSeq) =>
        { d with compactors := Function.update d.compactors i (.replayed state latestSeq) }
      | .error _ => { d with compactors := Function.update d.compactors i .idle }
    | _ => d
  | .store i =>
    match d.compactors i with
    | .replayed state latestSeq =>
      { d with
        snapshot := storeSnapshot state latestSeq d.snapshot
        compactors := Function.update d.compactors i .idle }
    | _ => d
  | .stop i => { d with compactors := Function.update d.compactors i .idle }

/-- What the records give, each applied once and in order, with the holds rebuilt at some points. -/
inductive Replays : List (DeltaCodec.Payload Tz) → ResourceState Tz → Prop
  | nil : Replays [] .empty
  | rebuilt {payloads : List (DeltaCodec.Payload Tz)} {s : ResourceState Tz} (h : Replays payloads s) :
      Replays payloads (rebuildActiveHoldsFromReservations s)
  | applied {payloads : List (DeltaCodec.Payload Tz)} {s s' : ResourceState Tz}
      {payload : DeltaCodec.Payload Tz} (h : Replays payloads s)
      (happly : replayPayload s payload = .ok s') : Replays (payloads ++ [payload]) s'

end Operations

/-! ### Cursors -/

/-- The sequence numbers of the log grow, from one. -/
structure Ordered (log : List (DeltaRecord Tz)) : Prop where
  increasing : log.Pairwise fun a b => a.seq < b.seq
  pos : ∀ record ∈ log, 0 < record.seq

variable {log : List (DeltaRecord Tz)}

theorem seq_le_lastSeq (h : Ordered log) {record : DeltaRecord Tz}
    (hmem : record ∈ log) : record.seq ≤ lastSeq log := by
  induction log using List.reverseRecOn with
  | nil => exact absurd hmem List.not_mem_nil
  | append_singleton log last _ =>
    have hlast : lastSeq (log ++ [last]) = last.seq := by simp [lastSeq]
    rw [hlast]
    rcases List.mem_append.1 hmem with hmem | hmem
    · exact le_of_lt ((List.pairwise_append.1 h.increasing).2.2 record hmem last
        (List.mem_singleton.2 rfl))
    · rw [List.mem_singleton.1 hmem]

theorem Ordered.append (h : Ordered log) (gap : ℕ)
    (payload : DeltaCodec.Payload Tz) : Ordered (log ++ [⟨lastSeq log + gap + 1, payload⟩]) where
  increasing := by
    refine List.pairwise_append.2 ⟨h.increasing, List.pairwise_singleton _ _, ?_⟩
    intro a ha b hb
    rw [List.mem_singleton.1 hb]
    have hle := seq_le_lastSeq h ha
    show a.seq < lastSeq log + gap + 1
    omega
  pos := by
    intro record hrecord
    rcases List.mem_append.1 hrecord with hrecord | hrecord
    · exact h.pos record hrecord
    · rw [List.mem_singleton.1 hrecord]
      exact Nat.succ_pos _

theorem upTo_append_tail (h : Ordered log) (cursor : ℕ) :
    upTo log cursor ++ tail log cursor = log := by
  induction log with
  | nil => rfl
  | cons first log ih =>
    have hrest : Ordered log :=
      ⟨(List.pairwise_cons.1 h.increasing).2, fun r hr => h.pos r (List.mem_cons_of_mem _ hr)⟩
    by_cases hfirst : first.seq ≤ cursor
    · have hup : upTo (first :: log) cursor = first :: upTo log cursor :=
        List.filter_cons_of_pos (by simpa using hfirst)
      have htail : tail (first :: log) cursor = tail log cursor :=
        List.filter_cons_of_neg (by simpa using hfirst)
      rw [hup, htail, List.cons_append, ih hrest]
    · -- after a record beyond the cursor, all of them are
      have hbeyond : ∀ r ∈ first :: log, cursor < r.seq := by
        intro r hr
        rcases List.mem_cons.1 hr with rfl | hr
        · omega
        · have := (List.pairwise_cons.1 h.increasing).1 r hr
          omega
      have hup : upTo (first :: log) cursor = [] :=
        List.filter_eq_nil_iff.2 fun r hr => by simpa using hbeyond r hr
      have htail : tail (first :: log) cursor = first :: log :=
        List.filter_eq_self.2 fun r hr => by simpa using hbeyond r hr
      rw [hup, htail, List.nil_append]

theorem upTo_append {cursor : ℕ} (h : cursor ≤ lastSeq log) (gap : ℕ)
    (payload : DeltaCodec.Payload Tz) :
    upTo (log ++ [⟨lastSeq log + gap + 1, payload⟩]) cursor = upTo log cursor := by
  have hbeyond : ¬lastSeq log + gap + 1 ≤ cursor := by omega
  simp [upTo, List.filter_append, hbeyond]

theorem upTo_lastSeq (h : Ordered log) : upTo log (lastSeq log) = log :=
  List.filter_eq_self.2 fun _ hr => decide_eq_true (seq_le_lastSeq h hr)

theorem lastSeq_append (log : List (DeltaRecord Tz)) (record : DeltaRecord Tz) :
    lastSeq (log ++ [record]) = record.seq := by
  simp [lastSeq]

/-- The latest sequence number is the cursor, or the end of the log. -/
theorem getLast_tail (hlog : Ordered log) {cursor : ℕ} (hbound : cursor ≤ lastSeq log) :
    (((tail log cursor).getLast?.map DeltaRecord.seq).getD cursor) = lastSeq log := by
  have hsplit := upTo_append_tail hlog cursor
  cases htail : (tail log cursor).getLast? with
  | none =>
    -- nothing is after the cursor, so the last record is not
    have hnil : tail log cursor = [] := List.getLast?_eq_none_iff.1 htail
    rw [hnil, List.append_nil] at hsplit
    have hle : lastSeq log ≤ cursor := by
      unfold lastSeq
      cases hlast : log.getLast? with
      | none => exact Nat.zero_le _
      | some last =>
        have hmem : last ∈ upTo log cursor := by
          rw [hsplit]
          exact List.mem_of_getLast? hlast
        exact of_decide_eq_true (List.mem_filter.1 hmem).2
    exact le_antisymm hbound hle
  | some last =>
    have hlast : log.getLast? = some last := by
      rw [← hsplit, List.getLast?_append, htail, Option.some_or]
    simp [lastSeq, hlast]

variable [Platform Tz] [DecidableEq Tz]

/-! ### What is stored and loaded -/

/-- Replaying records from a state that the deltas before them give. -/
theorem Replays.foldlM {records : List (DeltaRecord Tz)} :
    ∀ {payloads : List (DeltaCodec.Payload Tz)} {s s' : ResourceState Tz} {cursor latestSeq : ℕ},
      Replays payloads s → records.foldlM replayRecord (s, cursor) = .ok (s', latestSeq) →
        Replays (payloads ++ records.map DeltaRecord.payload) s' ∧
          latestSeq = (records.getLast?.map DeltaRecord.seq).getD cursor := by
  induction records with
  | nil =>
    intro payloads s s' cursor latestSeq h hfold
    cases hfold
    exact ⟨by simpa using h, rfl⟩
  | cons record records ih =>
    intro payloads s s' cursor latestSeq h hfold
    rw [List.foldlM_cons] at hfold
    obtain ⟨acc, hrecord, hrest⟩ := bind_eq_ok.1 hfold
    obtain ⟨next, happly, rfl⟩ := map_eq_ok.1 hrecord
    obtain ⟨hreplays, hlatest⟩ := ih (h.applied happly) hrest
    refine ⟨by simpa using hreplays, ?_⟩
    rw [hlatest, List.getLast?_cons]
    cases records.getLast? <;> rfl

/-- A state and the cursor it was taken at. -/
structure Represents (log : List (DeltaRecord Tz)) (s : ResourceState Tz) (cursor : ℕ) : Prop where
  replays : Replays ((upTo log cursor).map DeltaRecord.payload) s
  bound : cursor ≤ lastSeq log

variable {s : ResourceState Tz}

theorem Represents.append {cursor : ℕ}
    (h : Represents log s cursor) (gap : ℕ) (payload : DeltaCodec.Payload Tz) :
    Represents (log ++ [⟨lastSeq log + gap + 1, payload⟩]) s cursor where
  replays := by
    rw [upTo_append h.bound]
    exact h.replays
  bound := by
    have hbound := h.bound
    rw [lastSeq_append]
    show cursor ≤ lastSeq log + gap + 1
    omega

/-- A replay from a snapshot ends at the end of the log. -/
theorem Represents.replayFrom (hlog : Ordered log) {snapshot : ResourceGovernorSnapshot Tz}
    (h : Represents log snapshot.state snapshot.journalSeq) {latestSeq : ℕ}
    (hreplay : replayFrom log snapshot = .ok (s, latestSeq)) : Represents log s latestSeq ∧
      Replays (log.map DeltaRecord.payload) s := by
  obtain ⟨hreplays, hlatest⟩ := h.replays.rebuilt.foldlM hreplay
  rw [getLast_tail hlog h.bound] at hlatest
  rw [← List.map_append, upTo_append_tail hlog] at hreplays
  refine ⟨⟨?_, hlatest.le⟩, hreplays⟩
  rw [hlatest, upTo_lastSeq hlog]
  exact hreplays

/-- What holds in every reachable state of the store. -/
structure Durable.Sound (d : Durable Tz) : Prop where
  log : Ordered d.log
  snapshot : Represents d.log d.snapshot.state d.snapshot.journalSeq
  inspected : ∀ i snapshot, d.compactors i = .inspected snapshot →
    Represents d.log snapshot.state snapshot.journalSeq
  replayed : ∀ i state latestSeq, d.compactors i = .replayed state latestSeq →
    Represents d.log state latestSeq

theorem Durable.sound_fresh : (Durable.fresh : Durable Tz).Sound where
  log := ⟨List.Pairwise.nil, fun _ hr => absurd hr List.not_mem_nil⟩
  snapshot := ⟨.nil, Nat.zero_le _⟩
  inspected := by
    intro i snapshot hi
    cases hi
  replayed := by
    intro i state latestSeq hi
    cases hi

theorem Durable.Sound.update {d : Durable Tz} (h : d.Sound) (i : ℕ) {compactor : Compactor Tz}
    (hinspected : ∀ snapshot, compactor = .inspected snapshot →
      Represents d.log snapshot.state snapshot.journalSeq)
    (hreplayed : ∀ state latestSeq, compactor = .replayed state latestSeq →
      Represents d.log state latestSeq) :
    Durable.Sound { d with compactors := Function.update d.compactors i compactor } where
  log := h.log
  snapshot := h.snapshot
  inspected := by
    intro j snapshot hj
    by_cases hij : j = i
    · subst hij
      exact hinspected snapshot (by simpa using hj)
    · exact h.inspected j snapshot (by simpa [hij] using hj)
  replayed := by
    intro j state latestSeq hj
    by_cases hij : j = i
    · subst hij
      exact hreplayed state latestSeq (by simpa using hj)
    · exact h.replayed j state latestSeq (by simpa [hij] using hj)

theorem Durable.Sound.idle {d : Durable Tz} (h : d.Sound) (i : ℕ) :
    Durable.Sound { d with compactors := Function.update d.compactors i .idle } :=
  h.update i (fun _ hidle => by cases hidle) (fun _ _ hidle => by cases hidle)

theorem Durable.Sound.next {d : Durable Tz} (h : d.Sound) (action : DurableAction Tz) :
    (d.next action).Sound := by
  cases action with
  | append gap payload =>
    exact ⟨h.log.append gap payload, h.snapshot.append gap payload,
      fun i snapshot hi => (h.inspected i snapshot hi).append gap payload,
      fun i state latestSeq hi => (h.replayed i state latestSeq hi).append gap payload⟩
  | inspect i =>
    refine h.update i ?_ (fun _ _ hi => by cases hi)
    intro snapshot hi
    cases hi
    exact h.snapshot
  | replay i =>
    simp only [Durable.next]
    split
    · rename_i snapshot hi
      split
      · rename_i state latestSeq hreplay
        refine h.update i (fun _ hi => by cases hi) ?_
        intro state' latestSeq' hi'
        cases hi'
        exact ((h.inspected i snapshot hi).replayFrom h.log hreplay).1
      · exact h.idle i
    · exact h
  | store i =>
    simp only [Durable.next]
    split
    · rename_i state latestSeq hi
      have hidle := h.idle i
      refine ⟨h.log, ?_, hidle.inspected, hidle.replayed⟩
      dsimp only
      unfold storeSnapshot
      split_ifs
      · exact h.snapshot
      · exact h.replayed i state latestSeq hi
    · exact h
  | stop i => exact h.idle i

theorem Durable.sound (actions : List (DurableAction Tz)) :
    (actions.foldl Durable.next Durable.fresh).Sound := by
  induction actions using List.reverseRecOn with
  | nil => exact Durable.sound_fresh
  | append_singleton actions action ih =>
    rw [List.foldl_append]
    exact ih.next action

/-! ### Replays that read the same -/

/-- Two replays that fail alike, or lead to states that read the same. -/
inductive SameReplay : Except ResourceError (ResourceState Tz) →
    Except ResourceError (ResourceState Tz) → Prop
  | failed (e : ResourceError) : SameReplay (.error e) (.error e)
  | done {s t : ResourceState Tz} (h : ReadsAs s t) : SameReplay (.ok s) (.ok t)

omit [Platform Tz] [DecidableEq Tz] [DeltaCodec Tz] in
theorem ReadsAs.sameReplay {α : Type} {r r' : Except ResourceError α × ResourceState Tz}
    (h : ReadsAs.Alike r r') : SameReplay (r.1.map fun _ => r.2) (r'.1.map fun _ => r'.2) := by
  rw [h.answer]
  cases r'.1 with
  | error e => exact .failed e
  | ok x => exact .done h.state

omit [DeltaCodec Tz] in
theorem ReadsAs.applyTo {s t : ResourceState Tz} (h : ReadsAs s t) (delta : ResourceGovernorDelta Tz) :
    SameReplay (delta.applyTo s) (delta.applyTo t) := by
  cases delta with
  | setLimit account limits «at» => exact .done (h.setLimit account limits «at»)
  | reserve scope estimate id «at» => exact ReadsAs.sameReplay (h.reserve scope estimate id «at»)
  | reconcile id actual «at» => exact ReadsAs.sameReplay (h.reconcile id actual «at»)
  | release id «at» => exact ReadsAs.sameReplay (h.release id «at»)
  | accountSnapshot account «at» => exact .done (h.accountSnapshot account «at»).state

theorem ReadsAs.replayPayload {s t : ResourceState Tz} (h : ReadsAs s t)
    (payload : DeltaCodec.Payload Tz) :
    SameReplay (Resources.replayPayload s payload) (Resources.replayPayload t payload) := by
  unfold Resources.replayPayload
  cases DeltaCodec.decode payload with
  | error e => exact .failed _
  | ok delta => exact h.applyTo delta

variable {payloads : List (DeltaCodec.Payload Tz)}

theorem ReadsAs.replayDeltas :
    ∀ {s t : ResourceState Tz}, ReadsAs s t →
      SameReplay (Resources.replayDeltas s payloads) (Resources.replayDeltas t payloads) := by
  induction payloads with
  | nil => exact fun h => .done h
  | cons payload payloads ih =>
    intro s t h
    show SameReplay (Resources.replayPayload s payload >>= fun s' => Resources.replayDeltas s' payloads)
      (Resources.replayPayload t payload >>= fun t' => Resources.replayDeltas t' payloads)
    have hfirst := h.replayPayload payload
    generalize Resources.replayPayload s payload = r at hfirst
    generalize Resources.replayPayload t payload = r' at hfirst
    cases hfirst with
    | failed e => exact .failed e
    | done h' => exact ih h'

/-- What a delta asks for. -/
def ResourceGovernorDelta.command : ResourceGovernorDelta Tz → Command Tz
  | .setLimit account limits «at» => ⟨«at», .setLimit account limits⟩
  | .reserve scope estimate id «at» => ⟨«at», .reserve scope estimate id⟩
  | .reconcile id actual «at» => ⟨«at», .reconcile id actual⟩
  | .release id «at» => ⟨«at», .release id⟩
  | .accountSnapshot account «at» => ⟨«at», .accountSnapshot account⟩

omit [DeltaCodec Tz] in
theorem ResourceGovernorDelta.perform_of_applyTo {s s' : ResourceState Tz}
    {delta : ResourceGovernorDelta Tz} (h : delta.applyTo s = .ok s') :
    (s.perform delta.command).2 = s' := by
  cases delta with
  | setLimit account limits «at» => exact Except.ok.inj h
  | reserve scope estimate id «at» => exact (map_eq_ok.1 h).choose_spec.2
  | reconcile id actual «at» => exact (map_eq_ok.1 h).choose_spec.2
  | release id «at» => exact (map_eq_ok.1 h).choose_spec.2
  | accountSnapshot account «at» => exact Except.ok.inj h

theorem exists_perform_of_replayPayload {s s' : ResourceState Tz} {payload : DeltaCodec.Payload Tz}
    (h : replayPayload s payload = .ok s') : ∃ c : Command Tz, (s.perform c).2 = s' := by
  unfold replayPayload at h
  split at h
  · cases h
  · rename_i delta _
    exact ⟨delta.command, delta.perform_of_applyTo h⟩

/-! ### Sums in range -/

/-- Along the replay of the records, no sum of active holds leaves the range of its dimension, and the
library can hold every sum of some of the money that is held. -/
def HoldsAddUp (payloads : List (DeltaCodec.Payload Tz)) : Prop :=
  ∀ done s, done <+: payloads → replayDeltas .empty done = .ok s →
    ∀ a, HoldsFit s a ∧ ∀ d, held s a d ≤ d.cap

theorem HoldsAddUp.mono {payloads payloads' : List (DeltaCodec.Payload Tz)}
    (h : HoldsAddUp payloads') (hinit : payloads <+: payloads') : HoldsAddUp payloads :=
  fun done s hdone => h done s (hdone.trans hinit)

theorem replayDeltas_snoc {s s'' : ResourceState Tz} {payload : DeltaCodec.Payload Tz}
    (h : replayDeltas s (payloads ++ [payload]) = .ok s'') :
    ∃ s', replayDeltas s payloads = .ok s' ∧ replayPayload s' payload = .ok s'' := by
  unfold replayDeltas at h
  rw [List.foldlM_append] at h
  obtain ⟨s', hpayloads, hlast⟩ := bind_eq_ok.1 h
  refine ⟨s', hpayloads, ?_⟩
  rw [List.foldlM_cons] at hlast
  obtain ⟨t, happly, hnil⟩ := bind_eq_ok.1 hlast
  rw [happly]
  exact hnil

theorem HoldsAddUp.run :
    ∀ {s : ResourceState Tz}, HoldsAddUp payloads → replayDeltas .empty payloads = .ok s →
      ∃ history, GovernorRun history s ∧
        ∀ x ∈ history, ∀ a, HoldsFit x.post a ∧ ∀ d, held x.post a d ≤ d.cap := by
  induction payloads using List.reverseRecOn with
  | nil =>
    intro s _ hreplay
    cases hreplay
    exact ⟨[], .nil, fun x hx => absurd hx List.not_mem_nil⟩
  | append_singleton payloads payload ih =>
    intro s hrange hreplay
    obtain ⟨t, hpayloads, happly⟩ := replayDeltas_snoc hreplay
    obtain ⟨history, hrun, hheld⟩ := ih (hrange.mono (List.prefix_append _ _)) hpayloads
    obtain ⟨c, hpost⟩ := exists_perform_of_replayPayload happly
    replace hpost : advance governor t c = s := hpost
    refine ⟨_, hpost ▸ hrun.snoc c rfl, ?_⟩
    intro x hx
    rcases List.mem_append.1 hx with hx | hx
    · exact hheld x hx
    · rw [List.mem_singleton.1 hx]
      exact hrange _ s (List.prefix_refl _) hreplay

/-! ### Rebuilding the holds -/

section Rebuilding

omit [DecidableEq Tz] [DeltaCodec Tz]

theorem modifyAll_hold_account (a : ResourceAccount) (tally : ResourceTally)
    (accounts : List ResourceAccount) : ∀ s : ResourceState Tz,
    ∃ r, (s.modifyAll accounts (·.hold tally)).account a = { s.account a with reserved := r } := by
  induction accounts with
  | nil => exact fun s => ⟨(s.account a).reserved, rfl⟩
  | cons b accounts ih =>
    intro s
    obtain ⟨r, hr⟩ := ih (s.modify b (·.hold tally))
    refine ⟨r, hr.trans ?_⟩
    rw [ResourceState.modify_account]
    split_ifs <;> rfl

/-- Taking holds changes what is reserved, and nothing else. -/
theorem takeHolds_account (a : ResourceAccount) (records : List ReservationRecord) :
    ∀ s : ResourceState Tz,
      ∃ r, (takeHolds s records).account a = { s.account a with reserved := r } := by
  induction records with
  | nil => exact fun s => ⟨(s.account a).reserved, rfl⟩
  | cons record records ih =>
    intro s
    have hcons : takeHolds s (record :: records) = takeHolds (if record.status = .active then
      s.modifyAll record.accounts (·.hold record.tally) else s) records := rfl
    rw [hcons]
    obtain ⟨r, hr⟩ := ih (if record.status = .active then
      s.modifyAll record.accounts (·.hold record.tally) else s)
    rw [hr]
    split_ifs
    · obtain ⟨r', hr'⟩ := modifyAll_hold_account a record.tally record.accounts s
      rw [hr']
      exact ⟨r, rfl⟩
    · exact ⟨r, rfl⟩

theorem takeHolds_reservations (records : List ReservationRecord) : ∀ s : ResourceState Tz,
    (takeHolds s records).reservations = s.reservations := by
  induction records with
  | nil => exact fun _ => rfl
  | cons record records ih =>
    intro s
    have hcons : takeHolds s (record :: records) = takeHolds (if record.status = .active then
      s.modifyAll record.accounts (·.hold record.tally) else s) records := rfl
    rw [hcons, ih]
    split_ifs
    · exact ResourceState.modifyAll_reservations _ _ s
    · rfl

end Rebuilding

omit [DeltaCodec Tz] in
/-- Rebuilding the holds of a state that reads as a run in range leaves what is read. -/
theorem ReadsAs.rebuild {history : History Tz} {s t : ResourceState Tz} (run : GovernorRun history t)
    (hrange : ∀ x ∈ history, ∀ a, HoldsFit x.post a ∧ ∀ d, held x.post a d ≤ d.cap)
    (h : ReadsAs s t) : ReadsAs (rebuildActiveHoldsFromReservations s) t := by
  have hrows : s.reservations.SameRows t.reservations := Table.sameRows_of_get_eq h.reservations
  have hw : ∀ r ∈ s.reservations.rows, r.WellFormed := fun r hr =>
    run.wellFormed.record r (hrows.mem_iff.1 hr)
  refine ⟨fun a => ?_, fun id => ?_⟩
  · obtain ⟨r, hr⟩ := takeHolds_account a s.reservations.rows
      { s with account := fun a => { s.account a with reserved := none } }
    have hrest : (rebuildActiveHoldsFromReservations s).account a =
      { s.account a with reserved := r } := hr
    have hfit : HoldsFit s a := (GovernorRun.holdsFit run fun x hx => (hrange x hx a).1).of_sameRows hrows
    have ha := h.account a
    refine ⟨?_, ?_, ?_, ?_⟩
    · rw [hrest]
      exact ha.limits
    · apply ResourceTally.ext_amount
      intro d
      have heq : reservedAmount t a d = held t a d :=
        reserved_eq_held run a d (fun x hx => (hrange x hx a).2 d)
          fun x hx hd => hd ▸ (hrange x hx a).1.held
      have hheld : held s a d = held t a d := hrows.total_eq _
      have hcap : reservedAmount t a d ≤ d.cap := (t.account a).reservedTally.amount_le_cap d
      show reservedAmount (rebuildActiveHoldsFromReservations s) a d = reservedAmount t a d
      rw [reservedAmount_rebuild hw a d fun _ => hfit, hheld, ← heq, min_eq_left hcap]
    · rw [hrest]
      exact ha.usage
    · rw [hrest]
      exact ha.periodAnchor
  · rw [rebuildActiveHoldsFromReservations, takeHolds_reservations]
    exact h.reservations id

/-- While the sums stay in range and fit, rebuilding the holds on the way is not read. -/
theorem Replays.readsAs (h : Replays payloads s) (hrange : HoldsAddUp payloads) :
    ∃ t, replayDeltas .empty payloads = .ok t ∧ ReadsAs s t := by
  induction h with
  | nil => exact ⟨.empty, rfl, .refl _⟩
  | rebuilt _ ih =>
    obtain ⟨t, ht, hreads⟩ := ih hrange
    obtain ⟨history, hrun, hheld⟩ := hrange.run ht
    exact ⟨t, ht, hreads.rebuild hrun hheld⟩
  | @applied payloads s s' payload _ happly ih =>
    obtain ⟨t, ht, hreads⟩ := ih (hrange.mono (List.prefix_append _ _))
    have hsame := hreads.replayPayload payload
    rw [happly] at hsame
    generalize hr : replayPayload t payload = r at hsame
    cases hsame with
    | done h' => exact ⟨_, replayDeltas_append_singleton ht hr, h'⟩

/-! ### Loading -/

theorem foldlM_replayRecord (records : List (DeltaRecord Tz)) : ∀ (s : ResourceState Tz) (cursor : ℕ),
    (records.foldlM replayRecord (s, cursor)).map Prod.fst =
      replayDeltas s (records.map DeltaRecord.payload) := by
  induction records with
  | nil => exact fun _ _ => rfl
  | cons record records ih =>
    intro s cursor
    rw [List.foldlM_cons, List.map_cons, replayDeltas, List.foldlM_cons, replayRecord]
    cases replayPayload s record.payload with
    | error e => rfl
    | ok s' => exact ih s' record.seq

theorem loadAuthority_eq (d : Durable Tz) : d.loadAuthority =
    replayDeltas (rebuildActiveHoldsFromReservations d.snapshot.state)
      ((tail d.log d.snapshot.journalSeq).map DeltaRecord.payload) :=
  foldlM_replayRecord _ _ _

namespace Sample

/-- A reservation of money that is compacted, and its report. -/
def compactedHold : List (DurableAction UtcOnly) :=
  [.append 0 (DeltaCodec.encode (.reserve scope (cost 5) ⟨1⟩ 0)), .inspect 0, .inspect 1, .replay 0,
    .store 0, .append 3 (DeltaCodec.encode (.reconcile ⟨1⟩ (paid 3) 1)), .replay 1, .store 1]

/-- Two reservations, the first of them as large as can be, which is then released. -/
def clampedHold : List (DurableAction UtcOnly) :=
  [.append 0 (DeltaCodec.encode (.reserve scope (tokens (.ofNat (2 ^ 64 - 1))) ⟨1⟩ 0)),
    .append 0 (DeltaCodec.encode (.reserve scope (tokens (.ofNat 1)) ⟨2⟩ 1)),
    .append 0 (DeltaCodec.encode (.release ⟨1⟩ 2)), .inspect 0, .replay 0, .store 0]

end Sample

theorem holdsAddUp_of_length
    (h : ∀ done ∈ payloads.inits,
      (replayDeltas .empty done).toOption.all fun s => decide (s.reservations.rows.length ≤ 1)) :
    HoldsAddUp payloads := by
  intro done s hdone hreplay a
  have hlength := h done ((List.mem_inits _ _).2 hdone)
  rw [hreplay] at hlength
  have hone : s.reservations.rows.length ≤ 1 := by simpa [Except.toOption] using hlength
  exact ⟨holdsFit_of_length hone a, held_le_cap_of_length hone a⟩

end Ironclaw.Resources

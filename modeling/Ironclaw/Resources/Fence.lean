import Ironclaw.Resources.Lifecycle

/-! # The generation fence

What is in the log, over every interleaving.

* `Owned`: the locks of an authority belong to the threads that are between their write and its
  hand-over.
* `Once`: no request is twice in the log or on its way to it.
* `Replays`: the log replays, and the authority in the slot is what the log and the deltas on their
  way replay to, as long as every threshold that is set is finite; the record of another one cannot
  be decoded (`infinite_threshold_stops_load`). The fence is used here twice: a batch that is appended is of the current
  generation, so it comes from the authority in the slot (`Replays.persist`), and nothing is on its
  way when an authority is loaded (`Replays.install`).

`generation_fence` puts them together. -/

namespace Ironclaw.Resources

variable {Tz : Type}

/-- The authority and the delta of a thread that has changed the one and not handed over the
other. -/
def Thread.inBetween : Thread Tz → Option (ℕ × ResourceGovernorDelta Tz)
  | .applied a delta | .sending a delta _ => some (a, delta)
  | _ => none

/-- The request of a thread that waits for it, or has succeeded with it. -/
def Thread.request : Thread Tz → Option (DeltaJournalRequest Tz)
  | .waiting r | .succeeded (some r) => some r
  | _ => none

namespace System

/-- The locks of an authority belong to the threads in between, which lock different things. -/
def Owned (s : System Tz) : Prop :=
  (∀ a, (s.authorities a).Exclusive) ∧
  ∀ a t delta, (∃ p ∈ (s.authorities a).applied, p.thread = t ∧ p.delta = delta) ↔
    (s.threads t).inBetween = some (a, delta)

variable {s s' : System Tz}

namespace Owned

variable {x : Thread Tz}

theorem move (h : Owned s) {t : ℕ} (hauthorities : s'.authorities = s.authorities)
    (hthreads : s'.threads = fun u => if u = t then x else s.threads u)
    (hx : x.inBetween = (s.threads t).inBetween) : Owned s' := by
  refine ⟨by rw [hauthorities]; exact h.1, fun a u delta => ?_⟩
  rw [hauthorities, hthreads, h.2 a u delta]
  dsimp only
  split_ifs with hu
  · rw [hu, hx]
  · exact Iff.rfl

theorem apply (h : Owned s) {t a : ℕ} {f : Footprint} {delta : ResourceGovernorDelta Tz}
    {memory : ResourceAuthority Tz} (hnone : (s.threads t).inBetween = none)
    (hfree : ∀ p ∈ (s.authorities a).applied, p.footprint.Apart f) :
    Owned ((s.setAuthority a ⟨memory, ⟨t, f, delta⟩ :: (s.authorities a).applied⟩).setThread t
      (.applied a delta)) := by
  have hfresh : ∀ b, ∀ p ∈ (s.authorities b).applied, p.thread ≠ t := by
    intro b p hp ht
    have hb := (h.2 b t p.delta).mp ⟨p, hp, ht, rfl⟩
    rw [hnone] at hb
    cases hb
  constructor
  · intro b
    show ((if b = a then _ else s.authorities b) : AuthorityObject Tz).Exclusive
    split_ifs
    · refine List.pairwise_cons.mpr ⟨fun p hp => ⟨(hfresh a p hp).symm, ?_⟩, h.1 a⟩
      exact (hfree p hp).symm
    · exact h.1 b
  · intro b u delta'
    show (∃ p ∈ ((if b = a then _ else s.authorities b) : AuthorityObject Tz).applied, _) ↔
      (if u = t then _ else s.threads u).inBetween = _
    by_cases hu : u = t
    · subst hu
      rw [if_pos rfl]
      show _ ↔ some (a, delta) = some (b, delta')
      constructor
      · rintro ⟨p, hp, hpt, hpd⟩
        split_ifs at hp with hb
        · rcases List.mem_cons.mp hp with rfl | hp
          · rw [hb, ← hpd]
          · exact absurd hpt (hfresh a p hp)
        · exact absurd hpt (hfresh b p hp)
      · intro he
        cases he
        rw [if_pos rfl]
        exact ⟨_, List.mem_cons_self, rfl, rfl⟩
    · rw [if_neg hu, ← h.2 b u delta']
      by_cases hb : b = a
      · subst hb
        rw [if_pos rfl]
        constructor
        · rintro ⟨p, hp, hpt, hpd⟩
          rcases List.mem_cons.mp hp with rfl | hp
          · exact absurd hpt.symm hu
          · exact ⟨p, hp, hpt, hpd⟩
        · rintro ⟨p, hp, hpt, hpd⟩
          exact ⟨p, List.mem_cons_of_mem _ hp, hpt, hpd⟩
      · rw [if_neg hb]

theorem memory (h : Owned s) {t a : ℕ} {memory : ResourceAuthority Tz}
    (hx : x.inBetween = (s.threads t).inBetween) :
    Owned ((s.setAuthority a { s.authorities a with memory := memory }).setThread t x) := by
  have happlied : ∀ b, ((s.setAuthority a { s.authorities a with memory := memory }).authorities
      b).applied = (s.authorities b).applied := by
    intro b
    show ((if b = a then _ else s.authorities b) : AuthorityObject Tz).applied = _
    split_ifs with hb
    · rw [hb]
    · rfl
  have hmemory : Owned (s.setAuthority a { s.authorities a with memory := memory }) := by
    refine ⟨fun b => ?_, fun b u delta => ?_⟩
    · unfold AuthorityObject.Exclusive
      rw [happlied]
      exact h.1 b
    · rw [happlied]
      exact h.2 b u delta
  exact hmemory.move rfl rfl hx

theorem release (h : Owned s) {t a : ℕ} {delta : ResourceGovernorDelta Tz}
    (hsome : (s.threads t).inBetween = some (a, delta)) (hx : x.inBetween = none) :
    Owned ((s.release a t).setThread t x) := by
  constructor
  · intro b
    show ((if b = a then _ else s.authorities b) : AuthorityObject Tz).Exclusive
    split_ifs
    · exact List.Pairwise.filter _ (h.1 a)
    · exact h.1 b
  · intro b u delta'
    show (∃ p ∈ ((if b = a then _ else s.authorities b) : AuthorityObject Tz).applied, _) ↔
      (if u = t then _ else s.threads u).inBetween = _
    by_cases hu : u = t
    · subst hu
      rw [if_pos rfl, hx]
      refine ⟨?_, nofun⟩
      rintro ⟨p, hp, hpt, hpd⟩
      split_ifs at hp with hb
      · rw [List.mem_filter, decide_eq_true_eq] at hp
        exact absurd hpt hp.2
      · have he := (h.2 b u p.delta).mp ⟨p, hp, hpt, rfl⟩
        rw [hsome] at he
        cases he
        exact absurd rfl hb
    · rw [if_neg hu, ← h.2 b u delta']
      by_cases hb : b = a
      · subst hb
        rw [if_pos rfl]
        constructor
        · rintro ⟨p, hp, hpt, hpd⟩
          exact ⟨p, (List.mem_filter.mp hp).1, hpt, hpd⟩
        · rintro ⟨p, hp, hpt, hpd⟩
          exact ⟨p, List.mem_filter.mpr ⟨hp, decide_eq_true (hpt ▸ hu)⟩, hpt, hpd⟩
      · rw [if_neg hb]

theorem install (h : Owned s) {a t : ℕ} {memory : ResourceAuthority Tz}
    (hfresh : ∀ u b delta, (s.threads u).inBetween = some (b, delta) → b ≠ a)
    (hx : x.inBetween = (s.threads t).inBetween) :
    Owned ((s.setAuthority a ⟨memory, []⟩).setThread t x) := by
  have hinstalled : Owned (s.setAuthority a ⟨memory, []⟩) := by
    constructor
    · intro b
      show ((if b = a then _ else s.authorities b) : AuthorityObject Tz).Exclusive
      split_ifs
      · exact List.Pairwise.nil
      · exact h.1 b
    · intro b u delta
      show (∃ p ∈ ((if b = a then _ else s.authorities b) : AuthorityObject Tz).applied, _) ↔
        (s.threads u).inBetween = _
      split_ifs with hb
      · refine ⟨fun ⟨p, hp, _⟩ => absurd hp List.not_mem_nil, fun he => ?_⟩
        exact absurd hb (hfresh u b delta he)
      · exact h.2 b u delta
  exact hinstalled.move rfl rfl hx

end Owned

theorem Continues.inBetween {x y : Thread Tz} (hc : Continues s x y) :
    y.inBetween = x.inBetween := by
  cases hc <;> rfl

theorem Relies.inBetween_lt {t a : ℕ} {x : Thread Tz} {delta : ResourceGovernorDelta Tz}
    (h : s.Relies t x) (hx : x.inBetween = some (a, delta)) : a < s.nextAuthority := by
  cases x with
  | applied b d =>
    cases hx
    exact h
  | sending b d g =>
    cases hx
    exact h.2.2.1
  | _ => cases hx

/-! ### Once -/

theorem pending_of_phase {phase : Phase Tz} (hphase : (s.flushers s.sender).phase = phase)
    (hlive : phase.dead = false) :
    s.writer.pending = phase.unwritten ++ (s.flushers s.sender).queue := by
  subst hphase
  exact Flusher.pending_of_live hlive

theorem pending_retained (kept queue : List (DeltaJournalRequest Tz)) :
    (⟨queue, if kept = [] then .idle else .persisting kept⟩ : Flusher Tz).pending =
      kept ++ queue := by
  split_ifs with hkept
  · rw [hkept]
    rfl
  · rfl

theorem pending_sent (f : Flusher Tz) (r : DeltaJournalRequest Tz) :
    ({ f with queue := f.queue ++ [r] } : Flusher Tz).pending =
      if f.phase.dead then [] else f.pending ++ [r] := by
  cases hdead : f.phase.dead with
  | true => exact Flusher.pending_of_dead hdead
  | false =>
    rw [Flusher.pending_of_live hdead, List.append_assoc]
    exact Flusher.pending_of_live hdead

theorem map_request_records (requests : List (DeltaJournalRequest Tz)) (g : ℕ) :
    (requests.map (fun r => (⟨r, g⟩ : LogRecord Tz))).map (·.request) = requests := by
  rw [List.map_map]
  exact List.map_id requests

theorem writer_setFlusher (s : System Tz) (f : Flusher Tz) :
    (s.setFlusher s.sender f).writer = f := if_pos rfl

theorem pending_setFlusher_of_dead {k : ℕ} {f : Flusher Tz} (hdead : f.phase.dead = true) :
    (s.setFlusher k f).writer.pending.Sublist s.writer.pending := by
  show (if s.sender = k then f else s.flushers s.sender).pending.Sublist _
  split_ifs
  · rw [Flusher.pending_of_dead hdead]
    exact List.nil_sublist _
  · exact List.Sublist.refl _

/-- The log and what may still be written do not repeat a request, and no two threads have the
same. -/
def Once (s : System Tz) : Prop :=
  (s.log.map (·.request) ++ s.writer.pending).Nodup ∧
  ∀ t u r, (s.threads t).request = some r → (s.threads u).request = some r → t = u

theorem Once.shrink (h : Once s) (hthreads : s'.threads = s.threads)
    (hsublist : (s'.log.map (·.request) ++ s'.writer.pending).Sublist
      (s.log.map (·.request) ++ s.writer.pending)) : Once s' :=
  ⟨h.1.sublist hsublist, by rw [hthreads]; exact h.2⟩

theorem Once.move (h : Once s) {t : ℕ} {x : Thread Tz}
    (hsublist : (s'.log.map (·.request) ++ s'.writer.pending).Sublist
      (s.log.map (·.request) ++ s.writer.pending))
    (hthreads : s'.threads = fun u => if u = t then x else s.threads u)
    (hx : x.request = none ∨ x.request = (s.threads t).request) : Once s' := by
  have hrequest : ∀ u r, (s'.threads u).request = some r → (s.threads u).request = some r := by
    intro u r hu
    rw [hthreads] at hu
    dsimp only at hu
    split_ifs at hu with hut
    · rcases hx with hx | hx
      · rw [hx] at hu
        cases hu
      · rw [hut, ← hx]
        exact hu
    · exact hu
  exact ⟨h.1.sublist hsublist, fun u v r hu hv => h.2 u v r (hrequest u r hu) (hrequest v r hv)⟩

theorem Continues.request {x y : Thread Tz} (hc : Continues s x y) :
    y.request = none ∨ y.request = x.request := by
  cases hc <;> first | exact .inl rfl | exact .inr rfl

theorem Relies.request_lt {t : ℕ} {x : Thread Tz} {r : DeltaJournalRequest Tz}
    (h : s.Relies t x) (hx : x.request = some r) : r.id < s.nextRequest := by
  cases x with
  | waiting r' =>
    cases hx
    exact h.1
  | succeeded r' =>
    cases r' with
    | none => cases hx
    | some r' =>
      cases hx
      exact h.1.1
  | _ => cases hx

/-- A request that was not used before is sent. -/
theorem Once.send (h : Once s) (hl : Lifecycle s) {t : ℕ} {r : DeltaJournalRequest Tz}
    (hr : r.id = s.nextRequest) (hlog : s'.log = s.log)
    (hpending : s'.writer.pending.Sublist (s.writer.pending ++ [r]))
    (hthreads : s'.threads = fun u => if u = t then .waiting r else s.threads u) : Once s' := by
  have hfresh : ∀ r' : DeltaJournalRequest Tz, r'.id < s.nextRequest → r' ≠ r := by
    rintro r' hlt rfl
    rw [hr] at hlt
    exact absurd hlt (lt_irrefl _)
  constructor
  · rw [hlog]
    refine List.Nodup.sublist (hpending.append_left _) ?_
    rw [← List.append_assoc]
    refine List.Nodup.append h.1 (List.nodup_singleton r) ?_
    intro r' hr' hsame
    rw [List.mem_singleton] at hsame
    refine hfresh r' ?_ hsame
    rcases List.mem_append.mp hr' with hmem | hmem
    · obtain ⟨e, he, rfl⟩ := List.mem_map.mp hmem
      exact (hl.pipeline.log e he).1.1
    · exact (hl.pipeline.pending_issued r' hmem).1
  · have hother : ∀ u, u ≠ t → (s'.threads u).request ≠ some r := by
      intro u hu he
      rw [hthreads] at he
      dsimp only at he
      rw [if_neg hu] at he
      exact hfresh r ((hl.threads.relies u).request_lt he) rfl
    have hself : ∀ r', (s'.threads t).request = some r' → r' = r := by
      intro r' he
      rw [hthreads] at he
      dsimp only at he
      rw [if_pos rfl] at he
      exact (Option.some.inj he).symm
    intro u v r' hu hv
    by_cases hut : u = t
    · subst hut
      by_contra hne
      rw [hself r' hu] at hv
      exact hother v (Ne.symm hne) hv
    · by_cases hvt : v = t
      · subst hvt
        rw [hself r' hv] at hu
        exact absurd hu (hother u hut)
      · rw [hthreads] at hu hv
        dsimp only at hu hv
        rw [if_neg hut] at hu
        rw [if_neg hvt] at hv
        exact h.2 u v r' hu hv

section Steps

variable [Platform Tz] [DecidableEq Tz] [DeltaCodec Tz] {index : ShardIndex}
  {snapshot : ResourceState Tz} {earlier : List (DeltaCodec.Payload Tz)} {allowed : Call Tz → Prop}

theorem Owned.step (h : Owned s) (hl : Lifecycle s)
    (hstep : Step index snapshot earlier allowed s s') : Owned s' := by
  cases hstep with
  | continues t hc => exact h.move rfl rfl hc.inBetween
  | load t hthread hslot hlock => exact h.move rfl rfl (by rw [hthread]; rfl)
  | replayed t hthread hreplay => exact h.move rfl rfl (by rw [hthread]; rfl)
  | unreadable t hthread => exact h.move rfl rfl (by rw [hthread]; rfl)
  | install t hthread =>
    refine h.install (fun u b delta hu => ?_) (by rw [hthread]; rfl)
    exact Nat.ne_of_lt ((hl.threads.relies u).inBetween_lt hu)
  | @operated t a call now hthread _ hfree =>
    have hnone : (s.threads t).inBetween = none := by rw [hthread]; rfl
    unfold operateAuthority
    dsimp only
    split
    · exact h.apply hnone fun p hp => Footprint.apart_of_not_conflicts (hfree p hp)
    · split
      · exact h.memory hnone.symm
      · exact h.memory hnone.symm
  | refused t hthread hwhy => exact h.release (by rw [hthread]; rfl) rfl
  | diverged t hthread hlock hslot hgen => exact h.release (by rw [hthread]; rfl) rfl
  | sending t hthread hlock hslot hpoison => exact h.move rfl rfl (by rw [hthread]; rfl)
  | unsent t hthread hstopped => exact h.release (by rw [hthread]; rfl) rfl
  | sent t hthread => exact h.release (by rw [hthread]; rfl) rfl
  | discard t hthread hlock hslot => exact h.move rfl rfl (by rw [hthread]; rfl)
  | poison t hthread => exact h.move rfl rfl (by rw [hthread]; rfl)
  | invalidate t hthread hlock hslot => exact h.move rfl rfl (by rw [hthread]; rfl)
  | retire t hthread => exact h.move rfl rfl (by rw [hthread]; rfl)
  | spawn t hasRuntime hthread => exact h.move rfl rfl (by rw [hthread]; rfl)
  | finish t hthread hlock => exact h.move rfl rfl (by rw [hthread]; rfl)
  | receiveFirst | receiveMore | retain | persist | reject | tellPersisted | tellRejected | stop
  | refuse | disconnect => exact h

theorem Once.step (h : Once s) (hl : Lifecycle s)
    (hstep : Step index snapshot earlier allowed s s') : Once s' := by
  have hsame := List.Sublist.refl (s.log.map (·.request) ++ s.writer.pending)
  cases hstep with
  | continues t hc => exact h.move hsame rfl hc.request
  | load t hthread hslot hlock => exact h.move hsame rfl (.inl rfl)
  | replayed t hthread hreplay => exact h.move hsame rfl (.inl rfl)
  | unreadable t hthread => exact h.move hsame rfl (.inl rfl)
  | install t hthread => exact h.move hsame rfl (.inl rfl)
  | @operated t a call now hthread _ hfree =>
    unfold operateAuthority
    dsimp only
    split
    · exact h.move hsame rfl (.inl rfl)
    · split
      · exact h.move hsame rfl (.inl rfl)
      · exact h.move hsame rfl (.inl rfl)
  | refused t hthread hwhy => exact h.move hsame rfl (.inl rfl)
  | diverged t hthread hlock hslot hgen => exact h.move hsame rfl (.inl rfl)
  | sending t hthread hlock hslot hpoison => exact h.move hsame rfl (.inl rfl)
  | unsent t hthread hstopped => exact h.move hsame rfl (.inl rfl)
  | sent t hthread =>
    refine h.send hl rfl rfl ?_ rfl
    show List.Sublist (if s.sender = s.sender then _ else _ : Flusher Tz).pending _
    rw [if_pos rfl, pending_sent]
    split_ifs
    · exact List.nil_sublist _
    · exact List.Sublist.refl _
  | discard t hthread hlock hslot => exact h.move hsame rfl (.inl rfl)
  | poison t hthread => exact h.move hsame rfl (.inl rfl)
  | invalidate t hthread hlock hslot => exact h.move hsame rfl (.inl rfl)
  | retire t hthread => exact h.move hsame rfl (.inl rfl)
  | spawn t hasRuntime hthread =>
    refine h.move (List.Sublist.append_left ?_ _) rfl (.inl rfl)
    show ((s.setFlusher (s.sender + 1) _).flushers (s.sender + 1)).pending.Sublist _
    rw [show (s.setFlusher (s.sender + 1) _).flushers (s.sender + 1) = _ from if_pos rfl]
    cases hasRuntime <;> exact List.nil_sublist _
  | finish t hthread hlock => exact h.move hsame rfl (.inl rfl)
  | receiveFirst k hphase hqueue =>
    obtain rfl := hl.pipeline.eq_sender (k := k) (by rw [hphase]; rfl)
    refine h.shrink rfl (List.Sublist.append_left ?_ _)
    rw [writer_setFlusher, pending_of_phase hphase rfl, hqueue]
    exact List.Sublist.refl _
  | @receiveMore k r requests queue hphase hqueue =>
    obtain rfl := hl.pipeline.eq_sender (k := k) (by rw [hphase]; rfl)
    refine h.shrink rfl (List.Sublist.append_left ?_ _)
    rw [writer_setFlusher, pending_of_phase hphase rfl, hqueue]
    show List.Sublist ((requests ++ [r]) ++ queue) (requests ++ r :: queue)
    rw [List.append_assoc]
    exact List.Sublist.refl _
  | @retain k requests kept hphase hkept =>
    obtain rfl := hl.pipeline.eq_sender (k := k) (by rw [hphase]; rfl)
    refine h.shrink rfl (List.Sublist.append_left ?_ _)
    show List.Sublist (if s.sender = s.sender then _ else _ : Flusher Tz).pending _
    rw [if_pos rfl, pending_of_phase hphase rfl, pending_retained, hkept]
    exact List.Sublist.append_right List.filter_sublist _
  | @persist k requests hphase =>
    obtain rfl := hl.pipeline.eq_sender (k := k) (by rw [hphase]; rfl)
    refine h.shrink rfl ?_
    show List.Sublist ((s.log ++ requests.map fun r => (⟨r, s.generation⟩ : LogRecord Tz)).map
      (·.request) ++ (if s.sender = s.sender then _ else _ : Flusher Tz).pending) _
    rw [if_pos rfl, pending_of_phase hphase rfl, List.map_append, List.append_assoc,
      map_request_records]
    exact List.Sublist.refl _
  | reject k hack hphase =>
    obtain rfl := hl.pipeline.eq_sender (k := k) (by rw [hphase]; rfl)
    refine h.shrink rfl (List.Sublist.append_left ?_ _)
    show List.Sublist (if s.sender = s.sender then _ else _ : Flusher Tz).pending _
    rw [if_pos rfl, pending_of_phase hphase rfl]
    exact List.sublist_append_right _ _
  | tellPersisted k hphase =>
    obtain rfl := hl.pipeline.eq_sender (k := k) (by rw [hphase]; rfl)
    refine h.shrink rfl (List.Sublist.append_left ?_ _)
    show List.Sublist (if s.sender = s.sender then _ else _ : Flusher Tz).pending _
    rw [if_pos rfl, pending_of_phase hphase rfl]
    exact List.Sublist.refl _
  | tellRejected k hphase =>
    obtain rfl := hl.pipeline.eq_sender (k := k) (by rw [hphase]; rfl)
    refine h.shrink rfl (List.Sublist.append_left ?_ _)
    show List.Sublist (if s.sender = s.sender then _ else _ : Flusher Tz).pending _
    rw [if_pos rfl, pending_of_phase hphase rfl]
    split_ifs
    · exact List.Sublist.refl _
    · exact List.nil_sublist _
  | stop k hphase =>
    exact h.shrink rfl ((pending_setFlusher_of_dead rfl).append_left _)
  | refuse k hphase hqueue =>
    exact h.shrink rfl ((pending_setFlusher_of_dead rfl).append_left _)
  | disconnect k hsender =>
    exact h.shrink rfl ((pending_setFlusher_of_dead rfl).append_left _)

/-! ### Replay -/

/-- The records of the current generation that may still be written. -/
def inFlight (s : System Tz) : List (DeltaCodec.Payload Tz) :=
  (s.writer.pending.filter fun r => decide (r.generation = s.generation)).map
    fun r => DeltaCodec.encode r.delta

variable (index snapshot earlier) in
/-- The log replays; a thread that has loaded it has what it replays to; and the authority that is
current is what the log and the deltas on their way replay to, but for the operations in
between. -/
structure Replays (s : System Tz) : Prop where
  log : ∃ state, replayJournal snapshot (earlier ++ s.payloads) = .ok state
  loaded : ∀ t g state, s.threads t = .loaded g state →
    replayJournal snapshot (earlier ++ s.payloads) = .ok state
  current : ∀ a, s.slot = .ready a s.generation → ¬ s.Dead →
    ∃ state, replayJournal snapshot (earlier ++ (s.payloads ++ s.inFlight)) = .ok state ∧
      Coherent index (s.authorities a) state

theorem replayJournal_of_append {first second : List (DeltaCodec.Payload Tz)}
    {state : ResourceState Tz} (h : replayJournal snapshot (first ++ second) = .ok state) :
    ∃ state, replayJournal snapshot first = .ok state := by
  unfold replayJournal replayDeltas at h ⊢
  rw [List.foldlM_append] at h
  cases hfirst : first.foldlM replayPayload
      (rebuildActiveHoldsFromReservations snapshot) with
  | ok state => exact ⟨state, rfl⟩
  | error e =>
    rw [hfirst] at h
    cases h

namespace Replays

variable (h : Replays index snapshot earlier s)
include h

/-- The log stays as it is; no thread comes to have loaded it. -/
theorem keep (hlog : s'.log = s.log)
    (hloaded : ∀ t g state, s'.threads t = .loaded g state → s.threads t = .loaded g state)
    (hcurrent : ∀ a, s'.slot = .ready a s'.generation → ¬ s'.Dead →
      ∃ state, replayJournal snapshot (earlier ++ (s'.payloads ++ s'.inFlight)) = .ok state ∧
        Coherent index (s'.authorities a) state) : Replays index snapshot earlier s' := by
  have hpayloads : s'.payloads = s.payloads := by
    unfold payloads
    rw [hlog]
  refine ⟨?_, ?_, hcurrent⟩
  · rw [hpayloads]
    exact h.log
  · intro t g state ht
    rw [hpayloads]
    exact h.loaded t g state (hloaded t g state ht)

omit h in
omit [Platform Tz] [DecidableEq Tz] [DeltaCodec Tz] in
theorem loaded_of_setThread {t : ℕ} {x : Thread Tz}
    (hthreads : s'.threads = fun u => if u = t then x else s.threads u)
    (hx : ∀ g state, x ≠ .loaded g state) :
    ∀ u g state, s'.threads u = .loaded g state → s.threads u = .loaded g state := by
  intro u g state hu
  rw [hthreads] at hu
  dsimp only at hu
  split_ifs at hu
  · exact absurd hu (hx g state)
  · exact hu

/-- The current authority is as it was, and so is what is on its way. -/
theorem same (hlog : s'.log = s.log)
    (hloaded : ∀ t g state, s'.threads t = .loaded g state → s.threads t = .loaded g state)
    (hcurrent : ∀ a, s'.slot = .ready a s'.generation → ¬ s'.Dead →
      s.slot = .ready a s.generation ∧ ¬ s.Dead ∧ s'.inFlight = s.inFlight ∧
        s'.authorities a = s.authorities a) : Replays index snapshot earlier s' := by
  refine h.keep hlog hloaded fun a hslot hdead => ?_
  obtain ⟨hslot', hdead', hflight, hauthority⟩ := hcurrent a hslot hdead
  have hpayloads : s'.payloads = s.payloads := by
    unfold payloads
    rw [hlog]
  rw [hpayloads, hflight, hauthority]
  exact h.current a hslot' hdead'

theorem move {t : ℕ} {x : Thread Tz}
    (hlog : s'.log = s.log) (hthreads : s'.threads = fun u => if u = t then x else s.threads u)
    (hx : ∀ g state, x ≠ .loaded g state)
    (hcurrent : ∀ a, s'.slot = .ready a s'.generation → ¬ s'.Dead →
      s.slot = .ready a s.generation ∧ ¬ s.Dead ∧ s'.inFlight = s.inFlight ∧
        s'.authorities a = s.authorities a) : Replays index snapshot earlier s' :=
  h.same hlog (loaded_of_setThread hthreads hx) hcurrent

/-- The writer goes on and keeps what is on its way. -/
theorem flush {f : Flusher Tz} (hlive : s.writer.phase.dead = false) (hlog : s'.log = s.log)
    (hthreads : s'.threads = s.threads) (hslot : s'.slot = s.slot)
    (hgeneration : s'.generation = s.generation) (hauthorities : s'.authorities = s.authorities)
    (hwriter : s'.writer = f)
    (hpending : f.phase.dead = false →
      f.pending.filter (fun r => decide (r.generation = s.generation)) =
        s.writer.pending.filter fun r => decide (r.generation = s.generation)) :
    Replays index snapshot earlier s' := by
  refine h.same hlog (fun t g state ht => hthreads ▸ ht) fun a hready hdead => ?_
  refine ⟨by rw [← hslot, ← hgeneration, hready], ?_, ?_, by rw [hauthorities]⟩
  · rw [Dead, hlive]
    exact Bool.false_ne_true
  · unfold inFlight
    rw [hwriter, hgeneration, hpending]
    rw [Dead, hwriter] at hdead
    exact Bool.eq_false_iff.mpr hdead

theorem drop {k : ℕ} {f : Flusher Tz}
    (hdead : f.phase.dead = true) (hlog : s'.log = s.log) (hthreads : s'.threads = s.threads)
    (hslot : s'.slot = s.slot) (hgeneration : s'.generation = s.generation)
    (hauthorities : s'.authorities = s.authorities)
    (hwriter : s'.writer = if s.sender = k then f else s.writer) :
    Replays index snapshot earlier s' := by
  refine h.same hlog (fun t g state ht => hthreads ▸ ht) fun a hready hlive => ?_
  rw [Dead, hwriter] at hlive
  by_cases hk : s.sender = k
  · rw [if_pos hk] at hlive
    exact absurd hdead hlive
  · rw [if_neg hk] at hlive
    refine ⟨by rw [← hslot, ← hgeneration, hready], hlive, ?_, by rw [hauthorities]⟩
    unfold inFlight
    rw [hwriter, if_neg hk, hgeneration]

/-- An operation of a thread that has free locks and sets finite thresholds only. -/
theorem operate {t a : ℕ} {call : Call Tz} {now : ℤ} (hfinite : call.isFinite = true)
    (hfree : ∀ p ∈ (s.authorities a).applied, p.footprint.conflicts index
      (call.footprint (s.authorities a).memory.reservations) = false) :
    Replays index snapshot earlier (s.operateAuthority index t a call now) := by
  have hapart : ∀ p ∈ (s.authorities a).applied, p.footprint.Apart
      (call.footprint (s.authorities a).memory.reservations) :=
    fun p hp => Footprint.apart_of_not_conflicts (hfree p hp)
  unfold operateAuthority
  dsimp only
  cases (s.authorities a).memory.operate_commits index call now with
  | silent hdelta hstate =>
    rw [hdelta]
    refine h.keep rfl (loaded_of_setThread rfl fun _ _ he => ?_) fun b hslot hdead => ?_
    · split at he <;> cases he
    · obtain ⟨state, hreplay, hcoherent⟩ := h.current b hslot hdead
      refine ⟨state, hreplay, ?_⟩
      show Coherent index (if b = a then _ else s.authorities b) state
      split_ifs with hb
      · subst hb
        exact hcoherent.silent hstate
      · exact hcoherent
  | writes delta w hdelta hwithin hstate hreplays =>
    rw [hdelta]
    refine h.keep rfl (loaded_of_setThread rfl fun _ _ he => by cases he) fun b hslot hdead => ?_
    obtain ⟨state, hreplay, hcoherent⟩ := h.current b hslot hdead
    refine ⟨state, hreplay, ?_⟩
    show Coherent index (if b = a then _ else s.authorities b) state
    split_ifs with hb
    · subst hb
      have hdecoded := replayPayload_encode (hfinite ▸ ResourceAuthority.operate_isFinite hdelta)
      exact hcoherent.writes (p := ⟨t, _, delta⟩) hapart hwithin hstate fun u hu =>
        (hdecoded u).trans (hreplays u hu)
    · exact hcoherent

theorem send (hl : Lifecycle s) (ho : Owned s) {t a g : ℕ}
    {delta : ResourceGovernorDelta Tz} (hthread : s.threads t = .sending a delta g)
    {r : DeltaJournalRequest Tz} (hdelta : r.delta = delta) (hgen : r.generation = g)
    (hlog : s'.log = s.log) (hthreads : s'.threads = fun u => if u = t then .waiting r else s.threads u)
    (hslot : s'.slot = s.slot) (hgeneration : s'.generation = s.generation)
    (hauthorities : s'.authorities = (s.release a t).authorities)
    (hwriter : s'.writer = { s.writer with queue := s.writer.queue ++ [r] }) :
    Replays index snapshot earlier s' := by
  refine h.keep hlog (loaded_of_setThread hthreads fun _ _ he => by cases he) ?_
  intro b hready hdead
  obtain ⟨_, hslot', _, _⟩ := hl.relies hthread
  rw [hslot, hslot', hgeneration] at hready
  injection hready with hb hg
  subst hb hg
  have hlive : s.writer.phase.dead = false := by
    rw [Dead, hwriter] at hdead
    exact Bool.eq_false_iff.mpr hdead
  have hdead' : ¬ s.Dead := by
    rw [Dead, hlive]
    exact Bool.false_ne_true
  obtain ⟨p, hp, hpt, hpd⟩ := (ho.2 a t delta).mpr (by rw [hthread]; rfl)
  obtain ⟨state, hreplay, hcoherent⟩ := h.current a hslot' hdead'
  obtain ⟨state', happly, hcoherent'⟩ := hcoherent.handOver (ho.1 a) hp
  refine ⟨state', ?_, ?_⟩
  · have hpayloads : s'.payloads = s.payloads := by
      unfold payloads
      rw [hlog]
    have hflight : s'.inFlight = s.inFlight ++ [DeltaCodec.encode delta] := by
      unfold inFlight
      rw [hwriter, pending_sent, hlive, hgeneration, if_neg Bool.false_ne_true, List.filter_append,
        List.map_append]
      simp [hgen, hdelta]
    rw [hpayloads, hflight, ← hpd, ← List.append_assoc, ← List.append_assoc]
    rw [← List.append_assoc] at hreplay
    exact replayDeltas_append_singleton hreplay happly
  · rw [hauthorities]
    show Coherent index (if a = a then _ else _) state'
    rw [if_pos rfl, ← hpt]
    exact hcoherent'

/-- A loaded authority is what the log replays to, and nothing is on its way. -/
theorem install (hl : Lifecycle s) {t g : ℕ}
    {state : ResourceState Tz} (hthread : s.threads t = .loaded g state) (hlog : s'.log = s.log)
    (hthreads : s'.threads = fun u => if u = t then .fetched s.nextAuthority else s.threads u)
    (hslot : s'.slot = .ready s.nextAuthority g) (hgeneration : s'.generation = s.generation)
    (hwriter : s'.writer = s.writer)
    (hauthority : s'.authorities s.nextAuthority = ⟨.fromState index state, []⟩) :
    Replays index snapshot earlier s' := by
  refine h.keep hlog (loaded_of_setThread hthreads fun _ _ he => by cases he) ?_
  intro a hready _
  have ha : s.nextAuthority = a := by
    rw [hslot] at hready
    injection hready
  have hnone : s'.inFlight = [] := by
    unfold inFlight
    rw [hwriter, hgeneration, List.map_eq_nil_iff, List.filter_eq_nil_iff]
    intro r hr
    rw [decide_eq_true_eq]
    refine hl.pipeline.no_current (fun b g' hvacant => ?_) r hr
    rw [(hl.relies hthread).2.1] at hvacant
    cases hvacant
  have hpayloads : s'.payloads = s.payloads := by
    unfold payloads
    rw [hlog]
  refine ⟨state, ?_, ?_⟩
  · rw [hnone, hpayloads, List.append_nil]
    exact h.loaded t g state hthread
  · rw [← ha, hauthority]
    exact .of_fromState index state

theorem persist (hl : Lifecycle s) {requests : List (DeltaJournalRequest Tz)}
    (hphase : (s.flushers s.sender).phase = .persisting requests) :
    Replays index snapshot earlier
      { s.setFlusher s.sender ⟨(s.flushers s.sender).queue, .persisted requests⟩ with
        log := s.log ++ requests.map (⟨·, s.generation⟩) } := by
  have hlive : ¬ s.Dead := by
    rw [Dead, writer, hphase]
    exact Bool.false_ne_true
  have hpending := pending_of_phase hphase rfl
  have hgen := hl.settled requests hphase
  have hslot : ∀ r ∈ requests, s.slot = .ready r.authority s.generation := by
    intro r hr
    have hmem : r ∈ s.writer.pending := by
      rw [hpending]
      exact List.mem_append_left _ hr
    rw [hl.pipeline.current r hmem (hgen r hr), hgen r hr]
  have hpayloads : (s.log ++ requests.map fun r => (⟨r, s.generation⟩ : LogRecord Tz)).map
      (fun e => DeltaCodec.encode e.request.delta) =
        s.payloads ++ requests.map fun r => DeltaCodec.encode r.delta := by
    rw [List.map_append, List.map_map]
    rfl
  have hflight : s.inFlight = (requests.map fun r => DeltaCodec.encode r.delta) ++
      ((s.flushers s.sender).queue.filter fun r => decide (r.generation = s.generation)).map
        fun r => DeltaCodec.encode r.delta := by
    unfold inFlight
    rw [hpending, List.filter_append, List.map_append]
    congr 2
    exact List.filter_eq_self.mpr fun r hr => decide_eq_true (hgen r hr)
  refine ⟨?_, ?_, ?_⟩
  · show ∃ state, replayJournal snapshot (earlier ++ List.map _ _) = _
    rw [hpayloads]
    cases requests with
    | nil => simpa using h.log
    | cons r rest =>
      obtain ⟨state, hreplay, _⟩ := h.current _ (hslot r List.mem_cons_self) hlive
      rw [hflight, ← List.append_assoc, ← List.append_assoc] at hreplay
      rw [← List.append_assoc]
      exact replayJournal_of_append hreplay
  · intro t g state ht
    show replayJournal snapshot (earlier ++ List.map _ _) = _
    rw [hpayloads]
    cases requests with
    | nil => simpa using h.loaded t g state ht
    | cons r rest =>
      have hvacant := (hl.relies ht).2.1
      rw [hslot r List.mem_cons_self] at hvacant
      cases hvacant
  · intro a hready _
    obtain ⟨state, hreplay, hcoherent⟩ := h.current a hready hlive
    refine ⟨state, ?_, hcoherent⟩
    show replayJournal snapshot (earlier ++ (List.map _ _ ++ System.inFlight _)) = _
    rw [hpayloads, List.append_assoc]
    rw [hflight] at hreplay
    refine Eq.trans ?_ hreplay
    congr 4
    show List.map _ (List.filter _ (if s.sender = s.sender then _ else _ : Flusher Tz).pending) = _
    rw [if_pos rfl]
    rfl

omit h

end Replays

omit [Platform Tz] [DecidableEq Tz] [DeltaCodec Tz] in
theorem Continues.not_loaded {x y : Thread Tz} (hc : Continues s x y) :
    ∀ g state, y ≠ .loaded g state := by
  intro g state he
  subst he
  cases hc

theorem Replays.step (h : Replays index snapshot earlier s) (hl : Lifecycle s) (ho : Owned s)
    (hstep : Step index snapshot earlier (fun call => call.isFinite = true) s s') :
    Replays index snapshot earlier s' := by
  cases hstep with
  | continues t hc =>
    exact h.move rfl rfl hc.not_loaded fun a hslot hdead => ⟨hslot, hdead, rfl, rfl⟩
  | load t hthread hslot hlock =>
    exact h.move rfl rfl (fun _ _ he => by cases he)
      fun a hslot hdead => ⟨hslot, hdead, rfl, rfl⟩
  | replayed t hthread hreplay =>
    refine ⟨h.log, fun u g state hu => ?_, h.current⟩
    replace hu : (if u = t then _ else s.threads u) = .loaded g state := hu
    split_ifs at hu
    · cases hu
      exact hreplay
    · exact h.loaded u g state hu
  | unreadable t hthread =>
    exact h.move rfl rfl (fun _ _ he => by cases he)
      fun a hslot hdead => ⟨hslot, hdead, rfl, rfl⟩
  | install t hthread => exact h.install hl hthread rfl rfl rfl rfl rfl (if_pos rfl)
  | operated t hthread hfinite hfree => exact h.operate hfinite hfree
  | @refused t a delta hthread hwhy =>
    refine h.move rfl rfl (fun _ _ he => by cases he) fun b hslot hdead => ?_
    refine ⟨hslot, hdead, rfl, if_neg ?_⟩
    rintro rfl
    rcases hwhy with hother | hpoison
    · exact hother _ hslot
    · exact hdead ((hl.pipeline.poisoned _ hpoison).2 _ hslot)
  | diverged t hthread hlock hslot hgen =>
    exact h.move rfl rfl (fun _ _ he => by cases he) (fun b hready => by cases hready)
  | sending t hthread hlock hslot hpoison =>
    exact h.move rfl rfl (fun _ _ he => by cases he)
      fun a hslot hdead => ⟨hslot, hdead, rfl, rfl⟩
  | unsent t hthread hstopped =>
    refine h.move rfl rfl (fun _ _ he => by cases he) fun b hslot hdead => absurd ?_ hdead
    show (s.flushers s.sender).phase.dead = true
    rw [hstopped]
    rfl
  | sent t hthread => exact h.send hl ho hthread rfl rfl rfl rfl rfl rfl rfl (if_pos rfl)
  | discard t hthread hlock hslot =>
    exact h.move rfl rfl (fun _ _ he => by cases he) (fun b hready => by cases hready)
  | poison t hthread =>
    exact h.move rfl rfl (fun _ _ he => by cases he)
      fun a hslot hdead => ⟨hslot, hdead, rfl, rfl⟩
  | invalidate t hthread hlock hslot =>
    exact h.move rfl rfl (fun _ _ he => by cases he) (fun b hready => by cases hready)
  | retire t hthread =>
    exact h.move rfl rfl (fun _ _ he => by cases he)
      fun b hslot hdead => absurd (hl.relies hthread).2.2.2 hdead
  | spawn t hasRuntime hthread =>
    refine h.move rfl rfl (fun _ _ he => by cases he) fun b hslot hdead => ?_
    have hrecovering := (hl.relies hthread).2.2.1
    rw [show s.slot = _ from hslot] at hrecovering
    cases hrecovering
  | @finish t a replaced hthread hlock =>
    refine h.move rfl rfl (fun _ _ he => by cases he) fun b hslot hdead => ?_
    cases replaced with
    | true => cases hslot
    | false => exact absurd ((hl.relies hthread).2.2.2 rfl) hdead
  | receiveFirst k hphase hqueue =>
    obtain rfl := hl.pipeline.eq_sender (k := k) (by rw [hphase]; rfl)
    refine h.flush (by rw [writer, hphase]; rfl) rfl rfl rfl rfl rfl (if_pos rfl) fun _ => ?_
    rw [pending_of_phase hphase rfl, hqueue]
    rfl
  | @receiveMore k r requests queue hphase hqueue =>
    obtain rfl := hl.pipeline.eq_sender (k := k) (by rw [hphase]; rfl)
    refine h.flush (by rw [writer, hphase]; rfl) rfl rfl rfl rfl rfl (if_pos rfl) fun _ => ?_
    rw [pending_of_phase hphase rfl, hqueue]
    show List.filter _ ((requests ++ [r]) ++ queue) = List.filter _ (requests ++ r :: queue)
    rw [List.append_assoc]
    rfl
  | @retain k requests kept hphase hkept =>
    obtain rfl := hl.pipeline.eq_sender (k := k) (by rw [hphase]; rfl)
    refine h.flush (by rw [writer, hphase]; rfl) rfl rfl rfl rfl rfl (if_pos rfl) fun _ => ?_
    rw [pending_of_phase hphase rfl, pending_retained, hkept, List.filter_append,
      List.filter_append, List.filter_filter]
    simp [Phase.unwritten]
  | @persist k requests hphase =>
    obtain rfl := hl.pipeline.eq_sender (k := k) (by rw [hphase]; rfl)
    exact h.persist hl hphase
  | @reject k requests ack hack hphase =>
    refine h.same rfl (fun _ _ _ ht => ht) fun a hslot _ => ?_
    have hle := (hl.pipeline.slot a _ hslot).2.1
    exact absurd hle (Nat.not_succ_le_self _)
  | tellPersisted k hphase =>
    obtain rfl := hl.pipeline.eq_sender (k := k) (by rw [hphase]; rfl)
    refine h.flush (by rw [writer, hphase]; rfl) rfl rfl rfl rfl rfl (if_pos rfl) fun _ => ?_
    rw [pending_of_phase hphase rfl]
    rfl
  | @tellRejected k requests ack hphase =>
    obtain rfl := hl.pipeline.eq_sender (k := k) (by rw [hphase]; rfl)
    refine h.flush (by rw [writer, hphase]; rfl) rfl rfl rfl rfl rfl (if_pos rfl) fun hlive => ?_
    rw [pending_of_phase hphase rfl]
    split_ifs at hlive ⊢ with hack
    · rfl
    · exact Bool.noConfusion hlive
  | stop k hphase => exact h.drop rfl rfl rfl rfl rfl rfl rfl
  | refuse k hphase hqueue => exact h.drop rfl rfl rfl rfl rfl rfl rfl
  | disconnect k hsender => exact h.drop rfl rfl rfl rfl rfl rfl rfl

/-- The invariant of every run. -/
structure Sound (s : System Tz) : Prop where
  lifecycle : Lifecycle s
  owned : Owned s
  once : Once s

theorem Sound.step (h : Sound s) (hstep : Step index snapshot earlier allowed s s') : Sound s' :=
  ⟨h.lifecycle.step hstep, h.owned.step h.lifecycle hstep, h.once.step h.lifecycle hstep⟩

theorem Sound.run (actions : List (Action Tz)) : ∀ {s : System Tz}, Sound s →
    s.run index snapshot earlier actions = some s' → Sound s' := by
  induction actions with
  | nil =>
    intro s h hrun
    cases hrun
    exact h
  | cons action actions ih =>
    intro s h hrun
    unfold System.run at hrun
    rw [List.foldlM_cons] at hrun
    obtain ⟨s₁, hnext, hrun⟩ := Option.bind_eq_some_iff.mp hrun
    have hstep := next_step hnext fun _ _ => trivial
    exact ih (h.step hstep) hrun

theorem Replays.run (actions : List (Action Tz)) : ∀ {s : System Tz}, Sound s →
    Replays index snapshot earlier s →
    (∀ action ∈ actions, ∀ call ∈ action.call, call.isFinite = true) →
    s.run index snapshot earlier actions = some s' → Replays index snapshot earlier s' := by
  induction actions with
  | nil =>
    intro s _ h _ hrun
    cases hrun
    exact h
  | cons action actions ih =>
    intro s hsound h hfinite hrun
    rw [List.forall_mem_cons] at hfinite
    unfold System.run at hrun
    rw [List.foldlM_cons] at hrun
    obtain ⟨s₁, hnext, hrun⟩ := Option.bind_eq_some_iff.mp hrun
    have hstep := next_step hnext hfinite.1
    exact ih (hsound.step hstep) (h.step hsound.lifecycle hsound.owned hstep) hfinite.2 hrun

omit [Platform Tz] [DecidableEq Tz] [DeltaCodec Tz] in
theorem sound_initial (started hasRuntime : Bool) : Sound (initial started hasRuntime : System Tz) where
  lifecycle := lifecycle_initial started hasRuntime
  owned := by
    refine ⟨fun _ => List.Pairwise.nil, fun a t delta => ⟨?_, fun h => by cases h⟩⟩
    rintro ⟨p, hp, _⟩
    exact absurd hp List.not_mem_nil
  once := by
    refine ⟨?_, fun t u r ht => by cases ht⟩
    rw [pending_initial]
    exact List.nodup_nil

theorem replays_initial {state : ResourceState Tz}
    (hload : replayJournal snapshot earlier = .ok state) (started hasRuntime : Bool) :
    Replays index snapshot earlier (initial started hasRuntime) := by
  have hlog : replayJournal snapshot (earlier ++ (initial started hasRuntime).payloads) =
      .ok state := by
    rw [show (initial started hasRuntime : System Tz).payloads = [] from rfl, List.append_nil]
    exact hload
  exact ⟨⟨state, hlog⟩, fun t g state ht => (by cases ht), fun a hslot => (by cases hslot)⟩

end Steps

end System

end Ironclaw.Resources

import Mathlib.Data.List.Pairwise
import Ironclaw.Resources.DeltaLog

/-! # Operations that have not been handed to the journal yet

An operation changes the shards it has locked and hands its delta to the journal afterwards, still
under its locks, while operations on other shards run. `AuthorityObject` is an authority with the
operations that are in between (`Applied`).

`Coherent index object s` says that `s` is the authority without these operations: each of them
would make on `s`, when its record is replayed, the write it made in memory. It survives an operation that takes free locks
(`Coherent.operate`), and handing the delta of one operation over (`Coherent.handOver`): the order
of the deltas in the log is the order of the hand-over, not of the writes in memory. -/

namespace Ironclaw.Resources

variable {Tz : Type}

/-- The shards or the reservations are wanted by both. -/
def Footprint.conflicts (index : ShardIndex) (f g : Footprint) : Bool :=
  f.accounts.any (fun a => g.accounts.any fun b => decide (index a = index b)) ||
    (f.reservations && g.reservations)

/-- An operation that has changed the authority, holds its locks and has not handed its delta to
the journal. -/
structure Applied (Tz : Type) where
  thread : ℕ
  footprint : Footprint
  delta : ResourceGovernorDelta Tz

/-- An authority in memory and the operations that are in between. -/
structure AuthorityObject (Tz : Type) where
  memory : ResourceAuthority Tz
  applied : List (Applied Tz)

/-- Footprints without an account in common, and not both with the reservations. -/
structure Footprint.Apart (f g : Footprint) : Prop where
  account : ∀ a ∈ f.accounts, a ∉ g.accounts
  reservations : f.reservations = true → g.reservations = false

theorem Footprint.Apart.symm {f g : Footprint} (h : f.Apart g) : g.Apart f where
  account := fun a hg hf => h.account a hf hg
  reservations := by
    intro hg
    cases hf : f.reservations with
    | false => rfl
    | true => simp [h.reservations hf] at hg

theorem Footprint.apart_of_not_conflicts {index : ShardIndex} {f g : Footprint}
    (h : f.conflicts index g = false) : f.Apart g := by
  unfold conflicts at h
  rw [Bool.or_eq_false_iff] at h
  refine ⟨fun a hf hg => ?_, fun hf => ?_⟩
  · have hany : f.accounts.any (fun a => g.accounts.any fun b => decide (index a = index b)) =
        true := by
      rw [List.any_eq_true]
      exact ⟨a, hf, List.any_eq_true.mpr ⟨a, hg, decide_eq_true rfl⟩⟩
    rw [h.1] at hany
    exact Bool.noConfusion hany
  · rw [hf, Bool.true_and] at h
    exact h.2

section Agreement

variable {f g : Footprint} {s t u : ResourceState Tz}

theorem AgreesOn.symm (h : AgreesOn f s t) : AgreesOn f t s :=
  ⟨fun a ha => (h.account a ha).symm, fun hr => (h.reservations hr).symm⟩

theorem AgreesOn.trans (h : AgreesOn f s t) (h' : AgreesOn f t u) : AgreesOn f s u :=
  ⟨fun a ha => (h.account a ha).trans (h'.account a ha),
    fun hr => (h.reservations hr).trans (h'.reservations hr)⟩

/-- A change outside `f` is not seen by an operation apart from it. -/
theorem AgreesOff.agreesOn (h : AgreesOff f s t) (hfg : f.Apart g) : AgreesOn g s t where
  account := fun a ha => h.account a fun hf => hfg.account a hf ha
  reservations := fun hg => h.reservations (hfg.symm.reservations hg)

end Agreement

variable [Platform Tz] [DecidableEq Tz] [DeltaCodec Tz]

/-- `s` is the authority without the operations that have not handed their delta over. -/
structure Coherent (index : ShardIndex) (object : AuthorityObject Tz) (s : ResourceState Tz) :
    Prop where
  applied : ∀ p ∈ object.applied, ∃ w : Write Tz, w.Within p.footprint ∧
    (∀ t, AgreesOn p.footprint t s → replayPayload t (DeltaCodec.encode p.delta) = .ok (t.write w)) ∧
    AgreesOn p.footprint (s.write w) (object.memory.toState index)
  account : ∀ a, (∀ p ∈ object.applied, a ∉ p.footprint.accounts) →
    s.account a = (object.memory.toState index).account a
  reservations : (∀ p ∈ object.applied, p.footprint.reservations = false) →
    s.reservations = (object.memory.toState index).reservations

omit [Platform Tz] [DecidableEq Tz] [DeltaCodec Tz] in
/-- Operations of different threads that lock different things. -/
structure Applied.Apart (p q : Applied Tz) : Prop where
  thread : p.thread ≠ q.thread
  footprint : p.footprint.Apart q.footprint

instance : Std.Symm (@Applied.Apart Tz) where
  symm := fun _ _ h => ⟨h.thread.symm, h.footprint.symm⟩

omit [Platform Tz] [DecidableEq Tz] [DeltaCodec Tz] in
/-- The operations in between lock different things. -/
def AuthorityObject.Exclusive (object : AuthorityObject Tz) : Prop :=
  object.applied.Pairwise Applied.Apart

namespace Coherent

variable {index : ShardIndex} {object : AuthorityObject Tz} {s : ResourceState Tz}

theorem of_fromState (index : ShardIndex) (s : ResourceState Tz) :
    Coherent index ⟨.fromState index s, []⟩ s where
  applied := fun p hp => absurd hp List.not_mem_nil
  account := fun a _ => by rw [ResourceAuthority.toState_fromState]
  reservations := fun _ => by rw [ResourceAuthority.toState_fromState]

variable (h : Coherent index object s)
include h

/-- Free locks: the authority without the operations in between looks there as in memory. -/
theorem agreesOn_of_apart {f : Footprint} (hf : ∀ p ∈ object.applied, p.footprint.Apart f) :
    AgreesOn f s (object.memory.toState index) where
  account := fun a ha => h.account a fun p hp hpa => (hf p hp).account a hpa ha
  reservations := fun hr => h.reservations fun p hp => (hf p hp).symm.reservations hr

theorem silent {memory : ResourceAuthority Tz}
    (hstate : memory.toState index = object.memory.toState index) :
    Coherent index { object with memory := memory } s where
  applied := by
    rw [hstate]
    exact h.applied
  account := by
    rw [hstate]
    exact h.account
  reservations := by
    rw [hstate]
    exact h.reservations

/-- An operation that takes free locks and writes. -/
theorem writes {memory : ResourceAuthority Tz} {p : Applied Tz}
    (hfree : ∀ q ∈ object.applied, q.footprint.Apart p.footprint) {w : Write Tz}
    (hwithin : w.Within p.footprint)
    (hstate : memory.toState index = (object.memory.toState index).write w)
    (hreplay : ∀ t, AgreesOn p.footprint t (object.memory.toState index) →
      replayPayload t (DeltaCodec.encode p.delta) = .ok (t.write w)) :
    Coherent index { object with memory := memory, applied := p :: object.applied } s where
  applied := by
    have hoff := hwithin.agreesOff (object.memory.toState index)
    have hs := h.agreesOn_of_apart hfree
    intro q hq
    rw [hstate]
    rcases List.mem_cons.mp hq with rfl | hq
    · exact ⟨w, hwithin, fun t ht => hreplay t (ht.trans hs), hs.write w⟩
    · obtain ⟨v, hv, hreplay', hmem⟩ := h.applied q hq
      exact ⟨v, hv, hreplay', hmem.trans (hoff.agreesOn (hfree q hq).symm).symm⟩
  account := by
    intro a ha
    rw [List.forall_mem_cons] at ha
    rw [hstate, h.account a ha.2]
    exact ((hwithin.agreesOff _).account a ha.1).symm
  reservations := by
    intro hr
    rw [List.forall_mem_cons] at hr
    rw [hstate, h.reservations hr.2]
    exact ((hwithin.agreesOff _).reservations hr.1).symm

/-- The hand-over of a delta: its record replays on `s`, and the result is the authority without the
remaining operations. -/
theorem handOver (hex : object.Exclusive) {p : Applied Tz} (hp : p ∈ object.applied) :
    ∃ s', replayPayload s (DeltaCodec.encode p.delta) = .ok s' ∧
      Coherent index
        { object with applied := object.applied.filter fun q => decide (q.thread ≠ p.thread) }
        s' := by
  obtain ⟨w, hwithin, hreplay, hmem⟩ := h.applied p hp
  have hoff := hwithin.agreesOff s
  have happart : ∀ q ∈ object.applied, q = p ∨ p.Apart q := by
    intro q hq
    by_cases hpq : p = q
    · exact .inl hpq.symm
    · exact .inr (List.Pairwise.forall hex hp hq hpq)
  -- what is left locks nothing of `p`
  have hrest : ∀ q ∈ object.applied.filter (fun q => decide (q.thread ≠ p.thread)),
      q ∈ object.applied ∧ p.Apart q := by
    intro q hq
    rw [List.mem_filter, decide_eq_true_eq] at hq
    rcases happart q hq.1 with rfl | hapart
    · exact absurd rfl hq.2
    · exact ⟨hq.1, hapart⟩
  have hkept : ∀ q ∈ object.applied, p.Apart q →
      q ∈ object.applied.filter (fun q => decide (q.thread ≠ p.thread)) := by
    intro q hq hapart
    rw [List.mem_filter, decide_eq_true_eq]
    exact ⟨hq, hapart.thread.symm⟩
  refine ⟨s.write w, hreplay s (.refl _ s), ?_, ?_, ?_⟩
  · intro q hq
    obtain ⟨hq, hapart⟩ := hrest q hq
    obtain ⟨v, hv, hreplay', hmem'⟩ := h.applied q hq
    have hsame : AgreesOn q.footprint (s.write w) s := hoff.agreesOn hapart.footprint
    exact ⟨v, hv, fun t ht => hreplay' t (ht.trans hsame), (hsame.write v).trans hmem'⟩
  · intro a ha
    by_cases hpa : a ∈ p.footprint.accounts
    · exact hmem.account a hpa
    · refine (hoff.account a hpa).trans (h.account a fun q hq => ?_)
      rcases happart q hq with rfl | hapart
      · exact hpa
      · exact ha q (hkept q hq hapart)
  · intro hr
    cases hpr : p.footprint.reservations with
    | true => exact hmem.reservations hpr
    | false =>
      refine (hoff.reservations hpr).trans (h.reservations fun q hq => ?_)
      rcases happart q hq with rfl | hapart
      · exact hpr
      · exact hr q (hkept q hq hapart)

omit h

end Coherent

end Ironclaw.Resources

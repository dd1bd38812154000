import Ironclaw.Lib.Run
import Ironclaw.Triggers.Cadence

/-! # One run per scheduled slot

Runs of the libSQL repository, seen from one trigger that was created at some instant
(`Created`) and is left to the repository from then on (`Permitted`). `Ordered` is the invariant of
the accepted slots, `OnceOnly` that of a once trigger; both are preserved by every transition of the
cadence. -/

namespace Ironclaw.Triggers.LibSql

/-! ### What a run shows of a trigger -/

/-- The fire in flight, as the active columns and the history say it. -/
def inFlight (s : Store) (key : TriggerKey) : Option Fire :=
  (s.records.get key).bind fun row =>
    row.activeFireSlot.map fun slot => ⟨slot, fireSource s key slot, row.activeRunRef⟩

theorem Holds.inFlight_eq {s : Store} {key : TriggerKey} {row : TriggerRecord} {fire : Option Fire}
    (h : Holds s key row fire) : inFlight s key = fire := by
  rw [inFlight, h.record, Option.bind_some]
  cases hslot : row.activeFireSlot with
  | none => rw [h.fire_eq_none hslot, Option.map_none]
  | some slot =>
    obtain ⟨source, rfl, hsource⟩ := h.exists_fire hslot
    rw [Option.map_some, hsource]

/-- A fire of the schedule gets its run. -/
def newlyBound : Option Fire → Option Fire → Option (Timestamp × TurnRunId)
  | some ⟨_, .schedule, none⟩, some ⟨slot, .schedule, some run⟩ => some (slot, run)
  | _, _ => none

@[simp] theorem newlyBound_self (fire : Option Fire) : newlyBound fire fire = none := by
  match fire with
  | none => rfl
  | some ⟨_, .schedule, none⟩ => rfl
  | some ⟨_, .schedule, some _⟩ => rfl
  | some ⟨_, .manual, _⟩ => rfl

@[simp] theorem newlyBound_none_left (fire : Option Fire) : newlyBound none fire = none := rfl

@[simp] theorem newlyBound_none_right (fire : Option Fire) : newlyBound fire none = none := by
  match fire with
  | none => rfl
  | some ⟨_, .schedule, none⟩ => rfl
  | some ⟨_, .schedule, some _⟩ => rfl
  | some ⟨_, .manual, _⟩ => rfl

/-- The scheduled fire that a step accepts or replays, with its run. -/
def acceptedFire (key : TriggerKey) (x : Step Store Call) : Option (Timestamp × TurnRunId) :=
  newlyBound (inFlight x.pre key) (inFlight x.post key)

/-- The clock that a call reads: a claim carries the reading of the poller. -/
def clock (c : Call) : Timestamp :=
  match c.request with
  | .claimDueFire request => request.now
  | .claimManualFire request => request.now
  | _ => c.wall

/-- A trigger as `trigger_create` leaves it: at its first slot after its creation, with no fire in
flight. -/
structure Created (crates : CronCrates) (s : Store) (key : TriggerKey) (row : TriggerRecord) :
    Prop where
  record : s.records.get key = some row
  slot : row.activeFireSlot = none
  run : row.activeRunRef = none
  running : runningRows s key = []
  position : row.schedule.slotAfter crates row.createdAt = some row.nextRunAt

theorem Created.holds {crates : CronCrates} {s : Store} {key : TriggerKey} {row : TriggerRecord}
    (h : Created crates s key row) : Holds s key row none where
  record := h.record
  slot := h.slot
  run := h.run
  running := by rw [h.running]; rfl

/-- The clocks of a run do not go back, from the creation of the trigger on. -/
def Forward (created : Timestamp) (history : List (Step Store Call)) : Prop :=
  (created :: history.map fun x => clock x.command).Pairwise (· ≤ ·)

instance (created : Timestamp) (history : List (Step Store Call)) :
    Decidable (Forward created history) :=
  inferInstanceAs (Decidable (List.Pairwise _ _))

/-- The last reading of a run. -/
def lastClock (created : Timestamp) (history : List (Step Store Call)) : Timestamp :=
  (history.map fun x => clock x.command).getLastD created

theorem lastClock_append (created : Timestamp) (history : List (Step Store Call))
    (x : Step Store Call) : lastClock created (history ++ [x]) = clock x.command := by
  simp [lastClock]

theorem Forward.of_append {created : Timestamp} {history : List (Step Store Call)}
    {x : Step Store Call} (h : Forward created (history ++ [x])) :
    Forward created history ∧ lastClock created history ≤ clock x.command := by
  rw [Forward, List.map_append, ← List.cons_append, List.pairwise_append] at h
  exact ⟨h.1, h.2.2 _ List.getLastD_mem_cons _ List.mem_cons_self⟩

/-! ### Facts about one transition -/

section Transition

variable {crates : CronCrates} {key : TriggerKey} {c : Call} {t t' : Cadence}

theorem Does.schedule_eq (h : Does crates key c t t') : t'.schedule = t.schedule := by
  cases h <;> rfl

theorem Does.run_kept (h : Does crates key c t t') {slot : Timestamp} {source : TriggerSourceKind}
    {run : TurnRunId} (hfire : t.fire = some ⟨slot, source, some run⟩) :
    t'.fire = t.fire ∨ t'.fire = none := by
  cases h with
  | stays | paused | kept | resumed => exact .inl rfl
  | claimedDue _ _ _ _ _ hfree => exact absurd (hfree.symm.trans hfire) nofun
  | claimedManual _ _ _ hfree => exact absurd (hfree.symm.trans hfire) nofun
  | accepted _ _ hfire' => exact absurd (hfire'.symm.trans hfire) (by simp)
  | retried | rescheduled | ended | cleared => exact .inr rfl

/-! ### The order of the accepted slots -/

/-- The trigger waits for the end of the run of its last slot. -/
def Held (crates : CronCrates) (t : Cadence) (slot : Timestamp) : Prop :=
  (∃ run, t.fire = some ⟨slot, .schedule, some run⟩) ∧ t.schedule.slotAfter crates slot = none

/-- What holds of the accepted slots at an instant. -/
structure Ordered (crates : CronCrates) (accepted : List Timestamp) (t : Cadence)
    (now : Timestamp) : Prop where
  increasing : accepted.Pairwise (· < ·)
  elapsed : ∀ a ∈ accepted, a ≤ now
  /-- An open trigger has left every accepted slot behind, or waits for the run of it. -/
  ahead : t.state ≠ .completed → ∀ a ∈ accepted, a < t.nextRunAt ∨ Held crates t a
  /-- A fire that waits for its result is later than all of them. -/
  later : ∀ slot, t.fire = some ⟨slot, .schedule, none⟩ → slot ≤ now ∧ ∀ a ∈ accepted, a < slot
  closed : t.state = .completed → t.fire = none

namespace Ordered

variable {accepted : List Timestamp} {now : Timestamp}

variable (h : Ordered crates accepted t now)
include h

theorem mono {later : Timestamp} (hle : now ≤ later) : Ordered crates accepted t later where
  increasing := h.increasing
  elapsed a ha := (h.elapsed a ha).trans hle
  ahead := h.ahead
  later slot hslot := ⟨(h.later slot hslot).1.trans hle, (h.later slot hslot).2⟩
  closed := h.closed

theorem open_of_fire {fire : Fire} (hfire : t.fire = some fire) : t.state ≠ .completed :=
  fun hstate => absurd ((h.closed hstate).symm.trans hfire) nofun

theorem lt_nextRunAt (hopen : t.state ≠ .completed)
    (hidle : ∀ slot run, t.fire ≠ some ⟨slot, .schedule, some run⟩) {a : Timestamp}
    (ha : a ∈ accepted) : a < t.nextRunAt := by
  rcases h.ahead hopen a ha with hlt | ⟨⟨run, hfire⟩, -⟩
  · exact hlt
  · exact absurd hfire (hidle a run)

theorem lt_of_claimed {slot : Timestamp}
    {source : TriggerSourceKind} (hfire : t.fire = some ⟨slot, source, none⟩) {a : Timestamp}
    (ha : a ∈ accepted) : a < t.nextRunAt := by
  refine h.lt_nextRunAt (h.open_of_fire hfire) ?_ ha
  intro slot' run hrun
  exact absurd (hfire.symm.trans hrun) (by simp)

theorem setState {state : TriggerState}
    (hopen : t.state ≠ .completed) (hstate : state ≠ .completed) :
    Ordered crates accepted { t with state := state } now where
  increasing := h.increasing
  elapsed := h.elapsed
  ahead _ := h.ahead hopen
  later := h.later
  closed hclosed := absurd hclosed hstate

/-- A fire ends and the trigger is ahead of the accepted slots, or closed. -/
theorem release {state : TriggerState} {nextRunAt : Timestamp}
    (hahead : state ≠ .completed → ∀ a ∈ accepted, a < nextRunAt) :
    Ordered crates accepted ⟨t.schedule, state, nextRunAt, none⟩ now where
  increasing := h.increasing
  elapsed := h.elapsed
  ahead hopen a ha := .inl (hahead hopen a ha)
  later _ hslot := absurd hslot nofun
  closed _ := rfl

/-- An accepted slot is behind the position, or the schedule has no slot left. -/
theorem accept {slot : Timestamp} {run : TurnRunId} (hfire : t.fire = some ⟨slot, .schedule, none⟩)
    (hfuture : ∀ next, TriggerSourceKind.schedule = .schedule →
      t.schedule.slotAfter crates slot = some next → slot < next) :
    Ordered crates (accepted ++ ((newlyBound t.fire (some ⟨slot, .schedule, some run⟩)).map
      Prod.fst).toList) { t with
        nextRunAt := if TriggerSourceKind.schedule = .schedule then
          (t.schedule.slotAfter crates slot).getD t.nextRunAt else t.nextRunAt
        fire := some ⟨slot, .schedule, some run⟩ } now := by
  have hopen := h.open_of_fire hfire
  obtain ⟨helapsed, hlater⟩ := h.later slot hfire
  rw [hfire, if_pos rfl, show (newlyBound (some ⟨slot, .schedule, none⟩)
    (some ⟨slot, .schedule, some run⟩)).map Prod.fst = some slot from rfl, Option.toList_some]
  refine
    { increasing := ?_
      elapsed := ?_
      ahead := ?_
      later := fun slot hslot => absurd hslot (by simp)
      closed := fun hclosed => absurd hclosed hopen }
  · rw [List.pairwise_append]
    exact ⟨h.increasing, List.pairwise_singleton _ _, by simpa using hlater⟩
  · rw [List.forall_mem_append]
    exact ⟨h.elapsed, by simpa using helapsed⟩
  · intro _ a ha
    cases hslot : t.schedule.slotAfter crates slot with
    | some next =>
      left
      have hlt : slot < next := hfuture next rfl hslot
      rcases List.mem_append.1 ha with ha | ha
      · exact (hlater a ha).trans hlt
      · rw [List.mem_singleton.1 ha]
        exact hlt
    | none =>
      rcases List.mem_append.1 ha with ha | ha
      · exact .inl (h.lt_of_claimed hfire ha)
      · rw [List.mem_singleton.1 ha]
        exact .inr ⟨⟨run, rfl⟩, hslot⟩

/-- A transition keeps the order; the slot that it accepts comes last. -/
theorem step {S : Set Timestamp}
    (hnext : NextIn S (t.schedule.slotAfter crates)) (hd : Does crates key c t t')
    (hclock : now ≤ clock c) :
    Ordered crates (accepted ++ ((newlyBound t.fire t'.fire).map Prod.fst).toList) t'
      (clock c) := by
  have hnow := h.mono hclock
  cases hd with
  | stays => simpa using hnow
  | paused hc hkey hrequest hopen =>
    have hset : Ordered crates accepted { t with state := .paused } (clock c) :=
      hnow.setState hopen nofun
    simpa using hset
  | kept hc hkey hrequest hopen =>
    have hset : Ordered crates accepted { t with state := .scheduled } (clock c) :=
      hnow.setState hopen nofun
    simpa using hset
  | @resumed request next hc hkey hrequest hpaused hslot =>
    have hopen : t.state ≠ .completed := by simp [hpaused]
    have hwall : clock c = c.wall := by rw [clock, hc]
    have hlt : clock c < next := hwall ▸ hnext.lt hslot
    rw [newlyBound_self, Option.map_none, Option.toList_none, List.append_nil]
    exact
      { increasing := hnow.increasing
        elapsed := hnow.elapsed
        ahead := fun _ a ha => .inl (lt_of_le_of_lt (hnow.elapsed a ha) hlt)
        later := hnow.later
        closed := fun hclosed => absurd hclosed nofun }
  | @claimedDue request hc hkey hstate hslot hdue hfree =>
    have hopen : t.state ≠ .completed := by simp [hstate]
    have hnowe : clock c = request.now := by rw [clock, hc]
    have hahead : ∀ a ∈ accepted, a < request.fireSlot := by
      intro a ha
      rw [← hslot]
      exact hnow.lt_nextRunAt hopen (by simp [hfree]) ha
    rw [hfree, newlyBound_none_left, Option.map_none, Option.toList_none, List.append_nil]
    exact
      { increasing := hnow.increasing
        elapsed := hnow.elapsed
        ahead := fun _ a ha => .inl (hslot ▸ hahead a ha)
        later := by
          rintro slot ⟨⟩
          exact ⟨hnowe ▸ hdue, hahead⟩
        closed := fun hclosed => absurd hclosed hopen }
  | @claimedManual request hc hkey hstate hfree =>
    have hopen : t.state ≠ .completed := by simp [hstate]
    rw [hfree, newlyBound_none_left, Option.map_none, Option.toList_none, List.append_nil]
    exact
      { increasing := hnow.increasing
        elapsed := hnow.elapsed
        ahead := fun _ a ha => .inl (hnow.lt_nextRunAt hopen (by simp [hfree]) ha)
        later := fun slot hslot => absurd hslot (by simp)
        closed := fun hclosed => absurd hclosed hopen }
  | @accepted update source hc hkey hfire hfuture =>
    have hopen := hnow.open_of_fire hfire
    cases source with
    | manual =>
      rw [hfire]
      simp only [newlyBound, Option.map_none, Option.toList_none, List.append_nil,
        reduceCtorEq, if_false]
      exact
        { increasing := hnow.increasing
          elapsed := hnow.elapsed
          ahead := fun _ a ha => .inl (hnow.lt_of_claimed hfire ha)
          later := fun slot hslot => absurd hslot (by simp)
          closed := fun hclosed => absurd hclosed hopen }
    | schedule => exact hnow.accept hfire hfuture
  | retried hc hkey hfire hcadence =>
    rw [newlyBound_none_right, Option.map_none, Option.toList_none, List.append_nil]
    exact hnow.release fun _ a ha => hnow.lt_of_claimed hfire ha
  | @rescheduled request source hc hkey hfire hfuture =>
    rw [newlyBound_none_right, Option.map_none, Option.toList_none, List.append_nil]
    refine hnow.release fun _ a ha => ?_
    cases source with
    | manual => exact hnow.lt_of_claimed hfire ha
    | schedule => exact ((hnow.later _ hfire).2 a ha).trans (hfuture rfl)
  | ended hc hkey hfire =>
    rw [newlyBound_none_right, Option.map_none, Option.toList_none, List.append_nil]
    exact hnow.release fun _ a ha => hnow.lt_of_claimed hfire ha
  | @cleared request source hc hkey hfire =>
    rw [newlyBound_none_right, Option.map_none, Option.toList_none, List.append_nil]
    refine hnow.release fun hopen a ha => ?_
    -- a trigger that waits for the run of its last slot is closed by the end of that run
    rcases hnow.ahead (hnow.open_of_fire hfire) a ha with hlt | ⟨⟨run, hheld⟩, hlast⟩
    · exact hlt
    · rw [hfire, Option.some.injEq, Fire.mk.injEq] at hheld
      obtain ⟨rfl, rfl, -⟩ := hheld
      exact absurd (if_pos ⟨rfl, hlast⟩) hopen

omit h

end Ordered

/-! ### Once triggers -/

/-- What holds of a once trigger: it never goes back before its instant, and once its fire is
accepted it waits for the run of it or is closed. -/
structure OnceOnly (instant : Timestamp) (accepted : List Timestamp) (t : Cadence) : Prop where
  position : instant ≤ t.nextRunAt
  slot : ∀ slot run, t.fire = some ⟨slot, .schedule, run⟩ → instant ≤ slot
  spent : accepted = [] ∨ (accepted.length = 1 ∧
    (t.state = .completed ∨ ∃ slot run, t.fire = some ⟨slot, .schedule, some run⟩))

namespace OnceOnly

variable {instant : Timestamp} {timezone : String} {accepted : List Timestamp}

theorem slotAfter_eq_none {slot : Timestamp} (h : instant ≤ slot) :
    (TriggerSchedule.once instant timezone).slotAfter crates slot = none :=
  if_neg (not_lt.2 h)

theorem nil_of_claimed (h : OnceOnly instant accepted t)
    (hclosed : t.state = .completed → t.fire = none) {slot : Timestamp} {source : TriggerSourceKind}
    (hfire : t.fire = some ⟨slot, source, none⟩) : accepted = [] := by
  rcases h.spent with hnil | ⟨-, hstate | ⟨slot', run, hrun⟩⟩
  · exact hnil
  · exact absurd ((hclosed hstate).symm.trans hfire) nofun
  · exact absurd (hfire.symm.trans hrun) (by simp)

theorem nil_of_free (h : OnceOnly instant accepted t) (hopen : t.state ≠ .completed)
    (hfree : t.fire = none) : accepted = [] := by
  rcases h.spent with hnil | ⟨-, hstate | ⟨slot, run, hrun⟩⟩
  · exact hnil
  · exact absurd hstate hopen
  · exact absurd (hfree.symm.trans hrun) nofun

theorem step (h : OnceOnly instant accepted t) (honce : t.schedule = .once instant timezone)
    (hclosed : t.state = .completed → t.fire = none) (hd : Does crates key c t t') :
    OnceOnly instant (accepted ++ ((newlyBound t.fire t'.fire).map Prod.fst).toList) t' := by
  cases hd with
  | stays => simpa using h
  | paused hc hkey hrequest hopen =>
    rw [newlyBound_self, Option.map_none, Option.toList_none, List.append_nil]
    exact ⟨h.position, h.slot, h.spent.imp_right fun hspent =>
      ⟨hspent.1, .inr (hspent.2.resolve_left hopen)⟩⟩
  | kept hc hkey hrequest hopen =>
    rw [newlyBound_self, Option.map_none, Option.toList_none, List.append_nil]
    exact ⟨h.position, h.slot, h.spent.imp_right fun hspent =>
      ⟨hspent.1, .inr (hspent.2.resolve_left hopen)⟩⟩
  | @resumed request next hc hkey hrequest hpaused hslot =>
    have hopen : t.state ≠ .completed := by simp [hpaused]
    rw [honce, TriggerSchedule.slotAfter, Option.ite_none_right_eq_some, Option.some.injEq]
      at hslot
    rw [newlyBound_self, Option.map_none, Option.toList_none, List.append_nil]
    exact ⟨hslot.2.le, h.slot, h.spent.imp_right fun hspent =>
      ⟨hspent.1, .inr (hspent.2.resolve_left hopen)⟩⟩
  | @claimedDue request hc hkey hstate hslot hdue hfree =>
    have hopen : t.state ≠ .completed := by simp [hstate]
    rw [h.nil_of_free hopen hfree, hfree]
    refine ⟨h.position, ?_, .inl rfl⟩
    rintro slot run ⟨⟩
    rw [← hslot]
    exact h.position
  | claimedManual hc hkey hstate hfree =>
    have hopen : t.state ≠ .completed := by simp [hstate]
    rw [h.nil_of_free hopen hfree, hfree]
    exact ⟨h.position, fun slot run hslot => absurd hslot (by simp), .inl rfl⟩
  | @accepted update source hc hkey hfire hfuture =>
    rw [h.nil_of_claimed hclosed hfire, hfire]
    cases source with
    | manual => exact ⟨h.position, fun slot run hslot => absurd hslot (by simp), .inl rfl⟩
    | schedule =>
      have hle : instant ≤ update.fireSlot := h.slot _ _ hfire
      rw [honce, slotAfter_eq_none hle]
      refine ⟨h.position, ?_, .inr ⟨rfl, .inr ⟨_, _, rfl⟩⟩⟩
      rintro slot run ⟨⟩
      exact hle
  | retried hc hkey hfire hcadence =>
    rw [h.nil_of_claimed hclosed hfire, newlyBound_none_right]
    exact ⟨h.position, fun slot run hslot => absurd hslot (by simp), .inl rfl⟩
  | @rescheduled request source hc hkey hfire hfuture =>
    rw [h.nil_of_claimed hclosed hfire, newlyBound_none_right]
    refine ⟨?_, fun slot run hslot => absurd hslot (by simp), .inl rfl⟩
    cases source with
    | manual => exact h.position
    | schedule => exact (h.slot _ _ hfire).trans (hfuture rfl).le
  | ended hc hkey hfire =>
    rw [h.nil_of_claimed hclosed hfire, newlyBound_none_right]
    exact ⟨h.position, fun slot run hslot => absurd hslot (by simp), .inl rfl⟩
  | @cleared request source hc hkey hfire =>
    rw [newlyBound_none_right, Option.map_none, Option.toList_none, List.append_nil]
    refine ⟨h.position, fun slot run hslot => absurd hslot (by simp),
      h.spent.imp_right fun hspent => ⟨hspent.1, .inl ?_⟩⟩
    rcases hspent.2 with hstate | ⟨slot, run, hrun⟩
    · exact absurd ((hclosed hstate).symm.trans hfire) (by simp)
    · rw [hfire, Option.some.injEq, Fire.mk.injEq] at hrun
      obtain ⟨rfl, rfl, -⟩ := hrun
      rw [honce]
      exact if_pos ⟨rfl, slotAfter_eq_none (h.slot _ _ hfire)⟩

end OnceOnly

theorem Does.bound (h : Does crates key c t t') {slot : Timestamp} {run : TurnRunId}
    (hfire : t'.fire = some ⟨slot, .schedule, some run⟩) :
    t.fire = some ⟨slot, .schedule, some run⟩ ∨
      newlyBound t.fire t'.fire = some (slot, run) := by
  cases h with
  | stays | paused | kept | resumed => exact .inl hfire
  | claimedDue => exact absurd hfire (by simp)
  | claimedManual => exact absurd hfire (by simp)
  | accepted _ _ hfire' =>
    rw [Option.some.injEq, Fire.mk.injEq, Option.some.injEq] at hfire
    obtain ⟨rfl, rfl, rfl⟩ := hfire
    rw [hfire']
    exact .inr rfl
  | retried | rescheduled | ended | cleared => exact absurd hfire nofun

end Transition

/-! ### Runs -/

section Runs

variable {crates : CronCrates} {init s : Store} {history : List (Step Store Call)}
  {key : TriggerKey} {row₀ : TriggerRecord}

/-- The accepted slots of a run, oldest first. -/
def acceptedFires (key : TriggerKey) (history : List (Step Store Call)) :
    List (Timestamp × TurnRunId) :=
  history.filterMap (acceptedFire key)

variable {row : TriggerRecord} {fire : Option Fire}

/-- One step, with the cadence before and after it. -/
theorem advance_does {c : Call} (hp : Permitted key c) (hs : Holds s key row fire) :
    ∃ row' fire', Holds (advance (call crates) s c) key row' fire' ∧
      Does crates key c (Cadence.of row fire) (Cadence.of row' fire') := by
  cases hcall : call crates s c with
  | error e =>
    rw [advance_of_error hcall]
    exact ⟨row, fire, hs, .stays _⟩
  | ok result =>
    obtain ⟨reply, s'⟩ := result
    rw [advance_of_ok hcall]
    exact call_does hcall hp hs

/-- What holds of a trigger after a run. -/
structure Stands (crates : CronCrates) (key : TriggerKey) (row₀ : TriggerRecord)
    (history : List (Step Store Call)) (s : Store) (row : TriggerRecord) (fire : Option Fire) :
    Prop where
  holds : Holds s key row fire
  schedule : row.schedule = row₀.schedule
  bound : ∀ slot run, fire = some ⟨slot, .schedule, some run⟩ →
    (slot, run) ∈ acceptedFires key history
  ordered : Ordered crates ((acceptedFires key history).map Prod.fst) (Cadence.of row fire)
    (lastClock row₀.createdAt history)
  once : ∀ instant timezone, row₀.schedule = .once instant timezone →
    OnceOnly instant ((acceptedFires key history).map Prod.fst) (Cadence.of row fire)

theorem acceptedFires_append (key : TriggerKey) (history : List (Step Store Call))
    (x : Step Store Call) :
    acceptedFires key (history ++ [x]) = acceptedFires key history ++ (acceptedFire key x).toList := by
  rw [acceptedFires, List.filterMap_append]
  cases h : acceptedFire key x <;> simp [acceptedFires, h]

theorem Stands.created (h : Created crates init key row₀) :
    Stands crates key row₀ [] init row₀ none where
  holds := h.holds
  schedule := rfl
  bound := fun slot run hfire => absurd hfire (by simp)
  ordered :=
    { increasing := List.Pairwise.nil
      elapsed := fun a ha => absurd ha List.not_mem_nil
      ahead := fun _ a ha => absurd ha List.not_mem_nil
      later := fun slot hfire => absurd hfire (by simp [Cadence.of])
      closed := fun _ => rfl }
  once := by
    intro instant timezone honce
    have hposition := h.position
    rw [honce, TriggerSchedule.slotAfter, Option.ite_none_right_eq_some, Option.some.injEq]
      at hposition
    exact ⟨hposition.2.le, fun slot run hfire => absurd hfire (by simp [Cadence.of]), .inl rfl⟩

theorem Stands.step (h : Stands crates key row₀ history s row fire)
    {matching : crates.Schedule → crates.Tz → Set Timestamp} (hcron : crates.Iterates matching)
    {c : Call} (hp : Permitted key c) (hclock : lastClock row₀.createdAt history ≤ clock c) :
    ∃ row' fire', Does crates key c (Cadence.of row fire) (Cadence.of row' fire') ∧
      Stands crates key row₀ (history ++ [⟨s, c, advance (call crates) s c⟩])
        (advance (call crates) s c) row' fire' := by
  obtain ⟨row', fire', hholds, hdoes⟩ := advance_does hp h.holds
  refine ⟨row', fire', hdoes, ?_⟩
  have haccepted : acceptedFire key ⟨s, c, advance (call crates) s c⟩ = newlyBound fire fire' := by
    rw [acceptedFire, h.holds.inFlight_eq, hholds.inFlight_eq]
  have hnext : NextIn _ ((Cadence.of row fire).schedule.slotAfter crates) :=
    TriggerSchedule.nextIn_slots hcron row.schedule
  refine
    { holds := hholds
      schedule := hdoes.schedule_eq.trans h.schedule
      bound := ?_
      ordered := ?_
      once := ?_ }
  · intro slot run hfire
    rw [acceptedFires_append, haccepted, List.mem_append, Option.mem_toList]
    exact (hdoes.bound hfire).imp_left (h.bound slot run)
  · rw [acceptedFires_append, haccepted, lastClock_append, List.map_append, ← Option.toList_map]
    exact h.ordered.step hnext hdoes hclock
  · intro instant timezone honce
    rw [acceptedFires_append, haccepted, List.map_append, ← Option.toList_map]
    exact (h.once instant timezone honce).step (h.schedule.trans honce) h.ordered.closed hdoes

/-- After every run the trigger stands as its history says. -/
theorem stands_of_run {matching : crates.Schedule → crates.Tz → Set Timestamp}
    (hcron : crates.Iterates matching) (hinit : Created crates init key row₀)
    (run : Run Eq (call crates) init history s)
    (hp : ∀ x ∈ history, Permitted key x.command) (hclock : Forward row₀.createdAt history) :
    ∃ row fire, Stands crates key row₀ history s row fire := by
  refine run.induct_history (A := Permitted key) (I := fun history s =>
    Forward row₀.createdAt history → ∃ row fire, Stands crates key row₀ history s row fire)
    (fun _ => ⟨row₀, none, .created hinit⟩) ?_ ?_ hp hclock
  · rintro history s t rfl h
    exact h
  intro history s c hpc ih hclock
  obtain ⟨hbefore, hle⟩ := hclock.of_append
  obtain ⟨row, fire, hstands⟩ := ih hbefore
  obtain ⟨row', fire', -, hafter⟩ := hstands.step hcron hpc hle
  exact ⟨row', fire', hafter⟩

theorem steps_of_run (hinit : Created crates init key row₀)
    (run : Run Eq (call crates) init history s) (hp : ∀ x ∈ history, Permitted key x.command) :
    (∃ row fire, Holds s key row fire) ∧ ∀ x ∈ history, ∃ row fire row' fire',
      Holds x.pre key row fire ∧ Holds x.post key row' fire' ∧
        Does crates key x.command (Cadence.of row fire) (Cadence.of row' fire') := by
  refine run.induct_history (A := Permitted key) (I := fun history s =>
    (∃ row fire, Holds s key row fire) ∧ ∀ x ∈ history, ∃ row fire row' fire',
      Holds x.pre key row fire ∧ Holds x.post key row' fire' ∧
        Does crates key x.command (Cadence.of row fire) (Cadence.of row' fire'))
    ⟨⟨row₀, none, hinit.holds⟩, List.forall_mem_nil _⟩ ?_ ?_ hp
  · rintro history s t rfl h
    exact h
  · rintro history s c hpc ⟨⟨row, fire, hholds⟩, ih⟩
    obtain ⟨row', fire', hholds', hdoes⟩ := advance_does hpc hholds
    refine ⟨⟨row', fire', hholds'⟩, ?_⟩
    rw [List.forall_mem_append]
    refine ⟨ih, ?_⟩
    rintro x hx
    rw [List.mem_singleton.1 hx]
    exact ⟨row, fire, row', fire', hholds, hholds', hdoes⟩

def activeSlot (s : Store) (key : TriggerKey) : Option Timestamp :=
  (s.records.get key).bind TriggerRecord.activeFireSlot

def activeRun (s : Store) (key : TriggerKey) : Option TurnRunId :=
  (s.records.get key).bind TriggerRecord.activeRunRef

theorem Holds.activeSlot_eq (h : Holds s key row fire) : activeSlot s key = fire.map Fire.slot := by
  rw [activeSlot, h.record, Option.bind_some, h.slot]

theorem Holds.activeRun_eq (h : Holds s key row fire) : activeRun s key = fire.bind Fire.run := by
  rw [activeRun, h.record, Option.bind_some, h.run]

/-- A slot is active exactly when the one running row carries it. -/
theorem Holds.activeSlot_iff (h : Holds s key row fire) (slot : Timestamp) :
    activeSlot s key = some slot ↔ ∃ run, runningRows s key = [run] ∧ run.fireSlot = slot := by
  rw [h.activeSlot_eq]
  have hrunning := h.running
  constructor
  · intro hslot
    obtain ⟨f, rfl, rfl⟩ := Option.map_eq_some_iff.1 hslot
    rw [Option.toList_some, List.map_eq_singleton_iff] at hrunning
    obtain ⟨run, hrun, rfl⟩ := hrunning
    exact ⟨run, hrun, rfl⟩
  · rintro ⟨run, hrun, rfl⟩
    rw [hrun, List.map_singleton] at hrunning
    cases fire with
    | none => exact absurd hrunning (List.cons_ne_nil _ _)
    | some f =>
      rw [Option.toList_some, List.singleton_inj] at hrunning
      rw [← hrunning]
      rfl

theorem run_kept_of_does {x : Step Store Call} {row row' : TriggerRecord}
    {fire fire' : Option Fire} (hpre : Holds x.pre key row fire)
    (hpost : Holds x.post key row' fire')
    (hdoes : Does crates key x.command (Cadence.of row fire) (Cadence.of row' fire'))
    {run : TurnRunId} (hrun : activeRun x.pre key = some run)
    (hactive : activeSlot x.post key ≠ none) :
    activeSlot x.post key = activeSlot x.pre key ∧ activeRun x.post key = some run := by
  rw [hpre.activeRun_eq] at hrun
  obtain ⟨⟨slot, source, held⟩, rfl, rfl⟩ := Option.bind_eq_some_iff.1 hrun
  rw [hpost.activeSlot_eq] at hactive ⊢
  rw [hpre.activeSlot_eq, hpost.activeRun_eq]
  rcases hdoes.run_kept rfl with hsame | hnone
  · rw [show fire' = some ⟨slot, source, some run⟩ from hsame]
    exact ⟨rfl, rfl⟩
  · exact absurd (congrArg (Option.map Fire.slot) (show fire' = none from hnone)) hactive

/-- In every run the accepted slots of a trigger increase, each of them belongs to one run, a once
trigger has one at most, and a fire is in flight exactly while its row is the one that runs. -/
theorem one_run_per_slot {matching : crates.Schedule → crates.Tz → Set Timestamp}
    (hcron : crates.Iterates matching) (hinit : Created crates init key row₀)
    (run : Run Eq (call crates) init history s)
    (hp : ∀ x ∈ history, Permitted key x.command) (hclock : Forward row₀.createdAt history) :
    ((acceptedFires key history).map Prod.fst).Pairwise (· < ·) ∧
      (∀ a ∈ acceptedFires key history, ∀ b ∈ acceptedFires key history, a.1 = b.1 → a = b) ∧
      (∀ slot id, inFlight s key = some ⟨slot, .schedule, some id⟩ →
        (slot, id) ∈ acceptedFires key history) ∧
      (∀ x ∈ history, ∀ id, activeRun x.pre key = some id → activeSlot x.post key ≠ none →
        activeSlot x.post key = activeSlot x.pre key ∧ activeRun x.post key = some id) ∧
      (∀ instant timezone, row₀.schedule = .once instant timezone →
        (acceptedFires key history).length ≤ 1) ∧
      ∀ slot, activeSlot s key = some slot ↔
        ∃ row, runningRows s key = [row] ∧ row.fireSlot = slot := by
  obtain ⟨row, fire, hstands⟩ := stands_of_run hcron hinit run hp hclock
  refine ⟨hstands.ordered.increasing, ?_, ?_, ?_, ?_, hstands.holds.activeSlot_iff⟩
  · have hdistinct : ((acceptedFires key history).map Prod.fst).Nodup :=
      hstands.ordered.increasing.imp fun h => h.ne
    exact fun a ha b hb hab => List.inj_on_of_nodup_map hdistinct ha hb hab
  · intro slot id hid
    rw [hstands.holds.inFlight_eq] at hid
    exact hstands.bound slot id hid
  · intro x hx id hid hactive
    obtain ⟨_, _, _, _, hpre, hpost, hdoes⟩ := (steps_of_run hinit run hp).2 x hx
    exact run_kept_of_does hpre hpost hdoes hid hactive
  · intro instant timezone honce
    rcases (hstands.once instant timezone honce).spent with hnil | ⟨hone, -⟩
    · rw [List.map_eq_nil_iff] at hnil
      simp [hnil]
    · rw [List.length_map] at hone
      exact hone.le

end Runs

/-! ### A trigger that fires every minute -/

def sampleTrigger : TriggerKey := ⟨⟨"tenant"⟩, ⟨1⟩⟩

def sampleRecord : TriggerRecord where
  triggerId := ⟨1⟩
  tenantId := ⟨"tenant"⟩
  creatorUserId := ⟨"user"⟩
  agentId := none
  projectId := none
  name := "report"
  source := .schedule
  schedule := .cron "* * * * *" "UTC"
  prompt := "summarise"
  executionSpec := none
  deliveryTarget := none
  state := .scheduled
  nextRunAt := minute
  lastRunAt := none
  lastFiredSlot := none
  lastStatus := none
  activeFireSlot := none
  activeRunRef := none
  createdAt := 0

def sampleStore : Store := Store.empty.putRecord sampleRecord

theorem created_sample : Created everyMinute sampleStore sampleTrigger sampleRecord where
  record := by decide +kernel
  slot := rfl
  run := rfl
  running := by decide +kernel
  position := by decide +kernel

/-- The first slot is claimed, accepted and cleared, and the second is claimed and accepted. -/
def sampleFires : List Call :=
  [⟨minute, .claimDueFire ⟨sampleTrigger, minute, minute⟩⟩,
    ⟨minute, .markFireAccepted ⟨sampleTrigger, minute, ⟨1⟩, ⟨"first"⟩, minute⟩⟩,
    ⟨minute, .clearActiveFire ⟨sampleTrigger, minute, ⟨1⟩, .ok⟩⟩,
    ⟨2 * minute, .claimDueFire ⟨sampleTrigger, 2 * minute, 2 * minute⟩⟩,
    ⟨2 * minute, .markFireAccepted ⟨sampleTrigger, 2 * minute, ⟨2⟩, ⟨"second"⟩, 2 * minute⟩⟩]

theorem permitted_sampleFires : ∀ c ∈ sampleFires, Permitted sampleTrigger c := by
  intro c hc
  simp only [sampleFires, List.mem_cons, List.not_mem_nil, or_false] at hc
  rcases hc with rfl | rfl | rfl | rfl | rfl <;> constructor <;> simp

theorem one_run_per_slot_sample :
    (acceptedFires sampleTrigger (Run.trace (call everyMinute) sampleStore sampleFires)).map
        Prod.fst = [minute, 2 * minute] ∧
      ((acceptedFires sampleTrigger (Run.trace (call everyMinute) sampleStore sampleFires)).map
        Prod.fst).Pairwise (· < ·) :=
  ⟨by decide +kernel,
    (one_run_per_slot everyMinute_iterates created_sample
      (.of_commands (fun _ => rfl) sampleFires sampleStore)
      (Run.trace_forall sampleFires sampleStore permitted_sampleFires) (by decide +kernel)).1⟩

end Ironclaw.Triggers.LibSql

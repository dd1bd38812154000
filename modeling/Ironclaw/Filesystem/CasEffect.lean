import Ironclaw.Filesystem.Cas

/-! # What an update does to its record

A call decides on a change after it has read the record, and makes it only while the version is the
one it read. `read_cases` and `mutating_cases` say all a step of a call can do; `effect` is the
outcome of a call that succeeds in one step, and `alone_effect` that a call has it when it runs
alone. -/

namespace Ironclaw.Filesystem

variable {S T E : Type} [BEq S]

/-! ### What a call does when it runs alone -/

/-- What a call decides on a record. -/
inductive Plan (T : Type)
  | fail
  | settle (outcome : T)
  | write (entry : Entry) (outcome : T)
  | delete (outcome : T)

namespace CasCall

variable (call : CasCall S T E)

omit [BEq S] in
/-- The mutation a transform asks for. -/
def mutation (applied : CasApply S T) : Plan T :=
  match applied.operation with
  | .write | .forceWrite =>
    match call.encode applied.snapshot, call.resolve .writeFile with
    | .ok entry, .ok _ => .write entry applied.outcome
    | _, _ => .fail
  | .delete =>
    match call.resolve .delete with
    | .ok _ => .delete applied.outcome
    | .error _ => .fail
  | .noOp => .settle applied.outcome

/-- What the call decides on a record. -/
def plan (stored : Option Entry) : Plan T :=
  match call.resolve .readFile, call.snapshot stored with
  | .ok _, .ok current =>
    match call.apply current with
    | .ok applied =>
      if unchanged current applied then .settle applied.outcome else call.mutation applied
    | .error _ => .fail
  | _, _ => .fail

/-- The call has nothing to do on a record. -/
def Satisfied (stored : Option Entry) : Prop := ∃ outcome, call.plan stored = .settle outcome

/-- The outcome of the call on a record and the record it leaves, when it succeeds in one step.
Nothing is written over a directory; after a delete the call reads again, and must have nothing
left to do. -/
def effect (directory : Bool) (stored : Option Entry) : Option (T × Option Entry) :=
  match call.plan stored with
  | .fail => none
  | .settle outcome => some (outcome, stored)
  | .write entry outcome => if directory then none else some (outcome, some entry)
  | .delete outcome =>
    match call.plan none with
    | .settle _ => some (outcome, none)
    | _ => none

/-- The call works on `path`, whatever it is allowed to do there. -/
def On (path : VirtualPath) : Prop := ∀ operation target, call.resolve operation = .ok target →
  target = path

end CasCall

/-- The transform was run on `current` and asks for a change. -/
structure Decided (call : CasCall S T E) (current : Option S) (applied : CasApply S T) : Prop where
  readable : ∃ target, call.resolve .readFile = .ok target
  result : call.apply current = .ok applied
  changed : CasCall.unchanged current applied = false

variable {call : CasCall S T E} {applied : CasApply S T} {current : Option S}

theorem Decided.plan (h : Decided call current applied) {stored : Option Entry}
    (hstored : call.snapshot stored = .ok current) : call.plan stored = call.mutation applied := by
  obtain ⟨target, hread⟩ := h.readable
  simp only [CasCall.plan, hread, hstored, h.result, h.changed, Bool.false_eq_true, if_false]

variable {outcome : T}

omit [BEq S] in
theorem CasCall.mutation_delete_ne_write (hop : applied.operation = .delete) {entry : Entry} :
    call.mutation applied ≠ .write entry outcome := by
  rw [CasCall.mutation, hop]
  dsimp only
  split <;> simp

omit [BEq S] in
theorem CasCall.mutation_write_ne_delete
    (hop : applied.operation = .write ∨ applied.operation = .forceWrite) :
    call.mutation applied ≠ .delete outcome := by
  rw [CasCall.mutation]
  rcases hop with hop | hop <;> rw [hop] <;> dsimp only <;> split <;> simp

omit [BEq S] in
theorem CasCall.mutation_write {entry : Entry} (h : call.mutation applied = .write entry outcome) :
    outcome = applied.outcome := by
  rw [CasCall.mutation] at h
  grind

omit [BEq S] in
theorem CasCall.mutation_delete
    (h : call.mutation applied = .delete outcome) : outcome = applied.outcome := by
  rw [CasCall.mutation] at h
  grind

theorem Decided.operation_ne_noOp
    (h : Decided call current applied) : applied.operation ≠ .noOp := by
  intro hop
  have hchanged := h.changed
  rw [CasCall.unchanged, hop] at hchanged
  exact Bool.noConfusion hchanged

theorem Decided.writes (h : Decided call current applied) (hdelete : applied.operation ≠ .delete) :
    applied.operation = .write ∨ applied.operation = .forceWrite := by
  cases hop : applied.operation with
  | write => exact .inl rfl
  | forceWrite => exact .inr rfl
  | noOp => exact absurd hop h.operation_ne_noOp
  | delete => exact absurd hop hdelete

theorem Decided.mutation_ne_settle (h : Decided call current applied) :
    call.mutation applied ≠ .settle outcome := by
  rw [CasCall.mutation]
  cases hop : applied.operation with
  | noOp => exact absurd hop h.operation_ne_noOp
  | write => dsimp only; split <;> simp
  | forceWrite => dsimp only; split <;> simp
  | delete => dsimp only; split <;> simp

omit [BEq S] in
theorem afterWrite_cases (progress : CallState S T E) (error : FilesystemError) :
    (progress.afterWrite error).successfulDeleteOutcome = progress.successfulDeleteOutcome ∧
      ((progress.afterWrite error).phase = .reading ∨
        ∃ e, (progress.afterWrite error).phase = .done (.error e)) := by
  cases error with
  | versionMismatch path expected found => exact ⟨rfl, .inl rfl⟩
  | unsupported path operation =>
    rw [CallState.afterWrite]
    split <;> exact ⟨rfl, .inr ⟨_, rfl⟩⟩
  | _ => exact ⟨rfl, .inr ⟨_, rfl⟩⟩

omit [BEq S] in
theorem afterDelete_cases (progress : CallState S T E) (error : FilesystemError) :
    (progress.afterDelete error).successfulDeleteOutcome = progress.successfulDeleteOutcome ∧
      ((progress.afterDelete error).phase = .reading ∨
        ∃ e, (progress.afterDelete error).phase = .done (.error e)) := by
  cases error with
  | versionMismatch path expected found => exact ⟨rfl, .inl rfl⟩
  | notFound path operation => exact ⟨rfl, .inl rfl⟩
  | unsupported path operation =>
    rw [CallState.afterDelete]
    split <;> exact ⟨rfl, .inr ⟨_, rfl⟩⟩
  | _ => exact ⟨rfl, .inr ⟨_, rfl⟩⟩

theorem checkCas_expectation {path : VirtualPath} {version found : Option RecordVersion} :
    checkCas path (expectation version) found = .ok () ↔ found = version := by
  cases version with
  | none => cases found <;> simp [expectation, checkCas]
  | some version => simp [expectation, checkCas]

section Steps

variable {call : CasCall S T E} {path : VirtualPath} (hon : call.On path)
  (progress : CallState S T E) (state : State)
include hon

/-- What a read leads to: a failure, the return of the call, or a change to be made. -/
theorem read_cases :
    (∃ e, (call.plan (state.value path) = .fail ∨
        (filesystemCasRetries ≤ progress.mutationAttempts ∧ ¬ call.Satisfied (state.value path))) ∧
      call.read progress state = progress.finish (.error e)) ∨
    (∃ outcome, call.plan (state.value path) = .settle outcome ∧
      call.read progress state = progress.settle outcome) ∨
    (∃ current applied, call.snapshot (state.value path) = .ok current ∧
      Decided call current applied ∧
      call.read progress state = { progress with
        phase := .mutating current (state.versionAt path) applied
        mutationAttempts := progress.mutationAttempts + 1 }) := by
  have hvalue : (state.get path).map (·.entry) = state.value path := by
    rw [State.get, Option.map_map]
    rfl
  have hversion : (state.get path).map (·.version) = state.versionAt path := by
    rw [State.get, Option.map_map]
    rfl
  cases hread : call.resolve .readFile with
  | error e =>
    exact .inl ⟨.backend e, .inl (by simp [CasCall.plan, hread]), by simp [CasCall.read, hread]⟩
  | ok target =>
    obtain rfl := hon _ _ hread
    simp only [CasCall.read, CasCall.Satisfied, CasCall.plan, hread, hvalue, hversion]
    cases hsnap : call.snapshot (state.value target) with
    | error e => exact .inl ⟨.apply e, .inl rfl, rfl⟩
    | ok current =>
      dsimp only
      cases happly : call.apply current with
      | error e => exact .inl ⟨.apply e, .inl rfl, rfl⟩
      | ok applied =>
        dsimp only
        cases hsame : CasCall.unchanged current applied with
        | true => exact .inr (.inl ⟨applied.outcome, if_pos rfl, if_pos rfl⟩)
        | false =>
          have hdecided : Decided call current applied := ⟨⟨_, hread⟩, happly, hsame⟩
          by_cases hattempts : filesystemCasRetries ≤ progress.mutationAttempts
          · refine .inl ⟨.retriesExhausted, .inr ⟨hattempts, ?_⟩, by simp [hattempts]⟩
            rintro ⟨outcome, h⟩
            exact hdecided.mutation_ne_settle (by simpa using h)
          · refine .inr (.inr ⟨current, applied, rfl, hdecided, ?_⟩)
            simp [hattempts]

variable {applied : CasApply S T}

omit [BEq S] in
/-- A write either puts the record or changes nothing. -/
theorem write_cases (version : Option RecordVersion)
    (hop : applied.operation = .write ∨ applied.operation = .forceWrite) :
    (∃ entry written state', call.mutation applied = .write entry applied.outcome ∧
      state.put path entry (expectation version) = .ok (written, state') ∧
      call.write progress state version applied =
        ({ progress with successfulDeleteOutcome := none }.finish (.ok applied.outcome), state')) ∨
    (¬ (∃ entry, call.mutation applied = .write entry applied.outcome ∧
        state.hasDescendant path = false ∧ state.versionAt path = version) ∧
      ∃ progress', call.write progress state version applied = (progress', state) ∧
        progress'.successfulDeleteOutcome = none ∧
        (progress'.phase = .reading ∨ ∃ e, progress'.phase = .done (.error e))) := by
  have hplan : call.mutation applied =
      match call.encode applied.snapshot, call.resolve .writeFile with
      | .ok entry, .ok _ => .write entry applied.outcome
      | _, _ => .fail := by
    rw [CasCall.mutation]
    rcases hop with hop | hop <;> rw [hop]
  unfold CasCall.write
  cases hencode : call.encode applied.snapshot with
  | error e =>
    rw [hencode] at hplan
    refine .inr ⟨fun ⟨_, h, _⟩ => by simp [hplan] at h, _, rfl, rfl, .inr ⟨.apply e, rfl⟩⟩
  | ok entry =>
    cases hresolve : call.resolve .writeFile with
    | error e =>
      rw [hencode, hresolve] at hplan
      exact .inr ⟨fun ⟨_, h, _⟩ => by simp [hplan] at h, _, rfl, afterWrite_cases _ e⟩
    | ok target =>
      obtain rfl := hon _ _ hresolve
      rw [hencode, hresolve] at hplan
      cases hput : state.put target entry (expectation version) with
      | ok written =>
        obtain ⟨written, state'⟩ := written
        refine .inl ⟨entry, written, state', hplan, hput, ?_⟩
        simp only [bind, Except.bind, hput]
      | error e =>
        refine .inr ⟨?_, ({ progress with successfulDeleteOutcome := none }).afterWrite e, ?_,
          afterWrite_cases _ e⟩
        · rintro ⟨entry', -, hdir, hversion⟩
          have hok := (@State.put_eq_ok state _ target entry (expectation version) _).2
            ⟨hdir, checkCas_expectation.2 hversion, rfl, rfl⟩
          exact absurd (hput.symm.trans hok) (by simp)
        · simp only [bind, Except.bind, hput]

omit [BEq S] in
theorem delete_cases (version : RecordVersion) (hop : applied.operation = .delete) :
    (∃ state', call.mutation applied = .delete applied.outcome ∧
      state.versionAt path = some version ∧ state'.value path = none ∧
      (∀ other, other ≠ path → state'.entries.get other = state.entries.get other) ∧
      call.delete progress state (some version) applied =
        ({ progress with phase := .reading, successfulDeleteOutcome := some applied.outcome },
          state')) ∨
    (¬ (call.mutation applied = .delete applied.outcome ∧ state.versionAt path = some version) ∧
      ∃ progress', call.delete progress state (some version) applied = (progress', state) ∧
        progress'.successfulDeleteOutcome = progress.successfulDeleteOutcome ∧
        (progress'.phase = .reading ∨ ∃ e, progress'.phase = .done (.error e))) := by
  have hplan : call.mutation applied = match call.resolve .delete with
      | .ok _ => .delete applied.outcome
      | .error _ => .fail := by rw [CasCall.mutation, hop]
  unfold CasCall.delete
  cases hresolve : call.resolve .delete with
  | error e =>
    rw [hresolve] at hplan
    exact .inr ⟨fun ⟨h, _⟩ => by simp [hplan] at h, _, rfl, afterDelete_cases _ e⟩
  | ok target =>
    obtain rfl := hon _ _ hresolve
    rw [hresolve] at hplan
    cases hdelete : state.deleteIfVersion target version with
    | ok state' =>
      obtain ⟨hversion, -⟩ := State.deleteIfVersion_eq_ok.1 hdelete
      obtain ⟨hvalue, hframe⟩ := State.deleteIfVersion_value hdelete
      refine .inl ⟨state', hplan, hversion, hvalue, hframe, ?_⟩
      simp only [bind, Except.bind, hdelete]
    | error e =>
      refine .inr ⟨?_, progress.afterDelete e, ?_, afterDelete_cases _ e⟩
      · rintro ⟨-, hversion⟩
        have hok := State.deleteIfVersion_eq_ok.2 ⟨hversion, rfl⟩
        exact absurd (hdelete.symm.trans hok) (by simp)
      · simp only [bind, Except.bind, hdelete]

/-- A change that was decided on is made at a record with the version that was read, or not at
all. -/
theorem mutating_cases {current : Option S} {version : Option RecordVersion}
    (hphase : progress.phase = .mutating current version applied)
    (hdecided : Decided call current applied) (hversion : version = none → current = none)
    (hpending : progress.successfulDeleteOutcome = none) :
    (∃ entry written state', call.mutation applied = .write entry applied.outcome ∧
      state.put path entry (expectation version) = .ok (written, state') ∧
      call.step progress state = (progress.finish (.ok applied.outcome), state')) ∨
    (∃ state', call.mutation applied = .delete applied.outcome ∧ applied.operation = .delete ∧
      state.versionAt path = version ∧ state'.value path = none ∧
      (∀ other, other ≠ path → state'.entries.get other = state.entries.get other) ∧
      call.step progress state =
        ({ progress with phase := .reading, successfulDeleteOutcome := some applied.outcome },
          state')) ∨
    (¬ ((∃ entry, call.mutation applied = .write entry applied.outcome ∧
          state.hasDescendant path = false ∧ state.versionAt path = version) ∨
        (call.mutation applied = .delete applied.outcome ∧ state.versionAt path = version)) ∧
      ∃ progress', call.step progress state = (progress', state) ∧
        progress'.successfulDeleteOutcome = none ∧
        (progress'.phase = .reading ∨ ∃ e, progress'.phase = .done (.error e))) := by
  have hclear : { progress with successfulDeleteOutcome := none } = progress := by
    rw [← hpending]
  by_cases hop : applied.operation = .delete
  · cases version with
    | none =>
      have hchanged := hdecided.changed
      rw [CasCall.unchanged, hop, hversion rfl] at hchanged
      exact absurd hchanged (by simp)
    | some expected =>
      have hstep : call.step progress state =
          call.delete progress state (some expected) applied := by
        rw [CasCall.step, hphase]
        simp only [hop]
      rw [hstep]
      rcases delete_cases hon progress state expected hop with
        ⟨state', hplan, hsame, hvalue, hframe, heq⟩ | ⟨hnot, progress', heq, hnone, hphase'⟩
      · exact .inr (.inl ⟨state', hplan, hop, hsame, hvalue, hframe, heq⟩)
      · refine .inr (.inr ⟨?_, progress', heq, hnone.trans hpending, hphase'⟩)
        rintro (⟨entry, hplan, -⟩ | hdeleted)
        · exact CasCall.mutation_delete_ne_write hop hplan
        · exact hnot hdeleted
  · have hwrite := hdecided.writes hop
    have hstep : call.step progress state = call.write progress state version applied := by
      rw [CasCall.step, hphase]
      rcases hwrite with h | h <;> simp only [h]
    rw [hstep]
    rcases write_cases hon progress state version hwrite with
      ⟨entry, written, state', hplan, hput, heq⟩ | ⟨hnot, progress', heq, hnone, hphase'⟩
    · rw [hclear] at heq
      exact .inl ⟨entry, written, state', hplan, hput, heq⟩
    · refine .inr (.inr ⟨?_, progress', heq, hnone, hphase'⟩)
      rintro (hwritten | ⟨hplan, -⟩)
      · exact hnot hwritten
      · exact CasCall.mutation_write_ne_delete hwrite hplan

end Steps

/-! ### A call on its own -/

theorem CasCall.alone_of_done {state state' : State}
    {progress : CallState S T E} {k : ℕ} {result : Except (CasUpdateError E) T}
    (hk : k ≤ 2 * filesystemCasRetries + 2)
    (h : (fun p : CallState S T E × State => call.step p.1 p.2)^[k] (.initial, state) =
      (progress, state')) (hdone : progress.phase = .done result) :
    call.alone state = (progress, state') := by
  have hstable : call.step progress state' = (progress, state') := by
    rw [CasCall.step, hdone]
  rw [CasCall.alone, ← Nat.sub_add_cancel hk, Function.iterate_add_apply, h]
  exact Function.iterate_fixed hstable _

omit [BEq S] in
theorem current_none_of_version_none {state : State} {path : VirtualPath}
    (hsnap : call.snapshot (state.value path) = .ok current)
    (hversion : state.versionAt path = none) : current = none := by
  have hget : state.entries.get path = none := Option.map_eq_none_iff.1 hversion
  rw [State.value, hget] at hsnap
  exact (Except.ok.inj hsnap).symm

section Alone

variable {call : CasCall S T E} {path : VirtualPath} (hon : call.On path) {state : State}
include hon

theorem read_of_satisfied (progress : CallState S T E) {outcome : T}
    (hplan : call.plan (state.value path) = .settle outcome) :
    call.read progress state = progress.settle outcome := by
  rcases read_cases hon progress state with
    ⟨e, hfail | ⟨-, hnot⟩, -⟩ | ⟨outcome', hplan', heq⟩ | ⟨current, applied, hsnap, hdecided, -⟩
  · exact absurd (hfail.symm.trans hplan) (by simp)
  · exact absurd ⟨outcome, hplan⟩ hnot
  · obtain rfl := Plan.settle.inj (hplan'.symm.trans hplan)
    exact heq
  · exact absurd ((hdecided.plan hsnap).symm.trans hplan) hdecided.mutation_ne_settle

/-- A call that asks for a change is about to make it after its first read. -/
theorem step_initial_of_change (state : State) (hfail : call.plan (state.value path) ≠ .fail)
    (hsettle : ¬ call.Satisfied (state.value path)) :
    ∃ current applied progress, call.step .initial state = (progress, state) ∧
      progress.phase = .mutating current (state.versionAt path) applied ∧
      progress.successfulDeleteOutcome = none ∧ Decided call current applied ∧
      (state.versionAt path = none → current = none) ∧
      call.mutation applied = call.plan (state.value path) := by
  rcases read_cases hon .initial state with
    ⟨e, hfail' | ⟨hattempts, -⟩, -⟩ | ⟨outcome, hplan, -⟩ | ⟨current, applied, hsnap, hdecided, heq⟩
  · exact absurd hfail' hfail
  · exact absurd hattempts (by simp [filesystemCasRetries, CallState.initial])
  · exact absurd ⟨outcome, hplan⟩ hsettle
  · refine ⟨current, applied, _, congrArg (·, state) heq, rfl, rfl, hdecided,
      current_none_of_version_none hsnap, (hdecided.plan hsnap).symm⟩

/-- A call whose effect is one step has that effect when it runs alone. -/
theorem alone_effect {outcome : T} {stored : Option Entry}
    (h : call.effect (state.hasDescendant path) (state.value path) = some (outcome, stored)) :
    (call.alone state).1.phase = .done (.ok outcome) ∧ (call.alone state).2.value path = stored ∧
      (call.alone state).2.hasDescendant path = state.hasDescendant path := by
  rw [CasCall.effect] at h
  cases hplan : call.plan (state.value path) with
  | fail => simp [hplan] at h
  | settle outcome' =>
    simp only [hplan, Option.some.injEq, Prod.mk.injEq] at h
    obtain ⟨rfl, rfl⟩ := h
    have halone : call.alone state = (CallState.initial.settle outcome', state) :=
      CasCall.alone_of_done (k := 1) (by decide)
        (congrArg (·, state) (read_of_satisfied hon .initial hplan)) rfl
    rw [halone]
    exact ⟨rfl, rfl, rfl⟩
  | write entry outcome' =>
    simp only [hplan, Option.ite_none_left_eq_some, Option.some.injEq, Prod.mk.injEq] at h
    obtain ⟨hdir, rfl, rfl⟩ := h
    obtain ⟨current, applied, progress, hfirst, hphase, hpending, hdecided, hversion, hmutation⟩ :=
      step_initial_of_change hon state (by simp [hplan])
        (by simp [CasCall.Satisfied, hplan])
    rw [hplan] at hmutation
    rcases mutating_cases hon progress state hphase hdecided hversion hpending with
      ⟨entry', written, state', hwrite, hput, hstep⟩ | ⟨state', hdelete, -⟩ | ⟨hnot, -⟩
    · obtain ⟨hvalue, hframe⟩ := State.put_value hput
      obtain ⟨rfl, rfl⟩ := Plan.write.inj (hmutation.symm.trans hwrite)
      have hsteps : (fun p : CallState S T E × State => call.step p.1 p.2)^[2] (.initial, state) =
          (progress.finish (.ok applied.outcome), state') := by
        simp only [Function.iterate_succ, Function.iterate_zero, Function.comp_apply, hfirst,
          hstep, id_eq]
      rw [CasCall.alone_of_done (by decide) hsteps rfl]
      exact ⟨rfl, hvalue, State.hasDescendant_congr hframe⟩
    · exact absurd (hmutation.symm.trans hdelete) (by simp)
    · have happlied := CasCall.mutation_write hmutation
      subst happlied
      exact absurd (.inl ⟨entry, hmutation, Bool.not_eq_true _ ▸ hdir, rfl⟩) hnot
  | delete outcome' =>
    simp only [hplan] at h
    cases hthen : call.plan none with
    | settle outcome'' =>
      simp only [hthen, Option.some.injEq, Prod.mk.injEq] at h
      obtain ⟨rfl, rfl⟩ := h
      obtain ⟨current, applied, progress, hfirst, hphase, hpending, hdecided, hversion,
        hmutation⟩ := step_initial_of_change hon state (by simp [hplan])
          (by simp [CasCall.Satisfied, hplan])
      rw [hplan] at hmutation
      have happlied := CasCall.mutation_delete hmutation
      subst happlied
      rcases mutating_cases hon progress state hphase hdecided hversion hpending with
        ⟨entry', written, state', hwrite, -⟩ | ⟨state', -, -, -, hvalue, hframe, hstep⟩ | ⟨hnot, -⟩
      · exact absurd (hmutation.symm.trans hwrite) (by simp)
      · have hsteps : (fun p : CallState S T E × State => call.step p.1 p.2)^[3]
            (.initial, state) = (({ progress with
              phase := .reading, successfulDeleteOutcome := some applied.outcome } :
                CallState S T E).settle outcome'', state') := by
          simp only [Function.iterate_succ, Function.iterate_zero, Function.comp_apply, hfirst,
            hstep, id_eq]
          exact congrArg (·, state') (read_of_satisfied hon _ (hvalue ▸ hthen))
        rw [CasCall.alone_of_done (by decide) hsteps rfl]
        exact ⟨rfl, hvalue, State.hasDescendant_congr hframe⟩
      · exact absurd (.inr ⟨hmutation, rfl⟩) hnot
    | fail => simp [hthen] at h
    | write entry outcome'' => simp [hthen] at h
    | delete outcome'' => simp [hthen] at h

end Alone

end Ironclaw.Filesystem

import Ironclaw.HostApi.Scope
import Ironclaw.Lib.Run

/-! # File edits of the coding tools

`read_file`, `write_file` and `apply_patch` of `coding/file.rs` on one virtual path, with the striped
edit locks and the read states of `coding/state.rs`. Any number of requests run in one process, from
any runs, threads and agents; a step of a request is one call of the filesystem with what follows it
up to the next one.

An edit of a file that exists needs a recorded read of the same run whose fingerprint is that of the
bytes it finds. The check and the write are two calls, and a lock is held around both. The stripe of
the lock comes from a hash of the scope and the path, so two edits of one path from different scopes
may both hold a lock. `Serialized` says that this does not happen; then an edit writes only over bytes
that its run has seen in full (`edits_never_blind`). -/

namespace Ironclaw.Coding

abbrev Bytes := List UInt8

structure RunId where
  asUuid : BitVec 128
deriving DecidableEq

/-- The scope of an edit lock, without the run. -/
structure CodingEditLockKey where
  tenantId : String
  userId : String
  agentId : Option String
  projectId : Option String
  missionId : Option String
  threadId : Option String
deriving DecidableEq

structure CodingReadScopeKey where
  editLock : CodingEditLockKey
  runId : Option RunId
deriving DecidableEq

inductive ReadRepresentation where
  | rawText | extractedText | structured

/-- `φ` is the type of the fingerprints. -/
structure ReadState (φ : Type) where
  fingerprint : φ
  representation : ReadRepresentation

def maxReadSize : ℕ := 10 * 1024 * 1024
def maxWriteSize : ℕ := 5 * 1024 * 1024
def maxPatchSize : ℕ := 10 * 1024 * 1024
def editLockStripes : ℕ := 64

/-- What the tools make of the path and of its bytes. -/
structure Workspace (φ : Type) where
  contentFingerprint : Bytes → φ
  /-- The hash of a lock key and the path. -/
  lockHash : CodingEditLockKey → BitVec 64
  /-- `reject_binary_probe_lenient` accepts the bytes. -/
  probesAsText : Bytes → Bool

def Workspace.stripe {φ : Type} (workspace : Workspace φ) (key : CodingEditLockKey) : ℕ :=
  (workspace.lockHash key).toNat % editLockStripes

inductive RequestKind where
  | read (hasExplicitRange : Bool)
  | write (content : Bytes)
  /-- The replacement, with the strict probe, the decoding and the encoding around it. -/
  | patch (replace : Bytes → Option Bytes)

/-- A request, with what the tools make of the path as it names it. -/
structure CodingRequest where
  scope : CodingReadScopeKey
  kind : RequestKind
  /-- The representation of a read without a range, and whether its output is truncated; `none` is a
  read that fails. -/
  view : Bytes → Option (ReadRepresentation × Bool)
  /-- The file may not be touched. -/
  sensitive : Bool
  opaqueDocument : Bool
  pdfDocument : Bool

inductive EditPhase (φ : Type) where
  | starting
  /-- A read has seen that the file is there. -/
  | sized
  /-- A read has the bytes. -/
  | fetched (bytes : Bytes)
  | locked
  /-- The file is there, with a size. -/
  | found (size : ℕ)
  /-- A read of the run is recorded. -/
  | recorded (fingerprint : φ)
  | writing (output : Bytes)
  /-- The bytes are written, the read state is not yet. -/
  | noting (output : Bytes)
  | finished
deriving DecidableEq

/-- Between taking the lock and giving it back. -/
def EditPhase.Inside {φ : Type} : EditPhase φ → Prop
  | .starting => False
  | .sized => False
  | .fetched _ => False
  | .finished => False
  | _ => True

instance {φ : Type} : (phase : EditPhase φ) → Decidable phase.Inside
  | .starting => isFalse id
  | .sized => isFalse id
  | .fetched _ => isFalse id
  | .finished => isFalse id
  | .locked => isTrue trivial
  | .found _ => isTrue trivial
  | .recorded _ => isTrue trivial
  | .writing _ => isTrue trivial
  | .noting _ => isTrue trivial

structure Tools (ι φ : Type) where
  file : Option Bytes
  /-- Who holds a stripe. -/
  holder : ℕ → Option ι
  readStates : CodingReadScopeKey → Option (ReadState φ)
  phase : ι → EditPhase φ
  /-- The bytes that a run has seen in full: by a complete read, or by its own edit. -/
  seen : CodingReadScopeKey → List Bytes

inductive ToolAction (ι : Type) where
  | lock (request : ι)
  | stat (request : ι)
  | fetch (request : ι)
  /-- The output of a read is returned. -/
  | display (request : ι)
  | lookup (request : ι)
  | verify (request : ι)
  /-- `fails` is an error of the filesystem, and `anyway` says that the bytes are written though. -/
  | write (request : ι) (fails anyway : Bool)
  | note (request : ι)
  | cancel (request : ι)
  /-- The registry of the read states is full. -/
  | evict (key : CodingReadScopeKey)
deriving DecidableEq

section

variable {ι φ : Type}

def Tools.initial (file : Option Bytes) : Tools ι φ :=
  ⟨file, fun _ => none, fun _ => none, fun _ => .starting, fun _ => []⟩

/-- The run has seen the bytes in full. -/
def Tools.record (s : Tools ι φ) (workspace : Workspace φ) (key : CodingReadScopeKey)
    (bytes : Bytes) (representation : ReadRepresentation) : Tools ι φ :=
  { s with
    readStates := Function.update s.readStates key
      (some ⟨workspace.contentFingerprint bytes, representation⟩)
    seen := Function.update s.seen key (bytes :: s.seen key) }

/-- What an edit writes over the bytes it has verified. -/
def RequestKind.output (kind : RequestKind) (bytes : Bytes) : Option Bytes :=
  match kind with
  | .read _ => none
  | .write content => some content
  | .patch replace => replace bytes

/-- The checks on a file that is there, before the read state is looked up. -/
def CodingRequest.admits (request : CodingRequest) (size : ℕ) : Bool :=
  match request.kind with
  | .read _ => false
  | .write _ => !request.sensitive && !request.pdfDocument
  | .patch _ => !request.sensitive && size ≤ maxPatchSize

/-- The checks before the lock. -/
def CodingRequest.refused (request : CodingRequest) : Bool :=
  match request.kind with
  | .write content => request.opaqueDocument || maxWriteSize < content.length
  | _ => false

/-- What is written at a path at which there is nothing yet. -/
def RequestKind.created : RequestKind → Option Bytes
  | .write content => some content
  | _ => none

section

variable [DecidableEq ι]

def Tools.goto (s : Tools ι φ) (request : ι) (phase : EditPhase φ) : Tools ι φ :=
  { s with
    phase := Function.update s.phase request phase }

/-- The request returns, and its guard is dropped. -/
def Tools.finish (s : Tools ι φ) (request : ι) : Tools ι φ :=
  { s.goto request .finished with
    holder := fun stripe => if s.holder stripe = some request then none else s.holder stripe }

/-- `lock_edit` of a write or a patch. -/
def Tools.lockEdit (workspace : Workspace φ) (requests : ι → CodingRequest)
    (s : Tools ι φ) (request : ι) : Tools ι φ :=
  match s.phase request, (requests request).kind with
  | .starting, .read _ => s
  | .starting, _ =>
    if (requests request).refused then s.finish request else
    let stripe := workspace.stripe (requests request).scope.editLock
    match s.holder stripe with
    | none =>
      { s.goto request .locked with
        holder := Function.update s.holder stripe (some request) }
    | some _ => s
  | _, _ => s

def Tools.stat (requests : ι → CodingRequest) (s : Tools ι φ) (request : ι) : Tools ι φ :=
  match s.phase request, (requests request).kind, s.file with
  | .starting, .read _, some bytes =>
    if (requests request).sensitive = true ∨ maxReadSize < bytes.length then s.finish request
    else s.goto request .sized
  | .starting, .read _, none => s.finish request
  | .locked, _, some bytes =>
    if (requests request).admits bytes.length then s.goto request (.found bytes.length)
    else s.finish request
  | .locked, kind, none =>
    match kind.created with
    | some content => s.goto request (.writing content)
    | none => s.finish request
  | _, _, _ => s

def Tools.fetch (s : Tools ι φ) (request : ι) : Tools ι φ :=
  match s.phase request, s.file with
  | .sized, some bytes => s.goto request (.fetched bytes)
  | .sized, none => s.finish request
  | _, _ => s

def Tools.display (workspace : Workspace φ) (requests : ι → CodingRequest)
    (s : Tools ι φ) (request : ι) : Tools ι φ :=
  match s.phase request, (requests request).kind with
  | .fetched bytes, .read false =>
    match (requests request).view bytes with
    | some (representation, false) =>
      (s.record workspace (requests request).scope bytes representation).finish request
    | _ => s.finish request
  | .fetched _, _ => s.finish request
  | _, _ => s

/-- The checks of `verify_read_before_edit` up to its read. -/
def Tools.lookup (requests : ι → CodingRequest) (s : Tools ι φ) (request : ι) : Tools ι φ :=
  match s.phase request with
  | .found size =>
    match s.readStates (requests request).scope with
    | some ⟨fingerprint, .rawText⟩ =>
      if (requests request).opaqueDocument = true ∨ (requests request).pdfDocument = true ∨
          maxReadSize < size then s.finish request
      else s.goto request (.recorded fingerprint)
    | _ => s.finish request
  | _ => s

/-- `verify_read_before_edit` from its read on. -/
def Tools.verify [DecidableEq φ] (workspace : Workspace φ) (requests : ι → CodingRequest)
    (s : Tools ι φ) (request : ι) : Tools ι φ :=
  match s.phase request with
  | .recorded fingerprint =>
    match s.file with
    | some bytes =>
      if workspace.contentFingerprint bytes = fingerprint ∧
          workspace.probesAsText bytes = true then
        match (requests request).kind.output bytes with
        | some output => s.goto request (.writing output)
        | none => s.finish request
      else s.finish request
    | none => s.finish request
  | _ => s

def Tools.write (s : Tools ι φ) (request : ι) (fails anyway : Bool) : Tools ι φ :=
  match s.phase request with
  | .writing output =>
    if fails then
      if anyway then { s.finish request with file := some output } else s.finish request
    else { s.goto request (.noting output) with file := some output }
  | _ => s

def Tools.note (workspace : Workspace φ) (requests : ι → CodingRequest)
    (s : Tools ι φ) (request : ι) : Tools ι φ :=
  match s.phase request with
  | .noting output =>
    (s.record workspace (requests request).scope output .rawText).finish request
  | _ => s

def Tools.next [DecidableEq φ] (workspace : Workspace φ) (requests : ι → CodingRequest)
    (s : Tools ι φ) : ToolAction ι → Tools ι φ
  | .lock request => s.lockEdit workspace requests request
  | .stat request => s.stat requests request
  | .fetch request => s.fetch request
  | .display request => s.display workspace requests request
  | .lookup request => s.lookup requests request
  | .verify request => s.verify workspace requests request
  | .write request fails anyway => s.write request fails anyway
  | .note request => s.note workspace requests request
  | .cancel request => s.finish request
  | .evict key => { s with readStates := Function.update s.readStates key none }

end

/-- When an edit takes its lock, no edit is inside that holds a lock of another stripe. -/
def Serialized (workspace : Workspace φ) (requests : ι → CodingRequest) (s : Tools ι φ)
    (action : ToolAction ι) : Prop :=
  ∀ request, action = .lock request → ∀ other, (s.phase other).Inside →
    workspace.stripe (requests other).scope.editLock =
      workspace.stripe (requests request).scope.editLock

instance {n : ℕ} (workspace : Workspace φ) (requests : Fin n → CodingRequest) (s : Tools (Fin n) φ)
    (action : ToolAction (Fin n)) : Decidable (Serialized workspace requests s action) :=
  inferInstanceAs (Decidable (∀ request, action = .lock request → ∀ other,
    (s.phase other).Inside → workspace.stripe (requests other).scope.editLock =
      workspace.stripe (requests request).scope.editLock))

variable {workspace : Workspace φ} {requests : ι → CodingRequest} {s : Tools ι φ}

structure Tools.Inv (workspace : Workspace φ) (requests : ι → CodingRequest) (s : Tools ι φ) :
    Prop where
  stated : ∀ key state, s.readStates key = some state →
    ∃ bytes ∈ s.seen key, state.fingerprint = workspace.contentFingerprint bytes
  holds : ∀ i, (s.phase i).Inside →
    s.holder (workspace.stripe (requests i).scope.editLock) = some i
  agree : ∀ i j, (s.phase i).Inside → (s.phase j).Inside →
    workspace.stripe (requests i).scope.editLock = workspace.stripe (requests j).scope.editLock
  recorded : ∀ i fingerprint, s.phase i = .recorded fingerprint →
    ∃ bytes ∈ s.seen (requests i).scope, fingerprint = workspace.contentFingerprint bytes
  saw : ∀ i output, s.phase i = .writing output → ∀ bytes, s.file = some bytes →
    bytes ∈ s.seen (requests i).scope

variable (inv : s.Inv workspace requests)
include inv

theorem Tools.Inv.alone {i j : ι} (hi : (s.phase i).Inside) (hj : (s.phase j).Inside) : i = j := by
  have hholds := inv.holds i hi
  rw [inv.agree i j hi hj, inv.holds j hj] at hholds
  exact (Option.some.inj hholds).symm

omit inv in
theorem Tools.inv_initial (file : Option Bytes) : (Tools.initial file).Inv workspace requests := by
  refine ⟨?_, ?_, ?_, ?_, ?_⟩
  · intro key state h
    cases h
  · intro i h
    exact h.elim
  · intro i j h
    exact h.elim
  · intro i fingerprint h
    cases h
  · intro i output h
    cases h

/-- A phase that a request may move to. -/
structure Tools.Enters (workspace : Workspace φ) (requests : ι → CodingRequest) (s : Tools ι φ)
    (request : ι) (phase : EditPhase φ) : Prop where
  inside : phase.Inside → (s.phase request).Inside
  recorded : ∀ fingerprint, phase = .recorded fingerprint →
    ∃ bytes ∈ s.seen (requests request).scope,
      fingerprint = workspace.contentFingerprint bytes
  saw : ∀ output, phase = .writing output → ∀ bytes, s.file = some bytes →
    bytes ∈ s.seen (requests request).scope

theorem Tools.Inv.record (key : CodingReadScopeKey)
    (bytes : Bytes) (representation : ReadRepresentation) :
    (s.record workspace key bytes representation).Inv workspace requests := by
  have hseen : ∀ other b, b ∈ s.seen other →
      b ∈ (s.record workspace key bytes representation).seen other := by
    intro other b hb
    by_cases hother : other = key
    · subst hother
      simp [Tools.record, hb]
    · simpa only [Tools.record, Function.update_of_ne hother] using hb
  refine ⟨?_, inv.holds, inv.agree, ?_, ?_⟩
  · intro other state hstate
    by_cases hother : other = key
    · subst hother
      simp only [Tools.record, Function.update_self, Option.some.injEq] at hstate
      subst hstate
      exact ⟨bytes, by simp [Tools.record], rfl⟩
    · simp only [Tools.record, Function.update_of_ne hother] at hstate
      obtain ⟨b, hb, heq⟩ := inv.stated other state hstate
      exact ⟨b, hseen other b hb, heq⟩
  · intro i fingerprint hphase
    obtain ⟨b, hb, heq⟩ := inv.recorded i fingerprint hphase
    exact ⟨b, hseen _ b hb, heq⟩
  · intro i output hphase b hfile
    exact hseen _ b (inv.saw i output hphase b hfile)

theorem Tools.Inv.store (hnone : ∀ i output, s.phase i ≠ .writing output) (file : Option Bytes) :
    { s with file := file }.Inv workspace requests :=
  ⟨inv.stated, inv.holds, inv.agree, inv.recorded,
    fun i output hphase => absurd hphase (hnone i output)⟩

theorem Tools.Inv.evict (key : CodingReadScopeKey) :
    { s with readStates := Function.update s.readStates key none }.Inv workspace requests := by
  refine ⟨?_, inv.holds, inv.agree, inv.recorded, inv.saw⟩
  intro other state hstate
  by_cases hother : other = key
  · subst hother
    simp at hstate
  · simp only [Function.update_of_ne hother] at hstate
    exact inv.stated other state hstate

variable {phase : EditPhase φ} {request : ι}

omit inv in
theorem Tools.enters_of_plain (hinside : phase.Inside → (s.phase request).Inside)
    (hrecorded : ∀ fingerprint, phase ≠ .recorded fingerprint)
    (hwriting : ∀ output, phase ≠ .writing output) :
    s.Enters workspace requests request phase :=
  ⟨hinside, fun fingerprint h => absurd h (hrecorded fingerprint),
    fun output h => absurd h (hwriting output)⟩

variable [DecidableEq ι]

theorem Tools.Inv.goto (enters : s.Enters workspace requests request phase) :
    (s.goto request phase).Inv workspace requests := by
  have hinside : ∀ j, ((s.goto request phase).phase j).Inside → (s.phase j).Inside := by
    intro j hj
    by_cases hji : j = request
    · subst hji
      simp only [Tools.goto, Function.update_self] at hj
      exact enters.inside hj
    · simpa only [Tools.goto, Function.update_of_ne hji] using hj
  refine ⟨inv.stated, ?_, ?_, ?_, ?_⟩
  · intro i hi
    exact inv.holds i (hinside i hi)
  · intro i j hi hj
    exact inv.agree i j (hinside i hi) (hinside j hj)
  · intro i fingerprint hphase
    by_cases hi : i = request
    · subst hi
      simp only [Tools.goto, Function.update_self] at hphase
      exact enters.recorded fingerprint hphase
    · simp only [Tools.goto, Function.update_of_ne hi] at hphase
      exact inv.recorded i fingerprint hphase
  · intro i output hphase bytes hfile
    by_cases hi : i = request
    · subst hi
      simp only [Tools.goto, Function.update_self] at hphase
      exact enters.saw output hphase bytes hfile
    · simp only [Tools.goto, Function.update_of_ne hi] at hphase
      exact inv.saw i output hphase bytes hfile

theorem Tools.Inv.finish (request : ι) : (s.finish request).Inv workspace requests := by
  have enters : s.Enters workspace requests request .finished :=
    Tools.enters_of_plain (fun h => h.elim) (by simp) (by simp)
  have hgoto := inv.goto enters
  refine ⟨hgoto.stated, ?_, hgoto.agree, hgoto.recorded, hgoto.saw⟩
  intro i hi
  have hne : i ≠ request := by
    rintro rfl
    simp [Tools.finish, Tools.goto, EditPhase.Inside] at hi
  have hholder : s.holder (workspace.stripe (requests i).scope.editLock) = some i :=
    hgoto.holds i hi
  simp only [Tools.finish, hholder, Option.some.injEq, if_neg hne]

theorem Tools.Inv.not_writing (hinside : (s.phase request).Inside)
    (hphase : ∀ output, phase ≠ .writing output) (i : ι) (output : Bytes) :
    (s.goto request phase).phase i ≠ .writing output := by
  by_cases hi : i = request
  · subst hi
    simpa only [Tools.goto, Function.update_self] using hphase output
  · simp only [Tools.goto, Function.update_of_ne hi]
    intro hwriting
    refine hi (inv.alone ?_ hinside)
    rw [hwriting]
    trivial

/-- The stripe is free, and everyone inside is on it. -/
theorem Tools.Inv.lock
    (hserial : ∀ other, (s.phase other).Inside →
      workspace.stripe (requests other).scope.editLock =
        workspace.stripe (requests request).scope.editLock)
    (hfree : s.holder (workspace.stripe (requests request).scope.editLock) = none) :
    { s.goto request .locked with
      holder := Function.update s.holder
        (workspace.stripe (requests request).scope.editLock) (some request) }.Inv
      workspace requests := by
  have hnobody : ∀ i, ¬ (s.phase i).Inside := by
    intro i hi
    have hholds := inv.holds i hi
    rw [hserial i hi, hfree] at hholds
    cases hholds
  have honly : ∀ i, ((s.goto request .locked).phase i).Inside → i = request := by
    intro i hi
    by_contra hne
    simp only [Tools.goto, Function.update_of_ne hne] at hi
    exact hnobody i hi
  have hphase : ∀ i, i ≠ request → (s.goto request .locked).phase i = s.phase i :=
    fun i hne => Function.update_of_ne hne _ _
  refine ⟨inv.stated, ?_, ?_, ?_, ?_⟩
  · intro i hi
    obtain rfl := honly i hi
    simp
  · intro i j hi hj
    rw [honly i hi, honly j hj]
  · intro i fingerprint hi
    have hi' : (s.goto request .locked).phase i = .recorded fingerprint := hi
    have hne : i ≠ request := by
      rintro rfl
      simp [Tools.goto] at hi'
    rw [hphase i hne] at hi'
    exact inv.recorded i fingerprint hi'
  · intro i output hi
    have hi' : (s.goto request .locked).phase i = .writing output := hi
    have hne : i ≠ request := by
      rintro rfl
      simp [Tools.goto] at hi'
    rw [hphase i hne] at hi'
    exact inv.saw i output hi'

theorem Tools.Inv.lockEdit (request : ι)
    (hserial : Serialized workspace requests s (.lock request)) :
    (s.lockEdit workspace requests request).Inv workspace requests := by
  unfold Tools.lockEdit
  split
  · exact inv
  · split
    · exact inv.finish request
    · dsimp only
      split
      · rename_i hfree
        exact inv.lock (hserial request rfl) hfree
      · exact inv
  · exact inv

theorem Tools.Inv.stat (request : ι) :
    (s.stat requests request).Inv workspace requests := by
  unfold Tools.stat
  split
  · split
    · exact inv.finish request
    · exact inv.goto (Tools.enters_of_plain (fun h => h.elim) (by simp) (by simp))
  · exact inv.finish request
  · rename_i hphase _
    split
    · refine inv.goto (Tools.enters_of_plain (fun _ => ?_) (by simp) (by simp))
      rw [hphase]
      trivial
    · exact inv.finish request
  · rename_i hphase hfile
    split
    · refine inv.goto ⟨fun _ => ?_, by simp, fun _ _ bytes hbytes => ?_⟩
      · rw [hphase]
        trivial
      · rw [hfile] at hbytes
        cases hbytes
    · exact inv.finish request
  · exact inv

theorem Tools.Inv.fetch (request : ι) : (s.fetch request).Inv workspace requests := by
  unfold Tools.fetch
  split
  · exact inv.goto (Tools.enters_of_plain (fun h => h.elim) (by simp) (by simp))
  · exact inv.finish request
  · exact inv

theorem Tools.Inv.display (request : ι) :
    (s.display workspace requests request).Inv workspace requests := by
  unfold Tools.display
  split
  · split
    · exact (inv.record _ _ _).finish request
    · exact inv.finish request
  · exact inv.finish request
  · exact inv

theorem Tools.Inv.lookup (request : ι) :
    (s.lookup requests request).Inv workspace requests := by
  unfold Tools.lookup
  split
  · rename_i hphase
    split
    · rename_i fingerprint hstate
      split
      · exact inv.finish request
      · refine inv.goto ⟨fun _ => ?_, fun other hother => ?_, by simp⟩
        · rw [hphase]
          trivial
        · cases hother
          exact inv.stated _ _ hstate
    · exact inv.finish request
  · exact inv

theorem Tools.Inv.verify [DecidableEq φ] (request : ι)
    (hinj : Function.Injective workspace.contentFingerprint) :
    (s.verify workspace requests request).Inv workspace requests := by
  unfold Tools.verify
  split
  · rename_i fingerprint hphase
    split
    · rename_i bytes hfile
      split
      · rename_i hverified
        split
        · refine inv.goto ⟨fun _ => ?_, by simp, fun _ _ other hother => ?_⟩
          · rw [hphase]
            trivial
          · -- the recorded fingerprint is that of bytes the run has seen, and of these
            obtain ⟨b, hb, heq⟩ := inv.recorded request fingerprint hphase
            rw [hfile] at hother
            obtain rfl := Option.some.inj hother
            rwa [hinj (hverified.1.trans heq)]
        · exact inv.finish request
      · exact inv.finish request
    · exact inv.finish request
  · exact inv

theorem Tools.Inv.write (request : ι) (fails anyway : Bool) :
    (s.write request fails anyway).Inv workspace requests := by
  unfold Tools.write
  split
  · rename_i output hphase
    have hinside : (s.phase request).Inside := by
      rw [hphase]
      trivial
    split
    · split
      · exact (inv.finish request).store (inv.not_writing hinside (by simp)) _
      · exact inv.finish request
    · have hnoting : (s.goto request (.noting output)).Inv workspace requests :=
        inv.goto (Tools.enters_of_plain (fun _ => hinside) (by simp) (by simp))
      exact hnoting.store (inv.not_writing hinside (by simp)) _
  · exact inv

theorem Tools.Inv.note (request : ι) :
    (s.note workspace requests request).Inv workspace requests := by
  unfold Tools.note
  split
  · exact (inv.record _ _ _).finish request
  · exact inv

omit inv

theorem Tools.Inv.next [DecidableEq φ] (hinj : Function.Injective workspace.contentFingerprint)
    (inv : s.Inv workspace requests) (action : ToolAction ι)
    (hserial : Serialized workspace requests s action) :
    (s.next workspace requests action).Inv workspace requests := by
  cases action with
  | lock request => exact inv.lockEdit request hserial
  | stat request => exact inv.stat request
  | fetch request => exact inv.fetch request
  | display request => exact inv.display request
  | lookup request => exact inv.lookup request
  | verify request => exact inv.verify request hinj
  | write request fails anyway => exact inv.write request fails anyway
  | note request => exact inv.note request
  | cancel request => exact inv.finish request
  | evict key => exact inv.evict key

variable [DecidableEq φ]

/-- The state after the actions, from a process that has just started. -/
def Tools.run (workspace : Workspace φ) (requests : ι → CodingRequest) (file : Option Bytes)
    (actions : List (ToolAction ι)) : Tools ι φ :=
  actions.foldl (Tools.next workspace requests) (Tools.initial file)

/-- In a run whose edits hold one stripe at a time, what an edit is about to write over has been seen
in full by its run. -/
theorem edits_never_blind (workspace : Workspace φ) (requests : ι → CodingRequest)
    (hinj : Function.Injective workspace.contentFingerprint) (file : Option Bytes)
    (actions : List (ToolAction ι))
    (hserial : Along (Tools.next workspace requests) (Serialized workspace requests)
      (Tools.initial file) actions)
    (request : ι) (output : Bytes)
    (hwriting : (Tools.run workspace requests file actions).phase request = .writing output)
    (bytes : Bytes) (hfile : (Tools.run workspace requests file actions).file = some bytes) :
    bytes ∈ (Tools.run workspace requests file actions).seen (requests request).scope := by
  have hstep : ∀ s action, Serialized workspace requests s action →
      s.Inv workspace requests → (s.next workspace requests action).Inv workspace requests :=
    fun s action hs inv => inv.next hinj action hs
  have inv : (Tools.run workspace requests file actions).Inv workspace requests :=
    hserial.invariant hstep (Tools.inv_initial file)
  exact inv.saw request output hwriting bytes hfile

end

/-- The scope of a thread of project `p1`. -/
def notesScope (thread : String) (run : BitVec 128) : CodingReadScopeKey :=
  ⟨⟨"acme", "alice", none, some "p1", none, some thread⟩, some ⟨run⟩⟩

/-- `/projects/p1/notes.txt`, a text file. The hashes are those of the keys of its two threads. -/
def notes : Workspace Bytes where
  contentFingerprint := id
  lockHash := fun key =>
    if key.threadId = some "thread-1" then 9866508923602231486 else 2307200503121462383
  probesAsText := fun _ => true

def notesRequest (scope : CodingReadScopeKey) (kind : RequestKind) : CodingRequest :=
  ⟨scope, kind, fun _ => some (.rawText, false), false, false, false⟩

/-- Each of two runs, of two threads, reads the notes and then writes them. -/
def notesRequests : Fin 4 → CodingRequest
  | 0 => notesRequest (notesScope "thread-1" 1) (.read false)
  | 1 => notesRequest (notesScope "thread-1" 1) (.write [65])
  | 2 => notesRequest (notesScope "thread-2" 2) (.read false)
  | 3 => notesRequest (notesScope "thread-2" 2) (.write [66])

def readNotes (request : Fin 4) : List (ToolAction (Fin 4)) :=
  [.stat request, .fetch request, .display request]

def checkNotes (request : Fin 4) : List (ToolAction (Fin 4)) :=
  [.lock request, .stat request, .lookup request, .verify request]

def saveNotes (request : Fin 4) : List (ToolAction (Fin 4)) :=
  [.write request false false, .note request]

def notesInTurn : List (ToolAction (Fin 4)) :=
  readNotes 0 ++ checkNotes 1 ++ saveNotes 1 ++ readNotes 2 ++ checkNotes 3

theorem edits_never_blind_notes :
    (Tools.run notes notesRequests (some [72]) notesInTurn).phase 3 = .writing [66] ∧
      [65] ∈ (Tools.run notes notesRequests (some [72]) notesInTurn).seen
        (notesScope "thread-2" 2) := by
  have hwriting : (Tools.run notes notesRequests (some [72]) notesInTurn).phase 3 =
      .writing [66] := by
    decide +kernel
  exact ⟨hwriting, edits_never_blind notes notesRequests (fun _ _ h => h) (some [72]) notesInTurn
    (by decide +kernel) 3 [66] hwriting [65] (by decide +kernel)⟩

/-- Both runs read the notes and check them, each under its own stripe, and then both write. -/
def notesCrossed : List (ToolAction (Fin 4)) :=
  readNotes 0 ++ readNotes 2 ++ checkNotes 1 ++ checkNotes 3 ++ saveNotes 1

/-- The second run writes over the first run's edit, which it has not seen, and succeeds. -/
theorem crossed_edit_overwritten :
    Function.Injective notes.contentFingerprint ∧
      (Tools.run notes notesRequests (some [72]) notesCrossed).phase 1 = .finished ∧
      (Tools.run notes notesRequests (some [72]) notesCrossed).phase 3 = .writing [66] ∧
      (Tools.run notes notesRequests (some [72]) notesCrossed).file = some [65] ∧
      [65] ∉ (Tools.run notes notesRequests (some [72]) notesCrossed).seen
        (notesRequests 3).scope ∧
      (Tools.run notes notesRequests (some [72]) (notesCrossed ++ saveNotes 3)).file =
        some [66] :=
  ⟨fun _ _ h => h, by decide +kernel, by decide +kernel, by decide +kernel, by decide +kernel,
    by decide +kernel⟩

end Ironclaw.Coding

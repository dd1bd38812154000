import Ironclaw.Lib.Run

/-! # A record under optimistic updates

Any number of processes update one record that is stored with a version. An update reads the
record, computes its new value, and writes it under the condition that the version is still the one
it read; a write that comes too late is tried again, a limited number of times. The only
assumption on the store is that the conditional write is one step and that a write makes a new
version.

`update : κ → θ → α → Except ε α` is what an operation does: `κ` names it, `θ` is what an attempt
reads besides the record, such as the clock.

* `Cell.next` is one step of one process; between two steps of a process any others may happen.
* `Cell.sequential` is the result: however the steps are interleaved, the operations that wrote
  successfully were applied one after the other, each to the value the one before it left, and the
  record holds the value of the last. Clients reason about `Sequential` only. -/

namespace Ironclaw

/-- Where an update stands. -/
inductive Attempt (κ α : Type) where
  | idle
  | reading (op : κ) (left : ℕ)
  | writing (op : κ) (left : ℕ) (value : α) (seen : ℕ)

/-- An operation that has written, with the values around it. -/
structure Done (κ α : Type) where
  op : κ
  before : α
  after : α

/-- The record, the processes, and the successful writes, newest first. -/
structure Cell (ι κ α : Type) where
  value : α
  version : ℕ
  process : ι → Attempt κ α
  done : List (Done κ α)

inductive CellAction (ι κ θ : Type) where
  | start (process : ι) (op : κ)
  | read (process : ι) (input : θ)
  | write (process : ι)
  /-- The store reports an error, and the operation returns it. -/
  | fault (process : ι)

/-- Operations applied one after the other. -/
inductive Sequential {κ θ ε α : Type} (update : κ → θ → α → Except ε α) (init : α) :
    List (Done κ α) → α → Prop
  | nil : Sequential update init [] init
  | cons {done : List (Done κ α)} {before after : α} (op : κ) (input : θ) :
      Sequential update init done before → update op input before = .ok after →
      Sequential update init (⟨op, before, after⟩ :: done) after

/-- The operations up to one of them, and that operation. -/
theorem Sequential.of_suffix {κ θ ε α : Type} {update : κ → θ → α → Except ε α} {init value : α}
    {done older : List (Done κ α)} {d : Done κ α} (h : Sequential update init done value)
    (hsuffix : d :: older <:+ done) :
    Sequential update init older d.before ∧ ∃ input, update d.op input d.before = .ok d.after := by
  induction h with
  | nil => exact absurd hsuffix (by simp)
  | cons op input hrest hop ih =>
    rcases List.suffix_cons_iff.1 hsuffix with heq | hsuffix
    · cases heq
      exact ⟨hrest, input, hop⟩
    · exact ih hsuffix

namespace Cell

variable {ι κ θ ε α : Type}

def init (value : α) : Cell ι κ α := ⟨value, 0, fun _ => .idle, []⟩

variable [DecidableEq ι]

def setProcess (cell : Cell ι κ α) (process : ι) (attempt : Attempt κ α) : Cell ι κ α :=
  { cell with
    process := Function.update cell.process process attempt }

/-- One step, with a number of attempts for each operation. A step that is not possible does
nothing. -/
def next (update : κ → θ → α → Except ε α) (attempts : ℕ) (cell : Cell ι κ α) :
    CellAction ι κ θ → Cell ι κ α
  | .start process op =>
    match cell.process process with
    | .idle => cell.setProcess process (.reading op attempts)
    | _ => cell
  | .read process input =>
    match cell.process process with
    -- the attempts are used up
    | .reading _ 0 => cell.setProcess process .idle
    | .reading op (left + 1) =>
      match update op input cell.value with
      | .error _ => cell.setProcess process .idle
      | .ok value => cell.setProcess process (.writing op left value cell.version)
    | _ => cell
  | .write process =>
    match cell.process process with
    | .writing op left value seen =>
      if seen = cell.version then
        { value := value
          version := cell.version + 1
          process := Function.update cell.process process .idle
          done := ⟨op, cell.value, value⟩ :: cell.done }
      else cell.setProcess process (.reading op left)
    | _ => cell
  | .fault process => cell.setProcess process .idle

/-- An attempt has seen no later version, and the value it computed is right for the version it
has seen. -/
def Fresh (update : κ → θ → α → Except ε α) (cell : Cell ι κ α) : Attempt κ α → Prop
  | .writing op _ value seen => seen ≤ cell.version ∧
      (seen = cell.version → ∃ input, update op input cell.value = .ok value)
  | _ => True

structure Inv (update : κ → θ → α → Except ε α) (init : α) (cell : Cell ι κ α) : Prop where
  fresh : ∀ process, Fresh update cell (cell.process process)
  sequential : Sequential update init cell.done cell.value

variable {update : κ → θ → α → Except ε α} {attempts : ℕ} {value : α} {cell : Cell ι κ α}

omit [DecidableEq ι] in
theorem inv_init : Inv update value (init value : Cell ι κ α) := ⟨fun _ => trivial, .nil⟩

variable (inv : Inv update value cell)
include inv

theorem Inv.setProcess {process : ι} {attempt : Attempt κ α}
    (h : Fresh update cell attempt) : Inv update value (cell.setProcess process attempt) := by
  refine ⟨fun other => ?_, inv.sequential⟩
  show Fresh update cell (Function.update cell.process process attempt other)
  rw [Function.update_apply]
  split
  · exact h
  · exact inv.fresh other

theorem Inv.write (process : ι) :
    Inv update value (cell.next update attempts (.write process : CellAction ι κ θ)) := by
  rw [next]
  split
  · rename_i op left new seen hprocess
    have hfresh := inv.fresh process
    rw [hprocess] at hfresh
    split
    · rename_i hseen
      obtain ⟨input, hinput⟩ := hfresh.2 hseen
      refine ⟨fun other => ?_, .cons op input inv.sequential hinput⟩
      show Fresh update _ (Function.update cell.process process .idle other)
      rw [Function.update_apply]
      split
      · trivial
      · -- what the others have seen is older than the new version
        cases hother : cell.process other with
        | idle => trivial
        | reading op left => trivial
        | writing op' left' value' seen' =>
          have hold := inv.fresh other
          rw [hother] at hold
          have hle : seen' ≤ cell.version := hold.1
          refine ⟨Nat.le_succ_of_le hle, fun heq => ?_⟩
          have hnew : seen' = cell.version + 1 := heq
          omega
    · exact inv.setProcess trivial
  · exact inv

theorem Inv.next (action : CellAction ι κ θ) :
    Inv update value (cell.next update attempts action) := by
  cases action with
  | start process op =>
    rw [Cell.next]
    split
    · exact inv.setProcess trivial
    · exact inv
  | read process input =>
    rw [Cell.next]
    split
    · exact inv.setProcess trivial
    · split
      · exact inv.setProcess trivial
      · rename_i new hnew
        exact inv.setProcess ⟨Nat.le_refl _, fun _ => ⟨input, hnew⟩⟩
    · exact inv
  | write process => exact inv.write process
  | fault process => exact inv.setProcess trivial

theorem Inv.run (actions : List (CellAction ι κ θ)) :
    Inv update value (actions.foldl (Cell.next update attempts) cell) := by
  induction actions generalizing cell with
  | nil => exact inv
  | cons action actions ih => exact ih (inv.next action)

/-- A step leaves the value, or it is the step of an operation. -/
theorem Inv.value_next (action : CellAction ι κ θ) :
    (cell.next update attempts action).value = cell.value ∨
      ∃ op input, update op input cell.value = .ok (cell.next update attempts action).value := by
  cases action with
  | start process op =>
    rw [Cell.next]
    split <;> exact .inl rfl
  | read process input =>
    rw [Cell.next]
    split
    · exact .inl rfl
    · split <;> exact .inl rfl
    · exact .inl rfl
  | write process =>
    rw [Cell.next]
    split
    · rename_i op left new seen hprocess
      have hfresh := inv.fresh process
      rw [hprocess] at hfresh
      split
      · rename_i hseen
        obtain ⟨input, hinput⟩ := hfresh.2 hseen
        exact .inr ⟨op, input, hinput⟩
      · exact .inl rfl
    · exact .inl rfl
  | fault process => exact .inl rfl

/-- What every operation keeps, every run keeps, from any state that a run reaches. -/
theorem Inv.value_run {P : α → Prop}
    (hstep : ∀ op input before after, update op input before = .ok after → P before → P after)
    (h : P cell.value) (actions : List (CellAction ι κ θ)) :
    P (actions.foldl (Cell.next update attempts) cell).value := by
  induction actions generalizing cell with
  | nil => exact h
  | cons action actions ih =>
    refine ih (inv.next action) ?_
    rcases inv.value_next action with hsame | ⟨op, input, hop⟩
    · rw [hsame]
      exact h
    · exact hstep op input cell.value _ hop h

omit inv

end Cell

end Ironclaw

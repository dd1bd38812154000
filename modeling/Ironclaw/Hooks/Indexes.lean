import Ironclaw.Hooks.Registry

/-! # The indexes of the hook registry

`HookRegistry` of `registry.rs` as it is stored: the bindings by point, an index from a hook id to
its slot, and one from an event kind to the hooks it triggers. `Refines` says that they are views of
the table on which the dispatch is modelled. Every call keeps it, whatever was refused before. -/

namespace Ironclaw.Hooks

structure IndexedRegistry where
  byPoint : HookPointSpec → List HookBinding
  hookIndex : HookId → Option (HookPointSpec × ℕ)
  eventKindIndex : RuntimeEventKind → List HookId

namespace IndexedRegistry

def new : IndexedRegistry := ⟨fun _ => [], fun _ => none, fun _ => []⟩

variable (registry : IndexedRegistry)

/-- A binding behind those of its point, and in the indexes. -/
def push (binding : HookBinding) : IndexedRegistry where
  byPoint :=
    Function.update registry.byPoint binding.point (registry.byPoint binding.point ++ [binding])
  hookIndex := Function.update registry.hookIndex binding.hookId
    (some (binding.point, (registry.byPoint binding.point).length))
  eventKindIndex :=
    match binding.point, binding.eventKindFilter with
    | .eventTriggered, some kind => Function.update registry.eventKindIndex kind
      (registry.eventKindIndex kind ++ [binding.hookId])
    | _, _ => registry.eventKindIndex

def insert (binding : HookBinding) : Except RegistryConstruction IndexedRegistry := do
  binding.check
  rejectIf ((registry.hookIndex binding.hookId).isSome = true) (duplicateHookId binding.hookId)
  return registry.push binding

/-- Write to the slot of a hook; a hook that is not registered has none. -/
def modifySlot (hookId : HookId) (change : HookBinding → HookBinding) : IndexedRegistry :=
  match registry.hookIndex hookId with
  | none => registry
  | some (point, slot) =>
    { registry with
      byPoint := Function.update registry.byPoint point
        ((registry.byPoint point).modify slot change) }

def setPriority (hookId : HookId) (priority : ℤ) : IndexedRegistry :=
  registry.modifySlot hookId fun binding => { binding with priority := priority }

def poison (hookId : HookId) : IndexedRegistry :=
  registry.modifySlot hookId fun binding => { binding with poisoned := true }

def activeAt (point : HookPointSpec) : List HookBinding :=
  (registry.byPoint point).filter fun binding => binding.poisoned = false

def activeForEventKind (kind : RuntimeEventKind) : List HookBinding :=
  (registry.eventKindIndex kind).filterMap fun hookId =>
    (registry.byPoint .eventTriggered).find? fun binding =>
      binding.hookId = hookId ∧ binding.poisoned = false

end IndexedRegistry

structure Refines (registry : IndexedRegistry) (table : HookRegistry) : Prop where
  byPoint : ∀ point, registry.byPoint point = table.rows.filter (·.point = point)
  hookIndex : ∀ hookId point slot, registry.hookIndex hookId = some (point, slot) ↔
    ∃ binding, (registry.byPoint point)[slot]? = some binding ∧ binding.hookId = hookId
  eventKindIndex : ∀ kind, registry.eventKindIndex kind =
    ((registry.byPoint .eventTriggered).filter (·.eventKindFilter = some kind)).map (·.hookId)

namespace Refines

theorem new : Refines .new .empty := ⟨fun _ => rfl, by simp [IndexedRegistry.new], fun _ => rfl⟩

variable {registry : IndexedRegistry} {table : HookRegistry} (h : Refines registry table)
  {hookId : HookId} {point : HookPointSpec} {binding : HookBinding}
include h

theorem mem_byPoint :
    binding ∈ registry.byPoint point ↔ binding ∈ table.rows ∧ binding.point = point := by
  rw [h.byPoint, List.mem_filter, decide_eq_true_iff]

theorem nodup (point : HookPointSpec) : ((registry.byPoint point).map (·.hookId)).Nodup := by
  rw [h.byPoint]
  exact table.nodup.sublist (List.filter_sublist.map _)

theorem hookIndex_eq_none : registry.hookIndex hookId = none ↔ table.get hookId = none := by
  rw [table.get_eq_none_iff]
  constructor
  · rintro hnone b hb rfl
    obtain ⟨slot, hslot⟩ := List.getElem?_of_mem (h.mem_byPoint.2 ⟨hb, rfl⟩)
    rw [(h.hookIndex _ _ slot).2 ⟨b, hslot, rfl⟩] at hnone
    exact Option.some_ne_none _ hnone
  · intro hnone
    by_contra hsome
    obtain ⟨⟨point, slot⟩, hindex⟩ := Option.ne_none_iff_exists'.1 hsome
    obtain ⟨b, hb, hid⟩ := (h.hookIndex _ _ _).1 hindex
    exact hnone b (h.mem_byPoint.1 (List.mem_of_getElem? hb)).1 hid

theorem activeAt_eq : registry.activeAt point = table.activeAt point := by
  rw [IndexedRegistry.activeAt, HookRegistry.activeAt, h.byPoint, List.filter_filter]
  simp [and_comm]

/-- The hooks found through the index of a kind are those that a scan of the point finds. -/
theorem activeForEventKind_eq (kind : RuntimeEventKind) : registry.activeForEventKind kind =
    (table.activeAt .eventTriggered).filter fun b => b.eventKindFilter = some kind := by
  have hfind : ∀ b ∈ (registry.byPoint .eventTriggered).filter (·.eventKindFilter = some kind),
      (registry.byPoint .eventTriggered).find? (fun x => x.hookId = b.hookId ∧ x.poisoned = false) =
        Option.guard (fun x => decide (x.poisoned = false)) b := by
    intro b hb
    have hmem := (List.mem_filter.1 hb).1
    have hinj := List.inj_on_of_nodup_map (h.nodup .eventTriggered)
    cases hx : (registry.byPoint .eventTriggered).find? _ with
    | none => simpa [Option.guard] using List.find?_eq_none.1 hx b hmem
    | some x =>
      have hfound : x.hookId = b.hookId ∧ x.poisoned = false := by simpa using List.find?_some hx
      obtain rfl := hinj (List.mem_of_find?_eq_some hx) hmem hfound.1
      simp [Option.guard, hfound.2]
  rw [IndexedRegistry.activeForEventKind, h.eventKindIndex, List.filterMap_map, ← h.activeAt_eq,
    IndexedRegistry.activeAt, List.filter_comm]
  exact (List.filterMap_congr hfind).trans (congrFun List.filterMap_eq_filter _)

/-- A write to a slot is a write to the row, where it keeps what the indexes are made of. -/
theorem modifySlot {change row : HookBinding → HookBinding} (hkey : ∀ b, (row b).hookId = b.hookId)
    (hrow : row = fun b => if b.hookId = hookId then change b else b)
    (hchange : ∀ b, (change b).point = b.point ∧ (change b).eventKindFilter = b.eventKindFilter) :
    Refines (registry.modifySlot hookId change) (table.mapRows row hkey) := by
  have hkept : ∀ b, (row b).point = b.point ∧ (row b).eventKindFilter = b.eventKindFilter := by
    grind
  have hmap : ∀ point, (registry.modifySlot hookId change).byPoint point =
      (registry.byPoint point).map row := by
    intro point
    apply List.ext_getElem?
    intro slot
    have hslot := h.hookIndex hookId point slot
    rw [List.getElem?_map, IndexedRegistry.modifySlot]
    cases hindex : registry.hookIndex hookId with
    | none => grind
    | some place =>
      simp only [Function.update_apply]
      grind
  have hindexes : (registry.modifySlot hookId change).hookIndex = registry.hookIndex ∧
      (registry.modifySlot hookId change).eventKindIndex = registry.eventKindIndex := by
    unfold IndexedRegistry.modifySlot
    split <;> exact ⟨rfl, rfl⟩
  refine ⟨fun point => ?_, fun id point slot => ?_, fun kind => ?_⟩
  · simp [hmap, h.byPoint, Table.mapRows, List.filter_map, Function.comp_def, hkept]
  · simp [hmap, hindexes, h.hookIndex, hkey]
  · simp [hmap, hindexes, h.eventKindIndex, List.filter_map, Function.comp_def, hkept, hkey]

theorem push (hfresh : table.get binding.hookId = none) :
    Refines (registry.push binding) (table.put binding) := by
  have hnone := h.hookIndex_eq_none.2 hfresh
  refine ⟨fun point => ?_, fun id point slot => ?_, fun kind => ?_⟩
  · rw [table.rows_put_of_none hfresh, List.filter_append, ← h.byPoint]
    by_cases hp : point = binding.point
    · simp [IndexedRegistry.push, hp]
    · simp [IndexedRegistry.push, hp, Ne.symm hp]
  · have hne : ∀ b ∈ registry.byPoint point, b.hookId ≠ binding.hookId :=
      fun b hb => table.get_eq_none_iff.1 hfresh b (h.mem_byPoint.1 hb).1
    have hindex := h.hookIndex id point slot
    simp only [IndexedRegistry.push, Function.update_apply]
    grind
  · have hkind := h.eventKindIndex kind
    by_cases hp : binding.point = .eventTriggered
    · cases hk : binding.eventKindFilter <;>
        simp only [IndexedRegistry.push, Function.update_apply, hp, hk] <;> grind
    · have hindex : (registry.push binding).eventKindIndex = registry.eventKindIndex := by
        unfold IndexedRegistry.push
        grind
      rw [hindex, hkind]
      simp [IndexedRegistry.push, Ne.symm hp]

theorem insert (binding : HookBinding) :
    (∃ e, registry.insert binding = .error e ∧ table.insert binding = .error e) ∨
      ∃ registry' table', registry.insert binding = .ok registry' ∧
        table.insert binding = .ok table' ∧ Refines registry' table' := by
  rw [IndexedRegistry.insert, HookRegistry.insert]
  cases hcheck : binding.check with
  | error e => exact .inl ⟨e, rfl, rfl⟩
  | ok =>
    cases hget : table.get binding.hookId with
    | none =>
      rw [h.hookIndex_eq_none.2 hget]
      exact .inr ⟨_, _, rfl, rfl, h.push hget⟩
    | some b =>
      have hsome : registry.hookIndex binding.hookId ≠ none := by simp [h.hookIndex_eq_none, hget]
      obtain ⟨place, hplace⟩ := Option.ne_none_iff_exists'.1 hsome
      rw [hplace]
      exact .inl ⟨_, rfl, rfl⟩

end Refines

inductive RegistryCall where
  | insert (binding : HookBinding)
  | setPriority (hookId : HookId) (priority : ℤ)
  | poison (hookId : HookId)

def IndexedRegistry.next (registry : IndexedRegistry) : RegistryCall → IndexedRegistry
  | .insert binding => (registry.insert binding).toOption.getD registry
  | .setPriority hookId priority => registry.setPriority hookId priority
  | .poison hookId => registry.poison hookId

def HookRegistry.next (registry : HookRegistry) : RegistryCall → HookRegistry
  | .insert binding => (registry.insert binding).toOption.getD registry
  | .setPriority hookId priority => registry.setPriority hookId priority
  | .poison hookId => registry.poison hookId

theorem Refines.next {registry : IndexedRegistry} {table : HookRegistry}
    (h : Refines registry table) (call : RegistryCall) :
    Refines (registry.next call) (table.next call) := by
  cases call with
  | insert binding =>
    rw [IndexedRegistry.next, HookRegistry.next]
    obtain ⟨e, hregistry, htable⟩ | ⟨registry', table', hregistry, htable, hnext⟩ := h.insert binding
    · rw [hregistry, htable]
      exact h
    · rw [hregistry, htable]
      exact hnext
  | setPriority => exact h.modifySlot (fun b => by split <;> rfl) rfl fun _ => ⟨rfl, rfl⟩
  | poison hookId => exact h.modifySlot (HookRegistry.hookId_poisonRow hookId) rfl fun _ => ⟨rfl, rfl⟩

theorem Refines.of_calls (calls : List RegistryCall) :
    Refines (calls.foldl IndexedRegistry.next .new) (calls.foldl HookRegistry.next .empty) :=
  List.foldl_rel .new fun call _ _ _ h => h.next call

/-- Whatever was called before, the indexed registry refuses and finds what the table does. -/
theorem indexes_agree_with_table (calls : List RegistryCall) :
    let registry := calls.foldl IndexedRegistry.next .new
    let table : HookRegistry := calls.foldl HookRegistry.next .empty
    (∀ binding e, registry.insert binding = .error e ↔ table.insert binding = .error e) ∧
      (∀ point, registry.activeAt point = table.activeAt point) ∧
      ∀ kind, registry.activeForEventKind kind =
        (table.activeAt .eventTriggered).filter fun b => b.eventKindFilter = some kind := by
  intro registry table
  have h : Refines registry table := .of_calls calls
  refine ⟨fun binding e => ?_, fun _ => h.activeAt_eq, h.activeForEventKind_eq⟩
  obtain ⟨e, hregistry, htable⟩ | ⟨registry', table', hregistry, htable, -⟩ := h.insert binding
  · simp [hregistry, htable]
  · simp [hregistry, htable]

theorem HookRegistry.next_checked {table : HookRegistry} (h : ∀ b ∈ table.rows, b.check = .ok ())
    (call : RegistryCall) : ∀ b ∈ (table.next call).rows, b.check = .ok () := by
  cases call with
  | insert binding =>
    rw [HookRegistry.next]
    cases hinsert : table.insert binding with
    | error e => exact h
    | ok table' =>
      obtain ⟨_, hcheck, hrest⟩ := bind_eq_ok.1 hinsert
      obtain ⟨_, -, hput⟩ := bind_eq_ok.1 hrest
      obtain rfl := pure_eq_ok.1 hput
      intro b hb
      obtain rfl | ⟨hb, -⟩ := (table.mem_put binding b).1 hb
      · exact hcheck
      · exact h b hb
  | setPriority hookId priority =>
    intro b hb
    obtain ⟨old, hold, rfl⟩ := List.mem_map.1 hb
    split <;> exact h old hold
  | poison hookId =>
    intro b hb
    obtain ⟨old, hold, rfl⟩ := List.mem_map.1 hb
    unfold HookRegistry.poisonRow
    split <;> exact h old hold

/-- A dispatch at a point meets a hook once, and only hooks that may be bound there. -/
theorem active_bindings_admitted (calls : List RegistryCall) (point : HookPointSpec) :
    let active := (calls.foldl IndexedRegistry.next .new).activeAt point
    (active.map (·.hookId)).Nodup ∧ ∀ b ∈ active, b.phase.permitsTrust b.trustClass = true ∧
      pointPermitsTrust point b.trustClass = true ∧
      (b.scope = .ownCapabilities → pointHasCapabilityContext point = true) ∧
      (point = .eventTriggered → b.eventKindFilter ≠ none) ∧
      (point ≠ .eventTriggered → b.eventKindFilter = none) := by
  intro active
  have h := Refines.of_calls calls
  refine ⟨(h.nodup point).sublist (List.filter_sublist.map _), fun b hb => ?_⟩
  obtain ⟨hrow, rfl⟩ := h.mem_byPoint.1 (List.mem_of_mem_filter hb)
  have hcheck := List.foldlRecOn calls HookRegistry.next
    (motive := fun table : HookRegistry => ∀ b ∈ table.rows, b.check = .ok ())
    (fun _ h => absurd h List.not_mem_nil) (fun _ h call _ => HookRegistry.next_checked h call) b hrow
  simpa [HookBinding.check, bind_eq_ok] using hcheck

end Ironclaw.Hooks

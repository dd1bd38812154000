import Ironclaw.Events.DurableLog

/-! # Streams and their paths

A key whose ids the constructors accept has a path of five components, and the path determines the
tenant, the user and the segment of the agent. The placeholder for a missing agent is itself a
text the constructor accepts, so the segment does not always determine the agent. -/

namespace Ironclaw.Events

open Ironclaw.Filesystem

/-! ### The path of a key -/

/-- The components of a stream's path. -/
def streamParts (kind : StreamKind) (key : EventStreamKey) : List (List Char) :=
  ["events".toList, kind.segment.toList, key.tenantId.asStr.toList, key.userId.asStr.toList,
    (agentSegment key).toList]

theorem validScopeId_placeholder : ValidScopeId "_none" :=
  (@validateScopeId_eq_ok "agent" _ ()).1 (by decide +kernel)

theorem validScopeId_agentSegment {key : EventStreamKey} (h : key.Valid) :
    ValidScopeId (agentSegment key) := by
  rw [agentSegment]
  cases hagent : key.agentId with
  | none => exact validScopeId_placeholder
  | some agent => exact h.agent agent hagent

theorem component_literal {value : String}
    (h : (validateScopeId "segment" value).isOk = true) : Component value.toList := by
  cases hvalue : validateScopeId "segment" value with
  | error e => rw [hvalue] at h; cases h
  | ok u => exact component_of_valid (validateScopeId_eq_ok.1 hvalue)

variable {kind : StreamKind}

theorem component_streamParts {key : EventStreamKey} (h : key.Valid) :
    ∀ part ∈ streamParts kind key, Component part := by
  intro part hpart
  simp only [streamParts, List.mem_cons, List.not_mem_nil, or_false] at hpart
  rcases hpart with rfl | rfl | rfl | rfl | rfl
  · exact component_literal (by decide +kernel)
  · cases kind <;> exact component_literal (by decide +kernel)
  · exact component_of_valid h.tenant
  · exact component_of_valid h.user
  · exact component_of_valid (validScopeId_agentSegment h)

/-- A normal text below `/events` is a scoped path. -/
theorem new_events {text : String} (h : Normal text) {rest : String}
    (htext : text = "/events" ++ rest) : ScopedPath.new text = .ok ⟨text, h⟩ := by
  have hurl : ScopedPath.looksLikeUrl text = false := by
    have hslash := ScopedPath.not_looksLikeUrl h
    rw [ScopedPath.looksLikeUrl, Text.contains, decide_eq_false_iff_not] at hslash ⊢
    rw [String.toList_append] at hslash
    exact fun hinner => hslash (hinner.trans List.infix_append_right)
  have hdrive : ScopedPath.looksLikeWindowsPath text = false := by
    have hsecond : text.toUTF8.data[1]? = some 101 := by
      rw [htext, String.toUTF8, String.toByteArray_append, ByteArray.data_append,
        Array.getElem?_append_left (by decide +kernel)]
      rfl
    rw [ScopedPath.looksLikeWindowsPath, hsecond]
    rfl
  have hhost : ScopedPath.rawHostPrefixes.any (Text.startsWith text ·) = false := by
    rw [List.any_eq_false]
    have hshape : ∀ head ∈ ScopedPath.rawHostPrefixes,
        head.toList.take 3 ≠ ['/', 'e', 'v'] ∧ 3 ≤ head.toList.length := by decide +kernel
    intro head hhead hstart
    obtain ⟨after, hafter⟩ := Text.startsWith_iff.1 hstart
    have htake : text.toList.take 3 = ['/', 'e', 'v'] := by
      rw [htext, String.toList_append]
      rfl
    rw [hafter, List.take_append_of_le_length (hshape head hhead).2] at htake
    exact (hshape head hhead).1 htake
  rw [ScopedPath.new, ScopedPath.newWithAllowedRawHostAliases_eq_ok hurl hdrive hhost]
  exact h.normalize .scoped

theorem exists_streamPath {key : EventStreamKey} (h : key.Valid) :
    ∃ path, streamPath kind key = .ok path ∧ components path.asStr = streamParts kind key := by
  have hcomponents : ∀ part ∈ streamParts kind key, Component part := component_streamParts h
  have hrendered : ("/events/" ++ kind.segment ++ "/" ++ key.tenantId.asStr ++ "/" ++
      key.userId.asStr ++ "/" ++ agentSegment key).toList = render '/' (streamParts kind key) := by
    simp [streamParts, render, String.toList_append]
  have hnormal := normal_of_rendered (List.cons_ne_nil _ _) hcomponents hrendered
  refine ⟨⟨_, hnormal⟩, ?_, components_rendered (List.cons_ne_nil _ _) hcomponents hrendered⟩
  have hbelow : "/events/" ++ kind.segment ++ "/" ++ key.tenantId.asStr ++ "/" ++
      key.userId.asStr ++ "/" ++ agentSegment key = "/events" ++ ("/" ++ kind.segment ++ "/" ++
        key.tenantId.asStr ++ "/" ++ key.userId.asStr ++ "/" ++ agentSegment key) := by
    rw [← String.toList_inj]
    simp [String.toList_append]
  rw [streamPath, new_events hnormal hbelow]
  rfl

/-! ### Where the view leads -/

def LogOperation (operation : FilesystemOperation) : Prop :=
  operation = .append ∨ operation = .tail ∨ operation = .headSeq

theorem eventsView_valid : eventsView.Valid := List.nodup_singleton _

theorem components_of_resolve {path : ScopedPath} {operation : FilesystemOperation}
    {target : VirtualPath} (h : resolveWithPermissionView eventsView path operation = .ok target) :
    components target.asStr = components path.asStr := by
  obtain ⟨grant, hgrant, -⟩ := resolveWithPermissionView_eq_ok.1 h
  obtain ⟨hgoverns, rest, hpath, htarget⟩ := MountView.resolveWithGrant_ok hgrant
  obtain rfl := List.mem_singleton.1 hgoverns.mem
  rw [htarget, hpath]
  rfl

theorem resolve_inj {path other : ScopedPath} {operation : FilesystemOperation} {target : VirtualPath}
    (h : resolveWithPermissionView eventsView path operation = .ok target)
    (h' : resolveWithPermissionView eventsView other operation = .ok target) : path = other := by
  obtain ⟨text, hnormal⟩ := path
  obtain ⟨text', hnormal'⟩ := other
  obtain rfl := hnormal.ext hnormal' ((components_of_resolve h).symm.trans (components_of_resolve h'))
  rfl

/-- A path below `/events` leads to one target, whatever the log does there. -/
theorem exists_resolve {path : ScopedPath} {rest : List (List Char)}
    (hpath : components path.asStr = "events".toList :: rest) :
    ∃ target : VirtualPath, components target.asStr = components path.asStr ∧
      ∀ operation, LogOperation operation →
        resolveWithPermissionView eventsView path operation = .ok target := by
  have hparts : components "/events" = ["events".toList] := by decide +kernel
  have hgoverns : eventsView.Governs _ (components path.asStr) :=
    ⟨List.mem_singleton.2 rfl, ⟨rest, by rw [hpath, MountGrant.aliasParts, hparts]; rfl⟩,
      fun other hother _ => by rw [List.mem_singleton.1 hother]⟩
  obtain ⟨target, htarget⟩ := MountView.exists_resolveWithGrant eventsView_valid hgoverns
  have hok : ∀ operation, LogOperation operation →
      resolveWithPermissionView eventsView path operation = .ok target := by
    rintro operation (rfl | rfl | rfl) <;>
      exact resolveWithPermissionView_eq_ok.2 ⟨_, htarget, rfl⟩
  exact ⟨target, components_of_resolve (hok .tail (.inr (.inl rfl))), hok⟩

def keyTarget (key : EventStreamKey) : Option VirtualPath :=
  match streamPath .runtime key with
  | .error _ => none
  | .ok path => (resolveWithPermissionView eventsView path .append).toOption

theorem exists_keyTarget {key : EventStreamKey} (h : key.Valid) :
    ∃ path target, streamPath .runtime key = .ok path ∧ keyTarget key = some target ∧
      components target.asStr = streamParts .runtime key ∧
      ∀ operation, LogOperation operation →
        resolveWithPermissionView eventsView path operation = .ok target := by
  obtain ⟨path, hpath, hparts⟩ := exists_streamPath h
  obtain ⟨target, htarget, hresolve⟩ := exists_resolve hparts
  refine ⟨path, target, hpath, ?_, htarget.trans hparts, hresolve⟩
  rw [keyTarget, hpath]
  dsimp only
  rw [hresolve .append (.inl rfl)]
  rfl

/-! ### Keys that share a path -/

/-- One key has no agent, and the agent of the other has the placeholder for its name. -/
def PlaceholderClash (key other : EventStreamKey) : Prop :=
  key.tenantId = other.tenantId ∧ key.userId = other.userId ∧
    ((key.agentId = none ∧ other.agentId = some ⟨"_none"⟩) ∨
      (key.agentId = some ⟨"_none"⟩ ∧ other.agentId = none))

instance (key other : EventStreamKey) : Decidable (PlaceholderClash key other) :=
  inferInstanceAs (Decidable (_ ∧ _ ∧ (_ ∨ _)))

theorem streamParts_eq_iff {key other : EventStreamKey} :
    streamParts kind key = streamParts kind other ↔ key = other ∨ PlaceholderClash key other := by
  obtain ⟨⟨tenant⟩, ⟨user⟩, agent⟩ := key
  obtain ⟨⟨tenant'⟩, ⟨user'⟩, agent'⟩ := other
  simp only [streamParts, List.cons.injEq, String.toList_inj, and_true, true_and, agentSegment,
    PlaceholderClash, EventStreamKey.mk.injEq, TenantId.mk.injEq, UserId.mk.injEq]
  rcases agent with _ | ⟨⟨agent⟩⟩ <;> rcases agent' with _ | ⟨⟨agent'⟩⟩
  · simp
  · simp only [Option.map_none, Option.getD_none, Option.map_some, Option.getD_some, reduceCtorEq,
      and_false, false_or, Option.some.injEq, AgentId.mk.injEq, true_and, or_false]
    grind
  · simp only [Option.map_none, Option.getD_none, Option.map_some, Option.getD_some, reduceCtorEq,
      and_false, false_or, Option.some.injEq, AgentId.mk.injEq, and_true]
  · simp only [Option.map_some, Option.getD_some, reduceCtorEq, and_false, false_and, or_false,
      Option.some.injEq, AgentId.mk.injEq]

theorem keyTarget_eq_iff {key other : EventStreamKey} (h : key.Valid) (h' : other.Valid) :
    keyTarget key = keyTarget other ↔ key = other ∨ PlaceholderClash key other := by
  obtain ⟨_, target, -, hkey, hparts, -⟩ := exists_keyTarget h
  obtain ⟨_, target', -, hother, hparts', -⟩ := exists_keyTarget h'
  rw [hkey, hother, Option.some.injEq, ← @streamParts_eq_iff .runtime, ← hparts, ← hparts']
  exact ⟨fun heq => heq ▸ rfl, VirtualPath.ext_components⟩

theorem streamPath_eq_iff {key other : EventStreamKey} (h : key.Valid) (h' : other.Valid) :
    streamPath kind key = streamPath kind other ↔ key = other ∨ PlaceholderClash key other := by
  obtain ⟨⟨text, hnormal⟩, hkey, hparts⟩ := @exists_streamPath kind _ h
  obtain ⟨⟨text', hnormal'⟩, hother, hparts'⟩ := @exists_streamPath kind _ h'
  rw [hkey, hother, Except.ok.injEq, ScopedPath.mk.injEq, ← @streamParts_eq_iff kind, ← hparts,
    ← hparts']
  exact ⟨fun heq => heq ▸ rfl, hnormal.ext hnormal'⟩

end Ironclaw.Events

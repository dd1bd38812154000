import Ironclaw.HostApi.Mount

/-! # The mount view of an invocation

`invocation_mount_view` of the composition root: the table that sends every alias of a caller to
its own part of the store. Two callers are kept apart as long as their ids are sent to different
path segments; the one pair of ids that is not is the system sentinel and the text `__system__`,
which the id validator accepts (`scope_storage_isolated_iff`). -/

namespace Ironclaw.Composition

/-- The aliases that are rewritten for the tenant and the user. -/
def perUserAliases : List String :=
  ["/product-results", "/processes", "/secrets", "/authorization", "/outbound", "/notifications",
    "/web-push", "/delivery-registrations", "/run-state", "/checkpoint-state", "/approvals",
    "/gate-records", "/replay-payloads", "/threads", "/conversations", "/suggestions", "/turns",
    "/resources", "/engine", "/skills", "/workspace", "/llm-preferences"]

def systemSubroots : List String := ["/system/settings", "/system/extensions", "/system/skills"]

/-- A line of the table, before its texts are parsed. -/
structure MountRow where
  name : String
  target : String
  permissions : MountPermissions

namespace MountRow

def grant (row : MountRow) : Except HostApiError MountGrant := do
  let mountAlias ← MountAlias.new row.name
  let target ← VirtualPath.new row.target
  return ⟨mountAlias, target, row.permissions⟩

end MountRow

def perUserRow (tenantId userId name : String) : MountRow where
  name := name
  target := "/tenants/" ++ tenantId ++ "/users/" ++ userId ++ name
  permissions :=
    if name = "/notifications" ∨ name = "/suggestions" then .readWrite else .readWriteListDelete

/-- The rows of the storage that the users of a tenant share. Only the subtrees with records to
revoke may be deleted from. -/
def sharedRows (tenantId : String) : List MountRow :=
  [⟨"/tenant-shared", "/tenants/" ++ tenantId ++ "/shared", .readWrite⟩,
    ⟨"/tenant-shared/reborn-projects", "/tenants/" ++ tenantId ++ "/shared/reborn-projects",
      .readWriteListDelete⟩,
    ⟨"/tenant-shared/reborn-identity", "/tenants/" ++ tenantId ++ "/shared/reborn-identity",
      .readWriteListDelete⟩,
    ⟨"/extension-admin-configuration",
      "/tenants/" ++ tenantId ++ "/shared/extension-admin-configuration", .readWriteListDelete⟩]

def systemRow (subroot : String) : MountRow := ⟨subroot, subroot, .readOnly⟩

def mountRows (tenantId userId : String) : List MountRow :=
  perUserAliases.map (perUserRow tenantId userId) ++ sharedRows tenantId ++
    systemSubroots.map systemRow

def invocationMountViewForSegments (tenantId userId : String) : Except HostApiError MountView := do
  let grants ← (mountRows tenantId userId).mapM MountRow.grant
  MountView.new grants

def invocationMountView (scope : ResourceScope) : Except HostApiError MountView :=
  invocationMountViewForSegments (resourceScopePathSegment scope.tenantId.asStr)
    (resourceScopePathSegment scope.userId.asStr)

/-- The aliases of the storage that the users of a tenant share. -/
def tenantSharedAliases : List String :=
  ["/tenant-shared", "/tenant-shared/reborn-projects", "/tenant-shared/reborn-identity",
    "/extension-admin-configuration"]

/-! ### The rows as paths -/

/-- The components every path of a user's own storage starts with. -/
def userRoot (tenantId userId : String) : List (List Char) :=
  ["tenants".toList, tenantId.toList, "users".toList, userId.toList]

/-- The components every path of a tenant's shared storage starts with. -/
def sharedRoot (tenantId : String) : List (List Char) :=
  ["tenants".toList, tenantId.toList, "shared".toList]

theorem normal_of_mem_aliases {name : String}
    (h : name ∈ perUserAliases ++ tenantSharedAliases ++ systemSubroots) : Normal name := by
  have hall : ∀ name ∈ perUserAliases ++ tenantSharedAliases ++ systemSubroots,
      normalizeAbsolutePath name .mountAlias = .ok name := by decide +kernel
  exact normalizeAbsolutePath_normal (hall name h)

theorem component_literals : ∀ part ∈ ["tenants".toList, "users".toList, "shared".toList],
    Component part := by
  have hvalid : ∀ word ∈ ["tenants", "users", "shared"], validateScopeId "word" word = .ok () := by
    decide +kernel
  intro part hpart
  obtain ⟨word, hword, rfl⟩ := List.mem_map.1 (show part ∈ ["tenants", "users", "shared"].map
    String.toList from hpart)
  exact component_of_valid (validateScopeId_eq_ok.1 (hvalid word hword))

theorem perUserRow_target {tenantId userId name : String} (hname : Normal name) :
    (perUserRow tenantId userId name).target.toList =
      render '/' (userRoot tenantId userId ++ components name) := by
  rw [render_append, ← hname.rendered]
  simp [perUserRow, userRoot, render]

theorem sharedRows_target {tenantId : String} {row : MountRow} (h : row ∈ sharedRows tenantId) :
    ∃ tail, (∀ part ∈ tail, Component part) ∧
      row.target.toList = render '/' (sharedRoot tenantId ++ tail) := by
  have hvalid : ∀ word ∈ ["reborn-projects", "reborn-identity", "extension-admin-configuration"],
      validateScopeId "word" word = .ok () := by decide +kernel
  have hword : ∀ word ∈ ["reborn-projects", "reborn-identity", "extension-admin-configuration"],
      ∀ part ∈ [word.toList], Component part := fun word hword part hpart =>
    List.mem_singleton.1 hpart ▸ component_of_valid (validateScopeId_eq_ok.1 (hvalid word hword))
  simp only [sharedRows, List.mem_cons, List.not_mem_nil, or_false] at h
  rcases h with rfl | rfl | rfl | rfl
  · exact ⟨[], by simp, by simp [sharedRoot, render]⟩
  · exact ⟨_, hword "reborn-projects" (by simp), by simp [sharedRoot, render]⟩
  · exact ⟨_, hword "reborn-identity" (by simp), by simp [sharedRoot, render]⟩
  · exact ⟨_, hword "extension-admin-configuration" (by simp), by simp [sharedRoot, render]⟩

/-- A row whose texts are the alias and the virtual path they name. -/
structure MountRow.WellFormed (row : MountRow) : Prop where
  name : Normal row.name
  target : Normal row.target
  rooted : hasKnownRoot row.target = true

theorem MountRow.grant_eq_ok {row : MountRow} (h : row.WellFormed) :
    row.grant = .ok ⟨⟨row.name, h.name⟩, ⟨row.target, h.target, h.rooted⟩, row.permissions⟩ := by
  have hname : MountAlias.new row.name = .ok ⟨row.name, h.name⟩ :=
    MountAlias.new_eq_ok.2 (h.name.normalize .mountAlias)
  have htarget : VirtualPath.new row.target = .ok ⟨row.target, h.target, h.rooted⟩ :=
    VirtualPath.new_eq_ok.2 (h.target.normalize .virtual)
  exact bind_eq_ok.2 ⟨_, hname, bind_eq_ok.2 ⟨_, htarget, rfl⟩⟩

theorem tenants_path {parts : List (List Char)} (hvalid : ∀ part ∈ parts, Component part)
    (hhead : ["tenants".toList] <+: parts) {text : String}
    (htext : text.toList = render '/' parts) :
    Normal text ∧ hasKnownRoot text = true ∧ components text = parts := by
  have hne : parts ≠ [] := by
    rintro rfl
    exact absurd hhead (by decide)
  have hnormal := normal_of_rendered hne hvalid htext
  have hparts := components_rendered hne hvalid htext
  refine ⟨hnormal, (hasKnownRoot_iff hnormal).2 ⟨"/tenants", by decide +kernel, ?_⟩, hparts⟩
  rw [hparts]
  exact hhead

section Rows

variable {tenantId userId : String} (htenant : Component tenantId.toList)
  (huser : Component userId.toList)
include htenant

theorem sharedRow_path {row : MountRow} (h : row ∈ sharedRows tenantId) :
    Normal row.target ∧ hasKnownRoot row.target = true ∧
      sharedRoot tenantId <+: components row.target := by
  obtain ⟨tail, htail, htext⟩ := sharedRows_target h
  have hvalid : ∀ part ∈ sharedRoot tenantId ++ tail, Component part := by
    refine List.forall_mem_append.2 ⟨?_, htail⟩
    have hwords := component_literals
    simp only [List.forall_mem_cons] at hwords
    simp only [sharedRoot, List.forall_mem_cons]
    exact ⟨hwords.1, htenant, hwords.2.2.1, by simp⟩
  obtain ⟨hnormal, hroot, hparts⟩ := tenants_path hvalid ⟨_, rfl⟩ htext
  exact ⟨hnormal, hroot, hparts ▸ List.prefix_append _ _⟩

include huser

theorem perUserRow_path {name : String} (h : name ∈ perUserAliases) :
    Normal (perUserRow tenantId userId name).target ∧
      hasKnownRoot (perUserRow tenantId userId name).target = true ∧
      userRoot tenantId userId <+: components (perUserRow tenantId userId name).target := by
  have hname : Normal name := normal_of_mem_aliases (by simp [h])
  have hvalid : ∀ part ∈ userRoot tenantId userId ++ components name, Component part := by
    refine List.forall_mem_append.2 ⟨?_, hname.valid⟩
    have hwords := component_literals
    simp only [List.forall_mem_cons] at hwords
    simp only [userRoot, List.forall_mem_cons]
    exact ⟨hwords.1, htenant, hwords.2.1, huser, by simp⟩
  obtain ⟨hnormal, hroot, hparts⟩ := tenants_path hvalid ⟨_, rfl⟩ (perUserRow_target hname)
  exact ⟨hnormal, hroot, hparts ▸ List.prefix_append _ _⟩

theorem mountRows_wellFormed {row : MountRow} (h : row ∈ mountRows tenantId userId) :
    row.WellFormed := by
  rw [mountRows, List.mem_append, List.mem_append] at h
  rcases h with (h | h) | h
  · obtain ⟨name, hname, rfl⟩ := List.mem_map.1 h
    obtain ⟨hnormal, hroot, -⟩ := perUserRow_path htenant huser hname
    exact ⟨normal_of_mem_aliases (by simp [perUserRow, hname]), hnormal, hroot⟩
  · have hname : row.name ∈ tenantSharedAliases := List.mem_map_of_mem (f := MountRow.name) h
    obtain ⟨hnormal, hroot, -⟩ := sharedRow_path htenant h
    exact ⟨normal_of_mem_aliases (by simp [hname]), hnormal, hroot⟩
  · obtain ⟨subroot, hsubroot, rfl⟩ := List.mem_map.1 h
    have hroot : ∀ subroot ∈ systemSubroots, hasKnownRoot subroot = true := by decide +kernel
    have hnormal : Normal subroot := normal_of_mem_aliases (by simp [hsubroot])
    exact ⟨hnormal, hnormal, hroot subroot hsubroot⟩

end Rows

/-! ### The view -/

theorem mountRows_names (tenantId userId : String) :
    (mountRows tenantId userId).map MountRow.name =
      perUserAliases ++ tenantSharedAliases ++ systemSubroots := by
  simp only [mountRows, List.map_append, List.map_map, Function.comp_def, perUserRow, systemRow,
    List.map_id']
  rfl

theorem mountRows_nodup (tenantId userId : String) :
    ((mountRows tenantId userId).map MountRow.name).Nodup := by
  rw [mountRows_names]
  decide +kernel

section View

variable {tenantId userId : String} (htenant : Component tenantId.toList)
  (huser : Component userId.toList)
include htenant huser

variable {mount : MountGrant}

theorem grant_texts {row : MountRow} (hrow : row ∈ mountRows tenantId userId)
    (h : row.grant = .ok mount) :
    row.name = mount.mountAlias.asStr ∧ row.target = mount.target.asStr := by
  rw [MountRow.grant_eq_ok (mountRows_wellFormed htenant huser hrow)] at h
  obtain rfl := Except.ok.inj h
  exact ⟨rfl, rfl⟩

theorem exists_view : ∃ view, invocationMountViewForSegments tenantId userId = .ok view := by
  obtain ⟨grants, hgrants⟩ := exists_mapM_ok fun row hrow =>
    ⟨_, MountRow.grant_eq_ok (mountRows_wellFormed htenant huser hrow)⟩
  have hnames := map_eq_of_mapM hgrants fun row hrow mount h =>
    (grant_texts htenant huser hrow h).1
  have hvalid : (MountView.mk grants).Valid := by
    rw [MountView.Valid, ← hnames]
    exact mountRows_nodup tenantId userId
  exact ⟨⟨grants⟩, bind_eq_ok.2 ⟨grants, hgrants, MountView.new_eq_ok.2 ⟨rfl, hvalid⟩⟩⟩

variable {view : MountView} (hview : invocationMountViewForSegments tenantId userId = .ok view)
include hview

theorem row_of_mount (h : mount ∈ view.mounts) :
    ∃ row ∈ mountRows tenantId userId,
      row.name = mount.mountAlias.asStr ∧ row.target = mount.target.asStr := by
  obtain ⟨grants, hgrants, hnew⟩ := bind_eq_ok.1 hview
  rw [(MountView.new_eq_ok.1 hnew).1] at h
  obtain ⟨row, hrow, hgrant⟩ := of_mem_mapM hgrants h
  exact ⟨row, hrow, grant_texts htenant huser hrow hgrant⟩

theorem mount_of_row {row : MountRow} (h : row ∈ mountRows tenantId userId) :
    ∃ mount ∈ view.mounts,
      row.name = mount.mountAlias.asStr ∧ row.target = mount.target.asStr := by
  obtain ⟨grants, hgrants, hnew⟩ := bind_eq_ok.1 hview
  obtain ⟨mount, hmount, hgrant⟩ := mem_mapM hgrants h
  rw [← (MountView.new_eq_ok.1 hnew).1] at hmount
  exact ⟨mount, hmount, grant_texts htenant huser h hgrant⟩

theorem perUser_target (h : mount ∈ view.mounts) (hname : mount.mountAlias.asStr ∈ perUserAliases) :
    userRoot tenantId userId <+: mount.targetParts := by
  obtain ⟨row, hrow, hrowname, htarget⟩ := row_of_mount htenant huser hview h
  have hother : ∀ name ∈ tenantSharedAliases ++ systemSubroots, name ∉ perUserAliases := by
    decide +kernel
  rw [MountGrant.targetParts, ← htarget]
  rw [← hrowname] at hname
  rw [mountRows, List.mem_append, List.mem_append] at hrow
  rcases hrow with (hrow | hrow) | hrow
  · obtain ⟨name, hmem, rfl⟩ := List.mem_map.1 hrow
    exact (perUserRow_path htenant huser hmem).2.2
  · exact absurd hname (hother _
      (List.mem_append_left _ (List.mem_map_of_mem (f := MountRow.name) hrow)))
  · obtain ⟨subroot, hsubroot, rfl⟩ := List.mem_map.1 hrow
    exact absurd hname (hother _ (List.mem_append_right _ hsubroot))

theorem shared_target (h : mount ∈ view.mounts)
    (hname : mount.mountAlias.asStr ∈ tenantSharedAliases) :
    sharedRoot tenantId <+: mount.targetParts := by
  obtain ⟨row, hrow, hrowname, htarget⟩ := row_of_mount htenant huser hview h
  have hother : ∀ name ∈ perUserAliases ++ systemSubroots, name ∉ tenantSharedAliases := by
    decide +kernel
  rw [MountGrant.targetParts, ← htarget]
  rw [← hrowname] at hname
  rw [mountRows, List.mem_append, List.mem_append] at hrow
  rcases hrow with (hrow | hrow) | hrow
  · obtain ⟨name, hmem, rfl⟩ := List.mem_map.1 hrow
    exact absurd hname (hother _ (List.mem_append_left _ hmem))
  · exact (sharedRow_path htenant hrow).2.2
  · obtain ⟨subroot, hsubroot, rfl⟩ := List.mem_map.1 hrow
    exact absurd hname (hother _ (List.mem_append_right _ hsubroot))

end View

/-! ### Isolation -/

/-- The path lies strictly below the other. -/
def LiesUnder (path root : VirtualPath) : Prop :=
  Text.startsWith path.asStr (root.asStr ++ "/") = true

/-- The paths are different and neither lies below the other. -/
structure Apart (path other : VirtualPath) : Prop where
  ne : path ≠ other
  not_under : ¬ LiesUnder path other
  not_over : ¬ LiesUnder other path

/-- Whatever the two scopes reach through grants with these aliases is apart. -/
def Isolated (aliases : List String) (scope other : ResourceScope) : Prop :=
  ∀ view view', invocationMountView scope = .ok view → invocationMountView other = .ok view' →
    ∀ path path' target target' grant grant',
      view.resolveWithGrant path = .ok (target, grant) →
      view'.resolveWithGrant path' = .ok (target', grant') →
      grant.mountAlias.asStr ∈ aliases → grant'.mountAlias.asStr ∈ aliases → Apart target target'

/-- Different owners have their own storage, and different tenants their own shared storage. -/
def StorageIsolated (scope other : ResourceScope) : Prop :=
  ((scope.tenantId, scope.userId) ≠ (other.tenantId, other.userId) →
    Isolated perUserAliases scope other) ∧
  (scope.tenantId ≠ other.tenantId → Isolated tenantSharedAliases scope other)

/-- `scope` is the system scope, and the other tenant has the text the sentinel is escaped to. -/
def MeetsSystemTenant (scope other : ResourceScope) : Prop :=
  scope.isSystem = true ∧ other.tenantId.asStr = "__system__"

/-- `scope` is the system scope, and the other ids both have the text the sentinel is escaped to. -/
def MeetsSystemUser (scope other : ResourceScope) : Prop :=
  MeetsSystemTenant scope other ∧ other.userId.asStr = "__system__"

variable {scope other : ResourceScope}

theorem MeetsSystemTenant.segments (h : MeetsSystemTenant scope other) :
    resourceScopePathSegment scope.tenantId.asStr =
      resourceScopePathSegment other.tenantId.asStr ∧ scope.tenantId ≠ other.tenantId := by
  obtain ⟨hsystem, htext⟩ := h
  rw [(ResourceScope.isSystem_iff.1 hsystem).1, htext]
  refine ⟨by decide, fun heq => ?_⟩
  have hids := congrArg TenantId.asStr heq
  rw [(ResourceScope.isSystem_iff.1 hsystem).1, htext] at hids
  exact absurd hids (by decide)

theorem MeetsSystemUser.user_segments
    (h : MeetsSystemUser scope other) : resourceScopePathSegment scope.userId.asStr =
      resourceScopePathSegment other.userId.asStr := by
  rw [(ResourceScope.isSystem_iff.1 h.1.1).2, h.2]
  decide

theorem apart_of_roots {path other : VirtualPath} {root root' : List (List Char)}
    (hpath : root <+: components path.asStr) (hother : root' <+: components other.asStr)
    (hlen : root.length = root'.length) (hne : root ≠ root') : Apart path other := by
  have key : ∀ {p q : List (List Char)}, root <+: p → root' <+: q → p <+: q ∨ q <+: p → False := by
    rintro p q hp hq (hpq | hqp)
    · exact hne ((List.prefix_of_prefix_length_le (hp.trans hpq) hq hlen.le).eq_of_length hlen)
    · exact hne ((List.prefix_of_prefix_length_le hp (hq.trans hqp) hlen.le).eq_of_length hlen)
  have hcover : ∀ {p q : VirtualPath}, LiesUnder p q → components q.asStr <+: components p.asStr := by
    intro p q h
    exact (pathMatchesAlias_iff q.normal p.normal).1 (Bool.or_eq_true _ _ ▸ .inr h)
  refine ⟨?_, fun h => key hpath hother (.inr (hcover h)), fun h => key hpath hother (.inl (hcover h))⟩
  rintro rfl
  exact key hpath hother (.inl List.prefix_rfl)

theorem segment_components {scope : ResourceScope} (h : scope.Admissible) :
    Component (resourceScopePathSegment scope.tenantId.asStr).toList ∧
      Component (resourceScopePathSegment scope.userId.asStr).toList :=
  ⟨component_of_valid (resourceScopePathSegment_valid h.ids.1),
    component_of_valid (resourceScopePathSegment_valid h.ids.2)⟩

theorem resolve_row {scope : ResourceScope} (h : scope.Admissible) {row : MountRow}
    (hrow : row ∈ mountRows (resourceScopePathSegment scope.tenantId.asStr)
      (resourceScopePathSegment scope.userId.asStr)) :
    ∃ view path target grant, invocationMountView scope = .ok view ∧
      view.resolveWithGrant path = .ok (target, grant) ∧ grant.mountAlias.asStr = row.name ∧
        target.asStr = row.target := by
  obtain ⟨htenant, huser⟩ := segment_components h
  obtain ⟨view, hview⟩ := exists_view htenant huser
  obtain ⟨grant, hgrant, hname, htarget⟩ := mount_of_row htenant huser hview hrow
  obtain ⟨grants, -, hnew⟩ := bind_eq_ok.1 hview
  let path : ScopedPath := ⟨grant.mountAlias.asStr, grant.mountAlias.normal⟩
  have hgoverns : view.Governs grant (components path.asStr) := MountView.governs_alias hgrant
  obtain ⟨target, hresolve⟩ :=
    MountView.exists_resolveWithGrant (MountView.new_eq_ok.1 hnew).2 hgoverns
  refine ⟨view, path, target, grant, hview, hresolve, hname.symm, ?_⟩
  obtain ⟨-, tail, hpath, hparts⟩ := MountView.resolveWithGrant_ok hresolve
  obtain rfl : tail = [] := List.append_right_eq_self.1 hpath.symm
  rw [List.append_nil] at hparts
  exact (target.normal.ext grant.target.normal hparts).trans htarget.symm

/-- Two rows that name the same path under the same alias are not apart. -/
theorem not_isolated (h : scope.Admissible) (h' : other.Admissible)
    {aliases : List String} {row row' : MountRow}
    (hrow : row ∈ mountRows (resourceScopePathSegment scope.tenantId.asStr)
      (resourceScopePathSegment scope.userId.asStr))
    (hrow' : row' ∈ mountRows (resourceScopePathSegment other.tenantId.asStr)
      (resourceScopePathSegment other.userId.asStr))
    (hname : row.name = row'.name) (htarget : row.target = row'.target)
    (hmem : row.name ∈ aliases) : ¬ Isolated aliases scope other := by
  intro hisolated
  obtain ⟨view, path, target, grant, hview, hresolve, hgrant, htext⟩ := resolve_row h hrow
  obtain ⟨view', path', target', grant', hview', hresolve', hgrant', htext'⟩ := resolve_row h' hrow'
  have hapart := hisolated view view' hview hview' path path' target target' grant grant'
    hresolve hresolve' (hgrant ▸ hmem) (hgrant' ▸ hname ▸ hmem)
  have hsame : target.asStr = target'.asStr := by rw [htext, htext', htarget]
  exact hapart.ne (VirtualPath.ext_components (congrArg components hsame))

theorem root_of_resolved {view : MountView} {path : ScopedPath} {target : VirtualPath}
    {grant : MountGrant} (h : view.resolveWithGrant path = .ok (target, grant))
    {root : List (List Char)} (hroot : root <+: grant.targetParts) :
    root <+: components target.asStr := by
  obtain ⟨-, tail, -, hparts⟩ := MountView.resolveWithGrant_ok h
  exact hparts ▸ hroot.trans (List.prefix_append _ _)

section Isolation

variable {scope other : ResourceScope} (h : scope.Admissible) (h' : other.Admissible)
include h h'

theorem isolated_perUser (hne : userRoot (resourceScopePathSegment scope.tenantId.asStr)
    (resourceScopePathSegment scope.userId.asStr) ≠
      userRoot (resourceScopePathSegment other.tenantId.asStr)
        (resourceScopePathSegment other.userId.asStr)) :
    Isolated perUserAliases scope other := by
  intro view view' hview hview' path path' target target' grant grant' hres hres' hname hname'
  obtain ⟨htenant, huser⟩ := segment_components h
  obtain ⟨htenant', huser'⟩ := segment_components h'
  have hmem := (MountView.resolveWithGrant_ok hres).1.mem
  have hmem' := (MountView.resolveWithGrant_ok hres').1.mem
  exact apart_of_roots (root_of_resolved hres (perUser_target htenant huser hview hmem hname))
    (root_of_resolved hres' (perUser_target htenant' huser' hview' hmem' hname')) rfl hne

theorem isolated_shared (hne : sharedRoot (resourceScopePathSegment scope.tenantId.asStr) ≠
      sharedRoot (resourceScopePathSegment other.tenantId.asStr)) :
    Isolated tenantSharedAliases scope other := by
  intro view view' hview hview' path path' target target' grant grant' hres hres' hname hname'
  obtain ⟨htenant, huser⟩ := segment_components h
  obtain ⟨htenant', huser'⟩ := segment_components h'
  have hmem := (MountView.resolveWithGrant_ok hres).1.mem
  have hmem' := (MountView.resolveWithGrant_ok hres').1.mem
  exact apart_of_roots (root_of_resolved hres (shared_target htenant huser hview hmem hname))
    (root_of_resolved hres' (shared_target htenant' huser' hview' hmem' hname')) rfl hne

theorem tenant_segment_eq (heq : resourceScopePathSegment scope.tenantId.asStr =
      resourceScopePathSegment other.tenantId.asStr) :
    scope.tenantId.asStr = other.tenantId.asStr ∨ MeetsSystemTenant scope other ∨
      MeetsSystemTenant other scope := by
  refine (resourceScopePathSegment_inj heq).imp_right (Or.imp ?_ ?_)
  · rintro ⟨hsentinel, htext⟩
    exact ⟨h.system_of_sentinel (.inl hsentinel), htext⟩
  · rintro ⟨hsentinel, htext⟩
    exact ⟨h'.system_of_sentinel (.inl hsentinel), htext⟩

omit h in
theorem meetsSystemUser (hmeets : MeetsSystemTenant scope other)
    (heq : resourceScopePathSegment scope.userId.asStr =
      resourceScopePathSegment other.userId.asStr) : MeetsSystemUser scope other := by
  refine ⟨hmeets, ?_⟩
  obtain ⟨-, huser⟩ := ResourceScope.isSystem_iff.1 hmeets.1
  have hcaller : other.userId.asStr ≠ systemReservedId := by
    intro hsentinel
    -- the sentinel on the user axis comes with the sentinel tenant
    have htenant := (ResourceScope.isSystem_iff.1 (h'.system_of_sentinel (.inr hsentinel))).1
    exact absurd (hmeets.2.symm.trans htenant) (by decide)
  rw [resourceScopePathSegment, if_pos huser, resourceScopePathSegment, if_neg hcaller] at heq
  exact heq.symm

/-- Owners with the same segments: the same one, or the system and its escaped ids. -/
theorem owner_segments_eq
    (htenant : resourceScopePathSegment scope.tenantId.asStr =
      resourceScopePathSegment other.tenantId.asStr)
    (huser : resourceScopePathSegment scope.userId.asStr =
      resourceScopePathSegment other.userId.asStr) :
    (scope.tenantId.asStr = other.tenantId.asStr ∧ scope.userId.asStr = other.userId.asStr) ∨
      MeetsSystemUser scope other ∨ MeetsSystemUser other scope := by
  rcases tenant_segment_eq h h' htenant with hsame | hmeets | hmeets
  · by_cases hsystem : scope.tenantId.asStr = systemReservedId
    · have hscope := ResourceScope.isSystem_iff.1 (h.system_of_sentinel (.inl hsystem))
      have hother := ResourceScope.isSystem_iff.1
        (h'.system_of_sentinel (.inl (hsame.symm.trans hsystem)))
      exact .inl ⟨hsame, hscope.2.trans hother.2.symm⟩
    · have hcaller : ∀ {s : ResourceScope}, s.Admissible → s.tenantId.asStr ≠ systemReservedId →
          s.userId.asStr ≠ systemReservedId := fun hs hne huser =>
        hne (ResourceScope.isSystem_iff.1 (hs.system_of_sentinel (.inr huser))).1
      rw [resourceScopePathSegment, if_neg (hcaller h hsystem), resourceScopePathSegment,
        if_neg (hcaller h' (hsame ▸ hsystem))] at huser
      exact .inl ⟨hsame, huser⟩
  · exact .inr (.inl (meetsSystemUser h' hmeets huser))
  · exact .inr (.inr (meetsSystemUser h hmeets huser.symm))

theorem perUser_isolated_iff :
    ((scope.tenantId, scope.userId) ≠ (other.tenantId, other.userId) →
      Isolated perUserAliases scope other) ↔
        ¬ MeetsSystemUser scope other ∧ ¬ MeetsSystemUser other scope := by
  constructor
  · intro hisolated
    have key : resourceScopePathSegment scope.tenantId.asStr =
        resourceScopePathSegment other.tenantId.asStr → resourceScopePathSegment scope.userId.asStr =
        resourceScopePathSegment other.userId.asStr → scope.tenantId = other.tenantId := by
      intro htenant huser
      by_contra hne
      have hrow : ∀ tenantId userId, perUserRow tenantId userId "/secrets" ∈
          mountRows tenantId userId := fun _ _ =>
        List.mem_append_left _ (List.mem_append_left _ (List.mem_map_of_mem (by decide +kernel)))
      have hname : "/secrets" ∈ perUserAliases := by decide +kernel
      refine not_isolated h h' (hrow _ _) (hrow _ _) rfl ?_ hname
        (hisolated fun heq => hne (congrArg Prod.fst heq))
      rw [htenant, huser]
    refine ⟨fun hmeets => ?_, fun hmeets => ?_⟩
    · obtain ⟨htenant, hne⟩ := hmeets.1.segments
      exact hne (key htenant hmeets.user_segments)
    · obtain ⟨htenant, hne⟩ := hmeets.1.segments
      exact hne (key htenant.symm hmeets.user_segments.symm).symm
  · rintro ⟨hmeets, hmeets'⟩ hne
    refine isolated_perUser h h' fun hroot => ?_
    simp only [userRoot, List.cons.injEq, true_and, and_true, String.toList_inj] at hroot
    rcases owner_segments_eq h h' hroot.1 hroot.2 with ⟨htenant, huser⟩ | hm | hm
    · exact hne (Prod.ext (congrArg TenantId.mk htenant) (congrArg UserId.mk huser))
    · exact hmeets hm
    · exact hmeets' hm

theorem shared_isolated_iff :
    (scope.tenantId ≠ other.tenantId → Isolated tenantSharedAliases scope other) ↔
      ¬ MeetsSystemTenant scope other ∧ ¬ MeetsSystemTenant other scope := by
  constructor
  · intro hisolated
    have key : resourceScopePathSegment scope.tenantId.asStr =
        resourceScopePathSegment other.tenantId.asStr → scope.tenantId = other.tenantId := by
      intro htenant
      by_contra hne
      have hrow : ∀ tenantId userId,
          (⟨"/tenant-shared", "/tenants/" ++ tenantId ++ "/shared", .readWrite⟩ : MountRow) ∈
            mountRows tenantId userId := fun _ _ =>
        List.mem_append_left _ (List.mem_append_right _ List.mem_cons_self)
      refine not_isolated h h' (hrow _ _) (hrow _ _) rfl ?_ List.mem_cons_self (hisolated hne)
      rw [htenant]
    refine ⟨fun hmeets => ?_, fun hmeets => ?_⟩
    · exact hmeets.segments.2 (key hmeets.segments.1)
    · exact hmeets.segments.2 (key hmeets.segments.1.symm).symm
  · rintro ⟨hmeets, hmeets'⟩ hne
    refine isolated_shared h h' fun hroot => ?_
    simp only [sharedRoot, List.cons.injEq, true_and, and_true, String.toList_inj] at hroot
    rcases tenant_segment_eq h h' hroot with htenant | hm | hm
    · exact hne (congrArg TenantId.mk htenant)
    · exact hmeets hm
    · exact hmeets' hm

end Isolation

/-- Storage is isolated for every two admissible scopes, unless one is the system scope and the
other holds the text that the sentinel is escaped to. -/
theorem scope_storage_isolated_iff (scope other : ResourceScope) (h : scope.Admissible)
    (h' : other.Admissible) :
    (StorageIsolated scope other ↔
      ¬ MeetsSystemTenant scope other ∧ ¬ MeetsSystemTenant other scope) ∧
    (((scope.tenantId, scope.userId) ≠ (other.tenantId, other.userId) →
        Isolated perUserAliases scope other) ↔
      ¬ MeetsSystemUser scope other ∧ ¬ MeetsSystemUser other scope) := by
  refine ⟨?_, perUser_isolated_iff h h'⟩
  rw [StorageIsolated, perUser_isolated_iff h h', shared_isolated_iff h h']
  exact and_iff_right_of_imp fun hne => ⟨fun hu => hne.1 hu.1, fun hu => hne.2 hu.1⟩

/-- Two tenants with a user each, and the system. -/
theorem caller_storage_isolated :
    let alice : ResourceScope := ⟨⟨"acme"⟩, ⟨"alice"⟩, none, none, none, none, ⟨0⟩⟩
    let bob : ResourceScope := ⟨⟨"initech"⟩, ⟨"alice"⟩, none, none, none, none, ⟨1⟩⟩
    StorageIsolated alice bob ∧ StorageIsolated alice (ResourceScope.system ⟨2⟩) := by
  intro alice bob
  have halice : alice.Admissible := .inl (by decide +kernel)
  have hbob : bob.Admissible := .inl (by decide +kernel)
  have hsystem : (ResourceScope.system ⟨2⟩).Admissible := .inr (by decide +kernel)
  refine ⟨(scope_storage_isolated_iff alice bob halice hbob).1.2 ⟨?_, ?_⟩,
    (scope_storage_isolated_iff alice _ halice hsystem).1.2 ⟨?_, ?_⟩⟩ <;>
  · rintro ⟨hsys, htext⟩
    revert hsys htext
    decide +kernel

/-- A caller whose tenant and user are both named `__system__` reaches the secrets of the system
scope. -/
theorem escaped_sentinel_reaches_system :
    let caller : ResourceScope := ⟨⟨"__system__"⟩, ⟨"__system__"⟩, none, none, none, none, ⟨0⟩⟩
    let system := ResourceScope.system ⟨1⟩
    caller.Admissible ∧ system.Admissible ∧
      (caller.tenantId, caller.userId) ≠ (system.tenantId, system.userId) ∧
      (∀ scope ∈ [caller, system], ∃ view path target grant,
        invocationMountView scope = .ok view ∧
        view.resolveWithGrant path = .ok (target, grant) ∧ grant.mountAlias.asStr = "/secrets" ∧
        target.asStr = "/tenants/__system__/users/__system__/secrets") ∧
      ¬ StorageIsolated caller system := by
  intro caller system
  have hcaller : caller.Admissible := .inl (by decide +kernel)
  have hsystem : system.Admissible := .inr (by decide +kernel)
  have hrow : perUserRow "__system__" "__system__" "/secrets" ∈ mountRows "__system__" "__system__" :=
    List.mem_append_left _ (List.mem_append_left _ (List.mem_map_of_mem (by decide +kernel)))
  refine ⟨hcaller, hsystem, by decide +kernel, ?_, ?_⟩
  · intro scope hscope
    simp only [List.mem_cons, List.not_mem_nil, or_false] at hscope
    rcases hscope with rfl | rfl
    · exact resolve_row hcaller hrow
    · exact resolve_row hsystem hrow
  · intro hisolated
    exact ((perUser_isolated_iff hcaller hsystem).1 hisolated.1).2 ⟨⟨by decide +kernel, rfl⟩, rfl⟩

end Ironclaw.Composition

import Ironclaw.Filesystem.Types

/-! # Scoped access and its delegation

What a runtime obtains through a mount view: the virtual paths it can name, each with the
operations the governing grant allows. A view is delegated after `is_subset_of`, which compares
grant by grant. Dropping a grant is not always a restriction, because the path it governed falls
to the next shorter alias; `attenuates_iff` says exactly when delegation attenuates. -/

namespace Ironclaw.Filesystem

def operationAllowed (permissions : MountPermissions) : FilesystemOperation → Bool
  | .readFile => permissions.read
  | .writeFile | .appendFile | .createDirAll | .createSubtreeAtomic | .ensureIndex | .beginTxn
  | .append | .reserveSeq => permissions.write
  | .listDir => permissions.list
  | .stat => permissions.read || permissions.list
  | .delete => permissions.delete
  | .mountLocal | .connect => false
  | .query => permissions.read && permissions.list
  | .tail | .headSeq => permissions.read

def resolveWithPermissionView (view : MountView) (path : ScopedPath)
    (operation : FilesystemOperation) : Except FilesystemError VirtualPath :=
  match view.resolveWithGrant path with
  | .error e => .error (.contract e)
  | .ok (virtualPath, grant) =>
    if operationAllowed grant.permissions operation then .ok virtualPath
    else .error (.permissionDenied path operation)

/-- Some scoped path obtains the operation on the virtual path. -/
def Obtains (view : MountView) (target : VirtualPath) (operation : FilesystemOperation) : Prop :=
  ∃ path, resolveWithPermissionView view path operation = .ok target

/-- The child obtains nothing the parent does not. -/
def Attenuates (child parent : MountView) : Prop :=
  ∀ target operation, Obtains child target operation → Obtains parent target operation

variable {operation : FilesystemOperation}

theorem resolveWithPermissionView_eq_ok {view : MountView} {path : ScopedPath}
    {target : VirtualPath} :
    resolveWithPermissionView view path operation = .ok target ↔
      ∃ grant, view.resolveWithGrant path = .ok (target, grant) ∧
        operationAllowed grant.permissions operation = true := by
  unfold resolveWithPermissionView
  split
  · rename_i e he
    simp [he]
  · rename_i virtualPath grant hok
    rw [hok]
    split
    · rename_i hallowed
      simp only [Except.ok.injEq, Prod.mk.injEq]
      exact ⟨fun h => ⟨grant, ⟨h, rfl⟩, hallowed⟩, fun ⟨_, h, _⟩ => h.1⟩
    · rename_i hdenied
      simp only [reduceCtorEq, Except.ok.injEq, Prod.mk.injEq, false_iff]
      rintro ⟨other, ⟨-, rfl⟩, hallowed⟩
      exact hdenied hallowed

theorem operationAllowed_mono {permissions parent : MountPermissions}
    (h : permissions.isSubsetOf parent = true)
    (hallowed : operationAllowed permissions operation = true) :
    operationAllowed parent operation = true := by
  obtain ⟨read, write, delete, list, execute⟩ := permissions
  obtain ⟨read', write', delete', list', execute'⟩ := parent
  simp only [MountPermissions.isSubsetOf, Bool.and_eq_true, Bool.or_eq_true, Bool.not_eq_true'] at h
  obtain ⟨⟨⟨⟨hread, hwrite⟩, hdelete⟩, hlist⟩, -⟩ := h
  cases operation <;> simp only [operationAllowed, Bool.or_eq_true, Bool.and_eq_true] at hallowed ⊢
  all_goals grind

/-- The grant is on the view and still governs the path that continues its alias by `rest`. -/
def Reaches (view : MountView) (grant : MountGrant) (rest : List (List Char)) : Prop :=
  view.Governs grant (grant.aliasParts ++ rest)

/-- Paths below a kept alias that the parent gives to a nested grant the child dropped: each is
still reached in the parent, with the same operations, through the target of another grant that
nothing nested takes it from. -/
def NestedCovered (child parent : MountView) : Prop :=
  ∀ grant nested rest, Reaches child grant rest → (∀ part ∈ rest, Component part) →
    nested ∈ parent.mounts → grant.aliasParts <+: nested.aliasParts →
    grant.aliasParts ≠ nested.aliasParts → nested.aliasParts <+: grant.aliasParts ++ rest →
    ∀ operation, operationAllowed grant.permissions operation = true →
      ∃ other rest', Reaches parent other rest' ∧
        other.targetParts ++ rest' = grant.targetParts ++ rest ∧
        operationAllowed other.permissions operation = true

theorem exists_parent_grant {child parent : MountView} (h : child.isSubsetOf parent = true)
    {grant : MountGrant} (hgrant : grant ∈ child.mounts) :
    ∃ twin ∈ parent.mounts, twin.mountAlias = grant.mountAlias ∧
      twin.targetParts = grant.targetParts ∧
      grant.permissions.isSubsetOf twin.permissions = true := by
  obtain ⟨twin, htwin, hsame⟩ := List.any_eq_true.1 (List.all_eq_true.1 h grant hgrant)
  simp only [Bool.and_eq_true, beq_iff_eq] at hsame
  obtain ⟨⟨halias, htarget⟩, hpermissions⟩ := hsame
  refine ⟨twin, htwin, halias.symm, ?_, hpermissions⟩
  rw [MountGrant.targetParts, MountGrant.targetParts, htarget]

/-- What a valid view gives access to, in terms of its grants. -/
theorem obtains_iff {view : MountView} (hvalid : view.Valid) {target : VirtualPath}
    : Obtains view target operation ↔
      ∃ grant rest, Reaches view grant rest ∧ components target.asStr = grant.targetParts ++ rest ∧
        operationAllowed grant.permissions operation = true := by
  constructor
  · rintro ⟨path, hpath⟩
    obtain ⟨grant, hresolve, hallowed⟩ := resolveWithPermissionView_eq_ok.1 hpath
    obtain ⟨hgoverns, rest, hparts, htarget⟩ := MountView.resolveWithGrant_ok hresolve
    rw [hparts] at hgoverns
    exact ⟨grant, rest, hgoverns, htarget, hallowed⟩
  · rintro ⟨grant, rest, hreaches, htarget, hallowed⟩
    have hne : grant.aliasParts ++ rest ≠ [] :=
      List.append_ne_nil_of_left_ne_nil grant.mountAlias.normal.named _
    have hparts : ∀ part ∈ grant.aliasParts ++ rest, Component part := by
      refine List.forall_mem_append.2 ⟨grant.mountAlias.normal.valid, fun part hp => ?_⟩
      exact target.normal.valid part (htarget ▸ List.mem_append_right _ hp)
    let path : ScopedPath := ⟨pathOf (grant.aliasParts ++ rest), normal_pathOf hne hparts⟩
    have hpath : components path.asStr = grant.aliasParts ++ rest := components_pathOf hne hparts
    have hgoverns : view.Governs grant (components path.asStr) := by
      rw [hpath]
      exact hreaches
    obtain ⟨target', hresolve⟩ := MountView.exists_resolveWithGrant hvalid hgoverns
    obtain ⟨-, rest', hrest, htarget'⟩ := MountView.resolveWithGrant_ok hresolve
    obtain rfl : rest = rest' := List.append_cancel_left (hpath.symm.trans hrest)
    obtain rfl : target' = target := VirtualPath.ext_components (htarget'.trans htarget.symm)
    exact ⟨path, resolveWithPermissionView_eq_ok.2 ⟨grant, hresolve, hallowed⟩⟩

theorem reaches_or_nested {parent : MountView} {twin : MountGrant} (htwin : twin ∈ parent.mounts)
    (rest : List (List Char)) : Reaches parent twin rest ∨
      ∃ nested ∈ parent.mounts, twin.aliasParts <+: nested.aliasParts ∧
        twin.aliasParts ≠ nested.aliasParts ∧ nested.aliasParts <+: twin.aliasParts ++ rest := by
  by_cases hlongest : ∀ other ∈ parent.mounts, other.aliasParts <+: twin.aliasParts ++ rest →
      other.aliasParts.length ≤ twin.aliasParts.length
  · exact .inl ⟨htwin, List.prefix_append _ _, hlongest⟩
  · push Not at hlongest
    obtain ⟨nested, hnested, hcovers, hlonger⟩ := hlongest
    refine .inr ⟨nested, hnested, ?_, ?_, hcovers⟩
    · exact List.prefix_of_prefix_length_le (List.prefix_append _ _) hcovers hlonger.le
    · exact fun heq => Nat.lt_irrefl _ (heq ▸ hlonger)

/-- A delegated view obtains nothing new exactly when the paths of the nested grants it dropped
are reached in the parent in another way. -/
theorem attenuates_iff (child parent : MountView) (hchild : child.validate = .ok ())
    (hparent : parent.validate = .ok ()) (hsubset : child.isSubsetOf parent = true) :
    Attenuates child parent ↔ NestedCovered child parent := by
  rw [MountView.validate_eq_ok] at hchild hparent
  constructor
  · intro hatt grant nested rest hreaches hparts _ _ _ _ operation hallowed
    obtain ⟨target, -, htarget⟩ := grant.target.exists_append hparts
    have hobtains := (obtains_iff hchild).2 ⟨grant, rest, hreaches, htarget, hallowed⟩
    obtain ⟨other, rest', hother, htarget', hallowed'⟩ :=
      (obtains_iff hparent).1 (hatt target operation hobtains)
    exact ⟨other, rest', hother, htarget'.symm.trans htarget, hallowed'⟩
  · intro hcovered target operation hobtains
    obtain ⟨grant, rest, hreaches, htarget, hallowed⟩ := (obtains_iff hchild).1 hobtains
    rw [obtains_iff hparent]
    obtain ⟨twin, htwin, halias, htwinTarget, hpermissions⟩ :=
      exists_parent_grant hsubset hreaches.mem
    have hparts : twin.aliasParts = grant.aliasParts := by
      rw [MountGrant.aliasParts, MountGrant.aliasParts, halias]
    rcases reaches_or_nested htwin rest with hkept | ⟨nested, hnested, hbelow, hne, hcovers⟩
    · exact ⟨twin, rest, hkept, by rw [htarget, htwinTarget],
        operationAllowed_mono hpermissions hallowed⟩
    · rw [hparts] at hbelow hne hcovers
      have hvalid : ∀ part ∈ rest, Component part := fun part hp =>
        target.normal.valid part (htarget ▸ List.mem_append_right _ hp)
      obtain ⟨other, rest', hother, hsame, hallowed'⟩ := hcovered grant nested rest hreaches hvalid
        hnested hbelow hne hcovers operation hallowed
      exact ⟨other, rest', hother, htarget.trans hsame.symm, hallowed'⟩

theorem normal_project : Normal "/projects/p1" :=
  @normalizeAbsolutePath_normal "/projects/p1" _ .virtual (by decide +kernel)

theorem rooted_project : hasKnownRoot "/projects/p1" = true := by decide +kernel

/-- The whole project, to read, write and delete. -/
def workspaceGrant : MountGrant where
  mountAlias := ⟨"/workspace",
    @normalizeAbsolutePath_normal "/workspace" _ .mountAlias (by decide +kernel)⟩
  target := ⟨"/projects/p1", normal_project, rooted_project⟩
  permissions := .readWriteListDelete

/-- A part of the project that may only be read. -/
def vaultGrant : MountGrant where
  mountAlias := ⟨"/workspace/vault",
    @normalizeAbsolutePath_normal "/workspace/vault" _ .mountAlias (by decide +kernel)⟩
  target := ⟨"/projects/p1/vault",
    @normalizeAbsolutePath_normal "/projects/p1/vault" _ .virtual (by decide +kernel),
    by decide +kernel⟩
  permissions := .readOnly

/-- The vault's grant alone, delegated from both. -/
theorem vault_alone_attenuates : Attenuates ⟨[vaultGrant]⟩ ⟨[workspaceGrant, vaultGrant]⟩ := by
  refine (attenuates_iff ⟨[vaultGrant]⟩ ⟨[workspaceGrant, vaultGrant]⟩ (by decide +kernel)
    (by decide +kernel) (by decide +kernel)).2 ?_
  intro grant nested rest hreaches _ hnested hbelow hne
  obtain rfl := List.mem_singleton.1 hreaches.mem
  rcases List.mem_cons.1 hnested with rfl | hnested
  · exact absurd hbelow (by decide +kernel)
  · obtain rfl := List.mem_singleton.1 hnested
    exact absurd rfl hne

/-- The parent lets the vault only be read; the child that drops the grant for the vault deletes
it. -/
theorem dropped_vault_escalates : let child : MountView := ⟨[workspaceGrant]⟩
    let parent : MountView := ⟨[workspaceGrant, vaultGrant]⟩
    child.validate = .ok () ∧ parent.validate = .ok () ∧ child.isSubsetOf parent = true ∧
      Obtains child vaultGrant.target .delete ∧ ¬ Obtains parent vaultGrant.target .delete ∧
      ¬ Attenuates child parent := by
  intro child parent
  have hchild : child.validate = .ok () := by decide +kernel
  have hparent : parent.validate = .ok () := by decide +kernel
  have hobtains : Obtains child vaultGrant.target .delete := by
    refine (obtains_iff (MountView.validate_eq_ok.1 hchild)).2
      ⟨workspaceGrant, ["vault".toList], ⟨List.mem_cons_self, List.prefix_append _ _, ?_⟩,
        by decide +kernel, rfl⟩
    intro other hother _
    rw [List.mem_singleton.1 hother]
  have hdenied : ¬ Obtains parent vaultGrant.target .delete := by
    rw [obtains_iff (MountView.validate_eq_ok.1 hparent)]
    rintro ⟨grant, rest, hreaches, htarget, hallowed⟩
    rcases List.mem_cons.1 hreaches.mem with rfl | hgrant
    -- the workspace alone would allow it, but the vault's own alias is longer
    · have hsplit : components vaultGrant.target.asStr =
          workspaceGrant.targetParts ++ ["vault".toList] := by decide +kernel
      obtain rfl : ["vault".toList] = rest := List.append_cancel_left (hsplit.symm.trans htarget)
      have hlonger := hreaches.longest vaultGrant (by simp [parent]) (by decide +kernel)
      exact absurd hlonger (by decide +kernel)
    · obtain rfl := List.mem_singleton.1 hgrant
      exact Bool.noConfusion hallowed
  exact ⟨hchild, hparent, by decide +kernel, hobtains, hdenied, fun h => hdenied (h _ _ hobtains)⟩

end Ironclaw.Filesystem

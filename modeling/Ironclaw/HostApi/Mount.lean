import Mathlib.Data.List.MinMax
import Ironclaw.HostApi.Path

/-! # Mount views

The grants of `mount.rs` and their resolution. The code compares alias texts and their byte
lengths; `Governs` says the same of components, the grant whose alias names the longest initial
part of the path, and `resolveWithGrant_ok` and `exists_resolveWithGrant` connect the two. -/

namespace Ironclaw

/-- What may be done below a mount. -/
structure MountPermissions where
  read : Bool
  write : Bool
  delete : Bool
  list : Bool
  execute : Bool

namespace MountPermissions

def readOnly : MountPermissions := ⟨true, false, false, true, false⟩

def readWrite : MountPermissions := ⟨true, true, false, true, false⟩

def readWriteListDelete : MountPermissions := ⟨true, true, true, true, false⟩

def isSubsetOf (self parent : MountPermissions) : Bool :=
  (!self.read || parent.read) && (!self.write || parent.write) &&
    (!self.delete || parent.delete) && (!self.list || parent.list) &&
    (!self.execute || parent.execute)

end MountPermissions

/-- An alias, with the path it stands for. -/
structure MountGrant where
  mountAlias : MountAlias
  target : VirtualPath
  permissions : MountPermissions

/-- The mounts of an invocation. -/
structure MountView where
  mounts : List MountGrant

/-- `Iterator::max_by_key`: of the elements with the greatest key, the last. -/
def maxByKey {α : Type} (key : α → ℕ) (elements : List α) : Option α :=
  elements.reverse.argmax key

namespace MountView

/-- The loop of `validate`, with the aliases seen so far. -/
def validateFrom (seen : List String) : List MountGrant → Except HostApiError Unit
  | [] => .ok ()
  | mount :: rest =>
    if mount.mountAlias.asStr ∈ seen then
      .error (.invalidMount mount.mountAlias.asStr "duplicate mount alias")
    else validateFrom (mount.mountAlias.asStr :: seen) rest

def validate (view : MountView) : Except HostApiError Unit := validateFrom [] view.mounts

def new (mounts : List MountGrant) : Except HostApiError MountView := do
  validate ⟨mounts⟩
  return ⟨mounts⟩

/-- The path that a scoped path stands for, and the grant that governs it. -/
def resolveWithGrant (view : MountView) (path : ScopedPath) :
    Except HostApiError (VirtualPath × MountGrant) := do
  let mount ← okOr
    (maxByKey (fun mount => mount.mountAlias.asStr.utf8ByteSize)
      (view.mounts.filter fun mount => pathMatchesAlias mount.mountAlias.asStr path.asStr))
    (.invalidMount path.asStr "no mount alias matches scoped path")
  let tail :=
    Text.trimStartMatches ((Text.stripHead path.asStr mount.mountAlias.asStr).getD "") '/'
  let target ← mount.target.joinTail tail
  return (target, mount)

def isSubsetOf (self parent : MountView) : Bool :=
  self.mounts.all fun child =>
    parent.mounts.any fun parentMount =>
      child.mountAlias == parentMount.mountAlias &&
        child.target.asStr == parentMount.target.asStr &&
        child.permissions.isSubsetOf parentMount.permissions

end MountView

/-! ### Aliases as components -/

namespace MountGrant

def aliasParts (grant : MountGrant) : List (List Char) := components grant.mountAlias.asStr

def targetParts (grant : MountGrant) : List (List Char) := components grant.target.asStr

end MountGrant

/-- The aliases of the view are pairwise different. -/
def MountView.Valid (view : MountView) : Prop :=
  (view.mounts.map fun mount => mount.mountAlias.asStr).Nodup

theorem validateFrom_eq_ok {seen : List String} {mounts : List MountGrant} {u : Unit} :
    MountView.validateFrom seen mounts = .ok u ↔
      (mounts.map fun mount => mount.mountAlias.asStr).Nodup ∧
        ∀ mount ∈ mounts, mount.mountAlias.asStr ∉ seen := by
  induction mounts generalizing seen with
  | nil => simp [MountView.validateFrom]
  | cons mount rest ih =>
    rw [MountView.validateFrom, List.map_cons, List.nodup_cons, List.forall_mem_cons]
    split
    · rename_i hseen
      simp [hseen]
    · rename_i hseen
      rw [ih]
      simp only [List.mem_cons, not_or, List.mem_map, not_exists, not_and]
      constructor
      · rintro ⟨hnodup, hrest⟩
        exact ⟨⟨fun other hother => (hrest other hother).1, hnodup⟩, hseen,
          fun other hother => (hrest other hother).2⟩
      · rintro ⟨⟨hne, hnodup⟩, -, hrest⟩
        exact ⟨hnodup, fun other hother => ⟨hne other hother, hrest other hother⟩⟩

theorem MountView.validate_eq_ok {view : MountView} {u : Unit} :
    view.validate = .ok u ↔ view.Valid := by
  rw [MountView.validate, validateFrom_eq_ok]
  exact and_iff_left fun mount _ => List.not_mem_nil

theorem MountView.new_eq_ok {mounts : List MountGrant} {view : MountView} :
    MountView.new mounts = .ok view ↔ view.mounts = mounts ∧ view.Valid := by
  rw [MountView.new, bind_eq_ok]
  constructor
  · rintro ⟨u, hvalid, hview⟩
    obtain rfl := pure_eq_ok.1 hview
    exact ⟨rfl, MountView.validate_eq_ok.1 hvalid⟩
  · rintro ⟨rfl, hvalid⟩
    exact ⟨(), MountView.validate_eq_ok.2 hvalid, rfl⟩

/-! ### The governing grant -/

namespace MountView

/-- `grant` names the longest initial part of the path that an alias of the view names. -/
structure Governs (view : MountView) (grant : MountGrant) (parts : List (List Char)) : Prop where
  mem : grant ∈ view.mounts
  covers : grant.aliasParts <+: parts
  longest : ∀ other ∈ view.mounts, other.aliasParts <+: parts →
    other.aliasParts.length ≤ grant.aliasParts.length

theorem matches_iff (grant : MountGrant) (path : ScopedPath) :
    pathMatchesAlias grant.mountAlias.asStr path.asStr = true ↔
      grant.aliasParts <+: components path.asStr :=
  pathMatchesAlias_iff grant.mountAlias.normal path.normal

/-- Of two normal texts, one extending the other, the longer has more components. -/
theorem utf8ByteSize_lt {short long : String} (hshort : Normal short) (hlong : Normal long)
    (hpre : components short <+: components long)
    (hlen : (components short).length < (components long).length) :
    short.utf8ByteSize < long.utf8ByteSize := by
  obtain ⟨tail, htail⟩ := hpre
  have htext : long = short ++ String.ofList (render '/' tail) := by
    rw [← String.toList_inj, String.toList_append, String.toList_ofList, hlong.rendered, ← htail,
      render_append, ← hshort.rendered]
  have hne : String.ofList (render '/' tail) ≠ "" := by
    rw [ne_eq, String.ofList_eq_empty_iff]
    intro hnil
    have htail' : tail ≠ [] := by
      rintro rfl
      rw [← htail, List.append_nil] at hlen
      exact lt_irrefl _ hlen
    rw [render_eq_intercalate htail'] at hnil
    exact List.cons_ne_nil _ _ hnil
  have hpos : 0 < (String.ofList (render '/' tail)).utf8ByteSize :=
    Nat.pos_of_ne_zero fun h => hne (String.utf8ByteSize_eq_zero_iff.1 h)
  rw [htext, String.utf8ByteSize_append]
  exact Nat.lt_add_of_pos_right hpos

variable {grant : MountGrant} {view : MountView} {path : ScopedPath}

theorem maxByKey_governs
    (h : maxByKey (fun mount => mount.mountAlias.asStr.utf8ByteSize)
      (view.mounts.filter fun mount => pathMatchesAlias mount.mountAlias.asStr path.asStr) =
        some grant) : view.Governs grant (components path.asStr) := by
  obtain ⟨hmem, hmatch⟩ := List.mem_filter.1 (List.mem_reverse.1 (List.argmax_mem h))
  refine ⟨hmem, (matches_iff grant path).1 hmatch, fun other hother hcovers => ?_⟩
  by_contra hlonger
  -- the longer alias extends the shorter one, so its text has more bytes
  have hpre : grant.aliasParts <+: other.aliasParts :=
    List.prefix_of_prefix_length_le ((matches_iff grant path).1 hmatch) hcovers
      (Nat.le_of_lt (Nat.lt_of_not_le hlonger))
  have hlt := utf8ByteSize_lt grant.mountAlias.normal other.mountAlias.normal hpre
    (Nat.lt_of_not_le hlonger)
  have hle := List.le_of_mem_argmax
    (List.mem_reverse.2 (List.mem_filter.2 ⟨hother, (matches_iff other path).2 hcovers⟩)) h
  exact absurd hlt (Nat.not_lt.2 hle)

theorem Governs.unique (hvalid : view.Valid) {grant other : MountGrant}
    {parts : List (List Char)} (h : view.Governs grant parts) (h' : view.Governs other parts) :
    grant = other := by
  have hlen : grant.aliasParts.length = other.aliasParts.length :=
    Nat.le_antisymm (h'.longest grant h.mem h.covers) (h.longest other h'.mem h'.covers)
  have hparts : grant.aliasParts = other.aliasParts :=
    (List.prefix_of_prefix_length_le h.covers h'.covers (Nat.le_of_eq hlen)).eq_of_length hlen
  exact List.inj_on_of_nodup_map hvalid h.mem h'.mem
    (grant.mountAlias.normal.ext other.mountAlias.normal hparts)

theorem governs_alias (h : grant ∈ view.mounts) : view.Governs grant grant.aliasParts :=
  ⟨h, List.prefix_rfl, fun _ _ hcovers => hcovers.length_le⟩

theorem stripHead_alias {tail : List (List Char)}
    (h : components path.asStr = grant.aliasParts ++ tail) :
    (Text.stripHead path.asStr grant.mountAlias.asStr).getD "" =
      String.ofList (render '/' tail) := by
  have htext : path.asStr.toList = grant.mountAlias.asStr.toList ++ render '/' tail := by
    rw [path.normal.rendered, h, render_append, grant.mountAlias.normal.rendered]
    rfl
  rw [Text.stripHead, if_pos (Text.startsWith_iff.2 ⟨_, htext⟩), htext, List.drop_left]
  rfl

theorem resolveWithGrant_ok {target : VirtualPath}
    (h : view.resolveWithGrant path = .ok (target, grant)) :
    view.Governs grant (components path.asStr) ∧ ∃ tail,
      components path.asStr = grant.aliasParts ++ tail ∧
        components target.asStr = grant.targetParts ++ tail := by
  obtain ⟨mount, hmount, hjoin⟩ := bind_eq_ok.1 h
  obtain ⟨joined, hjoined, heq⟩ := bind_eq_ok.1 hjoin
  obtain ⟨rfl, rfl⟩ := Prod.mk.inj (pure_eq_ok.1 heq)
  have hgoverns := maxByKey_governs (okOr_eq_ok.1 hmount)
  obtain ⟨tail, htail⟩ := hgoverns.covers
  have hvalid : ∀ part ∈ tail, Component part := fun part hp =>
    path.normal.valid part (htail ▸ List.mem_append_right _ hp)
  obtain ⟨other, hother, hparts⟩ := mount.target.joinTail_components hvalid
  rw [stripHead_alias htail.symm, hother] at hjoined
  obtain rfl := Except.ok.inj hjoined
  exact ⟨hgoverns, tail, htail.symm, hparts⟩

theorem exists_resolveWithGrant (hvalid : view.Valid)
    (h : view.Governs grant (components path.asStr)) :
    ∃ target, view.resolveWithGrant path = .ok (target, grant) := by
  have hsome : ∃ mount, maxByKey (fun mount => mount.mountAlias.asStr.utf8ByteSize)
      (view.mounts.filter fun mount => pathMatchesAlias mount.mountAlias.asStr path.asStr) =
        some mount := by
    rw [← Option.ne_none_iff_exists', maxByKey, ne_eq, List.argmax_eq_none, List.reverse_eq_nil_iff]
    exact List.ne_nil_of_mem (List.mem_filter.2 ⟨h.mem, (matches_iff grant path).2 h.covers⟩)
  obtain ⟨mount, hmount⟩ := hsome
  obtain rfl := h.unique hvalid (maxByKey_governs hmount)
  obtain ⟨tail, htail⟩ := h.covers
  have hparts : ∀ part ∈ tail, Component part := fun part hp =>
    path.normal.valid part (htail ▸ List.mem_append_right _ hp)
  obtain ⟨target, htarget, -⟩ := grant.target.joinTail_components hparts
  refine ⟨target, bind_eq_ok.2 ⟨grant, okOr_eq_ok.2 hmount, bind_eq_ok.2 ⟨target, ?_, rfl⟩⟩⟩
  rw [stripHead_alias htail.symm]
  exact htarget

end MountView

end Ironclaw

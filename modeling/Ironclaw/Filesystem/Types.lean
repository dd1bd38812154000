import Mathlib.Data.String.Basic
import Mathlib.Data.Sum.Order
import Ironclaw.Lib.Saturating
import Ironclaw.Lib.Table
import Ironclaw.HostApi.Mount

/-! # Records, operations and errors of the filesystem -/

namespace Ironclaw.Filesystem

inductive FilesystemOperation
  | mountLocal
  | connect
  | readFile
  | writeFile
  | appendFile
  | listDir
  | stat
  | delete
  | createDirAll
  | query
  | ensureIndex
  | beginTxn
  | createSubtreeAtomic
  | append
  | tail
  | headSeq
  | reserveSeq
deriving DecidableEq

/-- The version counter of a record; it stops at the largest value. -/
abbrev RecordVersion := Saturating (2 ^ 64 - 1)

namespace RecordVersion

/-- The version of a record that was just created. -/
def first : RecordVersion := ⟨1, by decide⟩

def next (version : RecordVersion) : RecordVersion := version.add first

@[simp] theorem val_first : first.val = 1 := rfl

theorem val_next_of_lt {version : RecordVersion} (h : version.val < 2 ^ 64 - 1) :
    (next version).val = version.val + 1 := by
  rw [next, Saturating.val_add, val_first]
  omega

end RecordVersion

structure IndexName where
  asStr : String
deriving DecidableEq

structure IndexKey where
  asStr : String
deriving DecidableEq

inductive IndexConflictReason
  | specMismatch
  | emptyKeys
deriving DecidableEq

/-- The failures that the modelled operations report. -/
inductive FilesystemError
  | contract (error : HostApiError)
  | permissionDenied (path : ScopedPath) (operation : FilesystemOperation)
  | notFound (path : VirtualPath) (operation : FilesystemOperation)
  | pathOutsideMount (path : VirtualPath)
  | backend (path : VirtualPath) (operation : FilesystemOperation) (reason : String)
  | versionMismatch (path : VirtualPath) (expected found : Option RecordVersion)
  | unsupported (path : VirtualPath) (operation : FilesystemOperation)
  | indexConflict (path : VirtualPath) (name : IndexName) (reason : IndexConflictReason)
deriving DecidableEq

/-! ### Index values -/

/-- A value projected out of a record. -/
inductive IndexValue
  | bool (value : Bool)
  | i64 (value : ℤ)
  | text (value : String)
  | bytes (value : List (Fin 256))
deriving DecidableEq

namespace IndexValue

/-- The value as an element of an ordered sum: by kind first, then by content. -/
def rank : IndexValue → Bool ⊕ₗ ℤ ⊕ₗ String ⊕ₗ List (Fin 256)
  | .bool value => Sum.inlₗ value
  | .i64 value => Sum.inrₗ (Sum.inlₗ value)
  | .text value => Sum.inrₗ (Sum.inrₗ (Sum.inlₗ value))
  | .bytes value => Sum.inrₗ (Sum.inrₗ (Sum.inrₗ value))

theorem rank_injective : Function.Injective rank := by
  intro a b h
  cases a <;> cases b <;> simp_all [rank]

/-- The derived order of the source. -/
instance : LinearOrder IndexValue := LinearOrder.lift' rank rank_injective

end IndexValue

/-! ### Stored records -/

structure ContentType where
  asStr : String
deriving DecidableEq

structure RecordKind where
  asStr : String
deriving DecidableEq

/-- The thing stored at a virtual path: a file when it has no kind, else a record. -/
structure Entry where
  body : List (Fin 256)
  contentType : ContentType
  kind : Option RecordKind
  indexed : List (IndexKey × IndexValue)
deriving DecidableEq

namespace Entry

def index (entry : Entry) (key : IndexKey) : Option IndexValue :=
  (entry.indexed.find? fun field => field.1 = key).map (·.2)

def bytes (body : List (Fin 256)) : Entry := ⟨body, ⟨"application/octet-stream"⟩, none, []⟩

end Entry

structure VersionedEntry where
  path : VirtualPath
  entry : Entry
  version : RecordVersion
deriving DecidableEq

/-- What a write expects to find. -/
inductive CasExpectation
  | absent
  | version (expected : RecordVersion)
  | any

inductive IndexKind
  | exact
  | pre
  | fts
  | vector (dim : ℕ)
deriving DecidableEq

structure IndexSpec where
  name : IndexName
  keys : List IndexKey
  kind : IndexKind
deriving DecidableEq

end Ironclaw.Filesystem

import PhaseHost.Store.Basic

/-! # The store in memory

    Entries of one version only: keeping bytes for a version lets go of every
    entry of another one, while the two builds of a version live side by side. -/

namespace PhaseHost

/-- Kept bytes with their key and the version they were kept for. -/
structure MemoryEntry where
  key : CacheKey
  version : String
  bytes : Bytes
  deriving DecidableEq, Repr

/-- Entries with pairwise different keys. -/
structure MemoryStore where
  entries : List MemoryEntry
  deriving DecidableEq, Repr

namespace MemoryStore

/-- A store without entries. -/
def empty : MemoryStore := ⟨[]⟩

/-- The bytes under a key. -/
def get? (key : CacheKey) (s : MemoryStore) : Option Bytes :=
  (s.entries.find? (fun e => e.key = key)).map MemoryEntry.bytes

/-- Keep bytes for a variant. -/
def put (v : Variant) (bytes : Bytes) (s : MemoryStore) : MemoryStore :=
  let kept := s.entries.filter (fun e => e.version = v.version)
  ⟨⟨v.key, v.version, bytes⟩ :: kept.filter (fun e => e.key ≠ v.key)⟩

/-- The number of entries. -/
def size (s : MemoryStore) : Nat :=
  s.entries.length

/-- The store in memory, as a store. -/
def store : Store MemoryStore where
  get key s := (s.get? key, s)
  put := put

end MemoryStore
end PhaseHost

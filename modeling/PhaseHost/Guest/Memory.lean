import PhaseHost.Text.Utf8

/-! # Linear memory

    A memory has a size in bytes and a byte at every address below it.  It
    starts out as zeros; what was written is kept as segments, the newest first,
    so that a large memory costs no more than what lies in it.

    Nothing is read or written unless the whole range lies inside. -/

namespace PhaseHost

/-- Bytes from an address on. -/
structure Segment where
  start : Nat
  bytes : Bytes
  deriving DecidableEq, Repr

/-- The byte a segment has at an address. -/
def Segment.byte? (s : Segment) (address : Nat) : Option UInt8 :=
  if s.start ≤ address then s.bytes[address - s.start]? else none

/-- Put a segment over bytes that start at an address. -/
def Segment.over (s : Segment) (address : Nat) (base : Bytes) : Bytes :=
  let before := base.take (s.start - address)
  let room := base.length - before.length
  let middle := (s.bytes.drop (address - s.start)).take room
  before ++ (middle ++ base.drop (before.length + middle.length))

/-- The memory of a guest. -/
structure Memory where
  size : Nat
  segments : List Segment
  deriving DecidableEq, Repr

namespace Memory

/-- The unit in which memories grow. -/
def pageSize : Nat := 65536

/-- The largest size that thirty-two bit addresses reach. -/
def sizeMax : Nat := 0x100000000

/-- A memory of zeros. -/
def zeros (size : Nat) : Memory := ⟨size, []⟩

/-- The byte at an address. -/
def byte (m : Memory) (address : Nat) : UInt8 :=
  (m.segments.findSome? (fun s => s.byte? address)).getD 0

/-- Whether a range lies inside. -/
def covers (m : Memory) (address length : Nat) : Bool :=
  address + length ≤ m.size

/-- The bytes of a range. -/
def range (m : Memory) (address length : Nat) : Bytes :=
  m.segments.foldr (fun s base => s.over address base) (List.replicate length 0)

/-- Read a range, if it lies inside. -/
def read (m : Memory) (address length : Nat) : Option Bytes :=
  if m.covers address length then some (m.range address length) else none

/-- Write bytes, if their range lies inside. -/
def write (m : Memory) (address : Nat) (bytes : Bytes) : Option Memory :=
  if m.covers address bytes.length then some { m with segments := ⟨address, bytes⟩ :: m.segments }
  else none

/-- Grow by pages, up to a limit. -/
def grow (m : Memory) (pages limit : Nat) : Option Memory :=
  let size := m.size + pages * pageSize
  if size ≤ limit ∧ size ≤ sizeMax then some { m with size := size } else none

end Memory
end PhaseHost

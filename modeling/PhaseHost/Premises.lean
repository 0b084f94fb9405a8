import PhaseHost.Fetch.Basic
import PhaseHost.Guest.Program
import PhaseHost.Play.Basic
import PhaseHost.Settings
import PhaseHost.Store.Memory
import PhaseHost.Store.Table

/-! # Premises

    What a host works with when it is set up from its settings: a disk that
    holds modules and the table of stored ones, and a store in memory that takes
    the table's place when nothing is to be kept. -/

namespace PhaseHost

/-- A disk and a store in memory. -/
structure Premises where
  disk : Disk
  memory : MemoryStore
  deriving DecidableEq, Repr

namespace Premises

/-- Premises over a disk, with nothing in memory. -/
def ofDisk (disk : Disk) : Premises :=
  ⟨disk, MemoryStore.empty⟩

/-- The store in memory. -/
def inMemory : Store Premises where
  get key p := (p.memory.get? key, p)
  put v bytes p := { p with memory := p.memory.put v bytes }

/-- The store on the disk. -/
def onDisk (t : Table) : Store Premises where
  get key p :=
    let (found, disk) := t.get key p.disk
    (found, { p with disk := disk })
  put v bytes p := { p with disk := t.put v bytes p.disk }

/-- The table that settings name, for a host in a directory. -/
def table (s : Settings) (current : Place) : Table :=
  ⟨current, s.tablePath⟩

/-- The store that settings ask for. -/
def store (s : Settings) (current : Place) : Store Premises :=
  if s.cacheDisabled then inMemory else onDisk (table s current)

/-- The limits that settings put on guests. -/
def limits (s : Settings) : GuestLimits :=
  ⟨s.callFuel, s.memoryLimitBytes⟩

/-- The backend that settings ask for. -/
def backend (s : Settings) (current : Place) : Backend Premises (Instance ImageState) :=
  ⟨store s current, Image.runtime (limits s)⟩

/-- The fetch of an attempt: from the disk or the web, at once. -/
def fetching (s : Settings) (current : Place) (web : Web) :
    Fetching Premises (Instance ImageState) :=
  fun _ loader n =>
    (loader.attempts[n]?).map (fun a =>
      fetch web loader.store.disk current s.maxModuleBytes a.location)

/-- The stage that settings ask for. -/
def stage (s : Settings) (current : Place) (web : Web) : Stage Premises (Instance ImageState) :=
  ⟨backend s current, fetching s current web⟩

end Premises
end PhaseHost

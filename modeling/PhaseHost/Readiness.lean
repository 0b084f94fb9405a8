import PhaseHost.Json.Decode

/-! # Readiness

    How much of the compute module is in place.  The reader alone serves the
    actions that need no evaluation; the engine serves all of them. -/

namespace PhaseHost

/-- The capability state of a host, which only ever moves up. -/
inductive Readiness where
  | idle
  | readerOnly
  | full
  deriving DecidableEq, Repr, Inhabited

namespace Readiness

/-- The name on the wire. -/
def name : Readiness → String
  | .idle => "none"
  | .readerOnly => "partial"
  | .full => "full"

/-- The states with their names, lowest first. -/
def choices : List (String × Readiness) :=
  [("none", .idle), ("partial", .readerOnly), ("full", .full)]

/-- A state from its name. -/
def ofJson : Json → Decoded Readiness :=
  Json.toChoice choices

/-- The name as a value. -/
def toJson (r : Readiness) : Json :=
  .str r.name

/-- The place in the order. -/
def rank : Readiness → Nat
  | .idle => 0
  | .readerOnly => 1
  | .full => 2

/-- States are ordered by how much is in place. -/
instance : LE Readiness := ⟨fun a b => a.rank ≤ b.rank⟩

/-- Strictly less in place. -/
instance : LT Readiness := ⟨fun a b => a.rank < b.rank⟩

instance (a b : Readiness) : Decidable (a ≤ b) := inferInstanceAs (Decidable (a.rank ≤ b.rank))

instance (a b : Readiness) : Decidable (a < b) := inferInstanceAs (Decidable (a.rank < b.rank))

/-- Move up to a state, never down. -/
def advance (current next : Readiness) : Readiness :=
  if current < next then next else current

theorem le_refl (a : Readiness) : a ≤ a :=
  Nat.le_refl a.rank

theorem le_trans {a b c : Readiness} (hab : a ≤ b) (hbc : b ≤ c) : a ≤ c :=
  Nat.le_trans hab hbc

/-- Advancing never goes down. -/
theorem le_advance (current next : Readiness) : current ≤ current.advance next := by
  cases current <;> cases next <;> decide

/-- There is nothing beyond full readiness. -/
theorem le_full (a : Readiness) : a ≤ .full := by
  cases a <;> decide

theorem eq_full {a : Readiness} (h : .full ≤ a) : a = .full := by
  cases a with
  | idle => exact absurd h (by decide)
  | readerOnly => exact absurd h (by decide)
  | full => rfl

/-- Advancing leaves idleness behind. -/
theorem advance_ne_idle (current : Readiness) {next : Readiness} (h : next ≠ .idle) :
    current.advance next ≠ .idle := by
  cases next with
  | idle => exact absurd rfl h
  | readerOnly => cases current <;> decide
  | full => cases current <;> decide

end Readiness
end PhaseHost

import PhaseHost.Text.Utf8
import PhaseHost.Variant.Basic

/-! # Stores of module bytes

    A store answers a look-up with bytes or not at all, and takes bytes for a
    variant.  It never fails: what it cannot keep it forgets. -/

namespace PhaseHost

/-- The two operations of a store with states in `σ`.  A look-up may change the
    state too: it makes what it needs to look at. -/
structure Store (σ : Type) where
  get : CacheKey → σ → Option Bytes × σ
  put : Variant → Bytes → σ → σ

end PhaseHost

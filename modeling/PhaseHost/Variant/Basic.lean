import PhaseHost.Json.Decode

/-! # Variants of the compute module

    A variant is one build of one version.  Its cache key joins the two, and
    since the name of a build has no underscore the key can be read back. -/

namespace PhaseHost

/-- The two builds of the compute module. -/
inductive VariantKind where
  /-- The small build: parse, format, symbols. -/
  | reader
  /-- The full build, with evaluation. -/
  | engine
  deriving DecidableEq, Repr, Inhabited

namespace VariantKind

/-- The name of a build. -/
def name : VariantKind → String
  | .reader => "reader"
  | .engine => "engine"

/-- The builds with their names. -/
def choices : List (String × VariantKind) :=
  [("reader", .reader), ("engine", .engine)]

/-- A build from its name. -/
def ofJson : Json → Decoded VariantKind :=
  Json.toChoice choices

/-- The name as a value. -/
def toJson (k : VariantKind) : Json :=
  .str k.name

end VariantKind

/-- A build of a version. -/
structure Variant where
  kind : VariantKind
  version : String
  deriving DecidableEq, Repr, Inhabited

/-- The name under which the bytes of a variant are kept. -/
structure CacheKey where
  text : String
  deriving DecidableEq, Repr, Inhabited

/-- Version and build, joined by an underscore. -/
def Variant.key (v : Variant) : CacheKey :=
  ⟨v.version ++ "_" ++ v.kind.name⟩

end PhaseHost

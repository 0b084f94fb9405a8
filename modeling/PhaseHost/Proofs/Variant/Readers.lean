import Mathlib.Data.List.Infix
import PhaseHost.Variant.Location

/-! # Derived readers

    A request that names no reader leaves its location to be derived from the engine's.
    There are two rules for that: the mark goes in front of the ending, or behind a
    location without one.  An engine may be called anything, also what a derived reader
    is called, so two engines of different rules could meet on one reader.

    They do not.  The route:

    * cutting off an ending is the inverse of putting one behind (`beforeEnd?_eq_some_iff`),
      so a location is derived by the first rule exactly if it has the ending;
    * the rules are a relation between engines and readers, and the location of a reader
      is the one that the relation allows (`readerLocation_eq_iff`);
    * a reader has the ending exactly if its engine has it (`Derives.endsIn_iff`), so a
      reader tells the rule it comes from, and within one rule the engine is what is left
      without the mark. -/

namespace PhaseHost

/-! ## Endings -/

namespace Text

variable {ending s stem : String}

/-- A text ENDS IN another, behind anything. -/
def EndsIn (ending s : String) : Prop :=
  ∃ stem, s = stem ++ ending

/-- What remains before an ending is what the ending was put behind. -/
theorem beforeEnd?_eq_some_iff : beforeEnd? ending s = some stem ↔ s = stem ++ ending := by
  rw [beforeEnd?, Option.ite_none_right_eq_some, List.isSuffixOf_iff_suffix, Option.some.injEq,
    ← String.toList_inj, String.toList_ofList, ← String.length_toList, ← String.length_toList]
  constructor
  · rintro ⟨hsuffix, hstem⟩
    rw [← String.toList_inj, String.toList_append, ← hstem]
    exact (List.suffix_iff_eq_append.mp hsuffix).symm
  · rintro rfl
    rw [String.toList_append]
    refine ⟨List.suffix_append _ _, ?_⟩
    rw [List.length_append, Nat.add_sub_cancel_right]
    exact List.take_left

theorem beforeEnd?_eq_none_iff : beforeEnd? ending s = none ↔ ¬ EndsIn ending s := by
  simp only [Option.eq_none_iff_forall_ne_some, ne_eq, beforeEnd?_eq_some_iff, EndsIn, not_exists]

/-- The last character of a text is that of its ending. -/
theorem EndsIn.getLast?_eq (h : EndsIn ending s) (hne : ending.toList ≠ []) :
    s.toList.getLast? = ending.toList.getLast? := by
  obtain ⟨stem, rfl⟩ := h
  rw [String.toList_append, List.getLast?_append_of_ne_nil _ hne]

end Text

/-! ## Readers of engines -/

variable {engine engine' reader : String}

/-- The location of an engine DERIVES that of a reader by one of two rules. -/
inductive Derives (engine reader : String) : Prop
  /-- The mark goes in front of the ending. -/
  | inside (stem : String) (hengine : engine = stem ++ ".wasm")
      (hreader : reader = stem ++ ".reader" ++ ".wasm")
  /-- Without the ending the mark goes behind. -/
  | behind (hengine : ¬ Text.EndsIn ".wasm" engine) (hreader : reader = engine ++ ".reader")

theorem derives_readerLocation (engine : String) : Derives engine (readerLocation engine) := by
  rw [readerLocation]
  split
  next stem hstem => exact .inside stem (Text.beforeEnd?_eq_some_iff.mp hstem) rfl
  next hnone => exact .behind (Text.beforeEnd?_eq_none_iff.mp hnone) rfl

/-- **THE LOCATION OF A READER** is the one that the engine's derives. -/
theorem readerLocation_eq_iff : readerLocation engine = reader ↔ Derives engine reader := by
  constructor
  · rintro rfl
    exact derives_readerLocation engine
  · rintro (⟨stem, hengine, rfl⟩ | ⟨hengine, rfl⟩)
    · have hstem : Text.beforeEnd? moduleEnding engine = some stem :=
        Text.beforeEnd?_eq_some_iff.mpr hengine
      simp only [readerLocation, hstem]
      rfl
    · have hnone : Text.beforeEnd? moduleEnding engine = none :=
        Text.beforeEnd?_eq_none_iff.mpr hengine
      simp only [readerLocation, hnone]
      rfl

namespace Derives

/-- Only an engine with the ending has a reader with the ending. -/
theorem endsIn_iff (h : Derives engine reader) :
    Text.EndsIn ".wasm" reader ↔ Text.EndsIn ".wasm" engine := by
  rcases h with ⟨stem, rfl, rfl⟩ | ⟨hengine, rfl⟩
  · exact iff_of_true ⟨_, rfl⟩ ⟨stem, rfl⟩
  · refine iff_of_false ?_ hengine
    intro hends
    -- a text with the mark at its end ends in another letter
    have hmark : Text.EndsIn ".reader" (engine ++ ".reader") := ⟨engine, rfl⟩
    have hlast := (hends.getLast?_eq (by decide)).symm.trans (hmark.getLast?_eq (by decide))
    exact absurd hlast (by decide)

/-- A reader's location is longer than its engine's by the mark. -/
theorem length_eq (h : Derives engine reader) :
    reader.length = engine.length + ".reader".length := by
  rcases h with ⟨stem, rfl, rfl⟩ | ⟨-, rfl⟩
  · simp only [String.length_append]
    omega
  · exact String.length_append engine ".reader"

theorem ne (h : Derives engine reader) : reader ≠ engine := by
  rintro rfl
  have hlength := h.length_eq
  have hmark : ".reader".length = 7 := by decide
  omega

/-- **A READER HAS ONE ENGINE**: its ending tells the rule, and the mark comes off. -/
theorem unique (h : Derives engine reader) (h' : Derives engine' reader) : engine = engine' := by
  have hends : Text.EndsIn ".wasm" engine ↔ Text.EndsIn ".wasm" engine' :=
    h.endsIn_iff.symm.trans h'.endsIn_iff
  rcases h with ⟨stem, rfl, rfl⟩ | ⟨hengine, rfl⟩
  · rcases h' with ⟨stem', rfl, hreader⟩ | ⟨hengine', -⟩
    · have hstem : stem = stem' :=
        (String.append_left_inj _).mp ((String.append_left_inj _).mp hreader)
      rw [hstem]
    · exact absurd (hends.mp ⟨stem, rfl⟩) hengine'
  · rcases h' with ⟨stem', rfl, -⟩ | ⟨-, hreader⟩
    · exact absurd (hends.mpr ⟨stem', rfl⟩) hengine
    · exact (String.append_left_inj _).mp hreader

end Derives

theorem readerLocation_injective : Function.Injective readerLocation := by
  intro engine engine' h
  exact (readerLocation_eq_iff.mp h).unique (derives_readerLocation engine')

/-! ## Requests that name no reader -/

namespace InitPayload

variable {p : InitPayload}

/-- A payload LEAVES THE READER OPEN: it asks for an engine, and names no reader. -/
structure LeavesReaderOpen (p : InitPayload) : Prop where
  withEngine : p.isReader = false
  unnamed : p.readerPath = none

theorem LeavesReaderOpen.sources_eq (h : p.LeavesReaderOpen) :
    p.sources = ⟨readerLocation p.wasmPath, some p.wasmPath⟩ := by
  rw [sources, h.withEngine, h.unnamed]
  rfl

end InitPayload

/-- **DERIVED READERS STAY APART**, whatever the engines are called.

    * The location of a reader is the one that the engine's derives.  It is not the engine's,
      and it has the ending `.wasm` exactly if the engine's has it.
    * No two engines have one reader.
    * So a request that leaves the reader open is for an engine and a reader that lie apart,
      and two of them are for one reader only if they are for one engine. -/
theorem derived_readers_stay_apart :
    (∀ engine, Derives engine (readerLocation engine)) ∧
    (∀ engine, readerLocation engine ≠ engine) ∧
    (∀ engine, Text.EndsIn ".wasm" (readerLocation engine) ↔ Text.EndsIn ".wasm" engine) ∧
    (∀ engine engine', readerLocation engine = readerLocation engine' → engine = engine') ∧
    (∀ p : InitPayload, p.LeavesReaderOpen →
      p.sources.engine = some p.wasmPath ∧ p.sources.reader ≠ p.wasmPath) ∧
    ∀ p q : InitPayload, p.LeavesReaderOpen → q.LeavesReaderOpen → p.wasmPath ≠ q.wasmPath →
      p.sources.reader ≠ q.sources.reader := by
  refine ⟨derives_readerLocation, fun engine => (derives_readerLocation engine).ne,
    fun engine => (derives_readerLocation engine).endsIn_iff,
    fun _ _ h => readerLocation_injective h, ?_, ?_⟩
  · intro p hp
    rw [hp.sources_eq]
    exact ⟨rfl, (derives_readerLocation p.wasmPath).ne⟩
  · intro p q hp hq hne
    rw [hp.sources_eq, hq.sources_eq]
    exact readerLocation_injective.ne hne

/-- Engines that are called like derived readers, one by each rule. -/
theorem lookalikes_stay_apart :
    let p : InitPayload := ⟨"cue.reader.wasm", "1", false, none⟩
    let q : InitPayload := ⟨"cue.wasm.reader", "1", false, none⟩
    p.LeavesReaderOpen ∧ q.LeavesReaderOpen ∧ p.wasmPath ≠ q.wasmPath
      ∧ p.sources = ⟨"cue.reader.reader.wasm", some "cue.reader.wasm"⟩
      ∧ q.sources = ⟨"cue.wasm.reader.reader", some "cue.wasm.reader"⟩
      ∧ p.sources.reader ≠ p.wasmPath ∧ q.sources.reader ≠ q.wasmPath
      ∧ p.sources.reader ≠ q.sources.reader := by
  intro p q
  have hp : p.LeavesReaderOpen := ⟨rfl, rfl⟩
  have hq : q.LeavesReaderOpen := ⟨rfl, rfl⟩
  have hne : p.wasmPath ≠ q.wasmPath := by decide
  obtain ⟨-, -, -, -, hown, hapart⟩ := derived_readers_stay_apart
  exact ⟨hp, hq, hne, by decide +kernel, by decide +kernel, (hown p hp).2, (hown q hq).2,
    hapart p q hp hq hne⟩

end PhaseHost

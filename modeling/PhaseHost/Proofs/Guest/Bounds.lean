import Mathlib.Algebra.Group.Int.Defs
import Mathlib.Algebra.Group.Nat.Defs
import PhaseHost.Proofs.Guest.Memory

/-! # Where a host reaches into a guest

    A host touches the memory of a guest in three places: it writes the arguments of a
    call, it reads the document that the call returns, and it reads what the guest logs.
    All addresses and lengths come from the guest.  In each place a range that leaves the
    memory is found out before anything is touched, and a range that does not is written
    or read as it stands, byte by byte.

    A call is followed up to the moment at which the function of the guest starts; from
    there on only what the function does decides. -/

namespace PhaseHost

variable {γ : Type}

namespace GuestState

/-- A range that lies inside is logged once, and the bytes behind the cut are not looked at. -/
theorem logRange_of_inside {key : CacheKey} {level address length : UInt32} {s : GuestState γ}
    (h : address.toNat + min length.toNat logMax ≤ s.memory.size) :
    s.logRange key level address length = { s with
      log := s.log ++ [⟨.ofNumber level, key,
        Utf8.lossy (s.memory.bytesAt address.toNat (min length.toNat logMax))⟩] } := by
  simp only [logRange, Memory.logText?, Memory.read_of_inside h, Option.map_some]

theorem logRange_of_outside {key : CacheKey} {level address length : UInt32} {s : GuestState γ}
    (h : s.memory.size < address.toNat + min length.toNat logMax) :
    s.logRange key level address length = s := by
  simp only [logRange, Memory.logText?, Memory.read_of_outside h, Option.map_none]

end GuestState

namespace Guest

/-! ## Packed results -/

theorem lengthOf_lt (packed : UInt64) : lengthOf packed < 2 ^ 32 :=
  Nat.mod_lt _ (Nat.two_pow_pos 32)

theorem addressOf_lt (packed : UInt64) : addressOf packed < 2 ^ 32 :=
  Nat.div_lt_of_lt_mul packed.toNat_lt

theorem packed_eq (packed : UInt64) :
    addressOf packed * 2 ^ 32 + lengthOf packed = packed.toNat :=
  Nat.div_add_mod' packed.toNat (2 ^ 32)

/-- A signed number is packed as the unsigned one with the same bits. -/
theorem packed_signed (packed : Int64) :
    ((addressOf packed.toUInt64 * 2 ^ 32 + lengthOf packed.toUInt64 : Nat) : Int)
      = packed.toInt % 2 ^ 64 := by
  rw [packed_eq]
  have hbits : (packed.toUInt64.toNat : Int) = packed.toBitVec.toNat := rfl
  have htoInt : packed.toInt = packed.toBitVec.toInt := rfl
  rw [hbits, htoInt, BitVec.toInt_eq_toNat_bmod]
  show _ = Int.bmod _ (2 ^ 64) % ((2 ^ 64 : Nat) : Int)
  rw [Int.bmod_emod]
  exact (Int.emod_eq_of_lt (Int.natCast_nonneg _) (Int.ofNat_lt.mpr packed.toBitVec.isLt)).symm

/-! ## The way into a guest -/

/-- The arguments of a call as the guest gets them. -/
def argumentText (arguments : Json) : Bytes :=
  Utf8.encode arguments.render

/-- A call has come so far that its function starts: the arguments lie at an address that the
    guest has named. -/
structure Enters (G : Guest γ) (name : String) (arguments : Json) (s : GuestState γ)
    (run : UInt32 → UInt32 → Running γ UInt64) (address : UInt32) (ready : GuestState γ) :
    Prop where
  exported : G.function? name = some run
  short : (argumentText arguments).length ≤ argumentsMax
  written : ∃ s₁ memory, G.alloc (.ofNat (argumentText arguments).length) s = (some address, s₁)
    ∧ s₁.memory.write address.toNat (argumentText arguments) = some memory
    ∧ ready = { s₁ with memory := memory }

variable {G : Guest γ} {name : String} {arguments : Json} {s s₁ s₂ ready : GuestState γ}
  {run : UInt32 → UInt32 → Running γ UInt64} {address : UInt32} {packed : UInt64}

/-- The length of arguments that are not too long is told as it is. -/
theorem toNat_ofNat_length {bytes : Bytes} (short : bytes.length ≤ argumentsMax) :
    (UInt32.ofNat bytes.length).toNat = bytes.length :=
  UInt32.toNat_ofNat_of_lt' (Nat.lt_of_le_of_lt short (by decide))

theorem call_of_long (exported : G.function? name = some run)
    (long : argumentsMax < (argumentText arguments).length) :
    G.call name arguments s = (.error (name ++ ": arguments too large"), s) := by
  simp only [call, exported]
  exact if_pos long

/-- A call whose arguments are not too long asks for room. -/
theorem call_of_short (exported : G.function? name = some run)
    (short : (argumentText arguments).length ≤ argumentsMax)
    (room : G.alloc (.ofNat (argumentText arguments).length) s = (some address, s₁)) :
    G.call name arguments s
      = match s₁.memory.write address.toNat (argumentText arguments) with
        | none => (.error (name ++ ": write arguments: out of bounds memory access"), s₁)
        | some memory =>
          match run address (.ofNat (argumentText arguments).length)
            { s₁ with memory := memory } with
          | (none, s) => (.error (name ++ ": trapped: " ++ foreignWords), s)
          | (some packed, s) => (result name packed s.memory, s) := by
  have hlong : ¬ argumentsMax < (Utf8.encode arguments.render).length := Nat.not_lt.mpr short
  have hroom : G.alloc (.ofNat (Utf8.encode arguments.render).length) s = (some address, s₁) := room
  simp only [call, exported, if_neg hlong, hroom]
  rfl

theorem call_of_unwritten (exported : G.function? name = some run)
    (short : (argumentText arguments).length ≤ argumentsMax)
    (room : G.alloc (.ofNat (argumentText arguments).length) s = (some address, s₁))
    (outside : s₁.memory.size < address.toNat + (argumentText arguments).length) :
    G.call name arguments s
      = (.error (name ++ ": write arguments: out of bounds memory access"), s₁) := by
  rw [call_of_short exported short room, Memory.write_of_outside outside]

/-- Arguments that fit in are written, and the function starts. -/
theorem enters_of_inside (exported : G.function? name = some run)
    (short : (argumentText arguments).length ≤ argumentsMax)
    (room : G.alloc (.ofNat (argumentText arguments).length) s = (some address, s₁))
    (inside : address.toNat + (argumentText arguments).length ≤ s₁.memory.size) :
    ∃ memory, s₁.memory.Wrote address.toNat (argumentText arguments) memory
      ∧ G.Enters name arguments s run address { s₁ with memory := memory } := by
  obtain ⟨memory, hwrite, hwrote⟩ := Memory.write_of_inside inside
  exact ⟨memory, hwrote, exported, short, s₁, memory, room, hwrite, rfl⟩

/-- Once its function has started, a call ends as the function does. -/
theorem Enters.call (h : G.Enters name arguments s run address ready) :
    G.call name arguments s
      = match run address (.ofNat (argumentText arguments).length) ready with
        | (none, s) => (.error (name ++ ": trapped: " ++ foreignWords), s)
        | (some packed, s) => (result name packed s.memory, s) := by
  obtain ⟨s₁, memory, hroom, hwrite, rfl⟩ := h.written
  rw [call_of_short h.exported h.short hroom, hwrite]

/-- A function that returns has the document read that its result names. -/
theorem Enters.call_of_inside (h : G.Enters name arguments s run address ready)
    (returns : run address (.ofNat (argumentText arguments).length) ready = (some packed, s₂))
    (inside : addressOf packed + lengthOf packed ≤ s₂.memory.size) :
    G.call name arguments s
      = (documentResult name (s₂.memory.bytesAt (addressOf packed) (lengthOf packed)), s₂) := by
  rw [h.call, returns]
  simp only [result, Memory.read_of_inside inside]

theorem Enters.call_of_outside (h : G.Enters name arguments s run address ready)
    (returns : run address (.ofNat (argumentText arguments).length) ready = (some packed, s₂))
    (outside : s₂.memory.size < addressOf packed + lengthOf packed) :
    G.call name arguments s = (.error (name ++ ": result out of bounds"), s₂) := by
  rw [h.call, returns]
  simp only [result, Memory.read_of_outside outside]

/-- The words for a range that leaves the memory are not among those for a document that
    was read, unless the guest has put them there itself. -/
theorem documentResult_forged {raw : Bytes}
    (h : documentResult name raw = .error (name ++ ": result out of bounds")) :
    ∃ fields err, Json.parse raw = .ok (.obj fields) ∧ Fields.find? "err" fields = some err
      ∧ err.plain = name ++ ": result out of bounds" := by
  have hwords : ∀ {words : String},
      (.error (name ++ words) : Except String Json) = .error (name ++ ": result out of bounds") →
      words = ": result out of bounds" := by
    intro words heq
    exact (String.append_right_inj name).mp (Except.error.inj heq)
  cases hparse : Json.parse raw with
  | error fault =>
      simp only [documentResult, hparse, String.append_assoc] at h
      have hchars := congrArg String.toList (hwords h)
      rw [String.toList_append] at hchars
      exact absurd (congrArg (fun cs => cs[2]?) hchars) (by simp)
  | ok v =>
      cases v with
      | obj fields =>
          cases herr : Fields.find? "err" fields with
          | some err =>
              simp only [documentResult, hparse, herr] at h
              exact ⟨fields, err, rfl, herr, Except.error.inj h⟩
          | none =>
              cases hok : Fields.find? "ok" fields with
              | some v =>
                  simp only [documentResult, hparse, herr, hok] at h
                  cases h
              | none =>
                  simp only [documentResult, hparse, herr, hok] at h
                  exact absurd (hwords h) (by decide)
      | null => exact absurd (hwords (by simpa only [documentResult, hparse] using h)) (by decide)
      | bool b => exact absurd (hwords (by simpa only [documentResult, hparse] using h)) (by decide)
      | int i => exact absurd (hwords (by simpa only [documentResult, hparse] using h)) (by decide)
      | float bits =>
          exact absurd (hwords (by simpa only [documentResult, hparse] using h)) (by decide)
      | str t => exact absurd (hwords (by simpa only [documentResult, hparse] using h)) (by decide)
      | arr items =>
          exact absurd (hwords (by simpa only [documentResult, hparse] using h)) (by decide)

/-- **NOTHING OUTSIDE A GUEST'S MEMORY IS TOUCHED**, whatever numbers the guest gives.

    For every guest, every function it exports and all arguments:

    * arguments that are too long are an error before any code of the guest runs;
    * all others are written to the address that the guest gave exactly if they fit into its
      memory from there on: the range holds the arguments, no other byte has changed, and
      the function is told their true length.  Otherwise the call is an error, and the
      guest is as it was;
    * of a function that returns, the document is the bytes at the address in the upper
      half of its result, as many as the lower half says, if they lie inside the memory.
      Otherwise the call is an error that says so; a document leads to the same words only if
      it is an error of the guest that spells them out;
    * both halves are unsigned, also where the result is negative;
    * a range that is logged gives one line, the text of what is left of it after the cut, if
      that lies inside the memory, and nothing otherwise. -/
theorem reaches_stay_inside (G : Guest γ) (name : String) (arguments : Json) (s : GuestState γ) :
    let input := argumentText arguments
    (∀ run, G.function? name = some run →
      (argumentsMax < input.length →
        G.call name arguments s = (.error (name ++ ": arguments too large"), s))
      ∧ (input.length ≤ argumentsMax → ∀ address s₁,
          G.alloc (.ofNat input.length) s = (some address, s₁) →
          (s₁.memory.size < address.toNat + input.length →
            G.call name arguments s
              = (.error (name ++ ": write arguments: out of bounds memory access"), s₁))
          ∧ (address.toNat + input.length ≤ s₁.memory.size →
              (UInt32.ofNat input.length).toNat = input.length
              ∧ ∃ memory, s₁.memory.Wrote address.toNat input memory
              ∧ ∀ packed s₂,
                run address (.ofNat input.length) { s₁ with memory := memory }
                  = (some packed, s₂) →
                let start := addressOf packed
                let length := lengthOf packed
                (start + length ≤ s₂.memory.size →
                  G.call name arguments s
                    = (documentResult name (s₂.memory.bytesAt start length), s₂))
                ∧ (s₂.memory.size < start + length →
                  G.call name arguments s = (.error (name ++ ": result out of bounds"), s₂)))))
    ∧ (∀ raw, documentResult name raw = .error (name ++ ": result out of bounds") →
        ∃ fields err, Json.parse raw = .ok (.obj fields) ∧ Fields.find? "err" fields = some err
          ∧ err.plain = name ++ ": result out of bounds")
    ∧ (∀ packed : Int64, addressOf packed.toUInt64 < 2 ^ 32 ∧ lengthOf packed.toUInt64 < 2 ^ 32
        ∧ ((addressOf packed.toUInt64 * 2 ^ 32 + lengthOf packed.toUInt64 : Nat) : Int)
          = packed.toInt % 2 ^ 64)
    ∧ ∀ (key : CacheKey) (level address length : UInt32),
        let shown := min length.toNat 10240
        (address.toNat + shown ≤ s.memory.size →
          s.logRange key level address length = { s with
            log := s.log ++
              [⟨.ofNumber level, key, Utf8.lossy (s.memory.bytesAt address.toNat shown)⟩] })
        ∧ (s.memory.size < address.toNat + shown → s.logRange key level address length = s) := by
  refine ⟨?_, fun raw => documentResult_forged, ?_, ?_⟩
  · intro run exported
    refine ⟨call_of_long exported, ?_⟩
    intro short address s₁ room
    refine ⟨call_of_unwritten exported short room, ?_⟩
    intro inside
    obtain ⟨memory, hwrote, henters⟩ := enters_of_inside exported short room inside
    refine ⟨toNat_ofNat_length short, memory, hwrote, ?_⟩
    intro packed s₂ returns
    exact ⟨henters.call_of_inside returns, henters.call_of_outside returns⟩
  · intro packed
    exact ⟨addressOf_lt _, lengthOf_lt _, packed_signed packed⟩
  · intro key level address length
    exact ⟨GuestState.logRange_of_inside, GuestState.logRange_of_outside⟩

end Guest
end PhaseHost

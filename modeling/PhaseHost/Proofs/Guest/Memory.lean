import PhaseHost.Guest.Basic

/-! # What lies in a memory

    A memory is kept as segments over zeros.  What it says to the outside is simpler: a
    size, and a byte at every address.  A range is read as the bytes at its addresses one
    after another, and a write changes the bytes of its range and nothing else. -/

namespace PhaseHost

namespace Segment

variable (s : Segment) (address : Nat) (base : Bytes)

theorem length_over : (s.over address base).length = base.length := by
  simp only [Segment.over, List.length_append, List.length_take, List.length_drop]
  omega

/-- Where a segment has a byte, it hides the one below. -/
theorem getElem?_over (i : Nat) :
    (s.over address base)[i]? = (base[i]?).map (fun b => (s.byte? (address + i)).getD b) := by
  by_cases hi : i < base.length
  · have hbase : base[i]? = some base[i] := List.getElem?_eq_getElem hi
    rw [hbase, Option.map_some]
    simp only [Segment.over, byte?, List.getElem?_append, List.length_take, List.length_drop]
    by_cases hbefore : i < s.start - address
    · -- in front of the segment
      have hout : ¬ s.start ≤ address + i := by omega
      rw [if_pos (by omega), List.getElem?_take_of_lt hbefore, if_neg hout, hbase]
      rfl
    · have hin : s.start ≤ address + i := by omega
      have hfront : min (s.start - address) base.length = s.start - address := by omega
      have hat : address + i - s.start = address - s.start + (i - (s.start - address)) := by omega
      rw [hfront, if_neg hbefore, if_pos hin]
      by_cases hinside : address + i - s.start < s.bytes.length
      · -- under the segment
        rw [if_pos (by omega), List.getElem?_take_of_lt (by omega), List.getElem?_drop, ← hat,
          List.getElem?_eq_getElem hinside]
        rfl
      · -- behind the segment
        have hrest : min (base.length - (s.start - address)) (s.bytes.length - (address - s.start))
            = s.bytes.length - (address - s.start) := by omega
        have hagain : s.start - address + (s.bytes.length - (address - s.start))
            + (i - (s.start - address) - (s.bytes.length - (address - s.start))) = i := by omega
        rw [hrest, if_neg (by omega), List.getElem?_drop, hagain,
          List.getElem?_eq_none (Nat.le_of_not_lt hinside), hbase]
        rfl
  · have hlength : (s.over address base).length ≤ i := by
      rw [length_over]
      omega
    rw [List.getElem?_eq_none hlength, List.getElem?_eq_none (Nat.le_of_not_lt hi)]
    rfl

end Segment

namespace Memory

/-- The bytes at so many addresses from one on. -/
def bytesAt (m : Memory) (address length : Nat) : Bytes :=
  (List.range length).map (fun i => m.byte (address + i))

variable {m m' : Memory} {address length : Nat} {bytes : Bytes}

/-- The byte at an address after a segment was put over a memory. -/
theorem byte_cons (size : Nat) (s : Segment) (segments : List Segment) (x : Nat) :
    Memory.byte ⟨size, s :: segments⟩ x
      = (s.byte? x).getD (Memory.byte ⟨size, segments⟩ x) := by
  show Option.getD (List.findSome? _ _) 0 = _
  rw [List.findSome?_cons]
  cases s.byte? x with
  | none => rfl
  | some b => rfl

/-- A range is read byte by byte. -/
theorem range_eq (m : Memory) (address length : Nat) :
    m.range address length = m.bytesAt address length := by
  obtain ⟨size, segments⟩ := m
  have hbytes : ∀ i : Nat, (Memory.range ⟨size, segments⟩ address length)[i]?
      = ((List.range length)[i]?).map (fun j => Memory.byte ⟨size, segments⟩ (address + j)) := by
    induction segments with
    | nil =>
        intro i
        show (List.replicate length 0)[i]? = _
        by_cases hi : i < length
        · rw [List.getElem?_range hi, List.getElem?_replicate, if_pos hi, Option.map_some]
          rfl
        · simp [hi]
    | cons s segments ih =>
        intro i
        show (s.over address (Memory.range ⟨size, segments⟩ address length))[i]? = _
        rw [s.getElem?_over, ih i]
        by_cases hi : i < length
        · rw [List.getElem?_range hi]
          exact congrArg some (byte_cons size s segments (address + i)).symm
        · simp [Nat.le_of_not_lt hi]
  refine List.ext_getElem? (fun i => ?_)
  rw [hbytes, bytesAt, List.getElem?_map]

theorem covers_iff : m.covers address length = true ↔ address + length ≤ m.size :=
  decide_eq_true_iff

/-- What lies inside is read, and it is all that lies there. -/
theorem read_of_inside (h : address + length ≤ m.size) :
    m.read address length = some (m.bytesAt address length) := by
  rw [read, if_pos (covers_iff.mpr h), range_eq]

theorem read_of_outside (h : m.size < address + length) : m.read address length = none :=
  if_neg (fun hcovers => absurd (covers_iff.mp hcovers) (Nat.not_le.mpr h))

/-- What a memory has become by a write of bytes at an address. -/
structure Wrote (m : Memory) (address : Nat) (bytes : Bytes) (m' : Memory) : Prop where
  inside : address + bytes.length ≤ m.size
  size : m'.size = m.size
  /-- The range holds the bytes. -/
  held : m'.bytesAt address bytes.length = bytes
  /-- No other byte has changed. -/
  kept : ∀ other, other < address ∨ address + bytes.length ≤ other → m'.byte other = m.byte other

/-- What lies inside is written. -/
theorem write_of_inside (h : address + bytes.length ≤ m.size) :
    ∃ m', m.write address bytes = some m' ∧ m.Wrote address bytes m' := by
  refine ⟨_, if_pos (covers_iff.mpr h), h, rfl, ?_, ?_⟩
  · refine List.ext_getElem? (fun i => ?_)
    rw [bytesAt, List.getElem?_map]
    by_cases hi : i < bytes.length
    · rw [List.getElem?_range hi, Option.map_some, byte_cons, Segment.byte?,
        if_pos (Nat.le_add_right _ _), Nat.add_sub_cancel_left, List.getElem?_eq_getElem hi]
      rfl
    · simp [Nat.le_of_not_lt hi]
  · intro other hother
    rw [byte_cons, Segment.byte?]
    by_cases hbehind : address ≤ other
    · have hlength : bytes.length ≤ other - address := by omega
      rw [if_pos hbehind, List.getElem?_eq_none hlength]
      rfl
    · rw [if_neg hbehind]
      rfl

theorem write_of_outside (h : m.size < address + bytes.length) : m.write address bytes = none :=
  if_neg (fun hcovers => absurd (covers_iff.mp hcovers) (Nat.not_le.mpr h))

theorem wrote_of_write (h : m.write address bytes = some m') : m.Wrote address bytes m' := by
  rcases Nat.lt_or_ge m.size (address + bytes.length) with hout | hin
  · rw [write_of_outside hout] at h
    cases h
  · obtain ⟨m'', hwrite, hwrote⟩ := write_of_inside hin
    obtain rfl := Option.some.inj (hwrite.symm.trans h)
    exact hwrote

end Memory
end PhaseHost

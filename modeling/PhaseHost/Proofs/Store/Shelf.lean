import Mathlib.Data.List.Nodup
import PhaseHost.Variant.Basic

/-! # One version on the shelf

    Both stores keep entries under the same rule.  Putting bytes for a version
    takes the entries of every other version off the SHELF, and the entry under
    the same key; what is put goes in front.

    The two stores differ in what an entry is and in how it is labelled, so the
    rule is stated here for any `Labels`.  It goes by the label for the version
    and by the label for the key separately.  That the two agree is the field
    `named` of `Labels.Tidy`; without it an entry could survive under a key of
    one version with the label of another.

    What a look-up finds after a put is `find?_shelve`. -/

namespace PhaseHost

/-! ## Keys tell variants apart -/

/-- The names of the builds end differently. -/
theorem VariantKind.eq_of_getLast? {k k' : VariantKind}
    (h : k.name.toList.getLast? = k'.name.toList.getLast?) : k = k' := by
  cases k with
  | reader =>
      cases k' with
      | reader => rfl
      | engine => exact absurd h (by decide)
  | engine =>
      cases k' with
      | reader => exact absurd h (by decide)
      | engine => rfl

/-- The last character of a key tells the build. -/
theorem Variant.getLast?_key (v : Variant) :
    v.key.text.toList.getLast? = v.kind.name.toList.getLast? := by
  simp only [key]
  rw [String.toList_append, String.toList_append, List.getLast?_append]
  cases v.kind <;> rfl

/-- **KEYS TELL VARIANTS APART**, whatever the versions are called: the build is
    told by the last character, and what stands before it is the version. -/
theorem Variant.key_injective {v w : Variant} (h : v.key = w.key) : v = w := by
  have htext : v.key.text = w.key.text := congrArg CacheKey.text h
  have hkind : v.kind = w.kind := by
    refine VariantKind.eq_of_getLast? ?_
    rw [← getLast?_key, ← getLast?_key, htext]
  have hversion : v.version = w.version := by
    simp only [key, hkind] at htext
    exact (String.append_left_inj _).mp ((String.append_left_inj _).mp htext)
  cases v
  cases w
  cases hkind
  cases hversion
  rfl

/-! ## The rule -/

/-- Looking for something finds the same thing where the same things are looked for. -/
theorem find?_congr {α : Type} {p q : α → Bool} {xs : List α} (h : ∀ x ∈ xs, p x = q x) :
    xs.find? p = xs.find? q := by
  rw [← List.head?_filter, ← List.head?_filter, List.filter_congr h]

/-- How entries are labelled: with a key and with a version. -/
structure Labels (α : Type) where
  key : α → CacheKey
  version : α → String

namespace Labels

variable {α : Type} {L : Labels α} {x : α} {entries : List α} {v : Variant}

/-- Put an entry on a shelf: those of other versions go, and so does the one
    under the same key. -/
def shelve (L : Labels α) (x : α) (entries : List α) : List α :=
  x :: (entries.filter (fun e => L.version e = L.version x)).filter (fun e => L.key e ≠ L.key x)

/-- A shelf in order: every entry is for a build of one and the same version, and
    no two are for the same build. -/
structure Tidy (L : Labels α) (entries : List α) : Prop where
  keyed : (entries.map L.key).Nodup
  named : ∀ e ∈ entries, ∃ kind, L.key e = Variant.key ⟨kind, L.version e⟩
  uniform : ∀ e ∈ entries, ∀ e' ∈ entries, L.version e = L.version e'

theorem tidy_nil (L : Labels α) : L.Tidy [] where
  keyed := List.nodup_nil
  named := nofun
  uniform := nofun

theorem mem_shelve {e : α} :
    e ∈ L.shelve x entries ↔
      e = x ∨ (e ∈ entries ∧ L.version e = L.version x ∧ L.key e ≠ L.key x) := by
  simp only [shelve, List.mem_cons, List.mem_filter, decide_eq_true_iff, and_assoc]

/-- Whatever is left on a shelf is of the version that was put there last. -/
theorem version_of_mem_shelve {e : α} (h : e ∈ L.shelve x entries) :
    L.version e = L.version x := by
  rcases mem_shelve.mp h with rfl | ⟨-, hversion, -⟩
  · rfl
  · exact hversion

/-- Putting an entry never makes two of one key. -/
theorem keyed_shelve (h : (entries.map L.key).Nodup) :
    ((L.shelve x entries).map L.key).Nodup := by
  refine List.nodup_cons.mpr ⟨?_, ?_⟩
  · intro hmem
    obtain ⟨e, he, hkey⟩ := List.mem_map.mp hmem
    exact of_decide_eq_true (List.mem_filter.mp he).2 hkey
  · exact ((List.filter_sublist.trans List.filter_sublist).map L.key).nodup h

/-- Putting an entry for a variant leaves a shelf in order. -/
theorem Tidy.shelve (h : L.Tidy entries) (hkey : L.key x = v.key)
    (hversion : L.version x = v.version) : L.Tidy (L.shelve x entries) where
  keyed := keyed_shelve h.keyed
  named := by
    intro e he
    rcases mem_shelve.mp he with rfl | ⟨hold, -, -⟩
    · exact ⟨v.kind, by rw [hkey, hversion]⟩
    · exact h.named e hold
  uniform := by
    intro e he e' he'
    rw [version_of_mem_shelve he, version_of_mem_shelve he']

/-- **WHAT IS FOUND AFTER A PUT**: under the key of the variant what was put, under
    that of the other build of its version what was there, and nothing else. -/
theorem Tidy.find?_shelve (h : L.Tidy entries) (hkey : L.key x = v.key)
    (hversion : L.version x = v.version) (w : Variant) :
    (L.shelve x entries).find? (fun e => L.key e = w.key)
      = if w = v then some x
        else if w.version = v.version then entries.find? (fun e => L.key e = w.key)
        else none := by
  -- the key of an entry tells its version
  have htells : ∀ e ∈ entries, L.key e = w.key → L.version e = w.version := by
    intro e he heq
    obtain ⟨kind, hname⟩ := h.named e he
    exact congrArg Variant.version (Variant.key_injective (hname.symm.trans heq))
  by_cases hwv : w = v
  · subst hwv
    rw [if_pos rfl]
    exact List.find?_cons_of_pos (decide_eq_true hkey)
  · have hne : w.key ≠ L.key x := by
      intro heq
      exact hwv (Variant.key_injective (heq.trans hkey))
    rw [if_neg hwv]
    simp only [Labels.shelve]
    rw [List.find?_cons_of_neg (by simpa using Ne.symm hne), List.find?_filter, List.find?_filter]
    by_cases hsame : w.version = v.version
    · rw [if_pos hsame]
      refine find?_congr ?_
      intro e he
      by_cases heq : L.key e = w.key
      · simp [heq, hne, htells e he heq, hsame, hversion]
      · simp [heq]
    · rw [if_neg hsame]
      refine List.find?_eq_none.mpr ?_
      intro e he hfound
      simp only [decide_eq_true_iff] at hfound
      obtain ⟨hkept, -, heq⟩ := hfound
      exact hsame ((htells e he heq).symm.trans (hkept.trans hversion))

end Labels
end PhaseHost

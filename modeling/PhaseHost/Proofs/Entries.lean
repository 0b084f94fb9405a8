import Mathlib.Data.List.Nodup

/-! # Logs and tables

    Loaders and clients keep two kinds of lists.

    * A LOG holds everything there ever was, each entry known by its place.  New
      entries go in behind.
    * A TABLE holds what is under way, each entry known by its key.  It is KEYED:
      no key occurs twice, so what is looked up is what is listed, and neither an
      entry under a new key nor a removal makes a key occur twice. -/

namespace PhaseHost

/-- An entry of a log that has grown by one is an old one, or the new one at the end. -/
theorem getElem?_concat_iff {α : Type} {log : List α} {x y : α} {n : Nat} :
    (log ++ [x])[n]? = some y ↔ log[n]? = some y ∨ (n = log.length ∧ x = y) := by
  by_cases hn : n < log.length
  · rw [List.getElem?_append_left hn]
    exact ⟨Or.inl, fun h => h.elim id (fun hlast => absurd hn (by omega))⟩
  · rw [List.getElem?_append_right (by omega), List.getElem?_singleton,
      List.getElem?_eq_none (by omega)]
    by_cases hlast : n = log.length
    · rw [if_pos (by omega), Option.some.injEq]
      exact ⟨fun h => Or.inr ⟨hlast, h⟩, fun h => h.elim nofun And.right⟩
    · rw [if_neg (by omega)]
      exact ⟨nofun, fun h => h.elim nofun (fun hnew => absurd hnew.1 hlast)⟩

/-- Changing an entry that is there puts the changed entry in its place. -/
theorem modify_eq_set {α : Type} {xs : List α} {i : Nat} {x : α} (f : α → α)
    (h : xs[i]? = some x) : xs.modify i f = xs.set i (f x) := by
  rw [List.modify_eq_set_getElem?, h]
  rfl

/-- Changing an entry and putting one in behind come to the same in either order. -/
theorem modify_concat {α : Type} (f : α → α) {xs : List α} {x y : α} {i : Nat}
    (h : xs[i]? = some x) : (xs ++ [y]).modify i f = xs.modify i f ++ [y] := by
  have hi : i < xs.length := (List.getElem?_eq_some_iff.mp h).1
  rw [modify_eq_set f (getElem?_concat_iff.mpr (Or.inl h)), modify_eq_set f h,
    List.set_append_left _ _ hi]

/-- Changing an entry does not show in what the change leaves alone. -/
theorem map_modify_eq {α β : Type} (f : α → α) {g : α → β} (h : ∀ x, g (f x) = g x)
    (xs : List α) (i : Nat) : (xs.modify i f).map g = xs.map g := by
  refine List.ext_getElem? ?_
  intro j
  rw [List.getElem?_map, List.getElem?_map, List.getElem?_modify]
  cases xs[j]? with
  | none => rfl
  | some x =>
      show some (g (if i = j then f x else x)) = some (g x)
      by_cases hij : i = j
      · rw [if_pos hij, h]
      · rw [if_neg hij]

/-- Putting an entry in the place of one does not show in what the two have in common. -/
theorem map_set_eq {α β : Type} {f : α → β} {xs : List α} {i : Nat} {x y : α}
    (h : xs[i]? = some x) (hxy : f y = f x) : (xs.set i y).map f = xs.map f := by
  refine List.ext_getElem? ?_
  intro j
  rw [List.getElem?_map, List.getElem?_map]
  by_cases hij : i = j
  · subst hij
    rw [List.getElem?_set_self (List.getElem?_eq_some_iff.mp h).1, h]
    exact congrArg some hxy
  · rw [List.getElem?_set_ne hij]

/-- Entries with marks that are all different are known by their marks. -/
theorem index_unique {α β : Type} {f : α → Option β} {xs : List α}
    (hxs : (xs.filterMap f).Nodup) {i j : Nat} {x y : α} {b : β} (hi : xs[i]? = some x)
    (hj : xs[j]? = some y) (hx : f x = some b) (hy : f y = some b) : i = j := by
  have hpair := List.pairwise_iff_getElem.mp (List.pairwise_filterMap.mp hxs)
  obtain ⟨hilt, rfl⟩ := List.getElem?_eq_some_iff.mp hi
  obtain ⟨hjlt, rfl⟩ := List.getElem?_eq_some_iff.mp hj
  rcases Nat.lt_trichotomy i j with hlt | heq | hgt
  · exact absurd rfl (hpair i j hilt hjlt hlt b hx b hy)
  · exact heq
  · exact absurd rfl (hpair j i hjlt hilt hgt b hy b hx)

variable {K V : Type}

/-- No key occurs twice. -/
def Keyed (table : List (K × V)) : Prop :=
  (table.map Prod.fst).Nodup

namespace Keyed

variable {table : List (K × V)} {k : K} {v v' : V}

theorem nil : Keyed ([] : List (K × V)) :=
  List.nodup_nil

theorem cons (h : Keyed table) (hnew : ∀ v', (k, v') ∉ table) : Keyed ((k, v) :: table) := by
  refine List.nodup_cons.mpr ⟨?_, h⟩
  intro hk
  obtain ⟨⟨k', v'⟩, hmem, rfl⟩ := List.mem_map.mp hk
  exact hnew v' hmem

theorem filter (h : Keyed table) (keeps : K × V → Bool) : Keyed (table.filter keeps) :=
  (List.filter_sublist.map Prod.fst).nodup h

theorem unique (h : Keyed table) (hv : (k, v) ∈ table) (hv' : (k, v') ∈ table) : v = v' := by
  have heq := List.inj_on_of_nodup_map h hv hv' rfl
  exact congrArg Prod.snd heq

variable [DecidableEq K]

/-- Looking a key up finds the entry that is listed under it. -/
theorem find?_iff (h : Keyed table) :
    table.find? (fun p => p.1 = k) = some (k, v) ↔ (k, v) ∈ table := by
  constructor
  · exact List.mem_of_find?_eq_some
  · intro hmem
    cases hfind : table.find? (fun p => p.1 = k) with
    | none =>
        have hno := List.find?_eq_none.mp hfind (k, v) hmem
        exact absurd (decide_eq_true rfl) hno
    | some p =>
        obtain ⟨k', v'⟩ := p
        have hk := List.find?_some hfind
        obtain rfl : k' = k := of_decide_eq_true hk
        rw [h.unique hmem (List.mem_of_find?_eq_some hfind)]

/-- Looking up a key that is not listed finds nothing. -/
theorem find?_eq_none (hno : ∀ v, (k, v) ∉ table) :
    table.find? (fun p => p.1 = k) = none := by
  refine List.find?_eq_none.mpr ?_
  rintro ⟨k', v⟩ hmem hk
  obtain rfl : k' = k := of_decide_eq_true hk
  exact hno v hmem

/-- Removing a key leaves the entries under all others. -/
theorem mem_filter_ne {k' : K} :
    (k', v) ∈ table.filter (fun p => p.1 ≠ k) ↔ (k', v) ∈ table ∧ k' ≠ k := by
  rw [List.mem_filter, decide_eq_true_iff]

end Keyed
end PhaseHost

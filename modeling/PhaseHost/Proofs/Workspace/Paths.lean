import Mathlib.Data.List.DropRight
import PhaseHost.Workspace

/-! # The form of a path

    Whatever a path looks like when it is given, a workspace knows it by its normal
    form.  This file says without the function what that is.

    * A normal form is PROPER: it has a slash in front, something behind it, and no
      slash at its end.  There is one exception, the ROOT, a slash and nothing else,
      which is the normal form of the paths that consist of slashes alone.
    * Proper paths and the root are their own normal forms, so making a path normal
      twice is making it normal once. -/

namespace PhaseHost

/-! ## The end of a text -/

namespace Text

variable {p : Char → Bool} {s : List Char}

theorem dropEnd_eq_rdropWhile (p : Char → Bool) (s : List Char) :
    dropEnd p s = s.rdropWhile p := rfl

/-- What is left does not end in a character of the class. -/
theorem getLast?_dropEnd {c : Char} (h : (dropEnd p s).getLast? = some c) : p c = false := by
  rw [dropEnd_eq_rdropWhile] at h
  have hne : s.rdropWhile p ≠ [] := by
    intro hnil
    rw [hnil] at h
    exact nomatch h
  have hlast := List.rdropWhile_last_not p s hne
  rw [List.getLast?_eq_some_getLast hne] at h
  rw [Option.some.inj h] at hlast
  exact Bool.eq_false_iff.mpr hlast

/-- Where the last character may stay, nothing is dropped. -/
theorem dropEnd_eq_self (h : ∀ c, s.getLast? = some c → p c = false) : dropEnd p s = s := by
  rw [dropEnd_eq_rdropWhile, List.rdropWhile_eq_self_iff]
  intro hne
  rw [h _ (List.getLast?_eq_some_getLast hne)]
  exact Bool.false_ne_true

/-- Nothing is left exactly if no character may stay. -/
theorem dropEnd_eq_nil_iff : dropEnd p s = [] ↔ ∀ c ∈ s, p c = true := by
  rw [dropEnd_eq_rdropWhile]
  exact List.rdropWhile_eq_nil_iff

/-- A text of nothing but blanks. -/
def AllBlank (s : String) : Prop :=
  ∀ c ∈ s.toList, isBlank c = true

instance (s : String) : Decidable (AllBlank s) :=
  List.decidableBAll (fun c => isBlank c = true) s.toList

/-- Nothing is left of a text without the blanks at its ends exactly if it is all blank. -/
theorem trim_isEmpty_iff (s : String) : (trim s).isEmpty = true ↔ AllBlank s := by
  rw [String.isEmpty_iff, trim, ← String.toList_inj, String.toList_ofList, String.toList_empty,
    trimChars, dropEnd_eq_nil_iff]
  constructor
  · intro hrest
    -- a text that loses a character in front and the rest behind is lost altogether
    have hnil : s.toList.dropWhile isBlank = [] := by
      cases hdrop : s.toList.dropWhile isBlank with
      | nil => rfl
      | cons c rest =>
          have hblank : isBlank c = true := hrest c (hdrop ▸ List.mem_cons_self)
          have hfirst := List.head?_dropWhile_not isBlank s.toList
          rw [hdrop, List.head?_cons] at hfirst
          exact nomatch hblank.symm.trans hfirst
    exact List.dropWhile_eq_nil_iff.mp hnil
  · intro hall
    rw [List.dropWhile_eq_nil_iff.mpr hall]
    exact nofun

end Text

namespace Workspace

/-! ## Normal forms -/

/-- A path with a slash in front, something behind it, and no slash at its end. -/
structure Proper (path : String) : Prop where
  rooted : path.toList.head? = some '/'
  named : path.toList ≠ ['/']
  trimmed : path.toList.getLast? ≠ some '/'

/-- A path of nothing but slashes. -/
def AllSlashes (path : String) : Prop :=
  ∀ c ∈ path.toList, c = '/'

instance (path : String) : Decidable (AllSlashes path) :=
  List.decidableBAll (fun c => c = '/') path.toList

/-- The path that is a slash and nothing else. -/
def root : String := "/"

theorem not_proper_root : ¬ Proper root := by
  intro h
  exact h.named rfl

/-- A path without the slashes at its end. -/
def bare (path : String) : List Char :=
  Text.dropEnd (· = '/') path.toList

/-- Nothing is left of slashes, and of them only. -/
theorem bare_eq_nil_iff {path : String} : bare path = [] ↔ AllSlashes path := by
  rw [bare, Text.dropEnd_eq_nil_iff]
  exact forall₂_congr (fun c _ => decide_eq_true_iff)

/-- No slash is left at the end. -/
theorem getLast?_bare (path : String) : (bare path).getLast? ≠ some '/' := by
  intro h
  exact nomatch Text.getLast?_dropEnd h

/-- **WHAT A NORMAL FORM IS**: the path without the slashes at its end, with one put in
    front if there is none. -/
theorem toList_normalize (path : String) :
    (normalize path).toList
      = if (bare path).head? = some '/' then bare path else '/' :: bare path := by
  simp only [normalize]
  split
  next rest heq =>
    have hbare : bare path = '/' :: rest := heq
    rw [hbare, String.toList_ofList, List.head?_cons, if_pos rfl]
  next hother =>
    have hno : (bare path).head? ≠ some '/' := by
      intro hhead
      obtain ⟨rest, heq⟩ := List.head?_eq_some_iff.mp hhead
      exact hother rest heq
    rw [String.toList_ofList, if_neg hno]
    rfl

/-- Slashes alone, or nothing, become the root. -/
theorem normalize_of_allSlashes {path : String} (h : AllSlashes path) :
    normalize path = root := by
  rw [← String.toList_inj, toList_normalize, bare_eq_nil_iff.mpr h]
  rfl

/-- Every other path becomes a proper one. -/
theorem proper_normalize {path : String} (h : ¬ AllSlashes path) : Proper (normalize path) := by
  have hne : bare path ≠ [] := fun hnil => h (bare_eq_nil_iff.mp hnil)
  have hlast := getLast?_bare path
  refine ⟨?_, ?_, ?_⟩
  · rw [toList_normalize]
    split
    next hhead => exact hhead
    next => rfl
  · rw [toList_normalize]
    split
    next =>
      intro heq
      rw [heq] at hlast
      exact hlast rfl
    next => simpa using hne
  · rw [toList_normalize]
    split
    next => exact hlast
    next => rwa [List.getLast?_cons_of_ne_nil hne]

/-- Normal forms are proper, or the root. -/
theorem normalize_cases (path : String) :
    Proper (normalize path) ∨ (AllSlashes path ∧ normalize path = root) := by
  by_cases h : AllSlashes path
  · exact Or.inr ⟨h, normalize_of_allSlashes h⟩
  · exact Or.inl (proper_normalize h)

/-- A proper path is its own normal form. -/
theorem Proper.normalize_eq {path : String} (h : Proper path) : normalize path = path := by
  have hbare : bare path = path.toList := by
    refine Text.dropEnd_eq_self ?_
    intro c hc
    refine decide_eq_false ?_
    rintro rfl
    exact h.trimmed hc
  rw [← String.toList_inj, toList_normalize, hbare, if_pos h.rooted]

/-- **NORMAL FORMS ARE NORMAL**. -/
@[simp] theorem normalize_normalize (path : String) :
    normalize (normalize path) = normalize path := by
  rcases normalize_cases path with h | ⟨-, h⟩
  · exact h.normalize_eq
  · rw [h]
    exact normalize_of_allSlashes (by decide)

theorem proper_moduleFile : Proper moduleFile :=
  ⟨by decide, by decide, by decide⟩

end Workspace
end PhaseHost

import Mathlib.Data.List.Basic
import PhaseHost.Disk.Basic

/-! # Directories on the way

    `Disk.makeDirs` walks down from a place and makes what is missing.  What it
    does is said here without its recursion:

    * `Disk.way` lists the directories it comes through, which is a matter of
      the steps alone, and `Disk.wayEnd` is where it arrives;
    * it arrives exactly if the way is PASSABLE: nothing but directories stands
      on it, and what has to be made can be named;
    * it then leaves a directory at every place on the way and every other place
      as it was;
    * in any case it makes directories where nothing was, and does nothing else. -/

namespace PhaseHost

namespace Disk

variable {d d' d'' : Disk} {place p : Place}

/-! ## Single places -/

/-- Entries that are kept or removed by their place do not get in each other's way. -/
theorem find?_filter_nodes (keeps : Place → Bool) (hp : keeps p = true)
    (nodes : List (Place × Node)) :
    (nodes.filter (fun n => keeps n.1)).find? (fun n => n.1 = p)
      = nodes.find? (fun n => n.1 = p) := by
  rw [List.find?_filter]
  refine congrFun (congrArg List.find? ?_) nodes
  funext n
  by_cases hn : n.1 = p
  · simp [hn, hp]
  · simp [hn]

/-- A node is found at the place where it was put. -/
theorem find?_set_self (h : place ≠ []) (d : Disk) (node : Node) :
    (d.set place node).find? place = some node := by
  simp only [find?, set]
  rw [if_neg (by simpa using h), List.find?_cons_of_pos (by simp)]
  rfl

/-- Elsewhere everything is as it was. -/
theorem find?_set_of_ne (h : p ≠ place) (d : Disk) (node : Node) :
    (d.set place node).find? p = d.find? p := by
  simp only [find?, set]
  by_cases hroot : p.isEmpty = true
  · rw [if_pos hroot, if_pos hroot]
  · rw [if_neg hroot, if_neg hroot, List.find?_cons_of_neg (by simpa using Ne.symm h),
      find?_filter_nodes (fun q => decide (q ≠ place)) (decide_eq_true h)]

/-- What is put at a place is found there, and nowhere else. -/
theorem find?_set (h : place ≠ []) (d : Disk) (node : Node) (p : Place) :
    (d.set place node).find? p = if p = place then some node else d.find? p := by
  by_cases hp : p = place
  · subst hp
    rw [if_pos rfl, find?_set_self h]
  · rw [if_neg hp, find?_set_of_ne hp]

/-- A disk is another one with directories made where nothing was. -/
def DirsMade (d d' : Disk) : Prop :=
  ∀ p, d'.find? p = d.find? p ∨ (d.find? p = none ∧ d'.find? p = some .directory)

theorem DirsMade.refl (d : Disk) : DirsMade d d :=
  fun _ => Or.inl rfl

theorem DirsMade.trans (h : DirsMade d d') (h' : DirsMade d' d'') : DirsMade d d'' := by
  intro p
  rcases h p with hsame | ⟨hnone, hdir⟩
  · rw [← hsame]
    exact h' p
  · refine Or.inr ⟨hnone, ?_⟩
    rcases h' p with hsame | ⟨hnone', -⟩
    · exact hsame.trans hdir
    · rw [hdir] at hnone'
      exact nomatch hnone'

/-- What is no directory is there as before. -/
theorem DirsMade.find?_iff (h : DirsMade d d') {node : Node} (hnode : node ≠ .directory) :
    d'.find? p = some node ↔ d.find? p = some node := by
  rcases h p with hsame | ⟨hnone, hdir⟩
  · rw [hsame]
  · rw [hnone, hdir]
    exact ⟨fun heq => absurd (Option.some.inj heq).symm hnode, nofun⟩

/-- Making one directory where nothing was is one step of the relation. -/
theorem dirsMade_set (hplace : place ≠ []) (hnone : d.find? place = none) :
    DirsMade d (d.set place .directory) := by
  intro p
  rw [find?_set hplace]
  by_cases hp : p = place
  · subst hp
    rw [if_pos rfl]
    exact Or.inr ⟨hnone, rfl⟩
  · rw [if_neg hp]
    exact Or.inl rfl

/-! ## Ways -/

/-- The directories that steps lead through. -/
def way (place : Place) : List Name → List Place
  | [] => []
  | part :: rest =>
    if part = Path.above then way place.dropLast rest
    else (place ++ [part]) :: way (place ++ [part]) rest

/-- Where steps lead. -/
def wayEnd (place : Place) : List Name → Place
  | [] => place
  | part :: rest =>
    if part = Path.above then wayEnd place.dropLast rest else wayEnd (place ++ [part]) rest

/-- There is a directory at a place, or room for one. -/
def Free (d : Disk) (p : Place) : Prop :=
  d.find? p = none ∨ d.find? p = some .directory

instance (d : Disk) (p : Place) : Decidable (d.Free p) :=
  inferInstanceAs (Decidable (d.find? p = none ∨ d.find? p = some .directory))

/-- Steps can be gone, if need be by making directories. -/
structure Passable (d : Disk) (place : Place) (steps : List Name) : Prop where
  named : ∀ part ∈ steps, part = Path.above ∨ Path.isName part = true
  free : ∀ p ∈ way place steps, d.Free p

instance (d : Disk) (place : Place) (steps : List Name) : Decidable (d.Passable place steps) :=
  decidable_of_iff ((∀ part ∈ steps, part = Path.above ∨ Path.isName part = true)
    ∧ ∀ p ∈ way place steps, d.Free p)
    ⟨fun h => ⟨h.1, h.2⟩, fun h => ⟨h.named, h.free⟩⟩

/-- A directory that is made takes no room from another. -/
theorem free_set (hplace : place ≠ []) (hfree : d.Free place) :
    (d.set place .directory).Free p ↔ d.Free p := by
  simp only [Free, find?_set hplace]
  by_cases hp : p = place
  · subst hp
    rw [if_pos rfl]
    exact ⟨fun _ => hfree, fun _ => Or.inr rfl⟩
  · rw [if_neg hp]

variable {part : Name} {rest : List Name}

/-- A step up asks for nothing but the way from there. -/
theorem passable_above :
    d.Passable place (Path.above :: rest) ↔ d.Passable place.dropLast rest := by
  constructor
  · rintro ⟨hnamed, hfree⟩
    exact ⟨fun p hp => hnamed p (List.mem_cons_of_mem _ hp), hfree⟩
  · rintro ⟨hnamed, hfree⟩
    refine ⟨?_, hfree⟩
    intro p hp
    rcases List.mem_cons.mp hp with rfl | hp
    · exact Or.inl rfl
    · exact hnamed p hp

/-- A step down asks for a name and a directory, or room for one, under it. -/
theorem passable_cons (h : part ≠ Path.above) :
    d.Passable place (part :: rest) ↔
      Path.isName part = true ∧ d.Free (place ++ [part]) ∧ d.Passable (place ++ [part]) rest := by
  have hway : way place (part :: rest) = (place ++ [part]) :: way (place ++ [part]) rest :=
    if_neg h
  constructor
  · rintro ⟨hnamed, hfree⟩
    rw [hway] at hfree
    exact ⟨(hnamed part List.mem_cons_self).resolve_left h, hfree _ List.mem_cons_self,
      fun p hp => hnamed p (List.mem_cons_of_mem _ hp),
      fun p hp => hfree p (List.mem_cons_of_mem _ hp)⟩
  · rintro ⟨hname, hhere, hnamed, hfree⟩
    refine ⟨?_, ?_⟩
    · intro p hp
      rcases List.mem_cons.mp hp with rfl | hp
      · exact Or.inr hname
      · exact hnamed p hp
    · rw [hway]
      intro p hp
      rcases List.mem_cons.mp hp with rfl | hp
      · exact hhere
      · exact hfree p hp

/-- A way stays passable when one of its directories is made. -/
theorem passable_set {steps : List Name} {w : Place} (hw : w ≠ []) (hfree : d.Free w) :
    (d.set w .directory).Passable place steps ↔ d.Passable place steps := by
  constructor
  · rintro ⟨hnamed, h⟩
    exact ⟨hnamed, fun p hp => (free_set hw hfree).mp (h p hp)⟩
  · rintro ⟨hnamed, h⟩
    exact ⟨hnamed, fun p hp => (free_set hw hfree).mpr (h p hp)⟩

private theorem step_ne_root (place : Place) (part : Name) : place ++ [part] ≠ [] :=
  List.append_ne_nil_of_right_ne_nil _ (List.cons_ne_nil _ _)

/-- The directories on the way are made exactly if the way is passable. -/
theorem makeDirs_eq_some_iff (d : Disk) (place : Place) (steps : List Name) (dir : Place) :
    (d.makeDirs place steps).2 = some dir ↔
      d.Passable place steps ∧ wayEnd place steps = dir := by
  induction steps generalizing d place with
  | nil =>
      show some place = some dir ↔ _
      rw [Option.some.injEq]
      exact ⟨fun h => ⟨⟨nofun, nofun⟩, h⟩, And.right⟩
  | cons part rest ih =>
      by_cases habove : part = Path.above
      · subst habove
        simp only [makeDirs, wayEnd, if_true, ih, passable_above]
      · simp only [makeDirs, wayEnd, if_neg habove, passable_cons habove]
        by_cases hname : Path.isName part = true
        · rw [if_pos hname]
          cases hfind : d.find? (place ++ [part]) with
          | none =>
              have hfree : d.Free (place ++ [part]) := Or.inl hfind
              simp only [ih, passable_set (step_ne_root place part) hfree, hname, hfree,
                true_and]
          | some node =>
              cases node with
              | directory =>
                  have hfree : d.Free (place ++ [part]) := Or.inr hfind
                  simp only [ih, hname, hfree, true_and]
              | file content => simp [Free, hfind]
              | database rows => simp [Free, hfind]
        · rw [if_neg hname]
          exact ⟨nofun, fun h => absurd h.1.1 hname⟩

/-- **DIRECTORIES ARE MADE** on the way, and every other place is as it was. -/
theorem find?_makeDirs {steps : List Name} (h : d.Passable place steps) (p : Place) :
    (d.makeDirs place steps).1.find? p
      = if p ∈ way place steps then some .directory else d.find? p := by
  induction steps generalizing d place with
  | nil => rfl
  | cons part rest ih =>
      by_cases habove : part = Path.above
      · subst habove
        simp only [makeDirs, way, if_true]
        exact ih (passable_above.mp h)
      · obtain ⟨hname, hfree, hrest⟩ := (passable_cons habove).mp h
        have hroot := step_ne_root place part
        simp only [makeDirs, way, if_neg habove, if_pos hname, List.mem_cons]
        rcases hfree with hfind | hfind
        · simp only [hfind]
          rw [ih ((passable_set hroot (Or.inl hfind)).mpr hrest), find?_set hroot]
          by_cases hp : p = place ++ [part]
          · simp [hp]
          · simp [hp]
        · simp only [hfind]
          rw [ih hrest]
          by_cases hp : p = place ++ [part]
          · simp [hp, hfind]
          · simp [hp]

/-- Directories are made and nothing else happens, whether or not the way can be gone
    to its end. -/
theorem dirsMade_makeDirs (d : Disk) (place : Place) (steps : List Name) :
    DirsMade d (d.makeDirs place steps).1 := by
  induction steps generalizing d place with
  | nil => exact .refl d
  | cons part rest ih =>
      simp only [makeDirs]
      split
      · exact ih d place.dropLast
      · split
        · split
          next hnone => exact (dirsMade_set (step_ne_root place part) hnone).trans (ih _ _)
          next => exact ih d _
          next => exact .refl d
        · exact .refl d

end Disk
end PhaseHost

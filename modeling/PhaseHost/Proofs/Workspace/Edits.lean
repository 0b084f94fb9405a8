import PhaseHost.Proofs.Workspace.Paths

/-! # What an edit does

    Each edit of a workspace is told apart by three things, and none of them looks at
    the workspace: what it WRITES and under which path, whether it TAKES a path away,
    and whether it ENTERS a path among those that evaluation starts from.  What an edit
    does to a workspace is said in these terms once, and no later proof opens it.

    An edit refuses a path that is blank.  It looks at the path as it was given, not at
    its normal form: a path of slashes is not blank, so the root gets in.  The main
    statement is that nothing else gets in that is not proper, and how the root does. -/

namespace PhaseHost

open Workspace (normalize)

/-! ## Edits by themselves -/

namespace WorkspaceEdit

/-- What an edit writes, with the path it writes it under. -/
def write? : WorkspaceEdit → Option (String × String)
  | .add path content _ => if Text.AllBlank path then none else some (normalize path, content)
  | .setModule name language =>
    some (Workspace.moduleFile,
      Workspace.moduleText name (language.getD Workspace.defaultLanguage))
  | .remove _ => none
  | .clear => none

/-- An edit takes a path away. -/
def Takes (p : String) : WorkspaceEdit → Prop
  | .remove path => normalize path = p
  | .clear => True
  | .add _ _ _ => False
  | .setModule _ _ => False

/-- An edit enters a path among those that evaluation starts from. -/
def Enters (p : String) : WorkspaceEdit → Prop
  | .add path _ isEntry => isEntry = true ∧ ¬ Text.AllBlank path ∧ normalize path = p
  | _ => False

instance (p : String) (e : WorkspaceEdit) : Decidable (e.Takes p) := by
  cases e <;> simp only [Takes] <;> infer_instance

/-- The one path that an edit is about, unless it is about all of them. -/
def about? : WorkspaceEdit → Option String
  | .add path _ _ => some (normalize path)
  | .remove path => some (normalize path)
  | .setModule _ _ => some Workspace.moduleFile
  | .clear => none

/-- An edit leaves a path alone. -/
structure Leaves (e : WorkspaceEdit) (p : String) : Prop where
  untaken : ¬ e.Takes p
  unwritten : ∀ content, e.write? ≠ some (p, content)

variable {e : WorkspaceEdit} {p q content : String}

/-- Whatever enters a path writes it. -/
theorem Enters.write? (h : e.Enters p) : ∃ content, e.write? = some (p, content) := by
  cases e with
  | add path content isEntry =>
      obtain ⟨-, hblank, rfl⟩ := h
      exact ⟨content, if_neg hblank⟩
  | remove path => exact h.elim
  | setModule name language => exact h.elim
  | clear => exact h.elim

/-- An edit enters one path at most. -/
theorem Enters.unique (h : e.Enters p) (h' : e.Enters q) : p = q := by
  cases e with
  | add path content isEntry => exact h.2.2.symm.trans h'.2.2
  | remove path => exact h.elim
  | setModule name language => exact h.elim
  | clear => exact h.elim

/-- Whatever is written is not taken away by the same edit. -/
theorem not_takes_of_write? (h : e.write? = some (p, content)) (q : String) : ¬ e.Takes q := by
  cases e with
  | add path content isEntry => exact id
  | setModule name language => exact id
  | remove path => exact nomatch h
  | clear => exact nomatch h

/-- What is written is the module file, or what was given under a path that is not blank. -/
theorem write?_cases (h : e.write? = some (p, content)) :
    p = Workspace.moduleFile
      ∨ ∃ path isEntry, e = .add path content isEntry ∧ ¬ Text.AllBlank path
          ∧ normalize path = p := by
  cases e with
  | add path given isEntry =>
      simp only [write?] at h
      split at h
      next => exact nomatch h
      next hblank =>
        cases h
        exact Or.inr ⟨path, isEntry, rfl, hblank, rfl⟩
  | setModule name language =>
      cases h
      exact Or.inl rfl
  | remove path => exact nomatch h
  | clear => exact nomatch h

/-- Paths are written in their normal form. -/
theorem normalize_of_write? (h : e.write? = some (p, content)) : normalize p = p := by
  rcases write?_cases h with rfl | ⟨path, isEntry, -, -, rfl⟩
  · exact Workspace.proper_moduleFile.normalize_eq
  · exact Workspace.normalize_normalize path

theorem eq_of_takes (habout : e.about? = some p) (h : e.Takes q) : q = p := by
  cases e with
  | remove path => exact h.symm.trans (Option.some.inj habout)
  | clear => exact nomatch habout
  | add path given isEntry => exact h.elim
  | setModule name language => exact h.elim

theorem eq_of_write? (habout : e.about? = some p) (h : e.write? = some (q, content)) : q = p := by
  rcases write?_cases h with rfl | ⟨path, isEntry, rfl, -, rfl⟩
  · cases e with
    | add path given isEntry =>
        simp only [write?] at h
        split at h
        · exact nomatch h
        · exact (congrArg Prod.fst (Option.some.inj h)).symm.trans (Option.some.inj habout)
    | setModule name language => exact Option.some.inj habout
    | remove path => exact nomatch h
    | clear => exact nomatch h
  · exact Option.some.inj habout

/-- An edit that is about one path leaves all others alone. -/
theorem leaves_of_about? (habout : e.about? = some p) (hne : q ≠ p) : e.Leaves q where
  untaken htaken := hne (eq_of_takes habout htaken)
  unwritten _ hwrite := hne (eq_of_write? habout hwrite)

end WorkspaceEdit

/-! ## Edits of a workspace -/

namespace Workspace

variable {w : Workspace} {e : WorkspaceEdit} {p content : String}

/-- **A BLANK PATH IS REFUSED**, and nothing else is. -/
theorem addFile_eq_error_iff {path : String} {isEntry : Bool} {error : WorkspaceError} :
    w.addFile path content isEntry = .error error ↔ Text.AllBlank path ∧ error = .emptyPath := by
  rw [← Text.trim_isEmpty_iff]
  simp only [addFile]
  split
  next h => exact ⟨fun heq => ⟨h, (Except.error.inj heq).symm⟩, fun heq => by rw [heq.2]⟩
  next h => exact ⟨nofun, fun heq => absurd heq.1 h⟩

/-- A path that is refused changes nothing. -/
theorem edit_of_allBlank {path : String} (h : Text.AllBlank path) (isEntry : Bool) :
    w.edit (.add path content isEntry) = w := by
  simp only [edit, addFile_eq_error_iff.mpr ⟨h, rfl⟩]

theorem edit_of_not_allBlank {path : String} (h : ¬ Text.AllBlank path) (isEntry : Bool) :
    w.edit (.add path content isEntry) = { w with
      files := w.files.insert (normalize path) content
      entryPoints := if isEntry ∧ normalize path ∉ w.entryPoints
        then w.entryPoints ++ [normalize path] else w.entryPoints } := by
  simp only [edit, addFile]
  rw [if_neg (fun htrim => h ((Text.trim_isEmpty_iff path).mp htrim))]

/-- What is written is there. -/
theorem find?_edit_of_write? (h : e.write? = some (p, content)) :
    (w.edit e).files.find? p = some content := by
  cases e with
  | add path given isEntry =>
      simp only [WorkspaceEdit.write?] at h
      split at h
      next => exact nomatch h
      next hblank =>
        cases h
        rw [edit_of_not_allBlank hblank]
        exact Overlay.find?_insert_self _ _ _
  | setModule name language =>
      cases h
      exact Overlay.find?_insert_self _ _ _
  | remove path => exact nomatch h
  | clear => exact nomatch h

/-- What is taken away is gone. -/
theorem find?_edit_of_takes (h : e.Takes p) : (w.edit e).files.find? p = none := by
  cases e with
  | remove path =>
      obtain rfl : normalize path = p := h
      exact Overlay.find?_erase_self _ _
  | clear => rfl
  | add path given isEntry => exact h.elim
  | setModule name language => exact h.elim

/-- What is left alone is as it was. -/
theorem find?_edit_of_leaves (h : e.Leaves p) : (w.edit e).files.find? p = w.files.find? p := by
  obtain ⟨huntaken, hunwritten⟩ := h
  cases e with
  | add path given isEntry =>
      by_cases hblank : Text.AllBlank path
      · rw [edit_of_allBlank hblank]
      · have hne : p ≠ normalize path := by
          rintro rfl
          exact hunwritten given (if_neg hblank)
        rw [edit_of_not_allBlank hblank]
        exact Overlay.find?_insert_of_ne hne _ _
  | setModule name language =>
      have hne : p ≠ moduleFile := by
        rintro rfl
        exact hunwritten _ rfl
      exact Overlay.find?_insert_of_ne hne _ _
  | remove path => exact Overlay.find?_erase_of_ne (fun heq => huntaken heq.symm) _
  | clear => exact absurd trivial huntaken

/-- **WHAT BECOMES OF THE ENTRY POINTS**: one goes in behind the others, or those that
    are taken away go. -/
theorem entryPoints_edit (w : Workspace) (e : WorkspaceEdit) :
    (∃ p, e.Enters p ∧ p ∉ w.entryPoints ∧ (w.edit e).entryPoints = w.entryPoints ++ [p])
    ∨ ((∀ p, e.Enters p → p ∈ w.entryPoints)
      ∧ (w.edit e).entryPoints = w.entryPoints.filter (fun p => ¬ e.Takes p)) := by
  -- an edit that takes nothing away lets every entry point pass
  have hkeep : (∀ p, ¬ e.Takes p) →
      w.entryPoints = w.entryPoints.filter (fun p => ¬ e.Takes p) := by
    intro hnone
    exact (List.filter_eq_self.mpr (fun p _ => decide_eq_true (hnone p))).symm
  cases e with
  | add path given isEntry =>
      by_cases hblank : Text.AllBlank path
      · rw [edit_of_allBlank hblank]
        exact Or.inr ⟨fun p henters => absurd hblank henters.2.1, hkeep (fun _ => id)⟩
      · rw [edit_of_not_allBlank hblank]
        by_cases hnew : isEntry = true ∧ normalize path ∉ w.entryPoints
        · exact Or.inl ⟨normalize path, ⟨hnew.1, hblank, rfl⟩, hnew.2, if_pos hnew⟩
        · refine Or.inr ⟨?_, (if_neg hnew).trans (hkeep (fun _ => id))⟩
          rintro p ⟨hentry, -, rfl⟩
          by_contra hno
          exact hnew ⟨hentry, hno⟩
  | setModule name language => exact Or.inr ⟨nofun, hkeep (fun _ => id)⟩
  | remove path =>
      refine Or.inr ⟨nofun, List.filter_congr ?_⟩
      intro p _
      exact decide_eq_decide.mpr ne_comm
  | clear =>
      refine Or.inr ⟨nofun, (List.filter_eq_nil_iff.mpr ?_).symm⟩
      intro p _ hkept
      exact of_decide_eq_true hkept trivial

/-! ## Sequences of edits -/

/-- A workspace that was empty, after a sequence of edits. -/
def after (edits : List WorkspaceEdit) : Workspace :=
  edits.foldl edit empty

theorem after_concat (edits : List WorkspaceEdit) (e : WorkspaceEdit) :
    after (edits ++ [e]) = (after edits).edit e := by
  simp only [after, List.foldl_append, List.foldl_cons, List.foldl_nil]

/-! ## What is stored -/

/-- A path is stored, as that of a file or as an entry point. -/
def Stores (w : Workspace) (p : String) : Prop :=
  w.files.contains p = true ∨ p ∈ w.entryPoints

/-- After an edit nothing is stored but what was, and what it writes. -/
theorem stores_edit (h : (w.edit e).Stores p) :
    w.Stores p ∨ ∃ content, e.write? = some (p, content) := by
  by_contra hno
  obtain ⟨hold, hunwritten⟩ := not_or.mp hno
  rcases h with hfile | hentry
  · by_cases htaken : e.Takes p
    · rw [Overlay.contains_eq, find?_edit_of_takes htaken] at hfile
      exact nomatch hfile
    · rw [Overlay.contains_eq, find?_edit_of_leaves ⟨htaken, not_exists.mp hunwritten⟩] at hfile
      exact hold (Or.inl hfile)
  · rcases entryPoints_edit w e with ⟨q, henters, -, heq⟩ | ⟨-, heq⟩
    · rw [heq] at hentry
      rcases List.mem_append.mp hentry with hmem | hnew
      · exact hold (Or.inr hmem)
      · obtain rfl := List.mem_singleton.mp hnew
        exact hunwritten henters.write?
    · rw [heq] at hentry
      exact hold (Or.inr (List.mem_of_mem_filter hentry))

/-- Whatever is stored was written. -/
theorem stores_after {edits : List WorkspaceEdit} (h : (after edits).Stores p) :
    ∃ e ∈ edits, ∃ content, e.write? = some (p, content) := by
  induction edits using List.reverseRecOn with
  | nil => exact h.elim nofun nofun
  | append_singleton edits e ih =>
      rw [after_concat] at h
      rcases stores_edit h with hold | hnew
      · obtain ⟨e', he', hwrite⟩ := ih hold
        exact ⟨e', List.mem_append_left _ he', hwrite⟩
      · exact ⟨e, List.mem_append_right _ List.mem_cons_self, hnew⟩

/-- **STORED PATHS ARE PROPER, BUT FOR THE ROOT**, whatever has been done to a workspace:

    * a path that is stored is proper, or it is the root and a path of slashes alone was
      added;
    * and whenever such a path is added, the root is stored with what was given. -/
theorem stored_paths_proper_or_root (edits : List WorkspaceEdit) :
    (∀ p, (after edits).Stores p → Proper p ∨
      (p = root ∧ ∃ path content isEntry, .add path content isEntry ∈ edits
        ∧ path ≠ "" ∧ AllSlashes path)) ∧
    (∀ path content isEntry, path ≠ "" → AllSlashes path →
      ((after edits).edit (.add path content isEntry)).files.find? root = some content) := by
  constructor
  · intro p hp
    obtain ⟨e, he, content, hwrite⟩ := stores_after hp
    rcases WorkspaceEdit.write?_cases hwrite with rfl | ⟨path, isEntry, rfl, hblank, rfl⟩
    · exact Or.inl proper_moduleFile
    · rcases normalize_cases path with hproper | ⟨hslashes, hroot⟩
      · exact Or.inl hproper
      · refine Or.inr ⟨hroot, path, content, isEntry, he, ?_, hslashes⟩
        rintro rfl
        exact hblank (by decide)
  · intro path content isEntry hne hslashes
    have hblank : ¬ Text.AllBlank path := by
      -- a slash is no blank, and there is one
      intro hall
      cases hchars : path.toList with
      | nil => exact hne (String.toList_inj.mp hchars)
      | cons c rest =>
          have hc : c ∈ path.toList := hchars ▸ List.mem_cons_self
          have hblank := hall c hc
          rw [hslashes c hc] at hblank
          exact absurd hblank (by decide)
    have hwrite : (WorkspaceEdit.add path content isEntry).write? = some (root, content) := by
      rw [← normalize_of_allSlashes hslashes]
      exact if_neg hblank
    exact find?_edit_of_write? hwrite

/-- The root gets in: a slash is not blank, and nothing is left of it. -/
theorem slash_stored_as_root :
    (after [.add "/" "x: 1" true]).Stores "/" ∧ "/" ∈ (after [.add "/" "x: 1" true]).entryPoints
      ∧ ¬ Proper "/" :=
  ⟨Or.inl (by decide), by decide, not_proper_root⟩

end Workspace
end PhaseHost

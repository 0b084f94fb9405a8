import PhaseHost.Proofs.Entries
import PhaseHost.Proofs.Workspace.Edits

/-! # A workspace and its history

    A workspace keeps its files and its entry points in two collections that edits
    change separately.  What is in each of them is a matter of the edits alone, and this
    file says of which.

    * A file has the content that was WRITTEN last under its path, by an edit that no
      later one took away.
    * A path is an entry point SINCE the edit that entered it first after it was taken
      away for the last time.  The places of these edits are in order.

    The first is an equation for the last edit.  For the second this is not enough: that
    an edit is the first to enter a path again rests on every earlier one having been
    taken back, so the invariant `Remembers` speaks of the paths that are no entry points
    as well. -/

namespace PhaseHost.Workspace

variable {w : Workspace} {edits : List WorkspaceEdit} {e : WorkspaceEdit}
  {p q content : String} {m n : Nat}

/-! ## Contents -/

/-- What was written last under a path and has been left alone since. -/
def Written (edits : List WorkspaceEdit) (p content : String) : Prop :=
  ∃ before e after, edits = before ++ e :: after ∧ e.write? = some (p, content)
    ∧ ∀ e' ∈ after, e'.Leaves p

/-- Every edit writes under a path, takes it away, or leaves it alone. -/
theorem written_or_taken_or_left (e : WorkspaceEdit) (p : String) :
    (∃ content, e.write? = some (p, content)) ∨ e.Takes p ∨ e.Leaves p := by
  by_cases hwrite : ∃ content, e.write? = some (p, content)
  · exact Or.inl hwrite
  · by_cases htaken : e.Takes p
    · exact Or.inr (Or.inl htaken)
    · exact Or.inr (Or.inr ⟨htaken, not_exists.mp hwrite⟩)

theorem written_concat :
    Written (edits ++ [e]) p content
      ↔ e.write? = some (p, content) ∨ (e.Leaves p ∧ Written edits p content) := by
  constructor
  · rintro ⟨before, e', after, heq, hwrite, hleft⟩
    rcases List.eq_nil_or_concat after with rfl | ⟨after, last, rfl⟩
    · obtain ⟨-, hlast⟩ := List.append_inj' heq rfl
      cases hlast
      exact Or.inl hwrite
    · rw [List.concat_eq_append, ← List.cons_append, ← List.append_assoc] at heq
      obtain ⟨rfl, hlast⟩ := List.append_inj' heq rfl
      cases hlast
      rw [List.concat_eq_append] at hleft
      exact Or.inr ⟨hleft e (List.mem_append_right _ List.mem_cons_self), before, e', after, rfl,
        hwrite, fun e'' he'' => hleft e'' (List.mem_append_left _ he'')⟩
  · rintro (hwrite | ⟨hleaves, before, e', after, rfl, hwrite, hleft⟩)
    · exact ⟨edits, e, [], rfl, hwrite, nofun⟩
    · refine ⟨before, e', after ++ [e], List.append_assoc .., hwrite, ?_⟩
      intro e'' he''
      rcases List.mem_append.mp he'' with hold | hnew
      · exact hleft e'' hold
      · exact List.mem_singleton.mp hnew ▸ hleaves

/-- **FILES HOLD WHAT WAS WRITTEN LAST**. -/
theorem find?_after (edits : List WorkspaceEdit) (p content : String) :
    (after edits).files.find? p = some content ↔ Written edits p content := by
  induction edits using List.reverseRecOn with
  | nil =>
      refine ⟨nofun, ?_⟩
      rintro ⟨before, e, after, heq, -⟩
      exact (List.append_ne_nil_of_right_ne_nil before (List.cons_ne_nil _ _) heq.symm).elim
  | append_singleton edits e ih =>
      rw [after_concat, written_concat]
      rcases written_or_taken_or_left e p with ⟨given, hwrite⟩ | htaken | hleaves
      · rw [find?_edit_of_write? hwrite, hwrite]
        constructor
        · rintro ⟨⟩
          exact Or.inl rfl
        · rintro (heq | ⟨hleaves, -⟩)
          · cases heq
            rfl
          · exact absurd hwrite (hleaves.unwritten given)
      · rw [find?_edit_of_takes htaken]
        refine ⟨nofun, ?_⟩
        rintro (hwrite | ⟨hleaves, -⟩)
        · exact absurd htaken (WorkspaceEdit.not_takes_of_write? hwrite p)
        · exact absurd htaken hleaves.untaken
      · rw [find?_edit_of_leaves hleaves, ih]
        refine ⟨fun h => Or.inr ⟨hleaves, h⟩, ?_⟩
        rintro (hwrite | ⟨-, h⟩)
        · exact absurd hwrite (hleaves.unwritten content)
        · exact h

/-- Files that are not taken away stay. -/
theorem contains_edit (h : w.files.contains p = true) (huntaken : ¬ e.Takes p) :
    (w.edit e).files.contains p = true := by
  rw [Overlay.contains_eq] at h ⊢
  rcases written_or_taken_or_left e p with ⟨given, hwrite⟩ | htaken | hleaves
  · rw [find?_edit_of_write? hwrite]
    rfl
  · exact absurd htaken huntaken
  · rw [find?_edit_of_leaves hleaves]
    exact h

/-! ## Entry points -/

/-- The edit at a place has made a path an entry point, and it has been one since: no
    later edit takes it away, and whenever an earlier one entered it, one in between took
    it away. -/
structure EntrySince (edits : List WorkspaceEdit) (p : String) (n : Nat) : Prop where
  entered : ∃ e, edits[n]? = some e ∧ e.Enters p
  kept : ∀ m e, n < m → edits[m]? = some e → ¬ e.Takes p
  first : ∀ m e, m < n → edits[m]? = some e → e.Enters p →
    ∃ k e', m < k ∧ k < n ∧ edits[k]? = some e' ∧ e'.Takes p

/-- Of two such places the earlier one was taken back before the later one. -/
theorem EntrySince.not_lt (h : EntrySince edits p m) (h' : EntrySince edits p n) : ¬ m < n := by
  intro hlt
  obtain ⟨e, hm, henters⟩ := h.entered
  obtain ⟨k, e', hmk, -, hk, htaken⟩ := h'.first m e hlt hm henters
  exact h.kept k e' hmk hk htaken

theorem EntrySince.unique (h : EntrySince edits p m) (h' : EntrySince edits p n) : m = n :=
  Nat.le_antisymm (Nat.not_lt.mp (h'.not_lt h)) (Nat.not_lt.mp (h.not_lt h'))

theorem EntrySince.lt_length (h : EntrySince edits p n) : n < edits.length := by
  obtain ⟨e, hn, -⟩ := h.entered
  exact (List.getElem?_eq_some_iff.mp hn).1

/-- An entry point that is not taken away has been one since the same edit. -/
theorem EntrySince.concat (h : EntrySince edits p n) (huntaken : ¬ e.Takes p) :
    EntrySince (edits ++ [e]) p n where
  entered := by
    obtain ⟨e', hn, henters⟩ := h.entered
    exact ⟨e', getElem?_concat_iff.mpr (Or.inl hn), henters⟩
  kept := by
    intro m e' hnm hm
    rcases getElem?_concat_iff.mp hm with hold | ⟨-, rfl⟩
    · exact h.kept m e' hnm hold
    · exact huntaken
  first := by
    intro m e' hmn hm henters
    rcases getElem?_concat_iff.mp hm with hold | ⟨rfl, -⟩
    · obtain ⟨k, e'', hmk, hkn, hk, htaken⟩ := h.first m e' hmn hold henters
      exact ⟨k, e'', hmk, hkn, getElem?_concat_iff.mpr (Or.inl hk), htaken⟩
    · exact absurd h.lt_length (Nat.lt_asymm hmn)

theorem EntrySince.of_concat (h : EntrySince (edits ++ [e]) p m) (hold : EntrySince edits p n)
    (huntaken : ¬ e.Takes p) : EntrySince edits p m := by
  rw [h.unique (hold.concat huntaken)]
  exact hold

/-- Every edit that entered a path has been taken back. -/
def TakenBack (edits : List WorkspaceEdit) (p : String) : Prop :=
  ∀ (m : Nat) (e : WorkspaceEdit), edits[m]? = some e → e.Enters p →
    ∃ (k : Nat) (e' : WorkspaceEdit), m < k ∧ edits[k]? = some e' ∧ e'.Takes p

/-- A path that was taken back, if ever it was entered, is an entry point since the edit
    that enters it now. -/
theorem TakenBack.since_last (h : TakenBack edits p) (henters : e.Enters p) :
    EntrySince (edits ++ [e]) p edits.length where
  entered := ⟨e, List.getElem?_concat_length, henters⟩
  kept := by
    intro m e' hlt hm
    rcases getElem?_concat_iff.mp hm with hold | ⟨rfl, -⟩
    · exact absurd (List.getElem?_eq_some_iff.mp hold).1 (Nat.lt_asymm hlt)
    · exact absurd hlt (Nat.lt_irrefl _)
  first := by
    intro m e' hlt hm henters'
    rcases getElem?_concat_iff.mp hm with hold | ⟨rfl, -⟩
    · obtain ⟨k, e'', hmk, hk, htaken⟩ := h m e' hold henters'
      exact ⟨k, e'', hmk, (List.getElem?_eq_some_iff.mp hk).1,
        getElem?_concat_iff.mpr (Or.inl hk), htaken⟩
    · exact absurd hlt (Nat.lt_irrefl _)

/-- What was taken back stays so while the path is not entered. -/
theorem TakenBack.concat (h : TakenBack edits p) (hno : ¬ e.Enters p) :
    TakenBack (edits ++ [e]) p := by
  intro m e' hm henters
  rcases getElem?_concat_iff.mp hm with hold | ⟨-, rfl⟩
  · obtain ⟨k, e'', hmk, hk, htaken⟩ := h m e' hold henters
    exact ⟨k, e'', hmk, getElem?_concat_iff.mpr (Or.inl hk), htaken⟩
  · exact absurd henters hno

/-- An edit that takes a path away takes back every one that entered it. -/
theorem takenBack_of_takes (h : e.Takes p) : TakenBack (edits ++ [e]) p := by
  intro m e' hm henters
  rcases getElem?_concat_iff.mp hm with hold | ⟨-, rfl⟩
  · exact ⟨edits.length, e, (List.getElem?_eq_some_iff.mp hold).1,
      List.getElem?_concat_length, h⟩
  · obtain ⟨content, hwrite⟩ := henters.write?
    exact absurd h (WorkspaceEdit.not_takes_of_write? hwrite p)

/-- The entry points of a workspace tell its history, and each is the path of a file. -/
structure Remembers (edits : List WorkspaceEdit) (w : Workspace) : Prop where
  distinct : w.entryPoints.Nodup
  filed : ∀ p ∈ w.entryPoints, w.files.contains p = true
  since : ∀ p ∈ w.entryPoints, ∃ n, EntrySince edits p n
  gone : ∀ p, p ∉ w.entryPoints → TakenBack edits p
  ordered : w.entryPoints.Pairwise
    (fun p q => ∀ m n, EntrySince edits p m → EntrySince edits q n → m < n)

theorem remembers_empty : Remembers [] empty where
  distinct := List.nodup_nil
  filed := nofun
  since := nofun
  gone _ _ _ _ hm := nomatch hm
  ordered := .nil

/-- The order stays where nothing is taken away. -/
theorem Remembers.ordered_concat (h : Remembers edits w) {points : List String}
    (hsub : points.Sublist w.entryPoints) (huntaken : ∀ p ∈ points, ¬ e.Takes p) :
    points.Pairwise (fun p q => ∀ m n,
      EntrySince (edits ++ [e]) p m → EntrySince (edits ++ [e]) q n → m < n) := by
  refine (h.ordered.sublist hsub).imp_of_mem ?_
  intro p q hp hq hlt m n hm hn
  obtain ⟨m', hm'⟩ := h.since p (hsub.subset hp)
  obtain ⟨n', hn'⟩ := h.since q (hsub.subset hq)
  exact hlt m n (hm.of_concat hm' (huntaken p hp)) (hn.of_concat hn' (huntaken q hq))

/-- **AN EDIT IS REMEMBERED**. -/
theorem Remembers.edit (h : Remembers edits w) (e : WorkspaceEdit) :
    Remembers (edits ++ [e]) (w.edit e) := by
  rcases entryPoints_edit w e with ⟨new, henters, hnew, heq⟩ | ⟨hold, heq⟩
  · obtain ⟨content, hwrite⟩ := henters.write?
    have huntaken : ∀ p, ¬ e.Takes p := WorkspaceEdit.not_takes_of_write? hwrite
    have hsince := (h.gone new hnew).since_last henters
    refine ⟨?_, ?_, ?_, ?_, ?_⟩
    · rw [heq]
      exact List.nodup_append.mpr ⟨h.distinct, List.nodup_singleton new, by
        intro p hp q hq hpq
        exact hnew (List.mem_singleton.mp hq ▸ hpq ▸ hp)⟩
    · rw [heq]
      intro p hp
      rcases List.mem_append.mp hp with hp | hp
      · exact contains_edit (h.filed p hp) (huntaken p)
      · obtain rfl := List.mem_singleton.mp hp
        rw [Overlay.contains_eq, find?_edit_of_write? hwrite]
        rfl
    · rw [heq]
      intro p hp
      rcases List.mem_append.mp hp with hp | hp
      · obtain ⟨n, hn⟩ := h.since p hp
        exact ⟨n, hn.concat (huntaken p)⟩
      · obtain rfl := List.mem_singleton.mp hp
        exact ⟨_, hsince⟩
    · rw [heq]
      intro p hp
      obtain ⟨hno, hne⟩ := not_or.mp (fun hor => hp (List.mem_append.mpr hor))
      exact (h.gone p hno).concat
        (fun henters' => hne (List.mem_singleton.mpr (henters'.unique henters)))
    · rw [heq]
      refine List.pairwise_append.mpr ⟨h.ordered_concat (.refl _) (fun p _ => huntaken p),
        List.pairwise_singleton _ _, ?_⟩
      intro p hp q hq m n hm hn
      obtain rfl := List.mem_singleton.mp hq
      obtain ⟨m', hm'⟩ := h.since p hp
      rw [hn.unique hsince]
      exact (hm.of_concat hm' (huntaken p)).lt_length
  · have hkept : ∀ p ∈ (w.edit e).entryPoints, p ∈ w.entryPoints ∧ ¬ e.Takes p := by
      intro p hp
      rw [heq] at hp
      obtain ⟨hmem, huntaken⟩ := List.mem_filter.mp hp
      exact ⟨hmem, of_decide_eq_true huntaken⟩
    have hsub : (w.edit e).entryPoints.Sublist w.entryPoints := heq ▸ List.filter_sublist
    refine ⟨hsub.nodup h.distinct, ?_, ?_, ?_, ?_⟩
    · intro p hp
      exact contains_edit (h.filed p (hkept p hp).1) (hkept p hp).2
    · intro p hp
      obtain ⟨n, hn⟩ := h.since p (hkept p hp).1
      exact ⟨n, hn.concat (hkept p hp).2⟩
    · intro p hp
      by_cases htaken : e.Takes p
      · exact takenBack_of_takes htaken
      · have hno : p ∉ w.entryPoints := by
          intro hmem
          rw [heq] at hp
          exact hp (List.mem_filter.mpr ⟨hmem, decide_eq_true htaken⟩)
        exact (h.gone p hno).concat (fun henters => hno (hold p henters))
    · exact h.ordered_concat hsub (fun p hp => (hkept p hp).2)

theorem remembers_after (edits : List WorkspaceEdit) : Remembers edits (after edits) := by
  induction edits using List.reverseRecOn with
  | nil => exact remembers_empty
  | append_singleton edits e ih =>
      rw [after_concat]
      exact ih.edit e

/-- A path that has been an entry point since some edit is one. -/
theorem Remembers.mem_iff (h : Remembers edits w) :
    p ∈ w.entryPoints ↔ ∃ n, EntrySince edits p n := by
  refine ⟨h.since p, ?_⟩
  rintro ⟨n, hn⟩
  by_contra hno
  obtain ⟨e, hentry, henters⟩ := hn.entered
  obtain ⟨k, e', hnk, hk, htaken⟩ := h.gone p hno n e hentry henters
  exact hn.kept k e' hnk hk htaken

/-! ## What a workspace is -/

/-- An edit that is about one path leaves all other entry points where they are. -/
theorem entryPoints_of_about? (w : Workspace) (habout : e.about? = some p) :
    (w.edit e).entryPoints.filter (· ≠ p) = w.entryPoints.filter (· ≠ p) := by
  rcases entryPoints_edit w e with ⟨new, henters, -, heq⟩ | ⟨-, heq⟩
  · obtain ⟨content, hwrite⟩ := henters.write?
    obtain rfl := WorkspaceEdit.eq_of_write? habout hwrite
    rw [heq, List.filter_append, List.filter_singleton]
    simp
  · rw [heq, List.filter_filter]
    refine List.filter_congr ?_
    intro q _
    by_cases hq : q = p
    · simp [hq]
    · simp [hq, (WorkspaceEdit.leaves_of_about? habout hq).untaken]

/-- **A WORKSPACE IS WHAT ITS EDITS SAY**: files by normal paths, and an ordered list of
    entry points.  After any sequence of edits:

    * every path of a file is its own normal form;
    * a path is answered with what was written last under its normal form and has been
      left alone since, and with nothing if there is no such thing;
    * an edit that is about one path leaves all other files and entry points as they are;
    * entry points are pairwise different, each is the path of a file, they are the paths
      that were entered and not taken away since, and they stand in the order of the edits
      that entered them first since then;
    * removing tells whether the file was there;
    * adding refuses the blank paths and no others, and what is refused changes nothing. -/
theorem workspace_tells_history (edits : List WorkspaceEdit) :
    let w := after edits
    (∀ p, w.files.contains p = true → normalize p = p) ∧
    (∀ path content, w.file? path = some content ↔ Written edits (normalize path) content) ∧
    (∀ (e : WorkspaceEdit) p, e.about? = some p →
      (∀ path, normalize path ≠ p → (w.edit e).file? path = w.file? path) ∧
      (w.edit e).entryPoints.filter (· ≠ p) = w.entryPoints.filter (· ≠ p)) ∧
    (w.entryPoints.Nodup ∧ (∀ p ∈ w.entryPoints, w.files.contains p = true) ∧
      (∀ p, p ∈ w.entryPoints ↔ ∃ n, EntrySince edits p n) ∧
      w.entryPoints.Pairwise (fun p q => ∀ m n,
        EntrySince edits p m → EntrySince edits q n → m < n)) ∧
    (∀ path, (w.removeFile path).1 = true ↔ ∃ content, w.file? path = some content) ∧
    (∀ path content isEntry,
      (∀ error, w.addFile path content isEntry = .error error ↔
        Text.AllBlank path ∧ error = .emptyPath) ∧
      (Text.AllBlank path → w.edit (.add path content isEntry) = w)) := by
  intro w
  have hremembers : Remembers edits w := remembers_after edits
  refine ⟨?_, fun path => find?_after edits (normalize path), ?_,
    ⟨hremembers.distinct, hremembers.filed, fun p => hremembers.mem_iff, hremembers.ordered⟩,
    ?_, ?_⟩
  · intro p hp
    obtain ⟨e, -, content, hwrite⟩ := stores_after (Or.inl hp)
    exact WorkspaceEdit.normalize_of_write? hwrite
  · intro e p habout
    refine ⟨?_, entryPoints_of_about? w habout⟩
    intro path hne
    exact find?_edit_of_leaves (WorkspaceEdit.leaves_of_about? habout hne)
  · intro path
    exact Option.isSome_iff_exists
  · intro path content isEntry
    exact ⟨fun error => addFile_eq_error_iff, fun hblank => edit_of_allBlank hblank isEntry⟩

/-- A file that was removed and is added again, in another spelling, starts from behind. -/
example : (after [.add "a" "1" true, .add "b" "2" true, .remove "/a/",
    .add "/a" "3" true]).entryPoints = ["/b", "/a"] := by
  decide

end PhaseHost.Workspace

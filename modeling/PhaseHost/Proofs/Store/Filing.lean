import PhaseHost.Proofs.Disk.Directories
import PhaseHost.Store.Table

/-! # Opening a table

    Every operation on a table opens its file anew.  This file says without the
    functions that do it when that works and what it leaves behind.

    * A table is USABLE if its path ends in the name of a file, the way there is
      passable, and the file is a database, an empty file, or not there yet.
    * Its STORED rows are those of the file, and none where there is no table.
    * A usable table stays usable, whatever is done with it, and only putting
      changes what it has stored.
    * Over a table that is not usable, every look-up misses, and nothing on the
      disk is touched: at most directories are made on the way. -/

namespace PhaseHost.Table

variable {t : Table} {d d' : Disk} {place : Place} {rows rows' : List Row}

/-! ## Where a table lies -/

/-- The directory that the path of a table starts in. -/
def origin (t : Table) : Place :=
  (Disk.start t.current t.path).1

/-- The parts of the path that lead somewhere. -/
def steps (t : Table) : List Name :=
  (Disk.start t.current t.path).2

/-- The directories on the way to the file. -/
def way (t : Table) : List Place :=
  Disk.way t.origin t.steps.dropLast

/-- The place of the file, if the path ends in the name of one. -/
def spot? (t : Table) : Option Place :=
  (t.steps.getLast?.filter (fun name => Path.isName name)).map
    (fun name => Disk.wayEnd t.origin t.steps.dropLast ++ [name])

/-- The table can be opened at a place. -/
structure OpensAt (t : Table) (d : Disk) (place : Place) : Prop where
  spot : t.spot? = some place
  passable : d.Passable t.origin t.steps.dropLast
  room : (d.find? place = none ∧ place ∉ t.way)
    ∨ ∃ node rows, d.find? place = some node ∧ node.database? = some rows

/-- The table can be opened. -/
def Usable (t : Table) (d : Disk) : Prop :=
  ∃ place, t.OpensAt d place

/-- The rows that are stored. -/
def stored (t : Table) (d : Disk) : List Row :=
  match t.spot?.bind d.find? with
  | some (.database (some rows)) => rows
  | _ => []

theorem spot_ne_root (h : t.spot? = some place) : place ≠ [] := by
  obtain ⟨name, -, rfl⟩ := Option.map_eq_some_iff.mp h
  exact List.append_ne_nil_of_right_ne_nil _ (List.cons_ne_nil _ _)

theorem stored_of_absent (hspot : t.spot? = some place) (h : d.find? place = none) :
    t.stored d = [] := by
  simp only [stored, hspot, Option.bind_some, h]

theorem stored_of_database (hspot : t.spot? = some place) {node : Node}
    (h : d.find? place = some node) {rows : Option (List Row)}
    (hrows : node.database? = some rows) : t.stored d = rows.getD [] := by
  simp only [stored, hspot, Option.bind_some, h]
  cases node with
  | directory => exact nomatch hrows
  | file content =>
      cases content with
      | nil =>
          cases hrows
          rfl
      | cons b rest => exact nomatch hrows
  | database held =>
      obtain rfl : held = rows := Option.some.inj hrows
      cases held <;> rfl

/-! ## Opening -/

theorem place_eq (t : Table) (d : Disk) :
    t.place d = match t.steps.getLast?, d.makeDirs t.origin t.steps.dropLast with
      | some name, (d, some dir) =>
        if Path.isName name then (d, some (dir ++ [name])) else (d, none)
      | _, (d, _) => (d, none) := rfl

theorem place_fst (t : Table) (d : Disk) :
    (t.place d).1 = (d.makeDirs t.origin t.steps.dropLast).1 := by
  rw [place_eq]
  split
  next heq => split <;> rw [heq]
  next heq _ => rw [heq]

theorem place_snd (t : Table) :
    (t.place d).2 = some place ↔
      t.spot? = some place ∧ d.Passable t.origin t.steps.dropLast := by
  have hdirs := Disk.makeDirs_eq_some_iff d t.origin t.steps.dropLast
  simp only [spot?]
  rw [place_eq]
  split
  next name d₁ dir hname heq =>
    rw [heq] at hdirs
    obtain ⟨hpassable, hend⟩ := (hdirs dir).mp rfl
    rw [hname, Option.filter_some, hend]
    split
    · exact ⟨fun h => ⟨h, hpassable⟩, And.left⟩
    · exact ⟨nofun, fun h => nomatch h.1⟩
  next d₁ dir? heq hnot =>
    rw [heq] at hdirs
    refine ⟨nofun, ?_⟩
    rintro ⟨hspot, hpassable⟩
    obtain ⟨name, hname, -⟩ := Option.map_eq_some_iff.mp hspot
    have hdir : dir? = some (Disk.wayEnd t.origin t.steps.dropLast) :=
      (hdirs _).mpr ⟨hpassable, rfl⟩
    exact (hnot name _ (Option.filter_eq_some_iff.mp hname).1 hdir).elim

/-- The directories on the way are there once the place is found. -/
theorem find?_place (hpassable : d.Passable t.origin t.steps.dropLast) (p : Place) :
    (t.place d).1.find? p = if p ∈ t.way then some .directory else d.find? p := by
  rw [place_fst]
  exact Disk.find?_makeDirs hpassable p

/-- A disk after filing rows: the directories on the way are there, and the rows
    are in the file. -/
def Filed (t : Table) (place : Place) (rows : List Row) (d d' : Disk) : Prop :=
  ∀ p, d'.find? p = if p = place then some (.database (some rows))
    else if p ∈ t.way then some .directory else d.find? p

/-- The file is not on the way to itself: there are only directories on the way. -/
theorem OpensAt.notMem_way (h : t.OpensAt d place) : place ∉ t.way := by
  rcases h.room with ⟨-, hway⟩ | ⟨node, rows, hnode, hrows⟩
  · exact hway
  · intro hmem
    rcases h.passable.free place hmem with hnone | hdir
    · rw [hnone] at hnode
      exact nomatch hnode
    · rw [hdir] at hnode
      cases hnode
      exact nomatch hrows

/-- Where a table can be opened it is, and its rows are filed as they were stored. -/
theorem enter_of_opensAt (h : t.OpensAt d place) :
    ∃ d', t.enter d = (d', some (place, t.stored d)) ∧ t.Filed place (t.stored d) d d' := by
  have hfiled : ∀ rows, t.Filed place rows d
      ((t.place d).1.set place (.database (some rows))) := by
    intro rows p
    rw [Disk.find?_set (spot_ne_root h.spot), find?_place h.passable]
  have hplace : t.place d = ((t.place d).1, some place) :=
    Prod.ext rfl (t.place_snd.mpr ⟨h.spot, h.passable⟩)
  have hfind := find?_place h.passable place
  simp only [enter]
  rw [hplace]
  dsimp only
  rw [if_neg h.notMem_way] at hfind
  rcases h.room with ⟨habsent, -⟩ | ⟨node, rows, hnode, hrows⟩
  · rw [hfind, habsent, stored_of_absent h.spot habsent]
    exact ⟨_, rfl, hfiled []⟩
  · rw [hfind, hnode, stored_of_database h.spot hnode hrows]
    dsimp only
    rw [hrows]
    exact ⟨_, rfl, hfiled _⟩

/-- A table that is not usable is not opened, and at most directories are made. -/
theorem enter_of_unusable (h : ¬ t.Usable d) :
    ∃ d', t.enter d = (d', none) ∧ d.DirsMade d' := by
  have hdirs : d.DirsMade (t.place d).1 := by
    rw [place_fst]
    exact Disk.dirsMade_makeDirs d _ _
  simp only [enter]
  split
  next d₁ heq =>
    rw [heq] at hdirs
    exact ⟨d₁, rfl, hdirs⟩
  next d₁ place heq =>
    obtain ⟨hspot, hpassable⟩ := t.place_snd.mp (congrArg Prod.snd heq)
    have hfind := find?_place hpassable place
    rw [heq] at hdirs hfind
    by_cases hway : place ∈ t.way
    · -- the place itself has become a directory
      rw [if_pos hway] at hfind
      rw [hfind]
      exact ⟨d₁, rfl, hdirs⟩
    · rw [if_neg hway] at hfind
      cases hnode : d.find? place with
      | none => exact absurd ⟨place, hspot, hpassable, Or.inl ⟨hnode, hway⟩⟩ h
      | some node =>
          cases hrows : node.database? with
          | some rows =>
              exact absurd ⟨place, hspot, hpassable, Or.inr ⟨node, rows, hnode, hrows⟩⟩ h
          | none =>
              rw [hfind, hnode]
              dsimp only
              rw [hrows]
              exact ⟨d₁, rfl, hdirs⟩

/-- A table is usable exactly if it is opened. -/
theorem usable_iff_enter : t.Usable d ↔ (t.enter d).2.isSome := by
  constructor
  · rintro ⟨place, hopens⟩
    obtain ⟨d', henter, -⟩ := enter_of_opensAt hopens
    rw [henter]
    rfl
  · intro hsome
    by_contra husable
    obtain ⟨d', henter, -⟩ := enter_of_unusable husable
    rw [henter] at hsome
    exact nomatch hsome

/-! ## Filing -/

/-- A table whose rows have been filed can be opened, and these rows are stored. -/
theorem Filed.opensAt (h : t.Filed place rows d d') (hopens : t.OpensAt d place) :
    t.OpensAt d' place ∧ t.stored d' = rows := by
  have hfile : d'.find? place = some (.database (some rows)) := by
    rw [h place, if_pos rfl]
  refine ⟨⟨hopens.spot, ⟨hopens.passable.named, ?_⟩, Or.inr ⟨_, _, hfile, rfl⟩⟩, ?_⟩
  · intro p hp
    have hne : p ≠ place := by
      rintro rfl
      exact hopens.notMem_way hp
    refine Or.inr ?_
    rw [h p, if_neg hne]
    exact if_pos hp
  · rw [stored_of_database hopens.spot hfile rfl]
    rfl

/-- Other rows may be filed in the place of those that are. -/
theorem Filed.set (h : t.Filed place rows d d') (hplace : place ≠ []) (rows' : List Row) :
    t.Filed place rows' d (d'.set place (.database (some rows'))) := by
  intro p
  rw [Disk.find?_set hplace]
  by_cases hp : p = place
  · rw [if_pos hp, if_pos hp]
  · rw [if_neg hp, if_neg hp, h p, if_neg hp]

variable {key : CacheKey} {v : Variant} {bytes : Bytes}

/-- **LOOKING UP** in a usable table answers from the stored rows and leaves them. -/
theorem get_of_usable (h : t.Usable d) (key : CacheKey) :
    (t.get key d).1 = Row.get? key (t.stored d)
      ∧ t.Usable (t.get key d).2 ∧ t.stored (t.get key d).2 = t.stored d := by
  obtain ⟨place, hopens⟩ := h
  obtain ⟨d', henter, hfiled⟩ := enter_of_opensAt hopens
  obtain ⟨hopens', hstored⟩ := hfiled.opensAt hopens
  simp only [get]
  rw [henter]
  exact ⟨rfl, ⟨place, hopens'⟩, hstored⟩

/-- **PUTTING** into a usable table does to the stored rows what it should. -/
theorem put_of_usable (h : t.Usable d) (v : Variant) (bytes : Bytes) :
    t.Usable (t.put v bytes d) ∧ t.stored (t.put v bytes d) = Row.put v bytes (t.stored d) := by
  obtain ⟨place, hopens⟩ := h
  obtain ⟨d', henter, hfiled⟩ := enter_of_opensAt hopens
  simp only [put]
  rw [henter]
  obtain ⟨hopens', hstored⟩ :=
    (hfiled.set (spot_ne_root hopens.spot) (Row.put v bytes (t.stored d))).opensAt hopens
  exact ⟨⟨place, hopens'⟩, hstored⟩

/-- Looking up in a table that is not usable misses. -/
theorem get_of_unusable (h : ¬ t.Usable d) (key : CacheKey) :
    (t.get key d).1 = none ∧ d.DirsMade (t.get key d).2 := by
  obtain ⟨d', henter, hdirs⟩ := enter_of_unusable h
  simp only [get]
  rw [henter]
  exact ⟨rfl, hdirs⟩

/-- Putting into a table that is not usable stores nothing. -/
theorem put_of_unusable (h : ¬ t.Usable d) (v : Variant) (bytes : Bytes) :
    d.DirsMade (t.put v bytes d) := by
  obtain ⟨d', henter, hdirs⟩ := enter_of_unusable h
  simp only [put]
  rw [henter]
  exact hdirs

end PhaseHost.Table

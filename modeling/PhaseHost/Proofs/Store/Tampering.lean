import PhaseHost.Proofs.Store.Retention

/-! # Tables behind the store's back

    A table is a file, and anybody may change it.  Rows get other bytes, other
    digests and other versions, the table is dropped, its directory goes, and
    something else takes its place.

    Of all this one thing is certain: a table has a primary key, so no two of its
    rows have the same key.  `Disk.Keyed` says so of every table on a disk, and
    it survives whatever is done.  It is what makes "the row of a key" mean
    something.

    What the store makes of such a table is said for every disk that has come
    about so: bytes are answered only with the digest they have, and a put leaves
    rows of its own version only, so nothing that was there before can come up
    again. -/

namespace PhaseHost

/-! ## Digests -/

/-- Digits of base sixteen are written in lower case. -/
theorem Hex.toLower_digit : ∀ n < 16, (digit n).toLower = digit n := by
  decide

/-- A byte is written in lower case. -/
theorem Hex.map_toLower_ofByte (b : UInt8) : (ofByte b).map Char.toLower = ofByte b := by
  have hb : b.toNat < 256 := b.toNat_lt
  simp only [ofByte, List.map_cons, List.map_nil]
  rw [toLower_digit (b.toNat / 16) (by omega), toLower_digit (b.toNat % 16) (by omega)]

/-- A digest is written in lower case. -/
theorem Row.lower_hexDigest (bytes : Bytes) :
    lower (Sha256.hexDigest bytes) = Sha256.hexDigest bytes := by
  refine String.toList_inj.mp ?_
  simp only [lower, Sha256.hexDigest, Bytes.hex, String.toList_map, String.toList_ofList,
    List.map_flatMap, Hex.map_toLower_ofByte]

/-- A row is intact exactly if its digest is that of its bytes, up to case. -/
theorem Row.isIntact_iff (r : Row) :
    r.isIntact = true ↔ lower r.digest = Sha256.hexDigest r.bytes := by
  rw [isIntact, decide_eq_true_iff, lower_hexDigest]

/-! ## Primary keys -/

/-- A table has no two rows of one key. -/
def Node.Keyed : Node → Prop
  | .database (some rows) => (rows.map Row.key).Nodup
  | _ => True

namespace Disk

variable {d d' : Disk} {place p : Place} {node found : Node}

/-- Every table on the disk has a primary key. -/
def Keyed (d : Disk) : Prop :=
  ∀ p node, d.find? p = some node → node.Keyed

theorem keyed_empty : empty.Keyed := by
  intro p node h
  simp only [find?, empty] at h
  split at h
  · cases h
    trivial
  · cases h

/-- What is found on a disk after something was put there is this, or was there before. -/
theorem find?_set_elim (h : (d.set place node).find? p = some found) :
    found = node ∨ d.find? p = some found := by
  by_cases hp : p = place
  · subst hp
    by_cases hroot : p = []
    · subst hroot
      exact Or.inr h
    · rw [find?_set_self hroot] at h
      exact Or.inl (Option.some.inj h).symm
  · rw [find?_set_of_ne hp] at h
    exact Or.inr h

/-- What is found on a disk after something was removed was there before. -/
theorem find?_remove_elim (h : (d.remove place).find? p = some found) :
    d.find? p = some found := by
  simp only [find?, remove] at h ⊢
  by_cases hroot : p.isEmpty = true
  · rw [if_pos hroot] at h ⊢
    exact h
  · rw [if_neg hroot] at h ⊢
    by_cases hgone : place.isPrefixOf p = true
    · rw [List.find?_eq_none.mpr] at h
      · cases h
      · intro n hn hnp
        have hkept := (List.mem_filter.mp hn).2
        rw [of_decide_eq_true hnp, hgone] at hkept
        cases hkept
    · have hkept : (!place.isPrefixOf p) = true := by
        rw [Bool.eq_false_iff.mpr hgone]
        rfl
      rw [find?_filter_nodes (fun q => !place.isPrefixOf q) hkept] at h
      exact h

/-- Putting something with a primary key on the disk leaves all tables with one. -/
theorem Keyed.set (h : d.Keyed) (hnode : node.Keyed) (place : Place) :
    (d.set place node).Keyed := by
  intro p found hfound
  rcases find?_set_elim hfound with rfl | hold
  · exact hnode
  · exact h p found hold

/-- Directories are no tables. -/
theorem Keyed.dirsMade (h : d.Keyed) (hdirs : d.DirsMade d') : d'.Keyed := by
  intro p node hnode
  rcases hdirs p with hsame | ⟨-, hdir⟩
  · exact h p node (hsame ▸ hnode)
  · rw [hdir] at hnode
    cases hnode
    trivial

/-- Whatever is planted on a disk, tables have their keys if it has. -/
theorem Keyed.put (h : d.Keyed) (hnode : node.Keyed) (current : Place) (p : Path) :
    (d.put current p node).Keyed := by
  have hdirs : ((d.makeDirs (start current p).1 (start current p).2.dropLast).1).Keyed :=
    h.dirsMade (dirsMade_makeDirs d _ _)
  simp only [Disk.put]
  split
  next name d₁ dir _ heq =>
    rw [heq] at hdirs
    exact hdirs.set hnode _
  next d₁ dir? heq _ =>
    rw [heq] at hdirs
    exact hdirs

/-- Removing something leaves all tables with a primary key. -/
theorem Keyed.removePath (h : d.Keyed) (current : Place) (p : Path) :
    (d.removePath current p).Keyed := by
  simp only [Disk.removePath]
  split
  · exact fun q found hfound => h q found (find?_remove_elim hfound)
  · exact h

end Disk

namespace Table

variable {t : Table} {d d' : Disk} {place : Place} {rows : List Row}

/-- No key stands twice in a table. -/
theorem keyed_stored (h : d.Keyed) (t : Table) : ((t.stored d).map Row.key).Nodup := by
  simp only [stored]
  split
  next rows hfound =>
    obtain ⟨place, -, hplace⟩ := Option.bind_eq_some_iff.mp hfound
    exact h place _ hplace
  next => exact List.nodup_nil

/-- Rows without a repeated key may be filed. -/
theorem Filed.keyed (h : t.Filed place rows d d') (hd : d.Keyed)
    (hrows : (rows.map Row.key).Nodup) : d'.Keyed := by
  intro p node hnode
  rw [h p] at hnode
  split at hnode
  · cases hnode
    exact hrows
  · split at hnode
    · cases hnode
      trivial
    · exact hd p node hnode

/-- Putting never makes two rows of one key. -/
theorem keyed_row_put (h : (rows.map Row.key).Nodup) (v : Variant) (bytes : Bytes) :
    ((Row.put v bytes rows).map Row.key).Nodup := by
  have hkeys : ∀ rs : List Row, (rs.map Row.labels.key).map CacheKey.text = rs.map Row.key := by
    intro rs
    rw [List.map_map]
    rfl
  rw [Row.put_eq, ← hkeys]
  refine (Labels.keyed_shelve ?_).map (fun k k' hkk' => ?_)
  · exact List.Nodup.of_map CacheKey.text ((hkeys rows).symm ▸ h)
  · cases k
    cases k'
    exact congrArg CacheKey.mk hkk'

/-- A look-up leaves all tables with a primary key. -/
theorem keyed_get (h : d.Keyed) (t : Table) (key : CacheKey) : (t.get key d).2.Keyed := by
  by_cases husable : t.Usable d
  · obtain ⟨place, hopens⟩ := husable
    obtain ⟨d', henter, hfiled⟩ := enter_of_opensAt hopens
    simp only [get]
    rw [henter]
    exact hfiled.keyed h (keyed_stored h t)
  · exact h.dirsMade (get_of_unusable husable key).2

/-- Putting bytes leaves all tables with a primary key. -/
theorem keyed_put (h : d.Keyed) (t : Table) (v : Variant) (bytes : Bytes) :
    (t.put v bytes d).Keyed := by
  by_cases husable : t.Usable d
  · obtain ⟨place, hopens⟩ := husable
    obtain ⟨d', henter, hfiled⟩ := enter_of_opensAt hopens
    simp only [put]
    rw [henter]
    exact (hfiled.set (spot_ne_root hopens.spot) _).keyed h
      (keyed_row_put (keyed_stored h t) v bytes)
  · exact h.dirsMade (put_of_unusable husable v bytes)

/-- An edit of the rows keeps the keys apart on the whole disk if it does in the table. -/
theorem keyed_edit {edit : List Row → Nat × Option (List Row)} (h : d.Keyed) (t : Table)
    (hedit : ∀ rows, (rows.map Row.key).Nodup → (Node.database (edit rows).2).Keyed) :
    (t.edit edit d).2.Keyed := by
  have hfile : (Node.file []).Keyed := trivial
  simp only [Table.edit]
  split
  · exact h
  next place _ =>
    split
    · split
      · exact h.set hfile place
      · exact h
    next node hnode =>
      split
      next rows hrows =>
        refine h.set (hedit rows ?_) place
        have hkeyed := h place node hnode
        cases node with
        | directory => exact nomatch hrows
        | file content => cases content <;> exact nomatch hrows
        | database held =>
            obtain rfl : held = some rows := Option.some.inj hrows
            exact hkeyed
      next => exact h

/-! ## Exposure -/

/-- What is done to a table from outside. -/
inductive Tampering where
  /-- The row of a key gets another version, other bytes, or another digest. -/
  | change (key : CacheKey) (edit : Row → Row) (keeps : ∀ r, (edit r).key = r.key)
  /-- The table is dropped from its file. -/
  | drop
  /-- Something is removed, with all below it. -/
  | remove (p : Path)
  /-- Something else is put where a path leads: a directory, a file that is no
      database, an empty file, or another table. -/
  | plant (p : Path) (node : Node) (keyed : node.Keyed)

/-- What tampering does. -/
def Tampering.apply (t : Table) (d : Disk) : Tampering → Disk
  | .change key edit _ => (t.editRow key edit d).2
  | .drop => (t.drop d).2
  | .remove p => d.removePath t.current p
  | .plant p node _ => d.put t.current p node

/-- Whatever tampering does, the tables keep their primary keys. -/
theorem keyed_apply (h : d.Keyed) (t : Table) (tampering : Tampering) :
    (tampering.apply t d).Keyed := by
  cases tampering with
  | change key edit keeps =>
      refine keyed_edit h t (fun rows hrows => ?_)
      -- changing rows changes no key, so the keys are the same list
      have hkeys : (rows.map (fun r => if r.key = key.text then edit r else r)).map Row.key
          = rows.map Row.key := by
        rw [List.map_map]
        refine List.map_congr_left (fun r _ => ?_)
        simp only [Function.comp_apply]
        split
        · exact keeps r
        · rfl
      show ((rows.map _).map Row.key).Nodup
      rw [hkeys]
      exact hrows
  | drop => exact keyed_edit h t (fun _ _ => trivial)
  | remove p => exact h.removePath t.current p
  | plant p node keyed => exact h.put keyed t.current p

/-- What a table meets with: it is used, or somebody tampers with it. -/
inductive Encounter where
  | use (op : StoreOp)
  | tamper (tampering : Tampering)

/-- What an encounter does. -/
def meet (t : Table) (d : Disk) : Encounter → Disk
  | .use op => t.store.after d op
  | .tamper tampering => tampering.apply t d

/-- The disk after a sequence of encounters. -/
def exposed (t : Table) (d : Disk) (encounters : List Encounter) : Disk :=
  encounters.foldl t.meet d

/-- Whatever a disk meets, the tables keep their primary keys. -/
theorem keyed_meet (h : d.Keyed) (t : Table) (e : Encounter) : (t.meet d e).Keyed := by
  cases e with
  | use op =>
      cases op with
      | put v bytes => exact keyed_put h t v bytes
      | get v => exact keyed_get h t v.key
      | reopen => exact h
  | tamper tampering => exact keyed_apply h t tampering

/-- Whatever a table meets with, keys stay apart. -/
theorem keyed_exposed (h : d.Keyed) (t : Table) (encounters : List Encounter) :
    (t.exposed d encounters).Keyed := by
  induction encounters generalizing d with
  | nil => exact h
  | cons e rest ih => exact ih (keyed_meet h t e)

/-! ## What is answered -/

/-- Where keys are apart, a key is answered with the bytes of its row, if they have
    their digest. -/
theorem row_get?_iff (h : (rows.map Row.key).Nodup) {key : CacheKey} {bytes : Bytes} :
    Row.get? key rows = some bytes ↔
      ∃ r ∈ rows, r.key = key.text ∧ r.bytes = bytes
        ∧ Row.lower r.digest = Sha256.hexDigest bytes := by
  constructor
  · intro hget
    simp only [Row.get?] at hget
    split at hget
    next r hfind =>
      split at hget
      next hintact =>
        cases hget
        exact ⟨r, List.mem_of_find?_eq_some hfind, of_decide_eq_true (List.find?_some hfind :),
          rfl, r.isIntact_iff.mp hintact⟩
      next => cases hget
    next => cases hget
  · rintro ⟨r, hr, hkey, rfl, hdigest⟩
    have hfind : rows.find? (fun r => r.key = key.text) = some r := by
      cases hcase : rows.find? (fun r => r.key = key.text) with
      | none => exact absurd (decide_eq_true hkey) (List.find?_eq_none.mp hcase r hr)
      | some r' =>
          have hkey' : r'.key = key.text := of_decide_eq_true (List.find?_some hcase :)
          rw [List.inj_on_of_nodup_map h (List.mem_of_find?_eq_some hcase) hr
            (hkey'.trans hkey.symm)]
    simp only [Row.get?]
    rw [hfind]
    exact if_pos (r.isIntact_iff.mpr hdigest)

/-- Directories that are made leave what is stored. -/
theorem stored_dirsMade (h : d.DirsMade d') (t : Table) : t.stored d' = t.stored d := by
  simp only [stored]
  cases hspot : t.spot? with
  | none => rfl
  | some place =>
      rw [Option.bind_some, Option.bind_some]
      rcases h place with hsame | ⟨hnone, hdir⟩
      · rw [hsame]
      · rw [hnone, hdir]

/-- A look-up leaves the rows as they are. -/
theorem stored_get (t : Table) (d : Disk) (key : CacheKey) :
    t.stored (t.get key d).2 = t.stored d := by
  by_cases husable : t.Usable d
  · exact (get_of_usable husable key).2.2
  · exact stored_dirsMade (get_of_unusable husable key).2 t

/-- **WHAT IS FOUND** is in a row of a usable table whose digest is that of its bytes, up to the
    case of letters. -/
theorem get_eq_some_iff (h : d.Keyed) {key : CacheKey} {bytes : Bytes} :
    (t.get key d).1 = some bytes ↔
      t.Usable d ∧ ∃ r ∈ t.stored d, r.key = key.text ∧ r.bytes = bytes
        ∧ Row.lower r.digest = Sha256.hexDigest bytes := by
  by_cases husable : t.Usable d
  · rw [(get_of_usable husable key).1, row_get?_iff (keyed_stored h t), and_iff_right husable]
  · rw [(get_of_unusable husable key).1]
    exact ⟨nofun, fun hget => absurd hget.1 husable⟩

/-- **TAMPERING NEVER SHOWS**.  Whatever a table has met with, there is an answer to
    every operation:

    * the table can be opened exactly if it is usable;
    * a look-up is answered with bytes exactly if the table can be opened and has a
      row of the key with these bytes, whose digest is theirs up to case;
    * so the bytes of a row under a digest that is not theirs are never answered;
    * a look-up leaves the rows as they are, and so does a put into a table that
      cannot be opened;
    * a put into a table that can be opened leaves rows of its own version only, one
      of them for its key with its bytes and their digest, and the look-up that
      follows is answered with these bytes. -/
theorem tampering_never_shows (t : Table) (d₀ : Disk) (hkeyed : d₀.Keyed)
    (encounters : List Encounter) (d : Disk) (hd : d = t.exposed d₀ encounters) :
    (t.Usable d ↔ (t.enter d).2.isSome) ∧
    (∀ key bytes, (t.get key d).1 = some bytes ↔
      t.Usable d ∧ ∃ r ∈ t.stored d, r.key = key.text ∧ r.bytes = bytes
        ∧ Row.lower r.digest = Sha256.hexDigest bytes) ∧
    (∀ r ∈ t.stored d, Row.lower r.digest ≠ Sha256.hexDigest r.bytes →
      (t.get ⟨r.key⟩ d).1 = none) ∧
    (∀ key, t.stored (t.get key d).2 = t.stored d) ∧
    (¬ t.Usable d → ∀ v bytes, t.stored (t.put v bytes d) = t.stored d) ∧
    (t.Usable d → ∀ v bytes,
      (∀ r ∈ t.stored (t.put v bytes d), r.version = v.version) ∧
      (∃ r ∈ t.stored (t.put v bytes d), r.key = v.key.text ∧ r.bytes = bytes
        ∧ r.digest = Sha256.hexDigest bytes) ∧
      (t.get v.key (t.put v bytes d)).1 = some bytes) := by
  subst hd
  have hd := keyed_exposed hkeyed t encounters
  refine ⟨usable_iff_enter, fun _ _ => get_eq_some_iff hd, ?_, t.stored_get _, ?_, ?_⟩
  · intro r hr hdigest
    refine Option.eq_none_iff_forall_ne_some.mpr ?_
    intro bytes hget
    obtain ⟨-, r', hr', hkey, hbytes, hdigest'⟩ := (get_eq_some_iff hd).mp hget
    obtain rfl : r' = r := List.inj_on_of_nodup_map (keyed_stored hd t) hr' hr hkey
    exact hdigest (hbytes ▸ hdigest')
  · exact fun husable v bytes => stored_dirsMade (put_of_unusable husable v bytes) t
  · intro husable v bytes
    obtain ⟨husable', hstored⟩ := put_of_usable husable v bytes
    have hmem : Row.ofBytes v bytes ∈ t.stored (t.put v bytes (t.exposed d₀ encounters)) := by
      rw [hstored]
      exact List.mem_cons_self
    refine ⟨?_, ⟨_, hmem, rfl, rfl, rfl⟩, ?_⟩
    · intro r hr
      rw [hstored, Row.put_eq] at hr
      exact Labels.version_of_mem_shelve hr
    · exact (get_eq_some_iff (keyed_put hd t v bytes)).mpr
        ⟨husable', _, hmem, rfl, rfl, Row.lower_hexDigest bytes⟩

/-- Stored bytes are changed, the table is dropped, its directory goes, a file that is
    no database and then a directory take its place, and a row gets another version. -/
def ordeal : List Encounter :=
  [.use (.put ⟨.reader, "a"⟩ [1]),
    .tamper (.change ⟨"a_reader"⟩ (fun r => { r with bytes := [9] }) (fun _ => rfl)),
    .use (.get ⟨.reader, "a"⟩), .tamper .drop, .use .reopen, .tamper (.remove [0x2F, 0x63]),
    .tamper (.plant [0x2F, 0x63, 0x2F, 0x64] (.file [1]) trivial), .use (.put ⟨.reader, "a"⟩ [1]),
    .tamper (.plant [0x2F, 0x63, 0x2F, 0x64] .directory trivial), .use (.put ⟨.reader, "a"⟩ [1]),
    .tamper (.remove [0x2F, 0x63, 0x2F, 0x64]), .use (.put ⟨.engine, "b"⟩ [2]),
    .tamper (.change ⟨"b_engine"⟩ (fun r => { r with version := "a" }) (fun _ => rfl))]

/-- The table can still be used after the ordeal. -/
theorem ordeal_usable : sample.Usable (sample.exposed Disk.empty ordeal) :=
  ⟨[[0x63], [0x64]], by decide, by decide +kernel, Or.inr ⟨_, _, rfl, rfl⟩⟩

/-- After all of it the store answers with what is put next. -/
theorem ordeal_never_shows :
    Disk.empty.Keyed ∧ sample.Usable (sample.exposed Disk.empty ordeal) ∧
    (sample.get (Variant.key ⟨.reader, "c"⟩)
      (sample.put ⟨.reader, "c"⟩ [3] (sample.exposed Disk.empty ordeal))).1 = some [3] := by
  obtain ⟨-, -, -, -, -, hput⟩ :=
    tampering_never_shows sample Disk.empty Disk.keyed_empty ordeal _ rfl
  exact ⟨Disk.keyed_empty, ordeal_usable, (hput ordeal_usable _ _).2.2⟩

end Table
end PhaseHost

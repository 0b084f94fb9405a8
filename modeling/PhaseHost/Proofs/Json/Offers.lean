import PhaseHost.Proofs.Json.Printed
import PhaseHost.Proofs.Json.Skipping

/-! # Objects of which some fields are wanted

    Of an object only some fields may be of use.  Those are read; the others are passed over,
    so that nothing but their form is asked of them.  `Offers` says which texts such an
    object is read from and what is known of it then. -/

namespace PhaseHost.Json

variable {b t s rest raw : Bytes} {wanted : String → Bool} {key : String} {v? : Option Json}
  {fields : List (String × Json)}

/-- The value of a field: it is kept where the field is wanted, and elsewhere its form will do. -/
def Kept (wanted : String → Bool) (key : String) (t : Bytes) : Option Json → Prop
  | some v => wanted key = true ∧ Spells (maxDepth - 1) t v
  | none => wanted key = false ∧ Formed t

/-- The fields whose values are kept. -/
def keptFields (entries : List (String × Option Json)) : List (String × Json) :=
  entries.filterMap (fun (key, v?) => v?.map (fun v => (key, v)))

/-- A text is an object with fields of which those that are wanted are known, in the order
    of the text and with repetitions. -/
def Offers (wanted : String → Bool) (raw : Bytes) (fields : List (String × Json)) : Prop :=
  ∃ b r entries b', Blank b
    ∧ Listed (Pair (fun t key => Body t key.toList) (Kept wanted)) 0x7D r entries ∧ Blank b'
    ∧ raw = b ++ 0x7B :: (r ++ b') ∧ fields = keptFields entries

theorem scanWanted_eq_ok_iff : scanWanted wanted key s = .ok (v?, rest) ↔
    (wanted key = true ∧ ∃ v, v? = some v ∧ scanValue (maxDepth - 1) s = .ok (v, rest))
    ∨ (wanted key = false ∧ v? = none ∧ scanIgnored s = .ok ((), rest)) := by
  unfold scanWanted
  cases wanted key with
  | true =>
      rw [if_pos rfl]
      cases scanValue (maxDepth - 1) s with
      | error fault => exact ⟨nofun, by rintro (⟨-, v, -, h⟩ | ⟨h, -⟩) <;> cases h⟩
      | ok p =>
          constructor
          · intro h
            cases h
            exact Or.inl ⟨rfl, p.1, rfl, rfl⟩
          · rintro (⟨-, v, rfl, h⟩ | ⟨h, -⟩)
            · cases h
              rfl
            · cases h
  | false =>
      rw [if_neg Bool.false_ne_true]
      cases scanIgnored s with
      | error fault => exact ⟨nofun, by rintro (⟨h, -⟩ | ⟨-, -, h⟩) <;> cases h⟩
      | ok p =>
          constructor
          · intro h
            cases h
            exact Or.inr ⟨rfl, rfl, rfl⟩
          · rintro (⟨h, -⟩ | ⟨-, rfl, h⟩)
            · cases h
            · cases h
              rfl

theorem scanWanted_of_kept (hb : Blank b) (h : Kept wanted key t v?) (hstops : Stops rest) :
    scanWanted wanted key (b ++ (t ++ rest)) = .ok (v?, rest) := by
  refine scanWanted_eq_ok_iff.mpr ?_
  cases v? with
  | some v =>
      refine Or.inl ⟨h.1, v, rfl, ?_⟩
      rw [scanValue_blank hb]
      exact (takes_scanValue _).complete h.2 hstops
  | none => exact Or.inr ⟨h.1, rfl, scanIgnored_of_formed hb h.2 hstops⟩

theorem takes_scanWanted (wanted : String → Bool) (key : String) :
    Takes (scanWanted wanted key) (Kept wanted key) where
  sound := by
    intro s v? rest h
    rcases scanWanted_eq_ok_iff.mp h with ⟨hkey, v, rfl, hscan⟩ | ⟨hkey, rfl, hscan⟩
    · obtain ⟨b, t, hb, ht, hs⟩ := (takes_scanValue _).sound hscan
      exact ⟨b, t, hb, ⟨hkey, ht⟩, hs⟩
    · obtain ⟨b, t, hb, ht, hs⟩ := takes_scanIgnored.sound hscan
      exact ⟨b, t, hb, ⟨hkey, ht⟩, hs⟩
  complete := scanWanted_of_kept Blank.nil
  begins := by
    intro t v? h
    cases v? with
    | some v => exact h.2.begins
    | none => exact takes_scanIgnored.begins (v := ()) h.2

/-- **THE FIELDS THAT ARE WANTED** are read from the objects that offer them, and from nothing
    else. -/
theorem wantedFields_eq_some_iff :
    wantedFields wanted raw = some fields ↔ Offers wanted raw fields := by
  have hpairs : Takes (scanPair scanString (scanWanted wanted))
      (Pair (fun t key => Body t key.toList) (Kept wanted)) :=
    takes_pair takesNames_string (takes_scanWanted wanted) scanWanted_of_kept
  constructor
  · intro h
    obtain ⟨b, hb, hs, -⟩ := exists_blank raw
    unfold wantedFields at h
    generalize skipSpace raw = s at hs h
    split at h
    · next rest =>
        cases hscan : scanFields (scanWanted wanted) (rest.length + 1) true [] rest with
        | error fault =>
            rw [hscan] at h
            cases h
        | ok p =>
            obtain ⟨entries, b'⟩ := p
            cases hend : scanEnd b' with
            | error fault =>
                simp only [hscan, hend] at h
                cases h
            | ok u =>
                simp only [hscan, hend] at h
                obtain rfl := Option.some.inj h
                have hseries := (scanFields_toOption true).symm.trans
                  (congrArg Except.toOption hscan)
                obtain ⟨r, hr, rfl⟩ := listed_of_scanSeries hpairs hseries
                exact ⟨b, r, entries, b', hb, hr, scanEnd_eq_ok_iff.mp hend, hs, rfl⟩
    · cases h
  · rintro ⟨b, r, entries, b', hb, hr, hb', rfl, rfl⟩
    have hscan : scanFields (scanWanted wanted) ((r ++ b').length + 1) true [] (r ++ b')
        = .ok (entries, b') :=
      ok_of_toOption ((scanFields_toOption true).trans
        (scanSeries_of_listed hpairs (Or.inr rfl) hr (length_lt_append r b')))
    simp only [wantedFields, skipSpace_blank_cons hb (show isSpace 0x7B = false from rfl), hscan,
      scanEnd_eq_ok_iff.mpr hb']
    rfl

/-- An object with wanted fields has the form of a value. -/
theorem Offers.formed (h : Offers wanted raw fields) :
    ∃ b t b', Blank b ∧ Formed t ∧ Blank b' ∧ raw = b ++ (t ++ b') := by
  obtain ⟨b, r, entries, b', hb, hr, hb', rfl, -⟩ := h
  refine ⟨b, 0x7B :: r, b', hb, formed_of_members hr ?_, hb', rfl⟩
  intro t p hpair
  cases hpair with
  | @mk _ _ _ _ _ v? name blank blank' value =>
      refine .mk name.loose blank blank' ?_
      cases v? with
      | some v => exact value.2.formed
      | none => exact value.2

/-- What begins with a brace is read as an object, if it is read at all. -/
theorem obj_of_scanValue {depth : Nat} {v : Json}
    (h : scanValue depth (0x7B :: s) = .ok (v, rest)) :
    ∃ fields, v = .obj fields := by
  have hskip : skipSpace (0x7B :: s) = 0x7B :: s := rfl
  have hchar : Char.ofUInt8 0x7B = '\x7b' := rfl
  unfold scanValue at h
  simp only [hskip, hchar] at h
  cases depth with
  | zero => cases h
  | succ depth =>
      simp only at h
      cases hscan : scanFields (fun _ => scanValue depth) (s.length + 1) true [] s with
      | error fault =>
          rw [hscan] at h
          cases h
      | ok p =>
          rw [hscan] at h
          cases h
          exact ⟨_, rfl⟩

/-- An object that offers fields is no document of anything but an object. -/
theorem Offers.obj_of_document {v : Json} (h : Offers wanted raw fields) (hdoc : Document raw v) :
    ∃ fields, v = .obj fields := by
  obtain ⟨b, r, entries, b', hb, -, -, rfl, -⟩ := h
  have hparse := parse_eq_ok_iff.mpr hdoc
  cases hscan : scanValue maxDepth (b ++ 0x7B :: (r ++ b')) with
  | error fault =>
      simp only [parse, bind, Except.bind, hscan] at hparse
      cases hparse
  | ok p =>
      have hobj := hscan
      rw [scanValue_blank hb] at hobj
      cases hend : scanEnd p.2 with
      | error fault =>
          simp only [parse, bind, Except.bind, hscan, hend] at hparse
          cases hparse
      | ok u =>
          simp only [parse, bind, Except.bind, hscan, hend] at hparse
          cases hparse
          exact obj_of_scanValue hobj

/-! ## Written objects -/

section Lists

variable {α β : Type} {Kind : Bytes → α → Prop} {Kind' : Bytes → β → Prop} {close : UInt8}
  {r : Bytes} {xs : List α} {f : α → β}

theorem Further.map (h : Further Kind close r xs)
    (hkind : ∀ {t x}, x ∈ xs → Kind t x → Kind' t (f x)) : Further Kind' close r (xs.map f) := by
  induction h with
  | done blank => exact .done blank
  | more blank blank' item further ih =>
      exact .more blank blank' (hkind List.mem_cons_self item)
        (ih (fun hmem => hkind (List.mem_cons_of_mem _ hmem)))

theorem Listed.map (h : Listed Kind close r xs)
    (hkind : ∀ {t x}, x ∈ xs → Kind t x → Kind' t (f x)) : Listed Kind' close r (xs.map f) := by
  cases h with
  | empty blank => exact .empty blank
  | items blank item further =>
      exact .items blank (hkind List.mem_cons_self item)
        (further.map (fun hmem => hkind (List.mem_cons_of_mem _ hmem)))

end Lists

/-- A written object offers the fields it was written with, if they are wanted. -/
theorem offers_render (hwanted : ∀ p ∈ fields, wanted p.1 = true)
    (hexact : ∀ p ∈ fields, Exact (maxDepth - 1) p.2) :
    Offers wanted (Utf8.encode (Json.obj fields).render) fields := by
  obtain ⟨r, hr, hbytes⟩ := listed_fieldChars (fun p hp => spells_chars (hexact p hp))
  have hentries : Listed (Pair (fun t key => Body t key.toList) (Kept wanted)) 0x7D r
      (fields.map (fun p => (p.1, some p.2))) := by
    refine hr.map ?_
    intro t p hp hmember
    cases hmember with
    | mk name blank blank' value => exact .mk name blank blank' ⟨hwanted _ hp, value⟩
  refine ⟨[], r, _, [], Blank.nil, hentries, Blank.nil, ?_, ?_⟩
  · rw [render, Utf8.encode_ofList, hbytes, List.append_nil]
    rfl
  · rw [keptFields, List.filterMap_map]
    exact (List.filterMap_some).symm

end PhaseHost.Json

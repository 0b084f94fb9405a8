import PhaseHost.Proofs.Json.Syntax

/-! # Lists are read as listed

    The readers of arrays and of objects go through their texts alike.  What they have in
    common is spoken of once, for any reader of parts and any kind of texts that it `Takes`:
    what the reader takes off an input is blanks and then a text of the kind, and it takes
    each such text, if nothing behind it could go on with it. -/

namespace PhaseHost.Json

variable {b t s r rest : Bytes}

/-! ## Readers of a kind -/

/-- A byte with which a value may begin. -/
def Begins (x : UInt8) : Prop :=
  isSpace x = false ∧ x ≠ 0x5D ∧ x ≠ 0x7D ∧ x ≠ 0x2C

/-- A reader takes the texts of a kind, with what they spell, and nothing else. -/
structure Takes {α : Type} (scan : Scanner α) (Kind : Bytes → α → Prop) : Prop where
  sound : ∀ {s v rest}, scan s = .ok (v, rest) → ∃ b t, Blank b ∧ Kind t v ∧ s = b ++ (t ++ rest)
  complete : ∀ {t v rest}, Kind t v → Stops rest → scan (t ++ rest) = .ok (v, rest)
  /-- A text of the kind is not empty, and it cannot be taken for the end of a list. -/
  begins : ∀ {t v}, Kind t v → ∃ x t', t = x :: t' ∧ Begins x

section Lists

variable {α : Type} {Kind : Bytes → α → Prop} {scan : Scanner α} {close : UInt8} {acc xs : List α}
  {n : Nat}

/-- No blank goes on with a number. -/
theorem not_isDigit_of_isSpace {x : UInt8} (h : isSpace x = true) :
    ¬ IsDigit x ∧ x ≠ 0x2E ∧ x ≠ 0x65 ∧ x ≠ 0x45 := by
  simp only [isSpace, Bool.or_eq_true, decide_eq_true_eq] at h
  rcases h with ((rfl | rfl) | rfl) | rfl
  · exact ⟨fun h => absurd h.1 (by decide), by decide, by decide, by decide⟩
  · exact ⟨fun h => absurd h.1 (by decide), by decide, by decide, by decide⟩
  · exact ⟨fun h => absurd h.1 (by decide), by decide, by decide, by decide⟩
  · exact ⟨fun h => absurd h.1 (by decide), by decide, by decide, by decide⟩

/-- Nothing behind blanks goes on with a number, if nothing behind them does. -/
theorem Blank.stops (hb : Blank b) (h : Stops rest) : Stops (b ++ rest) := by
  cases b with
  | nil => exact h
  | cons x b =>
      intro y hy
      obtain rfl : x = y := Option.some.inj hy
      exact not_isDigit_of_isSpace (hb x List.mem_cons_self)

theorem stops_nil : Stops [] := nofun

/-- A number stops at a comma and at a closing bracket. -/
theorem stops_cons {x : UInt8} (h : x = 0x2C ∨ x = 0x5D ∨ x = 0x7D) : Stops (x :: rest) := by
  intro y hy
  obtain rfl : x = y := Option.some.inj hy
  rcases h with rfl | rfl | rfl
  · exact ⟨fun h => absurd h.1 (by decide), by decide, by decide, by decide⟩
  · exact ⟨fun h => absurd h.2 (by decide), by decide, by decide, by decide⟩
  · exact ⟨fun h => absurd h.2 (by decide), by decide, by decide, by decide⟩

/-- A number stops at the rest of a list. -/
theorem Further.stops (hclose : close = 0x5D ∨ close = 0x7D) (h : Further Kind close r xs)
    (rest : Bytes) : Stops (r ++ rest) := by
  cases h with
  | done blank =>
      rw [List.append_assoc]
      exact blank.stops (stops_cons (Or.inr hclose))
  | more blank blank' item further =>
      rw [List.append_assoc]
      exact blank.stops (stops_cons (Or.inl rfl))

/-- What is passed over ends at the first byte that is no blank. -/
theorem skipSpace_blank_cons {x : UInt8} (hb : Blank b) (hx : isSpace x = false) :
    skipSpace (b ++ x :: s) = x :: s := by
  rw [skipSpace_append hb, skipSpace_of_noBlank (noBlank_cons_iff.mpr hx)]

/-! ## Lists -/

/-- What the readers of arrays and of objects have in common: texts of a kind in a list. -/
def scanSeries (close : UInt8) (scan : Scanner α) :
    Nat → Bool → List α → Bytes → Option (List α × Bytes)
  | 0, _, _, _ => none
  | n + 1, isFirst, acc, s =>
    match skipSpace s with
    | [] => none
    | x :: rest =>
      if x = close then some (acc.reverse, rest)
      else if isFirst then
        match scan (x :: rest) with
        | .ok (v, s) => scanSeries close scan n false (v :: acc) s
        | .error _ => none
      else if x = 0x2C then
        match skipSpace rest with
        | [] => none
        | y :: rest =>
          if y = close then none
          else
            match scan (y :: rest) with
            | .ok (v, s) => scanSeries close scan n false (v :: acc) s
            | .error _ => none
      else none

/-- Faults aside, the items of an array are a series that a square bracket closes. -/
theorem scanItems_toOption (isFirst : Bool) :
    (scanItems scan n isFirst acc s).toOption = scanSeries 0x5D scan n isFirst acc s := by
  induction n generalizing isFirst acc s with
  | zero => rfl
  | succ n ih =>
      have hitem : ∀ s', (match scan s' with
          | .ok (v, s) => scanItems scan n false (v :: acc) s
          | .error fault => .error fault).toOption
          = match scan s' with
            | .ok (v, s) => scanSeries 0x5D scan n false (v :: acc) s
            | .error _ => none := by
        intro s'
        cases scan s' with
        | error fault => rfl
        | ok p => exact ih false
      simp only [scanItems, scanSeries]
      cases skipSpace s with
      | nil => rfl
      | cons x rest =>
          simp only
          split
          · rfl
          · split
            · exact hitem _
            · split
              · cases skipSpace rest with
                | nil => rfl
                | cons y rest =>
                    simp only
                    split
                    · rfl
                    · exact hitem _
              · rfl

/-- A name, from its opening quote on, a colon, and a value, whose reader the name may choose. -/
def scanPair {β : Type} (name : Scanner β) (value : β → Scanner α) : Scanner (β × α)
  | 0x22 :: rest => do
    let (key, s) ← name rest
    let ((), s) ← scanColon s
    let (v, s) ← value key s
    .ok ((key, v), s)
  | rest => .error (.ahead .keyNotString rest)

/-- A member, from its opening quote on. -/
def scanMember (scan : Scanner α) : Scanner (String × α) :=
  scanPair scanString (fun _ => scan)

/-- A pair is a name in quotes, a colon and a value. -/
theorem scanPair_quote {β : Type} (name : Scanner β) (value : β → Scanner α) (s : Bytes) :
    scanPair name value (0x22 :: s) = (do
      let (key, s) ← name s
      let ((), s) ← scanColon s
      let (v, s) ← value key s
      .ok ((key, v), s)) := rfl

/-- There is no pair without a name in quotes. -/
theorem scanPair_of_ne {β : Type} (name : Scanner β) (value : β → Scanner α) (rest : Bytes)
    {x : UInt8} (hx : x ≠ 0x22) : ∃ fault, scanPair name value (x :: rest) = .error fault := by
  unfold scanPair
  split
  · next hs => exact absurd (List.cons.inj hs).1 hx
  · exact ⟨_, rfl⟩

/-- A field of an object is a pair whose name is a string. -/
theorem scanPair_string (value : String → Scanner α) (s : Bytes) :
    scanPair scanString value (0x22 :: s) = scanField value s := rfl

/-- Faults aside, the fields of an object are a series that a brace closes. -/
theorem scanFields_toOption {value : String → Scanner α} {acc : List (String × α)}
    (isFirst : Bool) :
    (scanFields value n isFirst acc s).toOption
      = scanSeries 0x7D (scanPair scanString value) n isFirst acc s := by
  induction n generalizing isFirst acc s with
  | zero => rfl
  | succ n ih =>
      simp only [scanFields, scanSeries]
      cases skipSpace s with
      | nil => rfl
      | cons x rest =>
          simp only
          split
          · rfl
          · split
            · split
              · next hquote =>
                  rw [hquote, scanPair_string]
                  cases scanField value rest with
                  | error fault => rfl
                  | ok p => exact ih false
              · next hquote =>
                  obtain ⟨fault, hfault⟩ := scanPair_of_ne scanString value rest hquote
                  rw [hfault]
                  rfl
            · split
              · cases skipSpace rest with
                | nil => rfl
                | cons y rest =>
                    simp only
                    split
                    · next hquote =>
                        rw [hquote, if_neg (by decide), scanPair_string]
                        cases scanField value rest with
                        | error fault => rfl
                        | ok p => exact ih false
                    · next hquote =>
                        obtain ⟨fault, hfault⟩ := scanPair_of_ne scanString value rest hquote
                        rw [hfault]
                        split
                        · rfl
                        · rfl
              · rfl

/-- What is read behind a first text of a list is the rest of the list. -/
theorem further_of_scanSeries (h : Takes scan Kind)
    (hscan : scanSeries close scan n false acc s = some (xs, rest)) :
    ∃ r ys, Further Kind close r ys ∧ s = r ++ rest ∧ xs = acc.reverse ++ ys := by
  induction n generalizing acc s with
  | zero => cases hscan
  | succ n ih =>
      obtain ⟨b, hb, hs, -⟩ := exists_blank s
      simp only [scanSeries] at hscan
      generalize skipSpace s = s' at hs hscan
      cases s' with
      | nil => cases hscan
      | cons x s' =>
          simp only [Bool.false_eq_true, if_false] at hscan
          split at hscan
          · next hclose =>
              cases hscan
              refine ⟨_, [], .done hb, ?_, (List.append_nil _).symm⟩
              rw [hs, hclose, List.append_assoc]
              rfl
          · split at hscan
            · next hcomma =>
                obtain ⟨b', hb', hs', -⟩ := exists_blank s'
                generalize skipSpace s' = s'' at hs' hscan
                cases s'' with
                | nil => cases hscan
                | cons y s'' =>
                    simp only at hscan
                    split at hscan
                    · cases hscan
                    · cases hitem : scan (y :: s'') with
                      | error fault =>
                          rw [hitem] at hscan
                          cases hscan
                      | ok p =>
                          obtain ⟨v, s₁⟩ := p
                          rw [hitem] at hscan
                          obtain ⟨b₂, t, hb₂, ht, htext⟩ := h.sound hitem
                          obtain ⟨r, ys, hr, rfl, hxs⟩ := ih hscan
                          have hblank : Blank (b' ++ b₂) := List.forall_mem_append.mpr ⟨hb', hb₂⟩
                          refine ⟨_, _, .more hb hblank ht hr, ?_, ?_⟩
                          · rw [hs, hcomma, hs', htext]
                            simp only [List.append_assoc, List.cons_append]
                          · rw [hxs, List.reverse_cons, List.append_assoc, List.singleton_append]
            · cases hscan

/-- What is read as a series is a list with its closing byte. -/
theorem listed_of_scanSeries (h : Takes scan Kind)
    (hscan : scanSeries close scan n true [] s = some (xs, rest)) :
    ∃ r, Listed Kind close r xs ∧ s = r ++ rest := by
  cases n with
  | zero => cases hscan
  | succ n =>
      obtain ⟨b, hb, hs, -⟩ := exists_blank s
      simp only [scanSeries] at hscan
      generalize skipSpace s = s' at hs hscan
      cases s' with
      | nil => cases hscan
      | cons x s' =>
          simp only [if_true] at hscan
          split at hscan
          · next hclose =>
              cases hscan
              refine ⟨_, .empty hb, ?_⟩
              rw [hs, hclose, List.append_assoc]
              rfl
          · cases hitem : scan (x :: s') with
            | error fault =>
                rw [hitem] at hscan
                cases hscan
            | ok p =>
                obtain ⟨v, s₁⟩ := p
                rw [hitem] at hscan
                obtain ⟨b₂, t, hb₂, ht, htext⟩ := h.sound hitem
                obtain ⟨r, ys, hr, rfl, rfl⟩ := further_of_scanSeries h hscan
                have hblank : Blank (b ++ b₂) := List.forall_mem_append.mpr ⟨hb, hb₂⟩
                refine ⟨_, .items hblank ht hr, ?_⟩
                rw [hs, htext]
                simp only [List.append_assoc]

/-- A closing byte that ends lists of values. -/
def Closes (close : UInt8) : Prop :=
  close = 0x5D ∨ close = 0x7D

/-- A closing byte is no blank. -/
theorem Closes.noBlank (h : Closes close) : isSpace close = false := by
  rcases h with rfl | rfl
  · rfl
  · rfl

/-- A closing byte is no comma. -/
theorem Closes.ne_comma (h : Closes close) : (0x2C : UInt8) ≠ close := by
  rcases h with rfl | rfl
  · decide
  · decide

/-- No value begins with a closing byte. -/
theorem Begins.ne_close {x : UInt8} (hx : Begins x) (h : Closes close) : x ≠ close := by
  rcases h with rfl | rfl
  · exact hx.2.1
  · exact hx.2.2.1

/-- The rest of a list is read, whatever was read of it before. -/
theorem scanSeries_of_further (h : Takes scan Kind) (hclose : Closes close)
    (hr : Further Kind close r xs) : ∀ {n acc}, r.length < n →
    scanSeries close scan n false acc (r ++ rest) = some (acc.reverse ++ xs, rest) := by
  induction hr with
  | @done b blank =>
      intro n acc hn
      obtain ⟨n, rfl⟩ := Nat.exists_eq_succ_of_ne_zero (Nat.ne_of_gt (Nat.zero_lt_of_lt hn))
      simp only [scanSeries, List.append_assoc, List.singleton_append, List.append_nil,
        skipSpace_blank_cons blank hclose.noBlank, if_true]
  | @more b b' t r x xs blank blank' item further ih =>
      intro n acc hn
      obtain ⟨n, rfl⟩ := Nat.exists_eq_succ_of_ne_zero (Nat.ne_of_gt (Nat.zero_lt_of_lt hn))
      have hshort : r.length < n := by
        simp only [List.length_append, List.length_cons] at hn
        omega
      have hitem := h.complete item (further.stops hclose rest)
      obtain ⟨y, t', rfl, hy⟩ := h.begins item
      rw [List.cons_append] at hitem
      simp only [scanSeries, List.append_assoc, List.cons_append,
        skipSpace_blank_cons blank (show isSpace 0x2C = false from rfl),
        skipSpace_blank_cons blank' hy.1, if_neg hclose.ne_comma, Bool.false_eq_true, if_false,
        if_true, if_neg (hy.ne_close hclose), hitem, ih hshort]
      rw [List.reverse_cons, List.append_assoc, List.singleton_append]

/-- Every list with its closing byte is read as a series. -/
theorem scanSeries_of_listed (h : Takes scan Kind) (hclose : Closes close)
    (hr : Listed Kind close r xs) (hn : r.length < n) :
    scanSeries close scan n true [] (r ++ rest) = some (xs, rest) := by
  obtain ⟨n, rfl⟩ := Nat.exists_eq_succ_of_ne_zero (Nat.ne_of_gt (Nat.zero_lt_of_lt hn))
  cases hr with
  | @empty b blank =>
      simp only [scanSeries, List.append_assoc, List.singleton_append,
        skipSpace_blank_cons blank hclose.noBlank, if_true]
      rfl
  | @items b t r x xs blank item further =>
      have hitem := h.complete item (further.stops hclose rest)
      obtain ⟨y, t', rfl, hy⟩ := h.begins item
      have hshort : r.length < n := by
        simp only [List.length_append, List.length_cons] at hn
        omega
      rw [List.cons_append] at hitem
      simp only [scanSeries, List.append_assoc, List.cons_append, skipSpace_blank_cons blank hy.1,
        if_neg (hy.ne_close hclose), if_true, hitem, scanSeries_of_further h hclose further hshort]
      rfl

/-! ## Members -/

/-- A colon may have blanks in front. -/
theorem scanColon_eq_ok_iff :
    scanColon s = .ok ((), rest) ↔ ∃ b, Blank b ∧ s = b ++ 0x3A :: rest := by
  constructor
  · intro h
    obtain ⟨b, hb, hs, -⟩ := exists_blank s
    unfold scanColon at h
    generalize skipSpace s = s' at hs h
    cases s' with
    | nil => cases h
    | cons x s' =>
        simp only at h
        split at h
        · next hcolon =>
            cases h
            exact ⟨b, hb, by rw [hs, hcolon]⟩
        · cases h
  · rintro ⟨b, hb, rfl⟩
    simp only [scanColon, skipSpace_blank_cons hb (show isSpace 0x3A = false from rfl), if_true]

/-- A name in quotes, a colon and a value; the name may say of what kind the value is. -/
inductive Pair {α β : Type} (Name : Bytes → β → Prop) (Kind : β → Bytes → α → Prop) :
    Bytes → β × α → Prop
  | mk {t b b' r : Bytes} {key : β} {x : α} (name : Name t key) (blank : Blank b)
    (blank' : Blank b') (value : Kind key r x) :
    Pair Name Kind (0x22 :: (t ++ 0x22 :: (b ++ 0x3A :: (b' ++ r)))) (key, x)

section Pairs

variable {β : Type} {name : Scanner β} {Name : Bytes → β → Prop} {value : β → Scanner α}
  {Value : β → Bytes → α → Prop}

/-- A reader takes names of a kind, from behind their opening quote. -/
def TakesNames (name : Scanner β) (Name : Bytes → β → Prop) : Prop :=
  ∀ {s key rest}, name s = .ok (key, rest) ↔ ∃ t, Name t key ∧ s = t ++ 0x22 :: rest

/-- **PAIRS ARE TAKEN** if names and values are. -/
theorem takes_pair (hname : TakesNames name Name) (h : ∀ key, Takes (value key) (Value key))
    (hblank : ∀ {key b t v rest}, Blank b → Value key t v → Stops rest →
      value key (b ++ (t ++ rest)) = .ok (v, rest)) :
    Takes (scanPair name value) (Pair Name Value) where
  sound := by
    intro s p rest hscan
    obtain ⟨key, v⟩ := p
    unfold scanPair at hscan
    split at hscan
    · next s =>
        cases hkey : name s with
        | error fault =>
            rw [hkey] at hscan
            cases hscan
        | ok q =>
            obtain ⟨key', s₁⟩ := q
            obtain ⟨t, hbody, rfl⟩ := hname.mp hkey
            rw [hkey] at hscan
            cases hcolon : scanColon s₁ with
            | error fault =>
                simp only [bind, Except.bind, hcolon] at hscan
                cases hscan
            | ok q =>
                obtain ⟨⟨⟩, s₂⟩ := q
                obtain ⟨b, hb, rfl⟩ := scanColon_eq_ok_iff.mp hcolon
                simp only [bind, Except.bind, hcolon] at hscan
                cases hvalue : value key' s₂ with
                | error fault =>
                    rw [hvalue] at hscan
                    cases hscan
                | ok q =>
                    obtain ⟨v', s₃⟩ := q
                    rw [hvalue] at hscan
                    cases hscan
                    obtain ⟨b', r, hb', hr, rfl⟩ := (h key).sound hvalue
                    refine ⟨[], _, Blank.nil, .mk hbody hb hb' hr, ?_⟩
                    simp only [List.nil_append, List.cons_append, List.append_assoc]
    · cases hscan
  complete := by
    intro t p rest hkind hstops
    cases hkind with
    | @mk t b b' r key x hbody blank blank' hr =>
        have hkey : name (t ++ 0x22 :: (b ++ 0x3A :: (b' ++ (r ++ rest))))
            = .ok (key, b ++ 0x3A :: (b' ++ (r ++ rest))) :=
          hname.mpr ⟨t, hbody, rfl⟩
        have hcolon : scanColon (b ++ 0x3A :: (b' ++ (r ++ rest))) = .ok ((), b' ++ (r ++ rest)) :=
          scanColon_eq_ok_iff.mpr ⟨b, blank, rfl⟩
        have hvalue : value key (b' ++ (r ++ rest)) = .ok (x, rest) :=
          hblank blank' hr hstops
        simp only [List.cons_append, List.append_assoc, scanPair_quote, bind, Except.bind, hkey,
          hcolon, hvalue]
  begins := by
    intro t p hkind
    cases hkind with
    | mk hbody blank blank' hr =>
        exact ⟨_, _, rfl, rfl, by decide, by decide, by decide⟩

end Pairs

/-- The names of members are strings. -/
theorem takesNames_string : TakesNames scanString (fun t key => Body t key.toList) :=
  scanString_eq_ok_iff

/-- Members are pairs of a string and a value of one kind. -/
theorem member_eq_pair :
    Member Kind = Pair (fun t key => Body t key.toList) (fun _ => Kind) := by
  funext t p
  refine propext ⟨?_, ?_⟩
  · rintro ⟨name, blank, blank', value⟩
    exact .mk name blank blank' value
  · rintro ⟨name, blank, blank', value⟩
    exact .mk name blank blank' value

/-- A field whose name does not matter is taken if its value is. -/
theorem takes_member (h : Takes scan Kind) (hskip : ∀ {b s}, Blank b → scan (b ++ s) = scan s) :
    Takes (scanMember scan) (Member Kind) := by
  rw [member_eq_pair]
  exact takes_pair takesNames_string (fun _ => h)
    (fun hb hkind hstops => (hskip hb).trans (h.complete hkind hstops))

end Lists

end PhaseHost.Json

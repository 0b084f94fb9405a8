import Mathlib.Algebra.Group.Nat.Defs
import Mathlib.Data.Nat.Digits.Defs
import PhaseHost.Proofs.Text.Utf8
import PhaseHost.Proofs.Workspace.Paths
import PhaseHost.Settings

/-! # Limits from the environment

    A limit is a number that stands as a text in a variable.  What a text denotes is
    said here without the reader: blanks, an optional plus sign, decimal digits, blanks.
    There is no bound on the digits, so it may be any number at all.

    * The reader takes the texts that denote a number below `2 ^ 64`, with that number,
      and no others.  It adds up digits without a bound and compares once, at the end.
    * Mebibytes become bytes in one multiplication that stops at `2 ^ 64 - 1`.

    So a setting FOLLOWS its variable: what the variable denotes decides, in its absence
    and behind all other texts the default stands, and no other variable matters. -/

namespace PhaseHost

/-! ## Numbers in texts -/

namespace Text

variable {s t sign before after : List Char} {c : Char} {n v : Nat}

/-- The value of a decimal digit. -/
def digitValue (c : Char) : Nat :=
  c.toNat - 48

/-- The number of decimal digits, the first of which counts most. -/
def digitsValue (digits : List Char) : Nat :=
  Nat.ofDigits 10 (digits.map digitValue).reverse

/-- A text DENOTES a number: blanks aside, it is an optional plus sign and then the decimal
    digits of the number, one at least. -/
inductive Denotes : List Char → Nat → Prop
  | mk {before sign digits after : List Char} (blank : ∀ c ∈ before, isBlank c = true)
    (blank' : ∀ c ∈ after, isBlank c = true) (plus : sign = [] ∨ sign = ['+'])
    (some : digits ≠ []) (decimal : ∀ c ∈ digits, c.isDigit = true) :
    Denotes (before ++ (sign ++ digits ++ after)) (digitsValue digits)

/-- The first digit counts for the most. -/
theorem digitsValue_cons (c : Char) (digits : List Char) :
    digitsValue (c :: digits) = digitValue c * 10 ^ digits.length + digitsValue digits := by
  rw [digitsValue, digitsValue, List.map_cons, List.reverse_cons, Nat.ofDigits_append,
    Nat.ofDigits_singleton, List.length_reverse, List.length_map, Nat.add_comm, Nat.mul_comm]

theorem decimalDigit?_eq (c : Char) :
    decimalDigit? c = if c.isDigit = true then some (digitValue c) else none := rfl

/-- Digits add up to their number, behind those already taken. -/
theorem numberFrom?_eq_some_iff :
    numberFrom? v s = some n
      ↔ (∀ c ∈ s, c.isDigit = true) ∧ n = v * 10 ^ s.length + digitsValue s := by
  induction s generalizing v with
  | nil =>
      have hnil : v * 10 ^ ([] : List Char).length + digitsValue [] = v := Nat.mul_one v
      rw [hnil]
      exact ⟨fun h => ⟨nofun, (Option.some.inj h).symm⟩, fun h => congrArg some h.2.symm⟩
  | cons c rest ih =>
      have hvalue : (v * 10 + digitValue c) * 10 ^ rest.length + digitsValue rest
          = v * 10 ^ (c :: rest).length + digitsValue (c :: rest) := by
        rw [digitsValue_cons, List.length_cons, Nat.pow_succ, Nat.add_mul, Nat.add_assoc,
          Nat.mul_assoc, Nat.mul_comm 10]
      rw [numberFrom?, decimalDigit?_eq, List.forall_mem_cons]
      by_cases hc : c.isDigit = true
      · rw [if_pos hc]
        simp only [ih, hvalue]
        exact and_congr_left' (and_iff_right hc).symm
      · rw [if_neg hc]
        exact ⟨nofun, fun h => absurd h.1.1 hc⟩

/-! ## Blanks aside -/

/-- No digit is a blank. -/
theorem isBlank_of_isDigit (h : c.isDigit = true) : isBlank c = false := by
  have hrange : 48 ≤ c.toNat ∧ c.toNat ≤ 57 := by
    simp only [Char.isDigit, Bool.and_eq_true, decide_eq_true_eq, UInt32.le_iff_toNat_le] at h
    exact h
  simp only [isBlank, Bool.or_eq_false_iff, Bool.and_eq_false_iff, decide_eq_false_iff_not]
  omega

/-- Every text is blanks, what is left of it without them, and blanks again. -/
theorem exists_trimChars (s : List Char) : ∃ before after, (∀ c ∈ before, isBlank c = true)
    ∧ (∀ c ∈ after, isBlank c = true) ∧ s = before ++ (trimChars s ++ after) := by
  refine ⟨s.takeWhile isBlank, (s.dropWhile isBlank).rtakeWhile isBlank, ?_, ?_, ?_⟩
  · exact fun c hc => List.mem_takeWhile_imp hc
  · exact fun c hc => List.mem_rtakeWhile_imp hc
  · rw [trimChars, dropEnd_eq_rdropWhile, List.rdropWhile_append_rtakeWhile,
      List.takeWhile_append_dropWhile]

/-- Blanks are left out in front of a text and behind it, if it has none at its own ends. -/
theorem trimChars_append (blank : ∀ c ∈ before, isBlank c = true)
    (blank' : ∀ c ∈ after, isBlank c = true) (hne : t ≠ [])
    (hhead : ∀ c, t.head? = some c → isBlank c = false)
    (hlast : ∀ c, t.getLast? = some c → isBlank c = false) :
    trimChars (before ++ (t ++ after)) = t := by
  have hfront : (before ++ (t ++ after)).dropWhile isBlank = t ++ after := by
    rw [List.dropWhile_append_of_pos blank]
    obtain ⟨c, rest, rfl⟩ := List.exists_cons_of_ne_nil hne
    rw [List.cons_append, List.dropWhile_cons, hhead c rfl]
    rfl
  rw [trimChars, hfront, dropEnd, List.reverse_append,
    List.dropWhile_append_of_pos (fun c hc => blank' c (List.mem_reverse.mp hc))]
  exact dropEnd_eq_self hlast

/-- The word that digits denote. -/
def wordOfDigits? (digits : List Char) : Option Nat :=
  if digits.isEmpty then none else (numberFrom? 0 digits).filter (· ≤ wordMax)

/-- Digits are a word exactly if there is one at least and their number is small enough. -/
theorem wordOfDigits?_eq_some_iff : wordOfDigits? s = some n
    ↔ s ≠ [] ∧ (∀ c ∈ s, c.isDigit = true) ∧ n = digitsValue s ∧ n < 2 ^ 64 := by
  have hbound : decide (n ≤ wordMax) = true ↔ n < 2 ^ 64 := by
    rw [wordMax, decide_eq_true_eq]
    omega
  rw [wordOfDigits?, Option.ite_none_left_eq_some, List.isEmpty_iff, Option.filter_eq_some_iff,
    numberFrom?_eq_some_iff, hbound, Nat.zero_mul, Nat.zero_add, and_assoc]

/-- One plus sign in front of the digits does not count. -/
theorem wordOfChars?_append (h : sign = [] ∧ s.head? ≠ some '+' ∨ sign = ['+']) :
    wordOfChars? (sign ++ s) = wordOfDigits? s := by
  rw [wordOfDigits?]
  unfold wordOfChars?
  rcases h with ⟨rfl, hhead⟩ | rfl
  · rw [List.nil_append]
    split
    · exact absurd rfl hhead
    · cases hnumber : numberFrom? 0 s with
      | none => simp only [hnumber, Option.filter_none]
      | some n => simp only [hnumber, Option.filter_some, decide_eq_true_eq]
  · rw [List.singleton_append]
    cases hnumber : numberFrom? 0 s with
    | none => simp only [hnumber, Option.filter_none]
    | some n => simp only [hnumber, Option.filter_some, decide_eq_true_eq]

/-- A text without blanks at its ends is read as a word if it is a sign and digits. -/
theorem wordOfChars?_eq_some_iff : wordOfChars? t = some n
    ↔ ∃ sign digits, t = sign ++ digits ∧ (sign = [] ∨ sign = ['+'])
      ∧ digits ≠ [] ∧ (∀ c ∈ digits, c.isDigit = true) ∧ n = digitsValue digits ∧ n < 2 ^ 64 := by
  constructor
  · intro h
    by_cases hplus : t.head? = some '+'
    · obtain ⟨rest, rfl⟩ := List.head?_eq_some_iff.mp hplus
      have hword : wordOfChars? (['+'] ++ rest) = _ := wordOfChars?_append (Or.inr rfl)
      exact ⟨['+'], rest, rfl, Or.inr rfl, wordOfDigits?_eq_some_iff.mp (hword.symm.trans h)⟩
    · have hword : wordOfChars? ([] ++ t) = _ := wordOfChars?_append (Or.inl ⟨rfl, hplus⟩)
      exact ⟨[], t, rfl, Or.inl rfl, wordOfDigits?_eq_some_iff.mp (hword.symm.trans h)⟩
  · rintro ⟨sign, digits, rfl, hsign, hne, decimal, hvalue⟩
    -- a plus sign is no digit, so digits do not begin with one
    have hhead : digits.head? ≠ some '+' := by
      intro hplus
      exact absurd (decimal '+' (List.mem_of_mem_head? hplus)) (by decide)
    rw [wordOfChars?_append (hsign.imp_left (fun h => ⟨h, hhead⟩))]
    exact wordOfDigits?_eq_some_iff.mpr ⟨hne, decimal, hvalue⟩

/-- **THE READER TAKES** the texts that denote a number below `2 ^ 64`, and no others. -/
theorem wordOfText?_eq_some_iff {text : String} :
    wordOfText? text = some n ↔ Denotes text.toList n ∧ n < 2 ^ 64 := by
  rw [wordOfText?, trim, String.toList_ofList, wordOfChars?_eq_some_iff]
  constructor
  · rintro ⟨sign, digits, htrim, plus, hne, decimal, rfl, hlt⟩
    obtain ⟨before, after, blank, blank', htext⟩ := exists_trimChars text.toList
    rw [htrim] at htext
    exact ⟨htext ▸ .mk blank blank' plus hne decimal, hlt⟩
  · rintro ⟨hdenotes, hlt⟩
    generalize htext : text.toList = cs at hdenotes
    cases hdenotes with
    | @mk before sign digits after blank blank' plus hne decimal =>
        have hhead : ∀ c, (sign ++ digits).head? = some c → isBlank c = false := by
          intro c hc
          rcases plus with rfl | rfl
          · exact isBlank_of_isDigit (decimal c (List.mem_of_mem_head? hc))
          · cases hc
            decide
        have hlast : ∀ c, (sign ++ digits).getLast? = some c → isBlank c = false := by
          intro c hc
          rw [List.getLast?_append_of_ne_nil _ hne] at hc
          exact isBlank_of_isDigit (decimal c (List.mem_of_getLast? hc))
        have hsome : sign ++ digits ≠ [] := fun h => hne (List.append_eq_nil_iff.mp h).2
        exact ⟨sign, digits, trimChars_append blank blank' hsome hhead hlast, plus, hne, decimal,
          rfl, hlt⟩

end Text

/-! ## Variables -/

namespace Environment

variable {env env' : Environment} {name : String} {n : Nat}

/-- A variable SAYS a number below `2 ^ 64`: its bytes are a text that denotes the number. -/
def Says (env : Environment) (name : String) (n : Nat) : Prop :=
  ∃ text, Fields.find? name env = some (Utf8.encode text) ∧ Text.Denotes text.toList n ∧ n < 2 ^ 64

/-- A variable says what the reader makes of its text. -/
theorem says_iff : env.Says name n ↔ (env.text? name).bind wordOfText? = some n := by
  simp only [Says, text?, Option.bind_eq_some_iff, Utf8.decode?_eq_some_iff,
    Text.wordOfText?_eq_some_iff]
  constructor
  · rintro ⟨text, hfind, hdenotes⟩
    exact ⟨text, ⟨_, hfind, rfl⟩, hdenotes⟩
  · rintro ⟨text, ⟨bytes, hfind, rfl⟩, hdenotes⟩
    exact ⟨text, hfind, hdenotes⟩

/-- Nothing but its bytes matters for the text of a variable. -/
theorem text?_congr (h : Fields.find? name env = Fields.find? name env') :
    env.text? name = env'.text? name := by
  rw [text?, text?, h]

end Environment

namespace Settings

variable {env env' : Environment} {name : String} {n default : Nat} {dataDir : Path}

/-- The number that is said counts. -/
theorem word_eq_said (h : env.Says name n) : word env name default = n := by
  rw [word, Environment.says_iff.mp h, Option.getD_some]

/-- Where no number is said, the default counts. -/
theorem word_of_silent (h : ∀ n, ¬ env.Says name n) : word env name default = default := by
  rw [word, Option.eq_none_iff_forall_ne_some.mpr (fun n hn => h n (Environment.says_iff.mpr hn)),
    Option.getD_none]

/-- Nothing but its bytes matters for the word of a variable. -/
theorem word_congr (h : Fields.find? name env = Fields.find? name env') :
    word env name default = word env' name default := by
  rw [word, word, Environment.text?_congr h]

/-- Bytes are counted without wrapping around. -/
theorem mebibytes_eq (n : Nat) : mebibytes n = min (n * 2 ^ 20) (2 ^ 64 - 1) := rfl

/-- More mebibytes are no fewer bytes. -/
theorem mebibytes_mono {m : Nat} (h : m ≤ n) : mebibytes m ≤ mebibytes n := by
  rw [mebibytes_eq, mebibytes_eq]
  exact min_le_min_right _ (Nat.mul_le_mul_right _ h)

/-- A setting FOLLOWS a variable: the amount of the number that the variable says becomes its
    value, and without a number the amount of the default. -/
structure Follows (setting : Settings → Nat) (name : String) (amount : Nat → Nat) (default : Nat) :
    Prop where
  said : ∀ {dataDir env n}, env.Says name n → setting (ofEnvironment dataDir env) = amount n
  silent : ∀ {dataDir env}, (∀ n, ¬ env.Says name n) →
    setting (ofEnvironment dataDir env) = amount default
  /-- Whatever is said, the value is a number of sixty-four bits. -/
  bounded : ∀ dataDir env, setting (ofEnvironment dataDir env) < 2 ^ 64
  monotone : ∀ {dataDir env env' n n'}, env.Says name n → env'.Says name n' → n ≤ n' →
    setting (ofEnvironment dataDir env) ≤ setting (ofEnvironment dataDir env')
  /-- No other variable matters, nor does the data directory. -/
  own : ∀ {dataDir dataDir' env env'}, Fields.find? name env = Fields.find? name env' →
    setting (ofEnvironment dataDir env) = setting (ofEnvironment dataDir' env')

/-- A setting that is made of the word in a variable follows the variable. -/
theorem follows_of_word {setting : Settings → Nat} {amount : Nat → Nat}
    (hvalue : ∀ dataDir env, setting (ofEnvironment dataDir env) = amount (word env name default))
    (hmono : ∀ {m m'}, m ≤ m' → amount m ≤ amount m')
    (hbound : ∀ m, m < 2 ^ 64 → amount m < 2 ^ 64) (hdefault : default < 2 ^ 64) :
    Follows setting name amount default where
  said h := by rw [hvalue, word_eq_said h]
  silent h := by rw [hvalue, word_of_silent h]
  bounded dataDir env := by
    rw [hvalue]
    refine hbound _ ?_
    by_cases hsays : ∃ n, env.Says name n
    · obtain ⟨n, hn⟩ := hsays
      rw [word_eq_said hn]
      obtain ⟨text, -, -, hlt⟩ := hn
      exact hlt
    · rw [word_of_silent (not_exists.mp hsays)]
      exact hdefault
  monotone h h' hle := by
    rw [hvalue, hvalue, word_eq_said h, word_eq_said h']
    exact hmono hle
  own h := by rw [hvalue, hvalue, word_congr h]

/-- A setting in mebibytes follows its variable. -/
theorem follows_of_mebibytes {setting : Settings → Nat}
    (hvalue : ∀ dataDir env,
      setting (ofEnvironment dataDir env) = mebibytes (word env name default))
    (hdefault : default < 2 ^ 64) :
    Follows setting name (fun n => min (n * 2 ^ 20) (2 ^ 64 - 1)) default := by
  refine follows_of_word hvalue mebibytes_mono ?_ hdefault
  intro m _
  omega

/-- **LIMITS ARE EXACT AND DO NOT OVERFLOW**, in every environment.

    * The number that a variable says is its value: the largest module and the largest memory
      in mebibytes, which become bytes and stop at `2 ^ 64 - 1`, and the fuel as it is.
    * A variable says a number if its bytes are a text, and the text, blanks aside, is an
      optional plus sign and decimal digits of a number below `2 ^ 64`.  All other bytes and
      an absent variable leave the default.
    * More is never less: the limits grow with the numbers that are said.
    * Every setting depends on its own variable alone.  The data directory is named by its
      variable, if that is a text, and otherwise lies below the platform's, or below the
      current directory where the platform has none. -/
theorem limits_follow_variables :
    Follows maxModuleBytes "CUE_WORKER_MAX_MODULE_MB"
      (fun n => min (n * 2 ^ 20) (2 ^ 64 - 1)) 128 ∧
    Follows memoryLimitBytes "CUE_WORKER_MEMORY_MB"
      (fun n => min (n * 2 ^ 20) (2 ^ 64 - 1)) 1024 ∧
    Follows callFuel "CUE_WORKER_FUEL" id 10000000000 ∧
    (∀ dataDir dataDir' env env', Fields.find? "CUE_WORKER_CACHE_DISABLED" env
        = Fields.find? "CUE_WORKER_CACHE_DISABLED" env' →
      (ofEnvironment dataDir env).cacheDisabled = (ofEnvironment dataDir' env').cacheDisabled) ∧
    (∀ record (env : Environment) text,
      Fields.find? "CUE_WORKER_DATA_DIR" env = some (Utf8.encode text) →
      (ofEnvironment (dataDirOf record env) env).dataDir = Path.ofText text) ∧
    ∀ record (env : Environment),
      (∀ text, Fields.find? "CUE_WORKER_DATA_DIR" env ≠ some (Utf8.encode text)) →
      (ofEnvironment (dataDirOf record env) env).dataDir
        = Path.join ((platformDataDir? record env).getD (Path.ofText "."))
          (Path.ofText directoryName) := by
  have htext : ∀ (env : Environment) text, env.text? "CUE_WORKER_DATA_DIR" = some text
      ↔ Fields.find? "CUE_WORKER_DATA_DIR" env = some (Utf8.encode text) := by
    intro env text
    simp only [Environment.text?, Option.bind_eq_some_iff, Utf8.decode?_eq_some_iff]
    exact exists_eq_right
  refine ⟨follows_of_mebibytes (fun _ _ => rfl) (by decide),
    follows_of_mebibytes (fun _ _ => rfl) (by decide),
    follows_of_word (fun _ _ => rfl) (fun hle => hle) (fun _ hm => hm) (by decide), ?_, ?_, ?_⟩
  · intro dataDir dataDir' env env' h
    simp only [ofEnvironment]
    rw [Environment.text?_congr h]
  · intro record env text h
    simp only [ofEnvironment, dataDirOf, (htext env text).mpr h]
  · intro record env h
    have hnone : env.text? "CUE_WORKER_DATA_DIR" = none :=
      Option.eq_none_iff_forall_ne_some.mpr (fun text hsome => h text ((htext env text).mp hsome))
    simp only [ofEnvironment, dataDirOf, hnone]

/-- Twenty digits may be one too many: `2 ^ 44` mebibytes are beyond the largest word, and
    `2 ^ 64` is no word. -/
example : [" +17592186044415\t", "17592186044416", "18446744073709551615",
      "18446744073709551616", "-1", "1.5", "+", ""].map (fun s => (wordOfText? s).map mebibytes)
    = [some 18446744073708503040, some 18446744073709551615, some 18446744073709551615,
      none, none, none, none, none] := by
  decide +kernel

end Settings
end PhaseHost

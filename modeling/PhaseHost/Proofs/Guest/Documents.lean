import PhaseHost.Proofs.Guest.Bounds
import PhaseHost.Proofs.Json.Printed

/-! # What passes between a host and its guests

    A host writes the arguments of a call as a document and reads a document in return.

    * The text of the arguments is read back as the very arguments, whatever characters
      they are made of.
    * The document that is returned SAYS one thing at most: it refuses, if it is an object
      with an error; it grants a value, if it is an object with a value and no error; and
      all other bytes say nothing.

    A call ends as its document says.  This is shown once for any function of a guest and
    any reading of values, and each action is a case of it. -/

namespace PhaseHost

variable {γ α : Type}

/-! ## Arguments -/

namespace Json

variable {depth : Nat}

theorem exact_texts (xs : List String) : Exact (depth + 1) (.arr (xs.map Json.str)) := by
  intro v hv
  obtain ⟨s, -, rfl⟩ := List.mem_map.mp hv
  exact exact_str s

end Json

theorem Overlay.exact_toJson {depth : Nat} (o : Overlay) : Json.Exact (depth + 1) o.toJson := by
  refine ⟨?_, ?_⟩
  · exact List.pairwise_map.mpr o.ascending
  · intro p hp
    obtain ⟨file, -, rfl⟩ := List.mem_map.mp hp
    exact Json.exact_str file.2

namespace Guest

variable {G : Guest γ} {name : String} {arguments : Json} {s ready : GuestState γ}
  {run : UInt32 → UInt32 → Running γ UInt64} {address : UInt32} {raw : Bytes}

/-- A function that starts finds the text of its arguments where it is told that they are. -/
theorem Enters.received (h : G.Enters name arguments s run address ready) :
    ready.memory.bytesAt address.toNat
      (UInt32.ofNat (argumentText arguments).length).toNat = argumentText arguments := by
  obtain ⟨s₁, memory, -, hwrite, rfl⟩ := h.written
  rw [toNat_ofNat_length h.short]
  exact (Memory.wrote_of_write hwrite).held

/-- A function that is called RETURNS bytes: it starts, it ends, and its result names the place
    of the bytes inside the memory. -/
inductive Returns (G : Guest γ) (name : String) (arguments : Json) (s : GuestState γ) :
    Bytes → GuestState γ → Prop
  | mk {run address ready packed s'} (enters : G.Enters name arguments s run address ready)
    (ends : run address (.ofNat (argumentText arguments).length) ready = (some packed, s'))
    (inside : addressOf packed + lengthOf packed ≤ s'.memory.size) :
    Returns G name arguments s (s'.memory.bytesAt (addressOf packed) (lengthOf packed)) s'

/-- The bytes that a function returns decide how its call ends. -/
theorem Returns.call {s' : GuestState γ} (h : G.Returns name arguments s raw s') :
    G.call name arguments s = (documentResult name raw, s') := by
  cases h with
  | mk enters ends inside => exact enters.call_of_inside ends inside

/-- A guest whose functions all return the same bytes. -/
def saying (key : CacheKey) (raw : Bytes) : Guest γ where
  key := key
  alloc _ s := (some 0, s)
  function? _ := some (fun _ _ s =>
    match s.memory.write 0 raw with
    | some memory => (some (.ofNat raw.length), { s with memory := memory })
    | none => (none, s))

/-- Any bytes may be returned, as long as they and the arguments fit into the memory. -/
theorem returns_saying (key : CacheKey) (short : (argumentText arguments).length ≤ argumentsMax)
    (room : (argumentText arguments).length ≤ s.memory.size) (fits : raw.length ≤ s.memory.size)
    (few : raw.length < 2 ^ 32) : ∃ s', (saying key raw).Returns name arguments s raw s' := by
  obtain ⟨memory, hwrote, henters⟩ : ∃ memory,
      s.memory.Wrote (0 : UInt32).toNat (argumentText arguments) memory
      ∧ (saying key raw).Enters name arguments s _ 0 { s with memory := memory } :=
    enters_of_inside rfl short rfl (by simpa using room)
  have hinside : 0 + raw.length ≤ memory.size := by
    rw [hwrote.size]
    simpa using fits
  obtain ⟨memory', hwrite, hwrote'⟩ := Memory.write_of_inside hinside
  have hpacked : (UInt64.ofNat raw.length).toNat = raw.length :=
    UInt64.toNat_ofNat_of_lt' (by rw [UInt64.size]; omega)
  have haddress : addressOf (.ofNat raw.length) = 0 := by
    rw [addressOf, hpacked]
    exact Nat.div_eq_of_lt few
  have hlength : lengthOf (.ofNat raw.length) = raw.length := by
    rw [lengthOf, hpacked]
    exact Nat.mod_eq_of_lt few
  have hreach : addressOf (.ofNat raw.length) + lengthOf (.ofNat raw.length) ≤ memory'.size := by
    rw [haddress, hlength, hwrote'.size]
    exact hinside
  have hruns : (match memory.write 0 raw with
      | some memory => (some (UInt64.ofNat raw.length), { s with memory := memory })
      | none => (none, { s with memory := memory }))
      = (some (UInt64.ofNat raw.length), { s with memory := memory' }) := by
    rw [hwrite]
  have hends := Returns.mk henters hruns hreach
  rw [haddress, hlength] at hends
  exact ⟨_, hwrote'.held ▸ hends⟩

/-! ## Results -/

/-- What a document says: an error, or a value. -/
inductive Says (raw : Bytes) : Except Json Json → Prop
  | refused {fields : Fields Json} {err : Json} (document : Json.Document raw (.obj fields))
    (error : Fields.find? "err" fields = some err) : Says raw (.error err)
  | granted {fields : Fields Json} {v : Json} (document : Json.Document raw (.obj fields))
    (noError : Fields.find? "err" fields = none) (value : Fields.find? "ok" fields = some v) :
    Says raw (.ok v)

/-- An error is told in its plain words. -/
theorem documentResult_of_refused {err : Json} (h : Says raw (.error err)) :
    documentResult name raw = .error err.plain := by
  cases h with
  | refused document error =>
      simp only [documentResult, Json.parse_eq_ok_iff.mpr document, error]

/-- What is granted is the document, as it stands. -/
theorem documentResult_of_granted {v : Json} (h : Says raw (.ok v)) :
    documentResult name raw = .ok v := by
  cases h with
  | granted document noError value =>
      simp only [documentResult, Json.parse_eq_ok_iff.mpr document, noError, value]

/-- Bytes that say nothing are an error of the call. -/
theorem documentResult_of_silent (name : String) (h : ∀ said, ¬ Says raw said) :
    ∃ text, documentResult name raw = .error text := by
  cases hparse : Json.parse raw with
  | error fault => exact ⟨_, by simp only [documentResult, hparse]; rfl⟩
  | ok v =>
      cases v with
      | obj fields =>
          have hdocument := Json.parse_eq_ok_iff.mp hparse
          cases herr : Fields.find? "err" fields with
          | some err => exact absurd (.refused hdocument herr) (h _)
          | none =>
              cases hok : Fields.find? "ok" fields with
              | some v => exact absurd (.granted hdocument herr hok) (h _)
              | none => exact ⟨_, by simp only [documentResult, hparse, herr, hok]; rfl⟩
      | null => exact ⟨_, by simp only [documentResult, hparse]; rfl⟩
      | bool b => exact ⟨_, by simp only [documentResult, hparse]; rfl⟩
      | int i => exact ⟨_, by simp only [documentResult, hparse]; rfl⟩
      | float bits => exact ⟨_, by simp only [documentResult, hparse]; rfl⟩
      | str t => exact ⟨_, by simp only [documentResult, hparse]; rfl⟩
      | arr items => exact ⟨_, by simp only [documentResult, hparse]; rfl⟩

/-- A document grants what is made of it, and nothing else. -/
theorem documentResult_eq_ok_iff {v : Json} :
    documentResult name raw = .ok v ↔ Says raw (.ok v) := by
  constructor
  · intro h
    by_cases hsays : ∃ said, Says raw said
    · obtain ⟨said, hsaid⟩ := hsays
      cases said with
      | error err =>
          rw [documentResult_of_refused hsaid] at h
          cases h
      | ok v' =>
          rw [documentResult_of_granted hsaid] at h
          cases h
          exact hsaid
    · obtain ⟨text, htext⟩ := documentResult_of_silent name (not_exists.mp hsays)
      rw [htext] at h
      cases h
  · exact documentResult_of_granted

/-- Bytes do not say two things. -/
theorem Says.unique {said said' : Except Json Json} (h : Says raw said) (h' : Says raw said') :
    said = said' := by
  have hfields : ∀ {fields fields' : Fields Json}, Json.Document raw (.obj fields) →
      Json.Document raw (.obj fields') → fields = fields' := by
    intro fields fields' hd hd'
    have hparse := Json.parse_eq_ok_iff.mpr hd
    rw [Json.parse_eq_ok_iff.mpr hd'] at hparse
    exact (Json.obj.inj (Except.ok.inj hparse)).symm
  cases h with
  | refused document error =>
      cases h' with
      | refused document' error' =>
          obtain rfl := hfields document document'
          exact congrArg Except.error (Option.some.inj (error.symm.trans error'))
      | granted document' noError' value' =>
          obtain rfl := hfields document document'
          cases error.symm.trans noError'
  | granted document noError value =>
      cases h' with
      | refused document' error' =>
          obtain rfl := hfields document document'
          cases noError.symm.trans error'
      | granted document' noError' value' =>
          obtain rfl := hfields document document'
          exact congrArg Except.ok (Option.some.inj (value.symm.trans value'))

/-- What says anything is text. -/
theorem Says.encoded {said : Except Json Json} (h : Says raw said) :
    ∃ text, raw = Utf8.encode text := by
  cases h with
  | refused document error => exact document.encoded
  | granted document noError value => exact document.encoded

end Guest

/-! ## Calls -/

namespace Instance

/-- What comes of a value that a document grants, given how values are read. -/
def outcomeOf (read : Json → Except String α) (v : Json) : CallOutcome α :=
  match read v with
  | .ok x => .answered x
  | .error text => .failed text

/-- What comes of the result of a function. -/
def ending (read : Json → Except String α) : Except String Json → CallOutcome α
  | .ok v => outcomeOf read v
  | .error text => .failed text

/-- An answer comes of a document that its reader takes, and of nothing else. -/
theorem ending_eq_answered_iff {read : Json → Except String α} {result : Except String Json}
    {x : α} :
    ending read result = .answered x ↔ ∃ v, result = .ok v ∧ outcomeOf read v = .answered x := by
  cases result with
  | error text => exact ⟨nofun, nofun⟩
  | ok v =>
      constructor
      · intro h
        exact ⟨v, rfl, h⟩
      · rintro ⟨v', hv', h⟩
        obtain rfl := Except.ok.inj hv'
        exact h

/-- A call passes its arguments to a function of the guest, and it ends as the document says that
    the function returns. -/
structure Passes (call : Calling (Instance γ) α) (name : String) (arguments : Json)
    (read : Json → CallOutcome α) : Prop where
  /-- The function starts with a text that is read back as the arguments. -/
  received : ∀ {i : Instance γ} {run address} {ready : GuestState γ},
    i.guest.Enters name arguments i.state run address ready →
    let text := ready.memory.bytesAt address.toNat
      (UInt32.ofNat (Guest.argumentText arguments).length).toNat
    Json.Document text arguments ∧ Json.parse text = .ok arguments
  /-- The bytes that it returns decide. -/
  returned : ∀ {i : Instance γ} {raw : Bytes} {s : GuestState γ},
    i.guest.Returns name arguments i.state raw s →
    (call i).2 = { i with state := s }
    ∧ (∀ err, Guest.Says raw (.error err) → (call i).1 = .failed err.plain)
    ∧ (∀ v, Guest.Says raw (.ok v) → (call i).1 = read v)
    ∧ ((∀ said, ¬ Guest.Says raw said) → ∃ text, (call i).1 = .failed text)
    ∧ (∀ x, (call i).1 = .answered x ↔ ∃ v, Guest.Says raw (.ok v) ∧ read v = .answered x)

variable {name : String} {arguments : Json} {read : Json → Except String α} {i : Instance γ}

/-- What a guest brings is read, and its state is kept. -/
theorem calling_of_call {result : Except String Json} {s : GuestState γ}
    (h : i.guest.call name arguments i.state = (result, s)) :
    calling name arguments read i = (ending read result, { i with state := s }) := by
  simp only [calling, h]
  cases result with
  | error text => rfl
  | ok v => rfl

/-- **CALLS END AS DOCUMENTS SAY**, for any function and any reading of values, if the arguments
    are written exactly. -/
theorem passes_calling (exact : Json.Exact Json.maxDepth arguments) :
    Passes (γ := γ) (calling name arguments read) name arguments (outcomeOf read) where
  received := by
    intro i run address ready henters
    have hdocument : Json.Document (Guest.argumentText arguments) arguments :=
      Json.document_render exact
    rw [henters.received]
    exact ⟨hdocument, Json.parse_eq_ok_iff.mpr hdocument⟩
  returned := by
    intro i raw s hreturns
    have hcall : calling name arguments read i = _ := calling_of_call hreturns.call
    rw [hcall]
    refine ⟨rfl, ?_, ?_, ?_, ?_⟩
    · intro err hrefused
      rw [Guest.documentResult_of_refused hrefused, ending]
    · intro v hgranted
      rw [Guest.documentResult_of_granted hgranted, ending]
    · intro hsilent
      obtain ⟨text, htext⟩ := Guest.documentResult_of_silent name hsilent
      exact ⟨text, by rw [htext, ending]⟩
    · intro x
      rw [ending_eq_answered_iff]
      exact exists_congr (fun v => and_congr_left' Guest.documentResult_eq_ok_iff)

/-- A value as an answer in text: a string as it is, any other value as its text. -/
def answeredText (v : Json) : CallOutcome String :=
  match v with
  | .str s => .answered s
  | v => .answered v.render

/-- A value as an answer in truth: nothing but a truth value will do. -/
def answeredTruth (v : Json) : CallOutcome Bool :=
  match v with
  | .bool b => .answered b
  | v => .failed ("cue_validate returned " ++ v.render)

theorem outcomeOf_textOf : outcomeOf textOf = answeredText := by
  funext v
  cases v with
  | str s => rfl
  | null => rfl
  | bool b => rfl
  | int i => rfl
  | float bits => rfl
  | arr items => rfl
  | obj fields => rfl

theorem outcomeOf_truthOf : outcomeOf truthOf = answeredTruth := by
  funext v
  cases v with
  | str s => rfl
  | null => rfl
  | bool b => rfl
  | int i => rfl
  | float bits => rfl
  | arr items => rfl
  | obj fields => rfl

/-- Arguments are written exactly. -/
theorem exact_codeArguments (p : CodePayload) : Json.Exact Json.maxDepth (codeArguments p) :=
  List.forall_mem_singleton.mpr (Json.exact_str p.code)

/-- **EVERY ACTION PASSES DOCUMENTS**, for every runtime of guests.

    * The bytes that a function of the guest receives are a document, and they are read back
      as the very arguments: the overlay, the entry points and the tags; the schema and the
      data; the code; the code and the name of the format.
    * Whatever bytes it returns, the call fails with the error of the document if they are an
      object that has one, a string as it is and any other value as its text; it succeeds with
      the value of the document exactly if they are an object with a value and no error; and
      all other bytes are an error.
    * A value is answered as a text, a string as it is and any other value as its text; only a
      check of data answers with a truth value, and takes nothing else.

    A document is UTF-8 in which arrays and objects nest no deeper than `Json.maxDepth`; of a
    repeated key the last value counts.  Bytes say one thing at most. -/
theorem actions_pass_documents (instantiate : Variant → Bytes → Except LoadError (Instance γ)) :
    let R := runtime instantiate
    let texts := fun xs : List String => Json.arr (xs.map Json.str)
    (∀ p, Passes (R.unify p) "cue_unify"
        (.arr [.obj (p.overlay.files.map (fun file => (file.1, .str file.2))),
          texts p.entryPoints, texts p.tags]) answeredText)
    ∧ (∀ p, Passes (R.validate p) "cue_validate" (.arr [.str p.schema, .str p.data])
        answeredTruth)
    ∧ (∀ p, Passes (R.format p) "cue_format" (.arr [.str p.code]) answeredText)
    ∧ (∀ p, Passes (R.parse p) "cue_parse" (.arr [.str p.code]) answeredText)
    ∧ (∀ p, Passes (R.getSymbols p) "cue_get_symbols" (.arr [.str p.code]) answeredText)
    ∧ (∀ p, Passes (R.exportAs p) "cue_export" (.arr [.str p.code, .str p.format.name])
        answeredText)
    ∧ (∀ raw said, Guest.Says raw said →
        (∀ said', Guest.Says raw said' → said' = said) ∧ ∃ text, raw = Utf8.encode text) := by
  intro R texts
  have hcode : ∀ (name : String) (p : CodePayload),
      Passes (γ := γ) (calling name (codeArguments p) textOf) name (.arr [.str p.code])
        answeredText := by
    intro name p
    rw [← outcomeOf_textOf]
    exact passes_calling (exact_codeArguments p)
  refine ⟨?_, ?_, hcode "cue_format", hcode "cue_parse", hcode "cue_get_symbols", ?_, ?_⟩
  · intro p
    rw [← outcomeOf_textOf]
    refine passes_calling ?_
    intro v hv
    simp only [List.mem_cons, List.not_mem_nil, or_false] at hv
    rcases hv with rfl | rfl | rfl
    · exact p.overlay.exact_toJson
    · exact Json.exact_texts p.entryPoints
    · exact Json.exact_texts p.tags
  · intro p
    rw [← outcomeOf_truthOf]
    exact passes_calling (List.forall_mem_cons.mpr ⟨Json.exact_str p.schema,
      List.forall_mem_singleton.mpr (Json.exact_str p.data)⟩)
  · intro p
    rw [← outcomeOf_textOf]
    exact passes_calling (List.forall_mem_cons.mpr ⟨Json.exact_str p.code,
      List.forall_mem_singleton.mpr (Json.exact_str p.format.name)⟩)
  · intro raw said hsays
    exact ⟨fun said' hsays' => hsays'.unique hsays, hsays.encoded⟩

/-- An error counts, whatever comes before it. -/
example : ((runtime (fun _ _ => .error (.compile ⟨"k"⟩ "no code"))).format ⟨"a"⟩
    ⟨Guest.saying ⟨"k"⟩ (Utf8.encode "\x7b\"ok\":\"a\",\"err\":[7]\x7d"),
      ⟨.zeros 100, (), []⟩⟩).1 = .failed "[7]" := by
  rfl

end Instance
end PhaseHost

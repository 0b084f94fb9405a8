import PhaseHost.Host.Basic
import PhaseHost.Proofs.Wire.ReadBack

/-! # Results of typed calls

    A capability answers with a text or a truth value.  The host makes a JSON value of
    that, writes it into a reply, and the client reads the reply and then the value.
    `Runtime.typed` says what must come out at the far end, without any of it: the
    very answer, or the failure of the call as an error of the caller.

    Only symbols take another way.  The capability gives them as a JSON text, which may
    hold anything. -/

namespace PhaseHost

variable {κ : Type}

/-- What the end of a call comes to for its caller. -/
def CallOutcome.typed {α : Type} (answer : α → Except CallError Answer) :
    CallOutcome α → Except CallError Answer
  | .answered value => answer value
  | .failed text => .error (.remote (some FailureCode.engineError.text) text)
  | .brokeDown message =>
    .error (.remote (some FailureCode.runtimeFault.text) (faultText message))

/-- The symbols of a JSON text. -/
def symbolsOf (raw : String) : Except CallError Answer :=
  match Json.parseText raw with
  | .error fault =>
    .error (.remote (some FailureCode.engineError.text)
      ("getSymbols returned invalid JSON: " ++ fault.message (Utf8.encode raw)))
  | .ok v =>
    match Symbol.listOfJson v with
    | .ok list => .ok (.symbols list)
    | .error e => .error (.decode e.message)

/-- What a call of a capability comes to for its caller. -/
def Runtime.typed (R : Runtime κ) (c : κ) : Action → Except CallError Answer
  | .unify p => (R.unify p c).1.typed (fun s => .ok (.text s))
  | .validate p => (R.validate p c).1.typed (fun b => .ok (.truth b))
  | .format p => (R.format p c).1.typed (fun s => .ok (.text s))
  | .parse p => (R.parse p c).1.typed (fun s => .ok (.text s))
  | .getSymbols p => (R.getSymbols p c).1.typed symbolsOf
  | .exportAs p => (R.exportAs p c).1.typed (fun s => .ok (.text s))
  | .init _ => .error (.remote (some FailureCode.notReady.text) "init: no capability installed")

/-- What a request for a version comes to for its caller. -/
def typedRequest : Except LoadError Readiness → Except CallError Answer
  | .ok readiness => .ok (.init (.ofReadiness readiness))
  | .error e => .error (.remote (some FailureCode.loadFailed.text) e.message)

/-! ## Replies come to what they should -/

theorem ofOutcome_replyOf {α : Type} {action : Action} {result : α → Except Failure Json}
    {answer : α → Except CallError Answer} (id : UInt64) (call : Calling κ α) (c : κ)
    (hanswer : ∀ value,
      Answer.ofOutcome action (Reply.ofResult id (result value)).outcome = answer value) :
    Answer.ofOutcome action (replyOf id result call c).1.outcome = (call c).1.typed answer := by
  show Answer.ofOutcome action (Reply.ofCall id result (call c).1).outcome = _
  cases (call c).1 with
  | answered value => exact hanswer value
  | failed text => rfl
  | brokeDown message => rfl

theorem ofOutcome_symbols (id : UInt64) (p : CodePayload) (raw : String) :
    Answer.ofOutcome (.getSymbols p) (Reply.ofResult id (symbolsOfText raw)).outcome
      = symbolsOf raw := by
  simp only [symbolsOfText, symbolsOf]
  cases Json.parseText raw with
  | error fault => rfl
  | ok v =>
      dsimp only
      show ((Symbol.listOfJson v).map Answer.symbols).mapError _ = _
      cases Symbol.listOfJson v with
      | ok list => rfl
      | error e => rfl

/-- **RESULTS ARE NOT CHANGED ON THE WAY** from a capability to the caller. -/
theorem Runtime.ofOutcome_reply (R : Runtime κ) (id : UInt64) (c : κ) (action : Action) :
    Answer.ofOutcome action (R.reply id c action).1.outcome = R.typed c action := by
  cases action with
  | unify p => exact ofOutcome_replyOf id (R.unify p) c (fun _ => rfl)
  | validate p => exact ofOutcome_replyOf id (R.validate p) c (fun _ => rfl)
  | format p => exact ofOutcome_replyOf id (R.format p) c (fun _ => rfl)
  | parse p => exact ofOutcome_replyOf id (R.parse p) c (fun _ => rfl)
  | getSymbols p => exact ofOutcome_replyOf id (R.getSymbols p) c (ofOutcome_symbols id p)
  | exportAs p => exact ofOutcome_replyOf id (R.exportAs p) c (fun _ => rfl)
  | init p => rfl

theorem ofOutcome_requestReply (id : UInt64) (payload : InitPayload)
    (result : Except LoadError Readiness) :
    Answer.ofOutcome (.init payload) (Host.requestReply id result).outcome
      = typedRequest result := by
  cases result with
  | error e => rfl
  | ok readiness =>
      show ((InitOutcome.ofJson (InitOutcome.ofReadiness readiness).toJson).map
        Answer.init).mapError _ = _
      rw [InitOutcome.ofJson_toJson]
      rfl

/-! ## Which errors there are -/

/-- An error that the host reports about a request that it has accepted. -/
def CallError.Reported (e : CallError) : Prop :=
  ∃ (code : FailureCode) (text : String),
    code ≠ .protocolInvalid ∧ e = .remote (some code.text) text

/-- A capability that was asked for symbols answers with a JSON text that is no list of
    symbols. -/
def Runtime.NoSymbols (R : Runtime κ) (c : κ) (action : Action) (text : String) : Prop :=
  ∃ p raw v e, action = .getSymbols p ∧ (R.getSymbols p c).1 = .answered raw
    ∧ Json.parseText raw = .ok v ∧ Symbol.listOfJson v = .error e ∧ text = e.message

theorem FailureCode.reported (code : FailureCode) (text : String)
    (h : code ≠ .protocolInvalid) : (CallError.remote (some code.text) text).Reported :=
  ⟨code, text, h, rfl⟩

/-- A call ends with an error when it failed or broke down, or by the reading of its answer. -/
theorem CallOutcome.error_of_typed {α : Type} {answer : α → Except CallError Answer}
    {outcome : CallOutcome α} {e : CallError} (h : outcome.typed answer = .error e) :
    e.Reported ∨ ∃ value, outcome = .answered value ∧ answer value = .error e := by
  cases outcome with
  | answered value => exact Or.inr ⟨value, rfl, h⟩
  | failed text =>
      obtain rfl := Except.error.inj h
      exact Or.inl (FailureCode.engineError.reported text nofun)
  | brokeDown message =>
      obtain rfl := Except.error.inj h
      exact Or.inl (FailureCode.runtimeFault.reported _ nofun)

theorem error_of_symbolsOf {raw : String} {e : CallError} (h : symbolsOf raw = .error e) :
    e.Reported ∨ ∃ v fault, Json.parseText raw = .ok v ∧ Symbol.listOfJson v = .error fault
      ∧ e = .decode fault.message := by
  simp only [symbolsOf] at h
  cases hparse : Json.parseText raw with
  | error fault =>
      rw [hparse] at h
      obtain rfl := Except.error.inj h
      exact Or.inl (FailureCode.engineError.reported _ nofun)
  | ok v =>
      rw [hparse] at h
      dsimp only at h
      cases hlist : Symbol.listOfJson v with
      | ok list =>
          rw [hlist] at h
          exact nomatch h
      | error fault =>
          rw [hlist] at h
          exact Or.inr ⟨v, fault, rfl, hlist, (Except.error.inj h).symm⟩

/-- **ONLY SYMBOLS** may be answered with what cannot be read. -/
theorem Runtime.error_of_typed (R : Runtime κ) (c : κ) {action : Action} {e : CallError}
    (h : R.typed c action = .error e) :
    e.Reported ∨ ∃ text, e = .decode text ∧ R.NoSymbols c action text := by
  have hread : ∀ {α : Type} {outcome : CallOutcome α} {value : α → Answer},
      outcome.typed (fun a => .ok (value a)) = .error e → e.Reported := by
    intro α outcome value htyped
    rcases CallOutcome.error_of_typed htyped with hreported | ⟨_, -, hno⟩
    · exact hreported
    · exact nomatch hno
  cases action with
  | unify p => exact Or.inl (hread h)
  | validate p => exact Or.inl (hread h)
  | format p => exact Or.inl (hread h)
  | parse p => exact Or.inl (hread h)
  | exportAs p => exact Or.inl (hread h)
  | init p =>
      obtain rfl := Except.error.inj h
      exact Or.inl (FailureCode.notReady.reported _ nofun)
  | getSymbols p =>
      rcases CallOutcome.error_of_typed h with hreported | ⟨raw, hraw, herror⟩
      · exact Or.inl hreported
      · refine (error_of_symbolsOf herror).imp_right ?_
        rintro ⟨v, fault, hparse, hlist, rfl⟩
        exact ⟨_, rfl, p, raw, v, fault, rfl, hraw, hparse, hlist, rfl⟩

end PhaseHost

import PhaseHost.Proofs.Client.Exchange
import PhaseHost.Proofs.Workspace.Paths

/-! # What a check of a file's syntax tells

    A check looks a file up under the normal form of its path, asks the host to parse
    what it finds, and makes a report of the reply.  The reply can have any shape: its
    result may be missing or of another kind, it may fail without a text or a code, it
    may be no reply at all.  Whatever it is, it falls into one of three classes.

    * It ACCEPTS the file: a success with a text.
    * It REFUSES the file: a failure, with whatever code but the one for a host that is
      not ready.
    * It FAILS to tell: the host is not ready, or the result is no text.

    A check is a call like others, so what it comes to does not hang on what else its
    client is doing. -/

namespace PhaseHost

/-- What comes of the end of a call that asked for a file to be parsed. -/
def SyntaxReport.ofOutcome (outcome : Outcome) : Except WorkspaceError SyntaxReport :=
  SyntaxReport.ofAnswer (Answer.ofOutcome (.parse ⟨""⟩) outcome)

/-! ## What a reply tells -/

namespace Reply

/-- A success whose result is a text. -/
def Accepts (r : Reply) : Prop :=
  r.success = true ∧ ∃ s, r.result = some (.str s)

/-- A failure that is not for want of readiness. -/
def Refuses (r : Reply) : Prop :=
  r.success = false ∧ r.code ≠ some "Capability.NotReady"

/-- A reply that says nothing about the file, with the error that it is for the call. -/
inductive Fails (r : Reply) : CallError → Prop
  | notReady (failed : r.success = false) (code : r.code = some "Capability.NotReady") :
    Fails r (.remote r.code (r.error.getD ""))
  | noText {fault : DecodeError} (succeeded : r.success = true)
      (result : Json.toText (Json.orNull r.result) = .error fault) : Fails r (.decode fault.message)

/-- What a reply tells about the file. -/
inductive Tells (r : Reply) : Except WorkspaceError SyntaxReport → Prop
  | valid (accepts : r.Accepts) : Tells r (.ok ⟨true, none⟩)
  | invalid (refuses : r.Refuses) : Tells r (.ok ⟨false, some (.ofText (r.error.getD ""))⟩)
  | error {e : CallError} (fails : r.Fails e) : Tells r (.error (.call e))

variable {r : Reply}

/-- A reply that succeeds has its result for an outcome. -/
theorem outcome_of_success (h : r.success = true) : r.outcome = .ok (Json.orNull r.result) := by
  rw [outcome, h, if_pos rfl]

/-- A reply that fails has its code and its text. -/
theorem outcome_of_failure (h : r.success = false) :
    r.outcome = .error (.remote r.code (r.error.getD "")) := by
  rw [outcome, h, if_neg Bool.false_ne_true]

/-- A reply that accepts makes a report without a word. -/
theorem Accepts.report (h : r.Accepts) :
    SyntaxReport.ofOutcome r.outcome = .ok ⟨true, none⟩ := by
  obtain ⟨hs, s, hresult⟩ := h
  rw [outcome_of_success hs, hresult]
  rfl

/-- A reply that refuses makes a report with its words. -/
theorem Refuses.report (h : r.Refuses) :
    SyntaxReport.ofOutcome r.outcome = .ok ⟨false, some (.ofText (r.error.getD ""))⟩ := by
  rw [outcome_of_failure h.1]
  exact if_neg (fun hready => h.2 (of_decide_eq_true hready))

/-- A reply that says nothing about the file makes no report. -/
theorem Fails.report {e : CallError} (h : r.Fails e) :
    SyntaxReport.ofOutcome r.outcome = .error (.call e) := by
  cases h with
  | notReady failed code =>
      rw [outcome_of_failure failed]
      exact if_pos (decide_eq_true code)
  | noText succeeded result =>
      rw [outcome_of_success succeeded]
      show SyntaxReport.ofAnswer (((Json.toText _).map Answer.text).mapError _) = _
      rw [result]
      rfl

/-- Only texts are read as texts. -/
theorem toText_cases (v : Json) :
    (∃ s, v = .str s) ∨ ∃ fault, Json.toText v = .error fault := by
  cases v with
  | str s => exact Or.inl ⟨s, rfl⟩
  | null => exact Or.inr ⟨_, rfl⟩
  | bool b => exact Or.inr ⟨_, rfl⟩
  | int i => exact Or.inr ⟨_, rfl⟩
  | float bits => exact Or.inr ⟨_, rfl⟩
  | arr items => exact Or.inr ⟨_, rfl⟩
  | obj fields => exact Or.inr ⟨_, rfl⟩

/-- **THREE CLASSES**, and no reply outside them. -/
theorem accepts_or_refuses_or_fails (r : Reply) :
    r.Accepts ∨ r.Refuses ∨ ∃ e, r.Fails e := by
  cases hs : r.success with
  | true =>
      rcases toText_cases (Json.orNull r.result) with ⟨s, htext⟩ | ⟨fault, hfault⟩
      · refine Or.inl ⟨hs, s, ?_⟩
        cases hresult : r.result with
        | none =>
            rw [hresult] at htext
            exact nomatch htext
        | some v =>
            rw [hresult] at htext
            exact congrArg some htext
      · exact Or.inr (Or.inr ⟨_, .noText hs hfault⟩)
  | false =>
      by_cases hcode : r.code = some "Capability.NotReady"
      · exact Or.inr (Or.inr ⟨_, .notReady hs hcode⟩)
      · exact Or.inr (Or.inl ⟨hs, hcode⟩)

/-- A reply tells one thing, and that is what is made of it. -/
theorem tells_iff {result : Except WorkspaceError SyntaxReport} :
    r.Tells result ↔ result = SyntaxReport.ofOutcome r.outcome := by
  constructor
  · intro h
    cases h with
    | valid haccepts => exact haccepts.report.symm
    | invalid hrefuses => exact hrefuses.report.symm
    | error hfails => exact hfails.report.symm
  · rintro rfl
    rcases r.accepts_or_refuses_or_fails with haccepts | hrefuses | ⟨e, hfails⟩
    · rw [haccepts.report]
      exact .valid haccepts
    · rw [hrefuses.report]
      exact .invalid hrefuses
    · rw [hfails.report]
      exact .error hfails

end Reply

/-! ## What a check tells -/

namespace Workspace

variable {w : Workspace} {path content : String}

/-- A file that is not stored is not asked about. -/
theorem checkSyntax_of_unstored (h : w.files.find? (normalize path) = none)
    (answer : Json → Option Json) : w.checkSyntax path answer = ([], .error (.notFound path)) := by
  have hfile : w.file? path = none := h
  simp only [checkSyntax, syntaxAction, hfile]

/-- One that is stored is asked about once, and the report is made of the reply. -/
theorem checkSyntax_of_stored (h : w.files.find? (normalize path) = some content)
    (answer : Json → Option Json) : w.checkSyntax path answer
      = ([Message.toFrame ⟨1, .parse ⟨content⟩⟩],
        SyntaxReport.ofOutcome (Client.exchange (.parse ⟨content⟩) answer).2) := by
  have hfile : w.file? path = some content := h
  simp only [checkSyntax, syntaxAction, hfile, Client.start_alone]
  rfl

/-- **A CHECK TELLS WHAT THE REPLY SAYS**, for every workspace, path and reply.

    A file that is not there is reported with its path as it was given, and nothing is sent.
    For a file that is there:

    * exactly one frame is sent, and it asks for the present content to be parsed;
    * the report is that the file is valid exactly if the reply is a success with a text;
    * it is that the file is not, with what its text says, exactly if the reply is a failure
      with any code but the one for a host that is not ready;
    * all else is an error of the call: a host that is not ready, a result that is no text,
      or that there is no reply at all;
    * a report has an error exactly if the file is not valid.

    A client that has other calls besides sends one frame for a check all the same; and
    whatever happens to it, a check that has ended tells what a reply to its own number
    says, or a channel is gone. -/
theorem check_tells_reply (w : Workspace) (path : String) :
    (w.files.find? (normalize path) = none → ∀ answer,
      w.checkSyntax path answer = ([], .error (.notFound path)))
    ∧ ∀ content, w.files.find? (normalize path) = some content →
      (∀ answer : Json → Option Json,
        let request : Message := ⟨1, .parse ⟨content⟩⟩
        let result := (w.checkSyntax path answer).2
        let Replied := Reply.AnsweredBy (answer request.toFrame) 1
        (w.checkSyntax path answer).1 = [request.toFrame]
        ∧ (result = .ok ⟨true, none⟩ ↔ ∃ r, Replied r ∧ r.Accepts)
        ∧ (∀ d, result = .ok ⟨false, some d⟩ ↔
            ∃ r, Replied r ∧ r.Refuses ∧ d = .ofText (r.error.getD ""))
        ∧ (∀ e, result = .error e ↔
            (∃ r fault, Replied r ∧ r.Fails fault ∧ e = .call fault)
            ∨ ((∀ r, ¬ Replied r) ∧ e = .call .disconnected))
        ∧ (∀ report, result = .ok report → (report.valid = true ↔ report.error = none)))
      ∧ (∀ c : Client, c.hostListens = true → c.closed = false →
          ((c.call (.parse ⟨content⟩)).start c.calls.length).sent
            = c.sent ++ [Message.toFrame ⟨c.nextId, .parse ⟨content⟩⟩])
      ∧ ∀ (events : List ClientEvent) (n : Nat) (call : ClientCall) (id : UInt64),
          let c := Client.empty.run events
          c.calls.length < 2 ^ 64 → c.calls[n]? = some call → call.action = .parse ⟨content⟩ →
          call.id = some id →
          ((Client.empty.requests events).map Message.id).count id ≤ 1
          ∧ (∀ m ∈ Client.empty.requests events, m.id = id → m.action = .parse ⟨content⟩)
          ∧ ∀ outcome, call.outcome? = some outcome →
              (∃ r ∈ Client.empty.answers events, r.id = id
                ∧ r.Tells (SyntaxReport.ofAnswer (Answer.ofOutcome call.action outcome)))
              ∨ (SyntaxReport.ofAnswer (Answer.ofOutcome call.action outcome)
                  = .error (.call .disconnected)
                ∧ (c.repliesOpen = false ∨ c.hostListens = false)) := by
  refine ⟨fun hnone answer => checkSyntax_of_unstored hnone answer, ?_⟩
  intro content hstored
  refine ⟨?_, fun c listens unshut => c.sent_start _ listens unshut, ?_⟩
  · intro answer request result Replied
    have hcheck := checkSyntax_of_stored hstored answer
    have hsent : (w.checkSyntax path answer).1 = [request.toFrame] := by rw [hcheck]
    have htells : (∃ r, Replied r ∧ r.Tells result)
        ∨ ((∀ r, ¬ Replied r) ∧ result = .error (.call .disconnected)) := by
      by_cases hreplied : ∃ r, Replied r
      · obtain ⟨r, hr⟩ := hreplied
        refine Or.inl ⟨r, hr, Reply.tells_iff.mpr ?_⟩
        show (w.checkSyntax path answer).2 = _
        rw [hcheck, Client.exchange_of_answered hr]
      · have hno := not_exists.mp hreplied
        refine Or.inr ⟨hno, ?_⟩
        show (w.checkSyntax path answer).2 = _
        rw [hcheck, Client.exchange_of_unanswered hno]
        rfl
    -- what any reply tells is the result, since there is one reply at most
    have hone : ∀ {r told}, Replied r → r.Tells told → result = told := by
      intro r told hr htold
      rcases htells with ⟨r', hr', htold'⟩ | ⟨hno, -⟩
      · obtain rfl := hr.unique hr'
        rw [Reply.tells_iff.mp htold, Reply.tells_iff.mp htold']
      · exact absurd hr (hno r)
    refine ⟨hsent, ⟨?_, ?_⟩, ?_, ?_, ?_⟩
    · intro hresult
      rcases htells with ⟨r, hr, htold⟩ | ⟨-, hlost⟩
      · rw [hresult] at htold
        cases htold with
        | valid haccepts => exact ⟨r, hr, haccepts⟩
      · rw [hresult] at hlost
        cases hlost
    · rintro ⟨r, hr, haccepts⟩
      exact hone hr (.valid haccepts)
    · intro d
      constructor
      · intro hresult
        rcases htells with ⟨r, hr, htold⟩ | ⟨-, hlost⟩
        · rw [hresult] at htold
          cases htold with
          | invalid hrefuses => exact ⟨r, hr, hrefuses, rfl⟩
        · rw [hresult] at hlost
          cases hlost
      · rintro ⟨r, hr, hrefuses, rfl⟩
        exact hone hr (.invalid hrefuses)
    · intro e
      constructor
      · intro hresult
        rcases htells with ⟨r, hr, htold⟩ | ⟨hno, hlost⟩
        · rw [hresult] at htold
          cases htold with
          | error hfails => exact Or.inl ⟨r, _, hr, hfails, rfl⟩
        · rw [hresult] at hlost
          exact Or.inr ⟨hno, Except.error.inj hlost⟩
      · rintro (⟨r, fault, hr, hfails, rfl⟩ | ⟨hno, rfl⟩)
        · exact hone hr (.error hfails)
        · rcases htells with ⟨r, hr, -⟩ | ⟨-, hlost⟩
          · exact absurd hr (hno r)
          · exact hlost
    · intro report hresult
      rcases htells with ⟨r, -, htold⟩ | ⟨-, hlost⟩
      · rw [hresult] at htold
        cases htold with
        | valid haccepts => exact ⟨fun _ => rfl, fun _ => rfl⟩
        | invalid hrefuses => exact ⟨nofun, nofun⟩
      · rw [hresult] at hlost
        cases hlost
  · intro events n call id c few here haction hid
    obtain ⟨honce, hasked⟩ := Client.requests_of_call few here hid
    refine ⟨honce, fun m hm hmid => (hasked m hm hmid).trans haction, ?_⟩
    intro outcome hout
    have hreport : SyntaxReport.ofAnswer (Answer.ofOutcome call.action outcome)
        = SyntaxReport.ofOutcome outcome := by
      rw [haction]
      rfl
    have htold : call.stage.told? = some outcome := by
      rw [ClientCall.outcome?_eq_some_iff.mp hout]
      rfl
    rw [hreport]
    rcases Client.owed_run few n call outcome here htold with
      ⟨r, hr, hown, rfl⟩ | ⟨rfl, hgone⟩
    · refine Or.inl ⟨r, hr, Option.some.inj (hown.symm.trans hid), Reply.tells_iff.mpr rfl⟩
    · exact Or.inr ⟨rfl, hgone⟩

end Workspace
end PhaseHost

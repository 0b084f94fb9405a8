import PhaseHost.Proofs.Client.Exchange
import PhaseHost.Proofs.Guest.Documents
import PhaseHost.Proofs.Session.Correlation

/-! # A list of symbols from a guest to its caller

    A guest has two ways to answer with a list of symbols: its document grants the list as
    an array, or as a text of the array.  The two meet at what the host reads:

    * an array is written as a text, and what is written for a list of symbols spells it;
    * a text is handed on as it is, in whatever spelling the guest has chosen;
    * the host reads the text, and of all texts that spell the list it makes the same
      reply, with the array as its result;
    * the client reads the array as the list that it was made of.

    `Instance.Lists` is what the two ways have in common.  Behind it nothing tells them
    apart, neither in one call nor in a session of many. -/

namespace PhaseHost

variable {σ γ κ : Type}

/-! ## Spellings -/

namespace Symbol

variable {depth : Nat} {symbols : List Symbol} {text : String}

/-- A text that SPELLS a list of symbols: it is a document of the array. -/
def SpelledBy (symbols : List Symbol) (text : String) : Prop :=
  Json.Document (Utf8.encode text) (listToJson symbols)

/-- A list of symbols as it is written with the fields of each in the declared order. -/
def listText (symbols : List Symbol) : String :=
  (Json.arr (symbols.map (fun x => .obj (record.pairs x.values)))).render

theorem exact_pairs (x : Symbol) : ∀ p ∈ record.pairs x.values, Json.Exact depth p.2 :=
  List.forall_mem_cons.mpr ⟨Json.exact_str x.name, List.forall_mem_cons.mpr
    ⟨Json.exact_str x.kind, List.forall_mem_cons.mpr ⟨Json.exact_uint32 x.line,
      List.forall_mem_singleton.mpr (Json.exact_uint32 x.column)⟩⟩⟩

theorem exact_listToJson (symbols : List Symbol) :
    Json.Exact (depth + 2) (listToJson symbols) := by
  intro v hv
  obtain ⟨x, -, rfl⟩ := List.mem_map.mp hv
  exact Json.exact_ofPairs x.exact_pairs

/-- What is written for the array spells the list. -/
theorem spelledBy_render (symbols : List Symbol) :
    SpelledBy symbols (listToJson symbols).render :=
  Json.document_render (exact_listToJson symbols)

/-- So does what is written in the declared order. -/
theorem spelledBy_listText (symbols : List Symbol) : SpelledBy symbols (listText symbols) := by
  have hspells : Json.Spells Json.maxDepth
      (Utf8.encodeChars (Json.chars (.arr (symbols.map (fun x => .obj (record.pairs x.values))))))
      (.arr (symbols.map toJson)) :=
    Json.spells_arr symbols
      (fun x _ => Json.spells_obj (fun p hp => Json.spells_chars (x.exact_pairs p hp)))
  rw [SpelledBy, listText, Json.render, Utf8.encode_ofList]
  exact Json.document_of_spells hspells

/-- Every text that spells a list is read as the same array. -/
theorem SpelledBy.result (h : SpelledBy symbols text) :
    symbolsOfText text = .ok (listToJson symbols) := by
  have hparse : Json.parseText text = .ok (listToJson symbols) := Json.parse_eq_ok_iff.mpr h
  simp only [symbolsOfText, hparse]

end Symbol

/-! ## Guests -/

namespace Guest

/-- An object with a value under `ok` grants the value, if that is written exactly. -/
theorem says_ok {v : Json} (h : Json.Exact (Json.maxDepth - 1) v) :
    Says (Utf8.encode (Json.obj [("ok", v)]).render) (.ok v) := by
  refine .granted (Json.document_render ?_) rfl rfl
  exact ⟨List.pairwise_singleton _ _, List.forall_mem_singleton.mpr h⟩

end Guest

namespace Instance

variable {i : Instance γ} {p : CodePayload} {symbols : List Symbol} {s : GuestState γ}

/-- A guest LISTS symbols: the document that it returns grants them, as an array or as a text
    that spells the array. -/
inductive Lists (i : Instance γ) (p : CodePayload) (symbols : List Symbol) (s : GuestState γ) :
    Prop
  | array {raw} (returns : i.guest.Returns "cue_get_symbols" (codeArguments p) i.state raw s)
    (grants : Guest.Says raw (.ok (Symbol.listToJson symbols)))
  | text {raw text} (returns : i.guest.Returns "cue_get_symbols" (codeArguments p) i.state raw s)
    (grants : Guest.Says raw (.ok (.str text))) (spells : Symbol.SpelledBy symbols text)

variable (instantiate : Variant → Bytes → Except LoadError (Instance γ))

/-- The capability answers with a text that spells the list, whichever way the guest has taken. -/
theorem Lists.call (h : i.Lists p symbols s) : ∃ text, Symbol.SpelledBy symbols text
    ∧ (runtime instantiate).getSymbols p i = (.answered text, { i with state := s }) := by
  have hgranted : ∀ {raw v}, i.guest.Returns "cue_get_symbols" (codeArguments p) i.state raw s →
      Guest.Says raw (.ok v) →
      (runtime instantiate).getSymbols p i = (.answered v.plain, { i with state := s }) := by
    intro raw v returns grants
    have hcall := returns.call
    rw [Guest.documentResult_of_granted grants] at hcall
    exact calling_of_call hcall
  cases h with
  | array returns grants => exact ⟨_, Symbol.spelledBy_render symbols, hgranted returns grants⟩
  | text returns grants spells => exact ⟨_, spells, hgranted returns grants⟩

/-- The host replies with the array. -/
theorem Lists.reply (h : i.Lists p symbols s) (id : UInt64) :
    (runtime instantiate).reply id i (.getSymbols p)
      = (.ok id (Symbol.listToJson symbols), { i with state := s }) := by
  obtain ⟨text, hspells, hcall⟩ := h.call instantiate
  show replyOf id symbolsOfText ((runtime instantiate).getSymbols p) i = _
  simp only [replyOf, hcall, Reply.ofCall, hspells.result, Reply.ofResult]

end Instance

/-! ## Callers -/

/-- What a capability replies to the frame of a request, as a frame. -/
def Runtime.answer (R : Runtime κ) (c : κ) (frame : Json) : Option Json :=
  (Message.ofFrame frame).toOption.map (fun m => (R.reply m.id c m.action).1.toJson)

/-- A call that is answered by a capability ends with what its reply stands for. -/
theorem Client.exchange_answer (R : Runtime κ) (c : κ) (action : Action) :
    Client.exchange action (R.answer c)
      = (Message.toFrame ⟨1, action⟩, (R.reply 1 c action).1.outcome) := by
  have hanswered : Reply.AnsweredBy (R.answer c (Message.toFrame ⟨1, action⟩)) 1
      (R.reply 1 c action).1.heard := by
    refine ⟨_, ?_, Reply.ofJson_toJson _, Host.id_reply R 1 c action⟩
    simp only [Runtime.answer, Message.ofFrame_toFrame]
    rfl
  rw [Client.exchange_of_answered hanswered, Reply.outcome_heard]

/-- The caller reads the array as the list. -/
theorem Answer.ofOutcome_symbols (id : UInt64) (p : CodePayload) (symbols : List Symbol) :
    Answer.ofOutcome (.getSymbols p) (Reply.ok id (Symbol.listToJson symbols)).outcome
      = .ok (.symbols symbols) := by
  show ((Symbol.listOfJson (Symbol.listToJson symbols)).map Answer.symbols).mapError _ = _
  rw [Symbol.listOfJson_listToJson]
  rfl

namespace Handled

variable {B : Backend σ κ} {store : σ} {events : List HostEvent} {m : Message} {reply : Reply}

/-- A handler that is served by a capability ends with the reply of that capability. -/
theorem ServedBy.reply_eq {h : Handled B store events m reply} {c : κ} (hserved : h.ServedBy c) :
    reply = (B.runtime.reply m.id c m.action).1 := by
  obtain ⟨installed, hslot, hpresent⟩ := hserved
  have hreached := Phase.reached_of_slot h.receipt.sound_host hslot
  have hcompute : m.action.required ≠ .idle := by
    intro hidle
    rw [hidle] at hslot
    exact nomatch hslot
  obtain ⟨reply', hreply', hrefused | ⟨installed', c', hjudged⟩⟩ :=
    h.receipt.poll_judged m.ofFrame_toFrame hcompute h.running
  · exact absurd hrefused.early (Nat.not_lt.mpr hreached)
  · obtain rfl : reply' = reply := Option.some.inj (hreply'.symm.trans h.ended)
    obtain rfl : installed' = installed := Option.some.inj (hjudged.picked.symm.trans hslot)
    obtain rfl : c' = c := Option.some.inj (hjudged.present.symm.trans hpresent)
    exact hjudged.reply_eq

end Handled

namespace Session

/-- **BOTH WAYS OF LISTING SYMBOLS COME TO THE SAME**, for every list of symbols, every code
    that is asked about, and every runtime of guests.

    * There are documents of both kinds, and every text that spells the list may stand in
      them: what is written for the array, also with the fields in the declared order.
    * Whichever way a guest takes, the host makes the same reply, and its result is the
      array.
    * A caller that is answered by such a guest gets the very list.
    * So does every caller in a session with others, in any order of steps on both sides:
      a call for symbols that has ended and whose handler was served by such a guest has
      got the list, unless the host has stopped before it could reply. -/
theorem symbols_come_as_listed (instantiate : Variant → Bytes → Except LoadError (Instance γ))
    (symbols : List Symbol) (p : CodePayload) :
    let R := Instance.runtime instantiate
    let list := Symbol.listToJson symbols
    -- the documents
    (Guest.Says (Utf8.encode (Json.obj [("ok", list)]).render) (.ok list)
      ∧ (∀ text, Guest.Says (Utf8.encode (Json.obj [("ok", .str text)]).render) (.ok (.str text)))
      ∧ Symbol.SpelledBy symbols list.render
      ∧ Symbol.SpelledBy symbols (Symbol.listText symbols))
    -- the host
    ∧ (∀ (i : Instance γ) s, i.Lists p symbols s → ∀ id,
        R.reply id i (.getSymbols p) = (.ok id list, { i with state := s }))
    -- one call
    ∧ (∀ (i : Instance γ) s, i.Lists p symbols s →
        Answer.ofOutcome (.getSymbols p) (Client.exchange (.getSymbols p) (R.answer i)).2
          = .ok (.symbols symbols))
    -- a call among others
    ∧ ∀ (S : Store σ) (store : σ) (events : List SessionEvent),
        let B : Backend σ (Instance γ) := ⟨S, R⟩
        let session := (empty store).run B events
        session.client.calls.length < 2 ^ 64 →
        ∀ (n : Nat) (call : ClientCall) (outcome : Outcome),
          session.client.calls[n]? = some call → call.action = .getSymbols p →
          call.outcome? = some outcome →
          (outcome = .error .disconnected ∧ session.host.stopped = true)
          ∨ ∃ (id : UInt64) (reply : Reply)
              (h : Handled B store (hostSide B (empty store) events) ⟨id, .getSymbols p⟩ reply),
              call.id = some id ∧ outcome = reply.outcome
              ∧ ∀ (i : Instance γ) s, h.ServedBy i → i.Lists p symbols s →
                  reply = .ok id list
                  ∧ Answer.ofOutcome call.action outcome = .ok (.symbols symbols) := by
  intro R list
  refine ⟨⟨Guest.says_ok (Symbol.exact_listToJson symbols),
    fun text => Guest.says_ok (Json.exact_str text), Symbol.spelledBy_render symbols,
    Symbol.spelledBy_listText symbols⟩, fun i s hlists id => hlists.reply instantiate id, ?_, ?_⟩
  · intro i s hlists
    rw [Client.exchange_answer, hlists.reply instantiate]
    exact Answer.ofOutcome_symbols 1 p symbols
  · intro S store events B session few n call outcome here haction hout
    rcases handled_of_outcome few here hout with hstopped | ⟨id, reply, hid, rfl, ⟨h⟩⟩
    · exact Or.inl hstopped
    · rw [haction] at h
      refine Or.inr ⟨id, reply, h, hid, rfl, ?_⟩
      intro i s hserved hlists
      have hreply : reply = .ok id list := by
        rw [hserved.reply_eq]
        exact congrArg Prod.fst (hlists.reply instantiate id)
      rw [haction, hreply]
      exact ⟨rfl, Answer.ofOutcome_symbols id p symbols⟩

/-- A guest that grants one value, whatever it is asked. -/
def granting (granted : Json) : Instance Unit :=
  ⟨Guest.saying ⟨"k"⟩ (Utf8.encode (Json.obj [("ok", granted)]).render), ⟨.zeros 1000, (), []⟩⟩

/-- A list with a character that is escaped in the array and twice in the text. -/
def quotedSymbols : List Symbol :=
  [⟨"\"", "b", 1, 2⟩]

theorem quoted_symbols_listed :
    let R := Instance.runtime (fun _ _ => .error (.compile ⟨"k"⟩ "no code"))
    let p : CodePayload := ⟨"a: 1"⟩
    let array := granting (Symbol.listToJson quotedSymbols)
    let text := granting (.str (Symbol.listText quotedSymbols))
    ((∃ s, array.Lists p quotedSymbols s) ∧ ∃ s, text.Lists p quotedSymbols s)
    ∧ (R.reply 1 array (.getSymbols p)).1 = (R.reply 1 text (.getSymbols p)).1
    ∧ Answer.ofOutcome (.getSymbols p) (Client.exchange (.getSymbols p) (R.answer text)).2
      = .ok (.symbols quotedSymbols) := by
  intro R p array text
  obtain ⟨⟨hgrantsArray, hgrantsText, -, hspelled⟩, hreply, hexchange, -⟩ :=
    symbols_come_as_listed (σ := Unit) (γ := Unit) (fun _ _ => .error (.compile ⟨"k"⟩ "no code"))
      quotedSymbols p
  have hshort : (Guest.argumentText (Instance.codeArguments p)).length ≤ 1000 := by decide
  have hreturns : ∀ granted : Json,
      (Utf8.encode (Json.obj [("ok", granted)]).render).length ≤ 1000 →
      ∃ s, (granting granted).guest.Returns "cue_get_symbols" (Instance.codeArguments p)
        (granting granted).state (Utf8.encode (Json.obj [("ok", granted)]).render) s := by
    intro granted hlength
    exact Guest.returns_saying _ (Nat.le_trans hshort (by decide)) hshort hlength
      (Nat.lt_of_le_of_lt hlength (by decide))
  obtain ⟨s, hs⟩ := hreturns (Symbol.listToJson quotedSymbols) (by decide +kernel)
  obtain ⟨s', hs'⟩ := hreturns (.str (Symbol.listText quotedSymbols)) (by decide +kernel)
  have harray : array.Lists p quotedSymbols s := .array hs hgrantsArray
  have htext : text.Lists p quotedSymbols s' := .text hs' (hgrantsText _) hspelled
  refine ⟨⟨⟨s, harray⟩, s', htext⟩, ?_, hexchange text s' htext⟩
  rw [hreply array s harray, hreply text s' htext]

end Session
end PhaseHost

import PhaseHost.Proofs.Host.Beside

/-! # What a frame does to the others

    A handler that ends writes a reply, and that is all the others see of it: a run of a
    host without the handler gives the same replies, save the one of the handler.

    It does not matter what the handler would have ended with, nor when.  It only must not
    go on to change the controller: it has begun, the request it awaits is not put through
    any more, and a call that it makes leaves the capability as it is.  And nobody else may
    await its request, which holds since every request has one handler (`Host.Apart`). -/

namespace PhaseHost

variable {σ κ : Type}

namespace Host

variable {B : Backend σ κ} {a b : Host σ κ} {event : HostEvent}

/-! ## Every request has one handler -/

/-- The handler at a place awaits a request. -/
def AwaitsAt (h : Host σ κ) (n k : Nat) : Prop :=
  (h.handlers[n]?).map Handler.work = some (.await k)

/-- Handlers await requests that there are, and no two of them the same. -/
structure Apart (h : Host σ κ) : Prop where
  known : ∀ n k, h.AwaitsAt n k → k < h.phase.requests.length
  one : ∀ n m k, h.AwaitsAt n k → h.AwaitsAt m k → n = m

theorem length_le_of_driven {p q : Phase σ κ} (hd : Phase.Driven B p q) :
    p.requests.length ≤ q.requests.length := by
  by_contra hlt
  have hq : q.requests.length < p.requests.length := by omega
  obtain ⟨r', here', -⟩ := hd.request_goes (List.getElem?_eq_getElem hq)
  rw [List.getElem?_eq_none (Nat.le_refl _)] at here'
  exact nomatch here'

/-- Whoever awaits a request has done so before, each at its own place. -/
theorem Apart.carry (h : a.Apart) (hlen : a.phase.requests.length ≤ b.phase.requests.length)
    (before : Nat → Nat) (injective : ∀ n m, before n = before m → n = m)
    (hfrom : ∀ n k, b.AwaitsAt n k → a.AwaitsAt (before n) k) : b.Apart where
  known n k hn := Nat.lt_of_lt_of_le (h.known _ k (hfrom n k hn)) hlen
  one n m k hn hm := injective n m (h.one _ _ k (hfrom n k hn) (hfrom m k hm))

theorem Apart.erase (h : a.Apart) (hlen : a.phase.requests.length ≤ b.phase.requests.length)
    {n : Nat} (hhandlers : b.handlers = a.handlers.eraseIdx n) : b.Apart := by
  refine h.carry hlen (fun m => if m < n then m else m + 1) ?_ ?_
  · intro m m' heq
    split at heq <;> split at heq <;> omega
  · intro m k hm
    simp only [AwaitsAt, hhandlers, List.getElem?_eraseIdx] at hm ⊢
    split at hm
    next hlt => rw [if_pos hlt]; exact hm
    next hlt => rw [if_neg hlt]; exact hm

theorem Apart.move (h : a.Apart) (hmove : Move B a event b) : b.Apart := by
  have hlen := length_le_of_driven hmove.driven
  cases hmove with
  | refuse runs here => exact h.erase hlen rfl
  | serve runs here made => exact h.erase hlen rfl
  | answer runs here ended => exact h.erase hlen rfl
  | @receive frame rest listens next =>
      refine h.carry hlen id (fun _ _ heq => heq) ?_
      intro n k hn
      obtain ⟨handler, here, hwork⟩ := Option.map_eq_some_iff.mp hn
      change (a.handlers ++ (handlerOf a.phase frame).toList)[n]? = some handler at here
      refine Option.map_eq_some_iff.mpr ⟨handler, ?_, hwork⟩
      by_cases hlt : n < a.handlers.length
      · rwa [List.getElem?_append_left hlt] at here
      · -- a frame brings a handler that awaits nothing
        rw [List.getElem?_append_right (by omega)] at here
        exact absurd hwork
          (work_of_handlerOf (Option.mem_toList.mp (List.mem_of_getElem? here)) k)
  | @begin m id payload runs here =>
      have key : ∀ n k, ({ a with
            phase := a.phase.request payload.version payload.sources
            handlers := a.handlers.set m ⟨id, .await a.phase.requests.length⟩ }
            : Host σ κ).AwaitsAt n k →
          (n = m ∧ k = a.phase.requests.length) ∨ (n ≠ m ∧ a.AwaitsAt n k) := by
        intro n k hn
        change ((a.handlers.set m _)[n]?).map Handler.work = _ at hn
        by_cases hmn : m = n
        · subst hmn
          rw [List.getElem?_set_self (List.getElem?_eq_some_iff.mp here).1] at hn
          exact Or.inl ⟨rfl, (Work.await.inj (Option.some.inj hn)).symm⟩
        · rw [List.getElem?_set_ne hmn] at hn
          exact Or.inr ⟨fun heq => hmn heq.symm, hn⟩
      refine ⟨?_, ?_⟩
      · intro n k hn
        show k < (a.phase.requests ++ [_]).length
        rw [List.length_append, List.length_singleton]
        rcases key n k hn with ⟨-, rfl⟩ | ⟨-, hold⟩
        · exact Nat.lt_succ_self _
        · exact Nat.lt_succ_of_lt (h.known n k hold)
      · intro n n' k hn hn'
        -- the request that is made is new, so nobody else awaits it
        rcases key n k hn with ⟨hn, hk⟩ | ⟨-, hold⟩ <;>
          rcases key n' k hn' with ⟨hn', hk'⟩ | ⟨-, hold'⟩
        · exact hn.trans hn'.symm
        · exact absurd (h.known n' k hold') (by omega)
        · exact absurd (h.known n k hold) (by omega)
        · exact h.one n n' k hold hold'
  | stay unadmitted untaken => exact h
  | deliver takes => exact h.carry hlen id (fun _ _ heq => heq) (fun _ _ hn => hn)
  | close => exact h.carry hlen id (fun _ _ heq => heq) (fun _ _ hn => hn)
  | hangUp dry closed => exact h.carry hlen id (fun _ _ heq => heq) (fun _ _ hn => hn)
  | background event => exact h.carry hlen id (fun _ _ heq => heq) (fun _ _ hn => hn)
  | stop done => exact h.carry hlen id (fun _ _ heq => heq) (fun _ _ hn => hn)

theorem apart_run (B : Backend σ κ) (store : σ) (events : List HostEvent) :
    ((empty store : Host σ κ).run B events).Apart := by
  induction events using List.reverseRecOn with
  | nil => exact ⟨fun _ _ => nofun, fun _ _ _ => nofun⟩
  | append_singleton events event ih =>
      rw [run_concat]
      exact ih.move (move_step B _ event)

/-! ## The others get the same replies -/

/-- The host without the handler at a place, whose request has ended with some result. -/
def without (h : Host σ κ) (n : Nat) (work : Work) (result : Except LoadError Readiness) :
    Host σ κ :=
  { h with
    phase := work.settle result h.phase
    handlers := h.handlers.eraseIdx n }

theorem beside_without (wa : a.Winding) (apart : a.Apart) {n : Nat} {handler : Handler}
    (here : a.handlers[n]? = some handler) (result : Except LoadError Readiness) :
    Beside handler.work result (.inFlight n) a (a.without n handler.work result)
    ∧ (a.without n handler.work result).Winding := by
  refine ⟨?_, wa.heard, ?_⟩
  · exact {
      here := by
        intro m hm
        obtain rfl := Fate.inFlight.inj hm
        rw [here]
        rfl
      handlers := rfl
      alone := by
        intro other hmem k hwork hother
        obtain ⟨m, hm⟩ := List.getElem?_of_mem hmem
        change (a.handlers.eraseIdx n)[m]? = some other at hm
        have hn : a.AwaitsAt n k := by
          simp only [AwaitsAt]
          rw [here]
          exact congrArg some hwork
        -- whoever else awaits the request would be at the place of the handler itself
        rw [List.getElem?_eraseIdx] at hm
        split at hm
        next hlt =>
          have hsame := apart.one n m k hn (Option.map_eq_some_iff.mpr ⟨other, hm, hother⟩)
          omega
        next hlt =>
          have hsame := apart.one n (m + 1) k hn (Option.map_eq_some_iff.mpr ⟨other, hm, hother⟩)
          omega
      phase := rfl
      inbox := rfl
      accepting := rfl
      listening := rfl
      outbox := .inFlight }
  · intro hstopped
    have hnone := (wa.finished hstopped).2
    rw [hnone] at here
    exact nomatch here

/-- **THE OTHERS GET THE SAME REPLIES**: a run of a host without one of its handlers gives
    the replies of the run with it, save that of the handler itself. -/
theorem lacks_run_without (wa : a.Winding) (apart : a.Apart) {n : Nat} {handler : Handler}
    (here : a.handlers[n]? = some handler) (contains : a.phase.Contains B handler.work)
    (result : Except LoadError Readiness) (events : List HostEvent) :
    (a.fate B n events).Lacks (a.run B events).outbox
      ((a.without n handler.work result).run B (a.besides B (.inFlight n) events)).outbox := by
  obtain ⟨hbeside, wb⟩ := beside_without wa apart here result
  exact (hbeside.run contains wa wb events).outbox

end Host
end PhaseHost

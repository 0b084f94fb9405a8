import Mathlib.Algebra.Group.Nat.Defs
import Mathlib.Data.List.Perm.Basic
import PhaseHost.Proofs.Client.Calls

/-! # The numbers of calls

    Numbers count up from one and wrap around at `2 ^ 64`.  The invariant is kept
    without a bound: what has been given are the first so many numbers, modulo
    `2 ^ 64`, and the numbers that calls have are those, in some order, because
    calls need not take theirs in the order in which they were made.

    Only with fewer than `2 ^ 64` calls is a call known by its number. -/

namespace PhaseHost

/-- Marking an unmarked entry adds its mark to the marks. -/
theorem filterMap_set_perm {α β : Type} {f : α → Option β} {xs : List α} {i : Nat} {x y : α}
    {b : β} (h : xs[i]? = some x) (hx : f x = none) (hy : f y = some b) :
    ((xs.set i y).filterMap f).Perm (b :: xs.filterMap f) := by
  obtain ⟨hi, rfl⟩ := List.getElem?_eq_some_iff.mp h
  have hset := (List.set_perm_cons_eraseIdx hi y).filterMap f
  have hold := (List.getElem_cons_eraseIdx_perm hi).filterMap f
  rw [List.filterMap_cons_some hy] at hset
  rw [List.filterMap_cons_none hx] at hold
  exact hset.trans (hold.cons b)

/-- What is alike entry by entry is alike after picking. -/
theorem filterMap_eq_of_map_eq {α β : Type} {f : α → Option β} {xs ys : List α}
    (h : xs.map f = ys.map f) : xs.filterMap f = ys.filterMap f := by
  have hpick : ∀ zs : List α, zs.filterMap f = (zs.map f).filterMap (fun o => o) := by
    intro zs
    rw [List.filterMap_map]
    rfl
  rw [hpick xs, hpick ys, h]

namespace Client

variable {c c' : Client} {event : ClientEvent} {note : Option ClientNote} {n m : Nat}
  {call call' : ClientCall} {id : UInt64}

theorem filterMap_log_concat {α : Type} (f : ClientNote → Option α) (c : Client)
    (events : List ClientEvent) (event : ClientEvent) :
    (c.log (events ++ [event])).filterMap f
      = (c.log events).filterMap f ++ (((c.run events).note? event).bind f).toList := by
  rw [log_concat, List.filterMap_append]
  cases (c.run events).note? event with
  | none => rfl
  | some note =>
      show _ ++ List.filterMap f [note] = _ ++ (f note).toList
      cases hf : f note with
      | none => rw [List.filterMap_cons_none hf]; rfl
      | some a => rw [List.filterMap_cons_some hf]; rfl

/-! ## Counting -/

/-- An entry in the table gives no number. -/
theorem ids_enlist (h : c.Sound) {action : Action}
    (here : c.calls[n]? = some ⟨action, some id, .numbered⟩) :
    (c.enlist n action id).calls.map ClientCall.id = c.calls.map ClientCall.id := by
  have hreleased := released h.tabled id (.error .disconnected)
  have hunlisted : (id, n) ∉ c.pending := by
    intro hmem
    exact nomatch h.tabled.mayBeListed here hmem
  have here' := (hreleased.others n hunlisted).trans here
  exact (map_set_eq (y := ⟨action, some id, .parked none⟩) here' rfl).trans hreleased.ids

/-- A frame that is not handed over gives none either. -/
theorem ids_miss (h : c.Sound) :
    ((c.release id (.error .disconnected)).finish n (.error .disconnected)).calls.map
      ClientCall.id = c.calls.map ClientCall.id := by
  have hreleased := released h.tabled id (.error .disconnected)
  have hmodify := map_modify_eq (g := ClientCall.id)
    (fun call : ClientCall => { call with stage := .settled (.error .disconnected) })
    (fun _ => rfl) (c.release id (.error .disconnected)).calls n
  exact hmodify.trans hreleased.ids

/-- Nor does a table that is emptied. -/
theorem ids_deliverAll (outcome : Outcome) (entries : List (UInt64 × Nat))
    (calls : List ClientCall) :
    (entries.foldl (fun calls p => calls.modify p.2 (ClientCall.deliver outcome)) calls).map
      ClientCall.id = calls.map ClientCall.id := by
  induction entries generalizing calls with
  | nil => rfl
  | cons p rest ih => rw [List.foldl_cons, ih, map_modify_eq _ (ClientCall.deliver_id outcome)]

/-- Every move but a call's taking its number leaves the numbers alone. -/
theorem Move.counts (hmove : Move c event note c') (h : c.Sound) :
    (note.bind ClientNote.number? = none ∧ c'.nextId = c.nextId
      ∧ c'.calls.filterMap ClientCall.id = c.calls.filterMap ClientCall.id)
    ∨ (note.bind ClientNote.number? = some c.nextId ∧ c'.nextId = c.nextId + 1
      ∧ (c'.calls.filterMap ClientCall.id).Perm
          (c.nextId :: c.calls.filterMap ClientCall.id)) := by
  cases hmove with
  | @take n action id fresh =>
      obtain rfl : id = none := h.tabled.coherent n _ fresh
      exact Or.inr ⟨rfl, rfl, filterMap_set_perm fresh rfl rfl⟩
  | stay => exact Or.inl ⟨rfl, rfl, rfl⟩
  | call action =>
      refine Or.inl ⟨rfl, rfl, ?_⟩
      show (c.calls ++ [_]).filterMap ClientCall.id = _
      rw [List.filterMap_append, List.filterMap_cons_none rfl]
      exact List.append_nil _
  | turnAway here shut =>
      exact Or.inl ⟨rfl, rfl, filterMap_eq_of_map_eq (map_set_eq here rfl)⟩
  | @enlist n action id here unshut =>
      refine Or.inl ⟨rfl, ?_, filterMap_eq_of_map_eq (ids_enlist h here)⟩
      show (c.release id (.error .disconnected)).nextId = _
      rw [release_rest]
  | hand here listens => exact Or.inl ⟨rfl, rfl, filterMap_eq_of_map_eq (map_set_eq here rfl)⟩
  | handTold here listens =>
      exact Or.inl ⟨rfl, rfl, filterMap_eq_of_map_eq (map_set_eq here rfl)⟩
  | @miss n action id early here gone =>
      refine Or.inl ⟨rfl, ?_, filterMap_eq_of_map_eq (ids_miss h)⟩
      show (c.release id (.error .disconnected)).nextId = _
      rw [release_rest]
  | abandon here waits => exact Or.inl ⟨rfl, rfl, filterMap_eq_of_map_eq (map_set_eq here rfl)⟩
  | arrive comes => exact Or.inl ⟨rfl, rfl, rfl⟩
  | @answer frame rest r oldest answers =>
      have htabled : Tabled ({ c with arrived := rest } : Client).calls
        ({ c with arrived := rest } : Client).pending := h.tabled
      have hreleased := released htabled r.id r.outcome
      refine Or.inl ⟨rfl, ?_, filterMap_eq_of_map_eq hreleased.ids⟩
      rw [release_rest]
  | pass oldest unanswered => exact Or.inl ⟨rfl, rfl, rfl⟩
  | closeReplies => exact Or.inl ⟨rfl, rfl, rfl⟩
  | drain closing dry unshut =>
      exact Or.inl ⟨rfl, rfl, filterMap_eq_of_map_eq (ids_deliverAll _ _ _)⟩
  | hangUp => exact Or.inl ⟨rfl, rfl, rfl⟩

/-- The numbers that were given, the number that is next, and the numbers of the calls. -/
structure Counted (c : Client) (given : List UInt64) : Prop where
  first : given = (List.range' 1 given.length).map UInt64.ofNat
  next : c.nextId = UInt64.ofNat (given.length + 1)
  ids : (c.calls.filterMap ClientCall.id).Perm given

/-- One move keeps the count. -/
theorem Counted.move {given : List UInt64} (h : c.Counted given) (hsound : c.Sound)
    (hmove : Move c event note c') :
    c'.Counted (given ++ (note.bind ClientNote.number?).toList) := by
  rcases hmove.counts hsound with ⟨hnote, hnext, hids⟩ | ⟨hnote, hnext, hids⟩
  · rw [hnote, Option.toList_none, List.append_nil]
    exact ⟨h.first, hnext.trans h.next, hids ▸ h.ids⟩
  · rw [hnote, Option.toList_some]
    refine ⟨?_, ?_, ?_⟩
    · rw [List.length_append, List.length_singleton, List.range'_concat, List.map_append,
        ← h.first, h.next, Nat.one_mul, Nat.add_comm given.length 1]
      rfl
    · rw [hnext, h.next, List.length_append, List.length_singleton,
        UInt64.ofNat_add (given.length + 1) 1]
      rfl
    · exact hids.trans ((h.ids.cons _).trans (List.perm_append_singleton _ _).symm)

/-- Numbers are counted from one, in the order in which they are taken. -/
theorem counted_run (events : List ClientEvent) :
    (empty.run events).Counted (empty.numbers events) := by
  induction events using List.reverseRecOn with
  | nil => exact ⟨rfl, rfl, .nil⟩
  | append_singleton events event ih =>
      rw [numbers, filterMap_log_concat, run_concat]
      exact ih.move (sound_run events) (move_step _ event)

/-! ## Fewer than `2 ^ 64` calls -/

/-- No call goes with its entry. -/
theorem length_release (c : Client) (id : UInt64) (outcome : Outcome) :
    (c.release id outcome).calls.length = c.calls.length := by
  simp only [release]
  split
  · exact List.length_modify ..
  · rfl

/-- No call goes away, and only a new one comes in. -/
theorem Move.calls_length (hmove : Move c event note c') :
    c'.calls.length = c.calls.length
      ∨ ∃ action, c'.calls = c.calls ++ [⟨action, none, .fresh⟩] := by
  cases hmove with
  | call action => exact Or.inr ⟨action, rfl⟩
  | stay => exact Or.inl rfl
  | take fresh => exact Or.inl (List.length_set ..)
  | turnAway here shut => exact Or.inl (List.length_set ..)
  | enlist here unshut => exact Or.inl ((List.length_set ..).trans (length_release c _ _))
  | hand here listens => exact Or.inl (List.length_set ..)
  | handTold here listens => exact Or.inl (List.length_set ..)
  | miss here gone => exact Or.inl ((List.length_modify ..).trans (length_release c _ _))
  | abandon here waits => exact Or.inl (List.length_set ..)
  | arrive comes => exact Or.inl rfl
  | answer oldest answers => exact Or.inl (length_release _ _ _)
  | pass oldest unanswered => exact Or.inl rfl
  | closeReplies => exact Or.inl rfl
  | drain closing dry unshut =>
      have hids := congrArg List.length
        (ids_deliverAll (.error .disconnected) c.pending c.calls)
      rw [List.length_map, List.length_map] at hids
      exact Or.inl hids
  | hangUp => exact Or.inl rfl

/-- A call that is there after a move was there before, unless it is the new one. -/
theorem Move.goes_from (hmove : Move c event note c') (hsound : c.Sound)
    (here' : c'.calls[n]? = some call') :
    (c.calls[n]? = none ∧ ∃ action, call' = ⟨action, none, .fresh⟩)
    ∨ ∃ call, c.calls[n]? = some call ∧ Goes c note n call call' := by
  cases here : c.calls[n]? with
  | some call =>
      obtain ⟨call'', here'', hgoes⟩ := hmove.goes hsound here
      obtain rfl := Option.some.inj (here'.symm.trans here'')
      exact Or.inr ⟨call, rfl, hgoes⟩
  | none =>
      have hn := List.getElem?_eq_none_iff.mp here
      rcases hmove.calls_length with hlen | ⟨action, hnew⟩
      · have hn' := (List.getElem?_eq_some_iff.mp here').1
        omega
      · rw [hnew] at here'
        rcases getElem?_concat_iff.mp here' with hold | ⟨-, heq⟩
        · rw [here] at hold
          exact nomatch hold
        · exact Or.inl ⟨rfl, action, heq.symm⟩

/-- Calls only become more. -/
theorem length_le_step (c : Client) (event : ClientEvent) :
    c.calls.length ≤ (c.step event).calls.length := by
  rcases (move_step c event).calls_length with hlen | ⟨action, hnew⟩
  · exact Nat.le_of_eq hlen.symm
  · rw [hnew, List.length_append]
    exact Nat.le_add_right _ _

/-- There were no more calls before an event than after it. -/
theorem few_of_concat {events : List ClientEvent} {event : ClientEvent}
    (few : (empty.run (events ++ [event])).calls.length < 2 ^ 64) :
    (empty.run events).calls.length < 2 ^ 64 := by
  rw [run_concat] at few
  exact Nat.lt_of_le_of_lt (length_le_step (empty.run events) event) few

/-- **COUNTING**: fewer than `2 ^ 64` calls take the numbers one, two, three and so on. -/
theorem numbers_eq {events : List ClientEvent}
    (few : (empty.run events).calls.length < 2 ^ 64) :
    (empty.numbers events).map UInt64.toNat
      = List.range' 1 (empty.numbers events).length := by
  have hcounted := counted_run events
  have hle : (empty.numbers events).length ≤ (empty.run events).calls.length := by
    rw [← hcounted.ids.length_eq]
    exact List.length_filterMap_le _ _
  rw [hcounted.first, List.map_map, List.length_map, List.length_range']
  refine (List.map_congr_left ?_).trans (List.map_id _)
  intro i hi
  have hlt : i < 2 ^ 64 := by
    have := List.mem_range'_1.mp hi
    omega
  exact UInt64.toNat_ofNat_of_lt' hlt

/-- **NO NUMBER TWICE**, as long as the calls are fewer than the numbers. -/
theorem ids_nodup {events : List ClientEvent}
    (few : (empty.run events).calls.length < 2 ^ 64) :
    ((empty.run events).calls.filterMap ClientCall.id).Nodup := by
  refine (counted_run events).ids.nodup_iff.mpr ?_
  refine List.Nodup.of_map UInt64.toNat ?_
  rw [numbers_eq few]
  exact List.nodup_range'

end Client
end PhaseHost

import Mathlib.Data.List.Induction

/-! # Trails

    A run is a fold of a step over events.  A TRAIL is what an observer notes
    along it: at every event it looks at the state before the event and at the
    event itself, and notes something or nothing.

    Statements about "the frames received so far" or "the requests put through
    so far" are statements about trails, so the states need no history of their
    own.  Proofs go by induction on the last event, for which a run and a trail
    have one equation each. -/

namespace PhaseHost

variable {S E α : Type}

/-- What an observer notes along a sequence of events, in order. -/
def trail (step : S → E → S) (note : S → E → Option α) (s : S) : List E → List α
  | [] => []
  | e :: rest => (note s e).toList ++ trail step note (step s e) rest

/-- A trail over two sequences of events is one behind the other. -/
theorem trail_append (step : S → E → S) (note : S → E → Option α) (s : S)
    (es fs : List E) :
    trail step note s (es ++ fs)
      = trail step note s es ++ trail step note (es.foldl step s) fs := by
  induction es generalizing s with
  | nil => rfl
  | cons e rest ih =>
      show (note s e).toList ++ trail step note (step s e) (rest ++ fs)
        = ((note s e).toList ++ trail step note (step s e) rest)
          ++ trail step note (rest.foldl step (step s e)) fs
      rw [ih, List.append_assoc]

/-- The last event adds its own note. -/
theorem trail_concat (step : S → E → S) (note : S → E → Option α) (s : S)
    (es : List E) (e : E) :
    trail step note s (es ++ [e])
      = trail step note s es ++ (note (es.foldl step s) e).toList := by
  rw [trail_append]
  show trail step note s es ++ ((note (es.foldl step s) e).toList ++ []) = _
  rw [List.append_nil]

/-- The same where several things are noted of one event. -/
theorem flatten_trail_concat (step : S → E → S) (note : S → E → List α) (s : S)
    (es : List E) (e : E) :
    (trail step (fun s e => some (note s e)) s (es ++ [e])).flatten
      = (trail step (fun s e => some (note s e)) s es).flatten
        ++ note (es.foldl step s) e := by
  rw [trail_concat, List.flatten_append, Option.toList_some, List.flatten_singleton]

/-- What is on a trail is what was noted of an event by the state it met. -/
theorem mem_trail {step : S → E → S} {note : S → E → Option α} {s : S} {es : List E} {a : α} :
    a ∈ trail step note s es ↔
      ∃ before e after, es = before ++ e :: after ∧ note (before.foldl step s) e = some a := by
  constructor
  · intro h
    induction es generalizing s with
    | nil => exact nomatch h
    | cons e rest ih =>
        rcases List.mem_append.mp h with hnow | hlater
        · exact ⟨[], e, rest, rfl, Option.mem_toList.mp hnow⟩
        · obtain ⟨before, e', after, rfl, hnote⟩ := ih hlater
          exact ⟨e :: before, e', after, rfl, hnote⟩
  · rintro ⟨before, e, after, rfl, hnote⟩
    rw [trail_append]
    exact List.mem_append_right _ (List.mem_append_left _ (Option.mem_toList.mpr hnote))

/-- Whatever is on a trail was noted of some event. -/
theorem exists_of_mem_trail {step : S → E → S} {note : S → E → Option α} {s : S} {es : List E}
    {a : α} (h : a ∈ trail step note s es) : ∃ e ∈ es, ∃ s', note s' e = some a := by
  obtain ⟨before, e, after, rfl, hnote⟩ := mem_trail.mp h
  exact ⟨e, List.mem_append_right _ List.mem_cons_self, _, hnote⟩

/-- The last note is that of the last event, if it leaves one. -/
theorem getLast?_trail_concat (step : S → E → S) (note : S → E → Option α) (s : S) (es : List E)
    (e : E) : (trail step note s (es ++ [e])).getLast?
      = (note (es.foldl step s) e).or (trail step note s es).getLast? := by
  rw [trail_concat, List.getLast?_append]
  cases note (es.foldl step s) e <;> rfl

end PhaseHost

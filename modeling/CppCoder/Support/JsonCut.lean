import CppCoder.Support.JsonText

/-! The text of a JSON object that was cut off is no JSON: the brace that opens it is closed at its end
only. -/

namespace CppCoder.Support.JsonText

def Mode.ended : Mode → Bool
  | .finished _ => true
  | _ => false

inductive Inside : State → Prop where
  | mk (frame : Frame) (rest : List Frame) (mode : Mode) (unended : mode.ended = false) :
      Inside ⟨frame :: rest, mode⟩

inductive Ended : State → Prop where
  | mk (v : Value) : Ended ⟨[], .finished v⟩

/-- A container is open, or a bracket has closed the last one. -/
def Follows (c : Nat) (s : State) : Prop := Inside s ∨ Ended s ∧ (c = 93 ∨ c = 125)

variable {s s' : State} {frame : Frame} {rest : List Frame} {c : Nat}

theorem inside_of_cons {mode : Mode} (unended : mode.ended = false) : Follows c ⟨frame :: rest, mode⟩ :=
  .inl (.mk frame rest mode unended)

theorem complete_cons {v : Value} (done : complete v (frame :: rest) = some s) :
    ∃ frame', s = ⟨frame' :: rest, .after⟩ := by
  unfold complete at done
  split at done
  · rename_i none
    cases none
  · rename_i same
    cases same
    cases done
    exact ⟨_, rfl⟩
  · rename_i same
    cases same
    cases done
    exact ⟨_, rfl⟩
  · cases done

theorem complete_follows {v : Value} {stack : List Frame} (bracket : c = 93 ∨ c = 125)
    (done : complete v stack = some s) : Follows c s := by
  cases stack with
  | nil =>
    cases done
    exact .inr ⟨.mk v, bracket⟩
  | cons frame rest =>
    obtain ⟨frame', rfl⟩ := complete_cons done
    exact inside_of_cons rfl

theorem close_follows {stack : List Frame} (closed : close stack c = some s) : Follows c s := by
  unfold close at closed
  split at closed
  · exact complete_follows (.inl rfl) closed
  · exact complete_follows (.inr rfl) closed
  · cases closed

theorem beginValue_follows (begun : beginValue (frame :: rest) c = some s) : Follows c s := by
  unfold beginValue at begun
  split_ifs at begun
  · cases begun
    exact inside_of_cons rfl
  · cases begun
    exact inside_of_cons rfl
  · cases begun
    exact inside_of_cons rfl
  · cases begun
    exact inside_of_cons rfl
  · cases begun
    exact inside_of_cons rfl
  · cases begun
    exact inside_of_cons rfl
  · obtain ⟨n, -, rfl⟩ := Option.map_eq_some_iff.1 begun
    exact inside_of_cons rfl

theorem afterValue_follows (next : afterValue (frame :: rest) c = some s) : Follows c s := by
  unfold afterValue comma at next
  split_ifs at next
  · cases next
    exact inside_of_cons rfl
  · split at next <;> cases next <;> exact inside_of_cons rfl
  · exact close_follows next

theorem stepString_follows {isKey : Bool} {chars : Text} {escape : Escape}
    (next : stepString (frame :: rest) isKey chars c escape = some s) : Follows c s := by
  cases escape with
  | plain =>
    simp only [stepString, endString] at next
    split_ifs at next
    · cases next
      exact inside_of_cons rfl
    · obtain ⟨frame', rfl⟩ := complete_cons next
      exact inside_of_cons rfl
    · cases next
      exact inside_of_cons rfl
    · cases next
      exact inside_of_cons rfl
  | slash =>
    simp only [stepString] at next
    split_ifs at next
    · cases next
      exact inside_of_cons rfl
    · obtain ⟨u, -, rfl⟩ := Option.map_eq_some_iff.1 next
      exact inside_of_cons rfl
  | hex count value =>
    obtain ⟨d, -, rfl⟩ := Option.map_eq_some_iff.1 next
    split_ifs <;> exact inside_of_cons rfl

theorem step_follows (inside : Inside s) (next : step s c = some s') : Follows c s' := by
  obtain ⟨frame, rest, mode, unended⟩ := inside
  cases mode with
  | value =>
    simp only [step] at next
    split_ifs at next
    · cases next
      exact inside_of_cons rfl
    · exact beginValue_follows next
  | first =>
    simp only [step] at next
    split_ifs at next
    · cases next
      exact inside_of_cons rfl
    · exact close_follows next
    · exact beginValue_follows next
  | key =>
    simp only [step] at next
    split_ifs at next <;> cases next <;> exact inside_of_cons rfl
  | firstKey =>
    simp only [step] at next
    split_ifs at next
    · cases next
      exact inside_of_cons rfl
    · cases next
      exact inside_of_cons rfl
    · exact close_follows next
  | colon key =>
    simp only [step] at next
    split_ifs at next
    · cases next
      exact inside_of_cons rfl
    · split at next <;> cases next
      exact inside_of_cons rfl
  | after => exact afterValue_follows next
  | string isKey chars escape => exact stepString_follows next
  | numeral n =>
    simp only [step] at next
    split at next
    · cases next
      exact inside_of_cons rfl
    · obtain ⟨t, ended, delimited⟩ := Option.bind_eq_some_iff.1 next
      obtain ⟨v, -, completed⟩ := Option.bind_eq_some_iff.1 ended
      obtain ⟨frame', rfl⟩ := complete_cons completed
      exact afterValue_follows delimited
  | word w count =>
    simp only [step] at next
    split_ifs at next
    · obtain ⟨frame', rfl⟩ := complete_cons next
      exact inside_of_cons rfl
    · cases next
      exact inside_of_cons rfl
  | finished v => cases unended

theorem read_ended {text : Text} (ended : Ended s) (found : read s text = some s') :
    s' = s ∧ ∀ c ∈ text, isSpace c = true := by
  obtain ⟨v⟩ := ended
  induction text with
  | nil =>
    cases found
    exact ⟨rfl, by simp⟩
  | cons c rest ih =>
    rw [read_cons] at found
    obtain ⟨next, stepped, more⟩ := Option.bind_eq_some_iff.1 found
    simp only [step] at stepped
    split_ifs at stepped with space
    cases stepped
    obtain ⟨same, spaces⟩ := ih more
    exact ⟨same, List.forall_mem_cons.2 ⟨space, spaces⟩⟩

theorem read_inside {text : Text} (inside : Inside s) (found : read s text = some s') : Inside s' ∨ Ended s' := by
  induction text generalizing s with
  | nil =>
    cases found
    exact .inl inside
  | cons c rest ih =>
    rw [read_cons] at found
    obtain ⟨next, stepped, more⟩ := Option.bind_eq_some_iff.1 found
    obtain still | ⟨ended, -⟩ := step_follows inside stepped
    · exact ih still more
    · exact .inr ((read_ended ended more).1 ▸ ended)

theorem read_open {text : Text} (inside : Inside s) (opens : ∀ c ∈ text, c ≠ 93 ∧ c ≠ 125)
    (found : read s text = some s') : Inside s' := by
  induction text generalizing s with
  | nil =>
    cases found
    exact inside
  | cons c rest ih =>
    rw [read_cons] at found
    obtain ⟨next, stepped, more⟩ := Option.bind_eq_some_iff.1 found
    obtain still | ⟨-, bracket⟩ := step_follows inside stepped
    · exact ih still (fun d member => opens d (List.mem_cons_of_mem _ member)) more
    · have apart := opens c List.mem_cons_self
      omega

theorem finish_inside (inside : Inside s) : finish s = none := by
  obtain ⟨frame, rest, mode, unended⟩ := inside
  cases mode with
  | finished v => cases unended
  | numeral n => rfl
  | _ => rfl

theorem parse_cut {whole before extra : Text} (after : Text) {d : Nat} (parsed : (parse whole).isSome = true)
    (split : whole = (123 :: before) ++ (after ++ [d])) (solid : isSpace d = false)
    (opens : ∀ c ∈ extra, c ≠ 93 ∧ c ≠ 125) : parse ((123 :: before) ++ extra) = none := by
  obtain ⟨v, whole_parsed⟩ := Option.isSome_iff_exists.1 parsed
  obtain ⟨last, read_whole, -⟩ := Option.bind_eq_some_iff.1 whole_parsed
  rw [split, read_append] at read_whole
  obtain ⟨s, begun, continued⟩ := Option.bind_eq_some_iff.1 read_whole
  have first : read ⟨[.object []], .firstKey⟩ before = some s := begun
  obtain inside | ended := read_inside (.mk _ _ _ rfl) first
  · unfold parse
    rw [read_append, begun, Option.bind_some]
    cases found : read s extra with
    | none => rfl
    | some s' => exact finish_inside (read_open inside opens found)
  · have spaces := (read_ended ended continued).2 d (by simp)
    rw [solid] at spaces
    cases spaces

end CppCoder.Support.JsonText

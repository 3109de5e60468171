import CppCoder.ViewerSession

/-! Playback in every order of clicks, loaded files and timers: the page is always somewhere in the log that
was started last, and has one timer at most. -/

namespace CppCoder.ViewerRuns
open Support Machine ViewerSession

variable {γ ε : Type} {screen : Screen γ ε}

def Applied.bind : Applied γ → (γ → Applied γ) → Applied γ
  | .done drawing, next => next drawing
  | .threw drawing, _ => .threw drawing
  | .hangs, _ => .hangs

/-- The events of a log, one after another without a pause. -/
def play (screen : Screen γ ε) : γ → List ε → Applied γ
  | drawing, [] => .done drawing
  | drawing, evt :: rest => Applied.bind (screen.applyEvent drawing evt) fun next => play screen next rest

theorem play_append (drawing : γ) (first second : List ε) :
    play screen drawing (first ++ second) =
      Applied.bind (play screen drawing first) fun next => play screen next second := by
  induction first generalizing drawing with
  | nil => rfl
  | cons evt rest ih =>
    change Applied.bind (screen.applyEvent drawing evt) _ = Applied.bind (Applied.bind _ _) _
    cases screen.applyEvent drawing evt with
    | done next => exact ih next
    | threw left => rfl
    | hangs => rfl

theorem play_one {drawing next : γ} {played : List ε} (drawn : play screen drawing played = .done next) (evt : ε) :
    play screen drawing (played ++ [evt]) = screen.applyEvent next evt := by
  rw [play_append, drawn]
  change Applied.bind (screen.applyEvent next evt) (fun drawing => .done drawing) = _
  cases screen.applyEvent next evt <;> rfl

/-! ### Where the page is in the log -/

def playedLog (screen : Screen γ ε) (log : List ε) : Event ε → List ε
  | .fired _ => log
  | .demo => screen.buildDemoEvents
  | .loaded events => if events.isEmpty then log else events
  | .reset => []

/-- The log that was started last, unless it was cleared since. -/
def lastLog (screen : Screen γ ε) (events : List (Event ε)) : List ε := events.foldl (playedLog screen) []

/-- Nothing was played, or everything was; or the timer for the next event runs; or an event threw, and
nothing happens any more until something is clicked; or an event does not end. -/
inductive Phase (screen : Screen γ ε) (log : List ε) (page : Page γ ε) : Prop where
  | resting (drawn : play screen screen.blank log = .done page.drawing) (queue : page.queue = [])
      (playing : page.playing = false) (pending : page.timers.pending = []) (alive : page.hung = false)
  | waiting (played : List ε) (timer : Nat) (split : log = played ++ page.queue) (more : page.queue ≠ [])
      (drawn : play screen screen.blank played = .done page.drawing) (playing : page.playing = true)
      (named : page.timer = some timer) (pending : page.timers.pending = [timer]) (alive : page.hung = false)
  | broken (played : List ε) (evt : ε) (split : log = played ++ evt :: page.queue)
      (drawn : play screen screen.blank (played ++ [evt]) = .threw page.drawing) (playing : page.playing = true)
      (pending : page.timers.pending = []) (alive : page.hung = false)
  | hung (played : List ε) (evt : ε) (split : log = played ++ evt :: page.queue)
      (drawn : play screen screen.blank (played ++ [evt]) = .hangs) (hung : page.hung = true)

variable {log played rest : List ε} {page page' : Page γ ε} {evt : ε}

theorem opened_phase : Phase screen [] (opened screen) := .resting rfl rfl rfl rfl rfl

theorem stepPlayback_phase (split : log = played ++ page.queue)
    (drawn : play screen screen.blank played = .done page.drawing) (playing : page.playing = true)
    (pending : page.timers.pending = []) (alive : page.hung = false) :
    Phase screen log (stepPlayback screen page) := by
  unfold stepPlayback
  cases queued : page.queue with
  | nil =>
    rw [queued, List.append_nil] at split
    exact .resting (split ▸ drawn) rfl rfl pending alive
  | cons evt rest =>
    rw [queued] at split
    have further := play_one drawn evt
    dsimp only
    cases applied : screen.applyEvent page.drawing evt with
    | hangs => exact .hung played evt split (further.trans applied) rfl
    | threw drawing => exact .broken played evt split (further.trans applied) playing pending alive
    | done drawing =>
      rw [applied] at further
      dsimp only
      cases rest with
      | nil => exact .resting (split ▸ further) rfl rfl pending alive
      | cons next others =>
        refine .waiting (played ++ [evt]) page.timers.next ?_ (List.cons_ne_nil next others) further playing rfl
          (Timers.set_only pending) alive
        rw [split, List.append_assoc]
        rfl

theorem Phase.clears (phase : Phase screen log page) (alive : page.hung = false) :
    (page.timers.clearVariable page.timer).pending = [] := by
  have cleared : page.timers.pending = [] → (page.timers.clearVariable page.timer).pending = [] := by
    intro none
    cases page.timer with
    | none => exact none
    | some timer => exact Timers.clear_only (by simp [none])
  cases phase with
  | resting _ _ _ pending _ => exact cleared pending
  | waiting _ timer _ _ _ _ named pending _ =>
    rw [named]
    exact Timers.clear_only (by simp [pending])
  | broken _ _ _ _ _ pending _ => exact cleared pending
  | hung _ _ _ _ hung => exact absurd (alive.symm.trans hung) Bool.false_ne_true

theorem resetAll_phase (phase : Phase screen log page) (alive : page.hung = false) :
    Phase screen [] (resetAll screen page) :=
  .resting rfl rfl rfl (phase.clears alive) alive

theorem startPlayback_phase (phase : Phase screen log page) (alive : page.hung = false) (events : List ε) :
    Phase screen events (startPlayback screen page events) :=
  stepPlayback_phase (List.nil_append events).symm rfl rfl (phase.clears alive) alive

theorem fired_eq {timer : Nat} (stepped : step screen page (.fired timer) = some page') :
    timer ∈ page.timers.pending ∧
      page' = stepPlayback screen { page with timers := page.timers.clear timer } := by
  unfold step at stepped
  split_ifs at stepped with hung
  dsimp only at stepped
  split_ifs at stepped with fires
  cases stepped
  exact ⟨by simpa using fires, rfl⟩

theorem Phase.fires {timer : Nat} (phase : Phase screen log page) (alive : page.hung = false)
    (member : timer ∈ page.timers.pending) :
    ∃ played, log = played ++ page.queue ∧ page.queue ≠ [] ∧
      play screen screen.blank played = .done page.drawing ∧ page.playing = true ∧
      page.timers.pending = [timer] := by
  cases phase with
  | resting _ _ _ pending _ => simp [pending] at member
  | waiting played other split more drawn playing _ pending _ =>
    have same : timer = other := by simpa [pending] using member
    exact ⟨played, split, more, drawn, playing, by rw [pending, same]⟩
  | broken _ _ _ _ _ pending _ => simp [pending] at member
  | hung _ _ _ _ hung => exact absurd (alive.symm.trans hung) Bool.false_ne_true

theorem alive_of_step {event : Event ε} (stepped : step screen page event = some page') : page.hung = false := by
  unfold step at stepped
  split_ifs at stepped with hung
  simpa using hung

theorem step_phase (phase : Phase screen log page) {event : Event ε}
    (stepped : step screen page event = some page') : Phase screen (playedLog screen log event) page' := by
  have alive := alive_of_step stepped
  have next := stepped
  unfold step at next
  rw [if_neg (by simp [alive])] at next
  cases event with
  | fired timer =>
    obtain ⟨member, rfl⟩ := fired_eq stepped
    obtain ⟨played, split, _, drawn, playing, pending⟩ := phase.fires alive member
    exact stepPlayback_phase split drawn playing (Timers.clear_only (by simp [pending])) alive
  | demo =>
    cases next
    exact startPlayback_phase phase alive _
  | loaded events =>
    cases next
    dsimp only [onload, playedLog]
    split_ifs
    · exact phase
    · exact startPlayback_phase phase alive events
  | reset =>
    cases next
    exact resetAll_phase phase alive

theorem run_phase {events : List (Event ε)} (phase : Phase screen log page)
    (ran : run (step screen) page events = some page') :
    Phase screen (events.foldl (playedLog screen) log) page' := by
  refine run_trace (fun seen s => Phase screen (seen.foldl (playedLog screen) log) s) phase ?_ ran
  intro seen s1 e s2 _ before stepped
  rw [List.foldl_append]
  exact step_phase before stepped

/-- In every order of events the page is somewhere in the log that was started last. -/
theorem last_log {events : List (Event ε)} (ran : run (step screen) (opened screen) events = some page) :
    Phase screen (lastLog screen events) page := run_phase opened_phase ran

/-- The demo, started again before its third event. -/
theorem last_log_demo : ∃ page, run (step viewer) (opened viewer)
    [.demo, .fired 0, .demo, .fired 2, .loaded []] = some page ∧
    Phase viewer (lastLog viewer [.demo, .fired 0, .demo, .fired 2, .loaded []]) page :=
  ⟨_, rfl, last_log rfl⟩

def Event.isTick : Event ε → Bool
  | .fired _ => true
  | _ => false

theorem lastLog_loaded {log : List ε} {ticks : List (Event ε)} (first : List (Event ε)) (some : log.isEmpty = false)
    (only : ∀ e ∈ ticks, Event.isTick e = true) : lastLog screen (first ++ .loaded log :: ticks) = log := by
  unfold lastLog
  rw [List.foldl_append, List.foldl_cons]
  have start : playedLog screen (first.foldl (playedLog screen) []) (.loaded log) = log := by
    unfold playedLog
    dsimp only
    rw [some, if_neg Bool.false_ne_true]
  rw [start]
  induction ticks with
  | nil => rfl
  | cons e rest ih =>
    have tick := only e List.mem_cons_self
    cases e with
    | fired timer => exact ih fun f member => only f (List.mem_cons_of_mem _ member)
    | _ => cases tick

theorem Phase.fine {final : γ} (phase : Phase screen log page)
    (fine : play screen screen.blank log = .done final) :
    (page.queue = [] ∧ page.drawing = final ∧ page.playing = false ∧ page.timers.pending = []) ∨
      (page.queue ≠ [] ∧ ∃ timer, page.timers.pending = [timer]) ∧ page.hung = false := by
  cases phase with
  | resting drawn queue playing pending _ =>
    rw [drawn] at fine
    cases fine
    exact .inl ⟨queue, rfl, playing, pending⟩
  | waiting _ timer _ some _ _ _ pending alive => exact .inr ⟨⟨some, timer, pending⟩, alive⟩
  | broken played evt split drawn _ _ _ =>
    rw [split, List.append_cons, play_append, drawn] at fine
    cases fine
  | hung played evt split drawn _ =>
    rw [split, List.append_cons, play_append, drawn] at fine
    cases fine

theorem Phase.progress {final : γ} (phase : Phase screen log page)
    (fine : play screen screen.blank log = .done final) :
    ∃ played, log = played ++ page.queue ∧ play screen screen.blank played = .done page.drawing ∧
      page.playing = !page.queue.isEmpty ∧ page.hung = false := by
  cases phase with
  | resting drawn queue playing _ alive =>
    exact ⟨log, by rw [queue, List.append_nil], drawn, by rw [queue, playing]; rfl, alive⟩
  | waiting played _ split more drawn playing _ _ alive =>
    exact ⟨played, split, drawn, by simpa [playing] using more, alive⟩
  | broken played evt split drawn _ _ _ =>
    rw [split, List.append_cons, play_append, drawn] at fine
    cases fine
  | hung played evt split drawn _ =>
    rw [split, List.append_cons, play_append, drawn] at fine
    cases fine

theorem stepPlayback_queue (page : Page γ ε) : (stepPlayback screen page).queue = page.queue.tail := by
  unfold stepPlayback
  cases queued : page.queue with
  | nil => rfl
  | cons evt rest =>
    dsimp only
    cases screen.applyEvent page.drawing evt with
    | hangs => rfl
    | threw drawing => rfl
    | done drawing =>
      dsimp only
      split_ifs <;> rfl

theorem tick_queue {timer : Nat} (phase : Phase screen log page)
    (stepped : step screen page (.fired timer) = some page') : page'.queue.length + 1 = page.queue.length := by
  obtain ⟨member, rfl⟩ := fired_eq stepped
  obtain ⟨_, _, more, _⟩ := phase.fires (alive_of_step stepped) member
  have positive := List.length_pos_of_ne_nil more
  rw [stepPlayback_queue]
  change page.queue.tail.length + 1 = _
  rw [List.length_tail]
  omega

theorem ticks_queue {ticks : List (Event ε)} (phase : Phase screen log page)
    (only : ∀ e ∈ ticks, Event.isTick e = true) (ran : run (step screen) page ticks = some page') :
    Phase screen log page' ∧ page'.queue.length + ticks.length = page.queue.length := by
  induction ticks generalizing page with
  | nil =>
    cases ran
    exact ⟨phase, rfl⟩
  | cons e rest ih =>
    obtain ⟨next, stepped, later⟩ := run_cons_eq ran
    have tick := only e List.mem_cons_self
    cases e with
    | fired timer =>
      obtain ⟨last, count⟩ := ih (step_phase phase stepped) (fun e member => only e (.tail _ member)) later
      have one := tick_queue phase stepped
      refine ⟨last, ?_⟩
      rw [List.length_cons]
      omega
    | demo => cases tick
    | loaded events => cases tick
    | reset => cases tick

/-- Left alone, the page plays the rest of the log that was started last, one event for each timer, and then
rests with the drawing of the whole log. -/
theorem plays_out {events ticks : List (Event ε)} {final : γ}
    (ran : run (step screen) (opened screen) events = some page)
    (fine : play screen screen.blank (lastLog screen events) = .done final)
    (only : ∀ e ∈ ticks, Event.isTick e = true) (ticked : run (step screen) page ticks = some page') :
    page'.queue.length + ticks.length = page.queue.length ∧
      if page'.queue.isEmpty then page'.drawing = final ∧ page'.playing = false ∧ page'.timers.pending = []
      else ∃ timer, (step screen page' (.fired timer)).isSome = true := by
  obtain ⟨phase, count⟩ := ticks_queue (run_phase opened_phase ran) only ticked
  refine ⟨count, ?_⟩
  obtain ⟨none, rests⟩ | ⟨⟨some, timer, pending⟩, alive⟩ := phase.fine fine
  · rw [if_pos (by simp [none])]
    exact rests
  · rw [if_neg (by simpa using some)]
    refine ⟨timer, ?_⟩
    unfold step
    rw [alive, pending]
    simp

/-- The demo, which is cleared once and then left to itself. -/
theorem plays_out_demo : ∃ final page page',
    run (step viewer) (opened viewer) [.demo, .fired 0, .reset, .demo] = some page ∧
    play viewer viewer.blank (lastLog viewer [.demo, .fired 0, .reset, .demo]) = .done final ∧
    run (step viewer) page ((List.range' 2 28).map .fired) = some page' ∧
    page'.queue.length + 28 = page.queue.length ∧
      if page'.queue.isEmpty then page'.drawing = final ∧ page'.playing = false ∧ page'.timers.pending = []
      else ∃ timer, (step viewer page' (.fired timer)).isSome = true :=
  ⟨_, _, _, rfl, rfl, rfl,
    plays_out (show run (step viewer) (opened viewer) [.demo, .fired 0, .reset, .demo] = some _ from rfl) rfl
      (show ∀ e ∈ (List.range' 2 28).map Event.fired, Event.isTick e = true by decide) rfl⟩

end CppCoder.ViewerRuns

import CppCoder.EngineFrames
import CppCoder.GraphAgreement
import CppCoder.Samples
import CppCoder.ViewerReading

/-! From an engine to the page: a run writes its events to a file, the file is loaded, perhaps cut off, and
the page plays it while other things are clicked. -/

namespace CppCoder.ViewerLogs
open Support Utf8 JsonValue Program Machine CppCoder.Types Session ResearchEngine Chronicle EventProtocol
open Viewer GraphAgreement ViewerSession ViewerRuns EventsFile ViewerReading

variable {parser : Parser} {asked : Bytes} {events : List Json} {result : ResearchResult}

theorem tale_agrees (tale : Tale parser asked events result) : ∃ g, replay events = some g ∧ Agrees events g := by
  cases tale with
  | unseeded keywords _ _ => exact unseeded_agrees asked keywords result
  | seeded keywords low seed blocks waiting high _ root chronicled _ =>
    exact log_agrees root chronicled asked keywords result

theorem replay_take {g : Graph} (replayed : replay events = some g) (k : Nat) :
    ∃ g', replay (events.take k) = some g' := by
  unfold replay at replayed
  rw [← List.take_append_drop k events, List.foldlM_append] at replayed
  obtain ⟨g', first, -⟩ := Option.bind_eq_some_iff.1 replayed
  exact ⟨g', first⟩

def turnKinds : List String := ["task_queued", "task_started", "worker_result", "judge_result", "answer_progress"]

theorem turn_kinds (seed : Task) (blocks : List Block) :
    ∀ e ∈ EngineLoop.taskQueued seed :: blocks.flatMap Block.events,
      ∃ kind ∈ turnKinds, ∃ fields, e = event kind fields := by
  intro e member
  obtain rfl | later := List.mem_cons.1 member
  · exact ⟨"task_queued", by decide, _, rfl⟩
  · obtain ⟨b, -, there⟩ := List.mem_flatMap.1 later
    unfold Block.events progressEvents at there
    simp only [List.mem_append, List.mem_cons, List.not_mem_nil, or_false, List.mem_map] at there
    obtain ((rfl | rfl | rfl) | progress) | ⟨t, -, rfl⟩ := there
    · exact ⟨"task_started", by decide, _, rfl⟩
    · exact ⟨"worker_result", by decide, _, rfl⟩
    · exact ⟨"judge_result", by decide, _, rfl⟩
    · split_ifs at progress
      · obtain rfl := List.mem_singleton.1 progress
        exact ⟨"answer_progress", by decide, _, rfl⟩
      · cases progress
    · exact ⟨"task_queued", by decide, _, rfl⟩

theorem tale_split (tale : Tale parser asked events result) : ∃ keywords turns,
    events = openingEvents asked keywords ++ turns ++ answerEvents result ++ [complete result] ∧
      ∀ e ∈ turns, ∃ kind ∈ turnKinds, ∃ fields, e = event kind fields := by
  cases tale with
  | unseeded keywords _ results =>
    have unanswered : ¬ result.answered = true := fun answered => results.answered.1 answered rfl
    refine ⟨keywords, [], ?_, by simp⟩
    rw [answerEvents, if_neg unanswered]
    simp
  | seeded keywords low seed blocks waiting high _ _ _ _ =>
    exact ⟨keywords, _, rfl, turn_kinds seed blocks⟩

structure Reports (asked : Bytes) (events : List Json) (result : ResearchResult) (p : Panels) : Prop where
  question : p.questionText = some asked
  keywords : p.keywordList =
    (events.filter (told "keywords_extracted")).flatMap fun e => (listField "keywords" e).map textOf
  current : p.currentCallout = none
  answer : p.answerCallout = if result.answered = true then some result.answer else none
  areas : p.seenAreas = ((events.filter (told "task_started")).map (stringField "target_area")).foldl addArea []
  active : p.active = none

theorem told_iff (name : String) (e : Json) : told name e = true ↔ eventName e = ascii name := beq_iff_eq

theorem seenAreas_step (p : Panels) (e : Json) : (applyPanels p e).seenAreas =
    if told "task_started" e = true then addArea p.seenAreas (stringField "target_area" e) else p.seenAreas := by
  unfold applyPanels
  dsimp only
  by_cases started : eventName e = ascii "task_started"
  · rw [if_pos ((told_iff _ _).2 started), started, if_neg (by decide), if_neg (by decide), if_neg (by decide),
      if_pos rfl]
  · rw [if_neg fun told => started ((told_iff _ _).1 told), if_neg started]
    split_ifs <;> rfl

theorem seenAreas_foldl (log : List Json) (p : Panels) : (log.foldl applyPanels p).seenAreas =
    ((log.filter (told "task_started")).map (stringField "target_area")).foldl addArea p.seenAreas := by
  induction log generalizing p with
  | nil => rfl
  | cons e rest ih =>
    rw [List.foldl_cons, ih, seenAreas_step, List.filter_cons]
    split_ifs <;> rfl

def headlines (p : Panels) : Option Bytes × List Bytes × Option Bytes :=
  (p.questionText, p.keywordList, p.answerCallout)

theorem applyPanels_event (kind : String) (p : Panels) (fields : List (String × Json)) (member : kind ∈ turnKinds) :
    headlines (applyPanels p (event kind fields)) = headlines p := by
  have apart : ascii kind ≠ ascii "question" ∧ ascii kind ≠ ascii "keywords_extracted" ∧
      ascii kind ≠ ascii "answer_found" := by
    simp only [turnKinds, List.mem_cons, List.not_mem_nil, or_false] at member
    obtain rfl | rfl | rfl | rfl | rfl := member <;> decide
  unfold applyPanels
  dsimp only
  rw [eventName_event, if_neg apart.1, if_neg apart.2.1, if_neg apart.2.2]
  split_ifs <;> rfl

theorem headlines_turns {turns : List Json}
    (kinds : ∀ e ∈ turns, ∃ kind ∈ turnKinds, ∃ fields, e = event kind fields) (p : Panels) :
    headlines (turns.foldl applyPanels p) = headlines p := by
  induction turns generalizing p with
  | nil => rfl
  | cons e rest ih =>
    obtain ⟨kind, member, fields, rfl⟩ := kinds e List.mem_cons_self
    rw [List.foldl_cons, ih fun f member => kinds f (List.mem_cons_of_mem _ member), applyPanels_event _ _ _ member]

theorem turns_told {turns : List Json} (kinds : ∀ e ∈ turns, ∃ kind ∈ turnKinds, ∃ fields, e = event kind fields) :
    turns.filter (told "keywords_extracted") = [] := by
  refine List.filter_eq_nil_iff.2 fun e member => ?_
  obtain ⟨kind, listed, fields, rfl⟩ := kinds e member
  rw [told_event]
  simp only [turnKinds, List.mem_cons, List.not_mem_nil, or_false] at listed
  obtain rfl | rfl | rfl | rfl | rfl := listed <;> decide

theorem texts_of (texts : List Bytes) : (texts.map Json.str).map textOf = texts := by
  rw [List.map_map]
  exact List.map_id texts

theorem ending_panels (result : ResearchResult) (p : Panels) :
    (answerEvents result ++ [complete result]).foldl applyPanels p =
      { p with
        answerCallout := if result.answered = true then some result.answer else p.answerCallout
        currentCallout := none
        active := none } := by
  unfold answerEvents
  split_ifs <;> rfl

theorem tale_reports (tale : Tale parser asked events result) :
    Reports asked events result (events.foldl applyPanels {}) := by
  obtain ⟨keywords, turns, split, kinds⟩ := tale_split tale
  have areas := seenAreas_foldl events {}
  have listed : (events.filter (told "keywords_extracted")).flatMap (fun e => (listField "keywords" e).map textOf) =
      keywords := by
    have answer := List.filter_eq_nil_iff.2 fun e member => by
      simpa using answer_told "keywords_extracted" (by decide) result e member
    have last := List.filter_eq_nil_iff.2 fun e member => by
      simpa using complete_told "keywords_extracted" (by decide) result e member
    rw [split, List.filter_append, List.filter_append, List.filter_append, answer, last, turns_told kinds]
    change (keywords.map Json.str).map textOf ++ [] = keywords
    rw [texts_of, List.append_nil]
  have opened : headlines ((openingEvents asked keywords).foldl applyPanels {}) = (some asked, keywords, none) := by
    change (some asked, (keywords.map Json.str).map textOf, none) = _
    rw [texts_of]
  have turned := headlines_turns kinds ((openingEvents asked keywords).foldl applyPanels {})
  rw [opened, ← List.foldl_append] at turned
  obtain ⟨p, folded⟩ : ∃ p, (openingEvents asked keywords ++ turns).foldl applyPanels {} = p := ⟨_, rfl⟩
  rw [folded] at turned
  obtain ⟨question, keyworded, unanswered⟩ : p.questionText = some asked ∧ p.keywordList = keywords ∧
      p.answerCallout = none := by simpa [headlines] using turned
  have final : events.foldl applyPanels {} = (answerEvents result ++ [complete result]).foldl applyPanels p := by
    rw [split, List.append_assoc, List.foldl_append, folded]
  rw [ending_panels] at final
  rw [final] at areas ⊢
  refine ⟨question, keyworded.trans listed.symm, rfl, ?_, areas, rfl⟩
  dsimp only
  rw [unanswered]

/-! ### From the run to the page -/

theorem agrees_like {g h : Graph} (like : Like g h) (agrees : Agrees events h) : Agrees events g := by
  obtain ⟨raw, rfl, -⟩ := like
  obtain ⟨⟨distinct, root, unentered, incoming, connected⟩, ids, tasks, rejected, answer, explored, queued⟩ := agrees
  exact ⟨⟨distinct, root, unentered, incoming, connected⟩, ids, tasks, rejected, answer, explored, queued⟩

structure Drawn (events : List Json) (k : Nat) (display : Display) : Prop where
  graph : ∃ g, replay (events.take k) = some g ∧ display.graph.nodes = g.nodes ∧ display.graph.edges = g.edges
  panels : display.panels = (events.take k).foldl applyPanels {}

/-- The page between two events, with the events that it has shown of the so many that were read of a log. -/
structure Showing (events : List Json) (m : Nat) (page : Page Display Json) : Prop where
  alive : page.hung = false
  playing : page.playing = !page.queue.isEmpty
  drawn : ∃ k, k + page.queue.length = m ∧ Drawn events k page.drawing

def PlaysOn (page : Page Display Json) : Prop :=
  ∀ ticks page', (∀ e ∈ ticks, Event.isTick e = true) → run (step viewer) page ticks = some page' →
    page'.queue.length + ticks.length = page.queue.length ∧
      (page'.queue ≠ [] → ∃ timer, (step viewer page' (.fired timer)).isSome = true)

theorem same_plays {log : List Json} {m : Nat} {g : Graph} (replayed : replay events = some g)
    (same : Same log (events.take m)) :
    ∃ display g', play viewer viewer.blank log = .done display ∧ replay (events.take m) = some g' ∧
      Like display.graph g' ∧ display.panels = (events.take m).foldl applyPanels {} := by
  obtain ⟨g', first⟩ := replay_take replayed m
  have start : Like {} {} := ⟨[], rfl, .nil⟩
  obtain ⟨graph, played, like⟩ := play_same same start first {}
  exact ⟨_, g', played, first, like, rfl⟩

theorem showing_of_phase {log : List Json} {m : Nat} {g : Graph} {page : Page Display Json}
    (replayed : replay events = some g) (same : Same log (events.take m)) (phase : Phase viewer log page) :
    Showing events log.length page := by
  obtain ⟨display, g', played, -⟩ := same_plays replayed same
  obtain ⟨done, split, drawn, playing, alive⟩ := phase.progress played
  refine ⟨alive, playing, done.length, by rw [split, List.length_append], ?_⟩
  have part : Same done (events.take done.length) := by
    have taken := List.forall₂_take done.length same
    have short : done.length ≤ m := by
      have lengths := same.length_eq
      rw [split, List.length_append, List.length_take] at lengths
      omega
    rwa [split, List.take_left, List.take_take, Nat.min_eq_left short] at taken
  obtain ⟨display, g', again, replayed, like, panels⟩ := same_plays replayed part
  cases again.symm.trans drawn
  obtain ⟨raw, same, -⟩ := like
  exact ⟨⟨g', replayed, by rw [same]; rfl, by rw [same]; rfl⟩, panels⟩

theorem playsOn_of_phase {log : List Json} {display : Display} {page : Page Display Json}
    (fine : play viewer viewer.blank log = .done display) (phase : Phase viewer log page) : PlaysOn page := by
  intro ticks page' only ran
  obtain ⟨later, count⟩ := ticks_queue phase only ran
  refine ⟨count, fun more => ?_⟩
  obtain ⟨none, -⟩ | ⟨⟨-, timer, pending⟩, alive⟩ := later.fine fine
  · exact absurd none more
  · refine ⟨timer, ?_⟩
    unfold step
    rw [alive, pending]
    simp

theorem ends_of_phase {log : List Json} {page : Page Display Json} (tale : Tale parser asked events result)
    (same : Same log events) (phase : Phase viewer log page) (spent : page.queue = []) :
    Agrees events page.drawing.graph ∧ Reports asked events result page.drawing.panels := by
  obtain ⟨g, replayed, agrees⟩ := tale_agrees tale
  have all : Same log (events.take events.length) := by rwa [List.take_length]
  obtain ⟨display, g', played, again, like, panels⟩ := same_plays replayed all
  rw [List.take_length] at again panels
  cases again.symm.trans replayed
  obtain ⟨done, split, drawn, -⟩ := phase.progress played
  rw [spent, List.append_nil] at split
  rw [← split, played] at drawn
  cases drawn
  exact ⟨agrees_like like agrees, panels ▸ tale_reports tale⟩

/-- As long as its log is the one started last, the page shows a run from the file that it wrote, cut off or not:
a prefix of the events that are there whole, which grows to all of them if the page is left alone, and at the end of
the whole file the graph and the report of the run. -/
theorem run_shown {engine : Engine} {env : Environment} {w w' : World} {dump : Json → Bytes} {n : Nat}
    {clicks : List (Event Json)} {page : Page Display Json}
    (returned : research engine env asked { w with events := [] } = .ok result w')
    (each : ∀ e ∈ w'.events, Dumped env.parser dump e)
    (last : lastLog viewer clicks = loaded ((eventsFile dump w'.events).take n))
    (ran : run (step viewer) (opened viewer) clicks = some page) :
    (∃ m ≤ w'.events.length, (eventsFile dump (w'.events.take m)).length ≤ n + 1 ∧
      (∀ j ≤ w'.events.length, (eventsFile dump (w'.events.take j)).length ≤ n → j ≤ m) ∧
      Showing w'.events m page) ∧ PlaysOn page ∧
      ((eventsFile dump w'.events).length ≤ n → page.queue = [] →
        Agrees w'.events page.drawing.graph ∧ Reports asked w'.events result page.drawing.panels) := by
  have tale := (research_tale engine env asked w).ok returned
  obtain ⟨g, replayed, -⟩ := tale_agrees tale
  have emitted := EngineFrames.research_emits engine env asked w
  rw [returned] at emitted
  obtain ⟨m, same, -, bound, most⟩ := file_read each (fun e member => (emitted e member).object) n
  rw [← last] at same
  have phase : Phase viewer (lastLog viewer clicks) page := run_phase opened_phase ran
  have count := same.length_eq
  rw [List.length_take] at count
  obtain ⟨display, -, played, -⟩ := same_plays replayed same
  refine ⟨⟨min m w'.events.length, Nat.min_le_right _ _, ?_, ?_, ?_⟩, playsOn_of_phase played phase,
    fun fits spent => ?_⟩
  · rwa [← List.take_eq_take_min]
  · intro j short fits
    exact Nat.le_min.2 ⟨most j short fits, short⟩
  · rw [← count]
    exact showing_of_phase replayed same phase
  · have all : w'.events.length ≤ m := most _ (Nat.le_refl _) (by rwa [List.take_length])
    rw [List.take_of_length_le all] at same
    exact ends_of_phase tale same phase spent

/-! The model finds something in the first of two files, and answers. Of the file of the run 500 bytes are there;
they are loaded twice. -/

def cacheReply : Bytes := ascii "\x7b\"outcome\": \"success\", \"summary\": \"ici\"\x7d"

def cacheAnswer : Bytes := ascii "dans le tiroir"

def cacheExchanges : List (Bytes × Json) :=
  OllamaClient.exchanges [(cacheReply, .obj [(ascii "outcome", .str (ascii "success")),
    (ascii "summary", .str (ascii "ici"))]), (cacheAnswer, .null)]

/-- A server that is asked for keywords, about two files, for a judgement and for the answer. -/
def helpful (parser : Parser) (before : Nat) : Environment where
  parser
  http n :=
    if n = before + 1 then .response 200 (OllamaClient.responseBody cacheReply)
    else if n = before + 4 then .response 200 (OllamaClient.responseBody cacheAnswer)
    else .failed
  clock _ := 0
  faults _ := .none

def cacheEngine : Engine := ⟨{}, ⟨Support.Paths.ofBytes (ascii "/r"), CodebaseScanner.defaultExtensions⟩, {}⟩

def cacheWorld : World := { disk := { fs := Samples.cached } }

def cacheRun (parser : Parser) : EStateM.Result Exn World ResearchResult :=
  research cacheEngine (helpful parser 0) asking { cacheWorld with events := [] }

def cacheEntries : List (Bytes × Json) :=
  cacheExchanges ++ dumps (finalState (cacheRun (.table cacheExchanges (by decide +kernel)))).events

def cacheParser : Parser := .table cacheEntries (by decide +kernel)

def cacheFile : List Json := loaded ((eventsFile compact (finalState (cacheRun cacheParser)).events).take 500)

def cacheClicks : List (Event Json) :=
  [.demo, .fired 0, .loaded cacheFile, .fired 2] ++ .loaded cacheFile :: [.fired 4, .fired 5]

/-- The run returned with an answer. -/
def answers : EStateM.Result Exn World ResearchResult → Bool
  | .ok result _ => result.answered
  | .error _ _ => false

theorem run_shown_cache : ∃ result w' page, cacheRun cacheParser = .ok result w' ∧ result.answered = true ∧
    run (step viewer) (opened viewer) cacheClicks = some page ∧
    (∃ m ≤ w'.events.length, (eventsFile compact (w'.events.take m)).length ≤ 501 ∧
      (∀ j ≤ w'.events.length, (eventsFile compact (w'.events.take j)).length ≤ 500 → j ≤ m) ∧
      Showing w'.events m page) ∧ PlaysOn page ∧
    ((eventsFile compact w'.events).length ≤ 500 → page.queue = [] →
      Agrees w'.events page.drawing.graph ∧ Reports asking w'.events result page.drawing.panels) := by
  have ended : answers (cacheRun cacheParser) = true ∧
      (finalState (cacheRun cacheParser)).events.all (checked cacheEntries compact) = true ∧
      cacheFile.isEmpty = false ∧ (run (step viewer) (opened viewer) cacheClicks).isSome = true := by
    decide +kernel
  obtain ⟨answered, each, some, played⟩ := ended
  obtain ⟨page, ran⟩ := Option.isSome_iff_exists.1 played
  have last : lastLog viewer cacheClicks = cacheFile := lastLog_loaded _ some (by decide)
  cases finished : cacheRun cacheParser with
  | error e w' =>
    rw [finished] at answered
    cases answered
  | ok result w' =>
    rw [finished] at each answered
    have file : cacheFile = loaded ((eventsFile compact w'.events).take 500) := by
      unfold cacheFile
      rw [finished]
      rfl
    have dumped : ∀ e ∈ w'.events, Dumped cacheParser compact e := by
      intro e member
      exact dumped_of_checked (List.all_eq_true.1 each e member)
    exact ⟨result, w', page, rfl, answered, ran, run_shown finished dumped (last.trans file) ran⟩

end CppCoder.ViewerLogs

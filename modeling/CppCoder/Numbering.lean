import CppCoder.Worker

/-! The numbers that directions are named by: every direction read takes the next one, in any run. -/

namespace CppCoder.Numbering
open Support Utf8 JsonValue Program CppCoder.Types Session OllamaClient JsonUtil Reply Agent

def nameOf (n : Nat) : Bytes := ascii "task-" ++ decimal n

theorem nameOf_injective : Function.Injective nameOf := by
  intro m n same
  exact decimal_injective (List.append_cancel_left same)

theorem ne_nameOf (name : Bytes) (other : name.head? ≠ (ascii "task-").head?) (n : Nat) :
    name ≠ nameOf n := by
  intro same
  apply other
  rw [same]
  rfl

/-- Directions whose numbers increase, from above `low` up to `high`. -/
def Numbered (low high : Nat) (directions : List Task) : Prop :=
  ∃ numbers : List Nat, directions.map Task.id = numbers.map nameOf ∧ numbers.Pairwise (· < ·) ∧
    (∀ n ∈ numbers, low < n ∧ n ≤ high) ∧ low ≤ high

theorem Numbered.none {low high : Nat} (ordered : low ≤ high) : Numbered low high [] :=
  ⟨[], rfl, .nil, by simp, ordered⟩

theorem Numbered.le {low high : Nat} {directions : List Task} (numbered : Numbered low high directions) :
    low ≤ high := by
  obtain ⟨_, _, _, _, ordered⟩ := numbered
  exact ordered

theorem Numbered.append {low middle high : Nat} {first second : List Task} (one : Numbered low middle first)
    (two : Numbered middle high second) : Numbered low high (first ++ second) := by
  obtain ⟨before, named, increasing, bounds, ordered⟩ := one
  obtain ⟨after, further, growing, above, later⟩ := two
  refine ⟨before ++ after, ?_, ?_, ?_, ordered.trans later⟩
  · rw [List.map_append, List.map_append, named, further]
  · refine List.pairwise_append.2 ⟨increasing, growing, ?_⟩
    intro m early n late
    have small := (bounds m early).2
    have large := (above n late).1
    omega
  · intro n member
    rcases List.mem_append.1 member with early | late
    · have bound := bounds n early
      omega
    · have bound := above n late
      omega

theorem Numbered.single {n : Nat} {direction : Task} (named : direction.id = nameOf (n + 1)) :
    Numbered n (n + 1) [direction] := by
  refine ⟨[n + 1], by simp [named], by simp, ?_, by omega⟩
  intro m member
  have same := List.mem_singleton.1 member
  omega

theorem Numbered.skip {low middle high : Nat} {directions : List Task}
    (numbered : Numbered low middle directions)
    (ordered : middle ≤ high) : Numbered low high directions := by
  have more := numbered.append (Numbered.none ordered)
  rwa [List.append_nil] at more

theorem Numbered.nodup {low high : Nat} {directions : List Task} (numbered : Numbered low high directions) :
    (directions.map Task.id).Nodup := by
  obtain ⟨numbers, named, increasing, -, -⟩ := numbered
  rw [named]
  refine List.Nodup.map nameOf_injective (increasing.imp ?_)
  intro m n smaller
  omega

theorem Numbered.names {low high : Nat} {directions : List Task} (numbered : Numbered low high directions) :
    ∀ d ∈ directions, ∃ n, d.id = nameOf n := by
  obtain ⟨numbers, named, -, -, -⟩ := numbered
  intro d member
  have listed : d.id ∈ directions.map Task.id := List.mem_map_of_mem member
  rw [named] at listed
  obtain ⟨n, -, same⟩ := List.mem_map.1 listed
  exact ⟨n, same.symm⟩

def Counted (low : Nat) (p : Parsing Finding) : Prop := Numbered low p.counter p.finding.suggestedDirections

theorem readDirection_counted {low : Nat} (dir : Json) (p : Parsing Finding) (before : Counted low p) :
    Runs (readDirection "task-" Worker.addDirection dir) p (fun _ p' => Counted low p')
      fun _ p' => Counted low p' := by
  have taken : Counted low { p with counter := p.counter + 1 } := before.skip (Nat.le_succ _)
  unfold readDirection
  refine Runs.bind (Runs.modifyGet ?_)
  refine Runs.bind (Runs.orThrow (fun targetArea _ => ?_) fun _ _ => taken)
  refine Runs.bind (Runs.orThrow (fun researchGoal _ => ?_) fun _ _ => taken)
  refine Runs.bind (Runs.orThrow (fun successCriteria _ => ?_) fun _ _ => taken)
  dsimp only
  split_ifs
  · apply Runs.modify
    exact Numbered.append before (Numbered.single rfl)
  · exact Runs.pure taken

theorem readFinding_counted {low : Nat} (parser : Parser) (jsonStr : Bytes) (p : Parsing Finding)
    (before : Counted low p) :
    Runs (Worker.readFinding parser jsonStr) p (fun _ p' => Counted low p') fun _ p' => Counted low p' := by
  unfold Worker.readFinding
  cases parser.parse jsonStr with
  | none => exact Runs.throw before
  | some parsed =>
    refine Runs.bind (Runs.orThrow (fun outcomeStr _ => ?_) fun _ _ => before)
    refine Runs.bind (Runs.modify (Runs.bind (Runs.orThrow (fun summary _ => ?_) fun _ _ => before)))
    refine Runs.bind (Runs.modify (Runs.bind (Runs.orThrow (fun directions _ => ?_) fun _ _ => before)))
    exact Runs.forM_both _ (fun dir _ p now => readDirection_counted dir p now) before

theorem parseWorkerResponse_numbered (parser : Parser) (counter : Nat) (raw area : Bytes) :
    Numbered counter (Worker.parseWorkerResponse parser counter raw area).2
      (Worker.parseWorkerResponse parser counter raw area).1.suggestedDirections := by
  have start : Counted counter ⟨{ areaInvestigated := area }, counter⟩ := Numbered.none le_rfl
  have run := readFinding_counted parser (extractJsonObject raw) ⟨{ areaInvestigated := area },
    counter⟩ start
  unfold Worker.parseWorkerResponse
  dsimp only
  split_ifs
  · exact start
  · cases result : Worker.readFinding parser (extractJsonObject raw) ⟨{ areaInvestigated := area },
      counter⟩ with
    | ok _ p => exact run.ok result
    | error _ p => exact run.error result

/-! ### Executing a task -/

/-- What a finding says about the counter before and after it, kept by an agent's steps. -/
structure Counts {φ : Type} (role : Role φ) (counted : Nat → Nat → φ → Prop) : Prop where
  blank : ∀ n area, counted n n (role.blank area)
  parse : ∀ parser n raw area,
    counted n (role.parseResponse parser n raw area).2 (role.parseResponse parser n raw area).1
  tokens : ∀ low high tokens finding, counted low high finding →
    counted low high (role.setPromptTokens tokens finding)
  duration : ∀ low high time finding, counted low high finding →
    counted low high (role.setDuration time finding)
  merge : ∀ low middle high merged area sub, counted low middle merged → counted middle high sub →
    counted low high (role.mergeSub merged area sub)

section Execution
variable {φ : Type} {role : Role φ} {counted : Nat → Nat → φ → Prop} (counts : Counts role counted)
  {env : Environment} {setup : Setup} {task : Task}

include counts

theorem ask_counted (area : Bytes) (scan : CodebaseScanner.ScanResult) (w : World) :
    Runs (role.ask env setup task area scan) w
      (fun finding w' => counted (w.counters role.counter) (w'.counters role.counter) finding)
          fun _ _ => True := by
  unfold Role.ask
  split_ifs
  · exact Runs.pure (counts.blank _ _)
  · refine Runs.bind (runs_generate (fun _ => ?_) fun _ => trivial)
    cases responseText env.parser (env.http w.calls) with
    | none => exact Runs.pure (counts.blank _ _)
    | some response =>
      apply Runs.modifyGet
      simpa [World.setCounter] using counts.parse env.parser (w.counters role.counter) response area

theorem executeSingleArea_counted (area : Bytes) (w : World) :
    Runs (role.executeSingleArea env setup task area) w
      (fun finding w' => counted (w.counters role.counter) (w'.counters role.counter) finding)
          fun _ _ => True := by
  unfold Role.executeSingleArea
  refine Runs.bind (runs_record (Runs.bind (runs_now (Runs.bind (runs_get (Runs.bind (runs_record
    (Runs.bind ?_))))))))
  refine (ask_counted counts area _ _).weaken fun finding w' found => ?_
  refine Runs.bind (runs_now (Runs.bind (runs_record (Runs.pure ?_))))
  exact counts.duration _ _ _ _ (counts.tokens _ _ _ _ found)

theorem execute_counted (w : World) :
    Runs (role.execute env setup task) w
      (fun finding w' => counted (w.counters role.counter) (w'.counters role.counter) finding)
          fun _ _ => True := by
  unfold Role.execute
  split_ifs
  · exact executeSingleArea_counted counts task.targetArea w
  · refine Runs.bind (runs_now (Runs.bind ?_))
    refine (Runs.foldlM (fun _ merged w' => counted (w.counters role.counter)
      (w'.counters role.counter) merged)
      task.repeatTargets ?_ (counts.blank _ _)).weaken ?_
    · intro _ area _ merged w' _ kept
      refine Runs.bind ((executeSingleArea_counted counts area w').weaken fun sub w'' found => Runs.pure ?_)
      exact counts.merge _ _ _ _ _ _ kept found
    · intro merged w' kept
      exact Runs.bind (runs_now (Runs.pure (counts.duration _ _ _ _ kept)))

end Execution

theorem worker_counts : Counts Worker.role fun low high finding => Numbered low high
    finding.suggestedDirections where
  blank _ _ := Numbered.none le_rfl
  parse := parseWorkerResponse_numbered
  tokens _ _ _ _ numbered := numbered
  duration _ _ _ _ numbered := numbered
  merge low middle high merged area sub one two := by
    change Numbered low high (merged.suggestedDirections ++ _)
    split_ifs
    · exact one.append two
    · exact one.append (Numbered.none two.le)

end CppCoder.Numbering

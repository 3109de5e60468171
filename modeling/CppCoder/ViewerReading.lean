import CppCoder.EventsFile
import CppCoder.ViewerRuns

/-! Events that were written to a file and read again are drawn like those that were written: the page looks
members up by their names and uses no numbers. -/

namespace CppCoder.ViewerReading
open Support Utf8 JsonValue Session Viewer ViewerSession ViewerRuns EventsFile

variable {a b : Json} {xs ys : List Json}

theorem textOf_same (same : a.same b = true) : textOf a = textOf b := by
  cases a <;> cases b <;> simp_all [Json.same, Json.number, textOf]

theorem stringField_eq (key : String) (e : Json) :
    stringField key e = ((e.member key).toOption.join.map textOf).getD [] := by
  unfold stringField
  cases found : e.member key with
  | error error => rfl
  | ok member =>
    cases member with
    | none => rfl
    | some member => cases member <;> rfl

theorem listOf_same (same : a.same b = true) : (∃ items others, a = .arr items ∧ b = .arr others ∧
    Same items others) ∨ (∀ items, a ≠ .arr items) ∧ ∀ items, b ≠ .arr items := by
  cases a with
  | arr items =>
    cases b with
    | arr others =>
      rw [Json.same] at same
      exact .inl ⟨items, others, rfl, rfl, (sameItems_iff items others).1 same⟩
    | _ => simp [Json.same, Json.number] at same
  | _ =>
    right
    cases b <;> simp_all [Json.same, Json.number]

theorem stringField_same (same : a.same b = true) (key : String) : stringField key a = stringField key b := by
  rw [stringField_eq, stringField_eq]
  obtain ⟨one, two⟩ | ⟨found, found', one, two, related⟩ := member_same same key
  · rw [one, two]
  · rw [one, two]
    cases related with
    | none => rfl
    | some alike =>
      change ((some _).map textOf).getD [] = ((some _).map textOf).getD []
      rw [Option.map_some, Option.map_some, textOf_same alike]

theorem listField_same (same : a.same b = true) (key : String) : Same (listField key a) (listField key b) := by
  unfold listField
  obtain ⟨one, two⟩ | ⟨found, found', one, two, related⟩ := member_same same key
  · rw [one, two]
    exact .nil
  · rw [one, two]
    cases related with
    | none => exact .nil
    | some alike =>
      obtain ⟨items, others, rfl, rfl, lists⟩ | ⟨left, right⟩ := listOf_same alike
      · exact lists
      · split
        · rename_i items equal
          exact absurd (Option.some.inj (Except.ok.inj equal)) (left items)
        · split
          · rename_i items equal
            exact absurd (Option.some.inj (Except.ok.inj equal)) (right items)
          · exact .nil

theorem map_same {β : Type} {f : Json → β} (each : ∀ a b : Json, a.same b = true → f a = f b) (same : Same xs ys) :
    xs.map f = ys.map f := by
  induction same with
  | nil => rfl
  | cons one _ ih => rw [List.map_cons, List.map_cons, each _ _ one, ih]

theorem applyPanels_same (same : a.same b = true) (p : Panels) : applyPanels p a = applyPanels p b := by
  unfold applyPanels eventName
  rw [stringField_same same, stringField_same same, stringField_same same, stringField_same same,
    map_same (fun _ _ => textOf_same) (listField_same same "keywords")]

/-! ### The graph -/

def Raw (read written : List (Bytes × List Json)) : Prop :=
  List.Forall₂ (fun x y => x.1 = y.1 ∧ Same x.2 y.2) read written

def withRaw (raw : List (Bytes × List Json)) (g : Graph) : Graph := { g with rawDirectionsByTask := raw }

def Like (g h : Graph) : Prop := ∃ raw, g = withRaw raw h ∧ Raw raw h.rawDirectionsByTask

variable {raw : List (Bytes × List Json)} {g h : Graph}

theorem addNode_withRaw (id parentId : Bytes) (depth : Int) (label : Bytes) (status : Status) :
    addNode (withRaw raw g) id parentId depth label status = withRaw raw (addNode g id parentId depth label status) ∧
      (addNode g id parentId depth label status).rawDirectionsByTask = g.rawDirectionsByTask := by
  unfold addNode
  change (if (find g.nodes id).isSome then _ else _) = withRaw raw (if (find g.nodes id).isSome then _ else _) ∧ _
  split_ifs <;> exact ⟨rfl, rfl⟩

theorem addDiscarded_withRaw (raw : List (Bytes × List Json)) (same : a.same b = true) (id : Bytes) (depth : Int)
    (keptIds : List Bytes) (g : Graph) :
    addDiscarded id depth keptIds (withRaw raw g) a = withRaw raw (addDiscarded id depth keptIds g b) ∧
      (addDiscarded id depth keptIds g b).rawDirectionsByTask = g.rawDirectionsByTask := by
  unfold addDiscarded
  rw [stringField_same same, stringField_same same]
  split_ifs
  · exact ⟨rfl, rfl⟩
  · exact addNode_withRaw _ _ _ _ _

theorem foldl_withRaw (same : Same xs ys) (id : Bytes) (depth : Int) (keptIds : List Bytes) (g : Graph) :
    xs.foldl (addDiscarded id depth keptIds) (withRaw raw g) =
        withRaw raw (ys.foldl (addDiscarded id depth keptIds) g) ∧
      (ys.foldl (addDiscarded id depth keptIds) g).rawDirectionsByTask = g.rawDirectionsByTask := by
  induction same generalizing g with
  | nil => exact ⟨rfl, rfl⟩
  | cons one _ ih =>
    obtain ⟨drawn, kept⟩ := addDiscarded_withRaw raw one id depth keptIds g
    obtain ⟨rest, keeps⟩ := ih (addDiscarded id depth keptIds g _)
    rw [List.foldl_cons, List.foldl_cons, drawn]
    exact ⟨rest, keeps.trans kept⟩

theorem lookup_raw {read written : List (Bytes × List Json)} (raw : Raw read written) (id : Bytes) :
    Same ((read.lookup id).getD []) ((written.lookup id).getD []) := by
  induction raw with
  | nil => exact .nil
  | @cons x y _ _ one _ ih =>
    obtain ⟨key, items⟩ := x
    obtain ⟨key', others⟩ := y
    obtain ⟨rfl, lists⟩ := one
    rw [List.lookup_cons, List.lookup_cons]
    cases id == key with
    | true => exact lists
    | false => exact ih

theorem like_of_eq {g' h' : Graph} (raws : Raw raw h.rawDirectionsByTask)
    (drawn : g' = withRaw raw h' ∧ h'.rawDirectionsByTask = h.rawDirectionsByTask) : Like g' h' :=
  ⟨raw, drawn.1, drawn.2 ▸ raws⟩

theorem judgeResult_same (same : a.same b = true) (raws : Raw raw h.rawDirectionsByTask) :
    Like (Viewer.judgeResult (withRaw raw h) a) (Viewer.judgeResult h b) := by
  unfold Viewer.judgeResult
  dsimp only
  rw [stringField_same same "id", map_same (fun _ _ alike => stringField_same alike "id")
    (listField_same same "kept_directions")]
  exact like_of_eq raws (foldl_withRaw (lookup_raw raws _) _ _ _
    { h with nodes := setStatus h.nodes (stringField "id" b) .explored })

theorem answerProgress_same (same : a.same b = true) (raws : Raw raw h.rawDirectionsByTask) :
    Option.Rel Like (answerProgress (withRaw raw h) a) (answerProgress h b) := by
  have nodes : (withRaw raw h).nodes = h.nodes := rfl
  unfold answerProgress
  dsimp only
  rw [stringField_same same "id", nodes]
  cases find h.nodes (stringField "id" b) with
  | none => exact .some ⟨raw, rfl, raws⟩
  | some n =>
    dsimp only
    cases markParents h.nodes.length (setStatus h.nodes (stringField "id" b) .answer) n with
    | none => exact .none
    | some nodes => exact .some ⟨raw, rfl, raws⟩

theorem applyEvent_same (like : Like g h) (same : a.same b = true) :
    Option.Rel Like (Viewer.applyEvent g a) (Viewer.applyEvent h b) := by
  obtain ⟨raw, rfl, raws⟩ := like
  unfold Viewer.applyEvent eventName
  rw [stringField_same same "event"]
  split_ifs
  · exact .some (like_of_eq raws (addNode_withRaw _ _ _ _ _))
  · refine .some ?_
    unfold Viewer.taskQueued
    dsimp only
    rw [stringField_same same "id", stringField_same same "parent_id", stringField_same same "target_area"]
    exact like_of_eq raws (addNode_withRaw _ _ _ _ _)
  · rw [stringField_same same "id"]
    exact .some ⟨raw, rfl, raws⟩
  · rw [stringField_same same "id"]
    exact .some ⟨_, rfl, .cons ⟨rfl, listField_same same "directions"⟩ raws⟩
  · exact .some (judgeResult_same same raws)
  · exact answerProgress_same same raws
  · exact .some ⟨raw, rfl, raws⟩

theorem viewer_applyEvent {e : Json} {next : Graph} (applied : Viewer.applyEvent g e = some next) (panels : Panels) :
    viewer.applyEvent ⟨g, panels⟩ e = .done ⟨next, applyPanels panels e⟩ := by
  unfold viewer
  dsimp only
  rw [applied]

theorem play_same {log events : List Json} {final : Graph} (same : Same log events) (like : Like g h)
    (replayed : events.foldlM Viewer.applyEvent h = some final) (panels : Panels) :
    ∃ graph, play viewer ⟨g, panels⟩ log = .done ⟨graph, events.foldl applyPanels panels⟩ ∧ Like graph final := by
  induction same generalizing g h panels with
  | nil =>
    cases replayed
    exact ⟨g, rfl, like⟩
  | @cons a b _ _ one _ ih =>
    rw [List.foldlM_cons] at replayed
    obtain ⟨next, applied, rest⟩ := Option.bind_eq_some_iff.1 replayed
    have related := applyEvent_same like one
    rw [applied] at related
    cases drawn : Viewer.applyEvent g a with
    | none =>
      rw [drawn] at related
      cases related
    | some g' =>
      rw [drawn] at related
      cases related with
      | some further =>
        obtain ⟨graph, played, last⟩ := ih further rest (applyPanels panels b)
        refine ⟨graph, ?_, last⟩
        unfold play
        rw [viewer_applyEvent drawn, applyPanels_same one]
        exact played

end CppCoder.ViewerReading

import CppCoder.UnusableReplies

/-! Whether the editor takes away exactly the line that the scanner puts before a file. It recognises the
line by its first eight characters, whatever path stands behind them. -/

namespace CppCoder.HeaderStripping
open Support Utf8 JsonValue Program CppCoder.Types CodebaseScanner JsonUtil Reply Editor ReplyReading
  UnusableReplies

/-! ### One content -/

def marker : Bytes := ascii "// ==== "

def headerLine (p : Bytes) : Bytes := marker ++ p ++ ascii " ===="

def fromFirstLine (content : Bytes) : Bytes := content.dropWhile (· = newline)

def firstLine (content : Bytes) : Bytes := (fromFirstLine content).takeWhile (· ≠ newline)

/-- The scanner's header is taken away, and nothing else ever is. -/
structure Undoes (p content result : Bytes) : Prop where
  header : newline ∉ p → ∀ c, content = header p ++ c → result = c
  other : firstLine content ≠ headerLine p → result = content

/-- The first line has a line break, and it begins as a header does but is not the one for the path. -/
structure Resembles (p content : Bytes) : Prop where
  begins : marker <+: firstLine content
  differs : firstLine content ≠ headerLine p
  ends : newline ∈ fromFirstLine content

theorem marker_plain : newline ∉ marker := by decide

theorem header_eq (p : Bytes) : header p = newline :: (headerLine p ++ [newline]) := by
  unfold header headerLine
  simp only [List.append_assoc]
  rfl

theorem fromFirstLine_header (p c : Bytes) :
    fromFirstLine (header p ++ c) = headerLine p ++ newline :: c := by
  rw [header_eq]
  simp only [List.cons_append, List.append_assoc, List.nil_append]
  unfold fromFirstLine
  rw [List.dropWhile_cons_of_pos (by simp)]
  -- the line begins with a slash
  rfl

theorem headerLine_plain {p : Bytes} (plain : newline ∉ p) : newline ∉ headerLine p := by
  unfold headerLine
  simp only [List.mem_append, not_or]
  exact ⟨⟨marker_plain, plain⟩, by decide⟩

theorem prefix_takeWhile {start text : Bytes} (plain : newline ∉ start) :
    start <+: text.takeWhile (· ≠ newline) ↔ start <+: text := by
  constructor
  · intro begins
    exact begins.trans (List.takeWhile_prefix _)
  · rintro ⟨rest, rfl⟩
    have all : ∀ b ∈ start, decide (b ≠ newline) = true := by
      intro b member
      exact decide_eq_true fun same => plain (same ▸ member)
    rw [List.takeWhile_append_of_pos all]
    exact List.prefix_append _ _

theorem take_marker (text : Bytes) : text.take 8 = ascii "// ==== " ↔ marker <+: text := by
  rw [List.prefix_iff_eq_take]
  exact eq_comm

theorem dropWhile_line {text : Bytes} (broken : newline ∈ text) :
    ∃ rest, text.dropWhile (· ≠ newline) = newline :: rest := by
  induction text with
  | nil => cases broken
  | cons b rest ih =>
    by_cases same : b = newline
    · exact ⟨rest, by rw [List.dropWhile_cons_of_neg (by simp [same]), same]⟩
    · rw [List.dropWhile_cons_of_pos (by simp [same])]
      exact ih ((List.mem_cons.1 broken).resolve_left (Ne.symm same))

theorem strip_resembling {content : Bytes} (begins : marker <+: firstLine content)
    (ends : newline ∈ fromFirstLine content) :
    ∃ rest, (fromFirstLine content).dropWhile (· ≠ newline) = newline :: rest ∧
      stripScannerHeaderMarker content = rest := by
  obtain ⟨rest, line⟩ := dropWhile_line ends
  refine ⟨rest, line, ?_⟩
  have starts : (fromFirstLine content).take 8 = ascii "// ==== " :=
    (take_marker _).2 ((prefix_takeWhile marker_plain).1 begins)
  unfold fromFirstLine at starts line
  unfold stripScannerHeaderMarker
  dsimp only
  rw [if_pos starts, line]

theorem strip_other {content : Bytes}
    (unlike : ¬ (marker <+: firstLine content ∧ newline ∈ fromFirstLine content)) :
    stripScannerHeaderMarker content = content := by
  unfold stripScannerHeaderMarker
  dsimp only
  split_ifs with starts
  · have begins : marker <+: firstLine content :=
      (prefix_takeWhile marker_plain).2 ((take_marker _).1 starts)
    have unbroken : newline ∉ fromFirstLine content := fun ends => unlike ⟨begins, ends⟩
    have none : (fromFirstLine content).dropWhile (· ≠ newline) = [] := by
      rw [List.dropWhile_eq_nil_iff]
      intro b member
      exact decide_eq_true fun same => unbroken (same ▸ member)
    unfold fromFirstLine at none
    rw [none]
  · rfl

theorem strip_header {p : Bytes} (plain : newline ∉ p) (c : Bytes) :
    stripScannerHeaderMarker (header p ++ c) = c := by
  have whole := fromFirstLine_header p c
  have ends : newline ∈ fromFirstLine (header p ++ c) := by simp [whole]
  have line : ∀ b ∈ headerLine p, decide (b ≠ newline) = true := by
    intro b member
    exact decide_eq_true fun same => headerLine_plain plain (same ▸ member)
  have begins : marker <+: firstLine (header p ++ c) := by
    apply (prefix_takeWhile marker_plain).2
    rw [whole]
    unfold headerLine
    simp only [List.append_assoc]
    exact List.prefix_append _ _
  obtain ⟨rest, after, result⟩ := strip_resembling begins ends
  rw [whole, List.dropWhile_append_of_pos line, List.dropWhile_cons_of_neg (by simp)] at after
  rw [result]
  exact (List.cons.inj after).2.symm

theorem strip_undoes (p content : Bytes) :
    Undoes p content (stripScannerHeaderMarker content) ↔ ¬ Resembles p content := by
  constructor
  · intro undoes resembles
    obtain ⟨rest, after, result⟩ := strip_resembling resembles.begins resembles.ends
    have same := undoes.other resembles.differs
    -- a line shorter, the content is another one
    have short : (newline :: rest).length ≤ content.length := by
      rw [← after]
      exact (List.dropWhile_suffix _).length_le.trans (List.dropWhile_suffix _).length_le
    rw [← result, same, List.length_cons] at short
    omega
  · intro unlike
    refine ⟨fun plain c split => ?_, fun differs => ?_⟩
    · rw [split]
      exact strip_header plain c
    · exact strip_other fun both => unlike ⟨both.1, differs, both.2⟩

/-- The edits that are read from a reply before an exception. -/
def editsRead (parser : Parser) (raw : Bytes) : List Json :=
  if extractJsonObject raw = [] then []
  else match parser.parse (extractJsonObject raw) with
    | none => []
    | some parsed =>
        if (textAt "outcome" parsed).isSome ∧ (textAt "summary" parsed).isSome then
          readPart editFields (listAt "edits" parsed)
        else []

theorem parseEditResponse_edits (parser : Parser) (counter : Nat) (raw area : Bytes) :
    (parseEditResponse parser counter raw area).1.edits =
      (editsRead parser raw).filterMap usableEdit := by
  unfold parseEditResponse editsRead
  dsimp only
  split_ifs with span
  · rfl
  · cases parses : parser.parse (extractJsonObject raw) with
    | none =>
      unfold readFinding
      rw [parses]
      rfl
    | some parsed =>
      dsimp only
      split_ifs with readable
      · obtain ⟨outcome, told⟩ := Option.isSome_iff_exists.1 readable.1
        obtain ⟨summary, said⟩ := Option.isSome_iff_exists.1 readable.2
        have run := editor_reads parses told said ⟨{ areaInvestigated := area }, counter⟩
        cases result : readFinding parser (extractJsonObject raw) ⟨{ areaInvestigated := area },
          counter⟩ with
        | ok _ q =>
          change q.finding.edits = _
          rw [(run.ok result).2.rest]
          rfl
        | error _ q =>
          change q.finding.edits = _
          rw [(run.error result).2.rest]
          rfl
      · have run := editor_unread (fun parsed' outcome summary parses' told said => readable (by
          cases parses.symm.trans parses'
          exact ⟨by rw [told]; rfl, by rw [said]; rfl⟩)) ⟨{ areaInvestigated := area }, counter⟩
        cases result : readFinding parser (extractJsonObject raw) ⟨{ areaInvestigated := area },
          counter⟩ with
        | ok _ q => exact (run.ok result).elim
        | error _ q =>
          change q.finding.edits = _
          rw [run.error result]
          rfl

theorem forall₂_filterMap {α β : Type} {f : α → Option β} {related : α → β → Prop}
    (each : ∀ a b, f a = some b → related a b) (items : List α) :
    List.Forall₂ related (items.filter fun a => (f a).isSome) (items.filterMap f) := by
  induction items with
  | nil => exact .nil
  | cons a rest ih =>
    cases found : f a with
    | none =>
      rw [List.filter_cons_of_neg (by simp [found]), List.filterMap_cons_none found]
      exact ih
    | some b =>
      rw [List.filter_cons_of_pos (by simp [found]), List.filterMap_cons_some found]
      exact .cons (each a b found) ih

/-- In every reply, of each edit that is read and names a path: its content is the one given, without the
scanner's header for the path if it starts with that, exactly when it does not resemble a header. -/
theorem parseEditResponse_undoes (parser : Parser) (counter : Nat) (raw area : Bytes) :
    List.Forall₂ (fun e edit => ∃ content, textAt "path" e = some edit.path ∧
        textAt "new_content" e = some content ∧
        (Undoes edit.path content edit.newContent ↔ ¬ Resembles edit.path content))
      ((editsRead parser raw).filter fun e => (usableEdit e).isSome)
      (parseEditResponse parser counter raw area).1.edits := by
  rw [parseEditResponse_edits]
  apply forall₂_filterMap
  intro e edit used
  have whole : editFields e = some edit := (Option.filter_eq_some_iff.1 used).1
  unfold editFields at whole
  simp only [Option.bind_eq_bind, Option.bind_eq_some_iff, Option.pure_def, Option.some.injEq] at whole
  obtain ⟨path, named, content, given, description, described, rfl⟩ := whole
  exact ⟨content, named, given, strip_undoes path content⟩

def bannerReply : Bytes :=
  ascii "\x7b\"outcome\":\"success\",\"edits\":[\x7b\"path\":\"util.cpp\"," ++
  ascii "\"new_content\":\"// ==== Utilities ====\\nint x;\\n\"\x7d]\x7d"

def banner : Bytes := ascii "// ==== Utilities ====\nint x;\n"

def bannerParsed : Json :=
  .obj [(ascii "outcome", .str (ascii "success")),
    (ascii "edits", .arr [.obj [(ascii "path", .str (ascii "util.cpp")), (ascii "new_content", .str banner)]])]

def bannerParser : Parser := .table [(bannerReply, bannerParsed)] (by decide +kernel)

/-- The banner is lost. -/
theorem banner_stripped :
    (parseEditResponse bannerParser 0 bannerReply (ascii "util.cpp")).1.edits =
      [⟨ascii "util.cpp", ascii "int x;\n", []⟩] ∧
    firstLine banner ≠ headerLine (ascii "util.cpp") ∧
    ¬ Undoes (ascii "util.cpp") banner (ascii "int x;\n") := by
  refine ⟨by decide +kernel, by decide +kernel, fun undoes => ?_⟩
  have same := undoes.other (by decide +kernel)
  revert same
  decide +kernel

end CppCoder.HeaderStripping

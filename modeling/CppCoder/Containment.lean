import CppCoder.PatchApplier
import CppCoder.Support.Program
import CppCoder.Samples

/-! Where applied edits may write. A path that exists in full is resolved by the check exactly as
it is used. Of a path that does not, the check resolves only the leading part that exists; the
rest is collapsed on paper there, but walked for real when directories are made and the file is
opened. -/

namespace CppCoder.Containment
open Support Utf8 Paths Support.Tree Disk FileSystem Program CppCoder.Types PatchApplier

variable {fs fs' : FileSystem} {root : Path} {base : Loc}

theorem isPathSafe_ok {p : Path} {inside : Bool} (ok : isPathSafe root fs p = .ok inside) :
    ∃ top form, fs.weaklyCanonical root = .ok top ∧ fs.weaklyCanonical p = .ok form ∧
      top.elements.isPrefixOf form.elements = inside := by
  unfold isPathSafe at ok
  cases atRoot : fs.weaklyCanonical root with
  | error e => simp [atRoot] at ok
  | ok top =>
    cases atPath : fs.weaklyCanonical p with
    | error e => simp [atRoot, atPath] at ok
    | ok form =>
      simp only [atRoot, atPath] at ok
      exact ⟨top, form, rfl, rfl, Except.ok.inj ok⟩

theorem safe_resolved (rooted : Rooted fs root base) {p : Path} {loc : Loc} (found : fs.resolve p = .ok loc)
    (safe : isPathSafe root fs p = .ok true) : base <:+ loc := by
  have canonical : fs.canonicalForm p = .ok loc.toPath := by
    simp only [canonicalForm, found]
  obtain ⟨top, form, atRoot, atPath, within⟩ := isPathSafe_ok safe
  obtain rfl := Except.ok.inj (rooted.canonicalForm_root.symm.trans (weaklyCanonical_ok atRoot))
  obtain rfl := Except.ok.inj (canonical.symm.trans (weaklyCanonical_ok atPath))
  rw [List.isPrefixOf_iff_prefix, elements_toPath, elements_toPath, List.prefix_cons_inj] at within
  have injective : Function.Injective Name.bytes := by
    rintro ⟨x, _⟩ ⟨y, _⟩ rfl
    rfl
  exact List.reverse_prefix.1 ((List.prefix_map_iff_of_injective injective).1 within)

/-! ### The part that does not exist -/

/-- From a directory on, the components lead the walk, the directories it has to make and the file
it opens to places under `base` only: links are followed and parents are the real ones. -/
def Stays (base : Loc) (opens : Bool) : FileSystem → Refusal → Nat → Loc → List Part → Prop
  | _, _, _, _, [] => True
  | fs, refusal, links, place, part :: rest =>
      if rest = [] then
        opens = true → ∀ target, fs.openFrom links place [part] = .ok target → base <:+ target
      else match part with
        | .name n =>
            n.bytes.length ≤ fs.nameMax →
              match fs.kind (n :: place) with
              | none => refusal.now = none → base <:+ n :: place ∧
                  Stays base opens (fs.mkdir (n :: place)) refusal.later links (n :: place) rest
              | some _ => ∀ next left, fs.walk links place [.name n] = .ok (next, left) →
                  fs.kind next = some .dir → Stays base opens fs refusal left next rest
        | .dotdot => Stays base opens fs refusal links place.tail rest
        | _ => Stays base opens fs refusal links place rest

theorem open_elsewhere {links : Nat} {place target : Loc} {last : Part}
    (elsewhere : fs.kind place ≠ some .dir) : fs.openFrom links place [last] ≠ .ok target := by
  intro opened
  cases result : fs.step place last with
  | error e =>
    obtain ⟨n, -, -, -, here, -⟩ := open_missing result opened
    exact elsewhere here
  | ok turn =>
    rcases step_dir result with here | ⟨locked, rfl, rfl⟩
    · exact elsewhere here
    · rw [open_onward result, if_pos rfl] at opened
      exact (openPlace_ok opened).2 (.inr locked)

/-- `Stays` speaks of the places that `makeBelow` creates and of the one opened after it. -/
theorem stays_iff {opens : Bool} {refusal : Refusal} {links : Nat} {place : Loc}
    (here : fs.kind place = some .dir) (middle : List Part) (last : Part) :
    Stays base opens fs refusal links place (middle ++ [last]) ↔
      (∀ loc ∈ (fs.makeBelow refusal links place middle).created, base <:+ loc) ∧
      ∀ up left target, (fs.makeBelow refusal links place middle).ended = .ok (up, left) → opens = true →
        (fs.makeBelow refusal links place middle).fs.openFrom left up [last] = .ok target →
          base <:+ target := by
  induction middle generalizing fs refusal links place with
  | nil =>
    simp only [List.nil_append, Stays, makeBelow, List.not_mem_nil, false_imp_iff, implies_true,
      true_and, if_true, Except.ok.injEq, Prod.mk.injEq]
    constructor
    · rintro stays up left target ⟨rfl, rfl⟩ willOpen opened
      exact stays willOpen target opened
    · intro all willOpen target opened
      exact all place links target ⟨rfl, rfl⟩ willOpen opened
  | cons part rest ih =>
    have more : rest ++ [last] ≠ [] := by simp
    rw [List.cons_append]
    simp only [Stays, if_neg more]
    cases part with
    | dot => exact ih here
    | trailing => exact ih here
    | dotdot => exact ih (kind_tail here)
    | name n =>
      simp only []
      by_cases long : fs.nameMax < n.bytes.length
      · simp only [makeBelow, if_pos long]
        exact ⟨fun _ => by simp, fun _ short => absurd long (Nat.not_lt.2 short)⟩
      rw [imp_iff_right (Nat.le_of_not_lt long)]
      cases found : fs.kind (n :: place) with
      | none =>
        simp only [makeBelow, if_neg long, found]
        cases refused : refusal.now with
        | some e => simp
        | none =>
          have made : (fs.mkdir (n :: place)).kind (n :: place) = some .dir := by
            rw [kind_mkdir here found, if_pos rfl]
          simp only [ih made, List.forall_mem_cons, and_assoc, true_imp_iff]
      | some what =>
        simp only []
        cases walked : fs.walk links place [.name n] with
        | error e => simp [makeBelow, long, found, walked]
        | ok reached =>
          obtain ⟨next, left⟩ := reached
          have only : (∀ next' left', (Except.ok (next, left) : Except Errno (Loc × Nat)) =
              .ok (next', left') → fs.kind next' = some .dir →
                Stays base opens fs refusal left' next' (rest ++ [last])) ↔
              (fs.kind next = some .dir → Stays base opens fs refusal left next (rest ++ [last])) :=
            ⟨fun all => all next left rfl, fun one _ _ same => by cases same; exact one⟩
          rw [only]
          obtain ⟨directory, same⟩ | ⟨other, ended, same, ends⟩ :=
            makeBelow_taken refusal rest long (by simp [found]) walked
          · rw [same, imp_iff_right directory]
            exact ih directory
          · rw [same, iff_true_left fun directory => absurd directory other]
            refine ⟨by simp, fun up left' target finished _ opened => ?_⟩
            rw [ends up left' finished] at opened
            exact absurd opened (open_elsewhere other)

def TailInside (base : Loc) (opens : Bool) (refusal : Refusal) (fs : FileSystem) (p : Path) : Prop :=
  let reached := fs.existingPrefix linkMax (fs.start p) p.used
  fs.kind reached.place = some .dir → fs.missing p.parent ≤ missingMax →
    Stays base opens fs refusal reached.links reached.place reached.rest

/-- The condition on one edit: if the check accepts it, the rest of its path stays inside. -/
def EditInside (root : Path) (base : Loc) (fs : FileSystem) (fault : Fault) (edit : ProposedEdit) : Prop :=
  edit.path ≠ [] → (ofBytes edit.path).absolute = false →
    isPathSafe root fs (join root (ofBytes edit.path)) = .ok true →
      TailInside base (decide (fault ≠ .opening)) fault.refusal fs (join root (ofBytes edit.path))

theorem mem_writeResolved_touched {fault : Fault} {created : List Loc} {resolved : Path}
    {edit : ProposedEdit} (loc : Loc) :
    loc ∈ (writeResolved fault fs created resolved edit).touched ↔
      loc ∈ created ∨ (fault ≠ .opening ∧ fs.openForWriting resolved = .ok loc) := by
  unfold writeResolved
  split_ifs with refused
  · simp [refused]
  · cases opened : fs.openForWriting resolved with
    | error e => simp
    | ok target => simp [refused, eq_comm]

theorem createDirectories_existing (refusal : Refusal) {p : Path} {place : Loc} {links : Nat}
    (asks : fs.ask p = .ok p.parts) (walked : fs.walk linkMax (fs.start p) p.parts = .ok (place, links)) :
    ∃ ended, fs.createDirectories refusal p = ⟨fs, [], ended⟩ ∧
      (fs.kind place = some .dir → ended = .ok (place, links)) ∧
        (ended = .ok (place, links) ∨ ∃ e, ended = .error e) := by
  unfold createDirectories
  rw [asks]
  simp only [existingPrefix_whole walked]
  refine ⟨_, rfl, fun here => ?_, ?_⟩
  · rw [here]
  · split
    · exact .inl rfl
    · exact .inl rfl
    · exact .inr ⟨_, rfl⟩

theorem createDirectories_stuck (refusal : Refusal) {p : Path} {place : Loc} {links : Nat}
    {done rest : List Part} {part : Part} {e : Errno} (asks : fs.ask p = .ok p.parts)
    (split : p.parts = done ++ part :: rest)
    (walked : fs.walk linkMax (fs.start p) done = .ok (place, links))
    (stuck : fs.walk links place [part] = .error e) :
    (∃ e', fs.createDirectories refusal p = ⟨fs, [], .error e'⟩ ∧
      (fs.kind place = some .dir → fs.missing p ≤ missingMax →
        ∃ e'', fs.makeBelow refusal links place (part :: rest) = ⟨fs, [], .error e''⟩)) ∨
    fs.kind place = some .dir ∧ fs.missing p ≤ missingMax ∧
      fs.createDirectories refusal p = fs.makeBelow refusal links place (part :: rest) := by
  have reached : fs.existingPrefix linkMax (fs.start p) p.parts = ⟨links, place, part :: rest⟩ := by
    rw [split, existingPrefix_append _ walked]
    simp only [existingPrefix, stuck]
  unfold createDirectories
  rw [asks]
  simp only [reached, stuck]
  split_ifs with known many here
  · exact .inl ⟨_, rfl, fun _ few => absurd many (Nat.not_lt.2 few)⟩
  · exact .inr ⟨here, Nat.not_lt.1 many, rfl⟩
  · exact .inl ⟨e, rfl, fun directory => absurd directory here⟩
  · refine .inl ⟨e, rfl, fun here _ => ?_⟩
    cases part with
    | dot => simp [walk_place (show fs.step place .dot = _ by simp only [step, here]; rfl)] at stuck
    | trailing =>
      simp [walk_place (show fs.step place .trailing = _ by simp only [step, here]; rfl)] at stuck
    | dotdot => simp [walk_place (show fs.step place .dotdot = _ by simp only [step, here]; rfl)] at stuck
    | name n =>
      simp only [makeBelow]
      by_cases long : fs.nameMax < n.bytes.length
      · exact ⟨_, if_pos long⟩
      · rw [if_neg long]
        cases found : fs.kind (n :: place) with
        | none =>
          have missing : fs.step place (.name n) = .error .noEntry := by
            rw [step_name here, if_neg long, found]
          rw [walk_failed missing] at stuck
          exact absurd (.inl (Except.error.inj stuck).symm) known
        | some what =>
          simp only [stuck]
          exact ⟨_, rfl⟩

/-- Making directories comes to making those below the last place that exists, or nothing is made: if no
directory is there, or too many are missing. -/
theorem createDirectories_at (refusal : Refusal) {p : Path} {place : Loc} {links : Nat}
    {done middle : List Part} (asks : fs.ask p = .ok p.parts) (split : p.parts = done ++ middle)
    (walked : fs.walk linkMax (fs.start p) done = .ok (place, links))
    (stuck : ∀ part rest, middle = part :: rest → ∃ e, fs.walk links place [part] = .error e) {made : Made}
    (making : fs.createDirectories refusal p = made) :
    (fs.kind place = some .dir ∧ fs.missing p ≤ missingMax →
      made = fs.makeBelow refusal links place middle ∨ (∃ e, made = ⟨fs, [], .error e⟩) ∧
        ∃ e, fs.makeBelow refusal links place middle = ⟨fs, [], .error e⟩) ∧
    (¬ (fs.kind place = some .dir ∧ fs.missing p ≤ missingMax) → made.fs = fs ∧ made.created = [] ∧
      ∀ up left, made.ended = .ok (up, left) →
        middle = [] ∧ up = place ∧ left = links ∧ fs.kind place ≠ some .dir) := by
  subst making
  cases middle with
  | nil =>
    rw [List.append_nil] at split
    rw [← split] at walked
    obtain ⟨ended, same, returns, ends⟩ := createDirectories_existing refusal asks walked
    have none : fs.missing p = 0 := by simp only [missing, existingPrefix_whole walked]
    rw [same, none]
    refine ⟨fun ⟨here, _⟩ => .inl ?_, fun other => ⟨rfl, rfl, fun up left finished => ?_⟩⟩
    · rw [returns here]
      rfl
    · obtain rfl | ⟨e, rfl⟩ := ends
      · cases finished
        exact ⟨rfl, rfl, rfl, fun here => other ⟨here, Nat.zero_le _⟩⟩
      · cases finished
  | cons part rest =>
    obtain ⟨e, failed⟩ := stuck part rest rfl
    obtain ⟨e', stopped, below⟩ | ⟨here, few, same⟩ :=
      createDirectories_stuck refusal asks split walked failed
    · rw [stopped]
      exact ⟨fun ⟨here, few⟩ => .inr ⟨⟨e', rfl⟩, below here few⟩, fun _ => ⟨rfl, rfl, nofun⟩⟩
    · exact ⟨fun _ => .inl same, fun other => absurd ⟨here, few⟩ other⟩

theorem open_used {p : Path} {init : List Part} {last : Part} {up : Loc} {links : Nat}
    (asks : fs.ask p = .ok p.parts) (split : p.used = init ++ [last])
    (walked : fs.walk linkMax (fs.start p) init = .ok (up, links)) (directory : fs.Directory up)
    (target : Loc) : fs.openForWriting p = .ok target ↔ fs.openFrom links up [last] = .ok target := by
  unfold openForWriting
  rw [asks]
  simp only []
  unfold Path.used at split
  split_ifs at split with cut
  · obtain ⟨rfl, ends⟩ := List.append_inj' split rfl
    cases ends
    refine iff_of_false (fun opened => ?_) fun opened => ?_
    · obtain rfl := open_resolved walked opened
      obtain ⟨n, above, rfl, parent, absent | takes⟩ := open_place opened
      · rcases directory with here | here <;> simp [absent] at here
      · exact takes.not_directory directory
    · have went : fs.step up .trailing = .ok (.place up) := by
        rcases directory with here | here <;> simp only [step, here]
      rw [open_onward went, if_pos rfl] at opened
      exact (openPlace_ok opened).2 directory
  · rw [split, open_append _ _ _ (List.cons_ne_nil _ _), walked]

theorem resolve_used {p : Path} {reached : Loc × Nat} (asks : fs.ask p = .ok p.parts)
    (walked : fs.walk linkMax (fs.start p) p.used = .ok reached) : ∃ loc, fs.resolve p = .ok loc := by
  have some : ∃ there, fs.walk linkMax (fs.start p) p.parts = .ok there := by
    unfold Path.used at walked
    split_ifs at walked with cut
    · rw [walk_append] at walked
      cases found : fs.walk linkMax (fs.start p) p.parts with
      | error e => simp [found] at walked
      | ok there => exact ⟨there, rfl⟩
    · exact ⟨reached, walked⟩
  obtain ⟨there, found⟩ := some
  refine ⟨there.1, ?_⟩
  unfold resolve
  rw [asks]
  simp only [found, Except.map]

/-- A path that exists is opened where the check has seen it lead. -/
theorem open_whole (rooted : Rooted fs root base) {p : Path} (refusal : Refusal) (asks : fs.ask p = .ok p.parts)
    (asksParent : fs.ask p.parent = .ok p.parent.parts) (starts : fs.start p.parent = fs.start p)
    (safe : isPathSafe root fs p = .ok true) {reached : Loc × Nat}
    (walked : fs.walk linkMax (fs.start p) p.used = .ok reached) :
    (fs.createDirectories refusal p.parent).created = [] ∧
      ∀ target, (fs.createDirectories refusal p.parent).fs.openForWriting p = .ok target → base <:+ target := by
  obtain ⟨tail, split⟩ : p.parent.parts <+: p.used := parts_parent p ▸ List.dropLast_prefix _
  have above := walked
  rw [← split, walk_append] at above
  cases parent : fs.walk linkMax (fs.start p) p.parent.parts with
  | error e => simp [parent] at above
  | ok reached =>
    obtain ⟨ended, same, -⟩ := createDirectories_existing refusal asksParent (starts ▸ parent)
    rw [same]
    refine ⟨rfl, fun target opened => ?_⟩
    obtain ⟨loc, found⟩ := resolve_used asks walked
    obtain ⟨left, leads⟩ := (resolve_ok found).2
    rw [open_resolved leads (openForWriting_ok opened).2]
    exact safe_resolved rooted found safe

/-- For an accepted path, the places that making directories and opening the file may touch are
under the root exactly when the rest of the path stays inside. -/
theorem tail_iff (rooted : Rooted fs root base) {p : Path} (opens : Bool) (refusal : Refusal)
    (asks : fs.ask p = .ok p.parts) (asksParent : fs.ask p.parent = .ok p.parent.parts)
    (starts : fs.start p.parent = fs.start p) (safe : isPathSafe root fs p = .ok true) {made : Made}
    (making : fs.createDirectories refusal p.parent = made) :
    ((∀ loc ∈ made.created, base <:+ loc) ∧ ∀ up left target, made.ended = .ok (up, left) → opens = true →
      made.fs.openForWriting p = .ok target → base <:+ target) ↔ TailInside base opens refusal fs p := by
  obtain ⟨grows, -, -, leads⟩ := createDirectories_sound making
  have upper := parts_parent p
  -- once the directories are there, the file is opened behind them
  have opening : ∀ {init last up left}, p.used = init ++ [last] → made.ended = .ok (up, left) →
      ∀ target, made.fs.openForWriting p = .ok target ↔ made.fs.openFrom left up [last] = .ok target := by
    intro init last up left split ended target
    obtain ⟨directory, walked⟩ := leads up left ended
    rw [upper, split, List.dropLast_concat, starts] at walked
    exact open_used ((grows.ask p).trans asks) split (grows.start p ▸ walked) directory target
  obtain ⟨done, whole, walked, stuck⟩ := @existingPrefix_spec fs linkMax (fs.start p) p.used
  unfold TailInside
  cases stop : fs.existingPrefix linkMax (fs.start p) p.used with
  | mk links place rest =>
  rw [stop] at whole walked stuck
  simp only [] at whole walked stuck ⊢
  rcases List.eq_nil_or_concat' rest with rfl | ⟨middle, last, rfl⟩
  · rw [List.append_nil] at whole
    rw [← whole] at walked
    obtain ⟨none, inside⟩ := open_whole rooted refusal asks asksParent starts safe walked
    rw [making] at none inside
    simp only [Stays, implies_true, iff_true]
    exact ⟨by simp [none], fun _ _ target _ _ opened => inside target opened⟩
  · have parts : p.parent.parts = done ++ middle := by
      rw [upper, whole, ← List.append_assoc, List.dropLast_concat]
    have split : p.used = (done ++ middle) ++ [last] := by rw [whole, List.append_assoc]
    obtain ⟨below, nothing⟩ := createDirectories_at refusal asksParent parts (starts ▸ walked)
      (fun part more same => stuck part (more ++ [last]) (by rw [same]; rfl)) making
    rw [← and_imp]
    by_cases makes : fs.kind place = some .dir ∧ fs.missing p.parent ≤ missingMax
    · rw [imp_iff_right makes, stays_iff makes.1]
      rcases below makes with same | ⟨⟨e, failed⟩, e', failed'⟩
      · rw [← same]
        refine and_congr_right fun _ => forall_congr' fun up => forall_congr' fun left =>
          forall_congr' fun target => imp_congr_right fun ended => ?_
        rw [opening split ended]
      · rw [failed, failed']
        simp
    · rw [iff_true_right fun both => absurd both makes]
      obtain ⟨same, none, ends⟩ := nothing makes
      refine ⟨by simp [none], fun up left target finished _ opened => ?_⟩
      obtain ⟨-, rfl, rfl, elsewhere⟩ := ends up left finished
      rw [opening split finished, same] at opened
      exact absurd opened (open_elsewhere elsewhere)

structure Placed (fs : FileSystem) (p : Path) : Prop where
  asks : fs.ask p = .ok p.parts
  asksParent : fs.ask p.parent = .ok p.parent.parts
  starts : fs.start p.parent = fs.start p
  inhabited : p.parent.isEmpty = false

theorem placed (rooted : Rooted fs root base) {added : Path} (relative : added.absolute = false)
    (safe : isPathSafe root fs (join root added) = .ok true) : Placed fs (join root added) := by
  obtain ⟨front, asked, -⟩ := asked_join relative rooted.nonempty rooted.plain
  have some : (join root added).asked ≠ [] := by simp [asked]
  have short : ¬ fs.pathMax ≤ (join root added).asked.length := by
    intro long
    have failed : fs.resolve (join root added) = .error .nameTooLong := by
      simp only [resolve, ask, if_neg some, if_pos long]
    obtain ⟨top, form, -, atPath, -⟩ := isPathSafe_ok safe
    simpa [canonicalForm, failed] using weaklyCanonical_ok atPath
  have below : slash ∈ (join root added).text := by
    have member : slash ∈ (join root added).asked := by simp [asked]
    exact (List.takeWhile_prefix _).subset member
  -- the parent begins with the same byte, which is no null byte
  obtain ⟨b, rest, first⟩ := List.exists_cons_of_ne_nil (parent_nonempty below)
  have upper : (join root added).parent.asked ≠ [] := by
    obtain ⟨more, text⟩ := parent_prefix (join root added)
    intro empty
    unfold Path.asked at some empty
    rw [← text, first] at some
    rw [first] at empty
    by_cases cut : b = null <;> simp [cut] at some empty
  have shorter := (asked_parent (join root added)).length_le
  refine ⟨?_, ?_, ?_, ?_⟩
  · simp only [ask, if_neg some, if_neg short]
  · have fits : ¬ fs.pathMax ≤ (join root added).parent.asked.length := by omega
    simp only [ask, if_neg upper, if_neg fits]
  · simp only [start, absolute_parent below]
  · simp [Path.isEmpty, first]

theorem applyEdit_accepted (rooted : Rooted fs root base) {fault : Fault} {edit : ProposedEdit}
    {applied : Applied} (nonempty : edit.path ≠ [])
    (relative : (ofBytes edit.path).absolute = false)
    (safe : isPathSafe root fs (join root (ofBytes edit.path)) = .ok true)
    (result : applyEdit root fault fs edit = .ok applied) :
    ∃ made, fs.createDirectories fault.refusal (join root (ofBytes edit.path)).parent = made ∧
      ((∃ e, made.ended = .error e ∧ applied.fs = made.fs ∧ applied.touched = made.created ∧
          applied.report = .failed (edit.path ++ ascii ": " ++ message e)) ∨
        ∃ up left, made.ended = .ok (up, left) ∧
          applied = writeResolved fault made.fs made.created (join root (ofBytes edit.path)) edit) := by
  refine ⟨_, rfl, ?_⟩
  simp only [applyEdit, if_neg nonempty, relative, safe, (placed rooted relative safe).inhabited,
    Bool.false_eq_true, if_false] at result
  cases ended : (fs.createDirectories fault.refusal (join root (ofBytes edit.path)).parent).ended with
  | error e =>
    rw [ended] at result
    cases result
    exact .inl ⟨e, rfl, rfl, rfl, rfl⟩
  | ok reached =>
    rw [ended] at result
    cases result
    exact .inr ⟨reached.1, reached.2, rfl, rfl⟩

theorem applyEdit_refused {fault : Fault} {edit : ProposedEdit} {applied : Applied}
    (refused : ¬(edit.path ≠ [] ∧ (ofBytes edit.path).absolute = false ∧
      isPathSafe root fs (join root (ofBytes edit.path)) = .ok true))
    (result : applyEdit root fault fs edit = .ok applied) :
    applied = ⟨fs, [], .rejected edit.path⟩ := by
  simp only [applyEdit] at result
  by_cases empty : edit.path = []
  · rw [if_pos empty] at result
    exact (Except.ok.inj result).symm
  by_cases absolute : (ofBytes edit.path).absolute = true
  · rw [if_neg empty, if_pos absolute] at result
    exact (Except.ok.inj result).symm
  · rw [if_neg empty, if_neg absolute] at result
    cases safe : isPathSafe root fs (join root (ofBytes edit.path)) with
    | error e => simp [safe] at result
    | ok accepted =>
      cases accepted with
      | true => exact absurd ⟨empty, by simpa using absolute, safe⟩ refused
      | false =>
        rw [safe] at result
        exact (Except.ok.inj result).symm

theorem applyEdit_throws {fault : Fault} {edit : ProposedEdit} {e : Errno}
    (result : applyEdit root fault fs edit = .error e) :
    isPathSafe root fs (join root (ofBytes edit.path)) = .error e := by
  simp only [applyEdit] at result
  by_cases empty : edit.path = []
  · simp [empty] at result
  by_cases absolute : (ofBytes edit.path).absolute = true
  · simp [empty, absolute] at result
  rw [if_neg empty, if_neg absolute] at result
  cases safe : isPathSafe root fs (join root (ofBytes edit.path)) with
  | error e' => simpa only [safe, Except.error.injEq] using result
  | ok accepted =>
    cases accepted with
    | false => simp [safe] at result
    | true =>
      simp only [safe] at result
      split_ifs at result with top
      · cases ended : (fs.createDirectories fault.refusal (join root (ofBytes edit.path)).parent).ended <;>
          simp [ended] at result

theorem applyEdit_inside (rooted : Rooted fs root base) {fault : Fault} {edit : ProposedEdit}
    {applied : Applied} (result : applyEdit root fault fs edit = .ok applied) :
    (∀ loc ∈ applied.touched, base <:+ loc) ↔ EditInside root base fs fault edit := by
  by_cases accepted : edit.path ≠ [] ∧ (ofBytes edit.path).absolute = false ∧
      isPathSafe root fs (join root (ofBytes edit.path)) = .ok true
  · obtain ⟨nonempty, relative, safe⟩ := accepted
    obtain ⟨made, making, ending⟩ := applyEdit_accepted rooted nonempty relative safe result
    obtain ⟨asks, asksParent, starts, -⟩ := placed rooted relative safe
    unfold EditInside
    rw [imp_iff_right nonempty, imp_iff_right relative, imp_iff_right safe,
      ← tail_iff rooted _ _ asks asksParent starts safe making]
    rcases ending with ⟨e, ended, -, touched, -⟩ | ⟨up, left, ended, rfl⟩
    · simp [ended, touched]
    · simp only [mem_writeResolved_touched, ended, or_imp, forall_and, Except.ok.injEq, Prod.mk.injEq,
        decide_eq_true_eq, and_imp]
      exact and_congr_right fun _ =>
        ⟨fun all _ _ target _ _ => all target, fun all target => all up left target rfl rfl⟩
  · rw [applyEdit_refused accepted result]
    constructor
    · intro _ nonempty relative safe
      exact absurd ⟨nonempty, relative, safe⟩ accepted
    · simp

/-! ### Batches -/

theorem applyEdit_frame {fault : Fault} {edit : ProposedEdit} {applied : Applied}
    (rooted : Rooted fs root base) (result : applyEdit root fault fs edit = .ok applied) :
    Grows fs applied.fs ∧ ∀ loc, loc ∉ applied.touched → applied.fs.kind loc = fs.kind loc := by
  by_cases accepted : edit.path ≠ [] ∧ (ofBytes edit.path).absolute = false ∧
      isPathSafe root fs (join root (ofBytes edit.path)) = .ok true
  · obtain ⟨nonempty, relative, safe⟩ := accepted
    obtain ⟨made, making, ending⟩ := applyEdit_accepted rooted nonempty relative safe result
    obtain ⟨grows, frame, -⟩ := createDirectories_sound making
    rcases ending with ⟨e, ended, same, touched, -⟩ | ⟨up, left, ended, rfl⟩
    · rw [same, touched]
      exact ⟨grows, frame⟩
    · have written := writeResolved_frame fault made.fs made.created
        (join root (ofBytes edit.path)) edit
      refine ⟨grows.trans written.1, fun loc outside => ?_⟩
      have before : loc ∉ made.created := fun member =>
        outside ((mem_writeResolved_touched loc).2 (.inl member))
      exact (written.2 loc outside).trans (frame loc before)
  · rw [applyEdit_refused accepted result]
    exact ⟨Grows.refl fs, fun _ _ => rfl⟩

/-- A condition on every edit of a batch in the state that the edit meets, up to the first throw. -/
def EachMet (root : Path) (faults : Nat → Fault)
    (condition : FileSystem → Fault → ProposedEdit → Prop) : DiskState → List ProposedEdit → Prop
  | _, [] => True
  | disk, edit :: rest =>
      condition disk.fs (faults disk.tried) edit ∧
        match applyEdit root (faults disk.tried) disk.fs edit with
        | .ok applied => EachMet root faults condition (disk.after applied) rest
        | .error _ => True

/-- Nothing outside is created, truncated or written, and every place there is as it was. -/
def Contained (base : Loc) (fs : FileSystem) (after : DiskState) : Prop :=
  (∀ loc ∈ after.touched, base <:+ loc) ∧ ∀ loc, ¬ base <:+ loc → after.fs.kind loc = fs.kind loc

theorem foldlM_touched {faults : Nat → Fault} (edits : List ProposedEdit) (outcome : ApplyOutcome)
    (disk : DiskState) :
    disk.touched ⊆ (finalState (edits.foldlM (applyNext root faults) outcome disk)).touched := by
  induction edits generalizing outcome disk with
  | nil => exact List.Subset.refl _
  | cons edit rest ih =>
    rw [foldlM_applyNext_cons]
    cases applyEdit root (faults disk.tried) disk.fs edit with
    | error e => exact List.Subset.refl _
    | ok applied => exact List.Subset.trans (List.subset_append_left _ _) (ih _ (disk.after applied))

theorem foldlM_contained {faults : Nat → Fault} (edits : List ProposedEdit) (outcome : ApplyOutcome)
    {disk : DiskState} (rooted : Rooted disk.fs root base) (before : Contained base fs disk) :
    Contained base fs (finalState (edits.foldlM (applyNext root faults) outcome disk)) ↔
      EachMet root faults (EditInside root base) disk edits := by
  induction edits generalizing outcome disk with
  | nil => exact ⟨fun _ => trivial, fun _ => before⟩
  | cons edit rest ih =>
    rw [foldlM_applyNext_cons]
    simp only [EachMet]
    cases result : applyEdit root (faults disk.tried) disk.fs edit with
    | error e =>
      refine ⟨fun _ => ⟨?_, trivial⟩, fun _ => before⟩
      intro nonempty relative safe
      simp [applyEdit_throws result] at safe
    | ok applied =>
      have inside := applyEdit_inside rooted result
      obtain ⟨grows, frame⟩ := applyEdit_frame rooted result
      by_cases stays : EditInside root base disk.fs (faults disk.tried) edit
      · rw [and_iff_right stays]
        refine ih _ (rooted.grows grows) ⟨fun loc member => ?_, fun loc outside => ?_⟩
        · rcases List.mem_append.1 member with old | new
          · exact before.1 loc old
          · exact inside.2 stays loc new
        · have untouched : loc ∉ applied.touched := fun member => outside (inside.2 stays loc member)
          exact (frame loc untouched).trans (before.2 loc outside)
      · refine iff_of_false (fun contained => stays (inside.1 fun loc member => ?_))
          fun both => stays both.1
        exact contained.1 loc (foldlM_touched rest _ _ (List.mem_append_right _ member))

/-- A batch leaves everything outside the canonical root alone exactly when every accepted edit, in
the tree it meets, stays inside from the first missing component of its path on. -/
theorem apply_contained_iff (faults : Nat → Fault) (edits : List ProposedEdit)
    (rooted : Rooted fs root base) :
    Contained base fs (finalState (apply root faults edits { fs := fs })) ↔
      EachMet root faults (EditInside root base) { fs := fs } edits :=
  foldlM_contained edits {} rooted ⟨by simp, fun _ _ => rfl⟩

/-- A codebase `/r` beside a directory `/o`, with a link to `/o` and a dangling one to `/o/new`. -/
def linkedTree : FileSystem where
  tree := .sub Samples.r
      (.leaf (.ofAscii "link" (by decide)) (.link (ofBytes (ascii "/o")))
        (.leaf (.ofAscii "dangling" (by decide)) (.link (ofBytes (ascii "/o/new"))) .nil))
    (.sub Samples.o .nil .nil)
  distinct := by decide
  cwd := []

def linkedRoot : Loc := [Samples.r]

def editOf (path : String) : ProposedEdit := ⟨ascii path, ascii "x", []⟩

theorem linkedTree_rooted : Rooted linkedTree (ofBytes (ascii "/r")) linkedRoot :=
  ⟨by decide, by decide, by decide⟩

/-- Each of four accepted edits leaves the root: a dangling link is opened, also where a null byte hides it
from the check, a link behind a missing component is not resolved by the check, and a missing component
above the root is created there. -/
theorem apply_escapes : Rooted linkedTree (ofBytes (ascii "/r")) linkedRoot ∧
    ∀ path ∈ ["dangling", "dangling\x00z", "missing/../link/new", "../missing/../r/new"],
      ¬ Contained linkedRoot linkedTree
        (finalState (apply (ofBytes (ascii "/r")) (fun _ => .none) [editOf path]
            { fs := linkedTree })) := by
  refine ⟨linkedTree_rooted, ?_⟩
  have escape : ∀ path ∈ ["dangling", "dangling\x00z", "missing/../link/new", "../missing/../r/new"],
      ∃ loc ∈ (finalState (apply (ofBytes (ascii "/r")) (fun _ => .none) [editOf path]
        { fs := linkedTree })).touched, ¬ linkedRoot <:+ loc := by decide
  intro path listed contained
  obtain ⟨loc, touched, outside⟩ := escape path listed
  exact outside (contained.1 loc touched)

/-- The condition at work: an edit of a file two levels below the root is contained. -/
theorem apply_contained_iff_nested :
    Contained linkedRoot linkedTree (finalState (apply (ofBytes (ascii "/r")) (fun _ => .none)
      [editOf "a/b"] { fs := linkedTree })) ↔
    EachMet (ofBytes (ascii "/r")) (fun _ => .none) (EditInside (ofBytes (ascii "/r")) linkedRoot)
      { fs := linkedTree } [editOf "a/b"] :=
  apply_contained_iff (fun _ => .none) [editOf "a/b"] linkedTree_rooted

end CppCoder.Containment

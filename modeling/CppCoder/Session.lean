import CppCoder.PatchApplier
import CppCoder.CodebaseScanner
import CppCoder.Support.JsonValue
import CppCoder.Support.Program

/-! What a run works on: the tree on disk, the requests and clock readings made so far, the counters
that name tasks, and the events emitted. Exceptions leave it as it is. -/

namespace CppCoder.Session
open Support Utf8 Disk JsonValue Program CppCoder.Types PatchApplier CodebaseScanner

inductive HttpOutcome where
  | failed
  | response (status : Int) (body : Bytes)
  deriving DecidableEq

/-- Everything that is decided outside, by the number of the request, reading or edit. -/
structure Environment where
  parser : Parser
  http : Nat → HttpOutcome
  /-- In nanoseconds. -/
  clock : Nat → Int
  faults : Nat → Fault

/-- The exceptions that leave a component: `dump` of a string that is not UTF-8, and `std::filesystem`. -/
inductive Exn where
  | type
  | filesystem (e : Errno)
  deriving DecidableEq

/-- What the components do, in order. -/
inductive Act where
  | started (task : Task)
  | investigating (task : Task) (area : Bytes)
  | scanned (area : Bytes) (shown : Shown)
  | found (finding : Finding)
  | edited (finding : EditFinding)
  | reviewed (raw : Finding) (reply : Option Bytes) (finding : Finding)
  | applied (edits : List ProposedEdit) (outcome : ApplyOutcome)
  | settled (task : Task) (followUps : List Task)
  | pushed (task : Task) (accepted : Bool)
  deriving DecidableEq

inductive TaskCounter where
  | worker
  | editor
  deriving DecidableEq

structure World where
  disk : DiskState
  calls : Nat := 0
  ticks : Nat := 0
  counters : TaskCounter → Nat := fun _ => 0
  events : List Json := []
  /-- Kept for statements about runs; no component reads it. -/
  trace : List Act := []

def World.setCounter (w : World) (counter : TaskCounter) (n : Nat) : World :=
  { w with counters := fun other => if other = counter then n else w.counters other }

abbrev Prog := EStateM Exn World

def record (act : Act) : Prog Unit := modify fun w => { w with trace := w.trace ++ [act] }

/-- `Clock::now`. -/
def now (env : Environment) : Prog Int :=
  modifyGet fun w => (env.clock w.ticks, { w with ticks := w.ticks + 1 })

def toMilliseconds (time : Int) : Int := time.tdiv 1000000

def toMinutes (time : Int) : Int := time.tdiv 60000000000

def emit (event : Json) : Prog Unit :=
  if event.dumpable then modify fun w => { w with events := w.events ++ [event] } else throw .type

/-- `Apply` on the tree of the run. -/
def applyEdits (env : Environment) (root : Support.Paths.Path) (edits : List ProposedEdit) :
    Prog ApplyOutcome := fun w =>
  match PatchApplier.apply root env.faults edits w.disk with
  | .ok outcome disk => .ok outcome { w with disk := disk }
  | .error e disk => .error (.filesystem e) { w with disk := disk }

def event (name : String) (fields : List (String × Json)) : Json :=
  .obj ((ascii "event", .str (ascii name)) :: fields.map fun field => (ascii field.1, field.2))

theorem event_dumpable (name : String) (fields : List (String × Json)) :
    (event name fields).dumpable = true ↔ ∀ field ∈ fields, field.2.dumpable = true := by
  unfold event
  rw [dumpable_obj, List.forall_mem_cons, List.forall_mem_map]
  simp

def stringField (key : String) (e : Json) : Bytes :=
  match e.member key with
  | .ok (some (.str text)) => text
  | _ => []

def eventName (e : Json) : Bytes := stringField "event" e

theorem eventName_event (name : String) (fields : List (String × Json)) :
    eventName (event name fields) = ascii name := by
  simp [eventName, stringField, event, Json.member]

section Rules
variable {w : World} {failed : Exn → World → Prop}

theorem runs_record {act : Act} {done : Unit → World → Prop}
    (holds : done () { w with trace := w.trace ++ [act] }) : Runs (record act) w done failed := holds

theorem runs_now {env : Environment} {done : Int → World → Prop}
    (holds : done (env.clock w.ticks) { w with ticks := w.ticks + 1 }) : Runs (now env) w done failed :=
  holds

theorem runs_get {α : Type} {f : World → α} {done : α → World → Prop} (holds : done (f w) w) :
    Runs (f <$> get) w done failed := holds

theorem runs_emit {shown : Json} {done : Unit → World → Prop}
    (clean : shown.dumpable = true → done () { w with events := w.events ++ [shown] })
    (dirty : ¬ shown.dumpable = true → failed .type w) : Runs (emit shown) w done failed := by
  unfold emit
  split_ifs with dumps
  · exact Runs.modify (clean dumps)
  · exact Runs.throw (dirty dumps)

theorem emits_runs {α : Type} (shown : α → Json) (items : List α) (w : World) :
    Runs (items.forM fun item => emit (shown item)) w
      (fun _ w' => w' = { w with events := w.events ++ items.map shown }) fun _ _ => True := by
  induction items generalizing w with
  | nil => exact Runs.pure (by simp)
  | cons item rest ih =>
    refine Runs.bind (runs_emit (fun _ => (ih _).weaken fun _ w' same => ?_) fun _ => trivial)
    rw [same]
    simp

end Rules

structure Adds (w : World) (acts : List Act) (w' : World) : Prop where
  trace : w'.trace = w.trace ++ acts
  events : w'.events = w.events
  disk : w'.disk = w.disk

theorem Adds.refl (w : World) : Adds w [] w := ⟨by simp, rfl, rfl⟩

theorem Adds.trans {w w' w'' : World} {first second : List Act} (one : Adds w first w')
    (two : Adds w' second w'') : Adds w (first ++ second) w'' :=
  ⟨by rw [two.trace, one.trace, List.append_assoc], two.events.trans one.events, two.disk.trans one.disk⟩

/-- What is added to the record satisfies a condition. -/
def Leaves (condition : Act → Prop) (w w' : World) : Prop :=
  ∃ acts, w'.trace = w.trace ++ acts ∧ ∀ act ∈ acts, condition act

section Leaves
variable {condition : Act → Prop}

theorem Leaves.of_same {w w' : World} (same : w'.trace = w.trace) : Leaves condition w w' :=
  ⟨[], by simp [same], by simp⟩

theorem Leaves.refl (w : World) : Leaves condition w w := .of_same rfl

theorem Leaves.trans (a b c : World) (one : Leaves condition a b) (two : Leaves condition b c) :
    Leaves condition a c := by
  obtain ⟨first, grown, each⟩ := one
  obtain ⟨second, further, rest⟩ := two
  exact ⟨first ++ second, by rw [further, grown, List.append_assoc], List.forall_mem_append.2 ⟨each, rest⟩⟩

theorem trace_of_silent {w w' : World} (leaves : Leaves (fun _ => False) w w') : w'.trace = w.trace := by
  obtain ⟨acts, grown, none⟩ := leaves
  rw [grown, List.eq_nil_iff_forall_not_mem.2 none, List.append_nil]

theorem Leaves.mono {weaker : Act → Prop} {w w' : World} (leaves : Leaves condition w w')
    (weaken : ∀ act, condition act → weaker act) : Leaves weaker w w' := by
  obtain ⟨acts, grown, each⟩ := leaves
  exact ⟨acts, grown, fun act member => weaken act (each act member)⟩

theorem keeps_record {act : Act} (holds : condition act) : Keeps (Leaves condition) (record act) :=
  fun _ => ⟨[act], rfl, by simpa using holds⟩

theorem keeps_emit (shown : Json) : Keeps (Leaves condition) (emit shown) :=
  fun w => runs_emit (fun _ => .of_same rfl) fun _ => Leaves.refl w

theorem keeps_bind {α β : Type} {program : Prog α} {next : α → Prog β}
    (first : Keeps (Leaves condition) program) (second : ∀ a, Keeps (Leaves condition) (next a)) :
    Keeps (Leaves condition) (program >>= next) := Keeps.bind Leaves.trans first second

theorem keeps_pure {α : Type} (a : α) : Keeps (Leaves condition) (Pure.pure a : Prog α) :=
  Keeps.pure Leaves.refl a

theorem keeps_forM {α : Type} {body : α → Prog PUnit} (items : List α)
    (step : ∀ item, Keeps (Leaves condition) (body item)) : Keeps (Leaves condition) (items.forM body) := by
  induction items with
  | nil => exact keeps_pure _
  | cons item rest ih => exact keeps_bind (step item) fun _ => ih

theorem keeps_applyEdits (env : Environment) (root : Support.Paths.Path) (edits : List ProposedEdit) :
    Keeps (Leaves condition) (applyEdits env root edits) := by
  intro w
  unfold Runs applyEdits
  cases PatchApplier.apply root env.faults edits w.disk <;> exact Leaves.of_same rfl

end Leaves

end CppCoder.Session

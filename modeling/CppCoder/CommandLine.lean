import CppCoder.ChatHandlers
import CppCoder.EngineLoop
import CppCoder.OllamaClient
import CppCoder.Support.Options

/-! The command line of `cppcoder`. The text of the usage and the logger are left out. -/

namespace CppCoder.CommandLine
open Support Utf8 Options OllamaClient EngineLoop

/-- What `std::stoi` and its kin throw; `main` does not catch it. -/
inductive ConversionError where
  | invalidArgument
  | outOfRange
  deriving DecidableEq

/-- The sign and the digits at the beginning of a text, behind blanks; what follows them is passed over. -/
def leadingNumber (text : Bytes) : Option (Bool × Nat) :=
  let body := text.dropWhile FactExtractor.isSpace
  let negative := body.head? = some 45
  let digits := (if body.head? = some 45 ∨ body.head? = some 43 then body.tail else body).takeWhile
    FactExtractor.isDigit
  if digits = [] then none else some (negative, readDecimal digits)

def stoi (text : Bytes) : Except ConversionError Int :=
  match leadingNumber text with
  | none => .error .invalidArgument
  | some (negative, n) =>
      let value : Int := if negative then -n else n
      if -2147483648 ≤ value ∧ value ≤ 2147483647 then .ok value else .error .outOfRange

def stoull (text : Bytes) : Except ConversionError UInt64 :=
  match leadingNumber text with
  | none => .error .invalidArgument
  | some (negative, n) =>
      if n < 18446744073709551616 then .ok (if negative then -UInt64.ofNat n else UInt64.ofNat n)
      else .error .outOfRange

/-- What `main` keeps of its arguments. -/
structure Arguments where
  question : Bytes := []
  task : Bytes := []
  applyEdits : Bool := false
  codebasePath : Bytes := []
  eventsFilePath : Bytes := []
  logLevel : Bytes := ascii "info"
  logFilePath : Bytes := []
  ollamaHost : Bytes := ascii "localhost"
  ollamaPort : Int := 11434
  ollamaConfig : OllamaConfig := {}
  engineConfig : EngineConfig := {}
  serveMode : Bool := false
  serveHost : Bytes := ascii "127.0.0.1"
  servePort : Int := 8765
  webRoot : Bytes := []
  memoryFilePath : Bytes := []

inductive Refusal where
  | missingValue (flag : Bytes)
  | help
  | unknown (arg : Bytes)
  | conversion (e : ConversionError)
  deriving DecidableEq

section
variable {σ : Type}

def text (set : Bytes → σ → σ) : Rule Bytes σ Refusal := .value fun argument => .ok (set argument)

def converted {β : Type} (convert : Bytes → Except ConversionError β) (set : β → σ → σ) :
    Rule Bytes σ Refusal :=
  .value fun argument =>
    match convert argument with
    | .ok value => .ok (set value)
    | .error e => .error (.conversion e)

/-- The options of a program by their names. -/
def lookUp (options : List (String × Rule Bytes σ Refusal)) (arg : Bytes) : Rule Bytes σ Refusal :=
  match options.find? fun option => ascii option.1 = arg with
  | some option => option.2
  | none => .stop (.unknown arg)

end

def options : List (String × Rule Bytes Arguments Refusal) :=
  [("--question", text fun v s => { s with question := v }),
    ("--codebase", text fun v s => { s with codebasePath := v }),
    ("--model", text fun v s => { s with ollamaConfig := { s.ollamaConfig with model := v } }),
    ("--host", text fun v s => { s with ollamaHost := v }),
    ("--port", converted stoi fun n s => { s with ollamaPort := n }),
    ("--max-minutes", converted stoi fun n s =>
      { s with engineConfig := { s.engineConfig with maxWallClock := n } }),
    ("--max-iterations", converted stoi fun n s =>
      { s with engineConfig := { s.engineConfig with maxIterations := n } }),
    ("--token-budget", converted stoull fun n s =>
      { s with engineConfig := { s.engineConfig with tokenBudgetPerTask := n } }),
    ("--events-file", text fun v s => { s with eventsFilePath := v }),
    ("--task", text fun v s => { s with task := v }),
    ("--apply", .flag fun s => { s with applyEdits := true }),
    ("--serve", .flag fun s => { s with serveMode := true }),
    ("--serve-host", text fun v s => { s with serveHost := v }),
    ("--serve-port", converted stoi fun n s => { s with servePort := n }),
    ("--web-root", text fun v s => { s with webRoot := v }),
    ("--memory-file", text fun v s => { s with memoryFilePath := v }),
    ("--log-level", text fun v s => { s with logLevel := v }),
    ("--log-file", text fun v s => { s with logFilePath := v }),
    ("-h", .stop .help),
    ("--help", .stop .help)]

def parseArguments (args : List Bytes) : Except Refusal Arguments :=
  read (lookUp options) .missingValue args {}

/-! ### What the arguments come to -/

def lastNumber {β : Type} (convert : Bytes → Except ConversionError β) (latest : Option Bytes)
    (default : β) : β :=
  match latest.map convert with
  | some (.ok n) => n
  | _ => default

/-- The arguments from the last value of each option. -/
def settled (latest : Bytes → Option Bytes) : Arguments where
  question := (latest (ascii "--question")).getD []
  task := (latest (ascii "--task")).getD []
  applyEdits := (latest (ascii "--apply")).isSome
  codebasePath := (latest (ascii "--codebase")).getD []
  eventsFilePath := (latest (ascii "--events-file")).getD []
  logLevel := (latest (ascii "--log-level")).getD (ascii "info")
  logFilePath := (latest (ascii "--log-file")).getD []
  ollamaHost := (latest (ascii "--host")).getD (ascii "localhost")
  ollamaPort := lastNumber stoi (latest (ascii "--port")) 11434
  ollamaConfig := { model := (latest (ascii "--model")).getD (ascii "qwen2.5-coder:7b") }
  engineConfig :=
    { maxWallClock := lastNumber stoi (latest (ascii "--max-minutes")) 90
      maxIterations := lastNumber stoi (latest (ascii "--max-iterations")) 200
      tokenBudgetPerTask := lastNumber stoull (latest (ascii "--token-budget")) 120000 }
  serveMode := (latest (ascii "--serve")).isSome
  serveHost := (latest (ascii "--serve-host")).getD (ascii "127.0.0.1")
  servePort := lastNumber stoi (latest (ascii "--serve-port")) 8765
  webRoot := (latest (ascii "--web-root")).getD []
  memoryFilePath := (latest (ascii "--memory-file")).getD []

section
variable {σ : Type}

theorem lookUp_cases {P : Bytes → Rule Bytes σ Refusal → Prop}
    {options : List (String × Rule Bytes σ Refusal)}
    (unknown : ∀ arg, P arg (.stop (.unknown arg))) (known : ∀ option ∈ options, P (ascii option.1) option.2)
    (arg : Bytes) : P arg (lookUp options arg) := by
  unfold lookUp
  cases found : options.find? fun option => ascii option.1 = arg with
  | none => exact unknown arg
  | some option =>
    have named : ascii option.1 = arg := by simpa using List.find?_some found
    exact named ▸ known option (List.mem_of_find?_eq_some found)

/-- What a rule makes of the argument, and what the last values make of it, agree. -/
def Agrees (build : (Bytes → Option Bytes) → σ) (name : Bytes) (rule : Rule Bytes σ Refusal) : Prop :=
  match rule with
  | .stop _ => True
  | .flag set => ∀ latest, set (build latest) = build (Function.update latest name (some name))
  | .value set => ∀ latest argument f, set argument = .ok f →
      f (build latest) = build (Function.update latest name (some argument))

theorem agrees_text {build : (Bytes → Option Bytes) → σ} {name : Bytes} {set : Bytes → σ → σ}
    (agrees : ∀ latest v, set v (build latest) = build (Function.update latest name (some v))) :
    Agrees build name (text set) := by
  intro latest argument f written
  cases written
  exact agrees latest argument

theorem agrees_converted {β : Type} {convert : Bytes → Except ConversionError β}
    {build : (Bytes → Option Bytes) → σ} {name : Bytes} {set : β → σ → σ}
    (agrees : ∀ latest v n, (∀ default, lastNumber convert (some v) default = n) →
      set n (build latest) = build (Function.update latest name (some v))) :
    Agrees build name (converted convert set) := by
  intro latest argument f written
  dsimp only at written
  cases found : convert argument with
  | error e =>
    rw [found] at written
    cases written
  | ok n =>
    rw [found] at written
    cases written
    refine agrees latest argument n fun default => ?_
    unfold lastNumber
    rw [Option.map_some, found]

theorem writes_of_agree {build : (Bytes → Option Bytes) → σ} {options : List (String × Rule Bytes σ Refusal)}
    (agree : ∀ option ∈ options, Agrees build (ascii option.1) option.2) (option : Bytes × Bytes)
    (latest : Bytes → Option Bytes) (sound : Sound (lookUp options) option) :
    write (lookUp options) (build latest) option = build (Function.update latest option.1 (some option.2)) := by
  have agrees : Agrees build option.1 (lookUp options option.1) :=
    lookUp_cases (P := Agrees build) (fun _ => trivial) agree option.1
  unfold Sound at sound
  unfold write
  cases found : lookUp options option.1 with
  | stop e =>
    rw [found] at sound
    exact sound.elim
  | flag set =>
    rw [found] at sound agrees
    rw [show option.2 = option.1 from sound]
    exact agrees latest
  | value set =>
    rw [found] at sound agrees
    obtain ⟨f, written⟩ : ∃ f, set option.2 = .ok f := sound
    dsimp only
    rw [written]
    exact agrees latest option.2 f written

end

theorem options_agree : ∀ option ∈ options, Agrees settled (ascii option.1) option.2 := by
  unfold options
  simp only [List.forall_mem_cons]
  refine ⟨agrees_text fun _ _ => rfl, agrees_text fun _ _ => rfl, agrees_text fun _ _ => rfl,
    agrees_text fun _ _ => rfl, agrees_converted fun latest v n found => ?_,
    agrees_converted fun latest v n found => ?_, agrees_converted fun latest v n found => ?_,
    agrees_converted fun latest v n found => ?_, agrees_text fun _ _ => rfl, agrees_text fun _ _ => rfl,
    fun _ => rfl, fun _ => rfl, agrees_text fun _ _ => rfl, agrees_converted fun latest v n found => ?_,
    agrees_text fun _ _ => rfl, agrees_text fun _ _ => rfl, agrees_text fun _ _ => rfl,
    agrees_text fun _ _ => rfl, trivial, trivial, List.forall_mem_nil _⟩
  · rw [← found 11434]
    rfl
  · rw [← found 90]
    rfl
  · rw [← found 200]
    rfl
  · rw [← found 120000]
    rfl
  · rw [← found 8765]
    rfl

/-- Options as they are written, one after another. -/
def commandLine (given : List (Bytes × Bytes)) : List Bytes := given.flatMap (spell (lookUp options))

/-- What the arguments are depends on the last value of each option alone, however they are ordered; which
command lines are accepted does not depend on the order of the options either, and a command line is refused
for the first part that is no option with a sound value. -/
theorem arguments_settled (args : List Bytes) :
    (∀ parsed, parseArguments args = .ok parsed ↔
      ∃ given, (∀ option ∈ given, Sound (lookUp options) option) ∧
        args = commandLine given ∧ parsed = settled (last given)) ∧
    ∀ e, parseArguments args = .error e ↔
      ∃ given rest, (∀ option ∈ given, Sound (lookUp options) option) ∧
        args = commandLine given ++ rest ∧ Stuck (lookUp options) .missingValue rest e := by
  constructor
  · intro parsed
    constructor
    · intro accepted
      obtain ⟨spelled, -, sound⟩ := read_given accepted
      exact ⟨given (lookUp options) args, sound, spelled,
        read_build (writes_of_agree options_agree) accepted⟩
    · intro ⟨given, sound, spelled, same⟩
      rw [spelled, same, ← foldl_build (writes_of_agree options_agree) sound]
      have reads : parseArguments (commandLine given ++ []) = .ok _ := read_append sound [] _
      rwa [List.append_nil] at reads
  · intro e
    constructor
    · intro refused
      obtain ⟨given, rest, split, sound, stuck⟩ := read_error refused
      exact ⟨given, rest, sound, split, stuck⟩
    · intro ⟨given, rest, sound, split, stuck⟩
      rw [split]
      exact (read_append sound rest _).trans (read_stuck stuck _)

end CppCoder.CommandLine

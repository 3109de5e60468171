import Mathlib.Data.List.Induction
import Mathlib.Logic.Function.Basic

/-! Command lines, which are read from left to right: an option stands alone, takes the argument behind it
whatever that is, or ends the reading. -/

namespace CppCoder.Support.Options

variable {α σ ε : Type}

inductive Rule (α σ ε : Type) where
  | flag (set : σ → σ)
  | value (set : α → Except ε (σ → σ))
  | stop (e : ε)

variable (rule : α → Rule α σ ε) (missing : α → ε)

def read : List α → σ → Except ε σ
  | [], s => .ok s
  | name :: rest, s =>
      match rule name with
      | .stop e => .error e
      | .flag set => read rest (set s)
      | .value set =>
          match rest with
          | [] => .error (missing name)
          | argument :: rest =>
              match set argument with
              | .error e => .error e
              | .ok set => read rest (set s)

/-- The options of a command line with their arguments, up to the end of the reading. An option that stands
alone counts as its own argument. -/
def given : List α → List (α × α)
  | [] => []
  | name :: rest =>
      match rule name with
      | .stop _ => []
      | .flag _ => (name, name) :: given rest
      | .value _ =>
          match rest with
          | [] => []
          | argument :: rest => (name, argument) :: given rest

def write (s : σ) (option : α × α) : σ :=
  match rule option.1 with
  | .stop _ => s
  | .flag set => set s
  | .value set =>
      match set option.2 with
      | .error _ => s
      | .ok set => set s

/-- An option whose argument is of its kind. -/
def Sound (option : α × α) : Prop :=
  match rule option.1 with
  | .stop _ => False
  | .flag _ => option.2 = option.1
  | .value set => ∃ f, set option.2 = .ok f

def spell (option : α × α) : List α :=
  match rule option.1 with
  | .value _ => [option.1, option.2]
  | _ => [option.1]

variable {rule missing} {args : List α} {s s' : σ}

theorem read_given (accepted : read rule missing args s = .ok s') :
    args = (given rule args).flatMap (spell rule) ∧ s' = (given rule args).foldl (write rule) s ∧
      ∀ option ∈ given rule args, Sound rule option := by
  fun_induction read rule missing args s with
  | case1 s =>
    cases accepted
    exact ⟨rfl, rfl, List.forall_mem_nil _⟩
  | case2 name rest s e found => cases accepted
  | case3 name rest s set found ih =>
    obtain ⟨spelled, settled, sound⟩ := ih accepted
    unfold given
    rw [found]
    dsimp only
    refine ⟨?_, ?_, List.forall_mem_cons.2 ⟨?_, sound⟩⟩
    · rw [List.flatMap_cons, ← spelled, spell, found]
      rfl
    · rw [List.foldl_cons, write, found]
      exact settled
    · simp [Sound, found]
  | case4 name s set found => cases accepted
  | case5 name s set found argument rest e bad => cases accepted
  | case6 name s set found argument rest f good ih =>
    obtain ⟨spelled, settled, sound⟩ := ih accepted
    unfold given
    rw [found]
    dsimp only
    refine ⟨?_, ?_, List.forall_mem_cons.2 ⟨?_, sound⟩⟩
    · rw [List.flatMap_cons, ← spelled, spell, found]
      rfl
    · rw [List.foldl_cons, write, found]
      dsimp only
      rw [good]
      exact settled
    · simp [Sound, found, good]

theorem read_append {options : List (α × α)} (sound : ∀ option ∈ options, Sound rule option) (rest : List α)
    (s : σ) : read rule missing (options.flatMap (spell rule) ++ rest) s =
      read rule missing rest (options.foldl (write rule) s) := by
  induction options generalizing s with
  | nil => rfl
  | cons option others ih =>
    obtain ⟨first, following⟩ := List.forall_mem_cons.1 sound
    obtain ⟨name, argument⟩ := option
    unfold Sound at first
    rw [List.flatMap_cons, List.foldl_cons, List.append_assoc, spell, write]
    cases found : rule name with
    | stop e =>
      rw [found] at first
      exact first.elim
    | flag set =>
      rw [List.singleton_append, read, found]
      exact ih following (set s)
    | value set =>
      rw [found] at first
      obtain ⟨f, good⟩ : ∃ f, set argument = .ok f := first
      rw [List.cons_append, List.singleton_append, read, found]
      dsimp only
      rw [good]
      exact ih following (f s)

/-- Where a command line cannot be read on. -/
inductive Stuck (rule : α → Rule α σ ε) (missing : α → ε) : List α → ε → Prop where
  | stop {name : α} {e : ε} (rest : List α) (found : rule name = .stop e) :
      Stuck rule missing (name :: rest) e
  | missing {name : α} {set : α → Except ε (σ → σ)} (found : rule name = .value set) :
      Stuck rule missing [name] (missing name)
  | value {name argument : α} {set : α → Except ε (σ → σ)} {e : ε} (rest : List α)
      (found : rule name = .value set) (bad : set argument = .error e) : Stuck rule missing (name :: argument :: rest) e

theorem read_stuck {e : ε} (stuck : Stuck rule missing args e) (s : σ) :
    read rule missing args s = .error e := by
  cases stuck with
  | stop rest found => rw [read, found]
  | missing found => rw [read, found]
  | value rest found bad =>
    rw [read, found]
    dsimp only
    rw [bad]

theorem read_error {e : ε} (refused : read rule missing args s = .error e) :
    ∃ (options : List (α × α)) (rest : List α), args = options.flatMap (spell rule) ++ rest ∧
      (∀ option ∈ options, Sound rule option) ∧ Stuck rule missing rest e := by
  fun_induction read rule missing args s with
  | case1 s => cases refused
  | case2 name rest s e' found =>
    cases refused
    exact ⟨[], name :: rest, rfl, List.forall_mem_nil _, .stop rest found⟩
  | case3 name rest s set found ih =>
    obtain ⟨options, tail, split, sound, stuck⟩ := ih refused
    refine ⟨(name, name) :: options, tail, ?_, List.forall_mem_cons.2 ⟨?_, sound⟩, stuck⟩
    · simp [spell, found, split]
    · simp [Sound, found]
  | case4 name s set found =>
    cases refused
    exact ⟨[], [name], rfl, List.forall_mem_nil _, .missing found⟩
  | case5 name s set found argument rest e' bad =>
    cases refused
    exact ⟨[], name :: argument :: rest, rfl, List.forall_mem_nil _, .value rest found bad⟩
  | case6 name s set found argument rest f good ih =>
    obtain ⟨options, tail, split, sound, stuck⟩ := ih refused
    refine ⟨(name, argument) :: options, tail, ?_, List.forall_mem_cons.2 ⟨?_, sound⟩, stuck⟩
    · simp [spell, found, split]
    · simp [Sound, found, good]

/-! ### The last argument counts -/

variable [DecidableEq α]

/-- The last argument of each option. -/
def last (options : List (α × α)) (name : α) : Option α :=
  ((options.filter fun option => option.1 = name).getLast?).map Prod.snd

theorem last_concat (options : List (α × α)) (option : α × α) :
    last (options ++ [option]) = Function.update (last options) option.1 (some option.2) := by
  funext name
  unfold last
  by_cases same : option.1 = name
  · subst same
    simp
  · simp [same, Function.update_of_ne (Ne.symm same)]

/-- Settings that can be computed from the last argument of each option: what each option writes has to agree
with that. -/
theorem foldl_build {build : (α → Option α) → σ} (writes : ∀ option latest, Sound rule option →
      write rule (build latest) option = build (Function.update latest option.1 (some option.2)))
    {options : List (α × α)} (sound : ∀ option ∈ options, Sound rule option) :
    options.foldl (write rule) (build fun _ => none) = build (last options) := by
  induction options using List.reverseRecOn with
  | nil => rfl
  | append_singleton options option ih =>
    obtain ⟨others, final⟩ := List.forall_mem_append.1 sound
    rw [List.foldl_append, ih others, last_concat]
    exact writes option _ (final option (List.mem_singleton_self _))

theorem read_build {build : (α → Option α) → σ} (writes : ∀ option latest, Sound rule option →
      write rule (build latest) option = build (Function.update latest option.1 (some option.2)))
    (accepted : read rule missing args (build fun _ => none) = .ok s') :
    s' = build (last (given rule args)) := by
  obtain ⟨-, settled, sound⟩ := read_given accepted
  exact settled.trans (foldl_build writes sound)

end CppCoder.Support.Options

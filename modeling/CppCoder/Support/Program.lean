import Mathlib.Data.List.Basic

/-! Pre- and postconditions for programs with state and exceptions. The state survives a throw, so
a condition can be stated for both ways a program may end. -/

namespace CppCoder.Support.Program

variable {ε σ α β : Type}

/-- Started in `s`, the program returns with `done` or throws with `failed`. -/
def Runs (program : EStateM ε σ α) (s : σ) (done : α → σ → Prop) (failed : ε → σ → Prop) : Prop :=
  match program s with
  | .ok a s' => done a s'
  | .error e s' => failed e s'

/-- The state a program leaves, however it ends. -/
def finalState : EStateM.Result ε σ α → σ
  | .ok _ s => s
  | .error _ s => s

theorem Runs.final {program : EStateM ε σ α} {s : σ} {holds : σ → Prop}
    (run : Runs program s (fun _ s' => holds s') fun _ s' => holds s') :
        holds (finalState (program s)) := by
  unfold Runs at run
  cases result : program s <;> rwa [result] at run

theorem bind_run (program : EStateM ε σ α) (next : α → EStateM ε σ β) (s : σ) :
    (program >>= next) s = match program s with
      | .ok a s' => next a s'
      | .error e s' => .error e s' := by
  change EStateM.bind program next s = _
  unfold EStateM.bind
  cases program s <;> rfl

theorem finalState_then (program : EStateM ε σ α) (b : β) (s : σ) :
    finalState ((program >>= fun _ => pure b) s) = finalState (program s) := by
  rw [bind_run]
  cases program s <;> rfl

theorem Runs.intro {program : EStateM ε σ α} {s : σ} {done : α → σ → Prop} {failed : ε → σ → Prop}
    (onOk : ∀ a s', program s = .ok a s' → done a s')
    (onError : ∀ e s', program s = .error e s' → failed e s') : Runs program s done failed := by
  unfold Runs
  cases result : program s with
  | ok a s' => exact onOk a s' result
  | error e s' => exact onError e s' result

theorem Runs.ok {program : EStateM ε σ α} {s s' : σ} {a : α} {done : α → σ → Prop}
    {failed : ε → σ → Prop} (run : Runs program s done failed) (result : program s = .ok a s') :
    done a s' := by
  unfold Runs at run
  rwa [result] at run

theorem Runs.error {program : EStateM ε σ α} {s s' : σ} {e : ε} {done : α → σ → Prop}
    {failed : ε → σ → Prop} (run : Runs program s done failed) (result : program s = .error e s') :
    failed e s' := by
  unfold Runs at run
  rwa [result] at run

theorem Runs.imp {program : EStateM ε σ α} {s : σ} {done done' : α → σ → Prop}
    {failed failed' : ε → σ → Prop} (run : Runs program s done failed)
    (weakenDone : ∀ a s', done a s' → done' a s') (weakenFailed : ∀ e s', failed e s' → failed' e s') :
    Runs program s done' failed' :=
  Runs.intro (fun a s' result => weakenDone a s' (run.ok result))
    (fun e s' result => weakenFailed e s' (run.error result))

theorem Runs.weaken {program : EStateM ε σ α} {s : σ} {done done' : α → σ → Prop} {failed : ε → σ → Prop}
    (run : Runs program s done failed) (weakenDone : ∀ a s', done a s' → done' a s') :
    Runs program s done' failed := run.imp weakenDone fun _ _ bad => bad

theorem Runs.and {program : EStateM ε σ α} {s : σ} {done done' : α → σ → Prop}
    {failed failed' : ε → σ → Prop} (one : Runs program s done failed)
    (two : Runs program s done' failed') :
    Runs program s (fun a s' => done a s' ∧ done' a s') (fun e s' => failed e s' ∧ failed' e s') :=
  Runs.intro (fun _ _ result => ⟨one.ok result, two.ok result⟩)
    (fun _ _ result => ⟨one.error result, two.error result⟩)

theorem Runs.suppose {program : EStateM ε σ α} {s : σ} {given : Prop} {done : α → σ → Prop}
    {failed : ε → σ → Prop} (run : given → Runs program s done failed) :
    Runs program s (fun a s' => given → done a s') (fun e s' => given → failed e s') :=
  Runs.intro (fun _ _ result holds => (run holds).ok result) fun _ _ result holds =>
    (run holds).error result

theorem Runs.pure {s : σ} {a : α} {done : α → σ → Prop} {failed : ε → σ → Prop} (holds : done a s) :
    Runs (Pure.pure a) s done failed := holds

theorem Runs.throw {s : σ} {e : ε} {done : α → σ → Prop} {failed : ε → σ → Prop}
    (holds : failed e s) : Runs (MonadExcept.throw e) s done failed := holds

def orThrow : Except ε α → EStateM ε σ α
  | .ok a => Pure.pure a
  | .error e => MonadExcept.throw e

theorem Runs.orThrow {result : Except ε α} {s : σ} {done : α → σ → Prop} {failed : ε → σ → Prop}
    (onOk : ∀ a, result = .ok a → done a s) (onError : ∀ e, result = .error e → failed e s) :
    Runs (orThrow result) s done failed := by
  cases result with
  | ok a => exact onOk a rfl
  | error e => exact onError e rfl

theorem Runs.get {s : σ} {done : σ → σ → Prop} {failed : ε → σ → Prop} (holds : done s s) :
    Runs MonadState.get s done failed := holds

theorem Runs.modify {s : σ} {f : σ → σ} {done : Unit → σ → Prop} {failed : ε → σ → Prop}
    (holds : done () (f s)) : Runs (modify f) s done failed := holds

theorem Runs.modifyGet {s : σ} {f : σ → α × σ} {done : α → σ → Prop} {failed : ε → σ → Prop}
    (holds : done (f s).1 (f s).2) : Runs (MonadStateOf.modifyGet f) s done failed := holds

theorem Runs.bind {program : EStateM ε σ α} {next : α → EStateM ε σ β} {s : σ}
    {done : β → σ → Prop} {failed : ε → σ → Prop}
    (first : Runs program s (fun a s' => Runs (next a) s' done failed) failed) :
    Runs (program >>= next) s done failed := by
  unfold Runs at *
  change match EStateM.bind program next s with
    | .ok a s' => done a s'
    | .error e s' => failed e s'
  unfold EStateM.bind
  cases result : program s with
  | ok a s' => rw [result] at first; exact first
  | error e s' => rw [result] at first; exact first

/-- The loop rule: `inv` relates the elements already read to the accumulator and the state. -/
theorem Runs.foldlM {body : β → α → EStateM ε σ β} {failed : ε → σ → Prop}
    (inv : List α → β → σ → Prop) (items : List α)
    (step : ∀ read item rest acc s, read ++ item :: rest = items → inv read acc s →
      Runs (body acc item) s (fun acc' s' => inv (read ++ [item]) acc' s') failed)
    {init : β} {s : σ} (start : inv [] init s) :
    Runs (items.foldlM body init) s (fun acc s' => inv items acc s') failed := by
  suffices general : ∀ read rest acc s, read ++ rest = items → inv read acc s →
      Runs (rest.foldlM body acc) s (fun acc' s' => inv items acc' s') failed from
    general [] items init s rfl start
  intro read rest
  induction rest generalizing read with
  | nil =>
    intro acc s split holds
    rw [List.append_nil] at split
    exact Runs.pure (split ▸ holds)
  | cons item rest ih =>
    intro acc s split holds
    rw [List.foldlM_cons]
    apply Runs.bind
    refine (step read item rest acc s split holds).weaken fun acc' s' next => ?_
    exact ih (read ++ [item]) acc' s' (by simpa using split) next

theorem Runs.forM {body : α → EStateM ε σ PUnit} {failed : ε → σ → Prop} {inv : σ → Prop} (items : List α)
    (step : ∀ item ∈ items, ∀ s, inv s → Runs (body item) s (fun _ s' => inv s') failed)
    {s : σ} (start : inv s) : Runs (items.forM body) s (fun _ s' => inv s') failed := by
  induction items generalizing s with
  | nil => exact Runs.pure start
  | cons item rest ih =>
    change Runs (body item >>= fun _ => rest.forM body) s _ _
    apply Runs.bind
    refine (step item List.mem_cons_self s start).weaken fun _ s' next => ?_
    exact ih (fun other member => step other (List.mem_cons_of_mem _ member)) next

theorem Runs.forM_both {body : α → EStateM ε σ PUnit} {inv : σ → Prop} (items : List α)
    (step : ∀ item ∈ items, ∀ s, inv s → Runs (body item) s (fun _ s' => inv s') fun _ s' => inv s')
    {s : σ} (start : inv s) : Runs (items.forM body) s (fun _ s' => inv s') fun _ s' => inv s' :=
  Runs.forM items step start

/-- Every run, however it ends, relates its first state to its last. -/
def Keeps (relation : σ → σ → Prop) (program : EStateM ε σ α) : Prop :=
  ∀ s, Runs program s (fun _ s' => relation s s') (fun _ s' => relation s s')

section
variable {relation : σ → σ → Prop} (refl : ∀ s, relation s s)
  (trans : ∀ a b c, relation a b → relation b c → relation a c)

include refl in
theorem Keeps.pure (a : α) : Keeps (ε := ε) relation (Pure.pure a) := fun s => refl s

include trans in
theorem Keeps.bind {program : EStateM ε σ α} {next : α → EStateM ε σ β} (first : Keeps relation program)
    (second : ∀ a, Keeps relation (next a)) : Keeps relation (program >>= next) := by
  intro s
  apply Runs.bind
  refine (first s).imp (fun a s' near => ?_) (fun _ _ near => near)
  exact (second a s').imp (fun _ _ far => trans _ _ _ near far) (fun _ _ far => trans _ _ _ near far)

include refl trans in
theorem Keeps.foldlM {body : β → α → EStateM ε σ β} (step : ∀ acc item, Keeps relation (body acc item))
    (items : List α) (init : β) : Keeps relation (items.foldlM body init) := by
  induction items generalizing init with
  | nil => exact Keeps.pure refl init
  | cons item rest ih =>
    rw [List.foldlM_cons]
    exact Keeps.bind trans (step init item) fun acc => ih acc

end

end CppCoder.Support.Program

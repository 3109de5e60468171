import Mathlib.Data.List.Induction
import Mathlib.Logic.Relation

/-! Machines that take one event after another, some of which cannot happen in some states. -/

namespace CppCoder.Support.Machine

variable {σ ε : Type}

/-- The state after the events, if each of them could happen. -/
def run (step : σ → ε → Option σ) (s : σ) (events : List ε) : Option σ := events.foldlM step s

variable {step : σ → ε → Option σ} {s s' : σ} {e : ε} {events : List ε}

@[simp] theorem run_nil : run step s [] = some s := rfl

theorem run_cons : run step s (e :: events) = (step s e).bind fun next => run step next events :=
  List.foldlM_cons

theorem run_append (first second : List ε) :
    run step s (first ++ second) = (run step s first).bind fun next => run step next second :=
  List.foldlM_append

theorem run_cons_eq (ran : run step s (e :: events) = some s') :
    ∃ next, step s e = some next ∧ run step next events = some s' := by
  rw [run_cons] at ran
  exact Option.bind_eq_some_iff.1 ran

theorem run_append_eq {first second : List ε} (ran : run step s (first ++ second) = some s') :
    ∃ next, run step s first = some next ∧ run step next second = some s' := by
  rw [run_append] at ran
  exact Option.bind_eq_some_iff.1 ran

theorem run_relates (relation : σ → σ → Prop) (refl : ∀ s, relation s s)
    (trans : ∀ a b c, relation a b → relation b c → relation a c)
    (kept : ∀ s e s', step s e = some s' → relation s s') (ran : run step s events = some s') :
    relation s s' := by
  induction events generalizing s with
  | nil => exact Option.some.inj ran ▸ refl s
  | cons e events ih =>
    obtain ⟨next, stepped, rest⟩ := run_cons_eq ran
    exact trans _ _ _ (kept s e next stepped) (ih rest)

theorem run_invariant (inv : σ → Prop) (kept : ∀ s e s', inv s → step s e = some s' → inv s')
    (start : inv s) (ran : run step s events = some s') : inv s' :=
  run_relates (fun a b => inv a → inv b) (fun _ holds => holds)
    (fun _ _ _ one two holds => two (one holds)) (fun s e s' stepped holds => kept s e s' holds stepped) ran
    start

theorem run_trace (inv : List ε → σ → Prop) (start : inv [] s)
    (kept : ∀ seen s1 e s2, run step s seen = some s1 → inv seen s1 → step s1 e = some s2 →
      inv (seen ++ [e]) s2)
    (ran : run step s events = some s') : inv events s' := by
  induction events using List.reverseRecOn generalizing s' with
  | nil => exact Option.some.inj ran ▸ start
  | append_singleton seen e ih =>
    obtain ⟨s1, before, stepped⟩ := run_append_eq ran
    obtain ⟨s2, stepped, rest⟩ := run_cons_eq stepped
    cases rest
    exact kept seen s1 e s' before (ih before) stepped

end CppCoder.Support.Machine

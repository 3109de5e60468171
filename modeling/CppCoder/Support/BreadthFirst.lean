import Mathlib.Data.List.Basic
import Mathlib.Data.List.Nodup
import Mathlib.Order.Bounds.Defs
import Mathlib.Order.Nat

/-! Breadth-first search with a queue that refuses an item whose key was ever accepted before.
The graph is not given in advance: visiting an item proposes further ones, any of which may repeat
a key, point back or point to the item itself. -/

namespace CppCoder.Support.BreadthFirst

variable {τ α : Type} [DecidableEq α] (key : τ → α)

/-- The items of a list whose key is neither in `seen` nor earlier in the list. -/
def fresh : List τ → List τ → List τ
  | _, [] => []
  | seen, t :: rest =>
      if key t ∈ seen.map key then fresh seen rest else t :: fresh (seen ++ [t]) rest

def firstOccurrences (items : List τ) : List τ := fresh key [] items

theorem fresh_append (seen first second : List τ) :
    fresh key seen (first ++ second) =
      fresh key seen first ++ fresh key (seen ++ fresh key seen first) second := by
  induction first generalizing seen with
  | nil => simp [fresh]
  | cons t rest ih =>
    simp only [List.cons_append, fresh]
    split_ifs with known
    · exact ih seen
    · simp [ih]

theorem firstOccurrences_append (first second : List τ) :
    firstOccurrences key (first ++ second) =
      firstOccurrences key first ++ fresh key (firstOccurrences key first) second := by
  simp [firstOccurrences, fresh_append]

theorem fresh_sublist (seen items : List τ) : (fresh key seen items).Sublist items := by
  induction items generalizing seen with
  | nil => exact List.Sublist.refl _
  | cons t rest ih =>
    simp only [fresh]
    split_ifs with known
    · exact (ih seen).cons t
    · exact (ih _).cons_cons t

theorem fresh_nodup {seen : List τ} (distinct : (seen.map key).Nodup) (items : List τ) :
    ((seen ++ fresh key seen items).map key).Nodup := by
  induction items generalizing seen with
  | nil => simpa [fresh] using distinct
  | cons t rest ih =>
    simp only [fresh]
    split_ifs with known
    · exact ih distinct
    · have grown : ((seen ++ [t]).map key).Nodup := by
        rw [List.map_append, List.nodup_append]
        refine ⟨distinct, by simp, ?_⟩
        intro a old b new same
        simp only [List.map_cons, List.map_nil, List.mem_singleton] at new
        exact known (new ▸ same ▸ old)
      simpa using ih grown

theorem firstOccurrences_nodup (items : List τ) :
    ((firstOccurrences key items).map key).Nodup := by
  have none : (([] : List τ).map key).Nodup := List.nodup_nil
  simpa [firstOccurrences] using fresh_nodup key none items

theorem fresh_covers (seen : List τ) {items : List τ} {t : τ} (member : t ∈ items) :
    ∃ kept ∈ seen ++ fresh key seen items, key kept = key t := by
  induction items generalizing seen with
  | nil => exact absurd member List.not_mem_nil
  | cons first rest ih =>
    simp only [fresh]
    split_ifs with known
    · rcases List.mem_cons.1 member with rfl | later
      · obtain ⟨kept, old, same⟩ := List.mem_map.1 known
        exact ⟨kept, List.mem_append_left _ old, same⟩
      · exact ih seen later
    · rcases List.mem_cons.1 member with rfl | later
      · exact ⟨t, by simp, rfl⟩
      · simpa using ih (seen ++ [first]) later

abbrev Log (τ : Type) := List (τ × List τ)

def Log.proposals (log : Log τ) : List τ := log.flatMap Prod.snd

def order (seed : τ) (log : Log τ) : List τ := firstOccurrences key (seed :: log.proposals)

variable (depth : τ → Nat)

/-- The runs of the search. A visit takes the front of the queue and appends what is new in its
proposals, which lie one level deeper. -/
inductive Explored (seed : τ) : Log τ → List τ → Prop
  | start : Explored seed [] [seed]
  | visit {log : Log τ} {t : τ} {rest : List τ} (proposed : List τ)
      (before : Explored seed log (t :: rest)) (deeper : ∀ c ∈ proposed, depth c = depth t + 1) :
      Explored seed (log ++ [(t, proposed)]) (rest ++ fresh key (order key seed log) proposed)

theorem order_visit (seed t : τ) (log : Log τ) (proposed : List τ) :
    order key seed (log ++ [(t, proposed)]) =
      order key seed log ++ fresh key (order key seed log) proposed := by
  have grown : (log ++ [(t, proposed)]).proposals = log.proposals ++ proposed := by
    simp [Log.proposals]
  unfold order
  rw [grown, ← List.cons_append, firstOccurrences_append]

variable {key depth} {seed : τ} {log : Log τ} {queue : List τ}

theorem Explored.order_eq (run : Explored key depth seed log queue) :
    log.map Prod.fst ++ queue = order key seed log := by
  induction run with
  | start => simp [order, Log.proposals, firstOccurrences, fresh]
  | visit proposed before _ ih =>
    rw [order_visit, ← ih]
    simp

theorem Explored.nodup (run : Explored key depth seed log queue) :
    ((log.map Prod.fst ++ queue).map key).Nodup := by
  rw [run.order_eq]
  exact firstOccurrences_nodup key _

theorem Explored.deeper (run : Explored key depth seed log queue) :
    ∀ visit ∈ log, ∀ c ∈ visit.2, depth c = depth visit.1 + 1 := by
  induction run with
  | start => simp
  | @visit log t rest proposed before level ih =>
    refine List.forall_mem_append.2 ⟨ih, ?_⟩
    simpa using level

theorem order_proposed {t : τ} (member : t ∈ order key seed log) :
    t = seed ∨ ∃ visit ∈ log, t ∈ visit.2 := by
  have listed := (fresh_sublist key [] _).subset member
  rcases List.mem_cons.1 listed with same | proposed
  · exact .inl same
  · exact .inr (List.mem_flatMap.1 proposed)

/-- The queue spans at most two levels, the lower one first, and no visited item is deeper than
its front. -/
theorem Explored.levels (run : Explored key depth seed log queue) :
    (order key seed log).Pairwise (fun a b => depth a ≤ depth b) ∧
      ∀ front ∈ queue.head?, ∀ t ∈ order key seed log, depth t ≤ depth front + 1 := by
  induction run with
  | start => simp [order, Log.proposals, firstOccurrences, fresh]
  | @visit log t rest proposed before deeper ih =>
    obtain ⟨sorted, near⟩ := ih
    have grown : ∀ c ∈ fresh key (order key seed log) proposed, depth c = depth t + 1 :=
      fun c member => deeper c ((fresh_sublist key _ _).subset member)
    rw [order_visit]
    constructor
    · rw [List.pairwise_append]
      refine ⟨sorted, ?_, ?_⟩
      · refine List.pairwise_of_forall_mem_list fun a first b second => ?_
        exact (grown a first).le.trans (grown b second).ge
      · intro a old b new
        rw [grown b new]
        exact near t (by simp) a old
    · intro front atFront a member
      -- whatever comes next in the queue is at least as deep as the item just visited
      have deep : depth t ≤ depth front := by
        rcases List.mem_append.1 (List.mem_of_mem_head? atFront) with waiting | new
        · have split := before.order_eq
          rw [← split, List.pairwise_append] at sorted
          exact (List.pairwise_cons.1 sorted.2.1).1 front waiting
        · rw [grown front new]
          exact Nat.le_succ _
      rcases List.mem_append.1 member with old | new
      · exact (near t (by simp) a old).trans (Nat.succ_le_succ deep)
      · rw [grown a new]
        exact Nat.succ_le_succ deep

/-- An edge of the explored graph: a visited item of the first key proposed one of the second. -/
def Hop (key : τ → α) (log : Log τ) (a b : α) : Prop :=
  ∃ visit ∈ log, key visit.1 = a ∧ ∃ c ∈ visit.2, key c = b

inductive Hops (key : τ → α) (log : Log τ) (a : α) : Nat → α → Prop
  | none : Hops key log a 0 a
  | snoc {n : Nat} {b c : α} (path : Hops key log a n b) (last : Hop key log b c) :
      Hops key log a (n + 1) c

omit [DecidableEq α] in
theorem Hops.mono {log more : Log τ} {a b : α} {n : Nat} (path : Hops key log a n b) :
    Hops key (log ++ more) a n b := by
  induction path with
  | none => exact .none
  | snoc _ last ih =>
    obtain ⟨visit, member, source, target⟩ := last
    exact .snoc ih ⟨visit, List.mem_append_left _ member, source, target⟩

theorem Explored.reached (run : Explored key depth seed log queue) :
    ∀ t ∈ order key seed log, Hops key log (key seed) (depth t - depth seed) (key t) ∧
      depth seed ≤ depth t := by
  induction run with
  | start =>
    intro t member
    simp only [order, Log.proposals, firstOccurrences, fresh, List.flatMap_nil, List.map_nil,
      List.not_mem_nil, if_false, List.mem_singleton] at member
    subst member
    exact ⟨by rw [Nat.sub_self]; exact .none, le_refl _⟩
  | @visit log t rest proposed before deeper ih =>
    intro c member
    rw [order_visit] at member
    rcases List.mem_append.1 member with old | new
    · exact ⟨(ih c old).1.mono, (ih c old).2⟩
    · have source : t ∈ order key seed log := by
        rw [← before.order_eq]
        simp
      have proposer := (fresh_sublist key _ _).subset new
      have level := deeper c proposer
      obtain ⟨path, above⟩ := ih t source
      have distance : depth c - depth seed = (depth t - depth seed) + 1 := by omega
      refine ⟨?_, by omega⟩
      rw [distance]
      exact .snoc path.mono ⟨(t, proposed), by simp, rfl, c, proposer, rfl⟩

/-- Along an edge the depth grows by at most one: the target was accepted at that visit or before. -/
theorem Explored.edge (run : Explored key depth seed log queue) :
    ∀ visit ∈ log, ∀ c ∈ visit.2, ∃ kept ∈ order key seed log,
      key kept = key c ∧ depth kept ≤ depth visit.1 + 1 := by
  induction run with
  | start => simp
  | @visit log t rest proposed before deeper ih =>
    intro visit member c proposal
    rw [order_visit]
    rcases List.mem_append.1 member with old | new
    · obtain ⟨kept, accepted, same, level⟩ := ih visit old c proposal
      exact ⟨kept, List.mem_append_left _ accepted, same, level⟩
    · rw [List.mem_singleton] at new
      subst new
      obtain ⟨kept, accepted, same⟩ := fresh_covers key (order key seed log) proposal
      refine ⟨kept, accepted, same, ?_⟩
      rcases List.mem_append.1 accepted with earlier | now
      · exact before.levels.2 t (by simp) kept earlier
      · exact (deeper kept ((fresh_sublist key _ _).subset now)).le

theorem Explored.log_mem (run : Explored key depth seed log queue) {visit : τ × List τ}
    (member : visit ∈ log) : visit.1 ∈ order key seed log := by
  rw [← run.order_eq]
  exact List.mem_append_left _ (List.mem_map_of_mem member)

theorem order_unique {a b : τ} (one : a ∈ order key seed log) (two : b ∈ order key seed log)
    (same : key a = key b) : a = b :=
  List.inj_on_of_nodup_map (firstOccurrences_nodup key _) one two same

theorem Explored.lower (run : Explored key depth seed log queue) {n : Nat} {a : α}
    (path : Hops key log (key seed) n a) :
    ∀ t ∈ order key seed log, key t = a → depth t ≤ depth seed + n := by
  induction path with
  | none =>
    intro t member same
    have first : seed ∈ order key seed log := by simp [order, firstOccurrences, fresh]
    rw [order_unique member first same]
    exact Nat.le_refl _
  | snoc _ last ih =>
    intro t member same
    obtain ⟨visit, visited, source, c, proposal, target⟩ := last
    obtain ⟨kept, accepted, equal, level⟩ := run.edge visit visited c proposal
    have above := ih visit.1 (run.log_mem visited) source
    rw [order_unique member accepted (same.trans (target.symm.trans equal.symm))]
    omega

theorem Explored.shortest (run : Explored key depth seed log queue) (root : depth seed = 0) {t : τ}
    (member : t ∈ order key seed log) : IsLeast {n | Hops key log (key seed) n (key t)} (depth t) := by
  constructor
  · have path := (run.reached t member).1
    rwa [root, Nat.sub_zero] at path
  · intro n path
    have bound := run.lower path t member rfl
    rwa [root, Nat.zero_add] at bound

end CppCoder.Support.BreadthFirst

import Nanami.Lib.Wp

/-!
# Loops with a decreasing measure

A source `loop { … }` whose rounds make a measure smaller is a total function. `loop` repeats a
round until it answers `none`, the source's `break`, and returns the value the last round was
started with. Its rules are the unfolding of one round and the invariant rule.
-/

namespace Nanami.Lib

variable {ε σ α : Type}

/-- Every round that goes on makes the measure smaller. -/
def Decreases (measure : α → Nat) (body : α → EStateM ε σ (Option α)) : Prop :=
  ∀ a s, wp (body a) (fun next _ => ∀ b ∈ next, measure b < measure a) (fun _ _ => True) s

/-- Repeat `body` until it breaks. -/
def loop (measure : α → Nat) (body : α → EStateM ε σ (Option α)) (h : Decreases measure body)
    (a : α) : EStateM ε σ α := fun s =>
  match _hrun : body a s with
  | .ok none t => .ok a t
  | .ok (some b) t => loop measure body h b t
  | .error e t => .error e t
termination_by measure a
decreasing_by exact wp_ok (h a _) _hrun b rfl

/-- What a round has to end in: `Q` of its start when it breaks, `I` of what it goes on with. -/
def afterRound (Q I : α → σ → Prop) (a : α) : Option α → σ → Prop
  | none => Q a
  | some b => I b

variable {measure : α → Nat} {body : α → EStateM ε σ (Option α)} {h : Decreases measure body}

/-- A loop is its first round, then the rest of it. -/
lemma loop_eq {a s} : loop measure body h a s = match body a s with
    | .ok none t => .ok a t
    | .ok (some b) t => loop measure body h b t
    | .error e t => .error e t := by
  rw [loop]
  split <;> simp only [*]

lemma wp_loop {a Q E} {s} :
    wp (loop measure body h a) Q E s ↔
      wp (body a) (afterRound Q (fun b => wp (loop measure body h b) Q E) a) E s := by
  simp only [wp, loop_eq (a := a)]
  cases body a s with
  | ok next t => cases next <;> rfl
  | error e t => rfl

/-- What every round keeps holds when the loop breaks, and what every round may fail with is what
the loop may fail with. -/
lemma wp_loop_invariant {I Q E} (hstep : ∀ a s, I a s → wp (body a) (afterRound Q I a) E s) {a} {s}
    (ha : I a s) : wp (loop measure body h a) Q E s := by
  induction hm : measure a using Nat.strongRecOn generalizing a s with
  | _ n ih =>
    rw [wp_loop]
    refine wp_mono (wp_and (hstep a s ha) (h a s)) (fun next t ht => ?_) (fun _ _ he => he.1)
    cases next with
    | none => exact ht.1
    | some b => exact ih (measure b) (hm ▸ ht.2 b rfl) ht.1 rfl

end Nanami.Lib

import Nanami.Lib.Loop

/-!
# Running code over a state with a record beside it

A program over `τ` mirrors a program over `σ` along a projection of the states when the two end in
the same way and in states that project onto each other. What a record kept beside the state says
of the first program's run then says it of the second's.
-/

namespace Nanami.Lib

variable {ε σ τ α β : Type} {project : τ → σ}

/-- A result with its state projected. -/
def projectResult (project : τ → σ) : EStateM.Result ε τ α → EStateM.Result ε σ α
  | .ok a t => .ok a (project t)
  | .error e t => .error e (project t)

/-- Every run of `m` is a run of `n` once its states are projected. -/
def Mirrors (project : τ → σ) (m : EStateM ε τ α) (n : EStateM ε σ α) : Prop :=
  ∀ t, projectResult project (m t) = n (project t)

lemma Mirrors.pure {a} : Mirrors project (pure a : EStateM ε τ α) (pure a) := fun _ => rfl

lemma Mirrors.throw {e} : Mirrors project (throw e : EStateM ε τ α) (throw e) := fun _ => rfl

lemma Mirrors.bind {m} {n : EStateM ε σ α} {f : α → EStateM ε τ β} {g : α → EStateM ε σ β}
    (h : Mirrors project m n) (hf : ∀ a, Mirrors project (f a) (g a)) :
    Mirrors project (m >>= f) (n >>= g) := by
  intro t
  have ht := h t
  simp only [Bind.bind, EStateM.bind]
  rw [← ht]
  cases m t with
  | ok a u => exact hf a u
  | error e u => rfl

lemma Mirrors.ite {c} [Decidable c] {m m' : EStateM ε τ α} {n n' : EStateM ε σ α}
    (h : Mirrors project m n) (h' : Mirrors project m' n') :
    Mirrors project (if c then m else m') (if c then n else n') := by
  split
  · exact h
  · exact h'

lemma Mirrors.okOr {o e} : Mirrors project (okOr o e : EStateM ε τ α) (okOr o e) := by
  cases o with
  | some a => exact .pure
  | none => exact .throw

lemma Mirrors.attempt {m} {n : EStateM ε σ α} (h : Mirrors project m n) :
    Mirrors project (attempt m) (attempt n) := by
  intro t
  have ht := h t
  simp only [Lib.attempt]
  rw [← ht]
  cases m t with
  | ok a u => rfl
  | error e u => rfl

lemma Mirrors.zoom {put} {n : EStateM ε σ α} (h : ∀ s t, project (put s t) = s) :
    Mirrors project (zoom project put n) n := by
  intro t
  simp only [Lib.zoom]
  cases n (project t) with
  | ok a u => exact congrArg _ (h u t)
  | error e u => exact congrArg _ (h u t)

lemma Mirrors.note {f} {m : EStateM ε τ α} {n : EStateM ε σ α} (hf : ∀ t, project (f t) = project t)
    (h : Mirrors project m n) : Mirrors project (modify f >>= fun _ => m) n := fun t =>
  (h (f t)).trans (congrArg n (hf t))

/-- Loops mirror each other when their rounds do. -/
lemma Mirrors.loop {measure} {body : α → EStateM ε τ (Option α)}
    {body' : α → EStateM ε σ (Option α)} {h : Decreases measure body} {h' : Decreases measure body'}
    (hbody : ∀ a, Mirrors project (body a) (body' a)) (a : α) :
    Mirrors project (loop measure body h a) (loop measure body' h' a) := by
  intro t
  induction hm : measure a using Nat.strongRecOn generalizing a t with
  | _ n ih =>
    rw [loop_eq, loop_eq, ← hbody a t]
    cases hrun : body a t with
    | error e u => rfl
    | ok next u =>
      cases next with
      | none => rfl
      | some b => exact ih (measure b) (hm ▸ wp_ok (h a t) hrun b rfl) b u rfl

end Nanami.Lib

import Mathlib

/-!
# Weakest preconditions for fallible state-passing code

Code that takes `&mut self` and returns a `Result` is embedded in `EStateM ε σ`: a run ends in
`ok` or `error`, and in both cases keeps the state it has reached. `wp m Q E s` says that running
`m` from `s` ends in `Q` when it succeeds and in `E` when it fails. The rules below take a program
apart one statement at a time; `wp_mono` uses the specification of a callee at its call.
-/

namespace Nanami.Lib

variable {ε σ τ α β : Type}

/-- Running `m` from `s` ends in `Q` on success and in `E` on failure. -/
def wp (m : EStateM ε σ α) (Q : α → σ → Prop) (E : ε → σ → Prop) (s : σ) : Prop :=
  match m s with
  | .ok a t => Q a t
  | .error e t => E e t

/-- However a run ends, it ends in `P`. -/
abbrev ends (m : EStateM ε σ α) (P : σ → Prop) (s : σ) : Prop := wp m (fun _ => P) (fun _ => P) s

/-- A run does not fail, and ends in `Q`. -/
abbrev sure (m : EStateM ε σ α) (Q : α → σ → Prop) (s : σ) : Prop := wp m Q (fun _ _ => False) s

/-- A run that does not fail ends in `Q`. -/
abbrev ifOk (m : EStateM ε σ α) (Q : α → σ → Prop) (s : σ) : Prop := wp m Q (fun _ _ => True) s

variable {a : α} {e : ε} {m : EStateM ε σ α} {f : α → EStateM ε σ β} {Q Q' : α → σ → Prop}
  {E E' : ε → σ → Prop} {s t : σ}

@[simp] lemma wp_pure : wp (pure a) Q E s ↔ Q a s := Iff.rfl

@[simp] lemma wp_throw : wp (throw e) Q E s ↔ E e s := Iff.rfl

@[simp] lemma wp_get {Q} : wp get Q E s ↔ Q s s := Iff.rfl

@[simp] lemma wp_set {Q} : wp (set t) Q E s ↔ Q ⟨⟩ t := Iff.rfl

@[simp] lemma wp_modify {f Q} : wp (modify f) Q E s ↔ Q ⟨⟩ (f s) := Iff.rfl

@[simp] lemma wp_bind {Q} :
    wp (m >>= f) Q E s ↔ wp m (fun a t => wp (f a) Q E t) E s := by
  simp only [wp, bind, EStateM.bind]
  cases m s <;> rfl

lemma wp_read {f : σ → EStateM ε σ β} {Q} : wp (get >>= f) Q E s ↔ wp (f s) Q E s := wp_bind

lemma wp_write {f : PUnit → EStateM ε σ β} {Q} :
    wp (set t >>= f) Q E s ↔ wp (f ⟨⟩) Q E t := wp_bind

lemma wp_update {g} {f : PUnit → EStateM ε σ β} {Q} :
    wp (modify g >>= f) Q E s ↔ wp (f ⟨⟩) Q E (g s) := wp_bind

@[simp] lemma wp_map {f : α → β} {Q} :
    wp (f <$> m) Q E s ↔ wp m (fun a t => Q (f a) t) E s := by
  simp only [wp, Functor.map, EStateM.map]
  cases m s <;> rfl

lemma wp_ite {c} [Decidable c] {n} (ht : c → wp m Q E s)
    (hf : ¬c → wp n Q E s) : wp (if c then m else n) Q E s := by
  split
  · exact ht ‹_›
  · exact hf ‹_›

/-- The rule of consequence: a callee's specification is used at its call. -/
lemma wp_mono (h : wp m Q E s) (hQ : ∀ a t, Q a t → Q' a t) (hE : ∀ e t, E e t → E' e t) :
    wp m Q' E' s := by
  simp only [wp] at h ⊢
  cases hm : m s with
  | ok a t => rw [hm] at h; exact hQ a t h
  | error e t => rw [hm] at h; exact hE e t h

/-- The rule of consequence for success alone. -/
lemma wp_post (h : wp m Q E s) (hQ : ∀ a t, Q a t → Q' a t) : wp m Q' E s :=
  wp_mono h hQ fun _ _ he => he

/-- The rule of consequence where both outcomes end in one condition. -/
lemma ends_mono {P P'} (h : ends m P s) (hp : ∀ t, P t → P' t) : ends m P' s :=
  wp_mono h (fun _ => hp) fun _ => hp

lemma wp_seq {P Q} (h : wp m P E s) (hf : ∀ a t, P a t → wp (f a) Q E t) : wp (m >>= f) Q E s :=
  wp_bind.mpr (wp_post h hf)

lemma wp_then {P Q} (h : wp m P E' s) (hf : ∀ a t, P a t → wp (f a) Q E t)
    (he : ∀ e t, E' e t → E e t) : wp (m >>= f) Q E s :=
  wp_bind.mpr (wp_mono h hf he)

lemma wp_sure {P Q} (h : sure m P s) (hf : ∀ a t, P a t → wp (f a) Q E t) : wp (m >>= f) Q E s :=
  wp_then h hf fun _ _ he => he.elim

lemma wp_guard {c : Prop} [Decidable c] (he : E e s) (hm : ¬c → wp m Q E s) :
    wp (if c then throw e else m) Q E s :=
  wp_ite (fun _ => he) hm

lemma wp_and (h : wp m Q E s) (h' : wp m Q' E' s) :
    wp m (fun a t => Q a t ∧ Q' a t) (fun e t => E e t ∧ E' e t) s := by
  simp only [wp] at h h' ⊢
  cases hm : m s with
  | ok a t => rw [hm] at h h'; exact ⟨h, h'⟩
  | error e t => rw [hm] at h h'; exact ⟨h, h'⟩

lemma wp_ok (h : wp m Q E s) (hm : m s = .ok a t) : Q a t := by
  simp only [wp, hm] at h
  exact h

lemma wp_error (h : wp m Q E s) (hm : m s = .error e t) : E e t := by
  simp only [wp, hm] at h
  exact h

lemma wp_of_ok (hm : m s = .ok a t) (h : Q a t) : wp m Q E s := by
  simp only [wp, hm]
  exact h

lemma wp_of_error (hm : m s = .error e t) (h : E e t) : wp m Q E s := by
  simp only [wp, hm]
  exact h

lemma wp_of_run (hok : ∀ a t, m s = .ok a t → Q a t)
    (herr : ∀ e t, m s = .error e t → E e t) : wp m Q E s := by
  simp only [wp]
  cases hm : m s with
  | ok a t => exact hok a t hm
  | error e t => exact herr e t hm

lemma wp_true : wp m (fun _ _ => True) (fun _ _ => True) s :=
  wp_of_run (fun _ _ _ => trivial) (fun _ _ _ => trivial)

/-- The state a run ends in, whatever its result. -/
def stateAfter (m : EStateM ε σ α) (s : σ) : σ :=
  match m s with
  | .ok _ t => t
  | .error _ t => t

lemma stateAfter_of_wp {P} (h : ends m P s) : P (stateAfter m s) := by
  simp only [wp] at h
  simp only [stateAfter]
  cases hm : m s with
  | ok a t => rw [hm] at h; exact h
  | error e t => rw [hm] at h; exact h

/-- Whether a run succeeds. -/
def succeeds (m : EStateM ε σ α) (s : σ) : Bool :=
  match m s with
  | .ok _ _ => true
  | .error _ _ => false

lemma succeeds_of_ok (h : m s = .ok a t) : succeeds m s = true := by
  rw [succeeds, h]

lemma succeeds_of_error (h : m s = .error e t) : succeeds m s = false := by
  rw [succeeds, h]

lemma exists_ok_of_succeeds (h : succeeds m s = true) : ∃ a t, m s = .ok a t := by
  cases hm : m s with
  | ok a t => exact ⟨a, t, rfl⟩
  | error e t =>
    simp only [succeeds, hm] at h
    cases h

/-- A run that ends in `P` or fails in its negation decides `P`. -/
lemma succeeds_iff_of_wp {P : Prop} (h : wp m (fun _ _ => P) (fun _ _ => ¬P) s) :
    succeeds m s = true ↔ P := by
  simp only [wp] at h
  simp only [succeeds]
  cases hm : m s <;> simp_all

/-- `Option::ok_or(e)?`. -/
def okOr (o : Option α) (e : ε) : EStateM ε σ α :=
  match o with
  | some a => pure a
  | none => throw e

@[simp] lemma okOr_some : (okOr (some a) e : EStateM ε σ α) = pure a := rfl

@[simp] lemma okOr_none : (okOr (none : Option α) e : EStateM ε σ α) = throw e := rfl

lemma wp_okOr {o} (hs : ∀ a, o = some a → Q a s) (hn : o = none → E e s) :
    wp (okOr o e) Q E s := by
  cases o with
  | some a => exact hs a rfl
  | none => exact hn rfl

lemma wp_lookup {o Q} (he : E e s) (hf : ∀ a, o = some a → wp (f a) Q E s) :
    wp (okOr o e >>= f) Q E s := by
  rw [wp_bind]
  exact wp_okOr hf fun _ => he

/-- A `Result` computed without touching the state, followed by `?`. -/
def fromResult (r : Except ε α) : EStateM ε σ α :=
  match r with
  | .ok a => pure a
  | .error e => throw e

@[simp] lemma fromResult_ok : (fromResult (.ok a) : EStateM ε σ α) = pure a := rfl

lemma wp_fromResult {r} (hok : ∀ a, r = .ok a → Q a s)
    (herr : ∀ e, r = .error e → E e s) : wp (fromResult r) Q E s := by
  cases r with
  | ok a => exact hok a rfl
  | error e => exact herr e rfl

lemma wp_result {r Q} (he : ∀ e, E e s) (hf : ∀ a, r = .ok a → wp (f a) Q E s) :
    wp (fromResult r >>= f) Q E s :=
  wp_bind.mpr (wp_fromResult hf fun e _ => he e)

/-- Run code of a component `τ` on the field of `σ` that holds it. -/
def zoom (get : σ → τ) (put : τ → σ → σ) (m : EStateM ε τ α) : EStateM ε σ α := fun s =>
  match m (get s) with
  | .ok a t => .ok a (put t s)
  | .error e t => .error e (put t s)

lemma wp_zoom {get} {put : τ → σ → σ} {m : EStateM ε τ α} :
    wp (zoom get put m) Q E s ↔
      wp m (fun a t => Q a (put t s)) (fun e t => E e (put t s)) (get s) := by
  simp only [wp, zoom]
  cases m (get s) <;> rfl

/-- A call whose error is mapped to the caller's, as `map_err` or `?` does. -/
def adapt {ε' : Type} (f : ε → ε') (m : EStateM ε σ α) : EStateM ε' σ α := fun s =>
  match m s with
  | .ok a t => .ok a t
  | .error e t => .error (f e) t

lemma wp_adapt {ε' f} {E : ε' → σ → Prop} :
    wp (adapt f m) Q E s ↔ wp m Q (fun e t => E (f e) t) s := by
  simp only [wp, adapt]
  cases m s <;> rfl

/-- The result of a call as a value, for a caller that inspects it instead of using `?`. -/
def attempt (m : EStateM ε σ α) : EStateM ε σ (Except ε α) := fun s =>
  match m s with
  | .ok a t => .ok (.ok a) t
  | .error e t => .ok (.error e) t

@[simp] lemma wp_attempt {Q} :
    wp (attempt m) Q E s ↔ wp m (fun a t => Q (.ok a) t) (fun e t => Q (.error e) t) s := by
  simp only [wp, attempt]
  cases m s <;> rfl

lemma wp_try {f : Except ε α → EStateM ε σ β} {Q} : wp (attempt m >>= f) Q E s ↔
    wp m (fun a t => wp (f (.ok a)) Q E t) (fun e t => wp (f (.error e)) Q E t) s := by
  rw [wp_bind, wp_attempt]

/-- `for a in l { f(a)?; }`. -/
def forEach (f : α → EStateM ε σ PUnit) : List α → EStateM ε σ PUnit
  | [] => pure ⟨⟩
  | a :: l => do
    f a
    forEach f l

/-! ### What a run leaves as it is -/

section Preserves

variable {γ : Type} {view : σ → γ}

/-- Every run of `m` leaves what `view` shows of the state as it was. -/
def Preserves (view : σ → γ) (m : EStateM ε σ α) : Prop :=
  ∀ s, wp m (fun _ t => view t = view s) (fun _ t => view t = view s) s

protected lemma Preserves.pure : Preserves view (pure a : EStateM ε σ α) := fun _ => rfl

protected lemma Preserves.throw : Preserves view (throw e : EStateM ε σ α) := fun _ => rfl

protected lemma Preserves.modify {f} (h : ∀ s, view (f s) = view s) :
    Preserves view (modify f : EStateM ε σ PUnit) := h

lemma Preserves.after (h : Preserves view m) (ht : view t = view s) :
    ends m (fun u => view u = view s) t :=
  ends_mono (h t) fun _ hu => hu.trans ht

protected lemma Preserves.bind (hm : Preserves view m) (hf : ∀ a, Preserves view (f a)) :
    Preserves view (m >>= f) := by
  intro s
  rw [wp_bind]
  exact wp_mono (hm s) (fun a _ ht => (hf a).after ht) (fun _ _ ht => ht)

/-- After the state is read, the rest runs from the state that was read. -/
protected lemma Preserves.get {f : σ → EStateM ε σ α}
    (hf : ∀ s, wp (f s) (fun _ t => view t = view s) (fun _ t => view t = view s) s) :
    Preserves view (get >>= f) := by
  intro s
  exact hf s

protected lemma Preserves.ite {c} [Decidable c] {n} (hm : Preserves view m)
    (hn : Preserves view n) : Preserves view (if c then m else n) :=
  fun s => wp_ite (fun _ => hm s) (fun _ => hn s)

protected lemma Preserves.okOr {o : Option α} : Preserves view (okOr o e : EStateM ε σ α) :=
  fun _ => wp_okOr (fun _ _ => rfl) (fun _ => rfl)

protected lemma Preserves.fromResult {r : Except ε α} : Preserves view (fromResult r : EStateM ε σ α) :=
  fun _ => wp_fromResult (fun _ _ => rfl) (fun _ _ => rfl)

protected lemma Preserves.map {f : α → β} (h : Preserves view m) : Preserves view (f <$> m) := by
  intro s
  rw [wp_map]
  exact h s

protected lemma Preserves.attempt (h : Preserves view m) : Preserves view (attempt m) := by
  intro s
  rw [wp_attempt]
  exact h s

protected lemma Preserves.forEach {f : α → EStateM ε σ PUnit} (h : ∀ a, Preserves view (f a)) (l : List α) :
    Preserves view (forEach f l) := by
  induction l with
  | nil => exact .pure
  | cons a l ih => exact .bind (h a) fun _ => ih

lemma Preserves.weaken {δ} {part : σ → δ} (h : Preserves view m)
    (hpart : ∀ s t, view t = view s → part t = part s) : Preserves part m :=
  fun s => ends_mono (h s) (hpart s)

end Preserves

end Nanami.Lib

import Nanami.Lib.Wp

/-!
# Checked indexing

Code that indexes and slices arrays ends in a panic when it leaves them. Such code is embedded in
`Except Panic`, and `Returns m Q` says that `m` ends without a panic, with a result that satisfies
`Q`. The rules take a program apart one read at a time.
-/

namespace Nanami.Lib

/-- An access outside an array: at an index, or of a slice. -/
inductive Panic where
  | index (i length : Nat)
  | slice (lo hi length : Nat)
  deriving DecidableEq, Repr

abbrev Checked := Except Panic

variable {α β : Type}

/-- `xs[i]`. -/
def itemAt (xs : List α) (i : Nat) : Checked α :=
  match xs[i]? with
  | some x => pure x
  | none => throw (.index i xs.length)

/-- `&xs[lo..hi]`. -/
def slice (xs : List α) (lo hi : Nat) : Checked (List α) :=
  if lo ≤ hi ∧ hi ≤ xs.length then pure ((xs.take hi).drop lo) else throw (.slice lo hi xs.length)

/-- The computation ends without a panic, in `Q`. -/
def Returns (m : Checked α) (Q : α → Prop) : Prop :=
  match m with
  | .ok a => Q a
  | .error _ => False

protected lemma Returns.pure {a} {Q : α → Prop} (h : Q a) : Returns (pure a) Q := h

protected lemma Returns.bind {m f} {P : α → Prop} {Q : β → Prop} (hm : Returns m P)
    (hf : ∀ a, P a → Returns (f a) Q) : Returns (m >>= f) Q := by
  cases m with
  | ok a => exact hf a hm
  | error e => exact hm.elim

protected lemma Returns.ite {c} [Decidable c] {m n} {Q : α → Prop} (ht : c → Returns m Q)
    (hf : ¬c → Returns n Q) : Returns (if c then m else n) Q := by
  split
  · exact ht ‹_›
  · exact hf ‹_›

protected lemma Returns.guard {c a} [Decidable c] {m : Checked α} (hm : ¬c → Returns m fun _ => True) :
    Returns (if c then pure a else m) fun _ => True :=
  .ite (fun _ => trivial) hm

protected lemma Returns.last {m P} {f : α → β} (hm : Returns m P) :
    Returns (m >>= fun a => pure (f a)) fun _ => True :=
  .bind hm fun _ _ => trivial

protected lemma Returns.itemAt {xs : List α} {i} (h : i < xs.length) :
    Returns (itemAt xs i) fun x => xs[i]? = some x := by
  rw [itemAt, List.getElem?_eq_getElem h]
  exact rfl

protected lemma Returns.slice {xs : List α} {lo hi : Nat} (hlo : lo ≤ hi) (hhi : hi ≤ xs.length) :
    Returns (slice xs lo hi) fun ys => ys.length = hi - lo := by
  rw [slice, if_pos ⟨hlo, hhi⟩]
  refine .pure ?_
  simp only [List.length_drop, List.length_take]
  omega

lemma wp_checked {σ m P} {Q : α → σ → Prop} {E} {s : σ} (hm : Returns m P) (hQ : ∀ a, P a → Q a s) :
    wp (fromResult m) Q E s := by
  cases m with
  | ok a => exact hQ a hm
  | error e => exact hm.elim

end Nanami.Lib

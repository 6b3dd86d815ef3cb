import Mathlib

/-!
# Chains through a table of links

A singly linked list whose links are a function of the cell. `Linked next head cells` says that
following `next` from `head` visits exactly `cells`, in this order.
-/

namespace Nanami.Lib
open Function

/-- Following the links from `head` visits `cells`. -/
inductive Linked {α : Type} (next : α → Option α) : Option α → List α → Prop where
  | nil : Linked next none []
  | cons {a cells} : Linked next (next a) cells → Linked next (some a) (a :: cells)

variable {α : Type} [DecidableEq α] {next next' : α → Option α} {head : Option α}
  {cells pre post : List α} {a p : α}

omit [DecidableEq α] in
lemma Linked.congr (h : Linked next head cells) (heq : ∀ a ∈ cells, next' a = next a) :
    Linked next' head cells := by
  induction h with
  | nil => exact .nil
  | @cons a cells _ ih =>
    refine .cons ?_
    rw [heq a List.mem_cons_self]
    exact ih fun b hb => heq b (List.mem_cons_of_mem _ hb)

lemma Linked.push (h : Linked next head cells) (ha : a ∉ cells) :
    Linked (update next a head) (some a) (a :: cells) := by
  refine .cons ?_
  rw [update_self]
  exact h.congr fun b hb => update_of_ne (ne_of_mem_of_not_mem hb ha) _ _

omit [DecidableEq α] in
lemma Linked.suffix (h : Linked next head (pre ++ a :: post)) : Linked next (next a) post := by
  induction pre generalizing head with
  | nil =>
    cases h with
    | cons h => exact h
  | cons b pre ih =>
    cases h with
    | cons h => exact ih h

lemma Linked.unlink_first (h : Linked next head (a :: post)) (ha : a ∉ post) :
    Linked (update next a none) (next a) post := by
  cases h with
  | cons h => exact h.congr fun b hb => update_of_ne (ne_of_mem_of_not_mem hb ha) _ _

lemma Linked.unlink_later (h : Linked next head (pre ++ p :: a :: post))
    (hnodup : (pre ++ p :: a :: post).Nodup) :
    Linked (update (update next p (next a)) a none) head (pre ++ p :: post) := by
  induction pre generalizing head with
  | nil =>
    cases h with
    | cons h =>
      obtain ⟨hp, hnodup⟩ := List.nodup_cons.mp hnodup
      obtain ⟨ha, -⟩ := List.nodup_cons.mp hnodup
      have hpa : p ≠ a := fun h => hp (h ▸ List.mem_cons_self)
      refine .cons ?_
      rw [update_of_ne hpa, update_self]
      rw [← List.nil_append (a :: post)] at h
      refine h.suffix.congr fun b hb => ?_
      rw [update_of_ne (ne_of_mem_of_not_mem hb ha),
        update_of_ne (ne_of_mem_of_not_mem (List.mem_cons_of_mem _ hb) hp)]
  | cons b pre ih =>
    cases h with
    | cons h =>
      obtain ⟨hb, hnodup⟩ := List.nodup_cons.mp hnodup
      have hba : b ≠ a := fun h => hb (h ▸ by simp)
      have hbp : b ≠ p := fun h => hb (h ▸ by simp)
      refine .cons ?_
      rw [update_of_ne hba, update_of_ne hbp]
      exact ih h hnodup

end Nanami.Lib

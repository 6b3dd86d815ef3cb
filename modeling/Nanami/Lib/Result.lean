import Mathlib

/-!
# Results

A `Result` without state is an `Except`. The two lemmas take a successful computation apart: at a call
followed by `?`, and at a check in front of the rest.
-/

namespace Nanami.Lib

variable {ε α β : Type}

lemma bind_ok {r} {f : α → Except ε β} {b} (h : r >>= f = .ok b) :
    ∃ a, r = .ok a ∧ f a = .ok b := by
  cases r with
  | error e => cases h
  | ok a => exact ⟨a, rfl, h⟩

lemma guard_ok {c} [Decidable c] {e} {r : Except ε α} {a} (h : (if c then throw e else r) = .ok a) :
    ¬c ∧ r = .ok a := by
  split at h
  · cases h
  · exact ⟨‹_›, h⟩

lemma ok_of_toOption {r : Except ε α} {a} (h : r.toOption = some a) : r = .ok a := by
  cases r with
  | error e => cases h
  | ok a' => exact congrArg Except.ok (Option.some.inj h)

end Nanami.Lib

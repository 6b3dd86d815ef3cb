import Mathlib

/-!
# Sequence numbers and fragments of a stream

Positions of a stream of any length numbered by 32-bit words that wrap around. Two positions less than
half the number space apart can be told apart and put in order by the wrapped difference of their
numbers. A fragment is a prefix of the stream from its offset on.
-/

namespace Nanami.Lib.Sequence

/-- The number of a position, counted from `base`. -/
def number (base : UInt32) (position : Nat) : UInt32 := base + UInt32.ofNat position

variable {base : UInt32} {a b n : Nat}

@[simp] lemma number_zero : number base 0 = base := by
  simp [number]

lemma number_add : number base a + UInt32.ofNat n = number base (a + n) := by
  rw [number, number, UInt32.ofNat_add, UInt32.add_assoc]

/-- The wrapped difference from an earlier position. -/
lemma toNat_sub_of_le (hab : a ≤ b) (hnear : b < a + 2 ^ 32) :
    (number base b - number base a).toNat = b - a := by
  simp only [number, UInt32.toNat_sub, UInt32.toNat_add, UInt32.toNat_ofNat']
  omega

/-- The wrapped difference from a later position is large. -/
lemma le_toNat_sub_of_lt (hab : b < a) (hnear : a < b + 2 ^ 31) :
    2 ^ 31 < (number base b - number base a).toNat := by
  simp only [number, UInt32.toNat_sub, UInt32.toNat_add, UInt32.toNat_ofNat']
  omega

lemma number_inj (hab : a < b + 2 ^ 32) (hba : b < a + 2 ^ 32)
    (h : number base a = number base b) : a = b := by
  have hnat := congrArg UInt32.toNat h
  simp only [number, UInt32.toNat_add, UInt32.toNat_ofNat'] at hnat
  omega

variable {α : Type} {held stream payload : List α}

lemma prefix_append_drop (hheld : held <+: stream) (hfragment : payload <+: stream.drop a)
    (ha : a ≤ held.length) : held ++ (payload.drop (held.length - a)).take n <+: stream := by
  have hrest : (payload.drop (held.length - a)).take n <+: stream.drop held.length := by
    refine (List.take_prefix _ _).trans ?_
    have hdrop := hfragment.drop (held.length - a)
    rwa [List.drop_drop, Nat.add_sub_cancel' ha] at hdrop
  obtain ⟨rest, rfl⟩ := hheld
  rw [List.drop_left] at hrest
  exact (List.prefix_append_right_inj held).mpr hrest

end Nanami.Lib.Sequence

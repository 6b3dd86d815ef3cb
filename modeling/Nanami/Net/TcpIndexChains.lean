import Nanami.Net.Tcp
import Nanami.Lib.Chain
import Nanami.Lib.Slots

/-!
# The connection index

The chains of `TcpIndex` hold exactly the active connections, each in the bucket of its addresses.
`find` is then a search among the active connections, `vacant` finds a slot without one, and `insert`
and `remove` keep the index in step with the table.
-/

namespace Nanami.Net

open Lib Function List

def TcpConnection.Serves (conn : TcpConnection) (ip : Ipv4) (peerPort localPort : UInt16) : Prop :=
  conn.active = true ∧ TcpIndex.hasTriple conn ip peerPort localPort = true

def TcpConnection.bucket (conn : TcpConnection) : Nat :=
  TcpIndex.bucket conn.peerIp conn.peerPort conn.localPort

variable {conn : TcpConnection} {ip : Ipv4} {peerPort localPort : UInt16}

lemma TcpIndex.hasTriple_iff :
    hasTriple conn ip peerPort localPort = true ↔
      conn.peerIp = ip ∧ conn.peerPort = peerPort ∧ conn.localPort = localPort := by
  simp [hasTriple, and_assoc]

lemma TcpConnection.bucket_eq (h : TcpIndex.hasTriple conn ip peerPort localPort = true) :
    conn.bucket = TcpIndex.bucket ip peerPort localPort := by
  obtain ⟨rfl, rfl, rfl⟩ := TcpIndex.hasTriple_iff.mp h
  rfl

namespace TcpIndex

/-- The chains of the index, one from each bucket. -/
structure Chained (index : TcpIndex) (connections : Nat → TcpConnection) (chains : Nat → List Nat) :
    Prop where
  linked : ∀ b, Linked index.next (index.buckets b) (chains b)
  nodup : ∀ b, (chains b).Nodup
  mem : ∀ b i, i ∈ chains b ↔
    i < tcpMaxConnections ∧ (connections i).active = true ∧ (connections i).bucket = b
  free : ∀ i < tcpMaxConnections, index.free i = !(connections i).active

def Indexes (index : TcpIndex) (connections : Nat → TcpConnection) : Prop :=
  ∃ chains, Chained index connections chains

variable {index : TcpIndex} {connections : Nat → TcpConnection} {chains : Nat → List Nat}
  {i b fuel : Nat} {conn : TcpConnection} {ip : Ipv4} {peerPort localPort : UInt16}

lemma empty_indexes : empty.Indexes fun _ => .empty :=
  ⟨fun _ => [], fun _ => .nil, fun _ => nodup_nil, by simp [TcpConnection.empty], fun _ _ => rfl⟩

lemma Chained.length_le (h : Chained index connections chains) :
    (chains b).length ≤ tcpMaxConnections := by
  exact Slots.length_le_of_nodup (h.nodup b) fun i hi => ((h.mem b i).mp hi).1

/-! ### Lookups -/

variable {head previous : Option Nat} {pre post : List Nat}

lemma findFrom_eq {wanted cells} (h : Linked index.next head cells) (hfuel : cells.length ≤ fuel) :
    index.findFrom wanted fuel head = cells.find? wanted := by
  induction h generalizing fuel with
  | nil => rw [findFrom, find?_nil]
  | @cons a cells _ ih =>
    obtain ⟨fuel, rfl⟩ : ∃ n, fuel = n + 1 := Nat.exists_eq_succ_of_ne_zero (by simp at hfuel; omega)
    rw [findFrom, find?_cons]
    split
    · simp_all
    · simp_all

lemma find_eq (h : Chained index connections chains) :
    index.find connections ip peerPort localPort =
      (chains (bucket ip peerPort localPort)).find? fun slot =>
        hasTriple (connections slot) ip peerPort localPort :=
  findFrom_eq (h.linked _) h.length_le

section

variable (h : index.Indexes connections)
include h

lemma Indexes.of_find (hfind : index.find connections ip peerPort localPort = some i) :
    (connections i).Serves ip peerPort localPort := by
  obtain ⟨chains, h⟩ := h
  rw [find_eq h] at hfind
  obtain ⟨_, hactive, -⟩ := (h.mem _ i).mp (mem_of_find?_eq_some hfind)
  have htriple := find?_some hfind
  exact ⟨hactive, htriple⟩

lemma Indexes.of_find_none
    (hfind : index.find connections ip peerPort localPort = none) (hi : i < tcpMaxConnections) :
    ¬(connections i).Serves ip peerPort localPort := by
  obtain ⟨chains, h⟩ := h
  rintro ⟨hactive, htriple⟩
  rw [find_eq h, find?_eq_none] at hfind
  exact hfind i ((h.mem _ i).mpr ⟨hi, hactive, TcpConnection.bucket_eq htriple⟩) htriple

lemma Indexes.of_vacant (hv : index.vacant = some i) :
    i < tcpMaxConnections ∧ (connections i).active = false := by
  obtain ⟨chains, h⟩ := h
  unfold vacant at hv
  have hi := mem_range.mp (mem_of_find?_eq_some hv)
  have hfree := find?_some hv
  rw [h.free i hi] at hfree
  exact ⟨hi, by simpa using hfree⟩

/-! ### Changes -/

lemma Indexes.update (hactive : conn.active = (connections i).active)
    (hbucket : conn.active = true → conn.bucket = (connections i).bucket) :
    index.Indexes (update connections i conn) := by
  obtain ⟨chains, h⟩ := h
  refine ⟨chains, h.linked, h.nodup, fun b j => ?_, fun j hj => ?_⟩
  · rw [h.mem]
    by_cases hji : j = i
    · subst hji
      rw [update_self, ← hactive]
      constructor
      · rintro ⟨hj, ha, hb⟩
        exact ⟨hj, ha, (hbucket ha).trans hb⟩
      · rintro ⟨hj, ha, hb⟩
        exact ⟨hj, ha, (hbucket ha).symm.trans hb⟩
    · rw [update_of_ne hji]
  · by_cases hji : j = i
    · subst hji
      rw [update_self, hactive]
      exact h.free j hj
    · rw [update_of_ne hji]
      exact h.free j hj

lemma Indexes.insert (hi : i < tcpMaxConnections)
    (hvacant : (connections i).active = false) (hconn : conn.Serves ip peerPort localPort) :
    (index.insert i ip peerPort localPort).2.Indexes (Function.update connections i conn) := by
  obtain ⟨chains, h⟩ := h
  have hbucket := TcpConnection.bucket_eq hconn.2
  have hmem : ∀ b, i ∉ chains b := fun b hb => by simp [((h.mem b i).mp hb).2.1] at hvacant
  refine ⟨Function.update chains (bucket ip peerPort localPort)
    (i :: chains (bucket ip peerPort localPort)), fun b => ?_, ?_, fun b j => ?_, fun j hj => ?_⟩
  · show Linked (Function.update index.next i _) (Function.update index.buckets _ (some i) b) _
    by_cases hb : b = bucket ip peerPort localPort
    · subst hb
      rw [update_self, update_self]
      exact (h.linked _).push (hmem _)
    · rw [update_of_ne hb, update_of_ne hb]
      exact (h.linked b).congr fun j hj =>
        update_of_ne (ne_of_mem_of_not_mem hj (hmem b)) _ _
  · exact (forall_update_iff chains fun _ chain => chain.Nodup).mpr
      ⟨nodup_cons.mpr ⟨hmem _, h.nodup _⟩, fun b _ => h.nodup b⟩
  · by_cases hji : j = i
    · subst hji
      rw [update_self]
      by_cases hb : b = bucket ip peerPort localPort
      · subst hb
        simp [hi, hconn.1, hbucket]
      · rw [update_of_ne hb]
        simp only [hmem b, false_iff, not_and]
        exact fun _ _ heq => hb (heq.symm.trans hbucket)
    · rw [update_of_ne hji, ← h.mem]
      by_cases hb : b = bucket ip peerPort localPort
      · subst hb
        simp [hji]
      · rw [Function.update_of_ne hb]
  · show Function.update index.free i false j = _
    by_cases hji : j = i
    · subst hji
      simp [hconn.1]
    · rw [update_of_ne hji, update_of_ne hji]
      exact h.free j hj

end

/-- The loop of `remove` finds its slot in the chain, behind `previous`. -/
lemma removeFrom_eq (h : Linked index.next head (pre ++ i :: post)) (hpre : i ∉ pre)
    (hfuel : pre.length < fuel) :
    index.removeFrom b i fuel previous head = index.unlink b i (pre.getLast?.or previous) := by
  induction pre generalizing head previous fuel with
  | nil =>
    obtain ⟨fuel, rfl⟩ := Nat.exists_eq_succ_of_ne_zero (Nat.ne_of_gt hfuel)
    cases h with
    | cons h => rw [removeFrom, if_pos rfl, getLast?_nil, Option.none_or]
  | cons a pre ih =>
    obtain ⟨fuel, rfl⟩ := Nat.exists_eq_succ_of_ne_zero (Nat.ne_of_gt (Nat.zero_lt_of_lt hfuel))
    rw [mem_cons, not_or] at hpre
    obtain ⟨hai, hpre⟩ := hpre
    cases h with
    | cons h =>
      rw [removeFrom, if_neg (Ne.symm hai), ih h hpre (Nat.lt_of_succ_lt_succ hfuel)]
      cases pre using reverseRecOn with
      | nil => rfl
      | append_singleton pre c =>
        rw [getLast?_concat, ← cons_append, getLast?_concat]
        rfl

lemma Chained.apart {b' j k} (h : Chained index connections chains) (hb : b' ≠ b)
    (hj : j ∈ chains b') (hk : k ∈ chains b) : j ≠ k := by
  rintro rfl
  exact hb (((h.mem b' j).mp hj).2.2.symm.trans ((h.mem b j).mp hk).2.2)

/-- `unlink` takes the slot out of its chain and leaves the other chains alone. -/
lemma Chained.unlink_linked (h : Chained index connections chains)
    (hchain : chains b = pre ++ i :: post) (b' : Nat) :
    Linked (index.unlink b i pre.getLast?).next ((index.unlink b i pre.getLast?).buckets b')
      (update chains b (pre ++ post) b') := by
  have hlinked := h.linked b
  have hnodup := h.nodup b
  have hi : i ∈ chains b := by simp [hchain]
  rw [hchain] at hlinked hnodup
  cases pre using reverseRecOn with
  | nil =>
    show Linked (update index.next i none) (update index.buckets b _ b') _
    by_cases hb : b' = b
    · subst hb
      rw [update_self, update_self]
      exact hlinked.unlink_first (nodup_cons.mp hnodup).1
    · rw [update_of_ne hb, update_of_ne hb]
      exact (h.linked b').congr fun j hj => update_of_ne (h.apart hb hj hi) _ _
  | append_singleton pre p =>
    have hp : p ∈ chains b := by simp [hchain]
    rw [getLast?_concat]
    show Linked (update (update index.next p (index.next i)) i none)
      (index.buckets b') _
    by_cases hb : b' = b
    · subst hb
      rw [update_self]
      rw [append_assoc, singleton_append] at hlinked hnodup ⊢
      exact hlinked.unlink_later hnodup
    · rw [update_of_ne hb]
      refine (h.linked b').congr fun j hj => ?_
      rw [update_of_ne (h.apart hb hj hi), update_of_ne (h.apart hb hj hp)]

lemma unlink_free : (index.unlink b i previous).free = update index.free i true := by
  cases previous with
  | none => rfl
  | some p => rfl

lemma Indexes.remove (h : index.Indexes connections) (hi : i < tcpMaxConnections)
    (hconn : conn.active = false) :
    (index.remove i (connections i)).Indexes (Function.update connections i conn) := by
  by_cases hactive : (connections i).active = false
  · rw [TcpIndex.remove, if_pos (by simp [hactive])]
    exact h.update (hconn.trans hactive.symm) fun h => by simp [hconn] at h
  rw [Bool.not_eq_false] at hactive
  obtain ⟨chains, h⟩ := h
  have hmem : i ∈ chains (connections i).bucket := (h.mem _ i).mpr ⟨hi, hactive, rfl⟩
  obtain ⟨pre, post, hchain⟩ := append_of_mem hmem
  have hnodup := h.nodup (connections i).bucket
  rw [hchain] at hnodup
  have hpre : i ∉ pre := fun hi =>
    (nodup_append.mp hnodup).2.2 i hi i mem_cons_self rfl
  have hfuel : pre.length < tcpMaxConnections := by
    have hle := h.length_le (b := (connections i).bucket)
    rw [hchain, length_append, length_cons] at hle
    omega
  have hremove : index.remove i (connections i) =
      index.unlink (connections i).bucket i pre.getLast? := by
    rw [TcpIndex.remove, if_neg (by simp [hactive])]
    refine (removeFrom_eq (hchain ▸ h.linked _) hpre hfuel).trans ?_
    rw [Option.or_none]
    rfl
  rw [hremove]
  have hleft : (pre ++ post).Nodup ∧ i ∉ pre ++ post := by
    have hmiddle := nodup_middle.mp hnodup
    exact ⟨(nodup_cons.mp hmiddle).2, (nodup_cons.mp hmiddle).1⟩
  refine ⟨Function.update chains (connections i).bucket (pre ++ post), h.unlink_linked hchain,
    ?_, fun b j => ?_, fun j hj => ?_⟩
  · exact (forall_update_iff chains fun _ chain => chain.Nodup).mpr
      ⟨hleft.1, fun b _ => h.nodup b⟩
  · by_cases hji : j = i
    · subst hji
      rw [update_self]
      simp only [hconn, Bool.false_eq_true, false_and, and_false, iff_false]
      by_cases hb : b = (connections j).bucket
      · subst hb
        rw [update_self]
        exact hleft.2
      · rw [update_of_ne hb, h.mem]
        exact fun hj => hb hj.2.2.symm
    · rw [update_of_ne hji, ← h.mem]
      by_cases hb : b = (connections i).bucket
      · subst hb
        rw [update_self, hchain]
        simp [hji]
      · rw [update_of_ne hb]
  · rw [unlink_free]
    by_cases hji : j = i
    · subst hji
      simp [hconn]
    · rw [update_of_ne hji, update_of_ne hji]
      exact h.free j hj

lemma removeFrom_generations {b fuel previous current} :
    (index.removeFrom b i fuel previous current).generations = index.generations := by
  fun_induction removeFrom with
  | case1 => rfl
  | case2 => rfl
  | case3 _ previous => cases previous <;> rfl
  | case4 _ _ _ _ ih => exact ih

lemma remove_generations : (index.remove i conn).generations = index.generations := by
  rw [TcpIndex.remove]
  split
  · rfl
  · exact removeFrom_generations

end TcpIndex

end Nanami.Net

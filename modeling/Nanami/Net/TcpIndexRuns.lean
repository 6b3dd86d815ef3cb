import Nanami.Net.TcpOwners

/-!
# Runs of the connection index

Connections put into slots and removed from them, in any order. The chains, the free slots and the
lookup by identifier are exact after every such run. The lookup by addresses is exact as long as no
connection is put beside an active one of the same addresses: the chain then holds both, and `find`
ends at the one that came last.
-/

namespace Nanami.Net

open Function List

abbrev Slot := Fin tcpMaxConnections

inductive TableCall where
  | insert (slot : Slot) (conn : TcpConnection)
  | remove (slot : Slot)

/-- The runtime, and the identifiers that each slot was given, oldest first. -/
structure IssuedTable where
  runtime : NetRuntime
  issued : Slot → List Nat

namespace IssuedTable

variable (t : IssuedTable)

/-- A connection put into a slot, under the identifier that `TcpIndex::insert` issues for it. -/
def insert (slot : Slot) (conn : TcpConnection) : IssuedTable :=
  let runtime := t.runtime.openConnection slot conn.peerIp conn.peerPort conn.localPort fun id =>
    { conn with active := true, connectionId := id }
  ⟨runtime, update t.issued slot (t.issued slot ++ [(runtime.tcpConnections slot).connectionId])⟩

def step : TableCall → IssuedTable
  | .insert slot conn => t.insert slot conn
  | .remove slot => { t with runtime := t.runtime.tcpReset slot }

def find : Ipv4 → UInt16 → UInt16 → Option Nat := t.runtime.tcpIndex.find t.runtime.tcpConnections

def Separate : TableCall → Prop
  | .insert slot conn => ∀ i, t.find conn.peerIp conn.peerPort conn.localPort = some i → i = slot
  | .remove _ => True

/-- The tables that a fresh server comes to by changes that meet a condition. -/
inductive Reached (P : IssuedTable → TableCall → Prop) : IssuedTable → Prop where
  | start {r} (fresh : Fresh r) : Reached P ⟨r, fun _ => []⟩
  | step {t call} (reached : Reached P t) (meets : P t call) : Reached P (t.step call)

def Named (owner id i : Nat) : Prop :=
  i < tcpMaxConnections ∧ (t.runtime.tcpConnections i).active = true ∧
    (t.runtime.tcpConnections i).ownerId = owner ∧ (t.runtime.tcpConnections i).connectionId = id

/-- The index shows the connections of the table as they are. An identifier that was issued for a
slot is that of the connection it was issued for, or the slot was reused in all generations. -/
structure Exact : Prop where
  chains : t.runtime.tcpIndex.Indexes t.runtime.tcpConnections
  finds : ∀ ip peerPort localPort i, t.find ip peerPort localPort = some i ↔
    i < tcpMaxConnections ∧ (t.runtime.tcpConnections i).Serves ip peerPort localPort
  names : ∀ owner id i, id ≠ 0 →
    (t.runtime.activeTcpConnectionIndex owner id = some i ↔ t.Named owner id i)
  ids : ∀ slot, ∀ id ∈ t.issued slot, id ≠ 0 ∧ id < 2 ^ 32
  stale : ∀ slot j id owner i, (t.issued slot)[j]? = some id → t.Named owner id i →
    i = slot ∧ (j + 1 = (t.issued slot).length ∨ j + 1 + tcpGenerations ≤ (t.issued slot).length)

end IssuedTable

variable {t : IssuedTable} {slot : Slot} {conn : TcpConnection}

/-! ### Identifiers -/

lemma slots_pos : 0 < tcpMaxConnections := by decide

def idOf (slot generation : Nat) : Nat := generation % tcpGenerations * tcpMaxConnections + slot + 1

/-- The identifiers of a slot count its generations. -/
structure Counts (slot generation : Nat) (ids : List Nat) (conn : TcpConnection) : Prop where
  generation : generation = ids.length % tcpGenerations
  listed : ids = (range ids.length).map (idOf slot)
  current : conn.active = true → ids.getLast? = some conn.connectionId

lemma Counts.insert {generation ids} (h : Counts slot generation ids conn) {conn' : TcpConnection}
    (hid : conn'.connectionId = generation * tcpMaxConnections + slot + 1) :
    Counts slot ((generation + 1) % tcpGenerations) (ids ++ [conn'.connectionId]) conn' := by
  refine ⟨?_, ?_, fun _ => getLast?_concat⟩
  · rw [h.generation, length_append, Nat.mod_add_mod]
    rfl
  · rw [length_append, length_singleton, range_succ, map_append, ← h.listed, hid, h.generation]
    rfl

lemma Counts.id_at {slot generation j id ids} (h : Counts slot generation ids conn)
    (hj : ids[j]? = some id) : j < ids.length ∧ idOf slot j = id := by
  have hlt := (List.getElem?_eq_some_iff.mp hj).1
  rw [h.listed, getElem?_map, getElem?_range hlt] at hj
  exact ⟨hlt, Option.some_inj.mp hj⟩

/-- Two identifiers of a slot are the same only after all generations between them. -/
lemma add_generations_le {slot j k : Nat} (h : idOf slot j = idOf slot k) (hlt : j < k) :
    j + tcpGenerations ≤ k := by
  have heq : j % tcpGenerations = k % tcpGenerations := by
    unfold idOf at h
    exact Nat.eq_of_mul_eq_mul_right slots_pos (by omega)
  have hle := Nat.le_of_dvd (by omega) ((Nat.modEq_iff_dvd' hlt.le).mp heq)
  omega

/-! ### Steps -/

lemma tcpReset_generations {r : NetRuntime} {i} :
    (r.tcpReset i).tcpIndex.generations = r.tcpIndex.generations := by
  rw [NetRuntime.tcpReset]
  split
  · exact TcpIndex.remove_generations
  · rfl

namespace IssuedTable

/-- The table's connections and their index belong together, and every slot counts. -/
structure Kept (t : IssuedTable) : Prop where
  sound : Sound t.runtime
  counts : ∀ slot : Slot, Counts slot (t.runtime.tcpIndex.generations slot) (t.issued slot)
    (t.runtime.tcpConnections slot)

lemma insert_places (hs : Sound t.runtime) :
    Places slot (fun id => { conn with active := true, connectionId := id }) t.runtime
      (t.insert slot conn).runtime :=
  hs.openConnection slot.2 (fun _ => ⟨rfl, TcpIndex.hasTriple_iff.mpr ⟨rfl, rfl, rfl⟩⟩) fun _ => rfl

lemma Kept.insert (h : Kept t) : Kept (t.insert slot conn) := by
  have hplaces : Places slot _ _ (t.insert slot conn).runtime := insert_places h.sound
  have hgenerations : (t.insert slot conn).runtime.tcpIndex.generations =
      update t.runtime.tcpIndex.generations slot
        ((t.runtime.tcpIndex.generations slot + 1) % tcpGenerations) := by
    rw [← tcpReset_generations (r := t.runtime) (i := slot)]
    rfl
  refine ⟨hplaces.sound, fun i => ?_⟩
  rw [hgenerations]
  by_cases hi : i = slot
  · subst hi
    rw [update_self, show (t.insert i conn).issued i = _ from update_self _ _ _]
    refine (h.counts i).insert ?_
    rw [← tcpReset_generations (r := t.runtime) (i := i)]
    simp [NetRuntime.openConnection, TcpIndex.insert]
  · rw [update_of_ne (Fin.val_injective.ne hi), (hplaces.same i (Fin.val_injective.ne hi)).1,
      show (t.insert slot conn).issued i = t.issued i from update_of_ne hi _ _]
    exact h.counts i

lemma Kept.step {call} (h : Kept t) : Kept (t.step call) := by
  cases call with
  | insert slot conn => exact h.insert
  | remove slot =>
    have hmoves := h.sound.tcpReset (i := slot)
    refine ⟨hmoves.sound, fun i => ⟨?_, (h.counts i).listed, fun hactive => ?_⟩⟩
    · exact (congrFun tcpReset_generations _).trans (h.counts i).generation
    · have hkept := hmoves.kept i hactive
      exact ((h.counts i).current (hkept.active.symm.trans hactive)).trans (congrArg some hkept.id.symm)

lemma step_unique {call} (hs : Sound t.runtime) (hu : Unique t.runtime) (hcall : t.Separate call) :
    Unique (t.step call).runtime := by
  cases call with
  | remove slot => exact hs.tcpReset.unique hu
  | insert slot conn =>
    refine (insert_places hs).unique hu
      (fun _ => ⟨rfl, TcpIndex.hasTriple_iff.mpr ⟨rfl, rfl, rfl⟩⟩) fun j hj hserves => ?_
    -- `find` shows a connection of these addresses, and there is only this one
    cases hfind : t.find conn.peerIp conn.peerPort conn.localPort with
    | none => exact hs.index.of_find_none hfind ((hs.slots j).bound hserves.1) hserves
    | some i =>
      have hi := hu i j _ _ _ (hs.index.of_find hfind) hserves
      exact hj (hi.symm.trans (hcall i hfind))

/-! ### Runs -/

lemma Reached.kept {P} (h : Reached P t) : Kept t := by
  induction h with
  | start fresh =>
    refine ⟨fresh.sound, fun _ => ⟨?_, rfl, fun hactive => ?_⟩⟩
    · rw [fresh.index]
      rfl
    · rw [fresh.connections] at hactive
      cases hactive
  | step _ _ ih => exact ih.step

lemma Reached.unique (h : Reached Separate t) : Unique t.runtime := by
  induction h with
  | start fresh => exact fresh.unique
  | step reached meets ih => exact step_unique reached.kept.sound ih meets

lemma slot_of_id {generation i} (hi : i < tcpMaxConnections) :
    (generation * tcpMaxConnections + i + 1 - 1) % tcpMaxConnections = i := by
  rw [Nat.add_sub_cancel, Nat.mul_add_mod_self_right, Nat.mod_eq_of_lt hi]

lemma names_iff {owner id i} (hs : Sound t.runtime) (hid : id ≠ 0) :
    t.runtime.activeTcpConnectionIndex owner id = some i ↔ t.Named owner id i := by
  unfold NetRuntime.activeTcpConnectionIndex Named
  rw [if_neg hid]
  simp only [Option.ite_none_right_eq_some, Bool.and_eq_true, beq_iff_eq, Option.some_inj, and_assoc]
  constructor
  · rintro ⟨hactive, howner, hconn, rfl⟩
    exact ⟨(hs.slots _).bound hactive, hactive, howner, hconn⟩
  · rintro ⟨hi, hactive, howner, rfl⟩
    obtain ⟨generation, -, hgeneration⟩ := (hs.slots i).ids hactive
    rw [hgeneration, slot_of_id hi]
    exact ⟨hactive, howner, hgeneration, rfl⟩

/-- As long as every new connection has addresses of its own, the index shows exactly the active
connections, under their addresses and under their identifiers. -/
theorem separate_exact (h : Reached Separate t) : Exact t := by
  obtain ⟨hs, hc⟩ := h.kept
  refine ⟨hs.index, fun ip peerPort localPort i => ⟨fun hfind => ?_, ?_⟩, fun owner id i => names_iff hs,
    fun slot id hid => ?_, fun slot j id owner i hj hnamed => ?_⟩
  · have hserves := hs.index.of_find hfind
    exact ⟨(hs.slots i).bound hserves.1, hserves⟩
  · rintro ⟨hi, hserves⟩
    cases hfind : t.find ip peerPort localPort with
    | none => exact absurd hserves (hs.index.of_find_none hfind hi)
    | some k => rw [h.unique k i _ _ _ (hs.index.of_find hfind) hserves]
  · rw [(hc slot).listed, mem_map] at hid
    obtain ⟨j, -, rfl⟩ := hid
    have hgeneration : j % tcpGenerations < tcpGenerations := Nat.mod_lt _ (by decide)
    unfold idOf tcpGenerations tcpMaxConnections at *
    omega
  · obtain ⟨hi, hactive, -, rfl⟩ := hnamed
    obtain ⟨hlt, hid⟩ := (hc slot).id_at hj
    obtain ⟨generation, -, hgeneration⟩ := (hs.slots i).ids hactive
    obtain rfl : i = slot := by
      rw [← slot_of_id hi, ← hgeneration, ← hid, idOf, slot_of_id slot.2]
    have hlast := (hc slot).current hactive
    rw [getLast?_eq_getElem?] at hlast
    refine ⟨rfl, ?_⟩
    by_cases hj' : j + 1 = (t.issued slot).length
    · exact .inl hj'
    · have hle := add_generations_le (hid.trans ((hc slot).id_at hlast).2.symm) (by omega)
      exact .inr (by omega)

def opens (slot : Slot) : TableCall :=
  .insert slot { TcpConnection.empty with peerIp := 0x0a000002, peerPort := 80, localPort := 5000 }

def oneOpen : IssuedTable := step ⟨freshServer.runtime, fun _ => []⟩ (opens ⟨0, slots_pos⟩)

def opensFrom (slot : Slot) (localPort : UInt16) : TableCall :=
  .insert slot { TcpConnection.empty with peerIp := 0x0a000002, peerPort := 80, localPort := localPort }

/-- Connections of one bucket: the first is removed and a third one takes its slot, and the second one is
opened again in its own. -/
def oneBucket (first second : Slot) : List TableCall :=
  [opensFrom first 5000, opensFrom second 8084, .remove first, opensFrom first 8885,
    opensFrom second 8084]

lemma separate_of_find
    (h : (t.find conn.peerIp conn.peerPort conn.localPort).all (· == slot.1) = true) :
    t.Separate (.insert slot conn) := by
  intro i hi
  rw [hi] at h
  exact beq_iff_eq.mp h

/-- The two connections of the bucket are found in its chain, and the removed one is not. -/
theorem separate_exact_one_bucket :
    let t := (oneBucket ⟨0, slots_pos⟩ ⟨1, by decide⟩).foldl step ⟨freshServer.runtime, fun _ => []⟩
    Exact t ∧ t.runtime.tcpIndex.buckets (TcpIndex.bucket 0x0a000002 80 8084) = some 1 ∧
      t.runtime.tcpIndex.next 1 = some 0 ∧ t.find 0x0a000002 80 8885 = some 0 ∧
      t.find 0x0a000002 80 8084 = some 1 ∧ t.find 0x0a000002 80 5000 = none := by
  refine ⟨separate_exact ?_, by decide +kernel, by decide +kernel, by decide +kernel, by decide +kernel,
    by decide +kernel⟩
  rw [oneBucket, foldl_cons, foldl_cons, foldl_cons, foldl_cons, foldl_cons, foldl_nil]
  refine .step (.step (.step (.step (.step (.start freshServer_fresh) ?_) ?_) ?_) ?_) ?_
  · exact separate_of_find (by decide +kernel)
  · exact separate_of_find (by decide +kernel)
  · trivial
  · exact separate_of_find (by decide +kernel)
  · exact separate_of_find (by decide +kernel)

/-- A second connection of the same addresses hides the first one, which stays active. -/
theorem second_insert_hides :
    let t := oneOpen.step (opens ⟨1, by decide⟩)
    Reached (fun _ _ => True) t ∧ (t.runtime.tcpConnections 0).active = true ∧
      TcpIndex.hasTriple (t.runtime.tcpConnections 0) 0x0a000002 80 5000 = true ∧
      t.find 0x0a000002 80 5000 = some 1 :=
  ⟨((Reached.start freshServer_fresh).step trivial).step trivial, by decide +kernel, by decide +kernel,
    by decide +kernel⟩

end IssuedTable

end Nanami.Net

import Nanami.Process.Releases

/-!
# No page is handed back while it is referred to

The guarantee of the reference tables over whole runs of requests, with the conditions under which
it holds: a request that drops the last active reference of an extent must not find a deferred one,
and an extent that is mapped again page by page must not be referred to as a whole.
-/

namespace Nanami.Process
open Nanami.Lib Nanami.Memory List PhysicalAllocations ProcessManager

namespace Alpha

variable {s t : Alpha} {R : SortedMap Nat ProcessEntry × Nat}

/-! ## Requests on mappings -/

def releaseTarget (callerPid arg2 : Nat) : Nat := if arg2 = 0 then callerPid else arg2

variable {framed : Nat → Bool} {unmapped vacant installed : Option CapabilityError}
  {slot peerVa : Nat} {l : List Nat} {ex : List (Nat × Nat)} {answers : Nat → PageAnswer}
  {peerPlace : Option (Nat × Nat)}

/-- A range is released that nobody else maps. -/
lemma handleMappingReleaseRequest_spec {callerPid arg0 arg1 arg2 arg3} (I : Inv R s [])
    (h : ∀ r, s.processes.sharedMemoryReservation (releaseTarget callerPid arg2) arg0
      (alignUp arg1 / pageSize) = some r →
      Sole s.processes (releaseTarget callerPid arg2) r.baseVa r.pageCount) :
    ends (handleMappingReleaseRequest callerPid arg0 arg1 arg2 arg3 framed unmapped)
      (fun t => Inv R t [] ∧ (s.processes.memoryOwnerPid (releaseTarget callerPid arg2) =
        releaseTarget callerPid arg2 → s.processes.Private (releaseTarget callerPid arg2) →
        t.processes.Private (releaseTarget callerPid arg2))) s := by
  have same : ∀ {pid}, Inv R s [] ∧ (s.processes.memoryOwnerPid pid = pid →
      s.processes.Private pid → s.processes.Private pid) := ⟨I, fun _ => id⟩
  refine wp_guard same fun _ => wp_guard same fun _ => wp_guard same fun _ => ?_
  refine wp_lookup same fun entry _ => wp_guard same fun _ => ?_
  refine wp_lookup same fun owner howner => ?_
  split
  · rename_i r hr
    -- the entry is the owner's, and the owner's owner is the owner
    have hpid := I.formed.memoryEntry howner
    refine ends_mono (removeSharedMapping_spec I ?_) fun _ U => ⟨U.inv, fun _ => U.own⟩
    intro a ha
    rw [findActivePhysicalAllocationReference, hpid, I.formed.owner] at ha
    exact h r hr a ha
  split
  · rw [wp_bind]
    exact wp_answer (releaseAndDefer_spec I) fun _ => same
  · rw [wp_bind]
    refine wp_okOr (fun l _ => ?_) (fun _ => same)
    rw [wp_bind]
    exact wp_answer (releasePages_spec I) fun _ => same

variable {pid va page n bytes peerPid : Nat} {place : Option (Nat × Nat)}
  {r : SharedMemoryReservation} {ms : List (Nat × SharedMemoryReservation)}

/-- Pages that were allocated before are put on the books one by one. -/
lemma registerPages_spec (I : Inv R s ex) (h : ∀ i ∈ l, (page + i, 1) ∈ ex)
    (hpid : s.processes.memoryOwnerPid pid < s.processes.nextPid) :
    wp (registerPages pid va slot page l)
      (fun _ t => Inv R t ex ∧ t.processes.sharedMemory = s.processes.sharedMemory)
      (fun _ t => Inv R t ex) s := by
  induction l generalizing s with
  | nil => exact ⟨I, rfl⟩
  | cons i l ih =>
    refine wp_then (register_spec I (mem_append_left _ (h i mem_cons_self)) hpid)
      (fun _ t ht => ?_) (fun _ _ h => h ▸ I)
    refine wp_post (ih ht.1 (fun j hj => h j (mem_cons_of_mem _ hj)) (I.owner_lt ht.1 hpid))
      (fun _ u hu => ?_)
    exact ⟨hu.1, hu.2.trans (by rw [ht.2])⟩

/-- What mapping pages leaves: the deferred references and the reservations, and what is private. -/
structure Maps (R : SortedMap Nat ProcessEntry × Nat) (s t : Alpha) : Prop where
  inv : Inv R t []
  deferred : t.processes.deferredPhysicalAllocations = s.processes.deferredPhysicalAllocations
  reserved : t.processes.sharedMemory = s.processes.sharedMemory
  own : ∀ {q}, s.processes.Private q → t.processes.Private q

lemma Maps.refl (I : Inv R s []) : Maps R s s := ⟨I, rfl, rfl, id⟩

lemma Maps.trans {u} (M : Maps R s t) (M' : Maps R t u) : Maps R s u :=
  ⟨M'.inv, M'.deferred.trans M.deferred, M'.reserved.trans M.reserved, fun h => M'.own (M.own h)⟩

/-- Pages are copied into memory that is there, or into frames that are put on the books one by one. -/
lemma mapPages_spec {reused} (I : Inv R s [])
    (hpid : s.processes.memoryOwnerPid pid < s.processes.nextPid) :
    ends (mapPages pid va slot reused answers l) (Maps R s) s := by
  induction l generalizing s with
  | nil => exact .refl I
  | cons i l ih =>
    -- a page is in place, the others follow
    have hrest : ∀ u : Alpha, Maps R s u →
        ends (answer (answers i).mapped >>= fun _ => mapPages pid va slot reused answers l)
          (Maps R s) u := by
      intro u M
      rw [ends, wp_bind]
      exact wp_answer (ends_mono (ih M.inv (I.owner_lt M.inv hpid)) fun _ => M.trans) fun _ => M
    cases reused with
    | true =>
      show wp (answer (answers i).copied >>= fun _ => answer (answers i).mapped >>= fun _ =>
        mapPages pid va slot true answers l) _ _ _
      rw [wp_bind]
      exact wp_answer (hrest s (.refl I)) fun _ => .refl I
    | false =>
      refine wp_then (allocateProcessFrame_spec I) (fun page t ht => ?_)
        (fun _ _ h => ⟨h.1, by rw [h.2], by rw [h.2], h.2 ▸ id⟩)
      obtain ⟨J, hp, hk⟩ := ht
      refine wp_then (register_spec J mem_cons_self (I.owner_lt J hpid)) (fun _ u hu => ?_) ?_
      · refine hrest u ⟨hu.1.subset (nil_subset _), by rw [hu.2, hp], by rw [hu.2, hp], fun h => ?_⟩
        rw [hu.2, hp]
        exact h.register fun hmem => hk (mem_refs.mpr (.inr hmem))
      · rintro _ _ rfl
        exact ⟨J.subset (nil_subset _), by rw [hp], by rw [hp], hp ▸ id⟩

def Remappable (p : ProcessManager) (pid va n : Nat) : Prop :=
  (∀ a, p.deferredPhysicalAllocations.find (p.memoryOwnerPid pid) va n = some a →
    n = 1 ∨ p.physicalAllocations.count a = 0 ∧ p.deferredPhysicalAllocations.count a = 1) ∧
  p.sharedMemoryReservation pid va n = none

lemma alignUp_pages (h : checkedMul n pageSize = some bytes) : alignUp bytes / pageSize = n := by
  unfold checkedMul at h
  split at h
  · rename_i hlt
    cases h
    have hn : n < maxPages := Nat.lt_of_mul_lt_mul_right (a := pageSize) hlt
    rw [alignUp, Memory.alignUp, if_neg (by decide), wrappingAdd,
      and_complement_page (Nat.mod_lt _ (by decide)), Nat.mul_div_cancel _ (by decide)]
    exact bytesToPages_mul hn
  · cases h

/-- A task in the making: nothing of it is deferred or reserved, and what it has is its own. -/
structure Newborn (p : ProcessManager) (pid : Nat) : Prop where
  owner : p.memoryOwnerPid pid = pid
  deferred : ∀ e ∈ p.deferredPhysicalAllocations.entries, e.1 ≠ pid
  reserved : ∀ e ∈ p.sharedMemory.entries, (ofLex e.1).1 ≠ pid
  own : p.Private pid

lemma Newborn.remappable {p} (N : Newborn p pid) : Remappable p pid va n := by
  refine ⟨fun a ha => ?_, Option.eq_none_iff_forall_ne_some.mpr fun r hr => ?_⟩
  · rw [N.owner] at ha
    exact absurd rfl (N.deferred _ ((find_some ha).2.mem_iff.mpr mem_cons_self))
  · rw [sharedMemoryReservation, N.owner] at hr
    have hget := (Option.filter_eq_some_iff.mp hr).1
    exact N.reserved _ (SortedMap.get?_eq_some.mp hget) rfl

/-- When a page fails, the pages before it are released; in both cases the books are in order. -/
lemma mapProcessInitializedPages_spec {chunks} (I : Inv R s [])
    (h : ∀ v, place = some v → Remappable s.processes pid v.1 n) :
    wp (mapProcessInitializedPages pid place n chunks answers framed unmapped)
      (fun _ t => Inv R t [] ∧ (Newborn s.processes pid → Newborn t.processes pid))
      (fun _ t => Inv R t [] ∧ (Newborn s.processes pid → t.processes.Private pid)) s := by
  have same : Inv R s [] ∧ (Newborn s.processes pid → s.processes.Private pid) := ⟨I, (·.own)⟩
  refine wp_lookup same fun bytes hbytes => wp_guard same fun harg => ?_
  refine wp_lookup same fun owner howner => ?_
  have hpid := I.formed.memoryEntry_lt howner
  refine wp_lookup same fun v hv => ?_
  obtain ⟨hdef, hshared⟩ := h v hv
  rw [wp_bind]
  refine wp_answer ?_ fun _ => same
  -- the pages are mapped, or released again when one of them fails
  have hmap : ∀ (reused : Bool) (u : Alpha) {f}, Inv R u [] →
      u.processes.sharedMemory = s.processes.sharedMemory →
      (Newborn s.processes pid → u.processes = s.processes) → f (.ok ()) = pure v.1 →
      (∀ e, f (.error e) = do
        handleMappingReleaseRequest pid v.1 bytes pid osMappingReleaseAllowHoles framed unmapped
        throw e) →
      wp (attempt (mapPages pid v.1 v.2 reused answers (List.range n)) >>= f)
        (fun _ t => Inv R t [] ∧ (Newborn s.processes pid → Newborn t.processes pid))
        (fun _ t => Inv R t [] ∧ (Newborn s.processes pid → t.processes.Private pid)) u := by
    intro reused u f J hs hsame hok herror
    rw [wp_try]
    refine wp_mono (mapPages_spec J (I.owner_lt J hpid)) (fun _ w M => ?_) (fun e w M => ?_)
    · rw [hok]
      refine ⟨M.inv, fun N => ?_⟩
      have N' := N
      rw [← hsame N] at N'
      exact ⟨(J.owners M.inv).trans N'.owner, M.deferred ▸ N'.deferred, M.reserved ▸ N'.reserved,
        M.own N'.own⟩
    · rw [herror]
      have hself : releaseTarget pid pid = pid := ite_self _
      have hback : ∀ x, Inv R x [] ∧ (w.processes.memoryOwnerPid (releaseTarget pid pid) =
          releaseTarget pid pid → w.processes.Private (releaseTarget pid pid) →
          x.processes.Private (releaseTarget pid pid)) →
          Inv R x [] ∧ (Newborn s.processes pid → x.processes.Private pid) := by
        intro x hx
        rw [hself] at hx
        refine ⟨hx.1, fun N => hx.2 ((I.owners M.inv).trans N.owner) (M.own ?_)⟩
        rw [hsame N]
        exact N.own
      refine wp_then (handleMappingReleaseRequest_spec M.inv fun r hr => ?_) (fun _ => hback) fun _ => hback
      rw [hself, alignUp_pages hbytes, sharedMemoryReservation, M.reserved, hs, I.owners M.inv] at hr
      rw [sharedMemoryReservation] at hshared
      rw [hshared] at hr
      cases hr
  rw [wp_bind, wp_onProcesses, takeDeferredPhysicalAllocation, wp_read]
  split
  · exact hmap false _ I rfl (fun _ => rfl) rfl fun _ => rfl
  · rename_i a last u hu
    obtain ⟨hfind, -, -⟩ := take_some hu
    have hk := take_keys hu
    have hn : a.pageCount = n := (find_some hfind).1
    -- a task in the making has nothing to take
    have hnot : ∀ {P : Prop}, Newborn s.processes pid → P := fun N =>
      absurd N.owner (N.deferred _ (take_mem hu).1)
    -- the extent in flight, and then its pages
    have J : Inv R { s with processes := { s.processes with deferredPhysicalAllocations := u } }
        (Accounts.singles a.key) := by
      refine ⟨Accounts.split ?_ ?_, I.formed.congr rfl rfl, { I.known with
        deferred := fun e he => I.known.deferred e ((take_mem hu).2 e he) }, I.tasks⟩
      · refine I.funds.subset (cons_subset.mpr ⟨?_, fun q hq => ?_⟩)
        · exact mem_refs.mpr (.inr (hk.mem_iff.mpr mem_cons_self))
        · exact mem_refs.mpr ((mem_refs.mp hq).imp_right fun hq => hk.mem_iff.mpr
            (mem_cons_of_mem _ hq))
      · refine (hdef a hfind).imp hn.trans (fun hc => ?_)
        rw [mem_refs, not_or]
        exact ⟨count_eq_zero.mp hc.1, not_mem_of_last hk hc.2⟩
    show wp (registerPages pid v.1 v.2 a.basePage (List.range n) >>= fun _ => _) _ _ _
    refine wp_then (registerPages_spec J (fun i hi => ?_) hpid) (fun _ w hw => ?_)
      (fun _ _ h => ⟨h.subset (nil_subset _), hnot⟩)
    · exact mem_map.mpr ⟨i, by rwa [show a.key.2 = n from hn], rfl⟩
    · exact hmap true w (hw.1.subset (nil_subset _)) hw.2 hnot rfl fun _ => rfl

/-! ## Shared memory -/

/-- Only reservations change, and they stand under pids that were given out. -/
def SameTables (s t : Alpha) : Prop :=
  (s.processes.Known → t.processes.Known) ∧
    ∃ m, t = { s with processes := { s.processes with sharedMemory := m } }

lemma SameTables.refl : SameTables s s := ⟨id, s.processes.sharedMemory, rfl⟩

lemma SameTables.trans {u} (h : SameTables s t) (h' : SameTables t u) : SameTables s u := by
  obtain ⟨hk, m, rfl⟩ := h
  obtain ⟨hk', m', rfl⟩ := h'
  exact ⟨hk' ∘ hk, m', rfl⟩

lemma SameTables.inv (h : SameTables s t) (I : Inv R s ex) : Inv R t ex := by
  obtain ⟨hk, m, rfl⟩ := h
  exact ⟨I.funds, I.formed.congr rfl rfl, hk I.known, I.tasks⟩

lemma reserveSharedMemoryAt_spec {pid n place} (I : Inv R s ex) :
    wp (onProcesses (reserveSharedMemoryAt pid n place))
      (fun r t => SameTables s t ∧ r.pageCount = n) (fun _ t => t = s) s := by
  rw [wp_onProcesses, reserveSharedMemoryAt]
  refine wp_lookup rfl fun owner howner => wp_guard rfl fun _ => ?_
  refine wp_lookup rfl fun v _ => ?_
  refine wp_lookup rfl fun stop _ => wp_guard rfl fun _ => ?_
  refine ⟨⟨fun K => { K with reserved := fun e he => ?_ }, _, rfl⟩, rfl⟩
  rcases SortedMap.mem_insert.mp he with rfl | ⟨he, -⟩
  · exact I.formed.memoryEntry_lt howner
  · exact K.reserved e he

lemma reserveSharedMapping_spec (I : Inv R s []) :
    wp (reserveSharedMapping pid n place)
      (fun r t => SameTables s t ∧ (r.1 = s.processes.memoryOwnerPid pid ∧
        s.processes.memoryOwnerPid pid < s.processes.nextPid) ∧ r.2.pageCount = n)
      (fun _ t => t = s) s := by
  refine wp_lookup rfl fun entry hentry => ?_
  refine wp_seq (reserveSharedMemoryAt_spec I) fun r t ht => ?_
  exact ⟨ht.1, ⟨I.formed.memoryEntry hentry, I.formed.memoryEntry_lt hentry⟩, ht.2⟩

lemma recycle_spec :
    ends (onProcesses (recycleSharedMemory pid r)) (SameTables s) s := by
  rw [ends, wp_onProcesses, recycleSharedMemory]
  refine wp_ite (fun _ => ⟨fun K => { K with reserved := fun e he => ?_ }, _, rfl⟩) (fun _ => .refl)
  exact K.reserved e (SortedMap.mem_erase.mp he).1

/-- Rolling back a share removes the reference that was just registered. -/
lemma rollback_spec {owner removed a old} (I : Inv R s [])
    (hact : s.processes.physicalAllocations.entries = (owner, a) :: old)
    (ho : s.processes.memoryOwnerPid owner = owner) (ha : a.baseVa = r.baseVa ∧ a.pageCount = n)
    (hn : r.pageCount = n) (hcount : s.processes.physicalAllocations.count a = 1 →
      s.processes.deferredPhysicalAllocations.count a = 0) :
    sure (attempt (removeSharedMapping owner r removed)) (fun _ t => Inv R t []) s := by
  rw [sure, wp_attempt]
  refine wp_mono (removeSharedMapping_spec I ?_) (fun _ _ h => h.inv) (fun _ _ h => h.inv)
  intro b hb hc
  have hfirst : PhysicalAllocations.isAt owner r.baseVa r.pageCount (owner, a) = true := by
    simp [PhysicalAllocations.isAt, ha.1, ha.2, hn]
  rw [findActivePhysicalAllocationReference, ho, PhysicalAllocations.find, hact,
    find?_cons_of_pos hfirst] at hb
  cases hb
  exact hcount hc

lemma reserveShare_spec {peer} (I : Inv R s []) :
    wp (reserveShare pid peerPid n peerVa peer place vacant)
      (fun r t => SameTables s t ∧ r.1 = s.processes.memoryOwnerPid peerPid ∧ r.2.pageCount = n)
      (fun _ t => t = s) s := by
  refine wp_ite (fun _ => ?_) (fun _ => wp_ite (fun _ => rfl) (fun _ => ?_))
  · exact wp_post (reserveSharedMapping_spec I) fun _ _ h => ⟨h.1, h.2.1.1, h.2.2⟩
  refine wp_lookup rfl fun entry hentry => ?_
  rw [wp_bind]
  refine wp_answer ?_ fun _ => rfl
  refine wp_seq (reserveSharedMemoryAt_spec I) fun r t ht => ?_
  exact ⟨ht.1, I.formed.memoryEntry hentry, ht.2⟩

/-- A reference is added for the peer, and taken back if the kernel refuses the mapping. -/
lemma handleMappingShareRequest_spec {sourceVa present removed} (I : Inv R s []) :
    ends (handleMappingShareRequest pid peerPid sourceVa bytes peerVa peerPlace present vacant installed
      removed) (fun t => Inv R t []) s := by
  refine wp_guard I fun _ => wp_guard I fun _ => ?_
  generalize checkedAdd bytes (pageSize - 1) = total
  refine wp_lookup I fun sum _ => ?_
  generalize sum / pageSize = pages
  refine wp_lookup I fun allocation hfind => ?_
  refine wp_lookup I fun source _ => ?_
  refine wp_lookup I fun peer hpeer => wp_guard I fun _ => ?_
  refine wp_lookup I fun _ _ => ?_
  rw [wp_bind]
  refine wp_answer ?_ fun _ => I
  refine wp_then (reserveShare_spec I) ?_ (fun _ _ h => h ▸ I)
  rintro ⟨owner, r⟩ t ⟨hsame, hown, hpages⟩
  have hown : owner = s.processes.memoryOwnerPid peerPid := hown
  obtain ⟨hcount, hperm⟩ := find_some hfind
  have hkey : (allocation.basePage, pages) ∈ s.processes.physicalAllocations.keys := by
    rw [← hcount]
    exact key_mem (hperm.mem_iff.mpr mem_cons_self)
  have J := hsame.inv I
  obtain ⟨-, m, rfl⟩ := hsame
  rw [wp_try]
  refine wp_mono (register_spec J (mem_refs.mpr (.inl hkey)) (I.formed.owner_lt hpeer)) (fun _ u hu => ?_) ?_
  · cases installed with
    | none => exact hu.1
    | some e =>
      refine wp_sure (rollback_spec hu.1 (by rw [hu.2]; exact congrArg₂ _ (congrArg₂ _ hown.symm rfl) rfl)
        ?_ ⟨rfl, rfl⟩ hpages fun hc => ?_) (fun _ _ h => h)
      · rw [hu.2, hown]
        exact I.formed.owner
      · -- the source still refers to the extent
        rw [count_eq, hu.2] at hc
        have : 0 < s.processes.physicalAllocations.keys.count (allocation.basePage, pages) :=
          count_pos_iff.mpr hkey
        rw [keys_insert, ProcessPhysicalAllocation.key, count_cons_self] at hc
        have hc : s.processes.physicalAllocations.keys.count (allocation.basePage, pages) + 1 = 1 := hc
        omega
  · rintro e _ rfl
    exact wp_then recycle_spec (fun _ _ h => h.inv J) (fun _ _ h => h.inv J)

def mappingPosition (m : Nat × SharedMemoryReservation) : Nat × Nat := (m.1, m.2.baseVa)

def Mapped (p : ProcessManager) (k : Nat × Nat) (ms : List (Nat × SharedMemoryReservation)) : Prop :=
  k ∉ p.deferredPhysicalAllocations.keys ∧
  ∃ fresh old, p.physicalAllocations.entries = fresh ++ old ∧ (∀ e ∈ fresh, e.2.key = k) ∧
    (ms.map mappingPosition).Subperm (fresh.map fun e => (e.1, e.2.baseVa))

/-- The memory is put on the books of each task that maps it. -/
lemma registerMappings_spec {done} (I : Inv R s [(page, n)])
    (ho : ∀ m ∈ ms, s.processes.memoryOwnerPid m.1 = m.1 ∧ m.1 < s.processes.nextPid)
    (h : Mapped s.processes (page, n) done) :
    wp (forMappings (fun m => onProcesses (registerPhysicalAllocation m.1 m.2.baseVa
        m.2.startSlot page n)) ms)
      (fun _ t => Inv R t [(page, n)] ∧ Mapped t.processes (page, n) (ms ++ done))
      (fun _ t => Inv R t []) s := by
  induction ms generalizing s done with
  | nil => exact ⟨I, h⟩
  | cons m ms ih =>
    obtain ⟨hm, hlt⟩ := ho m mem_cons_self
    refine wp_then (register_spec I mem_cons_self (hm.symm ▸ hlt)) (fun _ t ht => ?_)
      (fun _ _ h => h ▸ I.subset (nil_subset _))
    obtain ⟨J, hp⟩ := ht
    have hmapped : Mapped t.processes (page, n) (m :: done) := by
      obtain ⟨hd, fresh, old, hact, hkey, hsub⟩ := h
      rw [hp]
      refine ⟨hd, (m.1, ⟨m.2.baseVa, m.2.startSlot, page, n⟩) :: fresh, old, ?_, ?_, ?_⟩
      · show (s.processes.memoryOwnerPid m.1, _) :: s.processes.physicalAllocations.entries = _
        rw [hact, hm]
        rfl
      · rintro e (_ | ⟨_, he⟩)
        · rfl
        · exact hkey e he
      · exact (subperm_cons _).mpr hsub
    refine wp_post (ih J (fun m' hm' => ?_) hmapped) (fun _ u hu => ⟨hu.1, ?_⟩)
    · rw [hp]
      exact ho m' (mem_cons_of_mem _ hm')
    · obtain ⟨hd, fresh, old, hact, hkey, hsub⟩ := hu.2
      refine ⟨hd, fresh, old, hact, hkey, List.Perm.subperm ?_ |>.trans hsub⟩
      exact (perm_middle.symm.map _)

/-- The last reference gives the memory back. -/
lemma removeMappings_spec {removed : Nat × SharedMemoryReservation → Option CapabilityError}
    (I : Inv R s []) (ho : ∀ m ∈ ms, s.processes.memoryOwnerPid m.1 = m.1)
    (hn : ∀ m ∈ ms, m.2.pageCount = n) (h : Mapped s.processes (page, n) ms) :
    ends (forMappings (fun m => do let _ ← attempt (removeSharedMapping m.1 m.2 (removed m))) ms)
      (fun t => Inv R t []) s := by
  induction ms generalizing s with
  | nil => exact I
  | cons m ms ih =>
    obtain ⟨hd, fresh, old, hact, hkey, hsub⟩ := h
    have hm := ho m mem_cons_self
    have hmn := hn m mem_cons_self
    -- the reference found for the mapping is one of the fresh ones
    obtain ⟨e, he, hpos⟩ := mem_map.mp (hsub.subset mem_cons_self)
    have hat : PhysicalAllocations.isAt m.1 m.2.baseVa m.2.pageCount e = true := by
      have h1 := hkey e he
      simp only [mappingPosition, Prod.mk.injEq, ProcessPhysicalAllocation.key] at hpos h1
      simp [PhysicalAllocations.isAt, hpos.1, hpos.2, h1.2, hmn]
    have hsole : Sole s.processes m.1 m.2.baseVa m.2.pageCount := by
      intro a ha _
      rw [findActivePhysicalAllocationReference, hm, PhysicalAllocations.find, hact,
        find?_append] at ha
      obtain ⟨e', he'⟩ := Option.isSome_iff_exists.mp (find?_isSome.mpr ⟨e, he, hat⟩)
      rw [he', Option.some_or, Option.map_some, Option.some.injEq] at ha
      rw [count_eq_zero, ← ha, hkey e' (mem_of_find?_eq_some he')]
      exact hd
    rw [ends, forMappings, wp_bind, wp_try]
    -- what is left serves the mappings that are left
    have hnext : ∀ t, Unshared R s t m.1 m.2 → Mapped t.processes (page, n) ms := by
      intro t U
      refine ⟨U.deferred ▸ hd, ?_⟩
      rcases U.active with hsame | herase
      · exact ⟨fresh, old, hsame ▸ hact, hkey, (sublist_cons_self _ _).subperm.trans hsub⟩
      · rw [hm, hact, eraseP_append_left hat _ he] at herase
        refine ⟨_, old, herase, fun x hx => hkey x (mem_of_mem_eraseP hx), ?_⟩
        obtain ⟨x, l, r, hl, hx, hfr, her⟩ := exists_of_eraseP he hat
        have hposx : (x.1, x.2.baseVa) = mappingPosition m := by
          have : x.1 = m.1 ∧ x.2.baseVa = m.2.baseVa ∧ x.2.pageCount = m.2.pageCount := by
            simpa [PhysicalAllocations.isAt] using hx
          rw [this.1, this.2.1, mappingPosition]
        rw [her]
        rw [hfr] at hsub
        have hperm : ((l ++ x :: r).map fun e => (e.1, e.2.baseVa)).Perm
            (mappingPosition m :: (l ++ r).map fun e => (e.1, e.2.baseVa)) := by
          rw [← hposx]
          exact perm_middle.map _
        exact (subperm_cons _).mp (hsub.trans hperm.subperm)
    have hstep : ∀ t, Unshared R s t m.1 m.2 →
        ends (forMappings (fun m => do let _ ← attempt (removeSharedMapping m.1 m.2 (removed m))) ms)
          (fun t => Inv R t []) t := by
      intro t U
      refine ih U.inv (fun m' hm' => ?_) (fun m' hm' => hn m' (mem_cons_of_mem _ hm')) (hnext t U)
      rw [I.owners U.inv]
      exact ho m' (mem_cons_of_mem _ hm')
    exact wp_mono (removeSharedMapping_spec I hsole) (fun _ => hstep) fun _ => hstep

lemma recycleMappings_spec :
    ends (forMappings (fun m => onProcesses (recycleSharedMemory m.1 m.2)) ms)
      (SameTables s) s := by
  induction ms generalizing s with
  | nil => exact .refl
  | cons m ms ih =>
    refine wp_seq recycle_spec (fun _ t ht => ?_)
    exact ends_mono ih fun _ => ht.trans

lemma reservePeer_spec (I : Inv R s []) :
    wp (reservePeer pid peerPid n r place)
      (fun peer t => SameTables s t ∧ ∀ m ∈ peer.toList,
        (m.1 = s.processes.memoryOwnerPid peerPid ∧
          s.processes.memoryOwnerPid peerPid < s.processes.nextPid) ∧ m.2.pageCount = n)
      (fun _ => SameTables s) s := by
  refine wp_ite (fun _ => ⟨.refl, nofun⟩) (fun _ => ?_)
  rw [wp_try]
  refine wp_mono (reserveSharedMapping_spec I) (fun m t ht => ⟨ht.1, ?_⟩) ?_
  · intro m' hm'
    rw [Option.toList_some, mem_singleton] at hm'
    rw [hm']
    exact ht.2
  · rintro e _ rfl
    exact wp_seq recycle_spec fun _ _ h => h

lemma allocateShared_spec (I : Inv R s []) :
    wp (allocateShared ms bytes)
      (fun page t => Inv R t [(page, bytesToPages bytes)] ∧ t.processes = s.processes ∧
        (page, bytesToPages bytes) ∉ s.refs)
      (fun _ t => Inv R t []) s := by
  rw [allocateShared, wp_try]
  refine wp_mono (allocatePhysicalAny_spec I) (fun page t ht => ht) ?_
  rintro e _ rfl
  exact wp_then recycleMappings_spec (fun _ _ h => h.inv I) (fun _ _ h => h.inv I)

/-- New memory for one or two tasks, taken back as a whole when a step fails. -/
lemma handleSharedMemoryRequest_spec
    {removed : Nat × SharedMemoryReservation → Option CapabilityError} (I : Inv R s []) :
    ends (handleSharedMemoryRequest pid peerPid bytes place peerPlace installed removed)
      (fun t => Inv R t []) s := by
  refine wp_guard I fun _ => wp_guard I fun _ => ?_
  generalize htotal : checkedAdd bytes (pageSize - 1) = total
  refine wp_lookup I fun sum hsum => ?_
  rw [hsum] at htotal
  have hmask := bytesToPages_mask (checkedAdd_eq_some.mp htotal).2
  generalize sum &&& complement (pageSize - 1) = size at hmask ⊢
  refine wp_then (reserveSharedMapping_spec I) ?_ (fun _ _ h => h ▸ I)
  rintro caller t ⟨hst, hcaller, hcallerN⟩
  refine wp_then (reservePeer_spec (hst.inv I)) ?_ (fun _ _ h => h.inv (hst.inv I))
  rintro peer u ⟨htu, hpeer⟩
  have hT := hst.inv I
  have J := htu.inv hT
  refine wp_seq (allocateShared_spec J) ?_
  rintro page v ⟨K, hv, hfresh⟩
  rw [hmask] at K hfresh
  -- the mappings belong to owners of memories
  have howner : ∀ m ∈ caller :: peer.toList,
      u.processes.memoryOwnerPid m.1 = m.1 ∧ m.1 < u.processes.nextPid := by
    intro m hm
    rcases mem_cons.mp hm with rfl | hm
    · rw [hcaller.1, ← I.owners J]
      exact ⟨J.formed.owner, I.owner_lt J hcaller.2⟩
    · rw [(hpeer m hm).1.1, ← hT.owners J]
      exact ⟨J.formed.owner, hT.owner_lt J (hpeer m hm).1.2⟩
  have hcount : ∀ m ∈ caller :: peer.toList, m.2.pageCount = size / pageSize := by
    intro m hm
    rcases mem_cons.mp hm with rfl | hm
    · exact hcallerN
    · exact (hpeer m hm).2
  have hnone : Mapped v.processes (page, size / pageSize) [] := by
    rw [hv]
    refine ⟨fun h => hfresh (mem_refs.mpr (.inr h)), [], _, rfl, nofun, nil_subperm⟩
  refine wp_seq (registerMappings_spec K (by rwa [hv]) hnone) ?_
  rintro _ w ⟨L, hmapped⟩
  rw [append_nil] at hmapped
  have L := L.subset (nil_subset _)
  cases installed with
  | none => exact L
  | some e =>
    refine wp_seq (removeMappings_spec L ?_ hcount hmapped) fun _ _ h => h
    intro m hm
    rw [J.owners L]
    exact (howner m hm).1

end Alpha

end Nanami.Process

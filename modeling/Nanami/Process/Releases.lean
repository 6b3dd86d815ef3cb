import Nanami.Process.Accounts
import Nanami.Process.Counts

/-!
# What the requests do to the accounts

Each request is described by what it does to the accounts: an extent that was allocated is in
flight until a reference is registered, a release moves a reference from one table to the other,
and an extent is handed back when the requests that drop its references find none left. The one
thing a request does not see is the other table, so `removeSharedMapping` and the ends of a process
image ask for what they do not check.
-/

namespace Nanami.Process
open Nanami.Lib Nanami.Memory List PhysicalAllocations SortedMap

/-! ## Processes -/

namespace ProcessManager

variable {p q : ProcessManager} {pid : Nat}

/-- Entries stand under their pids, which were given out, and the owner of a memory owns its own. -/
structure Formed (p : ProcessManager) : Prop where
  keyed : ∀ e ∈ p.entries.entries, e.2.pid = e.1
  fresh : ∀ e ∈ p.entries.entries, e.1 < p.nextPid ∧ e.2.memoryOwner < p.nextPid
  owned : ∀ e ∈ p.entries.entries, p.memoryOwnerPid e.2.memoryOwner = e.2.memoryOwner

variable {e : ProcessEntry}

lemma memoryOwnerPid_of_some (h : p.findEntryByPid pid = some e) :
    p.memoryOwnerPid pid = e.memoryOwner := by rw [memoryOwnerPid, h]; rfl

lemma memoryOwnerPid_of_none (h : p.findEntryByPid pid = none) : p.memoryOwnerPid pid = pid := by
  rw [memoryOwnerPid, h]; rfl

lemma memoryOwnerPid_congr (h : q.entries = p.entries) : q.memoryOwnerPid pid = p.memoryOwnerPid pid := by
  rw [memoryOwnerPid, memoryOwnerPid, findEntryByPid, findEntryByPid, h]

/-- References and reservations stand under pids that were given out. -/
structure Known (p : ProcessManager) : Prop where
  active : ∀ e ∈ p.physicalAllocations.entries, e.1 < p.nextPid
  deferred : ∀ e ∈ p.deferredPhysicalAllocations.entries, e.1 < p.nextPid
  reserved : ∀ e ∈ p.sharedMemory.entries, (ofLex e.1).1 < p.nextPid

/-- What a process refers to is deferred by no other one. -/
def Private (p : ProcessManager) (pid : Nat) : Prop :=
  ∀ a ∈ p.physicalAllocations.forPid pid, ∀ e ∈ p.deferredPhysicalAllocations.entries,
    e.2.key = a.key → e.1 = pid

lemma Private.register {a q} (h : p.Private q) (hk : a.key ∉ p.deferredPhysicalAllocations.keys) :
    Private { p with physicalAllocations := p.physicalAllocations.insert pid a } q := by
  intro b hb x hx hkey
  rcases mem_cons.mp (mem_forPid.mp hb) with heq | hb
  · obtain ⟨rfl, rfl⟩ := Prod.mk.inj heq
    exact absurd (hkey ▸ key_mem hx) hk
  · exact h b (mem_forPid.mpr hb) x hx hkey

section

variable (F : p.Formed)
include F

lemma Formed.congr (h : q.entries = p.entries) (hn : q.nextPid = p.nextPid) :
    q.Formed := by
  refine ⟨?_, ?_, ?_⟩ <;> rw [h]
  · exact F.keyed
  · rw [hn]
    exact F.fresh
  · intro e he
    rw [memoryOwnerPid_congr h]
    exact F.owned e he

lemma Formed.owner : p.memoryOwnerPid (p.memoryOwnerPid pid) = p.memoryOwnerPid pid := by
  cases h : p.findEntryByPid pid with
  | none => rw [memoryOwnerPid_of_none h, memoryOwnerPid_of_none h]
  | some e =>
    rw [memoryOwnerPid_of_some h]
    exact F.owned _ (get?_eq_some.mp h)

lemma Formed.memoryEntry (h : p.memoryEntry pid = some e) :
    e.pid = p.memoryOwnerPid pid := F.keyed _ (get?_eq_some.mp h)

lemma Formed.memoryEntry_lt (h : p.memoryEntry pid = some e) :
    p.memoryOwnerPid pid < p.nextPid := (F.fresh _ (get?_eq_some.mp h)).1

lemma Formed.owner_lt (h : p.findEntryByPid pid = some e) : p.memoryOwnerPid pid < p.nextPid := by
  rw [memoryOwnerPid_of_some h]
  exact (F.fresh _ (get?_eq_some.mp h)).2

/-- An entry may change as long as it keeps its pid and its owner. -/
lemma Formed.update {e'} (h : p.findEntryByPid pid = some e) (hp : e'.pid = e.pid)
    (ho : e'.memoryOwner = e.memoryOwner) :
    Formed { p with entries := p.entries.insert pid e' } := by
  have howner : ∀ x, memoryOwnerPid { p with entries := p.entries.insert pid e' } x =
      p.memoryOwnerPid x := by
    intro x
    rw [memoryOwnerPid, findEntryByPid, get?_insert]
    split
    · rw [‹x = pid›, memoryOwnerPid_of_some h, ← ho]
      rfl
    · rfl
  have he := get?_eq_some.mp h
  refine ⟨?_, ?_, ?_⟩ <;> intro x hx <;> rcases mem_insert.mp hx with rfl | ⟨hx, _⟩
  · exact hp.trans (F.keyed _ he)
  · exact F.keyed x hx
  · exact ⟨(F.fresh _ he).1, ho ▸ (F.fresh _ he).2⟩
  · exact F.fresh x hx
  · rw [howner, ho]
    exact F.owned _ he
  · rw [howner]
    exact F.owned x hx

end

end ProcessManager

open ProcessManager

/-! ## The accounts of Alpha -/

namespace Alpha

variable {s t : Alpha} {ex others : List (Nat × Nat)} {k : Nat × Nat}

def refs (s : Alpha) : List (Nat × Nat) :=
  s.processes.physicalAllocations.keys ++ s.processes.deferredPhysicalAllocations.keys

lemma mem_refs : k ∈ s.refs ↔ k ∈ s.processes.physicalAllocations.keys ∨
    k ∈ s.processes.deferredPhysicalAllocations.keys := mem_append

def Funds (s : Alpha) (l : List (Nat × Nat)) : Prop := Accounts s.memory s.allocated s.handed l

def roster (s : Alpha) : SortedMap Nat ProcessEntry × Nat := (s.processes.entries, s.processes.nextPid)

/-- The accounts are in order with `ex` in flight, and the tasks are those of `R`. -/
structure Inv (R : SortedMap Nat ProcessEntry × Nat) (s : Alpha) (ex : List (Nat × Nat)) : Prop where
  funds : s.Funds (ex ++ s.refs)
  formed : s.processes.Formed
  known : s.processes.Known
  tasks : s.roster = R

variable {R : SortedMap Nat ProcessEntry × Nat}

lemma Inv.subset {ex'} (I : Inv R s ex) (h : ex' ⊆ ex ++ s.refs) : Inv R s ex' :=
  { I with funds := I.funds.subset (append_subset.mpr ⟨h, subset_append_right _ _⟩) }

lemma Inv.tables {ex' p} (I : Inv R s ex) (hp : ({ s with processes := p } : Alpha).roster = s.roster)
    (K : p.Known) (h : ex' ++ ({ s with processes := p } : Alpha).refs ⊆ ex ++ s.refs) :
    Inv R { s with processes := p } ex' :=
  ⟨I.funds.subset h, I.formed.congr (Prod.mk.inj hp).1 (Prod.mk.inj hp).2, K, hp.trans I.tasks⟩

/-- Memory was moved, but no reference. -/
lemma Inv.moved {ex'} (I : Inv R s ex) (hp : t.processes = s.processes)
    (A : t.Funds (ex' ++ s.refs)) : Inv R t ex' := by
  refine ⟨?_, hp ▸ I.formed, hp ▸ I.known, ?_⟩
  · rw [refs, hp]
    exact A
  · rw [roster, hp]
    exact I.tasks

lemma Inv.owners {ex'} (I : Inv R s ex) (J : Inv R t ex') {pid} :
    t.processes.memoryOwnerPid pid = s.processes.memoryOwnerPid pid :=
  memoryOwnerPid_congr (Prod.mk.inj (J.tasks.trans I.tasks.symm)).1

lemma Inv.owner_lt {ex'} (I : Inv R s ex) (J : Inv R t ex') {pid}
    (h : s.processes.memoryOwnerPid pid < s.processes.nextPid) :
    t.processes.memoryOwnerPid pid < t.processes.nextPid := by
  have hnext : t.processes.nextPid = s.processes.nextPid :=
    (Prod.mk.inj (J.tasks.trans I.tasks.symm)).2
  rwa [I.owners J, hnext]

variable {E : Failure → Alpha → Prop} {bytes slot : Nat} {copied : Option CapabilityError}

lemma wp_onProcesses {α} {m : EStateM Failure ProcessManager α} {Q : α → Alpha → Prop} :
    wp (onProcesses m) Q E s ↔
      wp m (fun a p => Q a { s with processes := p }) (fun e p => E e { s with processes := p })
        s.processes := wp_zoom

lemma wp_answer {failure Q} (hQ : Q () s) (hE : ∀ e, E (.error e) s) :
    wp (answer failure) Q E s := by
  cases failure with
  | none => exact hQ
  | some e => exact hE e

lemma allocatePhysicalAny_spec (I : Inv R s ex) :
    wp (allocatePhysicalAny bytes)
      (fun page t => Inv R t ((page, bytesToPages bytes) :: ex) ∧ t.processes = s.processes ∧
        (page, bytesToPages bytes) ∉ ex ++ s.refs)
      (fun _ t => t = s) s := by
  rw [allocatePhysicalAny, wp_bind, onMemory, wp_zoom]
  refine wp_mono (MemoryManager.allocatePhysicalAny_holds I.funds.inv) ?_ ?_
  · rintro page m ⟨h0, T⟩
    refine ⟨I.moved rfl ?_, rfl, fun hmem => ?_⟩
    · exact I.funds.allocate h0 PhysicalAllocator.bytesToPages_lt T
    · have hx : page ∈ pagesOf (page, bytesToPages bytes) :=
        ⟨Nat.le_refl _, Nat.lt_add_of_pos_right (Nat.pos_of_ne_zero h0)⟩
      exact Set.disjoint_left.mp (T.fresh _ (I.funds.held _ hmem)) hx hx
  · rintro _ m rfl
    rfl

lemma freePhysical_spec (A : s.Funds (k :: others)) (hk : k ∉ others) :
    sure (freePhysical k.1 k.2) (fun _ t => t.Funds others ∧ t.processes = s.processes) s := by
  rw [sure, freePhysical, wp_update, onMemory, wp_zoom]
  exact wp_post (A.free hk) (fun _ _ h => ⟨h, rfl⟩)

variable {l : List ProcessPhysicalAllocation} {pid va n : Nat}

lemma freeEach_spec (A : s.Funds (l.map (·.key) ++ others)) (hn : (l.map (·.key)).Nodup)
    (hl : ∀ a ∈ l, a.key ∉ others) :
    wp (freeEach l) (fun _ t => t.Funds others ∧ t.processes = s.processes) (fun _ _ => False) s := by
  induction l generalizing s with
  | nil => exact ⟨A, rfl⟩
  | cons a l ih =>
    rw [map_cons, nodup_cons] at hn
    rw [freeEach, wp_bind]
    have hk : a.key ∉ l.map (·.key) ++ others := by
      rw [mem_append, not_or]
      exact ⟨hn.1, hl a mem_cons_self⟩
    refine wp_post (freePhysical_spec (k := a.key) A hk) (fun _ t ht => ?_)
    refine wp_post (ih ht.1 hn.2 fun b hb => hl b (mem_cons_of_mem _ hb)) ?_
    exact fun _ u hu => ⟨hu.1, hu.2.trans ht.2⟩

/-- Where `freeEach` succeeds, nothing that `freeIgnoring` could ignore happens. -/
lemma freeIgnoring_of_freeEach {Q} (h : wp (freeEach l) Q (fun _ _ => False) s) :
    wp (freeIgnoring l) Q (fun _ _ => False) s := by
  induction l generalizing s with
  | nil => exact h
  | cons a l ih =>
    rw [freeEach, wp_bind] at h
    rw [freeIgnoring, wp_try]
    exact wp_mono h (fun _ _ => ih) (fun _ _ hf => hf.elim)

/-! ## Private memory -/

lemma register_spec {page : Nat} (I : Inv R s ex) (hk : (page, n) ∈ ex ++ s.refs)
    (hpid : s.processes.memoryOwnerPid pid < s.processes.nextPid) :
    wp (onProcesses (registerPhysicalAllocation pid va slot page n))
      (fun _ t => Inv R t ex ∧ t.processes = { s.processes with
        physicalAllocations := s.processes.physicalAllocations.insert
          (s.processes.memoryOwnerPid pid) ⟨va, slot, page, n⟩ })
      (fun _ t => t = s) s := by
  rw [wp_onProcesses, registerPhysicalAllocation]
  refine wp_guard rfl fun _ => ⟨I.tables rfl ⟨?_, I.known.deferred, I.known.reserved⟩ ?_, rfl⟩
  · exact forall_mem_cons.mpr ⟨hpid, I.known.active⟩
  refine append_subset.mpr ⟨subset_append_left _ _, cons_subset.mpr ⟨hk, ?_⟩⟩
  exact subset_append_right _ _

lemma and_complement_page {w} (h : w < wordSize) :
    w &&& complement (pageSize - 1) = w / pageSize * pageSize :=
  and_complement_mask (k := pageBits) h (by decide)

lemma bytesToPages_mask {w} (h : w < wordSize) :
    bytesToPages (w &&& complement (pageSize - 1)) = (w &&& complement (pageSize - 1)) / pageSize := by
  have hq : w / pageSize < maxPages := Nat.div_lt_of_lt_mul h
  rw [and_complement_page h, bytesToPages_mul hq, Nat.mul_div_cancel _ (by decide)]

lemma handleDmaRequest_spec {place installed} (I : Inv R s []) :
    ends (handleDmaRequest pid bytes place installed) (fun t => Inv R t []) s := by
  refine wp_guard I fun _ => wp_guard I fun _ => ?_
  refine wp_lookup I fun owner howner => ?_
  refine wp_lookup I fun v _ => ?_
  refine wp_then (allocatePhysicalAny_spec I) (fun page t ht => ?_) (fun _ _ h => h ▸ I)
  have hp : bytesToPages (alignUp bytes) = alignUp bytes / pageSize :=
    bytesToPages_mask (Nat.mod_lt _ (by decide))
  rw [hp] at ht
  refine wp_then (register_spec ht.1 mem_cons_self (I.owner_lt ht.1 (I.formed.memoryEntry_lt howner)))
    (fun _ u hu => ?_) (fun _ _ h => h ▸ ht.1.subset (nil_subset _))
  have J := hu.1.subset (nil_subset _)
  rw [wp_bind]
  exact wp_answer J fun _ => J

lemma allocateProcessFrame_spec (I : Inv R s []) :
    wp (allocateProcessFrame copied)
      (fun page t => Inv R t [(page, 1)] ∧ t.processes = s.processes ∧ (page, 1) ∉ s.refs)
      (fun _ t => Inv R t [] ∧ t.processes = s.processes) s := by
  refine wp_then (allocatePhysicalAny_spec I) (fun page t ht => ?_) (by rintro _ _ rfl; exact ⟨I, rfl⟩)
  obtain ⟨J, hp, hk⟩ := ht
  cases copied with
  | none => exact ⟨J, hp, hk⟩
  | some e =>
    rw [wp_try]
    have hk : (page, 1) ∉ t.refs := by
      rw [refs, hp]
      exact hk
    refine wp_mono (freePhysical_spec (k := (page, 1)) J.funds hk) (fun _ u hu => ?_)
      (fun _ _ h => h.elim)
    exact ⟨J.moved hu.2 hu.1, hu.2.trans hp⟩

lemma materializeLazyPage_spec {mapped} (I : Inv R s [])
    (hpid : s.processes.memoryOwnerPid pid < s.processes.nextPid) :
    ends (materializeLazyPage pid va slot copied mapped)
      (fun t => Inv R t [] ∧ ∀ {q}, s.processes.Private q → t.processes.Private q) s := by
  refine wp_then (allocateProcessFrame_spec I) (fun page t ht => ?_)
    (fun _ _ h => ⟨h.1, h.2 ▸ id⟩)
  obtain ⟨J, hp, hk⟩ := ht
  refine wp_then (register_spec J mem_cons_self (I.owner_lt J hpid)) (fun _ u hu => ?_)
    (fun _ _ h => ⟨h ▸ J.subset (nil_subset _), h ▸ hp ▸ id⟩)
  have K : Inv R u [] ∧ ∀ {q}, s.processes.Private q → u.processes.Private q := by
    refine ⟨hu.1.subset (nil_subset _), fun h => ?_⟩
    rw [hu.2, hp]
    exact h.register fun hmem => hk (mem_refs.mpr (.inr hmem))
  exact wp_answer K fun _ => K

/-! ## Releasing -/

lemma releaseReference_spec :
    wp (onProcesses (releasePhysicalAllocationReference pid va n))
      (fun r t => ∃ u, s.processes.physicalAllocations.take (s.processes.memoryOwnerPid pid) va n =
        some (r, u) ∧ t = { s with processes := { s.processes with physicalAllocations := u } })
      (fun _ t => t = s) s := by
  rw [wp_onProcesses, releasePhysicalAllocationReference]
  refine wp_lookup rfl fun r hr => ?_
  exact ⟨r.2, hr, rfl⟩

/-- A release gives up one mapping; what the process keeps to itself it still does. -/
lemma releaseAndDefer_spec (I : Inv R s ex) :
    ends (releaseAndDefer pid va n) (fun t => Inv R t ex ∧
      (s.processes.memoryOwnerPid pid = pid → s.processes.Private pid → t.processes.Private pid)) s := by
  refine wp_then releaseReference_spec ?_ (by rintro _ _ rfl; exact ⟨I, fun _ => id⟩)
  rintro ⟨a, last⟩ t ⟨u, hu, rfl⟩
  have hk := take_keys hu
  obtain ⟨hmem, hsub⟩ := take_mem hu
  refine ⟨I.tables rfl ⟨fun e he => I.known.active e (hsub e he), ?_, I.known.reserved⟩ ?_,
    fun ho h => ?_⟩
  · exact forall_mem_cons.mpr ⟨I.known.active _ hmem, I.known.deferred⟩
  · refine append_subset.mpr ⟨subset_append_left _ _, fun r hr => mem_append_right _ ?_⟩
    rcases mem_append.mp hr with hr | hr
    · exact mem_append_left _ (hk.mem_iff.mpr (mem_cons_of_mem _ hr))
    · rcases mem_cons.mp hr with rfl | hr
      · exact mem_append_left _ (hk.mem_iff.mpr mem_cons_self)
      · exact mem_append_right _ hr
  · intro b hb x hx hkey
    rcases mem_cons.mp hx with rfl | hx
    · exact ho
    · exact h b (mem_forPid.mpr (hsub _ (mem_forPid.mp hb))) x hx hkey

lemma releasePages_spec (I : Inv R s ex) :
    ends (releasePages pid l) (fun t => Inv R t ex ∧
      (s.processes.memoryOwnerPid pid = pid → s.processes.Private pid → t.processes.Private pid)) s := by
  induction l generalizing s with
  | nil => exact ⟨I, fun _ => id⟩
  | cons a l ih =>
    refine wp_seq (releaseAndDefer_spec I) fun _ t ht => ends_mono (ih ht.1) fun u hu => ⟨hu.1, ?_⟩
    exact fun ho h => hu.2 ((I.owners ht.1).trans ho) (ht.2 ho h)

/-- What the removal of a shared mapping leaves: the reference it found is gone, or none is. -/
structure Unshared (R : SortedMap Nat ProcessEntry × Nat) (s t : Alpha) (pid : Nat)
    (r : SharedMemoryReservation) : Prop where
  inv : Inv R t []
  deferred : t.processes.deferredPhysicalAllocations = s.processes.deferredPhysicalAllocations
  active : t.processes.physicalAllocations = s.processes.physicalAllocations ∨
    t.processes.physicalAllocations.entries = s.processes.physicalAllocations.entries.eraseP
      (PhysicalAllocations.isAt (s.processes.memoryOwnerPid pid) r.baseVa r.pageCount)

def Sole (p : ProcessManager) (pid va n : Nat) : Prop :=
  ∀ a, p.findActivePhysicalAllocationReference pid va n = some a →
    p.physicalAllocations.count a = 1 → p.deferredPhysicalAllocations.count a = 0

lemma removeSharedMapping_spec {r} {removed : Option CapabilityError} (I : Inv R s [])
    (h : Sole s.processes pid r.baseVa r.pageCount) :
    wp (removeSharedMapping pid r removed) (fun _ t => Unshared R s t pid r)
      (fun _ t => Unshared R s t pid r) s := by
  have hsame : Unshared R s s pid r := ⟨I, rfl, .inl rfl⟩
  rw [removeSharedMapping, wp_bind]
  refine wp_answer ?_ fun _ => hsame
  refine wp_then releaseReference_spec ?_ (fun _ _ h => h ▸ hsame)
  rintro ⟨a, last⟩ t ⟨u, hu, rfl⟩
  obtain ⟨hfind, hlast, herase⟩ := take_some hu
  have hk := take_keys hu
  have hn : a.pageCount = r.pageCount := (find_some hfind).1
  have J : Inv R { s with processes := { s.processes with physicalAllocations := u } } [] := by
    refine I.tables rfl { I.known with active := fun e he => I.known.active e ((take_mem hu).2 e he) }
      fun q hq => mem_refs.mpr ((mem_refs.mp hq).imp_left fun hq => ?_)
    exact hk.mem_iff.mpr (mem_cons_of_mem _ hq)
  -- the reservation goes last, and goes alone
  have hrecycle : ∀ v : Alpha, Unshared R s v pid r →
      wp (onProcesses (recycleSharedMemory pid r)) (fun _ w => Unshared R s w pid r)
        (fun _ w => Unshared R s w pid r) v := by
    intro v hv
    rw [wp_onProcesses, recycleSharedMemory]
    refine wp_ite (fun _ => ⟨?_, hv.deferred, hv.active⟩) (fun _ => hv)
    refine hv.inv.tables rfl { hv.inv.known with reserved := fun e he => ?_ } (List.Subset.refl _)
    exact hv.inv.known.reserved e (mem_erase.mp he).1
  cases last with
  | false =>
    exact hrecycle _ ⟨J, rfl, .inr herase⟩
  | true =>
    have hc : s.processes.physicalAllocations.count a = 1 := hlast.mp rfl
    have hd := count_eq_zero.mp (h a hfind hc)
    have hu' := not_mem_of_last hk hc
    have A : s.Funds (a.key :: (u.keys ++ s.processes.deferredPhysicalAllocations.keys)) := by
      refine I.funds.subset fun q hq => mem_refs.mpr ?_
      exact (mem_append.mp hq).imp_left hk.mem_iff.mpr
    show wp (freePhysical a.basePage r.pageCount >>= fun _ =>
      onProcesses (recycleSharedMemory pid r)) _ _ _
    rw [wp_bind, ← hn]
    refine wp_mono (freePhysical_spec (k := a.key) (s := { s with
      processes := { s.processes with physicalAllocations := u } }) A ?_) (fun _ v hv => ?_)
      (fun _ _ h => h.elim)
    · rw [mem_append, not_or]
      exact ⟨hu', hd⟩
    · refine hrecycle v ⟨J.moved hv.2 hv.1, by rw [hv.2], ?_⟩
      rw [hv.2]
      exact .inr herase

lemma Unshared.own {r} (U : Unshared R s t pid r) {q} (h : s.processes.Private q) :
    t.processes.Private q := by
  intro a ha e he
  rw [U.deferred] at he
  refine h a (mem_forPid.mpr ?_) e he
  rcases U.active with hsame | herase
  · exact hsame ▸ mem_forPid.mp ha
  · exact mem_of_mem_eraseP (herase ▸ mem_forPid.mp ha)

end Alpha

end Nanami.Process

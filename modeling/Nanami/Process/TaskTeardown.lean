import Nanami.Process.TaskLives

/-!
# Teardown

What a teardown does, and what a reap does to the tasks: it is deferred, the task leaves the table
with all it held given back, or the teardown fails and is remembered. The reap of the last task is
followed by the one of the owner, if that was deferred.
-/

namespace Nanami.Process
open Nanami.Lib Nanami.Memory List SortedMap ProcessManager

namespace Tasks

variable {s t u : Tasks} {pid q o o' slot caller : Nat} {k : TearDownAnswers} {e : ProcessEntry}
  {i : TaskInfo}

/-! ## Teardown -/

/-- Only what stands under the pid and the root slot of a task changes; the accounts stay in order if
no other task has deferred what the task alone refers to. -/
structure Touches (pid slot : Nat) (s t : Tasks) : Prop where
  info : t.info = s.info
  used : t.usedRootSlots = s.usedRootSlots
  ready : t.arenasReady = s.arenasReady
  members : t.members = s.members
  reaped : t.reaped = s.reaped
  broken : t.broken = s.broken
  nodes : ∀ x ≠ slot, t.rootNodes x = s.rootNodes x
  arenas : ∀ x ≠ slot, t.arenasUsed x = s.arenasUsed x
  tables : ∀ x ≠ slot, t.pageTables x = s.pageTables x
  references : Alpha.Alone pid s.alpha t.alpha
  accounts : s.processes.Formed → s.Accounted → Alpha.Reapable s.processes pid →
    t.Accounted ∧ Alpha.Reapable t.processes pid

lemma Touches.refl : Touches pid slot s s :=
  ⟨rfl, rfl, rfl, rfl, rfl, rfl, fun _ _ => rfl, fun _ _ => rfl, fun _ _ => rfl, .refl,
    fun _ A h => ⟨A, h⟩⟩

lemma Touches.entries (T : Touches pid slot s t) : t.processes.entries = s.processes.entries :=
  (Prod.mk.inj T.references.tasks).1

lemma Touches.next (T : Touches pid slot s t) : t.processes.nextPid = s.processes.nextPid :=
  (Prod.mk.inj T.references.tasks).2

lemma Touches.trans (T : Touches pid slot s t) (T' : Touches pid slot t u) : Touches pid slot s u where
  info := T'.info.trans T.info
  used := T'.used.trans T.used
  ready := T'.ready.trans T.ready
  members := T'.members.trans T.members
  reaped := T'.reaped.trans T.reaped
  broken := T'.broken.trans T.broken
  nodes x hx := (T'.nodes x hx).trans (T.nodes x hx)
  arenas x hx := (T'.arenas x hx).trans (T.arenas x hx)
  tables x hx := (T'.tables x hx).trans (T.tables x hx)
  references := T.references.trans T'.references
  accounts F A h := T'.accounts (F.congr T.entries T.next) (T.accounts F A h).1 (T.accounts F A h).2

lemma Touches.holdings (T : Touches pid slot s t) (hq : q ≠ pid) (hslot : (s.info q).rootSlot ≠ slot) :
    t.holdings q = s.holdings q := by
  rw [Tasks.holdings, T.info, T.nodes _ hslot, T.arenas _ hslot, T.tables _ hslot]
  exact congrArg₂ (Holdings.mk _ _ _) (T.references.active q hq) (T.references.deferred q hq)

lemma Touches.frame (T : Touches pid slot s t) : Frame pid slot s t where
  keyed h e he := h e (T.entries ▸ he)
  kin _ _ := kinOf_congr T.entries
  next := T.next.ge
  info _ _ := by rw [T.info]
  used _ h _ := T.used.symm ▸ h
  arenas _ h := T.ready.symm ▸ h
  members := T.members
  reaped := T.reaped
  broken _ h := T.broken.symm ▸ h
  holdings _ := T.holdings

lemma touches_removeRootNode : Touches pid slot s (removeRootNode slot s) :=
  { Touches.refl with nodes := fun _ hx => Function.update_of_ne hx .. }

lemma touches_emptyArena : Touches pid slot s (emptyArena slot s) :=
  { Touches.refl with arenas := fun _ hx => Function.update_of_ne hx .. }

lemma touches_tables {tables free} : Touches pid slot s { s with
    pageTables := Function.update s.pageTables slot tables
    freePageTables := free } :=
  { Touches.refl with tables := fun _ hx => Function.update_of_ne hx .. }

lemma wp_answer {failure Q E} (hQ : Q () s) (hE : ∀ e, E (.error e) s) :
    wp (answer failure) Q E s := by
  cases failure with
  | none => exact hQ
  | some e => exact hE e

/-- The page tables go to the pool one by one, the last one first. -/
lemma releaseTables_spec {table tables} (h : s.pageTables slot = tables) :
    wp (releaseTables slot table tables)
      (fun _ t => t = { s with
        pageTables := Function.update s.pageTables slot []
        freePageTables := tables.reverse ++ s.freePageTables })
      (fun _ t => ∃ left free, t = { s with
        pageTables := Function.update s.pageTables slot left
        freePageTables := free }) s := by
  induction tables generalizing s with
  | nil =>
    have hsame : Function.update s.pageTables slot [] = s.pageTables := by
      rw [← h, Function.update_eq_self]
    rw [hsame]
    rfl
  | cons x rest ih =>
    rw [releaseTables, wp_bind]
    refine wp_answer ?_ fun _ => ⟨s.pageTables slot, s.freePageTables, by rw [Function.update_eq_self]⟩
    rw [wp_update]
    refine wp_mono (ih (Function.update_self ..)) ?_ ?_
    · rintro _ _ rfl
      simp [freeTable]
    · rintro _ _ ⟨left, free, rfl⟩
      exact ⟨left, free, by simp [freeTable]⟩

lemma releasePageTables_spec {table} :
    wp (releasePageTables slot table)
      (fun _ t => t = { s with
        pageTables := Function.update s.pageTables slot []
        freePageTables := (s.pageTables slot).reverse ++ s.freePageTables })
      (fun _ => Touches pid slot s) s := by
  rw [releasePageTables, wp_read]
  refine wp_mono (releaseTables_spec rfl) (fun _ _ h => h) ?_
  rintro _ _ ⟨left, free, rfl⟩
  exact touches_tables

lemma resetProcessArena_spec {reset} :
    wp (resetProcessArena slot reset)
      (fun _ t => t = emptyArena slot s ∨ t = s ∧ ¬s.Placed slot) (fun _ t => t = s) s := by
  refine wp_ite (fun hno => .inr ⟨rfl, fun hp => ?_⟩) fun _ => ?_
  · rw [hp.2.2.2, decide_eq_false (not_le.mpr hp.2.2.1)] at hno
    exact Bool.false_ne_true hno
  · rw [wp_bind]
    exact wp_answer (.inl rfl) fun _ => rfl

lemma releaseReaped_spec :
    wp (onAlpha (Alpha.releaseReaped pid))
      (fun _ t => Touches pid slot s t ∧ ∃ a, t = { s with alpha := a } ∧
        a.handed = (Alpha.handedByReap s.processes pid).reverse ++ s.alpha.handed)
      (fun _ => Touches pid slot s) s := by
  rw [onAlpha, wp_zoom]
  have hacc := fun (F : s.processes.Formed) (A : s.Accounted) (h : Alpha.Reapable s.processes pid) =>
    Alpha.releaseReaped_spec (s := s.alpha) (R := s.alpha.roster) ⟨A.1, F, A.2, rfl⟩ h
  refine wp_of_run (fun _ a ha => ?_) fun _ a ha => ?_
  · obtain ⟨hback, hp⟩ := wp_ok Alpha.releaseReaped_handed ha
    refine ⟨{ @Touches.refl s pid slot with
      references := .drop (.inr hp)
      accounts := fun F A h => ?_ }, a, rfl, hback⟩
    have I := wp_ok (hacc F A h) ha
    refine ⟨⟨I.funds, I.known⟩, ?_⟩
    show Alpha.Reapable a.processes pid
    rw [hp]
    exact Alpha.unmentioned_drop.reapable
  · have hp := wp_error Alpha.releaseReaped_handed ha
    exact { @Touches.refl s pid slot with
      references := .of_processes hp
      accounts := fun F A h => (wp_error (hacc F A h) ha).elim }

/-- All that a task held is given back: its root node is removed and its arena is empty, its page
tables are in the pool, no table refers to it, and what the reap counts as its own is handed back. -/
structure TornDown (pid slot : Nat) (s t : Tasks) : Prop where
  gone : t.ownerOf pid = none
  rootNode : t.rootNodes slot = false
  arena : s.Placed slot → t.arenasUsed slot = false
  pageTables : t.pageTables slot = []
  recycled : t.freePageTables = (s.pageTables slot).reverse ++ s.freePageTables
  references : Alpha.Unmentioned t.processes pid
  handed : t.alpha.handed = (Alpha.handedByReap s.processes pid).reverse ++ s.alpha.handed

lemma kinOf_removeEntry : (removeEntry pid s).kinOf q = if q = pid then none else s.kinOf q :=
  kinOf_alter (d := none) get?_erase

lemma tearDown_spec :
    wp (tearDown pid slot k)
      (fun _ t => ∃ u, Touches pid slot s u ∧ t = removeEntry pid u ∧ TornDown pid slot s t)
      (fun _ => Touches pid slot s) s := by
  rw [tearDown, wp_bind]
  refine wp_answer ?_ fun _ => .refl
  rw [wp_update]
  have T1 : Touches pid slot s (removeRootNode slot s) := touches_removeRootNode
  refine wp_then releasePageTables_spec ?_ fun _ _ => T1.trans
  rintro _ _ rfl
  have T2 : Touches pid slot s { removeRootNode slot s with
      pageTables := Function.update s.pageTables slot []
      freePageTables := (s.pageTables slot).reverse ++ s.freePageTables } := T1.trans touches_tables
  refine wp_then releaseReaped_spec ?_ fun _ _ => T2.trans
  rintro _ _ ⟨T3, a, rfl, hback⟩
  have T3 := T2.trans T3
  refine wp_then resetProcessArena_spec ?_ (by rintro _ _ rfl; exact T3)
  intro _ v hv
  have T4 : Touches pid slot s v := by
    rcases hv with rfl | ⟨rfl, -⟩
    · exact T3.trans touches_emptyArena
    · exact T3
  refine wp_guard T4 fun _ => ?_
  refine wp_lookup T4 fun _ _ => wp_guard T4 fun _ => wp_guard T4 fun _ => ⟨v, T4, rfl, ?_⟩
  have hgone : (removeEntry pid v).ownerOf pid = none := by
    rw [ownerOf_eq_map, kinOf_removeEntry, if_pos rfl]
    rfl
  rcases hv with rfl | ⟨rfl, hno⟩
  · exact ⟨hgone, Function.update_self .., fun _ => Function.update_self .., Function.update_self ..,
      rfl, Alpha.unmentioned_drop, hback⟩
  · exact ⟨hgone, Function.update_self .., fun hp => absurd (hp.mono id id) hno, Function.update_self ..,
      rfl, Alpha.unmentioned_drop, hback⟩

lemma Stays.refl (L : Lives s) : Stays s s :=
  ⟨L.keyed, fun _ => rfl, le_rfl, rfl, fun _ _ _ => rfl, fun _ _ _ => id, List.Subset.refl _,
    fun _ => id, rfl, rfl, List.Subset.refl _, fun _ _ _ _ => id⟩

lemma holdings_removeEntry (hq : q ≠ pid) : (removeEntry pid s).holdings q = s.holdings q :=
  congrArg₂ (Holdings.mk _ _ _) (Alpha.forPid_removeEach hq _) (Alpha.forPid_removeEach hq _)

lemma Accounted.removeEntry (A : s.Accounted) : (removeEntry pid s).Accounted := by
  have K : Known { s.processes with entries := s.processes.entries.erase pid } :=
    ⟨A.2.active, A.2.deferred, A.2.reserved⟩
  refine ⟨A.1.subset fun k hk => Alpha.mem_refs.mpr ((Alpha.mem_refs.mp hk).imp ?_ ?_), K.drop⟩
  · exact fun h => PhysicalAllocations.removePid_subset h
  · exact fun h => PhysicalAllocations.removePid_subset h

lemma frame_removeEntry (hslot : (s.info pid).rootSlot = slot) : Frame pid slot s (removeEntry pid s) where
  keyed h e he := h e (mem_erase.mp he).1
  kin _ hq := kinOf_removeEntry.trans (if_neg hq)
  next := le_rfl
  info _ _ := rfl
  used _ hx hne := (mem_erase_of_ne (hslot ▸ hne)).mpr hx
  arenas _ := id
  members := rfl
  reaped := rfl
  broken := List.Subset.refl _
  holdings _ hq _ := holdings_removeEntry hq

/-- A teardown that fails is remembered; the other tasks keep what they hold. -/
lemma Touches.stays (T : Touches pid (s.info pid).rootSlot s t) (L : Lives s)
    (hin : s.ownerOf pid = some o) :
    Stays s { t with broken := pid :: t.broken } ∧ Spares s { t with broken := pid :: t.broken } := by
  have F := T.frame
  have hold : ∀ q o, s.ownerOf q = some o → q ∉ pid :: t.broken → t.holdings q = s.holdings q := by
    intro q o hq hb
    have hne : q ≠ pid := fun he => hb (he ▸ mem_cons_self)
    exact T.holdings hne fun he => hne (L.apart hq hin he)
  refine ⟨{
    keyed := F.keyed L.keyed
    kin := fun q => kinOf_congr T.entries
    next := F.next
    alpha := by rw [T.info]
    slots := fun _ _ _ => by rw [T.info]
    deferred := fun _ _ _ h => by rw [T.info]; exact h
    used := T.used ▸ List.Subset.refl _
    arenas := F.arenas
    members := F.members
    reaped := F.reaped
    broken := List.Subset.trans F.broken (subset_cons_self _ _)
    built := fun q o hq hb => (built_congr (hold q o hq hb)).mpr }, fun q o hq _ hb => hold q o hq hb⟩

/-! ## What a request does to the owners of memories -/

/-- The owner of a memory leaves the table, and all it held is given back. -/
def Releases (owner : Nat) (s t : Tasks) : Prop :=
  (s.ownerOf owner).isSome ∧ ∃ u, u.Placed (s.info owner).rootSlot ∧
    u.holdings owner = s.holdings owner ∧ TornDown owner (s.info owner).rootSlot u t

/-- Who has left the table does not come back, and an owner that leaves it has given back what it
held. -/
structure Proceeds (s t : Tasks) : Prop where
  next : s.processes.nextPid ≤ t.processes.nextPid
  broken : s.broken ⊆ t.broken
  members : t.members = s.members
  absent : ∀ q < s.processes.nextPid, s.ownerOf q = none → t.ownerOf q = none
  departs : ∀ q, s.ownerOf q = some q → t.ownerOf q = none → Releases q s t

/-- What is more, who stays in the table keeps what it holds. -/
structure Handles (s t : Tasks) : Prop extends Proceeds s t where
  spares : Spares s t

lemma Stays.proceeds (S : Stays s t) : Proceeds s t where
  next := S.next
  broken := S.broken
  members := S.members
  absent q _ hq := (S.owners q).trans hq
  departs q hq hn := by
    rw [S.owners, hq] at hn
    cases hn

lemma Stays.handles (S : Stays s t) (h : Spares s t) : Handles s t := ⟨S.proceeds, h⟩

section

variable (S : Leaves pid s t) (L : Lives s) (hin : s.ownerOf pid = some o)
include S L hin

lemma Leaves.keeps (hq : s.ownerOf q = some o') (hne : q ≠ pid) : t.holdings q = s.holdings q :=
  S.holdings q hne fun he => hne (L.apart hq hin he)

lemma Leaves.handles (D : TornDown pid (s.info pid).rootSlot s t) : Handles s t where
  next := S.next
  broken := S.broken
  members := S.members
  absent q _ hq := by
    by_cases hp : q = pid
    · rw [hp, S.gone]
    · exact (S.owners hp).trans hq
  spares q o hq ht _ := S.keeps L hin hq (S.own ht).1
  departs q hq hn := by
    by_cases hp : q = pid
    · subst hp
      exact ⟨by rw [hq]; rfl, s, L.placed hin S.task, rfl, D⟩
    · rw [S.owners hp, hq] at hn
      cases hn

/-- A thread is reaped, and then something is done to the others. -/
lemma Leaves.then (H : Handles s t) (H' : Handles t u) (hne : o ≠ pid) : Handles s u where
  next := H.next.trans H'.next
  broken := List.Subset.trans H.broken H'.broken
  members := H'.members.trans H.members
  absent q hq hn := H'.absent q (hq.trans_le H.next) (H.absent q hq hn)
  spares q o hq hu hb := by
    have hqp : q ≠ pid := by
      rintro rfl
      cases (H'.absent q ((L.given hq).trans_le H.next) S.gone).symm.trans hu
    have ht : t.ownerOf q = some o := (S.owners hqp).trans hq
    exact (H'.spares q o ht hu hb).trans (S.keeps L hin hq hqp)
  departs q hq hn := by
    have hqp : q ≠ pid := by
      rintro rfl
      exact hne (Option.some.inj (hin.symm.trans hq))
    obtain ⟨-, v, hplaced, hold, D⟩ := H'.departs q ((S.owners hqp).trans hq) hn
    rw [S.info q hqp] at hplaced D
    exact ⟨by rw [hq]; rfl, v, hplaced, hold.trans (S.keeps L hin hq hqp), D⟩

end

/-! ## Reaping -/

lemma Inv.leaves (I : Inv s) (S : Leaves pid s t) (hin : s.ownerOf pid = some o)
    (halone : ¬s.HasPeer pid) : Inv t :=
  { I.toLives.leaves S hin (I.enrolled hin) halone with
    enrolled := fun h => S.members ▸ I.enrolled (S.own h).2 }

lemma setInfo_info : (setInfo pid i s).info q = if q = pid then i else s.info q :=
  Function.update_apply ..

lemma setInfo_stays (L : Lives s) (hslot : i.rootSlot = (s.info pid).rootSlot)
    (hdefer : (s.info pid).deferredVmReap = true → i.deferredVmReap = true) :
    Stays s (setInfo pid i s) ∧ Spares s (setInfo pid i s) := by
  have hinfo : ∀ q, ((setInfo pid i s).info q).rootSlot = (s.info q).rootSlot := by
    intro q
    rw [setInfo_info]
    split
    · rw [‹q = pid›, hslot]
    · rfl
  have hold : ∀ q, (setInfo pid i s).holdings q = s.holdings q := by
    intro q
    rw [holdings, hinfo]
    rfl
  refine ⟨{ Stays.refl L with
    alpha := hinfo 0
    slots := fun q _ _ => hinfo q
    deferred := fun q _ _ h => ?_
    built := fun q _ _ _ => (built_congr (hold q)).mpr }, fun q _ _ _ _ => hold q⟩
  rw [setInfo_info]
  split
  · exact hdefer (‹q = pid› ▸ h)
  · exact h

/-- The checks of a reap pass, and it is not deferred. -/
def Reaps (s : Tasks) (callerPid pid : Nat) : Prop :=
  ∃ e, s.processes.findEntryByPid pid = some e ∧
    validateProcessObserver callerPid e.pid e.reaperPid = true ∧ e.exited = true ∧
    ¬(e.memoryOwner = pid ∧ s.processes.hasMemoryPeers pid = true) ∧
    (s.info pid).resourceQuarantined = false

/-- What is needed of the references when a task is reaped. -/
def ReapProper (s : Tasks) (callerPid pid : Nat) : Prop :=
  s.Reaps callerPid pid → Alpha.Reapable s.processes pid

/-- One level of a reap: it is deferred, or the task leaves the table, or it fails. -/
lemma reapTask_spec (I : Inv s) :
    wp (reapTask caller pid k)
      (fun next t => ((next = none ∧ t = deferVmReap pid s ∧ s.ownerOf pid = some pid ∧ s.HasPeer pid) ∨
        ∃ e, s.processes.findEntryByPid pid = some e ∧ Leaves pid s t ∧ ¬s.HasPeer pid ∧
          TornDown pid (s.info pid).rootSlot s t ∧ next = deferredOwner pid e t) ∧
        (s.ReapProper caller pid → s.Accounted → t.Accounted))
      (fun _ t => (Stays s t ∧ Spares s t) ∧ (s.ReapProper caller pid → s.Accounted → t.Accounted)) s := by
  have L := I.toLives
  have same : (Stays s s ∧ Spares s s) ∧ (s.ReapProper caller pid → s.Accounted → s.Accounted) :=
    ⟨⟨.refl L, fun _ _ _ _ _ => rfl⟩, fun _ => id⟩
  refine wp_guard same fun _ => wp_guard same fun h0 => ?_
  rw [wp_read]
  refine wp_lookup same fun e he => ?_
  have hin := ownerOf_of_find he
  refine wp_guard same fun hobs => wp_guard same fun hexit =>
    wp_ite (fun hdefer => ?_) fun hdefer => wp_guard same fun hquar => ?_
  · obtain ⟨hown, hpeers⟩ := Bool.and_eq_true_iff.mp hdefer
    have hown : s.ownerOf pid = some pid := (of_decide_eq_true hown) ▸ hin
    exact ⟨.inl ⟨rfl, rfl, hown, (L.hasMemoryPeers hown).mp hpeers⟩, fun _ => id⟩
  · rw [Bool.and_eq_true, decide_eq_true_eq] at hdefer
    have halone : ¬s.HasPeer pid := by
      rintro ⟨q, hq, hqo⟩
      have hown := L.housed hqo
      have heq : e.memoryOwner = pid := Option.some.inj (hin.symm.trans hown)
      exact hdefer ⟨heq, (L.hasMemoryPeers hown).mpr ⟨q, hq, hqo⟩⟩
    have hreaps : s.Reaps caller pid := by
      rw [Bool.or_eq_true, not_or] at hquar
      exact ⟨e, he, by simpa using hobs, by simpa using hexit, hdefer,
        Bool.eq_false_of_not_eq_true hquar.1⟩
    rw [wp_bind]
    refine wp_answer ?_ fun _ => same
    rw [wp_bind]
    refine wp_answer ?_ fun _ => same
    rw [wp_bind, breaking, wp_try]
    refine wp_mono tearDown_spec ?_ fun _ t T => ⟨T.stays L hin, fun hp A => ?_⟩
    · rintro _ t ⟨u, T, rfl, D⟩
      have F : Frame pid (s.info pid).rootSlot s (removeEntry pid u) :=
        T.frame.trans (frame_removeEntry (by rw [T.info]))
      refine ⟨.inr ⟨e, he, ⟨F, h0, D.gone⟩, halone, D, rfl⟩, fun hp A => ?_⟩
      exact (T.accounts L.formed A (hp hreaps)).1.removeEntry
    · exact (T.accounts L.formed A (hp hreaps)).1

/-- The owner whose reap follows is in the table and has no other task. -/
lemma deferredOwner_some {owner} (L : Lives s)
    (hown : ∀ o, s.ownerOf e.memoryOwner = some o → o = e.memoryOwner)
    (h : deferredOwner pid e s = some owner) :
    owner = e.memoryOwner ∧ owner ≠ pid ∧ s.ownerOf owner = some owner ∧ ¬s.HasPeer owner := by
  rw [deferredOwner] at h
  split at h
  · cases h
  · rename_i hne
    obtain ⟨x, hx, rfl⟩ := Option.map_eq_some_iff.mp h
    obtain ⟨hfind, hcond⟩ := Option.filter_eq_some_iff.mp hx
    have hkey : x.pid = e.memoryOwner := L.keyed _ (get?_eq_some.mp hfind)
    have hself : s.ownerOf x.pid = some x.pid := by
      rw [hkey, ownerOf_of_find hfind, hown _ (ownerOf_of_find hfind)]
    obtain ⟨-, hpeers⟩ := Bool.and_eq_true_iff.mp hcond
    refine ⟨hkey, hkey ▸ hne, hself, fun hp => ?_⟩
    rw [(L.hasMemoryPeers hself).mpr hp] at hpeers
    cases hpeers

/-- If no reap follows, an owner that waits has another task. -/
lemma deferredOwner_none (L : Lives s) (hne : e.memoryOwner ≠ pid)
    (hself : s.ownerOf e.memoryOwner = some e.memoryOwner) (hr : e.memoryOwner ∈ s.reaped)
    (h : deferredOwner pid e s = none) : s.HasPeer e.memoryOwner := by
  obtain ⟨x, hx, -⟩ := ownerOf_eq_some.mp hself
  have hkey : x.pid = e.memoryOwner := L.keyed _ (get?_eq_some.mp hx)
  rw [deferredOwner, if_neg hne, hx, Option.map_eq_none_iff, Option.filter_some, hkey] at h
  rw [← L.hasMemoryPeers hself]
  by_contra hpeers
  rw [(L.waits hr hself).2.1, Bool.eq_false_of_not_eq_true hpeers] at h
  cases h

/-- What is needed of the references when a task is reaped, and of those of its owner when that is
reaped with it. -/
def ReapsProper (s : Tasks) (callerPid pid : Nat) (k : TearDownAnswers) : Prop :=
  s.ReapProper callerPid pid ∧ ∀ owner u, reapTask callerPid pid k s = .ok (some owner) u →
    u.ReapProper callerPid owner

lemma handleProcessReapRequest_spec {k'} (I : Inv s) :
    wp (handleProcessReapRequest caller pid k k')
      (fun _ t => (Lives { t with reaped := pid :: t.reaped } ∧ Handles s t) ∧
        (s.ReapsProper caller pid k → s.Accounted → t.Accounted))
      (fun _ t => (Lives t ∧ Handles s t) ∧ (s.ReapsProper caller pid k → s.Accounted → t.Accounted)) s := by
  have L := I.toLives
  rw [handleProcessReapRequest, wp_bind]
  refine wp_of_run (fun next t hrun => ?_) fun e t hrun => ?_
  · obtain ⟨hcase, hacc⟩ := wp_ok (reapTask_spec I) hrun
    rcases hcase with ⟨rfl, rfl, hin, hpeer⟩ | ⟨e, he, S, halone, D, rfl⟩
    · -- the reap is deferred: the task stays and has a peer
      obtain ⟨S, hs⟩ : Stays s (deferVmReap pid s) ∧ Spares s (deferVmReap pid s) :=
        setInfo_stays L rfl fun _ => rfl
      have hpeer : (deferVmReap pid s).HasPeer pid := hpeer
      refine ⟨⟨(L.stays S).reap (L.given hin) (fun o ho => ?_) fun q hq _ _ => ?_, S.handles hs⟩,
        fun hp => hacc hp.1⟩
      · refine ⟨Option.some.inj (ho.symm.trans hin), ?_, hpeer⟩
        rw [deferVmReap, setInfo_info, if_pos rfl]
      · rwa [L.agrees hin hq]
    · have hin := ownerOf_of_find he
      have I' := I.leaves S hin halone
      have H := S.handles L hin D
      have hmember : ∀ q, (pid, q) ∈ t.members → q = e.memoryOwner := by
        intro q hq
        exact L.agrees hin (S.members ▸ hq)
      cases hnext : deferredOwner pid e t with
      | none =>
        refine ⟨⟨I'.reap ((L.given hin).trans_le S.next) (fun o ho => ?_) fun q hq hr hself => ?_, H⟩, fun hp => hacc hp.1⟩
        · cases S.gone.symm.trans ho
        · obtain rfl := hmember q hq
          exact deferredOwner_none I'.toLives (S.own hself).1 hself hr hnext
      | some owner =>
        have hhome : ∀ o, t.ownerOf e.memoryOwner = some o → o = e.memoryOwner := by
          intro o ho
          exact Option.some.inj ((S.own ho).2.symm.trans (L.housed hin))
        rw [hnext] at hrun
        have hnew := fun (hp : s.ReapsProper caller pid k) => hp.2 _ _ hrun
        obtain ⟨rfl, hne, hself, hlast⟩ := deferredOwner_some I'.toLives hhome hnext
        refine wp_then (reapTask_spec I') ?_ fun _ u hu => ⟨⟨I'.stays hu.1.1,
          S.then L hin H (hu.1.1.handles hu.1.2) hne⟩, fun hp A => hu.2 (hnew hp) (hacc hp.1 A)⟩
        rintro next u ⟨⟨-, -, -, hpeer⟩ | ⟨e', he', S', -, D', rfl⟩, hacc'⟩
        · exact absurd hpeer hlast
        · -- the owner has no owner but itself, so nothing follows
          have hown : e'.memoryOwner = e.memoryOwner := hhome _ (ownerOf_of_find he')
          rw [deferredOwner, if_pos hown]
          have I'' := I'.leaves S' hself hlast
          have hpast := ((L.given hin).trans_le S.next).trans_le S'.next
          refine ⟨⟨I''.reap hpast (fun o ho => ?_) fun q hq _ hself' => ?_,
            S.then L hin H (S'.handles I'.toLives hself D') hne⟩, fun hp A => hacc' (hnew hp) (hacc hp.1 A)⟩
          · cases (S'.own ho).2.symm.trans S.gone
          · obtain rfl := hmember q (S'.members ▸ hq)
            cases S'.gone.symm.trans hself'
  · obtain ⟨⟨S, hs⟩, hacc⟩ := wp_error (reapTask_spec I) hrun
    exact ⟨⟨L.stays S, S.handles hs⟩, fun hp => hacc hp.1⟩

end Tasks

end Nanami.Process

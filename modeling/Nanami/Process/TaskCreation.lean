import Nanami.Process.TaskTeardown

/-!
# Creation

A task in the making has a pid and a root slot of its own, and the memory that it is given is private
to it. A creation that fails is cleaned up: the task has left nothing, or it is still in the table
and its teardown has failed.
-/

namespace Nanami.Process
open Nanami.Lib Nanami.Memory List SortedMap ProcessManager

namespace Tasks

variable {s t u : Tasks} {pid q o slot owner reaper source caller : Nat} {k : TearDownAnswers}

/-! ## Cleaning up -/

/-- The entry of `pid`, if there is one, its references and the root slot are given up. -/
structure Cleaned (pid slot : Nat) (s t : Tasks) : Prop extends Frame pid slot s t where
  gone : t.kinOf pid = none
  accounts : s.processes.Formed → s.Accounted → Alpha.Reapable s.processes pid → t.Accounted

/-- The state after a clean-up: `a` has handed back the memory, and the entries are those of `m`. -/
def cleanedTo (pid slot : Nat) (a : Alpha) (m : SortedMap Nat ProcessEntry) (s : Tasks) : Tasks :=
  { s with
    alpha := { a with processes := { s.processes.dropPhysicalAllocationsForPid pid with entries := m } }
    usedRootSlots := s.usedRootSlots.erase slot }

lemma cleaned {a m} (hm : ∀ q, m.get? q = if q = pid then none else s.processes.entries.get? q)
    (hacc : s.processes.Formed → s.Accounted → Alpha.Reapable s.processes pid → Alpha.Inv s.alpha.roster
      { a with processes := s.processes.dropPhysicalAllocationsForPid pid } []) :
    Cleaned pid slot s (cleanedTo pid slot a m s) := by
  have hkin : ∀ q, (cleanedTo pid slot a m s).kinOf q = if q = pid then none else s.kinOf q := fun q =>
    kinOf_alter (d := none) (hm q)
  refine ⟨⟨fun hkeyed e he => ?_, fun q hq => (hkin q).trans (if_neg hq), le_rfl, fun _ _ => rfl,
    fun x hx hne => (mem_erase_of_ne hne).mpr hx, fun _ => id, rfl, rfl, List.Subset.refl _,
    fun q hq _ => ?_⟩, (hkin pid).trans (if_pos rfl), fun F A h => ?_⟩
  · have hget : m.get? e.1 = some e.2 := get?_eq_some.mpr he
    rw [hm] at hget
    split at hget
    · cases hget
    · exact hkeyed e (get?_eq_some.mp hget)
  · exact congrArg₂ (Holdings.mk _ _ _) (Alpha.forPid_removeEach hq _) (Alpha.forPid_removeEach hq _)
  · have I := hacc F A h
    exact ⟨I.funds, I.known.active, I.known.deferred, I.known.reserved⟩

lemma cleanUp_spec (h0 : pid ≠ 0)
    (hinfo : s.processes.findEntryByPid pid = none ∨ s.info pid = ⟨slot, false, false⟩) :
    wp (cleanUp pid slot k) (fun _ t => ∃ u, Touches pid slot s u ∧ Cleaned pid slot u t)
      (fun _ => Touches pid slot s) s := by
  rw [cleanUp, wp_update]
  have T1 : Touches pid slot s (if k.removed.isNone then s.removeRootNode slot else s) := by
    split
    · exact touches_removeRootNode
    · exact .refl
  generalize (if k.removed.isNone then s.removeRootNode slot else s) = s1 at T1 ⊢
  rw [wp_bind]
  refine wp_answer ?_ fun _ => T1
  rw [wp_bind]
  refine wp_answer ?_ fun _ => T1
  refine wp_then releasePageTables_spec ?_ fun _ _ => T1.trans
  rintro _ _ rfl
  have T2 : Touches pid slot s { s1 with
      pageTables := Function.update s1.pageTables slot []
      freePageTables := (s1.pageTables slot).reverse ++ s1.freePageTables } := T1.trans touches_tables
  refine wp_then resetProcessArena_spec ?_ (by rintro _ _ rfl; exact T2)
  intro _ s3 hv
  have T3 : Touches pid slot s s3 := by
    rcases hv with rfl | ⟨rfl, -⟩
    · exact T2.trans touches_emptyArena
    · exact T2
  clear hv T2
  rw [wp_bind, onAlpha, wp_zoom]
  refine wp_of_run (fun _ a ha => ?_) fun _ a ha => (wp_error Alpha.releaseFailed_handed ha).elim
  have hp := wp_ok Alpha.releaseFailed_handed ha
  have hp : a.processes = s3.processes.dropDeferredPhysicalAllocationsForPid pid := hp
  have hacc : s3.processes.Formed → s3.Accounted → Alpha.Reapable s3.processes pid →
      Alpha.Inv s3.alpha.roster
        { a with processes := s3.processes.dropPhysicalAllocationsForPid pid } [] := by
    intro F A h
    have I : Alpha.Inv s3.alpha.roster s3.alpha [] := ⟨A.1, F, A.2, rfl⟩
    have hok := wp_ok (Alpha.releaseFailed_spec I h) ha
    exact hok
  have hfind : a.processes.findEntryByPid pid = s.processes.findEntryByPid pid := by
    rw [hp, findEntryByPid, findEntryByPid, ← T3.entries]
    rfl
  -- whichever way the entry goes, the references go with it
  have hdrop : ∀ m, dropPhysicalAllocationsForPid pid { a.processes with entries := m } =
      { s3.processes.dropPhysicalAllocationsForPid pid with entries := m } := by
    intro m
    rw [hp, ← @drop_dropDeferred s3.processes pid]
    rfl
  refine wp_ite (fun hsome => ?_) fun hnone => ?_
  · have hsome : (a.processes.findEntryByPid pid).isSome = true := hsome
    obtain ⟨e, he⟩ := Option.isSome_iff_exists.mp hsome
    have hi : s3.info pid = ⟨slot, false, false⟩ := by
      rw [T3.info]
      exact hinfo.resolve_left (by rw [← hfind, he]; simp)
    have he' : ({ s3 with alpha := a } : Tasks).processes.findEntryByPid pid = some e := he
    rw [wp_try, onProcesses, wp_zoom, markExited, wp_read, he', okOr_some, wp_bind, wp_pure, wp_set, wp_try,
      reapProcess, if_neg h0, wp_read]
    generalize hx : (setProcesses { ({ s3 with alpha := a } : Tasks).processes with
      entries := ({ s3 with alpha := a } : Tasks).processes.entries.insert pid { e with exited := true } }
      { s3 with alpha := a }) = x
    have hxfind : x.processes.findEntryByPid pid = some { e with exited := true } := by
      rw [← hx]
      exact (get?_insert ..).trans (if_pos rfl)
    have hxinfo : x.info pid = ⟨slot, false, false⟩ := by rw [← hx]; exact hi
    rw [hxfind, okOr_some, wp_bind, wp_pure, hxinfo]
    refine ⟨s3, T3, ?_⟩
    have heq : removeEntry pid x = cleanedTo pid slot a
        ((a.processes.entries.insert pid { e with exited := true }).erase pid) s3 := by
      rw [removeEntry, hxinfo, ← hx, cleanedTo, ← hdrop]
      rfl
    rw [heq]
    refine cleaned (fun q => ?_) hacc
    rw [get?_erase, get?_insert, hp]
    split
    · rfl
    · rfl
  · have hnone : ¬(a.processes.findEntryByPid pid).isSome = true := hnone
    refine ⟨s3, T3, ?_⟩
    have heq : discardProcessArtifacts pid slot { s3 with alpha := a } =
        cleanedTo pid slot a a.processes.entries s3 := by
      rw [discardProcessArtifacts, cleanedTo, ← hdrop]
      rfl
    show Cleaned pid slot s3 (discardProcessArtifacts pid slot { s3 with alpha := a })
    rw [heq]
    refine cleaned (fun q => ?_) hacc
    by_cases hq : q = pid
    · rw [if_pos hq, hq]
      exact Option.not_isSome_iff_eq_none.mp hnone
    · rw [if_neg hq, hp]
      rfl

/-! ## A task in the making -/

/-- A task in the making: its pid and its root slot are taken, its memory is private, and it may be in
the table. -/
structure Making (pid slot : Nat) (s t : Tasks) : Prop extends Frame pid slot s t where
  fresh : pid = s.processes.nextPid
  past : t.processes.nextPid = pid + 1
  base : processRootSlotBase ≤ slot
  vacant : slot ∉ s.usedRootSlots
  taken : slot ∈ t.usedRootSlots
  accounts : s.Accounted → t.Accounted ∧ t.processes.Private pid
  entry : t.processes.findEntryByPid pid = none ∨
    t.info pid = ⟨slot, false, false⟩ ∧ t.Placed slot ∧ t.Built pid ∧
      ∃ owner reaper, t.kinOf pid = some (owner, reaper) ∧ reaper < owner ∧
        (owner = pid ∨ s.ownerOf owner = some owner)

/-- What a request about one task does to all of them and to the accounts. -/
structure Outcome (s t : Tasks) : Prop where
  lives : Lives t
  handles : Handles s t
  accounts : s.Accounted → t.Accounted

lemma Stays.outcome (S : Stays s t) (L : Lives s) (h : Spares s t) (hacc : s.Accounted → t.Accounted) :
    Outcome s t := ⟨L.stays S, S.handles h, hacc⟩

lemma Outcome.refl (L : Lives s) : Outcome s s := (Stays.refl L).outcome L (fun _ _ _ _ _ => rfl) id

lemma Enters.handles (S : Enters pid owner reaper slot s t) (L : Lives s) : Handles s t where
  next := S.next
  broken := S.broken
  members := S.members
  absent q hq hn := (S.old hq).2.trans hn
  spares q o hq _ _ := S.holdings q (S.old (L.given hq)).1 (L.vacant S.placed.2.1 S.vacant hq)
  departs q hq hn := by
    rw [(S.old (L.given hq)).2, hq] at hn
    cases hn

/-- What is done to a task that is not in the table, and to a slot that is not used, leaves all tasks
alone. -/
lemma Frame.stays (F : Frame pid slot s t) (L : Lives s) (hfresh : pid = s.processes.nextPid)
    (hbase : processRootSlotBase ≤ slot) (hvacant : slot ∉ s.usedRootSlots) (hgone : t.kinOf pid = none) :
    Stays s t ∧ Spares s t := by
  have hne : ∀ {q o}, s.ownerOf q = some o → q ≠ pid := fun h => hfresh ▸ (L.given h).ne
  have hold : ∀ {q o}, s.ownerOf q = some o → t.holdings q = s.holdings q := fun h =>
    F.holdings _ (hne h) (L.vacant hbase hvacant h)
  refine ⟨⟨F.keyed L.keyed, fun q => ?_, F.next, ?_, fun q o h => ?_, fun q o h => ?_, fun x hx => ?_,
    F.arenas, F.members, F.reaped, F.broken, fun q o h _ => (built_congr (hold h)).mpr⟩,
    fun q o h _ _ => hold h⟩
  · by_cases hq : q = pid
    · refine (hq ▸ hgone : t.kinOf q = none).trans (Eq.symm ?_)
      refine Option.map_eq_none_iff.mpr (Option.eq_none_iff_forall_ne_some.mpr fun e he => ?_)
      exact hne (ownerOf_of_find he) hq
    · exact F.kin q hq
  · rw [F.info 0 (hfresh ▸ L.alpha.1.ne)]
  · rw [F.info q (hne h)]
  · rw [F.info q (hne h)]
    exact id
  · refine F.used x hx ?_
    rintro rfl
    exact hvacant hx

section

variable (M : Making pid slot s t) (L : Lives s)
include M L

/-- A creation may stop here, also after a part of the task is torn down by a clean-up that fails. -/
lemma Making.stops {b} (T : Touches pid slot t u) (hb : pid ∉ b → u = t) :
    Lives { u with broken := b ++ u.broken } ∧ Handles s { u with broken := b ++ u.broken } := by
  have F : Frame pid slot s { u with broken := b ++ u.broken } :=
    { M.toFrame.trans T.frame with
      broken := List.Subset.trans (M.toFrame.trans T.frame).broken (subset_append_right _ _) }
  have hkin : u.kinOf pid = t.kinOf pid := kinOf_congr T.entries
  rcases M.entry with hnone | ⟨hpid, hplaced, hbuilt, owner, reaper, hown, hold, hhome⟩
  · obtain ⟨S, hs⟩ := F.stays L M.fresh M.base M.vacant (hkin.trans (by rw [kinOf, hnone]; rfl))
    exact ⟨L.stays S, S.handles hs⟩
  · have S : Enters pid owner reaper slot s { u with broken := b ++ u.broken } := by
      refine ⟨F, hkin.trans hown, hhome, hold, M.fresh, ?_, ?_, M.vacant,
        hplaced.mono (T.used ▸ id) (T.ready ▸ id), fun hn => ?_⟩
      · exact (T.next.trans M.past).symm ▸ Nat.lt_succ_self pid
      · rw [T.info, hpid]
      · rw [hb fun h => hn (mem_append_left _ h)]
        exact hbuilt
    exact ⟨L.enters S, S.handles L⟩

lemma Making.lives : Lives t := (M.stops L .refl (b := []) fun _ => rfl).1

lemma Making.outcome : Outcome s t :=
  ⟨M.lives L, (M.stops L .refl (b := []) fun _ => rfl).2, fun A => (M.accounts A).1⟩

lemma Making.cleaned {v} (T : Touches pid slot t u) (C : Cleaned pid slot u v) : Outcome s v := by
  obtain ⟨S, hs⟩ := ((M.toFrame.trans T.frame).trans C.toFrame).stays L M.fresh M.base M.vacant C.gone
  refine S.outcome L hs fun A => ?_
  obtain ⟨A', hreap⟩ := T.accounts (M.lives L).formed (M.accounts A).1
    (Alpha.Private.reapable (M.accounts A).2)
  exact C.accounts ((M.lives L).formed.congr T.entries T.next) A' hreap

lemma cleanupFailedSpawn_spec : sure (cleanupFailedSpawn pid slot k) (fun _ => Outcome s) t := by
  refine wp_ite (fun _ => M.outcome L) fun _ => ?_
  rw [wp_try, breaking, wp_try]
  refine wp_mono (cleanUp_spec ?_ (M.entry.imp_right And.left)) ?_ fun _ u T => ?_
  · rw [M.fresh]
    exact L.alpha.1.ne'
  · rintro _ v ⟨u, T, C⟩
    exact M.cleaned L T C
  · obtain ⟨hlives, hhandles⟩ := M.stops L T (b := [pid]) fun h => absurd (mem_singleton_self _) h
    refine ⟨hlives, hhandles, fun A => ?_⟩
    exact (T.accounts (M.lives L).formed (M.accounts A).1 (Alpha.Private.reapable (M.accounts A).2)).1

end

lemma orCleanUp_spec {m Q} (L : Lives s) (h : wp m (fun _ => Q) (fun _ => Making pid slot s) t) :
    wp (orCleanUp pid slot k m) (fun _ => Q) (fun _ => Outcome s) t := by
  rw [orCleanUp, wp_try]
  refine wp_mono h (fun _ _ hq => hq) fun _ u M => ?_
  exact wp_sure (cleanupFailedSpawn_spec M L) fun _ _ hv => hv

/-! ## Creation -/

lemma freeRootSlot_spec (h : s.freeRootSlot = some slot) :
    processRootSlotBase ≤ slot ∧ slot ∉ s.usedRootSlots := by
  unfold freeRootSlot at h
  have hmem : slot ∈ List.range' processRootSlotBase (s.rootSlotLimit - processRootSlotBase) :=
    mem_of_find?_eq_some h
  rw [mem_range'_1] at hmem
  have hcond := find?_some h
  rw [Bool.and_eq_true, Bool.not_eq_true', Bool.not_eq_true', contains_eq_mem, contains_eq_mem,
    decide_eq_false_iff_not, decide_eq_false_iff_not] at hcond
  exact ⟨hmem.1, hcond.2⟩

/-- A pid that was not given out has no references and no reservations. -/
lemma Known.unmentioned {p : ProcessManager} (K : p.Known) : Alpha.Unmentioned p p.nextPid := fun e he =>
  ((mem_append.mp he).elim (K.active e) (K.deferred e)).ne

lemma allocProcessSlot_spec (L : Lives s) :
    wp allocProcessSlot
      (fun place t => Making place.1 place.2 s t ∧ t.processes.findEntryByPid place.1 = none ∧
        t.alpha = { s.alpha with processes := { s.processes with nextPid := place.1 + 1 } })
      (fun _ => Outcome s) s := by
  refine wp_lookup (.refl L) fun slot hslot => ?_
  obtain ⟨hbase, hvacant⟩ := freeRootSlot_spec hslot
  rw [wp_update, wp_bind]
  refine wp_okOr (fun next hnext => ?_) fun _ => ?_
  · obtain ⟨rfl, -⟩ := checkedAdd_eq_some.mp hnext
    have hnone : s.processes.findEntryByPid s.processes.nextPid = none :=
      Option.eq_none_iff_forall_ne_some.mpr fun e he => (L.given (ownerOf_of_find he)).ne rfl
    refine ⟨⟨⟨id, fun _ _ => rfl, Nat.le_succ _, fun _ _ => rfl, fun _ hx _ => mem_cons_of_mem _ hx,
      fun _ => id, rfl, rfl, List.Subset.refl _, fun _ _ _ => rfl⟩, rfl, rfl, hbase, hvacant, mem_cons_self,
      fun A => ⟨⟨A.1, ?_⟩, fun a ha => ?_⟩, .inl hnone⟩, hnone, rfl⟩
    · exact ⟨fun e he => Nat.lt_succ_of_lt (A.2.active e he),
        fun e he => Nat.lt_succ_of_lt (A.2.deferred e he),
        fun e he => Nat.lt_succ_of_lt (A.2.reserved e he)⟩
    · exact absurd rfl (Known.unmentioned A.2 _ (mem_append_left _ (PhysicalAllocations.mem_forPid.mp ha)))
  · exact Stays.outcome { Stays.refl L with used := subset_cons_self _ _ } L (fun _ _ _ _ _ => rfl) id

lemma ensureProcessArena_spec {made} (M : Making pid slot s t)
    (hnone : t.processes.findEntryByPid pid = none) :
    wp (ensureProcessArena slot made)
      (fun _ u => Making pid slot s u ∧ u.Placed slot ∧ u.alpha = t.alpha) (fun _ u => u = t) t := by
  refine wp_guard rfl fun hslot => ?_
  refine wp_ite (fun hready => ⟨M, ⟨M.taken, M.base, not_le.mp hslot, hready⟩, rfl⟩) fun _ => ?_
  rw [wp_bind]
  refine wp_answer ?_ fun _ => rfl
  refine ⟨{ M with arenas := fun x hx => ?_, entry := .inl hnone },
    ⟨M.taken, M.base, not_le.mp hslot, Function.update_self ..⟩, rfl⟩
  show Function.update t.arenasReady slot true x = true
  rw [Function.update_apply]
  split
  · rfl
  · exact M.arenas x hx

/-- The slot of a task in the making has its arena and its root node. -/
structure Prepared (pid slot : Nat) (s t : Tasks) : Prop extends Making pid slot s t where
  placed : t.Placed slot
  node : t.rootNodes slot = true ∧ t.arenasUsed slot = true

lemma createObjects_spec {k} (M : Making pid slot s t) (hnone : t.processes.findEntryByPid pid = none) :
    wp (createObjects slot k) (fun _ u => Prepared pid slot s u ∧ u.alpha = t.alpha)
      (fun _ => Making pid slot s) t := by
  refine wp_then (ensureProcessArena_spec M hnone) ?_ (by rintro _ _ rfl; exact M)
  rintro _ u ⟨M', hplaced, halpha⟩
  rw [wp_bind]
  refine wp_answer ?_ fun _ => M'
  have hnone' : u.processes.findEntryByPid pid = none := by
    rw [processes, halpha]
    exact hnone
  have P : Prepared pid slot s (makeRootNode slot u) := by
    refine { M' with
      holdings := fun q hq hs => ?_
      entry := .inl hnone'
      placed := hplaced
      node := ⟨Function.update_self .., Function.update_self ..⟩ }
    have hslot : (u.info q).rootSlot ≠ slot := by rwa [M'.info q hq]
    rw [← M'.holdings q hq hs, Tasks.holdings, Tasks.holdings]
    have hn : (makeRootNode slot u).rootNodes (u.info q).rootSlot = u.rootNodes (u.info q).rootSlot :=
      Function.update_of_ne hslot ..
    have ha : (makeRootNode slot u).arenasUsed (u.info q).rootSlot = u.arenasUsed (u.info q).rootSlot :=
      Function.update_of_ne hslot ..
    exact congrArg₂ (fun n a => Holdings.mk n a _ _ _) hn ha
  rw [wp_update]
  exact wp_answer ⟨P, halpha⟩ fun _ => P.toMaking

/-- Memory is given to a task in the making. -/
lemma Prepared.onAlpha {m : EStateM Failure Alpha Unit} (P : Prepared pid slot s t) (L : Lives s)
    (hkeep : Alpha.KeepsOthers pid m) (hown : t.processes.memoryOwnerPid pid = pid)
    (hacc : s.Accounted → ends m (fun a => Alpha.Inv t.alpha.roster a [] ∧ a.processes.Private pid) t.alpha) :
    ends (Tasks.onAlpha m) (fun u => Prepared pid slot s u ∧ u.alpha.roster = t.alpha.roster) t := by
  have step : ∀ a, Alpha.Alone pid t.alpha a → (s.Accounted → Alpha.Inv t.alpha.roster a [] ∧
      a.processes.Private pid) → Prepared pid slot s { t with alpha := a } := by
    intro a A hA
    have hentries : a.processes.entries = t.processes.entries := (Prod.mk.inj A.tasks).1
    have hkin : ∀ q, ({ t with alpha := a } : Tasks).kinOf q = t.kinOf q := fun q => kinOf_congr hentries
    refine { P with
      keyed := fun h e he => P.keyed h e (hentries ▸ he)
      kin := fun q hq => (hkin q).trans (P.kin q hq)
      next := P.next.trans (Prod.mk.inj A.tasks).2.ge
      past := (Prod.mk.inj A.tasks).2.trans P.past
      holdings := fun q hq hs => ?_
      accounts := fun hs => ⟨⟨(hA hs).1.funds, (hA hs).1.known⟩, (hA hs).2⟩
      entry := P.entry.imp (fun h => ?_) fun h => ?_ }
    · rw [← P.holdings q hq hs]
      exact congrArg₂ (Holdings.mk _ _ _) (A.active q hq) (A.deferred q hq)
    · rw [← h]
      exact congrArg (fun m => SortedMap.get? m pid) hentries
    · rw [hkin]
      exact h
  rw [ends, Tasks.onAlpha, wp_zoom]
  have hown' : t.alpha.processes.memoryOwnerPid pid = pid := hown
  have hkept := hkeep t.alpha hown' (P.keyed L.keyed)
  refine wp_of_run (fun _ a ha => ?_) fun _ a ha => ?_
  · have A := wp_ok hkept ha
    refine ⟨step a A fun hs => ?_, A.tasks⟩
    have hok := wp_ok (hacc hs) ha
    exact hok
  · have A := wp_error hkept ha
    refine ⟨step a A fun hs => ?_, A.tasks⟩
    have herror := wp_error (hacc hs) ha
    exact herror

def withEntry (pid reaper owner slot : Nat) (t : Tasks) : Tasks :=
  (t.setProcesses { t.processes with
    entries := t.processes.entries.insert pid ⟨pid, reaper, owner, false⟩ }).setInfo pid ⟨slot, false, false⟩

lemma Prepared.withEntry (P : Prepared pid slot s t) (hold : reaper < owner)
    (hhome : owner = pid ∨ s.ownerOf owner = some owner) :
    Prepared pid slot s (t.withEntry pid reaper owner slot) := by
  have hkin : ∀ q, (t.withEntry pid reaper owner slot).kinOf q =
      if q = pid then some (owner, reaper) else t.kinOf q := fun q =>
    kinOf_alter (d := some ⟨pid, reaper, owner, false⟩) get?_insert
  have hpid : (t.withEntry pid reaper owner slot).info pid = ⟨slot, false, false⟩ := by
    rw [Tasks.withEntry, setInfo_info, if_pos rfl]
  refine { P with
    keyed := fun h e he => ?_
    kin := fun q hq => ?_
    info := fun q hq => ?_
    holdings := fun q hq hs => ?_
    accounts := fun A => ⟨⟨(P.accounts A).1.1, ?_⟩, (P.accounts A).2⟩
    entry := .inr ⟨hpid, P.placed, ?_, owner, reaper, ?_, hold, hhome⟩ }
  · rcases mem_insert.mp he with rfl | ⟨he, -⟩
    · rfl
    · exact P.keyed h e he
  · rw [hkin, if_neg hq]
    exact P.kin q hq
  · rw [Tasks.withEntry, setInfo_info, if_neg hq]
    exact P.info q hq
  · rw [← P.holdings q hq hs, Tasks.holdings, Tasks.withEntry, setInfo_info, if_neg hq]
    rfl
  · exact ⟨(P.accounts A).1.2.active, (P.accounts A).1.2.deferred, (P.accounts A).1.2.reserved⟩
  · rw [Built, hpid]
    exact P.node
  · rw [hkin, if_pos rfl]

variable {sharedVm : Bool}

lemma spawnProcessFromElf_spec {pages k} (L : Lives s) (hcaller : caller < s.processes.nextPid) :
    ends (spawnProcessFromElf caller pages k) (Outcome s) s := by
  refine wp_then (allocProcessSlot_spec L) ?_ fun _ _ => id
  rintro ⟨pid, slot⟩ t ⟨M, hnone, -⟩
  refine wp_seq (orCleanUp_spec L (createObjects_spec M hnone)) ?_
  rintro _ u ⟨P, halpha⟩
  rw [wp_bind]
  refine wp_answer ?_ fun _ => P.toMaking.outcome L
  have hnone' : u.processes.findEntryByPid pid = none := by
    rw [processes, halpha]
    exact hnone
  have hown : u.processes.memoryOwnerPid pid = pid := memoryOwnerPid_of_none hnone'
  refine wp_seq (orCleanUp_spec L (Q := Outcome s) ?_) fun _ _ => id
  refine wp_then (P.onAlpha L Alpha.materializeEach_keeps hown fun A => ?_) (fun _ v hv => ?_) fun _ _ hv =>
    hv.1.toMaking
  · have I := (P.toMaking.lives L).inv (P.accounts A).1
    refine ends_mono (Alpha.materializeEach_spec I ?_) fun a ha => ⟨ha.1, ha.2 (P.accounts A).2⟩
    have hnext := P.past
    rw [processes] at hown hnext
    rw [hown, hnext]
    exact Nat.lt_succ_self _
  · have P' : Prepared pid slot s (installProcess pid caller slot v) :=
      hv.1.withEntry (hcaller.trans_eq M.fresh.symm) (.inl rfl)
    rw [wp_update]
    exact wp_answer (P'.toMaking.outcome L) fun _ => P'.toMaking

lemma handleProcessSpawnRequest_spec {pages k} (L : Lives s) :
    ends (handleProcessSpawnRequest caller pages k) (Outcome s) s :=
  wp_guard (.refl L) fun h => spawnProcessFromElf_spec L (not_le.mp h)

lemma shareAddressSpace_spec (L : Lives s) (P : Prepared pid slot s t)
    (hsource : s.kinOf source = some (o, reaper)) (hold : reaper < o) :
    wp (onProcesses (shareAddressSpace pid source)) (fun _ => Making pid slot s)
      (fun _ _ => False) (installProcess pid reaper slot t) := by
  have hown : s.ownerOf source = some o := by rw [ownerOf_eq_map, hsource]; rfl
  have hne : source ≠ pid := P.fresh ▸ (L.given hown).ne
  have hfind : (installProcess pid reaper slot t).processes.findEntryByPid pid =
      some ⟨pid, reaper, pid, false⟩ := (get?_insert ..).trans (if_pos rfl)
  have howner : (installProcess pid reaper slot t).processes.memoryOwnerPid source = o := by
    obtain ⟨e, he, heo⟩ := ownerOf_eq_some.mp ((ownerOf_of_kinOf (P.kin source hne)).trans hown)
    have hkept : (installProcess pid reaper slot t).processes.findEntryByPid source = some e :=
      ((get?_insert ..).trans (if_neg hne)).trans he
    rw [memoryOwnerPid, hkept]
    exact heo
  rw [onProcesses, wp_zoom, shareAddressSpace, wp_read, hfind, okOr_some, wp_bind,
    wp_pure, wp_set, howner]
  have heq : setProcesses { (installProcess pid reaper slot t).processes with
      entries := (installProcess pid reaper slot t).processes.entries.insert pid ⟨pid, reaper, o, false⟩ }
      (installProcess pid reaper slot t) = t.withEntry pid reaper o slot :=
    congrArg (fun m => (t.setProcesses { t.processes with entries := m }).setInfo pid ⟨slot, false, false⟩)
      insert_insert
  rw [heq]
  exact (P.withEntry hold (.inr (L.housed hown))).toMaking

/-- The pages of the parent are copied to a fork, which has none yet. -/
lemma cloneProcessVm_spec {clones} (L : Lives s) (P : Prepared pid slot s t) (hold : reaper < pid)
    (halpha : t.alpha = { s.alpha with processes := { s.processes with nextPid := pid + 1 } }) :
    ends (onAlpha (Alpha.cloneProcessVm pid clones)) (Making pid slot s)
      (installProcess pid reaper slot t) := by
  have P' : Prepared pid slot s (installProcess pid reaper slot t) := P.withEntry hold (.inl rfl)
  have hfind : (installProcess pid reaper slot t).processes.findEntryByPid pid =
      some ⟨pid, reaper, pid, false⟩ := (get?_insert ..).trans (if_pos rfl)
  have hown := memoryOwnerPid_of_some hfind
  refine ends_mono (P'.onAlpha L Alpha.cloneProcessVm_keeps hown fun A => ?_) fun _ hu => hu.1.toMaking
  refine Alpha.cloneProcessVm_spec ((P'.toMaking.lives L).inv (P'.accounts A).1)
    ⟨hown, ?_, ?_, (P'.accounts A).2⟩
  · show ∀ e ∈ t.alpha.processes.deferredPhysicalAllocations.entries, e.1 ≠ pid
    rw [halpha, P.fresh]
    exact fun e he => (A.2.deferred e he).ne
  · show ∀ e ∈ t.alpha.processes.sharedMemory.entries, (ofLex e.1).1 ≠ pid
    rw [halpha, P.fresh]
    exact fun e he => (A.2.reserved e he).ne

lemma createRawTask_spec {clones k} (L : Lives s) (M : Making pid slot s t)
    (hnone : t.processes.findEntryByPid pid = none)
    (halpha : t.alpha = { s.alpha with processes := { s.processes with nextPid := pid + 1 } })
    (hsource : s.kinOf source = some (o, caller)) (hold : caller < o) :
    ends (createRawTask pid slot source caller sharedVm clones k) (Making pid slot s) t := by
  refine wp_then (createObjects_spec M hnone) ?_ fun _ _ => id
  rintro _ u ⟨P, hu⟩
  refine wp_lookup P.toMaking fun _ _ => ?_
  have attach : ∀ v, Making pid slot s v → ends (answer k.attached) (Making pid slot s) v :=
    fun v hv => wp_answer hv fun _ => hv
  have hyoung : caller < pid := by
    have hown : s.ownerOf source = some o := by rw [ownerOf_eq_map, hsource]; rfl
    rw [P.fresh]
    exact hold.trans_le ((L.reapers hsource).2.trans (L.given hown).le)
  refine wp_ite (fun _ => ?_) fun _ => ?_
  · exact wp_sure (shareAddressSpace_spec L P hsource hold) (fun _ => attach)
  · exact wp_seq (cloneProcessVm_spec L P hyoung (hu.trans halpha)) fun _ => attach

/-- The reaper of the source makes the task; it is older than the owner of the memory. -/
lemma handleRawTaskCreate_spec {clones accepted k} (L : Lives s) :
    ends (handleRawTaskCreate caller source sharedVm clones accepted k) (Outcome s) s := by
  refine wp_lookup (.refl L) fun e he => ?_
  refine wp_lookup (.refl L) fun c hc => ?_
  rw [wp_bind]
  refine wp_answer ?_ fun _ => .refl L
  refine wp_then (allocProcessSlot_spec L) ?_ fun _ _ => id
  rintro ⟨pid, slot⟩ t ⟨M, hnone, halpha⟩
  obtain ⟨hfind, hcond⟩ := Option.filter_eq_some_iff.mp he
  obtain ⟨hfind', hcond'⟩ := Option.filter_eq_some_iff.mp hc
  have hkey : e.pid = source := L.keyed _ (get?_eq_some.mp hfind)
  have hkey' : c.pid = caller := L.keyed _ (get?_eq_some.mp hfind')
  rw [Bool.and_eq_true, beq_iff_eq] at hcond
  rw [Bool.and_eq_true, bne_iff_ne, hkey'] at hcond'
  have hkin : s.kinOf source = some (e.memoryOwner, caller) := by
    rw [kinOf, hfind, Option.map_some, hcond.2]
  have hold : caller < e.memoryOwner := (L.reapers hkin).1.resolve_left hcond'.2
  rw [hkey, hkey', wp_bind]
  have hrun : ends (createRawTask pid slot source caller sharedVm clones k) (Making pid slot s) t :=
    createRawTask_spec L M hnone halpha hkin hold
  exact orCleanUp_spec L (wp_post hrun fun _ u hu => hu.outcome L)

end Tasks

end Nanami.Process

import Nanami.Ext2.Writeback

/-!
# The block cache as an array of blocks

Seen from outside, reads, writes and flushes act on a plain array of blocks. `Represents s a` ties a
runtime to the array it stands for: what is cached are the array's blocks, and what is not dirty is the
same on the device. Every call keeps it, whether it succeeds or not, with the array changed by accepted
writes only.
-/

namespace Nanami.Ext2

open Lib List BlockCache

variable {β : Type} {s t u : BlockRuntime β} {a : Nat → β} {issued : List (Command β)}

def FlushFailed (s : BlockRuntime β) : Prop := ∃ c ∈ s.device.log, c.Failed

structure Represents (s : BlockRuntime β) (a : Nat → β) : Prop where
  valid : s.blockCache.Valid
  held : HeldAre s.blockCache a
  backed : ∀ b, s.blockCache.dirtyAs b = none → s.device.blocks b = a b
  positive : 0 < s.blockSize
  capacity : s.blockShmSize / s.blockSize ≤ s.blockCache.capacity
  failure : s.blockCache.error ≠ none ↔ FlushFailed s

/-- What every call keeps, whatever its result. -/
structure Serves (s t : BlockRuntime β) (a : Nat → β) (issued : List (Command β)) : Prop extends
    Issues s t issued where
  retained : ∀ b, s.blockCache.dirtyAs b ≠ none →
    t.blockCache.dirtyAs b ≠ none ∨ WroteBack issued b (a b)

lemma WroteBack.ne_nil {b v} (h : WroteBack issued b v) : issued ≠ [] := by
  obtain ⟨before, after, rfl, -⟩ := h
  exact append_ne_nil_of_right_ne_nil _ (cons_ne_nil _ _)

lemma Serves.stores (h : Serves s t a issued) (h' : Serves t u a []) : Serves s u a issued where
  toIssues := append_nil issued ▸ h.toIssues.trans h'.toIssues
  retained b hb := by
    rcases h.retained b hb with hb | hb
    · exact .inl ((h'.retained b hb).resolve_right fun hback => hback.ne_nil rfl)
    · exact .inr hb

variable {block count first : Nat}

lemma Serves.validRun (h : Serves s t a issued) (hr : ValidRun s block count) :
    ValidRun t block count := by
  rwa [ValidRun, h.blockCount, h.blockSize, h.blockShmSize]

/-! ## Flushes -/

/-- A flush, failed or not, in terms of the array. -/
structure Flushed (s t : BlockRuntime β) (a : Nat → β) (issued : List (Command β)) : Prop extends
    Serves s t a issued where
  represents : Represents t a
  ordered : DataFirst s.blockCache a issued
  blockShm : t.blockShm = s.blockShm

lemma DataFirst.nil {c} : DataFirst c a [] :=
  ⟨[], [], rfl, nofun, nofun, fun h => absurd rfl h⟩

lemma Flushed.refl (h : Represents s a) : Flushed s s a [] :=
  ⟨⟨.none, fun _ hb => .inl hb⟩, h, .nil, rfl⟩

lemma checkCacheWritable_spec :
    wp checkCacheWritable (fun _ t => s = t ∧ s.blockCache.error = none)
      (fun e t => s = t ∧ s.blockCache.error ≠ none ∧ ∃ error, e = .request error) s := by
  rw [checkCacheWritable, wp_read]
  cases herror : s.blockCache.error with
  | some e => exact ⟨rfl, nofun, e, rfl⟩
  | none => exact ⟨rfl, rfl⟩

lemma FlushFailed.append (h : FlushFailed s) (hlog : t.device.log = s.device.log ++ issued) :
    FlushFailed t := by
  obtain ⟨c, hc, hfailed⟩ := h
  exact ⟨c, hlog ▸ mem_append_left _ hc, hfailed⟩

lemma Flushed.success (h : Represents s a) (herror : s.blockCache.error = none)
    (hflush : Flushes s t a issued)
    (hcache : t.blockCache = { s.blockCache with scratchBackup := s.blockShm })
    (hdone : ∀ c ∈ issued, ¬c.Failed)
    (hwritten : ∀ b, s.blockCache.dirtyAs b ≠ none → t.device.blocks b = a b ∧ WroteBack issued b (a b))
    :
    t.device.blocks = a ∧
      Flushed s { t with blockShm := s.blockShm, blockCache := t.blockCache.clean } a issued := by
  have hblocks : t.device.blocks = a := by
    funext b
    by_cases hb : s.blockCache.dirtyAs b = none
    · exact (hflush.blocks b hb).trans (h.backed b hb)
    · exact (hwritten b hb).1
  have hnofail : ¬FlushFailed s := fun hf => h.failure.mpr hf herror
  refine ⟨hblocks, ⟨⟨hflush.log, hflush.blockSize, hflush.blockShmSize, hflush.blockCount⟩,
    fun b hb => .inr (hwritten b hb).2⟩, ⟨?_, ?_, fun b _ => congrFun hblocks b, ?_, ?_, ?_⟩,
    hflush.ordered, rfl⟩
  · rw [hcache]
    exact clean_valid ⟨h.valid.indexed, h.valid.hand, h.valid.named, h.valid.count⟩
  · intro b kind v hb
    rw [hcache, clean_find] at hb
    obtain ⟨⟨kind', v'⟩, hfind, heq⟩ := Option.map_eq_some_iff.mp hb
    cases heq
    exact h.held b kind' _ hfind
  · rw [hflush.blockSize]
    exact h.positive
  · rw [hflush.blockSize, hflush.blockShmSize, hcache]
    exact h.capacity
  · rw [hcache]
    refine ⟨fun hne => absurd herror hne, fun ⟨c, hc, hfailed⟩ => ?_⟩
    rw [hflush.log] at hc
    rcases mem_append.mp hc with hc | hc
    · exact absurd ⟨c, hc, hfailed⟩ hnofail
    · exact absurd hfailed (hdone c hc)

lemma Flushed.failure (error : RequestError) (h : Represents s a) (hflush : Flushes s t a issued)
    (hcache : t.blockCache = { s.blockCache with scratchBackup := s.blockShm })
    (hfailed : ∃ c ∈ issued, c.Failed) :
    Flushed s { t with
      blockShm := s.blockShm, blockCache := { t.blockCache with error := some error } } a issued := by
  refine ⟨⟨⟨hflush.log, hflush.blockSize, hflush.blockShmSize, hflush.blockCount⟩, fun b hb => .inl ?_⟩,
    ⟨?_, ?_, fun b hb => ?_, ?_, ?_, fun _ => ?_, nofun⟩, hflush.ordered, rfl⟩
  · rw [hcache]
    exact hb
  · rw [hcache]
    exact ⟨h.valid.indexed, h.valid.hand, h.valid.named, h.valid.count⟩
  · rw [hcache]
    exact h.held
  · rw [hcache] at hb
    exact (hflush.blocks b hb).trans (h.backed b hb)
  · rw [hflush.blockSize]
    exact h.positive
  · rw [hflush.blockSize, hflush.blockShmSize, hcache]
    exact h.capacity
  · obtain ⟨c, hc, hfailed⟩ := hfailed
    exact ⟨c, by rw [hflush.log]; exact mem_append_right _ hc, hfailed⟩

/-- After a successful flush nothing is dirty and the device holds the array; after a failed one the
cache holds what it held, and the failure is on record. -/
lemma flushBlocks_spec (h : Represents s a) :
    wp flushBlocks
      (fun _ t => s.blockCache.error = none ∧ t.device.blocks = a ∧ t.blockCache.dirtyCount = 0 ∧
        ∃ issued, Flushed s t a issued)
      (fun e t => (∃ error, e = .request error) ∧ FlushFailed t ∧ ∃ issued, Flushed s t a issued) s := by
  refine wp_then checkCacheWritable_spec ?_ ?_
  · rintro _ _ ⟨rfl, herror⟩
    refine wp_ite (fun _ => ?_) (fun hclean => ?_)
    · simp only [writeBack, wp_bind, wp_modify, wp_attempt]
      refine wp_mono (flushDirty_spec (a := a) h.held) ?_ ?_
      · rintro _ t ⟨issued, hflush, hcache, hdone, hwritten⟩
        have hboth := Flushed.success h herror ⟨⟨hflush.log, hflush.blockSize, hflush.blockShmSize,
          hflush.blockCount⟩, hflush.ordered, hflush.blocks⟩ hcache hdone hwritten
        simp only [settle, hcache] at hboth ⊢
        exact ⟨herror, hboth.1, rfl, issued, hboth.2⟩
      · rintro e t ⟨issued, hflush, hcache, ⟨error, rfl⟩, hfailed⟩
        have hfail := Flushed.failure error h ⟨⟨hflush.log, hflush.blockSize, hflush.blockShmSize,
          hflush.blockCount⟩, hflush.ordered, hflush.blocks⟩ hcache hfailed
        simp only [settle, hcache] at hfail ⊢
        exact ⟨⟨error, rfl⟩, hfail.represents.failure.mp (by rintro ⟨⟩), issued, hfail⟩
    · have hzero : s.blockCache.dirtyCount = 0 := by simpa [isDirty] using hclean
      exact ⟨herror, funext fun b => h.backed b (h.valid.all_clean hzero b), hzero, [], .refl h⟩
  · rintro e _ ⟨rfl, herror, herr⟩
    exact ⟨herr, h.failure.mp herror, [], .refl h⟩

/-! ## Reads -/

namespace Command

def IsRead (c : Command β) : Prop := ∃ block count done, c = .read block count done

def ReadFailed (c : Command β) : Prop := ∃ block count, c = .read block count false

lemma IsRead.not_failed {c : Command β} (h : c.IsRead) : ¬c.Failed := by
  obtain ⟨block, count, done, rfl⟩ := h
  exact id

end Command

/-- The device was read into some frames; nothing else changed. -/
structure Reads (s t : BlockRuntime β) (first count : Nat) (issued : List (Command β)) : Prop extends
    Issues s t issued where
  reads : ∀ c ∈ issued, c.IsRead
  blocks : t.device.blocks = s.device.blocks
  outside : ∀ i, ¬(first ≤ i ∧ i < first + count) → t.blockShm i = s.blockShm i
  blockCache : t.blockCache = s.blockCache

lemma Reads.trans {issued'} (h : Reads s t first count issued)
    (h' : Reads t u first count issued') : Reads s u first count (issued ++ issued') where
  toIssues := h.toIssues.trans h'.toIssues
  reads c hc := (mem_append.mp hc).elim (h.reads c) (h'.reads c)
  blocks := h'.blocks.trans h.blocks
  outside i hi := (h'.outside i hi).trans (h.outside i hi)
  blockCache := h'.blockCache.trans h.blockCache

def Filled (t : BlockRuntime β) (block first count : Nat) : Prop :=
  ∀ i, first ≤ i → i < first + count → t.blockShm i = t.device.blocks (block + (i - first))

/-- What a read of a run of the device ends in: all its blocks are there, or a command failed. -/
def ReadEnds (s : BlockRuntime β) (block count first : Nat) (full : Prop) (t : BlockRuntime β) : Prop :=
  ∃ issued, Reads s t first count issued ∧
    (full → Filled t block first count) ∧ (¬full → ∃ c ∈ issued, c.ReadFailed)

lemma ReadEnds.congr {full full'} (h : ReadEnds s block count first full t) (hiff : full ↔ full') :
    ReadEnds s block count first full' t := by
  obtain ⟨issued, hreads, hfilled, hfailed⟩ := h
  exact ⟨issued, hreads, fun hfull => hfilled (hiff.mpr hfull), fun hnot => hfailed (mt hiff.mp hnot)⟩

lemma blockDeviceRead_spec (block count first : Nat) :
    wp (blockDeviceRead block count first)
      (fun read => ReadEnds s block count first (read = count * s.blockSize))
      (fun e t => (∃ error, e = .request error) ∧ ReadEnds s block count first False t) s := by
  have hends : ∀ done, ReadEnds s block count first (done = true) { s with
      blockShm := fun i => if first ≤ i ∧ i < first + count then
          if done then s.device.blocks (block + (i - first)) else s.device.reply.remains i
        else s.blockShm i
      device := s.device.record (.read block count done) } := by
    intro done
    refine ⟨[.read block count done], ⟨⟨rfl, rfl, rfl, rfl⟩, fun c hc => ?_, rfl, fun i hi => if_neg hi,
      rfl⟩, fun hfull i hle hlt => ?_, fun hnot => ?_⟩
    · obtain rfl := mem_singleton.mp hc
      exact ⟨block, count, done, rfl⟩
    · subst hfull
      exact (if_pos ⟨hle, hlt⟩).trans (if_pos rfl)
    · rw [Bool.not_eq_true] at hnot
      subst hnot
      exact ⟨_, mem_singleton_self _, block, count, rfl⟩
  have hmoved := s.device.reply.moved_iff (count * s.blockSize)
  simp only [blockDeviceRead, wp_bind, wp_get]
  cases hresult : s.device.reply.result with
  | ok n =>
    rw [hresult, Except.ok.injEq] at hmoved
    simp only [fromReply, hresult]
    exact (hends _).congr hmoved
  | error e =>
    simp only [hresult, reduceCtorEq] at hmoved
    simp only [fromReply, hresult]
    exact ⟨⟨e, rfl⟩, (hends _).congr hmoved⟩

lemma ReadEnds.after {full} (h : Reads s t first count issued)
    (h' : ReadEnds t block count first full u) : ReadEnds s block count first full u := by
  obtain ⟨issued', hreads, hfilled, hfailed⟩ := h'
  refine ⟨issued ++ issued', h.trans hreads, hfilled, fun hnot => ?_⟩
  obtain ⟨c, hc, hread⟩ := hfailed hnot
  exact ⟨c, mem_append_right _ hc, hread⟩

lemma readAttempts_spec (block count first left : Nat) :
    wp (readAttempts block count first left)
      (fun read => ReadEnds s block count first (read = count * s.blockSize))
      (fun e t => (∃ error, e = .request error) ∧ ReadEnds s block count first False t) s := by
  induction left generalizing s with
  | zero => exact blockDeviceRead_spec block count first
  | succ left ih =>
    rw [readAttempts, wp_try]
    refine wp_mono (blockDeviceRead_spec block count first) (fun read t hends => hends) ?_
    rintro e t ⟨herror, hends⟩
    refine wp_ite (fun _ => ?_) (fun _ => ⟨herror, hends⟩)
    obtain ⟨issued, hreads, -, -⟩ := hends
    refine wp_mono ih (fun read u hread => ?_) (fun e u ⟨herr, hread⟩ => ⟨herr, hread.after hreads⟩)
    rw [hreads.blockSize] at hread
    exact hread.after hreads

lemma readBlocksUncached_spec (block count first : Nat) :
    wp (readBlocksUncached block count first)
      (fun _ t => ∃ issued, Reads s t first count issued ∧ Filled t block first count)
      (fun e t => (∃ error, e = .request error) ∧ ∃ issued, Reads s t first count issued ∧
        ∃ c ∈ issued, c.ReadFailed) s := by
  rw [readBlocksUncached, wp_read]
  refine wp_then (readAttempts_spec block count first _) ?_ ?_
  · rintro read t ⟨issued, hreads, hfilled, hfailed⟩
    refine wp_ite (fun hfull => ⟨issued, hreads, hfilled hfull⟩) (fun hshort => ?_)
    exact ⟨⟨_, rfl⟩, issued, hreads, hfailed hshort⟩
  · rintro e t ⟨herror, issued, hreads, -, hfailed⟩
    exact ⟨herror, issued, hreads, hfailed id⟩

/-- A read in progress: only the buffer and clean blocks of the cache have changed. -/
structure Reading (s t : BlockRuntime β) (a : Nat → β) (issued : List (Command β)) : Prop extends
    Issues s t issued where
  fetched : s.blockCache.Fetched t.blockCache a
  reads : ∀ c ∈ issued, c.IsRead
  blocks : t.device.blocks = s.device.blocks

namespace Reading

lemma refl (h : Represents s a) : Reading s s a [] :=
  ⟨.none, (BlockCache.SameHeld.refl _).fetched h.valid h.held, nofun, rfl⟩

lemma trans {issued'} (h : Reading s t a issued) (h' : Reading t u a issued') :
    Reading s u a (issued ++ issued') where
  fetched := h.fetched.trans h'.fetched
  toIssues := h.toIssues.trans h'.toIssues
  reads c hc := (mem_append.mp hc).elim (h.reads c) (h'.reads c)
  blocks := h'.blocks.trans h.blocks

lemma serves (h : Reading s t a issued) : Serves s t a issued :=
  ⟨h.toIssues, fun b hb => .inl (by rwa [h.fetched.dirtyAs])⟩

lemma represents (hr : Reading s t a issued) (h : Represents s a) : Represents t a where
  valid := hr.fetched.valid
  held := hr.fetched.held
  backed b hb := by
    rw [hr.fetched.dirtyAs] at hb
    rw [hr.blocks]
    exact h.backed b hb
  positive := by
    rw [hr.blockSize]
    exact h.positive
  capacity := by
    rw [hr.blockSize, hr.blockShmSize, hr.fetched.capacity]
    exact h.capacity
  failure := by
    rw [hr.fetched.error, h.failure]
    refine ⟨fun hf => hf.append hr.log, fun ⟨c, hc, hfailed⟩ => ?_⟩
    rw [hr.log] at hc
    rcases mem_append.mp hc with hc | hc
    · exact ⟨c, hc, hfailed⟩
    · exact absurd hfailed (hr.reads c hc).not_failed

lemma of_reads (h : Represents s a) (hr : Reads s t first count issued) : Reading s t a issued := by
  refine ⟨hr.toIssues, ?_, hr.reads, hr.blocks⟩
  rw [hr.blockCache]
  exact (BlockCache.SameHeld.refl _).fetched h.valid h.held

end Reading

def Delivered (t : BlockRuntime β) (a : Nat → β) (block count : Nat) : Prop :=
  ∀ i < count, t.blockShm i = a (block + i)

lemma uncachedEnd_spec (c : BlockCache β) (block left offset : Nat) :
    ∀ i, offset ≤ i → i < uncachedEnd c block left offset → c.find (block + i) = none := by
  induction left generalizing offset with
  | zero => exact fun i hle hlt => absurd hlt (Nat.not_lt.mpr hle)
  | succ left ih =>
    rw [uncachedEnd]
    split
    · exact fun i hle hlt => absurd hlt (Nat.not_lt.mpr hle)
    · rename_i hnot
      intro i hle hlt
      by_cases heq : i = offset
      · rw [contains_iff, not_not] at hnot
        rw [heq, hnot]
      · exact ih (offset + 1) i (by omega) hlt

def ReadFails (s : BlockRuntime β) (a : Nat → β) (e : Stop) (t : BlockRuntime β) : Prop :=
  (∃ error, e = .request error) ∧ ∃ issued, Reading s t a issued ∧ ∃ c ∈ issued, c.ReadFailed

lemma ReadFails.after {e} (h : Reading s t a issued) (h' : ReadFails t a e u) :
    ReadFails s a e u := by
  obtain ⟨herror, issued', hreading, c, hc, hfailed⟩ := h'
  exact ⟨herror, _, h.trans hreading, c, mem_append_right _ hc, hfailed⟩

/-- The uncached blocks are on the device as in the array, since no dirty block is uncached. -/
lemma fetchRun_spec (h : Represents s a) (hfirst : s.blockCache.find (block + first) = none)
    (hdone : Delivered s a block first) :
    wp (fetchRun block count first)
      (fun next t => ∃ offset, next = some offset ∧ (∃ issued, Reading s t a issued) ∧
        Delivered t a block offset)
      (ReadFails s a) s := by
  have hle : first + 1 ≤ uncachedEnd s.blockCache block (count - (first + 1)) (first + 1) :=
    le_uncachedEnd
  have hnone := uncachedEnd_spec s.blockCache block (count - (first + 1)) (first + 1)
  rw [fetchRun, wp_read]
  generalize uncachedEnd s.blockCache block (count - (first + 1)) (first + 1) = offset at hle hnone ⊢
  have huncached : ∀ i, first ≤ i → i < offset → s.device.blocks (block + i) = a (block + i) := by
    intro i hge hlt
    refine h.backed _ ?_
    have hfind : s.blockCache.find (block + i) = none := by
      by_cases heq : i = first
      · rw [heq, hfirst]
      · exact hnone i (by omega) hlt
    rw [dirtyAs, hfind, Option.bind_none]
  refine wp_then (readBlocksUncached_spec _ _ _) ?_ ?_
  · rintro _ t ⟨issued, hreads, hfilled⟩
    have hreading := Reading.of_reads h hreads
    have hdelivered : ∀ i < offset, t.blockShm i = a (block + i) := by
      intro i hlt
      by_cases hge : first ≤ i
      · rw [hfilled i hge (by omega), hreads.blocks, Nat.add_assoc, Nat.add_sub_cancel' hge]
        exact huncached i hge hlt
      · rw [hreads.outside i (by omega)]
        exact hdone i (by omega)
    have ht := hreading.represents h
    obtain ⟨c', hstore, hfetched⟩ := storeRun_clean block t.blockShm
      (List.range' first (offset - first)) ht.valid ht.held fun i hi => hdelivered i (by
        rw [mem_range'_1] at hi
        omega)
    simp only [wp_bind, storeFrames, wp_get, hstore]
    refine ⟨offset, rfl, ⟨issued, ?_⟩, hdelivered⟩
    exact ⟨⟨hreading.log, hreading.blockSize, hreading.blockShmSize, hreading.blockCount⟩,
      hreading.fetched.trans hfetched, hreading.reads, hreading.blocks⟩
  · rintro e t ⟨herror, issued, hreads, hfailed⟩
    exact ⟨herror, issued, .of_reads h hreads, hfailed⟩

/-- One round delivers one cached block, or a run of uncached ones. -/
lemma readRound_spec {offset} (h : Represents s a) (hdone : Delivered s a block offset) :
    wp (readRound block count offset)
      (afterRound (fun offset t => s = t ∧ count ≤ offset)
        (fun offset t => (∃ issued, Reading s t a issued) ∧ Delivered t a block offset) offset)
      (ReadFails s a) s := by
  refine wp_ite (fun _ => ?_) (fun hend => ⟨rfl, Nat.not_lt.mp hend⟩)
  cases hload : s.blockCache.load (block + offset) with
  | some held =>
    obtain ⟨hsame, hvalid, kind, hfind⟩ := load_spec h.valid hload
    refine ⟨⟨[], .none, hsame.fetched hvalid h.held, nofun, rfl⟩,
      fun i hi => ?_⟩
    by_cases heq : i = offset
    · subst heq
      exact (Function.update_self _ _ _).trans (h.held _ _ _ hfind)
    · exact (Function.update_of_ne heq _ _).trans (hdone i (by omega))
  | none =>
    refine wp_post (fetchRun_spec h (load_eq_none.mp hload) hdone) ?_
    rintro _ t ⟨next, rfl, hreading, hdelivered⟩
    exact ⟨hreading, hdelivered⟩

/-- A read delivers the array's blocks, and fails on an invalid run or a failing device only. -/
lemma readBlocks_spec (h : Represents s a) :
    wp (readBlocks block count)
      (fun _ t => (∃ issued, Reading s t a issued) ∧ Delivered t a block count)
      (fun e t => ¬ValidRun s block count ∧ e = .request .invalidArgument ∧ s = t ∨ ReadFails s a e t)
      s := by
  rw [readBlocks, wp_bind, validateRun]
  refine wp_ite (fun _ => ?_) (fun hinvalid => .inl ⟨hinvalid, rfl, rfl⟩)
  rw [wp_pure, wp_bind]
  refine wp_loop_invariant (I := fun offset t => (∃ issued, Reading s t a issued) ∧
    Delivered t a block offset) ?_ ⟨⟨[], .refl h⟩, nofun⟩
  rintro offset t ⟨⟨issued, hreading⟩, hdelivered⟩
  refine wp_mono (readRound_spec (hreading.represents h) hdelivered) ?_ (fun e u he => ?_)
  · intro next u hround
    cases next with
    | none =>
      obtain ⟨rfl, hend⟩ := hround
      exact ⟨⟨issued, hreading⟩, fun i hi => hdelivered i (hi.trans_le hend)⟩
    | some offset' =>
      obtain ⟨⟨issued', hreading'⟩, hdelivered'⟩ := hround
      exact ⟨⟨_, hreading.trans hreading'⟩, hdelivered'⟩
  · exact .inr (he.after hreading)

/-! ## Writes -/

def overwrite (a : Nat → β) (block count : Nat) (frames : Nat → β) (b : Nat) : β :=
  if block ≤ b ∧ b < block + count then frames (b - block) else a b

lemma storeFrames_spec {kind} (h : Represents s a)
    (hroom : s.blockCache.additional block count + s.blockCache.dirtyCount ≤ s.blockCache.capacity) :
    sure (storeFrames block (some kind) (List.range count))
      (fun _ t => Represents t (overwrite a block count s.blockShm) ∧ Serves s t a []) s := by
  obtain ⟨c', hstore, hrun⟩ := storeRun_dirty block s.blockShm kind 0 count h.valid hroom
  rw [← range_eq_range'] at hstore
  simp only [storeFrames, wp_bind, wp_get, hstore]
  have hin : ∀ b, block ≤ b ∧ b < block + count →
      c'.find b = some (some kind, s.blockShm (b - block)) := by
    rintro b ⟨hle, hlt⟩
    have hb := hrun.inside (b - block) (Nat.zero_le _) (by omega)
    rwa [Nat.add_sub_cancel' hle] at hb
  have hout : ∀ b, ¬(block ≤ b ∧ b < block + count) →
      c'.find b = s.blockCache.find b ∨ c'.find b = none ∧ s.blockCache.dirtyAs b = none := by
    intro b hnot
    exact hrun.outside b fun i _ hi heq => hnot (by omega)
  refine ⟨⟨hrun.valid, fun b k v hb => ?_, fun b hb => ?_, h.positive, ?_, ?_⟩,
    .none, fun b hb => .inl ?_⟩
  · by_cases hrange : block ≤ b ∧ b < block + count
    · rw [hin b hrange] at hb
      cases hb
      exact (if_pos hrange).symm
    · rw [overwrite, if_neg hrange]
      rcases hout b hrange with hsame | ⟨hnone, -⟩
      · exact h.held b k v (hsame ▸ hb)
      · cases hnone.symm.trans hb
  · by_cases hrange : block ≤ b ∧ b < block + count
    · cases (dirtyAs_of_find (hin b hrange)).symm.trans hb
    · rw [overwrite, if_neg hrange]
      rcases hout b hrange with hsame | ⟨-, hclean⟩
      · rw [dirtyAs, hsame] at hb
        exact h.backed b hb
      · exact h.backed b hclean
  · rw [hrun.capacity]
    exact h.capacity
  · rw [hrun.error]
    exact h.failure
  · by_cases hrange : block ≤ b ∧ b < block + count
    · rw [dirtyAs_of_find (hin b hrange)]
      rintro ⟨⟩
    · rcases hout b hrange with hsame | ⟨-, hclean⟩
      · rw [dirtyAs, hsame]
        exact hb
      · exact absurd hclean hb

lemma room_of_clean (h : Represents s a) (hvalid : ValidRun s block count)
    (hclean : s.blockCache.dirtyCount = 0) :
    s.blockCache.additional block count + s.blockCache.dirtyCount ≤ s.blockCache.capacity := by
  have hcount : count ≤ s.blockShmSize / s.blockSize :=
    (Nat.le_div_iff_mul_le h.positive).mpr hvalid.2.2
  rw [hclean, Nat.add_zero]
  exact (s.blockCache.additional_le block count).trans (hcount.trans h.capacity)

lemma room_of_hasRoomFor (h : Represents s a) (hroom : s.blockCache.hasRoomFor block count = true) :
    s.blockCache.additional block count + s.blockCache.dirtyCount ≤ s.blockCache.capacity := by
  have hle : s.blockCache.additional block count ≤ s.blockCache.capacity - s.blockCache.dirtyCount := by
    simpa [hasRoomFor] using hroom
  have hcount := h.valid.count_le
  omega

def Refused (s : BlockRuntime β) (a : Nat → β) (block count : Nat) (e : Stop) (t : BlockRuntime β) : Prop :=
  (∃ error, e = .request error) ∧ (ValidRun s block count → FlushFailed t) ∧
    (FlushFailed s → s = t) ∧ ∃ issued, Flushed s t a issued

/-- An accepted write changes the array; a refused one does not, and a valid run is refused after a
failed flush only. -/
lemma cacheWrite_spec {kind} (h : Represents s a) :
    wp (cacheWrite block count kind)
      (fun _ t => ¬FlushFailed s ∧ Represents t (overwrite a block count s.blockShm) ∧
        ∃ issued, Serves s t a issued ∧ DataFirst s.blockCache a issued)
      (Refused s a block count) s := by
  rw [cacheWrite, wp_bind, validateRun]
  refine wp_ite (fun hvalid => ?_) (fun hinvalid => ?_)
  · refine wp_then checkCacheWritable_spec ?_ ?_
    · rintro _ _ ⟨rfl, herror⟩
      have hnofail : ¬FlushFailed s := fun hf => h.failure.mpr hf herror
      rw [wp_read, wp_bind]
      refine wp_ite (fun hroom => ?_) (fun _ => ?_)
      · rw [wp_pure]
        refine wp_mono (storeFrames_spec h (room_of_hasRoomFor h hroom)) ?_ (fun _ _ he => he.elim)
        rintro _ t ⟨hrep, hserves⟩
        exact ⟨hnofail, hrep, [], hserves, .nil⟩
      · refine wp_mono (flushBlocks_spec h) ?_ ?_
        · rintro _ t ⟨-, -, hclean, issued, hflushed⟩
          have hroom := room_of_clean hflushed.represents (hflushed.validRun hvalid) hclean
          refine wp_mono (storeFrames_spec hflushed.represents hroom) ?_ (fun _ _ he => he.elim)
          rintro _ u ⟨hrep, hserves⟩
          rw [hflushed.blockShm] at hrep
          exact ⟨hnofail, hrep, issued, hflushed.toServes.stores hserves, hflushed.ordered⟩
        · rintro e t ⟨herr, hfailed, hflushed⟩
          exact ⟨herr, fun _ => hfailed, fun hf => absurd hf hnofail, hflushed⟩
    · rintro e _ ⟨rfl, herror, herr⟩
      exact ⟨herr, fun _ => h.failure.mp herror, fun _ => rfl, [], .refl h⟩
  · exact ⟨⟨_, rfl⟩, fun hvalid => absurd hvalid hinvalid, fun _ => rfl, [], .refl h⟩

/-! ## Runs of calls -/

/-- The calls on the block layer; between them the caller stages blocks in the buffer. -/
inductive Call (β : Type) where
  | stage (frames : Nat → β)
  | readBlocks (block count : Nat)
  | writeBlock (block : Nat)
  | writeBlocks (block count : Nat)
  | flushBlocks

namespace Call

def run : Call β → BlockM β Unit
  | .stage frames => modify fun s => { s with blockShm := frames }
  | .readBlocks block count => Ext2.readBlocks block count
  | .writeBlock block => Ext2.writeBlock block
  | .writeBlocks block count => Ext2.writeBlocks block count
  | .flushBlocks => Ext2.flushBlocks

/-- What a call that succeeds does to the array: a write replaces its run by the staged blocks. -/
def applied (s : BlockRuntime β) (a : Nat → β) : Call β → Nat → β
  | .writeBlock block => overwrite a block 1 s.blockShm
  | .writeBlocks block count => overwrite a block count s.blockShm
  | _ => a

def step (state : BlockRuntime β × (Nat → β)) (call : Call β) : BlockRuntime β × (Nat → β) :=
  match call.run state.1 with
  | .ok _ t => (t, call.applied state.1 state.2)
  | .error _ t => (t, state.2)

end Call

def runCalls (s : BlockRuntime β) (calls : List (Call β)) : BlockRuntime β × (Nat → β) :=
  calls.foldl Call.step (s, s.device.blocks)

def ext2BlockCacheBudget : Nat := 1024 * 1024

/-- The runtime as the server sets it up, with the geometry it checks. -/
structure Mounted (s : BlockRuntime β) : Prop where
  blockSize : s.blockSize ≠ 0
  buffer : s.blockSize ≤ s.blockShmSize
  budget : s.blockShmSize ≤ ext2BlockCacheBudget
  blockCache : ∃ zero, s.blockCache = .new zero s.blockSize ext2BlockCacheBudget
  log : s.device.log = []

lemma Mounted.represents (h : Mounted s) : Represents s s.device.blocks := by
  obtain ⟨zero, hcache⟩ := h.blockCache
  have hpos : 0 < s.blockSize := Nat.pos_of_ne_zero h.blockSize
  have hfind : ∀ b, s.blockCache.find b = none := by
    intro b
    rw [hcache]
    rfl
  refine ⟨?_, fun b kind v hb => ?_, fun _ _ => rfl, hpos, ?_, ?_⟩
  · rw [hcache]
    exact new_valid (Nat.div_pos (h.buffer.trans h.budget) hpos)
  · exact nomatch (hfind b).symm.trans hb
  · rw [hcache]
    exact Nat.div_le_div_right h.budget
  · rw [hcache]
    refine ⟨fun hne => absurd rfl hne, fun ⟨c, hc, _⟩ => ?_⟩
    rw [h.log] at hc
    exact nomatch hc

def Orderly (c : BlockCache β) (a : Nat → β) (issued : List (Command β)) : Prop :=
  (∀ cmd ∈ issued, cmd.IsRead) ∨ DataFirst c a issued

lemma Call.run_spec (h : Represents s a) (call : Call β) :
    wp call.run
      (fun _ t => Represents t (call.applied s a) ∧
        ∃ issued, Serves s t a issued ∧ Orderly s.blockCache a issued)
      (fun e t => e ≠ .panic ∧ Represents t a ∧
        ∃ issued, Serves s t a issued ∧ Orderly s.blockCache a issued) s := by
  have hwrite : ∀ block count kind, wp (cacheWrite block count kind)
      (fun _ t => Represents t (overwrite a block count s.blockShm) ∧
        ∃ issued, Serves s t a issued ∧ Orderly s.blockCache a issued)
      (fun e t => e ≠ .panic ∧ Represents t a ∧
        ∃ issued, Serves s t a issued ∧ Orderly s.blockCache a issued) s := by
    intro block count kind
    refine wp_mono (cacheWrite_spec h) ?_ ?_
    · rintro _ t ⟨-, hrep, issued, hserves, hordered⟩
      exact ⟨hrep, issued, hserves, .inr hordered⟩
    · rintro _ t ⟨⟨error, rfl⟩, -, -, issued, hflushed⟩
      exact ⟨nofun, hflushed.represents, issued, hflushed.toServes, .inr hflushed.ordered⟩
  cases call with
  | stage frames =>
    refine ⟨⟨h.valid, h.held, h.backed, h.positive, h.capacity, h.failure⟩, [], ?_, .inl nofun⟩
    exact ⟨.none, fun _ hb => .inl hb⟩
  | readBlocks block count =>
    refine wp_mono (readBlocks_spec h) ?_ ?_
    · rintro _ t ⟨⟨issued, hreading⟩, -⟩
      exact ⟨hreading.represents h, issued, hreading.serves, .inl hreading.reads⟩
    · rintro _ t (⟨-, rfl, rfl⟩ | ⟨⟨error, rfl⟩, issued, hreading, -⟩)
      · exact ⟨nofun, h, [], (Flushed.refl h).toServes, .inl nofun⟩
      · exact ⟨nofun, hreading.represents h, issued, hreading.serves, .inl hreading.reads⟩
  | writeBlock block => exact hwrite block 1 .metadata
  | writeBlocks block count => exact hwrite block count .data
  | flushBlocks =>
    refine wp_mono (flushBlocks_spec h) ?_ ?_
    · rintro _ t ⟨-, -, -, issued, hflushed⟩
      exact ⟨hflushed.represents, issued, hflushed.toServes, .inr hflushed.ordered⟩
    · rintro _ t ⟨⟨error, rfl⟩, -, issued, hflushed⟩
      exact ⟨nofun, hflushed.represents, issued, hflushed.toServes, .inr hflushed.ordered⟩

lemma Call.step_represents {state} (call : Call β) (h : Represents state.1 state.2) :
    Represents (call.step state).1 (call.step state).2 := by
  have hspec := run_spec h call
  rw [step]
  cases hrun : call.run state.1 with
  | ok _ t => exact (wp_ok hspec hrun).1
  | error e t => exact (wp_error hspec hrun).2.1

lemma runCalls_represents (h : Mounted s) (calls : List (Call β)) :
    Represents (runCalls s calls).1 (runCalls s calls).2 :=
  List.foldlRecOn (motive := fun state => Represents state.1 state.2) calls Call.step h.represents
    fun _ hstate call _ => call.step_represents hstate

/-- What a caller may rely on in a state that stands for an array, whatever it calls next. -/
structure RefinesArray (s : BlockRuntime β) (a : Nat → β) : Prop where
  /-- A read leaves the array's blocks in the buffer. -/
  reads : ∀ block count t, readBlocks block count s = .ok () t →
    ∀ i < count, t.blockShm i = a (block + i)
  /-- A read of a valid run fails only if the device fails one of its commands. -/
  readable : ∀ block count e t, ValidRun s block count → readBlocks block count s = .error e t →
    ∃ issued, t.device.log = s.device.log ++ issued ∧ ∃ c ∈ issued, c.ReadFailed
  /-- A write of a valid run is refused only if a flush has failed. -/
  writable : ∀ block count kind e t, ValidRun s block count →
    cacheWrite block count kind s = .error e t → FlushFailed t
  /-- A dirty block stays dirty in the cache until it is written and flushed. -/
  retained : ∀ (call : Call β) b, s.blockCache.dirtyAs b ≠ none →
    (stateAfter call.run s).blockCache.dirtyAs b ≠ none ∨
      ∃ issued, (stateAfter call.run s).device.log = s.device.log ++ issued ∧ WroteBack issued b (a b)
  /-- After a successful flush the device holds the array. -/
  flushed : ∀ t, flushBlocks s = .ok () t → t.device.blocks = a
  /-- A flush writes and flushes its data before it writes any metadata. -/
  ordered : ∀ call : Call β, ∃ issued,
    (stateAfter call.run s).device.log = s.device.log ++ issued ∧ Orderly s.blockCache a issued
  /-- A flush that does not succeed has failed for good. -/
  fails : ∀ e t, flushBlocks s = .error e t → FlushFailed t
  /-- After a failed flush every write is refused and changes nothing. -/
  refuses : FlushFailed s → ∀ block count kind, ∃ e, cacheWrite block count kind s = .error e s
  /-- No assertion fails. -/
  total : ∀ (call : Call β) t, call.run s ≠ .error .panic t

/-- In every state reached by any calls, on any device, the block layer acts as the array that results
from the accepted writes. -/
theorem block_cache_refines_array (h : Mounted s) (calls : List (Call β)) :
    RefinesArray (runCalls s calls).1 (runCalls s calls).2 := by
  have hrep := runCalls_represents h calls
  generalize (runCalls s calls).1 = t at hrep ⊢
  generalize (runCalls s calls).2 = a at hrep ⊢
  have hafter : ∀ call : Call β, ∃ issued, Serves t (stateAfter call.run t) a issued ∧
      Orderly t.blockCache a issued := fun call =>
    stateAfter_of_wp (wp_mono (call.run_spec hrep) (fun _ _ h => h.2) (fun _ _ h => h.2.2))
  constructor
  · intro block count u hrun
    exact (wp_ok (readBlocks_spec hrep) hrun).2
  · intro block count e u hvalid hrun
    rcases wp_error (readBlocks_spec hrep) hrun with ⟨hinvalid, -⟩ | ⟨-, issued, hreading, hfailed⟩
    · exact absurd hvalid hinvalid
    · exact ⟨issued, hreading.log, hfailed⟩
  · intro block count kind e u hvalid hrun
    exact (wp_error (cacheWrite_spec hrep) hrun).2.1 hvalid
  · intro call b hb
    obtain ⟨issued, hserves, -⟩ := hafter call
    exact (hserves.retained b hb).imp_right fun hback => ⟨issued, hserves.log, hback⟩
  · intro u hrun
    exact (wp_ok (flushBlocks_spec hrep) hrun).2.1
  · intro call
    obtain ⟨issued, hserves, horderly⟩ := hafter call
    exact ⟨issued, hserves.log, horderly⟩
  · intro e u hrun
    exact (wp_error (flushBlocks_spec hrep) hrun).2.1
  · intro hfailed block count kind
    cases hrun : cacheWrite block count kind t with
    | ok _ u => exact absurd hfailed (wp_ok (cacheWrite_spec hrep) hrun).1
    | error e u =>
      obtain ⟨-, -, hsame, -⟩ := wp_error (cacheWrite_spec hrep) hrun
      exact ⟨e, by rw [hsame hfailed]⟩
  · intro call u hrun
    exact (wp_error (call.run_spec hrep) hrun).1 rfl

def sampleVolume : BlockRuntime Nat where
  blockShm := fun _ => 0
  blockShmSize := 65536
  blockSize := 1024
  blockCount := 64
  blockCache := .new 0 1024 ext2BlockCacheBudget
  device := ⟨fun b => b, fun _ => ⟨.ok 1024, fun _ => 0⟩, []⟩

/-- Two blocks are written and flushed. -/
theorem block_cache_refines_array_sample : Mounted sampleVolume ∧
    RefinesArray (runCalls sampleVolume [.stage fun i => 100 + i, .writeBlocks 3 2, .flushBlocks]).1
      (runCalls sampleVolume [.stage fun i => 100 + i, .writeBlocks 3 2, .flushBlocks]).2 := by
  have hmounted : Mounted sampleVolume := ⟨by decide, by decide, by decide, ⟨0, rfl⟩, rfl⟩
  exact ⟨hmounted, block_cache_refines_array hmounted _⟩

/-- A set of the blocks that are dirty; the count of the cache is its size. -/
lemma BlockCache.Valid.dirtyBlocks {c : BlockCache β} (h : c.Valid) :
    ∃ dirty : Finset Nat, (∀ b, b ∈ dirty ↔ c.dirtyAs b ≠ none) ∧ dirty.card = c.dirtyCount := by
  have hslot : ∀ slot ∈ c.dirtySlots, c.index.get? ((c.entries slot).block.getD 0) = some slot := by
    intro slot hmem
    rw [dirtySlots, Finset.mem_filter, Finset.mem_range] at hmem
    obtain ⟨b, hb⟩ := Option.isSome_iff_exists.mp (h.named slot hmem.1 hmem.2)
    rw [hb]
    exact (h.indexed b slot).mpr ⟨hmem.1, hb⟩
  refine ⟨c.dirtySlots.image fun slot => (c.entries slot).block.getD 0, fun b => ?_, ?_⟩
  · rw [Finset.mem_image, dirtyAs_eq]
    constructor
    · rintro ⟨slot, hmem, rfl⟩
      rw [hslot slot hmem]
      exact Option.isSome_iff_ne_none.mp (Finset.mem_filter.mp hmem).2
    · intro hb
      cases hget : c.index.get? b with
      | none => simp [hget] at hb
      | some slot =>
        obtain ⟨hlt, hblock⟩ := (h.indexed b slot).mp hget
        rw [hget] at hb
        refine ⟨slot, Finset.mem_filter.mpr ⟨Finset.mem_range.mpr hlt, ?_⟩, by rw [hblock]; rfl⟩
        exact Option.isSome_iff_ne_none.mpr hb
  · rw [h.count]
    refine Finset.card_image_of_injOn fun slot hm slot' hm' heq => Option.some.inj ?_
    rw [← hslot slot hm, ← hslot slot' hm', heq]

/-- What a crash loses: the dirty blocks, of which the cache keeps count and never holds more than it has
room for. -/
structure CrashLoses (s : BlockRuntime β) (a : Nat → β) (lost : Finset Nat) : Prop where
  dirty : ∀ b, b ∈ lost ↔ s.blockCache.dirtyAs b ≠ none
  device : ∀ b ∉ lost, s.device.blocks b = a b
  count : lost.card = s.blockCache.dirtyCount
  bound : lost.card ≤ s.blockCache.capacity

/-- After any calls on a mounted volume, what a crash loses is what the cache has as dirty; every other
block of the device has the contents that reads return. -/
theorem crash_loses_dirty (h : Mounted s) (calls : List (Call β)) :
    ∃ lost, CrashLoses (runCalls s calls).1 (runCalls s calls).2 lost := by
  have hrep := runCalls_represents h calls
  obtain ⟨lost, hdirty, hcard⟩ := hrep.valid.dirtyBlocks
  refine ⟨lost, hdirty, fun b hb => hrep.backed b ?_, hcard, hcard.trans_le hrep.valid.count_le⟩
  exact not_not.mp (mt (hdirty b).mpr hb)

/-- Two blocks written and not flushed. -/
theorem crash_loses_dirty_two : ∃ lost,
    CrashLoses (runCalls sampleVolume [.stage fun i => 100 + i, .writeBlocks 3 2]).1
      (runCalls sampleVolume [.stage fun i => 100 + i, .writeBlocks 3 2]).2 lost :=
  crash_loses_dirty ⟨by decide, by decide, by decide, ⟨0, rfl⟩, rfl⟩ _

end Nanami.Ext2

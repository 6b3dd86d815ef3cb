import Nanami.Ext2.BlockIo

/-!
# What a flush writes

A pass over the index writes the blocks that are dirty as one kind, in runs, and then has the device
flush. `Pass` says what a pass may do at all, also when it fails half way; `Written` adds what it has done
when it succeeds. The order of the two passes of `flush_dirty` is read off the commands they issue.
-/

namespace Nanami.Ext2

open Lib List

variable {β : Type} {K : Nat → Prop} {a : Nat → β} {s t u : BlockRuntime β}
  {issued issued' : List (Command β)}

namespace Command

def done : Command β → Bool
  | .read _ _ done => done
  | .write _ _ done => done
  | .flush done => done

def Within (K : Nat → Prop) : Command β → Prop
  | .read _ _ _ => False
  | .write block payload _ => ∀ i < payload.length, K (block + i)
  | .flush _ => True

def Puts (block : Nat) (v : β) : Command β → Prop
  | .write first payload done => done = true ∧ first ≤ block ∧ payload[block - first]? = some v
  | _ => False

def Failed : Command β → Prop
  | .read _ _ _ => False
  | .write _ _ done => done = false
  | .flush done => done = false

lemma Within.failed {c : Command β} (h : c.Within K) (hdone : c.done = false) : c.Failed := by
  cases c with
  | read => exact h
  | write => exact hdone
  | flush => exact hdone

lemma not_failed {c : Command β} (hdone : c.done = true) : ¬c.Failed := by
  cases c with
  | read => exact id
  | write => exact fun h => nomatch hdone.symm.trans h
  | flush => exact fun h => nomatch hdone.symm.trans h

end Command

/-- Commands were issued to the device, and the volume and its buffer have the same size still. -/
structure Issues (s t : BlockRuntime β) (issued : List (Command β)) : Prop where
  log : t.device.log = s.device.log ++ issued
  blockSize : t.blockSize = s.blockSize
  blockShmSize : t.blockShmSize = s.blockShmSize
  blockCount : t.blockCount = s.blockCount

lemma Issues.none {frames} {cache : BlockCache β} :
    Issues s { s with blockShm := frames, blockCache := cache } [] :=
  ⟨(append_nil _).symm, rfl, rfl, rfl⟩

lemma Issues.trans (h : Issues s t issued) (h' : Issues t u issued') : Issues s u (issued ++ issued') where
  log := by rw [h'.log, h.log, append_assoc]
  blockSize := h'.blockSize.trans h.blockSize
  blockShmSize := h'.blockShmSize.trans h.blockShmSize
  blockCount := h'.blockCount.trans h.blockCount

/-- What a pass may do: it changes the buffer, and blocks of `K` on the device. -/
structure Pass (K : Nat → Prop) (s t : BlockRuntime β) (issued : List (Command β)) : Prop extends
    Issues s t issued where
  within : ∀ c ∈ issued, c.Within K
  blocks : ∀ b, ¬K b → t.device.blocks b = s.device.blocks b
  blockCache : t.blockCache = s.blockCache

lemma Pass.trans (h : Pass K s t issued) (h' : Pass K t u issued') :
    Pass K s u (issued ++ issued') where
  toIssues := h.toIssues.trans h'.toIssues
  within c hc := (mem_append.mp hc).elim (h.within c) (h'.within c)
  blocks b hb := (h'.blocks b hb).trans (h.blocks b hb)
  blockCache := h'.blockCache.trans h.blockCache

/-- A part of a pass in which every command was carried out: what it wrote are the contents `a`. -/
structure Written (K : Nat → Prop) (a : Nat → β) (s t : BlockRuntime β) (issued : List (Command β)) :
    Prop extends Pass K s t issued where
  done : ∀ c ∈ issued, c.done = true
  values : ∀ b, t.device.blocks b = s.device.blocks b ∨ t.device.blocks b = a b
  stored : ∀ c ∈ issued, ∀ b, c.Puts b (a b) → t.device.blocks b = a b

lemma Written.shm (frames : Nat → β) : Written K a s { s with blockShm := frames } [] :=
  ⟨⟨.none, nofun, fun _ _ => rfl, rfl⟩, nofun, fun _ => .inl rfl, nofun⟩

lemma Written.trans (h : Written K a s t issued) (h' : Written K a t u issued') :
    Written K a s u (issued ++ issued') where
  toPass := h.toPass.trans h'.toPass
  done c hc := (mem_append.mp hc).elim (h.done c) (h'.done c)
  values b := by
    rcases h'.values b with hb | hb
    · rw [hb]
      exact h.values b
    · exact .inr hb
  stored c hc b hput := by
    rcases mem_append.mp hc with hc | hc
    · rcases h'.values b with hb | hb
      · exact hb.trans (h.stored c hc b hput)
      · exact hb
    · exact h'.stored c hc b hput

lemma Written.buffer (h : Written K a s t issued) (frames : Nat → β) :
    Written K a s { t with blockShm := frames } issued := by
  have hboth := h.trans (.shm frames)
  rwa [append_nil] at hboth

/-- A pass that failed: some command was not carried out. -/
structure Broken (K : Nat → Prop) (s t : BlockRuntime β) (issued : List (Command β)) : Prop extends
    Pass K s t issued where
  failed : ∃ c ∈ issued, c.done = false

lemma Broken.after (h : Written K a s t issued) (h' : Broken K t u issued') :
    Broken K s u (issued ++ issued') where
  toPass := h.toPass.trans h'.toPass
  failed := by
    obtain ⟨c, hc, hfailed⟩ := h'.failed
    exact ⟨c, mem_append_right _ hc, hfailed⟩

def BreaksWith (K : Nat → Prop) (s : BlockRuntime β) (e : Stop) (t : BlockRuntime β) : Prop :=
  (∃ error, e = .request error) ∧ ∃ issued, Broken K s t issued

lemma BreaksWith.after {e} (h : Written K a s t issued) (h' : BreaksWith K t e u) :
    BreaksWith K s e u := by
  obtain ⟨herror, issued', hbroken⟩ := h'
  exact ⟨herror, issued ++ issued', .after h hbroken⟩

/-! ## One run -/

/-- The buffer holds a run of blocks of `K`, from its start on. -/
def Gathered (K : Nat → Prop) (a : Nat → β) (s : BlockRuntime β) (first count : Nat) : Prop :=
  ∀ i < count, s.blockShm i = a (first + i) ∧ K (first + i)

lemma Reply.moved_iff (reply : Reply β) (bytes : Nat) :
    reply.moved bytes = true ↔ reply.result = .ok bytes := by
  rw [Reply.moved]
  cases reply.result <;> simp

variable {block count first maxBlocks : Nat}

lemma Gathered.pass (h : Gathered K a s block count) (done : Bool) :
    Pass K s { s with device := s.device.write block count s.blockShm done }
      [.write block ((List.range count).map s.blockShm) done] := by
  refine ⟨⟨rfl, rfl, rfl, rfl⟩, ?_, ?_, rfl⟩
  · intro c hc
    obtain rfl := mem_singleton.mp hc
    intro i hi
    rw [length_map, length_range] at hi
    exact (h i hi).2
  · intro b hb
    refine if_neg fun hin => hb ?_
    have hK := (h (b - block) (by omega)).2
    rwa [Nat.add_sub_cancel' hin.1] at hK

lemma Gathered.written (h : Gathered K a s block count) :
    Written K a s { s with device := s.device.write block count s.blockShm true }
      [.write block ((List.range count).map s.blockShm) true] := by
  have hvalue : ∀ b, block ≤ b ∧ b < block + count →
      (s.device.write block count s.blockShm true).blocks b = a b := by
    intro b hin
    have hb := (h (b - block) (by omega)).1
    simpa [Device.write, hin] using hb
  refine ⟨h.pass true, ?_, ?_, ?_⟩
  · intro c hc
    obtain rfl := mem_singleton.mp hc
    rfl
  · intro b
    by_cases hin : block ≤ b ∧ b < block + count
    · exact .inr (hvalue b hin)
    · exact .inl (if_neg hin)
  · intro c hc b hput
    obtain rfl := mem_singleton.mp hc
    obtain ⟨-, hle, hfound⟩ := hput
    obtain ⟨hlt, -⟩ := List.getElem?_eq_some_iff.mp hfound
    rw [length_map, length_range] at hlt
    exact hvalue b (by omega)

lemma writeRun_spec (h : Gathered K a s block count) :
    wp (writeRun block count)
      (fun _ t => ∃ c, Written K a s t [c] ∧ ∀ i < count, c.Puts (block + i) (a (block + i)))
      (BreaksWith K s) s := by
  simp only [writeRun, blockDeviceWrite, wp_bind, wp_get]
  by_cases hmoved : s.device.reply.moved (count * s.blockSize) = true
  · rw [hmoved]
    rw [Reply.moved_iff] at hmoved
    simp only [fromReply, hmoved, wp_pure, checkMoved, if_true]
    refine ⟨_, h.written, fun i hi => ⟨rfl, Nat.le_add_right _ _, ?_⟩⟩
    rw [Nat.add_sub_cancel_left, getElem?_map, getElem?_range hi, Option.map_some,
      (h i hi).1]
  · rw [Bool.not_eq_true] at hmoved
    rw [hmoved]
    have hbroken : Broken K s { s with device := s.device.write block count s.blockShm false } _ :=
      ⟨h.pass false, _, mem_singleton_self _, rfl⟩
    cases hresult : s.device.reply.result with
    | ok n =>
      have hne : n ≠ count * s.blockSize := by
        rintro rfl
        rw [(Reply.moved_iff _ _).mpr hresult] at hmoved
        cases hmoved
      simp only [fromReply, hresult, wp_pure, checkMoved, if_neg hne]
      exact ⟨⟨_, rfl⟩, _, hbroken⟩
    | error e =>
      simp only [fromReply, hresult]
      exact ⟨⟨_, rfl⟩, _, hbroken⟩

lemma finishRun_spec (h : Gathered K a s first count) :
    wp (finishRun first count)
      (fun _ t => ∃ issued, Written K a s t issued ∧
        ∀ i < count, ∃ c ∈ issued, c.Puts (first + i) (a (first + i)))
      (BreaksWith K s) s := by
  refine wp_ite (fun _ => ?_) (fun hzero => ?_)
  · refine wp_post (writeRun_spec h) (fun _ t ⟨c, hwritten, hputs⟩ => ?_)
    exact ⟨[c], hwritten, fun i hi => ⟨c, mem_singleton_self c, hputs i hi⟩⟩
  · exact ⟨[], .shm s.blockShm, fun i hi => absurd hi (by omega)⟩

lemma flushIf_spec (K : Nat → Prop) (a : Nat → β) (wrote : Bool) :
    wp (flushIf wrote)
      (fun _ t => ∃ issued, Written K a s t issued ∧ (wrote = true → issued = [.flush true]))
      (BreaksWith K s) s := by
  have hpass : ∀ done, Pass K s { s with device := s.device.record (.flush done) } [.flush done] := by
    intro done
    refine ⟨⟨rfl, rfl, rfl, rfl⟩, fun c hc => ?_, fun _ _ => rfl, rfl⟩
    obtain rfl := mem_singleton.mp hc
    trivial
  refine wp_ite (fun _ => ?_) (fun hnot => ⟨[], .shm s.blockShm, fun h => absurd h hnot⟩)
  simp only [blockDeviceFlush, wp_bind, wp_get, Reply.succeeded]
  cases hresult : s.device.reply.result with
  | ok n =>
    simp only [fromReply, hresult]
    refine ⟨_, ⟨hpass true, fun c hc => ?_, fun _ => .inl rfl, fun c hc => ?_⟩, fun _ => rfl⟩
    · obtain rfl := mem_singleton.mp hc
      rfl
    · obtain rfl := mem_singleton.mp hc
      rintro _ ⟨⟩
  | error e =>
    simp only [fromReply, hresult]
    exact ⟨⟨_, rfl⟩, _, hpass false, _, mem_singleton_self _, rfl⟩

lemma cutRun_spec (h : Gathered K a s first count) :
    wp (cutRun maxBlocks block first count)
      (fun run t => ∃ issued, Written K a s t issued ∧ Gathered K a t run.1 run.2 ∧
        block = run.1 + run.2 ∧
        ∀ i < count, (∃ c ∈ issued, c.Puts (first + i) (a (first + i))) ∨
          ∃ j < run.2, first + i = run.1 + j)
      (BreaksWith K s) s := by
  refine wp_ite (fun _ => ?_) (fun hcut => ?_)
  · refine wp_seq (writeRun_spec h) fun _ t ⟨c, hwritten, hputs⟩ => ?_
    exact ⟨[c], hwritten, nofun, rfl, fun i hi => .inl ⟨c, mem_singleton_self c, hputs i hi⟩⟩
  · refine ⟨[], .shm s.blockShm, ?_⟩
    by_cases hzero : count = 0
    · subst hzero
      exact ⟨nofun, rfl, nofun⟩
    · have hnext : block = first + count := by
        by_contra hne
        exact hcut ⟨hzero, .inl hne⟩
      simp only [if_neg hzero]
      exact ⟨h, hnext, fun i hi => .inr ⟨i, hi, rfl⟩⟩

/-! ## A pass over the index -/

def Todo (c : BlockCache β) (kind : BlockKind) (l : List (Nat × Nat)) (b : Nat) : Prop :=
  ∃ slot, (b, slot) ∈ l ∧ (c.entries slot).dirty = some kind

/-- A completed pass: every block to write is written before the device is told to flush. -/
structure Finished (T : Nat → Prop) (a : Nat → β) (issued : List (Command β)) : Prop where
  puts : ∀ b, T b → ∃ before, issued = before ++ [.flush true] ∧ ∃ c ∈ before, c.Puts b (a b)

lemma flushPass_spec {kind l wrote}
    (hl : ∀ b slot, (b, slot) ∈ l → (s.blockCache.entries slot).dirty = some kind →
      K b ∧ s.blockCache.data slot = a b) (h : Gathered K a s first count)
    (hwrote : count ≠ 0 → wrote = true) :
    wp (flushPass kind maxBlocks l first count wrote)
      (fun _ t => ∃ issued, Written K a s t issued ∧
        (wrote = true → ∃ before, issued = before ++ [.flush true] ∧
          ∀ i < count, ∃ c ∈ before, c.Puts (first + i) (a (first + i))) ∧
        Finished (Todo s.blockCache kind l) a issued)
      (BreaksWith K s) s := by
  induction l generalizing s first count wrote with
  | nil =>
    simp only [flushPass, wp_bind]
    refine wp_post (finishRun_spec h) ?_
    rintro _ t ⟨issued, hwritten, hputs⟩
    refine wp_mono (flushIf_spec K a wrote) ?_ (fun _ _ he => he.after hwritten)
    rintro _ u ⟨issued', hwritten', hflush⟩
    refine ⟨issued ++ issued', hwritten.trans hwritten', fun htrue => ⟨issued, ?_, hputs⟩, ⟨?_⟩⟩
    · rw [hflush htrue]
    · rintro b ⟨slot, hmem, -⟩
      exact absurd hmem not_mem_nil
  | cons pair rest ih =>
    obtain ⟨block, slot⟩ := pair
    have hrest := fun b slot hb => hl b slot (mem_cons_of_mem _ hb)
    refine wp_ite (fun hskip => ?_) (fun hdirty => ?_)
    · refine wp_post (ih hrest h hwrote) ?_
      rintro _ t ⟨issued, hwritten, hpending, hputs⟩
      refine ⟨issued, hwritten, hpending, ⟨?_⟩⟩
      rintro b ⟨slot', hmem, hkind⟩
      rcases mem_cons.mp hmem with heq | hmem
      · cases heq
        exact absurd hkind hskip
      · exact hputs.puts b ⟨slot', hmem, hkind⟩
    · rw [not_not] at hdirty
      rw [wp_bind]
      obtain ⟨hblock, hdata⟩ := hl block slot mem_cons_self hdirty
      refine wp_post (cutRun_spec h) ?_
      rintro run t ⟨issued, hwritten, hrun, hnext, hcovered⟩
      have hcache := hwritten.blockCache
      have hgathered : Gathered K a { t with
          blockShm := Function.update t.blockShm run.2 (t.blockCache.data slot) } run.1 (run.2 + 1) := by
        intro i hi
        by_cases hlast : i = run.2
        · subst hlast
          rw [← hnext, hcache]
          exact ⟨(Function.update_self _ _ _).trans hdata, hblock⟩
        · obtain ⟨hvalue, hK⟩ := hrun i (by omega)
          exact ⟨(Function.update_of_ne hlast _ _).trans hvalue, hK⟩
      refine wp_mono (ih (by rw [hcache]; exact hrest) hgathered fun _ => rfl) ?_
        (fun _ _ he => he.after (hwritten.buffer _))
      rintro _ u ⟨issued', hwritten', hpending, hputs⟩
      obtain ⟨before, rfl, hbefore⟩ := hpending rfl
      refine ⟨_, (hwritten.buffer _).trans hwritten',
        fun _ => ⟨issued ++ before, by rw [append_assoc], fun i hi => ?_⟩, ⟨?_⟩⟩
      · rcases hcovered i hi with ⟨c, hc, hput⟩ | ⟨j, hj, heq⟩
        · exact ⟨c, mem_append_left _ hc, hput⟩
        · rw [heq]
          obtain ⟨c, hc, hput⟩ := hbefore j (by omega)
          exact ⟨c, mem_append_right _ hc, hput⟩
      · rintro b ⟨slot', hmem, hkind⟩
        refine ⟨issued ++ before, by rw [append_assoc], ?_⟩
        rcases mem_cons.mp hmem with heq | hmem
        · cases heq
          obtain ⟨c, hc, hput⟩ := hbefore run.2 (Nat.lt_succ_self _)
          rw [← hnext] at hput
          exact ⟨c, mem_append_right _ hc, hput⟩
        · obtain ⟨before', heq, c, hc, hput⟩ := hputs.puts b ⟨slot', hmem, by rw [hcache]; exact hkind⟩
          have hsame : before' = before := (append_inj_left' heq rfl).symm
          exact ⟨c, mem_append_right _ (hsame ▸ hc), hput⟩

/-- The two halves of a flush: data that is dirty, then metadata that is dirty, and nothing of the
second half is issued before the whole first half is written and flushed. -/
def DataFirst (c : BlockCache β) (a : Nat → β) (issued : List (Command β)) : Prop :=
  ∃ data metadata, issued = data ++ metadata ∧
    (∀ cmd ∈ data, cmd.Within fun b => c.dirtyAs b = some .data) ∧
    (∀ cmd ∈ metadata, cmd.Within fun b => c.dirtyAs b = some .metadata) ∧
    (metadata ≠ [] → (∀ cmd ∈ data, cmd.done = true) ∧
      Finished (fun b => c.dirtyAs b = some .data) a data)

def WroteBack (issued : List (Command β)) (b : Nat) (v : β) : Prop :=
  ∃ before after, issued = before ++ .flush true :: after ∧ ∃ c ∈ before, c.Puts b v

/-- What a flush may do, also when it fails. -/
structure Flushes (s t : BlockRuntime β) (a : Nat → β) (issued : List (Command β)) : Prop extends
    Issues s t issued where
  ordered : DataFirst s.blockCache a issued
  blocks : ∀ b, s.blockCache.dirtyAs b = none → t.device.blocks b = s.device.blocks b

def HeldAre (c : BlockCache β) (a : Nat → β) : Prop :=
  ∀ b kind v, c.find b = some (kind, v) → v = a b

lemma flushPass_index {kind} (h : HeldAre s.blockCache a) :
    wp (flushPass kind maxBlocks s.blockCache.index.entries 0 0 false)
      (fun _ t => ∃ issued, Written (fun b => s.blockCache.dirtyAs b = some kind) a s t issued ∧
        Finished (fun b => s.blockCache.dirtyAs b = some kind) a issued)
      (BreaksWith (fun b => s.blockCache.dirtyAs b = some kind) s) s := by
  have hfind : ∀ b slot, (b, slot) ∈ s.blockCache.index.entries →
      s.blockCache.find b = some ((s.blockCache.entries slot).dirty, s.blockCache.data slot) := by
    intro b slot hmem
    rw [BlockCache.find, SortedMap.get?_eq_some.mpr hmem, Option.map_some]
  refine wp_post (flushPass_spec (a := a) (fun b slot hmem hdirty => ?_)
    (fun i hi => absurd hi (Nat.not_lt_zero i)) (absurd rfl)) ?_
  · have hb := hfind b slot hmem
    exact ⟨(BlockCache.dirtyAs_of_find hb).trans hdirty, h b _ _ hb⟩
  · rintro _ t ⟨issued, hwritten, -, hputs⟩
    refine ⟨issued, hwritten, ⟨fun b hb => hputs.puts b ?_⟩⟩
    rw [BlockCache.dirtyAs_eq] at hb
    obtain ⟨slot, hslot⟩ : ∃ slot, s.blockCache.index.get? b = some slot := by
      cases hget : s.blockCache.index.get? b with
      | none =>
        rw [hget] at hb
        cases hb
      | some slot => exact ⟨slot, rfl⟩
    rw [hslot] at hb
    exact ⟨slot, SortedMap.get?_eq_some.mp hslot, hb⟩

lemma Flushes.of_passes {data metadata}
    (hdata : Written (fun b => s.blockCache.dirtyAs b = some .data) a s t data)
    (hdone : Finished (fun b => s.blockCache.dirtyAs b = some .data) a data)
    (hmeta : Pass (fun b => s.blockCache.dirtyAs b = some .metadata) t u metadata) :
    Flushes s u a (data ++ metadata) where
  toIssues := hdata.toIssues.trans hmeta.toIssues
  ordered := ⟨data, metadata, rfl, hdata.within, hmeta.within, fun _ => ⟨hdata.done, hdone⟩⟩
  blocks b hb := (hmeta.blocks b (by rw [hb]; nofun)).trans (hdata.blocks b (by rw [hb]; nofun))

lemma Finished.stored (hdone : Finished K a issued) (h : Written K a s t issued) {b} (hb : K b) :
    t.device.blocks b = a b := by
  obtain ⟨before, rfl, c, hc, hput⟩ := hdone.puts b hb
  exact h.stored c (mem_append_left _ hc) b hput

lemma flushDirty_spec (h : HeldAre s.blockCache a) :
    wp flushDirty
      (fun _ t => ∃ issued, Flushes s t a issued ∧ t.blockCache = s.blockCache ∧
        (∀ c ∈ issued, ¬c.Failed) ∧
        ∀ b, s.blockCache.dirtyAs b ≠ none → t.device.blocks b = a b ∧ WroteBack issued b (a b))
      (fun e t => ∃ issued, Flushes s t a issued ∧ t.blockCache = s.blockCache ∧
        (∃ error, e = .request error) ∧ ∃ c ∈ issued, c.Failed) s := by
  simp only [flushDirty, wp_bind, wp_get]
  refine wp_mono (flushPass_index h) ?_ ?_
  · rintro _ t ⟨data, hdata, hdone⟩
    rw [← hdata.blockCache] at h ⊢
    refine wp_mono (flushPass_index h) ?_ ?_
    · rintro _ u ⟨metadata, hmeta, hmetaDone⟩
      have hcache := hmeta.blockCache
      rw [hdata.blockCache] at hmeta hmetaDone ⊢
      refine ⟨data ++ metadata, .of_passes hdata hdone hmeta.toPass, hcache.trans hdata.blockCache,
        fun c hc => Command.not_failed ((mem_append.mp hc).elim (hdata.done c) (hmeta.done c)),
        fun b hb => ?_⟩
      obtain ⟨kind, hkind⟩ := Option.ne_none_iff_exists'.mp hb
      cases kind with
      | data =>
        obtain ⟨before, rfl, c, hc, hput⟩ := hdone.puts b hkind
        refine ⟨?_, before, metadata, by rw [append_assoc]; rfl, c, hc, hput⟩
        rcases hmeta.values b with hvalue | hvalue
        · exact hvalue.trans (hdone.stored hdata hkind)
        · exact hvalue
      | metadata =>
        obtain ⟨before, rfl, c, hc, hput⟩ := hmetaDone.puts b hkind
        exact ⟨hmetaDone.stored hmeta hkind, data ++ before, [], by rw [append_assoc], c,
          mem_append_right _ hc, hput⟩
    · rintro e u ⟨herror, metadata, hbroken⟩
      have hcache := hbroken.blockCache
      rw [hdata.blockCache] at hbroken ⊢
      obtain ⟨c, hc, hfailed⟩ := hbroken.failed
      exact ⟨data ++ metadata, .of_passes hdata hdone hbroken.toPass, hcache.trans hdata.blockCache,
        herror, c, mem_append_right _ hc, (hbroken.within c hc).failed hfailed⟩
  · rintro e t ⟨herror, data, hbroken⟩
    obtain ⟨c, hc, hfailed⟩ := hbroken.failed
    refine ⟨data, ⟨hbroken.toIssues, ⟨data, [], (append_nil _).symm, hbroken.within, by simp, by simp⟩,
      fun b hb => hbroken.blocks b (by rw [hb]; rintro ⟨⟩)⟩, hbroken.blockCache, herror, c, hc,
      (hbroken.within c hc).failed hfailed⟩

end Nanami.Ext2

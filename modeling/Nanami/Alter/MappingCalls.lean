import Nanami.Alter.MappingSteps

/-!
# The memory calls and the table

mmap and mremap, branch by branch: each leaves the table grown by what it may enter. A reservation is
made where nothing is recorded, and memory at a fixed address goes where munmap has just made room.
-/

namespace Nanami.Alter
open Nanami.Lib
namespace VmRuntime

section Grown

variable {P : Nat → Prop} {s₀ s t u : VmRuntime} {pid base size prot : Nat}

/-! ### Reservations and fixed addresses -/

variable {l : List ProcessMapping} {mapped oldSize newSize oldAddr : Nat}

lemma conflictEnd_spec {stop far far'} (h : conflictEnd base stop l far = some far') :
    far ≤ far' ∧ ∀ m ∈ l, m.base ≠ 0 → base < m.base + m.size → m.base < stop →
      m.base + m.size ≤ far' := by
  induction l generalizing far with
  | nil =>
    cases h
    exact ⟨Nat.le_refl _, nofun⟩
  | cons m l ih =>
    unfold conflictEnd at h
    rw [List.forall_mem_cons]
    by_cases hm : m.base ≠ 0
    · rw [if_pos hm] at h
      cases hc : checkedAdd m.base m.size with
      | none => rw [hc] at h; cases h
      | some mappingEnd =>
        obtain ⟨rfl, -⟩ := checkedAdd_eq_some.mp hc
        rw [hc] at h
        obtain ⟨hle, hall⟩ := ih h
        by_cases hover : base < m.base + m.size ∧ m.base < stop
        · rw [if_pos hover] at hle
          exact ⟨by omega, fun _ _ _ => by omega, hall⟩
        · rw [if_neg hover] at hle
          exact ⟨hle, fun _ h1 h2 => absurd ⟨h1, h2⟩ hover, hall⟩
    · rw [if_neg hm] at h
      obtain ⟨hle, hall⟩ := ih h
      exact ⟨hle, fun h0 => absurd h0 hm, hall⟩

/-- The gap that a reservation is made in: nothing is recorded there. -/
lemma findGap_spec {rounds start gap} (hwf : ∀ m ∈ l, m.WellFormed) (hs : pageSize ∣ start)
    (h : findGap l mapped rounds start = some gap) :
    pageSize ∣ gap ∧ ∀ x, gap ≤ x → x < gap + mapped → ¬0 < coverOf l x := by
  induction rounds generalizing start with
  | zero => cases h
  | succ rounds ih =>
    unfold findGap at h
    cases hc : checkedAdd start mapped with
    | none => rw [hc] at h; cases h
    | some stop =>
      obtain ⟨rfl, -⟩ := checkedAdd_eq_some.mp hc
      rw [hc] at h
      simp only at h
      split at h
      · cases h
      cases hf : conflictEnd start (start + mapped) l start with
      | none => rw [hf] at h; cases h
      | some far =>
        rw [hf] at h
        simp only at h
        obtain ⟨-, hall⟩ := conflictEnd_spec hf
        split at h
        · rename_i heq
          cases h
          refine ⟨hs, ?_⟩
          intro x hx hx' hpos
          obtain ⟨m, hm, h1, h2⟩ := coverOf_pos.mp hpos
          have := hall m hm (hwf m hm).base_ne (by omega) (by omega)
          omega
        · cases hnext : pageCeil far with
          | none => rw [hnext] at h; cases h
          | some next =>
            rw [hnext] at h
            exact ih (pageCeil_spec hnext).1 h

lemma reservationBase_dvd : pageSize ∣ linuxVirtualReservationBase := by decide

variable {len addr flags bytes id offset newAddr : Nat} {file : LinuxFile}

lemma reserveNoneMapping_grown (h : Grown P s₀ s) (hu : Unclaimed P s) :
    wp (reserveNoneMapping pid len) (fun r t => Grown P s₀ t ∧ pageSize ∣ r.1)
      (fun _ => Grown P s₀) s := by
  refine wp_lookup h fun mapped hceil => ?_
  obtain ⟨hmapped, -⟩ := pageCeil_spec hceil
  refine wp_guard h fun _ => ?_
  refine wp_lookup h fun gap hgap => ?_
  obtain ⟨hdvd, hfree⟩ := findGap_spec h.tidy.wellFormed reservationBase_dvd hgap
  refine wp_sure (addMapping_grown h fun _ => ⟨hdvd, hmapped, fun x hx hx' =>
    ⟨hfree x hx hx', hu x (hfree x hx hx')⟩⟩) ?_
  rintro done t ⟨hg, -, -⟩
  exact wp_ite (fun _ => ⟨hg, hdvd⟩) fun _ => hg

lemma mmapFixed_grown (h : Grown P s₀ s) (hP : ∀ x, P x) :
    wp (mmapFixed pid addr len prot) (fun r t => Grown P s₀ t ∧ r = addr)
      (fun _ => Grown P s₀) s := by
  refine wp_lookup h fun bytes _ => ?_
  have hbase := pageFloor_dvd addr
  have hmapped := alignUpWord_dvd bytes
  refine wp_then (sysMunmap_shrinks h.tidy) ?_ (fun _ _ => h.shrinks)
  rintro _ t ⟨hst, hclear⟩
  have hg := h.shrinks hst
  apply wp_ite
  · intro _
    refine wp_sure (addMapping_grown hg fun _ => ⟨hbase, hmapped, fun x hx hx' =>
      ⟨hclear x hx hx', hP x⟩⟩) ?_
    rintro done u ⟨hgu, -, -⟩
    exact wp_ite (fun _ => ⟨hgu, rfl⟩) fun _ => hgu
  · intro _
    refine wp_then requestProcessMapAnonymous_spec ?_ (fun _ _ => hg.later)
    rintro ⟨placed, granted⟩ u ⟨hl, -, -, -, hsize, -⟩
    have hgu := hg.later hl
    have hgive : wp (do
          let _ ← attempt (requestProcessMappingRelease pid placed granted)
          throw .enomem : VmM Nat)
        (fun r t => Grown P s₀ t ∧ r = addr) (fun _ => Grown P s₀) u := by
      rw [wp_try]
      exact wp_post (hgu.keeps keeps_requestProcessMappingRelease) (fun _ _ h => h.1)
    refine wp_ite (fun _ => hgive) fun hplace => ?_
    obtain rfl : placed = pageFloor addr := not_not.mp fun hne => hplace (.inl hne)
    obtain rfl : granted = alignUpWord bytes := hsize hmapped
    refine wp_sure (addMapping_grown hgu fun _ => ⟨hbase, hmapped, fun x hx hx' =>
      ⟨fun hr => hclear x hx hx' (hl.recorded.mp hr), hP x⟩⟩) ?_
    rintro done v ⟨hgv, -, hsame⟩
    refine wp_ite (fun _ => ?_) fun hdone => ?_
    · refine wp_seq (hgv.keeps keeps_requestProcessMappingProtect) ?_
      intro _ w hw
      exact wp_pure.mpr ⟨hw.1, rfl⟩
    · rw [hsame (by simpa using hdone)]
      exact hgive

def FixedAt (addr flags : Nat) : Prop := addr ≠ 0 ∧ flags &&& linuxMapFixed ≠ 0

lemma mmapPrivate_grown (h : Grown P s₀ s) (hu : Unclaimed P s)
    (hfix : FixedAt addr flags → pageSize ∣ addr ∧ ∀ x, P x)
    (ho : ¬FixedAt addr flags → prot ≠ linuxProtNone → Open P s) :
    wp (mmapPrivate pid addr len prot flags) (fun r t => Grown P s₀ t ∧ pageSize ∣ r)
      (fun _ => Grown P s₀) s := by
  refine wp_ite (fun hf => ?_) fun hf => wp_ite (fun _ => ?_) fun hp => ?_
  · obtain ⟨haddr, hP⟩ := hfix hf
    refine wp_post (mmapFixed_grown h hP) ?_
    rintro r t ⟨hg, rfl⟩
    exact ⟨hg, haddr⟩
  · exact wp_seq (reserveNoneMapping_grown h hu) fun _ _ h => h
  · refine wp_seq (mapAnonymousTracked_grown h (ho hf hp)) ?_
    rintro ⟨base, mapped⟩ t ⟨hg, -, hdvd⟩
    exact ⟨hg, hdvd⟩

lemma mmapChecks_spec :
    wp (mmapChecks addr len prot flags)
      (fun _ t => t = s ∧ (flags &&& linuxMapFixed ≠ 0 → pageSize ∣ addr))
      (fun _ t => t = s) s := by
  refine wp_guard rfl fun hc => ⟨rfl, fun hf => ?_⟩
  apply dvd_of_aligned
  cases hun : unaligned addr with
  | false => rfl
  | true => exact absurd (.inr (.inr ⟨hf, hun⟩)) hc

lemma Grown.setObject (h : Grown P s₀ s) (id : Nat) (f : MemoryFile → MemoryFile) :
    Grown P s₀ (VmRuntime.setObject id f s) := ⟨h.tidy, h.recorded, h.allowed⟩

lemma Memfd.orCollect_grown {α} {m : VmM α} (h : ends m (Grown P s₀) s) :
    ends (Memfd.orCollect id m) (Grown P s₀) s := by
  unfold Memfd.orCollect ends
  rw [wp_try]
  refine wp_mono h (fun _ _ ht => wp_pure.mpr ht) ?_
  intro e t ht
  simp only
  exact wp_seq (ht.keeps Memfd.keeps_collect) fun _ _ hu => wp_throw.mpr hu.1

lemma keeps_giveBackFramebuffer {shared} : Keeps (giveBackFramebuffer pid shared bytes) := by
  refine keeps_attempt keeps_requestProcessMappingRelease fun _ => ?_
  exact keeps_attempt keeps_request fun _ => .pure

lemma attachLogicalFramebuffer_spec :
    wp attachLogicalFramebuffer
      (fun r t => Later s t ∧ (r.1 ≠ 0 → Granted s t r.1 r.2)) (fun _ => Later s) s := by
  refine wp_sure nextAnswer_later ?_
  rintro a t ⟨h, hmem⟩
  cases a with
  | refused => exact h
  | done => exact h
  | values => exact ⟨h, fun hne => absurd rfl hne⟩
  | granted base bytes =>
    have hmem := hmem.resolve_left fun ⟨_, _, he⟩ => nomatch he
    simp only
    refine wp_ite ?_ fun _ => h
    rintro ⟨-, hal, -, hfree⟩
    have hg := granted_of_free h hmem hal hfree
    exact ⟨hg.later, fun _ => hg⟩

lemma ensureFramebufferMapping_grown (h : Grown P s₀ s) (ho : Open P s) :
    ends (ensureFramebufferMapping pid id prot) (Grown P s₀) s := by
  unfold ensureFramebufferMapping ends
  rw [wp_bind]
  have hsession : ends (graphicsSession id) (fun t => t = s) s := by
    unfold graphicsSession ends
    refine wp_lookup rfl fun index _ => ?_
    refine wp_lookup rfl fun session _ => ?_
    exact wp_ite (fun _ => rfl) (fun _ => rfl)
  refine wp_mono hsession ?_ (fun _ _ e => e ▸ h)
  rintro session t rfl
  refine wp_ite (fun _ => wp_ite (fun _ => h) (fun _ => h)) fun _ => ?_
  refine wp_then request_later ?_ (fun _ _ => h.later)
  intro _ u hlu
  have hgu := h.later hlu
  have hou := ho.later hlu
  refine wp_then attachLogicalFramebuffer_spec ?_ (fun _ _ => hgu.later)
  rintro ⟨shared, bytes⟩ v ⟨hlv, hgrant⟩
  have hgv := hgu.later hlv
  have hgive : ∀ e : Errno, ends (do giveBackFramebuffer pid shared bytes; throw e : VmM Nat)
      (Grown P s₀) v := by
    intro e
    exact wp_seq (hgv.keeps keeps_giveBackFramebuffer) fun _ _ h => wp_throw.mpr h.1
  refine wp_ite (fun _ => hgive _) fun hok => ?_
  have hg := hgrant fun h0 => hok (.inr h0)
  refine wp_sure (addMapping_grown hgv fun _ => hg.range hou) ?_
  rintro done w ⟨hgw, -, hsame⟩
  refine wp_ite (fun _ => ?_) fun hdone => ?_
  · rw [wp_update, wp_bind]
    have hm : Grown P s₀ { w with
        graphics := w.graphics.modify (id - 1) fun session =>
          { session with
            framebuffer := shared
            framebufferBytes := bytes
            guestPid := pid
            guestFramebuffer := shared
            guestFramebufferBytes := bytes } } := ⟨hgw.tidy, hgw.recorded, hgw.allowed⟩
    exact wp_post (hm.keeps keeps_request) (fun _ _ h => wp_pure.mpr h.1)
  · rw [hsame (by simpa using hdone)]
    exact hgive _

lemma sysFramebufferMmap_grown (h : Grown P s₀ s) (ho : Open P s) :
    ends (sysFramebufferMmap pid file len prot offset) (Grown P s₀) s := by
  unfold sysFramebufferMmap graphicsSession ends
  rw [wp_bind]
  refine wp_lookup h fun index _ => ?_
  refine wp_lookup h fun session _ => wp_ite (fun _ => ?_) fun _ => h
  exact wp_guard h fun _ => ensureFramebufferMapping_grown h ho

lemma fillPrivate_shrinks (ht : Tidy s.mappings.entries) (hb : pageSize ∣ base)
    (hm : pageSize ∣ mapped) :
    ends (fillPrivate pid base mapped bytes prot) (Shrinks s) s := by
  have h0 := Shrinks.refl ht
  unfold fillPrivate ends
  refine wp_guard h0 fun _ => ?_
  refine wp_seq (h0.keeps keeps_fillPages) ?_
  rintro _ t ⟨hst, -⟩
  refine wp_seq (hst.keeps keeps_requestProcessMappingProtect) ?_
  rintro _ u ⟨hsu, -⟩
  refine wp_sure (protectMapping_shrinks hsu.tidy hb hm) ?_
  intro done v huv
  exact wp_ite (fun _ => hsu.trans huv) fun _ => hsu.trans huv

lemma fixedAt_or_anonymous (h : FixedAt addr (flags ||| linuxMapAnonymous)) :
    FixedAt addr flags := by
  refine ⟨h.1, ?_⟩
  have e : (flags ||| linuxMapAnonymous) &&& linuxMapFixed = flags &&& linuxMapFixed := by
    rw [Nat.and_or_distrib_right, show linuxMapAnonymous &&& linuxMapFixed = 0 from by decide,
      Nat.or_zero]
  rw [← e]
  exact h.2

section Fixed

variable (h : Grown P s₀ s) (hu : Unclaimed P s) (hfix : FixedAt addr flags → ∀ x, P x)
include h hu hfix

lemma mmapAnonymous_grown
    (ho : ¬FixedAt addr flags → prot ≠ linuxProtNone → Open P s) :
    wp (mmapAnonymous pid addr len prot flags) (fun r t => Grown P s₀ t ∧ pageSize ∣ r)
      (fun _ => Grown P s₀) s := by
  refine wp_then mmapChecks_spec ?_ (fun _ _ e => e ▸ h)
  rintro _ t ⟨rfl, halign⟩
  exact mmapPrivate_grown h hu (fun hf => ⟨halign hf.2, hfix hf⟩) ho

/-! ### Files -/

lemma Memfd.reserve_grown :
    wp (Memfd.reserve pid addr bytes flags) (fun r t => Grown P s₀ t ∧ pageSize ∣ r)
      (fun _ => Grown P s₀) s := by
  refine wp_ite (fun hflag => ?_) fun _ => ?_
  · exact mmapAnonymous_grown h hu (fun hf => hfix ⟨hf.1, hflag⟩) (fun _ => absurd rfl)
  · rw [wp_map]
    exact reserveNoneMapping_grown h hu

lemma Memfd.map_grown {readonly} :
    ends (Memfd.map pid addr bytes prot flags id readonly offset) (Grown P s₀) s := by
  refine wp_guard h fun _ => ?_
  refine wp_guard h fun _ => ?_
  refine wp_seq (h.keeps keeps_getObject) ?_
  rintro file t ⟨ht, et⟩
  refine wp_guard ht fun _ => ?_
  refine wp_seq (ht.keeps keeps_tryReserve) ?_
  rintro _ u ⟨hu', eu⟩
  refine wp_lookup hu' fun mapped hceil => ?_
  obtain ⟨hmapped, -⟩ := pageCeil_spec hceil
  refine wp_seq (Memfd.reserve_grown hu' ((hu.keeps et).keeps eu) hfix) ?_
  rintro base v ⟨hv, hbase⟩
  refine wp_sure (protectMapping_shrinks hv.tidy hbase hmapped) ?_
  intro done w hvw
  have hw := hv.shrinks hvw
  refine wp_ite (fun _ => ?_) fun _ => ?_
  · refine wp_seq (hw.keeps keeps_getObject) ?_
    rintro file' w' ⟨hw', -⟩
    rw [wp_update]
    have hset := hw'.setObject id
    refine wp_seq ((hset _).of_ends (orUnmap_shrinks (ends_of_keeps (hset _).tidy
      (.forEach (fun _ => Memfd.keeps_populate) _)))) ?_
    exact fun _ _ hs => wp_pure.mpr hs
  · rw [wp_try]
    exact hw.munmap

lemma Memfd.mapReadFile_grown {fileSize : Nat} :
    ends (Memfd.mapReadFile pid addr bytes prot flags fileSize offset) (Grown P s₀) s := by
  refine wp_guard h fun _ => ?_
  refine wp_guard h fun _ => ?_
  refine wp_seq (h.keeps keeps_requestValues) ?_
  rintro ⟨fd, _⟩ t ⟨ht, et⟩
  simp only
  rw [wp_try]
  refine wp_mono (ht.keeps keeps_insertObject) ?_ ?_
  · rintro id u ⟨hgu, eu⟩
    exact Memfd.orCollect_grown (Memfd.map_grown hgu ((hu.keeps et).keeps eu) hfix)
  · intro e u hgu
    simp only
    rw [wp_try]
    exact wp_post (hgu.keeps keeps_request) (fun _ _ h => wp_throw.mpr h.1)

lemma Memfd.mapAnonymous_grown :
    ends (Memfd.mapAnonymous pid addr bytes prot flags) (Grown P s₀) s := by
  refine wp_seq (h.keeps keeps_insertObject) ?_
  rintro id t ⟨ht, et⟩
  exact Memfd.orCollect_grown (Memfd.map_grown ht (hu.keeps et) hfix)

lemma ioUringMap_grown :
    ends (ioUringMap pid addr bytes prot flags file offset) (Grown P s₀) s := by
  refine wp_guard h fun _ => ?_
  refine wp_lookup h fun ring _ => ?_
  refine wp_lookup h ?_
  rintro ⟨id, limit⟩ _
  exact wp_guard h fun _ => Memfd.map_grown h hu hfix

lemma sysFileMmap_grown :
    ends (sysFileMmap pid addr len prot flags file offset) (Grown P s₀) s := by
  refine wp_guard h fun _ => ?_
  refine wp_guard h fun _ => ?_
  refine wp_guard h fun _ => ?_
  refine wp_seq (h.keeps keeps_requestValues) ?_
  rintro ⟨fileSize, kind⟩ t ⟨ht, et⟩
  simp only
  refine wp_guard ht fun _ => ?_
  refine wp_ite (fun _ => Memfd.mapReadFile_grown ht (hu.keeps et) hfix) fun _ => ?_
  refine wp_guard ht fun _ => ?_
  refine wp_lookup ht fun mapped hceil => ?_
  obtain ⟨hmapped, -⟩ := pageCeil_spec hceil
  refine wp_seq (mmapAnonymous_grown ht (hu.keeps et) (fun hf => hfix (fixedAt_or_anonymous hf))
    (fun _ => absurd rfl)) ?_
  rintro base u ⟨hgu, hbase⟩
  refine wp_seq (hgu.of_ends (orUnmap_shrinks (fillPrivate_shrinks hgu.tidy hbase hmapped))) ?_
  exact fun _ _ hs => wp_pure.mpr hs

lemma sysMmap_grown {fd} (ho : ¬FixedAt addr flags → Open P s) :
    ends (sysMmap pid addr len prot flags fd offset) (Grown P s₀) s := by
  refine wp_then mmapChecks_spec ?_ (fun _ _ e => e ▸ h)
  rintro _ t ⟨rfl, halign⟩
  refine wp_ite (fun _ => ?_) fun _ => ?_
  · refine wp_lookup h fun file _ => ?_
    cases file.kind with
    | ioUring => exact ioUringMap_grown h hu hfix
    | memoryFile => exact Memfd.map_grown h hu hfix
    | posix => exact sysFileMmap_grown h hu hfix
    | framebuffer => exact wp_guard h fun hf => sysFramebufferMmap_grown h (ho hf)
    | _ => exact wp_throw.mpr h
  · refine wp_ite (fun _ => Memfd.mapAnonymous_grown h hu hfix) fun _ => ?_
    refine wp_post (mmapPrivate_grown h hu (fun hf => ⟨halign hf.2, hfix hf⟩) (fun hf _ => ho hf)) ?_
    exact fun _ _ h => h.1

end Fixed

/-! ### mremap -/

lemma Memfd.remap_grown {old} (h : Grown P s₀ s) (hu : Unclaimed P s)
    (hfix : flags &&& linuxMremapFixed ≠ 0 → ∀ x, P x) :
    wp (Memfd.remap pid old oldSize newSize flags newAddr prot)
      (fun r t => Grown P s₀ t ∧ (r = none → t = s)) (fun _ => Grown P s₀) s := by
  unfold Memfd.remap
  rw [wp_read]
  cases Memfd.mappingAt s pid old with
  | none => exact wp_pure.mpr ⟨h, fun _ => rfl⟩
  | some found =>
    obtain ⟨id, mapping⟩ := found
    simp only
    refine wp_guard h fun _ => ?_
    refine wp_guard h fun _ => ?_
    refine wp_guard h fun _ => ?_
    refine wp_guard h fun _ => ?_
    refine wp_seq (h.keeps Memfd.keeps_growFile) ?_
    rintro _ t ⟨ht, et⟩
    refine wp_seq (Memfd.map_grown ht (hu.keeps et) ?_) ?_
    · -- the flags of the new mapping are fixed exactly for a fixed move
      intro hf
      apply hfix
      intro h0
      have hne := hf.2
      rw [if_neg (not_not.mpr h0)] at hne
      apply hne
      cases mapping.shared with
      | false => decide
      | true => decide
    intro target u hgu
    rw [wp_bind]
    have hcopy : ends (Memfd.copyPrivate pid id mapping (mapping.offset + old - mapping.base) target
        oldSize newSize) (Shrinks u) u := by
      refine wp_ite (fun _ => .refl hgu.tidy) fun _ => ?_
      refine wp_seq (ends_of_keeps hgu.tidy keeps_getObject) ?_
      intro file v huv
      exact ends_mono (orUnmap_shrinks (ends_of_keeps huv.tidy keeps_copySameProcessRange))
        fun _ => huv.trans
    refine wp_post (hgu.of_ends hcopy) fun _ v hgv => ?_
    refine wp_seq hgv.munmap ?_
    exact fun _ w hgw => wp_pure.mpr ⟨hgw, nofun⟩

/-- Growing a mapping where it is. When it is not done, the table is as it was. -/
lemma growInPlace_grown {oldEnd extra} (h : Grown P s₀ s) (ho : Open P s) :
    wp (growInPlace pid oldEnd extra prot)
      (fun done t => Grown P s₀ t ∧ (done = false → Later s t)) (fun _ => Grown P s₀) s := by
  unfold growInPlace
  rw [wp_try]
  refine wp_mono requestProcessMapAnonymous_spec ?_ (fun _ _ hl => wp_pure.mpr ⟨h.later hl, fun _ => hl⟩)
  rintro ⟨base, granted⟩ t ⟨hl, hdvd, hword, -, -, hg⟩
  simp only
  have hup : alignUpWord granted = granted := alignUpWord_of_dvd hdvd hword
  refine wp_ite (fun _ => ?_) fun _ => ⟨h.later hl, fun _ => hl⟩
  refine wp_sure (addMapping_grown (h.later hl) ?_) ?_
  · intro hin
    have := (hg (hl.tasks ▸ hin)).range ho
    rwa [hup] at this
  rintro done u ⟨hgu, -, hsame⟩
  refine wp_ite (fun _ => ?_) fun hdone => ?_
  · exact wp_seq (hgu.keeps keeps_requestProcessMappingProtect)
      fun _ _ h => wp_pure.mpr ⟨h.1, nofun⟩
  · rw [hsame (by simpa using hdone)]
    exact wp_pure.mpr ⟨h.later hl, fun _ => hl⟩

lemma moveMapping_grown {oldMapped newMapped} (h : Grown P s₀ s) (hu : Unclaimed P s)
    (hfix : flags &&& linuxMremapFixed ≠ 0 → newAddr ≠ 0 ∧ ∀ x, P x)
    (ho : flags &&& linuxMremapFixed = 0 → Open P s) :
    ends (moveMapping pid oldAddr oldMapped newMapped flags newAddr prot) (Grown P s₀) s := by
  unfold moveMapping moveTarget ends
  rw [wp_bind]
  have htarget : wp (if flags &&& linuxMremapFixed ≠ 0 then
        mmapAnonymous pid newAddr newMapped prot (linuxMapFixed ||| linuxMapAnonymous)
      else mmapAnonymous pid 0 newMapped prot linuxMapAnonymous : VmM Nat)
      (fun r t => Grown P s₀ t ∧ pageSize ∣ r) (fun _ => Grown P s₀) s := by
    refine wp_ite (fun hf => ?_) fun hf => ?_
    · obtain ⟨hne, hP⟩ := hfix hf
      exact mmapAnonymous_grown h hu (fun _ => hP) (fun hno => absurd ⟨hne, by decide⟩ hno)
    · exact mmapAnonymous_grown h hu (fun hat => absurd rfl hat.1) (fun _ _ => ho (not_not.mp hf))
  refine wp_post htarget ?_
  rintro target t ⟨ht, -⟩
  refine wp_seq (ht.of_ends (orUnmap_shrinks (ends_of_keeps ht.tidy keeps_copySameProcessRange))) ?_
  intro _ u hgu
  refine wp_seq hgu.munmap ?_
  exact fun _ v hs => wp_pure.mpr hs

lemma sysMremap_grown (h : Grown P s₀ s) (hu : Unclaimed P s)
    (hfix : flags &&& linuxMremapFixed ≠ 0 → ∀ x, P x)
    (ho : flags &&& linuxMremapFixed = 0 → Open P s) :
    ends (sysMremap pid oldAddr oldSize newSize flags newAddr) (Grown P s₀) s := by
  refine wp_guard h fun _ => ?_
  refine wp_guard h fun _ => ?_
  refine wp_guard h fun hfixed => ?_
  have hfix' : flags &&& linuxMremapFixed ≠ 0 → newAddr ≠ 0 ∧ ∀ x, P x :=
    fun hf => ⟨fun h0 => hfixed ⟨hf, .inr (.inl h0)⟩, hfix hf⟩
  refine wp_lookup h fun oldMapped hold => ?_
  refine wp_lookup h fun newMapped hnew => ?_
  refine wp_lookup h fun prot _ => ?_
  refine wp_ite (fun _ => h) fun _ => wp_ite (fun _ => ?_) fun _ => ?_
  · exact wp_seq h.munmap fun _ _ hs => wp_pure.mpr hs
  refine wp_lookup h fun oldEnd _ => ?_
  refine wp_seq (Memfd.remap_grown h hu hfix) ?_
  rintro r t ⟨ht, hnone⟩
  cases r with
  | some target => exact wp_pure.mpr ht
  | none =>
    obtain rfl := hnone rfl
    -- growing in place comes first, and moving starts from the table as it was
    have hgrow : wp (grownInPlace pid oldEnd (newMapped - oldMapped) flags prot)
        (fun done u => Grown P s₀ u ∧ (done = false → Later t u)) (fun _ => Grown P s₀) t := by
      exact wp_ite (fun hc => growInPlace_grown h (ho hc.1)) fun _ => ⟨h, fun _ => .refl⟩
    simp only
    refine wp_seq hgrow ?_
    rintro done u ⟨hgu, hlater⟩
    refine wp_ite (fun _ => hgu) fun hdone => ?_
    have hl := hlater (by simpa using hdone)
    refine wp_guard hgu fun _ => ?_
    exact moveMapping_grown hgu (hu.keeps hl.record) hfix' (fun hf => (ho hf).later hl)

end Grown
end VmRuntime
end Nanami.Alter

import Nanami.Alter.GuestMemoryFrames

/-!
# What a part of a memory call does to the table

A part of a memory call leaves the table alone, shrinks what is recorded (`Shrinks`), or enters a range
in which nothing is recorded. `Grown` says what the table is like inside a call, and `Open` that Alpha can
grant the call nothing that is recorded: this is what entering a grant needs.
-/

namespace Nanami.Alter
open Nanami.Lib
namespace VmRuntime

def Recorded (s : VmRuntime) (x : Nat) : Prop := s.mappings.Recorded x

section Rounding

lemma pageFloor_dvd (x : Nat) : pageSize ∣ pageFloor x := dvd_mul_left _ _

lemma dvd_wordSize : pageSize ∣ wordSize := by decide

lemma alignUpWord_dvd (x : Nat) : pageSize ∣ alignUpWord x := pageFloor_dvd _

lemma dvd_of_aligned {x} (h : unaligned x = false) : pageSize ∣ x := by
  unfold unaligned at h
  apply Nat.dvd_of_mod_eq_zero
  simpa using h

lemma pageFloor_add {x} (h : pageSize ∣ x) : pageFloor (x + (pageSize - 1)) = x := by
  obtain ⟨k, rfl⟩ := h
  unfold pageFloor pageSize pageBits
  omega

lemma le_pageFloor_add (x : Nat) : x ≤ pageFloor (x + (pageSize - 1)) := by
  unfold pageFloor pageSize pageBits
  omega

lemma alignUpWord_of_dvd {x} (h : pageSize ∣ x) (hx : x < wordSize) : alignUpWord x = x := by
  unfold alignUpWord wrappingAdd
  obtain ⟨k, rfl⟩ := h
  obtain ⟨w, hw⟩ := dvd_wordSize
  rw [hw] at hx ⊢
  have hk : k < w := Nat.lt_of_mul_lt_mul_left hx
  have hlt : pageSize * k + (pageSize - 1) < pageSize * w := by
    have : pageSize * (k + 1) ≤ pageSize * w := Nat.mul_le_mul_left _ hk
    unfold pageSize pageBits at this ⊢
    omega
  rw [Nat.mod_eq_of_lt hlt]
  exact pageFloor_add ⟨k, rfl⟩

lemma pageCeil_spec {x y} (h : pageCeil x = some y) :
    pageSize ∣ y ∧ x ≤ y ∧ y < wordSize ∧ (pageSize ∣ x → y = x) := by
  unfold pageCeil at h
  obtain ⟨sum, hsum, rfl⟩ := Option.map_eq_some_iff.mp h
  obtain ⟨rfl, hlt⟩ := checkedAdd_eq_some.mp hsum
  exact ⟨pageFloor_dvd _, le_pageFloor_add x, lt_of_le_of_lt (Nat.div_mul_le_self _ _) hlt,
    pageFloor_add⟩

end Rounding

section Shrinks

variable {s t u : VmRuntime} {pid base size prot : Nat}

/-- The table has become smaller, or is as it was. -/
structure Shrinks (s t : VmRuntime) : Prop where
  tidy : Tidy t.mappings.entries
  recorded : ∀ x, t.Recorded x → s.Recorded x
  placed : t.placed = s.placed
  tasks : t.tasks = s.tasks

lemma Shrinks.refl (h : Tidy s.mappings.entries) : Shrinks s s := ⟨h, fun _ => id, rfl, rfl⟩

lemma Shrinks.trans (h : Shrinks s t) (h' : Shrinks t u) : Shrinks s u where
  tidy := h'.tidy
  recorded := fun x hx => h.recorded x (h'.recorded x hx)
  placed := h'.placed.trans h.placed
  tasks := h'.tasks.trans h.tasks

lemma recorded_of_record {x} (e : record t = record s) : t.Recorded x ↔ s.Recorded x := by
  unfold Recorded
  rw [show t.mappings = s.mappings from congrArg (·.2.1) e]

lemma shrinks_of_record (h : Tidy s.mappings.entries) (e : record t = record s) : Shrinks s t := by
  obtain ⟨htasks, hrest⟩ := Prod.mk.inj e
  obtain ⟨hmap, hplaced⟩ := Prod.mk.inj hrest
  exact ⟨hmap ▸ h, fun _ => (recorded_of_record e).mp, hplaced, htasks⟩

lemma Shrinks.keeps {α} {m : VmM α} (h : Shrinks s t) (hm : Keeps m) :
    wp m (fun _ u => Shrinks s u ∧ record u = record t) (fun _ => Shrinks s) t :=
  wp_mono (hm t) (fun _ _ e => ⟨h.trans (shrinks_of_record h.tidy e), e⟩)
    (fun _ _ e => h.trans (shrinks_of_record h.tidy e))

lemma ends_of_keeps {α} {m : VmM α} (ht : Tidy s.mappings.entries) (hm : Keeps m) :
    ends m (Shrinks s) s :=
  ends_mono (hm s) fun _ => shrinks_of_record ht

lemma managed_of_tasks (e : t.tasks = s.tasks) : t.managed pid = s.managed pid := by
  rw [managed, managed, e]

section

variable (ht : Tidy s.mappings.entries) (hb : pageSize ∣ base) (hs : pageSize ∣ size)
include ht hb hs

lemma removeMapping_shrinks :
    sure (removeMapping pid base size)
      (fun done t => Shrinks s t ∧
        (done = true → size ≠ 0 ∧ ∀ x, base ≤ x → x < base + size → ¬t.Recorded x)) s := by
  unfold removeMapping onTable sure
  refine wp_ite (fun _ => ?_) fun _ => ⟨.refl ht, nofun⟩
  have h := MappingTable.removeMapping_spec ht hb hs
  refine ⟨⟨h.tidy, fun x hx => lt_of_lt_of_le hx (h.cover_le x), rfl, rfl⟩, ?_⟩
  intro hdone
  refine ⟨?_, h.gone hdone⟩
  rintro rfl
  simp [MappingTable.removeMapping] at hdone

lemma protectMapping_shrinks :
    sure (protectMapping pid base size prot) (fun _ => Shrinks s) s := by
  unfold protectMapping onTable sure
  refine wp_ite (fun _ => ?_) fun _ => .refl ht
  obtain ⟨h1, h2⟩ := @MappingTable.protectMapping_spec s.mappings base size prot ht hb hs
  exact ⟨h1, h2, rfl, rfl⟩

end

/-- The loop of munmap takes the range out, or fails on the way. Each round goes past the record it
has found, so that the rounds are enough. -/
lemma unmapFrom_shrinks {stop rounds cursor : Nat} (ht : Tidy s.mappings.entries)
    (hm : s.managed pid = true) (hc : pageSize ∣ cursor) (hs : pageSize ∣ stop)
    (hr : stop - cursor < rounds) :
    wp (unmapFrom pid stop rounds cursor)
      (fun _ t => Shrinks s t ∧ ∀ x, cursor ≤ x → x < stop → ¬t.Recorded x)
      (fun _ => Shrinks s) s := by
  induction rounds generalizing cursor s with
  | zero => exact absurd hr (Nat.not_lt_zero _)
  | succ rounds ih =>
    unfold unmapFrom
    rw [wp_read]
    have hnext : s.nextMapping pid cursor stop = s.mappings.nextMapping cursor stop := if_pos hm
    rw [hnext]
    cases hn : s.mappings.nextMapping cursor stop with
    | none =>
      simp only
      exact ⟨Shrinks.refl ht, MappingTable.nextMapping_none ht hn⟩
    | some mapping =>
      obtain ⟨hmem, hlow, hhigh, hbefore⟩ := MappingTable.nextMapping_some ht hn
      have hwf := ht.wellFormed mapping hmem
      simp only
      rw [checkedAdd_of_lt hwf.stop_lt, okOr_some, wp_bind, wp_pure, wp_bind]
      have hstart : pageSize ∣ max cursor mapping.base :=
        max_rec' _ hc hwf.base_aligned
      have hend : pageSize ∣ min stop (mapping.base + mapping.size) :=
        min_rec' _ hs hwf.stop_aligned
      refine wp_post ((Shrinks.refl ht).keeps keeps_releasePresentMappingPages) ?_
      rintro _ t ⟨hst, -⟩
      refine wp_sure (removeMapping_shrinks hst.tidy hstart (Nat.dvd_sub hend hstart)) ?_
      rintro done u ⟨htu, hgone⟩
      have hsu := hst.trans htu
      refine wp_ite (fun hdone => ?_) fun _ => hsu
      obtain ⟨hne, hgone⟩ := hgone hdone
      have hmu := (managed_of_tasks hsu.tasks).trans hm
      refine wp_mono (ih hsu.tidy hmu hend (by omega)) ?_ (fun _ _ => hsu.trans)
      rintro _ v ⟨huv, hclear⟩
      refine ⟨hsu.trans huv, ?_⟩
      intro x hx hx' hrec
      by_cases h1 : x < max cursor mapping.base
      · -- nothing was recorded before the record that was found
        exact hbefore x hx hx' (by omega) (hsu.recorded x (huv.recorded x hrec))
      · by_cases h2 : x < min stop (mapping.base + mapping.size)
        · exact hgone x (by omega) (by omega) (huv.recorded x hrec)
        · exact hclear x (by omega) hx' hrec

lemma sysMunmap_shrinks {addr len : Nat} (ht : Tidy s.mappings.entries) :
    wp (sysMunmap pid addr len)
      (fun _ t => Shrinks s t ∧ ∀ x, addr ≤ x → x < addr + len → ¬t.Recorded x)
      (fun _ => Shrinks s) s := by
  have h0 := Shrinks.refl ht
  refine wp_guard h0 fun haddr => ?_
  have haddr : pageSize ∣ addr := dvd_of_aligned (by simpa using haddr)
  refine wp_lookup h0 fun mapped hceil => ?_
  obtain ⟨hmapped, hlen, -, -⟩ := pageCeil_spec hceil
  rw [wp_read]
  refine wp_seq (h0.keeps keeps_requestIf) ?_
  rintro _ t ⟨hst, -⟩
  refine wp_lookup hst fun stop hstop => ?_
  obtain ⟨rfl, -⟩ := checkedAdd_eq_some.mp hstop
  refine wp_guard hst fun hcan => ?_
  have hm : t.managed pid = true := by
    cases h : t.managed pid with
    | true => rfl
    | false => simp [h] at hcan
  refine wp_seq (hst.keeps Memfd.keeps_unmap) ?_
  rintro _ u ⟨hsu, hrec⟩
  have hmu := (managed_of_tasks (congrArg (·.1) hrec)).trans hm
  refine wp_then (unmapFrom_shrinks hsu.tidy hmu haddr (dvd_add haddr hmapped)
    (by omega)) ?_ (fun _ _ => hsu.trans)
  rintro _ v ⟨huv, hclear⟩
  have hsv := hsu.trans huv
  have hclear : ∀ x, addr ≤ x → x < addr + len → ¬v.Recorded x := by
    intro x hx hx'
    exact hclear x hx (by omega)
  cases s.framebufferIndex pid addr mapped with
  | none => exact wp_pure.mpr ⟨hsv, hclear⟩
  | some index =>
    refine wp_seq (hsv.keeps keeps_request) ?_
    rintro _ w ⟨hsw, hrec⟩
    refine ⟨⟨hsw.tidy, hsw.recorded, hsw.placed, hsw.tasks⟩, ?_⟩
    intro x hx hx' hw
    exact hclear x hx hx' ((recorded_of_record hrec).mp hw)

lemma sysMprotect_shrinks {addr len : Nat} (ht : Tidy s.mappings.entries) :
    ends (sysMprotect pid addr len prot) (Shrinks s) s := by
  have h0 := Shrinks.refl ht
  refine wp_guard h0 fun hargs => ?_
  have haddr : pageSize ∣ addr := by
    apply dvd_of_aligned
    cases h : unaligned addr with
    | false => rfl
    | true => exact absurd (.inr (.inr h)) hargs
  refine wp_guard h0 fun _ => ?_
  refine wp_lookup h0 fun mapped hceil => ?_
  obtain ⟨hmapped, -⟩ := pageCeil_spec hceil
  refine wp_guard h0 fun _ => wp_ite (fun _ => h0) fun _ => ?_
  refine wp_guard h0 fun _ => ?_
  refine wp_seq (h0.keeps Memfd.keeps_protect) ?_
  rintro _ t ⟨hst, -⟩
  refine wp_sure (protectMapping_shrinks hst.tidy haddr hmapped) ?_
  intro done u htu
  exact wp_ite (fun _ => hst.trans htu) fun _ => hst.trans htu

/-- A part that only shrinks the table does so with the clean-up that follows its failure. -/
lemma orUnmap_shrinks {α} {m : VmM α} {bytes : Nat} (h : ends m (Shrinks s) s) :
    ends (orUnmap pid base bytes m) (Shrinks s) s := by
  unfold orUnmap ends
  rw [wp_try]
  refine wp_mono h (fun _ _ ht => wp_pure.mpr ht) ?_
  intro e t hst
  simp only
  rw [wp_try]
  exact wp_mono (sysMunmap_shrinks hst.tidy) (fun _ _ h => hst.trans h.1) (fun _ _ => hst.trans)

end Shrinks

/-! ### What Alpha grants -/

section Grants

variable {s t u : VmRuntime} {pid base size : Nat}

/-- A later state of a call that has the same table: requests were made, and pages were added. -/
structure Later (s t : VmRuntime) : Prop where
  record : record t = record s
  answers : ∀ a ∈ t.answers, a ∈ s.answers
  backed : ∀ x, s.backed x = true → t.backed x = true

lemma Later.refl : Later s s := ⟨rfl, fun _ => id, fun _ => id⟩

lemma Later.recorded (h : Later s t) {x} : t.Recorded x ↔ s.Recorded x := recorded_of_record h.record

lemma Later.unbacked (h : Later s t) {x} (hx : t.backed x = false) : s.backed x = false := by
  cases hs : s.backed x with
  | false => rfl
  | true => rw [h.backed x hs] at hx; cases hx

lemma Later.tasks (h : Later s t) : t.tasks = s.tasks := (Prod.mk.inj h.record).1

lemma nextAnswer_later :
    sure nextAnswer (fun a t => Later s t ∧ ((∃ e f, a = .refused e f) ∨ a ∈ s.answers)) s := by
  refine ⟨⟨rfl, fun a ha => List.mem_of_mem_tail ha, fun _ => id⟩, ?_⟩
  cases s.answers with
  | nil => exact .inl ⟨_, _, rfl⟩
  | cons a l => exact .inr List.mem_cons_self

lemma mapPages_later {which} (h : Later s t) : Later s (mapPages which t) where
  record := h.record
  answers := h.answers
  backed := by
    intro x hx
    have := h.backed x hx
    unfold VmRuntime.backed at this ⊢
    simp [mapPages, this]

lemma request_later : ends request (Later s) s := by
  refine wp_sure nextAnswer_later ?_
  rintro a t ⟨h, -⟩
  cases a with
  | refused | granted | values | done => exact h

lemma requestProcessMappingProtect_later {prot} :
    ends (requestProcessMappingProtect base size prot) (Later s) s :=
  wp_ite (fun _ => wp_throw.mpr Later.refl) (fun _ => request_later)

/-- Alpha has granted a range: it mapped nothing there, and it maps it now. -/
structure Granted (s t : VmRuntime) (base size : Nat) : Prop where
  later : Later s t
  base_aligned : pageSize ∣ base
  answer : .granted base size ∈ s.answers
  free : ∀ x, base ≤ x → x < base + alignUpWord size → s.backed x = false
  mapped : ∀ x, base ≤ x → x < base + alignUpWord size → t.backed x = true

lemma backed_of_pageFree {n x} (hb : pageSize ∣ base) (hn : pageSize ∣ n)
    (h : s.pageFree base n = true) (hx : base ≤ x) (hx' : x < base + n) : s.backed x = false := by
  unfold pageFree at h
  rw [List.all_eq_true] at h
  obtain ⟨k, rfl⟩ := hb
  obtain ⟨j, rfl⟩ := hn
  have hk : pageSize * k / pageSize = k := Nat.mul_div_cancel_left k (by decide)
  have hj : pageSize * j / pageSize = j := Nat.mul_div_cancel_left j (by decide)
  rw [hk, hj] at h
  have hq : x / pageSize = k + (x / pageSize - k) ∧ x / pageSize - k < j := by
    unfold pageSize pageBits at hx hx' ⊢
    omega
  have := h (x / pageSize - k) (List.mem_range.mpr hq.2)
  rw [← hq.1] at this
  unfold VmRuntime.backed
  simpa using this

lemma inRange_of_mem {n x} (hb : pageSize ∣ base) (hn : pageSize ∣ n) (hx : base ≤ x)
    (hx' : x < base + n) : inRange base n (x / pageSize) = true := by
  obtain ⟨k, rfl⟩ := hb
  obtain ⟨j, rfl⟩ := hn
  unfold inRange
  unfold pageSize pageBits at hx hx' ⊢
  simp only [Bool.and_eq_true, decide_eq_true_eq]
  omega

lemma granted_of_free {granted} (h : Later s t) (ha : .granted base granted ∈ s.answers)
    (hal : unaligned base = false) (hfree : t.pageFree base (alignUpWord granted) = true) :
    Granted s (mapPages (inRange base (alignUpWord granted)) t) base granted where
  later := mapPages_later h
  base_aligned := dvd_of_aligned hal
  answer := ha
  free := by
    intro x hx hx'
    exact h.unbacked (backed_of_pageFree (dvd_of_aligned hal) (alignUpWord_dvd _) hfree hx hx')
  mapped := by
    intro x hx hx'
    have := inRange_of_mem (dvd_of_aligned hal) (alignUpWord_dvd _) hx hx'
    unfold VmRuntime.backed
    simp [mapPages, this]

lemma grant_spec {requested} :
    wp (grant requested size) (fun r t => Granted s t r.1 r.2 ∧ r.2 = size) (fun _ => Later s) s := by
  refine wp_sure nextAnswer_later ?_
  rintro a t ⟨h, hmem⟩
  cases a with
  | refused e touched =>
    simp only
    exact mapPages_later h
  | granted base granted =>
    have hmem := hmem.resolve_left fun ⟨_, _, he⟩ => nomatch he
    simp only
    refine wp_ite ?_ fun _ => h
    rintro ⟨-, hal, rfl, -, hfree⟩
    exact ⟨granted_of_free h hmem hal hfree, rfl⟩
  | values => exact h
  | done => exact h

/-- A request for anonymous memory of a task of this address space is granted in whole pages, or it
fails. -/
lemma requestProcessMapAnonymous_spec {requested} :
    wp (requestProcessMapAnonymous pid requested size)
      (fun r t => Later s t ∧ pageSize ∣ r.2 ∧ r.2 < wordSize ∧ size ≤ r.2 ∧
        (pageSize ∣ size → r.2 = size) ∧
        (pid ∈ s.tasks → Granted s t r.1 r.2))
      (fun _ => Later s) s := by
  refine wp_guard .refl fun _ => wp_lookup .refl fun mapped hceil => ?_
  obtain ⟨hdvd, hle, hlt, hsame⟩ := pageCeil_spec hceil
  apply wp_ite
  · intro _
    refine wp_post grant_spec ?_
    rintro ⟨base, granted⟩ t ⟨h, rfl⟩
    exact ⟨h.later, hdvd, hlt, hle, hsame, fun _ => h⟩
  · intro hno
    refine wp_seq request_later ?_
    intro _ t h
    exact ⟨h, hdvd, hlt, hle, hsame, fun hin => absurd hin hno⟩

end Grants

/-! ### Inside a call -/

section Grown

variable {P : Nat → Prop} {s₀ s t u : VmRuntime} {pid base size prot : Nat}

/-- The table inside a call that has begun in `s₀`: it is tidy, what is recorded was recorded before or
has been entered, and what has been entered is allowed by `P`. -/
structure Grown (P : Nat → Prop) (s₀ s : VmRuntime) : Prop where
  tidy : Tidy s.mappings.entries
  recorded : ∀ x, s.Recorded x → s₀.Recorded x ∨ ∃ r ∈ s.placed, x ∈ pagesOf r
  allowed : ∀ r ∈ s.placed, ∀ x ∈ pagesOf r, P x

/-- Where Alpha may still grant memory, nothing is recorded and everything is allowed. -/
def Open (P : Nat → Prop) (s : VmRuntime) : Prop :=
  ∀ base size, .granted base size ∈ s.answers → ∀ x, base ≤ x → x < base + alignUpWord size →
    s.backed x = false → ¬s.Recorded x ∧ P x

def Unclaimed (P : Nat → Prop) (s : VmRuntime) : Prop := ∀ x, ¬s.Recorded x → P x

lemma Grown.shrinks (h : Grown P s₀ s) (hs : Shrinks s t) : Grown P s₀ t where
  tidy := hs.tidy
  recorded := by
    intro x hx
    rw [hs.placed]
    exact h.recorded x (hs.recorded x hx)
  allowed := by
    rw [hs.placed]
    exact h.allowed

lemma Grown.later (h : Grown P s₀ s) (hl : Later s t) : Grown P s₀ t :=
  h.shrinks (shrinks_of_record h.tidy hl.record)

lemma Open.later (h : Open P s) (hl : Later s t) : Open P t := by
  intro base size ha x hx hx' hb
  obtain ⟨h1, h2⟩ := h base size (hl.answers _ ha) x hx hx' (hl.unbacked hb)
  exact ⟨fun hr => h1 (hl.recorded.mp hr), h2⟩

lemma Unclaimed.keeps (h : Unclaimed P s) (e : record t = record s) : Unclaimed P t := by
  intro x hx
  exact h x fun hr => hx ((recorded_of_record e).mpr hr)

lemma Grown.keeps {α} {m : VmM α} (h : Grown P s₀ s) (hm : Keeps m) :
    wp m (fun _ t => Grown P s₀ t ∧ record t = record s) (fun _ => Grown P s₀) s :=
  wp_mono (hm s) (fun _ _ e => ⟨h.shrinks (shrinks_of_record h.tidy e), e⟩)
    (fun _ _ e => h.shrinks (shrinks_of_record h.tidy e))

lemma Grown.of_ends {α} {m : VmM α} (h : Grown P s₀ s) (hm : ends m (Shrinks s) s) :
    ends m (Grown P s₀) s :=
  ends_mono hm fun _ => h.shrinks

lemma Grown.munmap {addr len : Nat} (h : Grown P s₀ s) :
    ends (sysMunmap pid addr len) (Grown P s₀) s :=
  wp_mono (sysMunmap_shrinks h.tidy) (fun _ _ hs => h.shrinks hs.1) (fun _ _ => h.shrinks)

/-- What a call enters into the table. -/
structure Entered (s t : VmRuntime) (base size : Nat) : Prop where
  recorded : ∀ x, t.Recorded x → s.Recorded x ∨ base ≤ x ∧ x < base + size
  answers : t.answers = s.answers
  pages : t.pages = s.pages

lemma addMapping_grown (h : Grown P s₀ s)
    (hrange : pid ∈ s.tasks → pageSize ∣ base ∧ pageSize ∣ size ∧
      ∀ x, base ≤ x → x < base + size → ¬s.Recorded x ∧ P x) :
    sure (addMapping pid base size prot)
      (fun done t => Grown P s₀ t ∧
        (done = true → Entered s t base size ∧ pid ∈ s.tasks) ∧ (done = false → t = s)) s := by
  unfold addMapping onTable sure
  rw [wp_bind]
  apply wp_ite
  · intro hm
    obtain ⟨hb, hs, hfree⟩ := hrange hm
    rw [wp_write, wp_pure]
    have ha := @MappingTable.addMapping_spec s.mappings base size prot h.tidy hb hs
      (fun x hx hx' => (hfree x hx hx').1)
    cases hd : (s.mappings.addMapping base size prot).1 with
    | false =>
      rw [if_neg Bool.false_ne_true, ha.same hd]
      exact ⟨h, nofun, fun _ => rfl⟩
    | true =>
      have hcover := ha.cover hd
      have hrec : ∀ x, 0 < coverOf (s.mappings.addMapping base size prot).2.entries x →
          s.Recorded x ∨ base ≤ x ∧ x < base + size := by
        intro x hx
        rw [hcover x] at hx
        by_cases hin : base ≤ x ∧ x < base + size
        · exact .inr hin
        · have h0 : ind base size x = 0 := if_neg hin
          left
          unfold Recorded MappingTable.Recorded
          omega
      refine ⟨⟨ha.tidy, ?_, ?_⟩, fun _ => ⟨⟨hrec, rfl, rfl⟩, hm⟩, nofun⟩
      · intro x hx
        rcases hrec x hx with hold | hin
        · rcases h.recorded x hold with h1 | ⟨r, hr, hxr⟩
          · exact .inl h1
          · exact .inr ⟨r, List.mem_cons_of_mem _ hr, hxr⟩
        · exact .inr ⟨(base, size), List.mem_cons_self, hin⟩
      · exact List.forall_mem_cons.mpr ⟨fun x hx => (hfree x hx.1 hx.2).2, h.allowed⟩
  · intro hm
    exact ⟨h, nofun, fun _ => rfl⟩

lemma Granted.range (hg : Granted s t base size) (ho : Open P s) :
    pageSize ∣ base ∧ pageSize ∣ alignUpWord size ∧
      ∀ x, base ≤ x → x < base + alignUpWord size → ¬t.Recorded x ∧ P x := by
  refine ⟨hg.base_aligned, alignUpWord_dvd _, ?_⟩
  intro x hx hx'
  obtain ⟨h1, h2⟩ := ho base size hg.answer x hx hx' (hg.free x hx hx')
  exact ⟨fun hr => h1 (hg.later.recorded.mp hr), h2⟩

lemma Open.entered (ho : Open P s) (hg : Granted s t base size)
    (he : Entered t u base (alignUpWord size)) : Open P u := by
  intro b n ha x hx hx' hb
  have hbt : t.backed x = false := by
    unfold VmRuntime.backed at hb ⊢
    rwa [he.pages] at hb
  obtain ⟨h1, h2⟩ := ho.later hg.later b n (he.answers ▸ ha) x hx hx' hbt
  refine ⟨?_, h2⟩
  intro hr
  rcases he.recorded x hr with hr | hin
  · exact h1 hr
  · rw [hg.mapped x hin.1 hin.2] at hbt
    cases hbt

lemma mapAnonymousTracked_grown {len : Nat} (h : Grown P s₀ s) (ho : Open P s) :
    wp (mapAnonymousTracked pid len prot) (fun r t => Grown P s₀ t ∧ Open P t ∧ pageSize ∣ r.1)
      (fun _ => Grown P s₀) s := by
  refine wp_then requestProcessMapAnonymous_spec ?_ (fun _ _ => h.later)
  rintro ⟨base, mapped⟩ t ⟨hl, hdvd, hword, -, -, hg⟩
  simp only
  have hup : alignUpWord mapped = mapped := alignUpWord_of_dvd hdvd hword
  refine wp_sure (addMapping_grown (h.later hl) ?_) ?_
  · intro hin
    have := (hg (hl.tasks ▸ hin)).range ho
    rwa [hup] at this
  rintro done u ⟨hgu, htrue, hfalse⟩
  apply wp_ite
  · intro hdone
    obtain ⟨he, hin⟩ := htrue hdone
    have hgr := hg (hl.tasks ▸ hin)
    have hou : Open P u := ho.entered hgr (hup.symm ▸ he)
    rw [wp_try]
    refine wp_mono requestProcessMappingProtect_later ?_ ?_
    · intro _ v hlv
      exact ⟨hgu.later hlv, hou.later hlv, hgr.base_aligned⟩
    · intro e v hlv
      simp only
      rw [wp_try]
      exact (hgu.later hlv).munmap
  · intro _
    refine wp_seq (hgu.keeps keeps_requestProcessMappingRelease) ?_
    intro _ v hv
    exact wp_throw.mpr hv.1

lemma sysBrk_grown {requested} (h : Grown P s₀ s) (ho : Open P s) :
    ends (sysBrk pid requested) (Grown P s₀) s := by
  unfold sysBrk ends
  refine wp_guard h fun _ => ?_
  rw [wp_bind]
  -- the first call gives the guest a page, which leaves Alpha's grants open
  have hopen : wp (openBreak pid) (fun _ t => Grown P s₀ t ∧ Open P t) (fun _ => Grown P s₀) s := by
    rw [openBreak, wp_read]
    refine wp_ite (fun _ => ?_) fun _ => ⟨h, ho⟩
    refine wp_seq (mapAnonymousTracked_grown h ho) ?_
    rintro ⟨base, mapped⟩ t ⟨hg, hot, -⟩
    exact ⟨⟨hg.tidy, hg.recorded, hg.allowed⟩, hot⟩
  refine wp_post hopen ?_
  rintro _ t ⟨hg, hot⟩
  refine wp_ite (fun _ => hg) fun _ => wp_ite (fun _ => ?_) fun _ => ?_
  · refine wp_seq (mapAnonymousTracked_grown hg hot) ?_
    rintro ⟨base, mapped⟩ u ⟨hgu, -, -⟩
    refine wp_ite (fun _ => hgu) fun _ => ?_
    exact ⟨hgu.tidy, hgu.recorded, hgu.allowed⟩
  · exact ⟨hg.tidy, hg.recorded, hg.allowed⟩

end Grown
end VmRuntime
end Nanami.Alter

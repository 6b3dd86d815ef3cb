import Nanami.Alter.MappingCalls

/-!
# Runs of memory calls

The recorded mappings of a guest over any sequence of memory calls of its tasks.

Alpha grants memory where it maps nothing. A record can have no page behind it: a reservation without
access has none. So what Alpha grants may be recorded already, and then the records overlap
(`grow_overlaps_reservation`). The runs in which this does not happen keep the mappings apart.
-/

namespace Nanami.Alter
open Nanami.Lib
namespace VmRuntime

inductive Call where
  | mmap (pid addr len prot flags fd offset : Nat)
  | munmap (pid addr len : Nat)
  | mprotect (pid addr len prot : Nat)
  | mremap (pid oldAddr oldSize newSize flags newAddr : Nat)
  | brk (pid requested : Nat)

def Call.serve : Call → VmM Nat
  | mmap pid addr len prot flags fd offset => sysMmap pid addr len prot flags fd offset
  | munmap pid addr len => sysMunmap pid addr len
  | mprotect pid addr len prot => sysMprotect pid addr len prot
  | mremap pid oldAddr oldSize newSize flags newAddr =>
    sysMremap pid oldAddr oldSize newSize flags newAddr
  | brk pid requested => sysBrk pid requested

def Call.fixed : Call → Prop
  | mmap _ _ _ _ flags _ _ => flags &&& linuxMapFixed ≠ 0
  | mremap _ _ _ _ flags _ => flags &&& linuxMremapFixed ≠ 0
  | _ => False

/-- The call leaves it to Alpha where memory goes, or asks for memory next to a mapping. -/
def Call.placesFreely : Call → Prop
  | mmap _ addr _ _ flags _ _ => ¬FixedAt addr flags
  | mremap _ _ _ _ flags _ => flags &&& linuxMremapFixed = 0
  | brk _ _ => True
  | _ => False

/-- What happens to a guest: a memory call with the answers to its requests, or anything else, which
leaves the table and the break as they are. -/
inductive Event where
  | call (c : Call) (answers : List Answer)
  | others (t : VmRuntime)

def step (s : VmRuntime) : Event → VmRuntime
  | .call c answers => stateAfter c.serve { s with answers := answers, placed := [] }
  | .others t =>
    { t with
      mappings := s.mappings
      programBreak := s.programBreak
      mappedBreak := s.mappedBreak
      placed := [] }

def run : VmRuntime → List Event → VmRuntime
  | s, [] => s
  | s, e :: es => run (step s e) es

/-- Nothing that Alpha grants to the call is recorded without a page behind it. -/
def Avoids (s : VmRuntime) : Event → Prop
  | .call c answers => c.placesFreely →
    ∀ base size, .granted base size ∈ answers → ∀ x, base ≤ x → x < base + alignUpWord size →
      s.Recorded x → s.backed x = true
  | .others _ => True

/-- Every call of the run is granted nothing that is recorded without a page behind it. -/
def Careful : VmRuntime → List Event → Prop
  | _, [] => True
  | s, e :: es => Avoids s e ∧ Careful (step s e) es

/-- The recorded mappings are pairwise disjoint, page aligned and not empty. -/
def Apart (s : VmRuntime) : Prop :=
  s.mappings.entries.Pairwise (fun m n => Disjoint (pagesOf m.range) (pagesOf n.range)) ∧
    ∀ m ∈ s.mappings.entries, pageSize ∣ m.base ∧ pageSize ∣ m.size ∧ m.size ≠ 0

/-- What is recorded after a step was recorded before or has been entered, and a call without a fixed
address enters nothing that was recorded. -/
def Respects (s : VmRuntime) (e : Event) : Prop :=
  (∀ x, (step s e).Recorded x → s.Recorded x ∨ ∃ r ∈ (step s e).placed, x ∈ pagesOf r) ∧
    ∀ c answers, e = .call c answers → ¬c.fixed →
      ∀ r ∈ (step s e).placed, ∀ x ∈ pagesOf r, ¬s.Recorded x

lemma apart_of_tidy {s} (h : Tidy s.mappings.entries) : Apart s := by
  refine ⟨?_, fun m hm => ?_⟩
  · have := pairwise_disjoint_of_cover h.disjoint
    rwa [List.pairwise_map] at this
  · have hwf := h.wellFormed m hm
    exact ⟨hwf.base_aligned, hwf.size_aligned, hwf.size_ne⟩

section Runs

variable {P : Nat → Prop} {s : VmRuntime}

/-- Whatever a call may enter, it leaves the table grown by that. -/
lemma serve_grown {c answers} (ht : Tidy s.mappings.entries) (hu : Unclaimed P s)
    (hfix : c.fixed → ∀ x, P x)
    (ho : c.placesFreely → Open P { s with answers := answers, placed := [] }) :
    Grown P s (step s (.call c answers)) := by
  have h0 : Grown P s { s with answers := answers, placed := [] } :=
    ⟨ht, fun _ hx => .inl hx, nofun⟩
  have hu0 : Unclaimed P { s with answers := answers, placed := [] } := hu
  apply stateAfter_of_wp
  cases c with
  | mmap pid addr len prot flags fd offset => exact sysMmap_grown h0 hu0 (fun hf => hfix hf.2) ho
  | munmap pid addr len =>
    exact wp_mono (sysMunmap_shrinks h0.tidy) (fun _ _ hs => h0.shrinks hs.1) (fun _ _ => h0.shrinks)
  | mprotect pid addr len prot =>
    exact ends_mono (sysMprotect_shrinks h0.tidy) fun _ => h0.shrinks
  | mremap pid oldAddr oldSize newSize flags newAddr => exact sysMremap_grown h0 hu0 hfix ho
  | brk pid requested => exact sysBrk_grown h0 (ho trivial)

lemma open_of_avoids {c answers} (h : Avoids s (.call c answers)) (hu : Unclaimed P s) :
    c.placesFreely → Open P { s with answers := answers, placed := [] } := by
  intro hfree base size ha x hx hx' hb
  have hno : ¬s.Recorded x := by
    intro hr
    have := h hfree base size ha x hx hx' hr
    rw [show s.backed x = false from hb] at this
    cases this
  exact ⟨hno, hu x hno⟩

lemma step_respects {e} (ht : Tidy s.mappings.entries) (ha : Avoids s e) :
    Tidy (step s e).mappings.entries ∧ Respects s e := by
  cases e with
  | others t => exact ⟨ht, fun x hx => .inl hx, nofun⟩
  | call c answers =>
    have hall := serve_grown (P := fun _ => True) ht (fun _ _ => trivial) (fun _ _ => trivial)
      (open_of_avoids ha fun _ _ => trivial)
    refine ⟨hall.tidy, hall.recorded, ?_⟩
    intro c' answers' he hfixed
    cases he
    have hu : Unclaimed (fun x => ¬s.Recorded x) s := fun _ => id
    exact (serve_grown ht hu (fun hf => absurd hf hfixed) (open_of_avoids ha hu)).allowed

lemma run_tidy {es} (ht : Tidy s.mappings.entries) (hc : Careful s es) :
    Tidy (run s es).mappings.entries := by
  induction es generalizing s with
  | nil => exact ht
  | cons e es ih => exact ih (step_respects ht hc.1).1 hc.2

lemma careful_append {before after} (hc : Careful s (before ++ after)) :
    Careful s before ∧ Careful (run s before) after := by
  induction before generalizing s with
  | nil => exact ⟨trivial, hc⟩
  | cons e before ih =>
    obtain ⟨h1, h2⟩ := ih hc.2
    exact ⟨⟨hc.1, h1⟩, h2⟩

end Runs

/-- In every run whose calls are granted nothing that is recorded without a page behind it, the recorded
mappings stay apart, and no call without a fixed address covers an address that was recorded. -/
theorem mappings_stay_apart (s : VmRuntime) (ht : Tidy s.mappings.entries) (es : List Event)
    (hc : Careful s es) :
    Apart (run s es) ∧
      ∀ before e after, es = before ++ e :: after → Respects (run s before) e := by
  refine ⟨apart_of_tidy (run_tidy ht hc), ?_⟩
  rintro before e after rfl
  obtain ⟨h1, h2⟩ := careful_append hc
  exact (step_respects (run_tidy ht h1) h2.1).2

def freshGuest : VmRuntime where
  tasks := [7]
  mappings := ⟨true, []⟩
  programBreak := 0
  mappedBreak := 0
  linuxFile := fun _ => none
  rings := fun _ => none
  objects := []
  nextId := 1
  referenced := fun _ => false
  graphics := []
  posixShmSize := 0x10000
  posixReadBufferSize := 0x10000
  heap := true
  pages := fun _ => false
  answers := []
  placed := []

lemma freshGuest_tidy : Tidy freshGuest.mappings.entries := ⟨nofun, fun _ => Nat.zero_le _, Nat.zero_le _⟩

/-- Two pages without access, and the first of them made usable. -/
def reservedPages : List Event :=
  [.call (.mmap 7 0 8192 linuxProtNone 0x22 0 0) [],
    .call (.mmap 7 0x100000000 4096 3 0x32 0 0) [.done, .granted 0x100000000 4096, .done]]

/-- The first page is grown into the second, where Alpha maps nothing. -/
def growingPage : Event := .call (.mremap 7 0x100000000 4096 8192 0 0) [.granted 0x100001000 4096, .done]

/-- A page that Alpha places. -/
def placedPage : Event := .call (.mmap 7 0 4096 3 0x22 0 0) [.granted 0x200000 4096]

/-- A fixed page over a reservation, and a page where Alpha places it. -/
theorem mappings_stay_apart_placed :
    (run freshGuest (reservedPages ++ [placedPage])).mappings.entries =
        [⟨0x100001000, 4096, 0⟩, ⟨0x100000000, 4096, 3⟩, ⟨0x200000, 4096, 3⟩] ∧
      Apart (run freshGuest (reservedPages ++ [placedPage])) ∧
      ∀ before e after, reservedPages ++ [placedPage] = before ++ e :: after →
        Respects (run freshGuest before) e := by
  refine ⟨by decide +kernel, mappings_stay_apart freshGuest freshGuest_tidy _ ⟨?_, ?_, ?_, trivial⟩⟩
  · intro _ base size ha
    cases ha
  · intro hfree
    exact absurd ⟨by decide, by decide⟩ hfree
  · intro _ base size ha x hx hx' hr
    obtain ⟨rfl, rfl⟩ : base = 0x200000 ∧ size = 4096 := by simpa using ha
    have he : (run freshGuest reservedPages).mappings.entries =
        [⟨0x100001000, 4096, 0⟩, ⟨0x100000000, 4096, 3⟩] := by decide +kernel
    have hr : 0 < coverOf (run freshGuest reservedPages).mappings.entries x := hr
    rw [he] at hr
    obtain ⟨m, hm, h1, -⟩ := coverOf_pos.mp hr
    have hlow : ∀ m ∈ [⟨0x100001000, 4096, 0⟩, (⟨0x100000000, 4096, 3⟩ : ProcessMapping)],
        0x201000 ≤ m.base := by decide
    exact absurd (hx'.trans_le (hlow m hm)) (Nat.not_lt.mpr h1)

/-- Growing a mapping in place covers the reservation behind it: both records stay. -/
theorem grow_overlaps_reservation :
    (run freshGuest (reservedPages ++ [growingPage])).mappings.entries =
        [⟨0x100001000, 4096, 0⟩, ⟨0x100000000, 8192, 3⟩] ∧
      ¬Apart (run freshGuest (reservedPages ++ [growingPage])) ∧
      ¬Respects (run freshGuest reservedPages) growingPage := by
  have he : (run freshGuest (reservedPages ++ [growingPage])).mappings.entries =
      [⟨0x100001000, 4096, 0⟩, ⟨0x100000000, 8192, 3⟩] := by decide +kernel
  refine ⟨he, ?_, ?_⟩
  · rintro ⟨hd, -⟩
    rw [he] at hd
    have := List.rel_of_pairwise_cons hd List.mem_cons_self
    have hboth : 0x100001000 ∈ pagesOf (0x100001000, 4096) ∧ 0x100001000 ∈ pagesOf (0x100000000, 8192) :=
      ⟨⟨by decide, by decide⟩, ⟨by decide, by decide⟩⟩
    exact Set.disjoint_left.mp this hboth.1 hboth.2
  · rintro ⟨-, h⟩
    have hp : (0x100001000, 4096) ∈ (step (run freshGuest reservedPages) growingPage).placed := by
      decide +kernel
    have hfree : ¬(Call.mremap 7 0x100000000 4096 8192 0 0).fixed := fun hf => hf (by decide)
    apply h _ _ rfl hfree _ hp 0x100001000 ⟨by decide, by decide⟩
    show 0 < coverOf (run freshGuest reservedPages).mappings.entries 0x100001000
    decide +kernel

end VmRuntime
end Nanami.Alter

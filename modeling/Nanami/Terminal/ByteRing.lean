import Nanami.Lib.Machine
import Nanami.Lib.Ring

/-!
# The byte rings of the terminal service

`ByteRing` of `terminal-service`, which holds what was typed and what is to be shown. Its calls are
compared with calls on a plain queue of at most `RING_BYTES` bytes.
-/

namespace Nanami.Terminal

open Lib List Function

def ringBytes : Nat := 4096

def carriageReturn : UInt8 := 13
def lineFeed : UInt8 := 10

structure ByteRing where
  buffer : Nat → UInt8
  read : Nat
  write : Nat
  len : Nat

def controlAt (controls : List UInt8) (byte : UInt8) : Option Nat :=
  controls.findIdx? fun value => value != 0 && value == byte

/-- What the loop of `take_controls` changes. -/
structure Sweep where
  buffer : Nat → UInt8
  kept : Nat
  events : Nat

namespace ByteRing

def empty : ByteRing := ⟨fun _ => 0, 0, 0, 0⟩

def push (s : ByteRing) (byte : UInt8) : Bool × ByteRing :=
  if s.len ≥ ringBytes then (false, s)
  else
    (true, { s with
      buffer := update s.buffer s.write byte
      write := (s.write + 1) % ringBytes
      len := s.len + 1 })

def writeFrom (s : ByteRing) (source : List UInt8) : Nat × ByteRing :=
  let count := min source.length (ringBytes - s.len)
  if count = 0 then (0, s)
  else
    (count, { s with
      buffer := Ring.copyAround ringBytes s.buffer s.write (source.take count)
      write := (s.write + count) % ringBytes
      len := s.len + count })

/-- The loop of `write_crlf`, over what stands between the line feeds. -/
def writeLines (s : ByteRing) : List (List UInt8) → Nat × ByteRing
  | [] => (0, s)
  | line :: lines =>
    let copied := s.writeFrom line
    if copied.1 < line.length ∨ lines = [] then copied
    else if ringBytes - copied.2.len < 2 then copied
    else
      let rest := writeLines ((copied.2.push carriageReturn).2.push lineFeed).2 lines
      (copied.1 + 1 + rest.1, rest.2)

def writeCrlf (s : ByteRing) (source : List UInt8) : Nat × ByteRing :=
  s.writeLines (source.splitOn lineFeed)

/-- `read_into`, with the bytes that it copies out. -/
def readInto (s : ByteRing) (count : Nat) : List UInt8 × ByteRing :=
  let count := min count s.len
  if count = 0 then ([], s)
  else
    let first := min count (ringBytes - s.read)
    (Ring.copyOut s.buffer s.read first ++ Ring.copyOut s.buffer 0 (count - first),
      { s with read := (s.read + count) % ringBytes, len := s.len - count })

def clear (s : ByteRing) : ByteRing := { s with read := 0, write := 0, len := 0 }

def sweep (s : ByteRing) (controls : List UInt8) (flush : Bool) (w : Sweep) (offset : Nat) : Sweep :=
  let byte := w.buffer ((s.read + offset) % ringBytes)
  match controlAt controls byte with
  | some index =>
    { w with events := w.events ||| 1 <<< index, kept := if flush then 0 else w.kept }
  | none =>
    { w with buffer := update w.buffer ((s.read + w.kept) % ringBytes) byte, kept := w.kept + 1 }

def takeControls (s : ByteRing) (controls : List UInt8) (flush : Bool) : Nat × ByteRing :=
  let w := (range s.len).foldl (s.sweep controls flush) ⟨s.buffer, 0, 0⟩
  (w.events, { s with buffer := w.buffer, len := w.kept, write := (s.read + w.kept) % ringBytes })

end ByteRing

/-! ### Queues -/

def expand (source : List UInt8) : List UInt8 :=
  source.flatMap fun byte => if byte = lineFeed then [carriageReturn, lineFeed] else [byte]

/-- The length of the longest part of the source whose expansion has room behind a queue. -/
def fitting (q source : List UInt8) : Nat :=
  Nat.findGreatest (fun n => (q ++ expand (source.take n)).length ≤ ringBytes) source.length

/-- The bytes that are no controls; only those behind the last control when flushing. -/
def retained (controls : List UInt8) (flush : Bool) (q : List UInt8) : List UInt8 :=
  let plain := fun byte => (controlAt controls byte).isNone
  if flush then q.rtakeWhile plain else q.filter plain

def eventBits (controls q : List UInt8) : Nat :=
  (q.filterMap (controlAt controls)).foldl (fun bits index => bits ||| 1 <<< index) 0

/-- The rings that calls lead to, with the bytes that are in a queue after the same calls. -/
inductive Reached : ByteRing → List UInt8 → Prop where
  | empty : Reached .empty []
  | push {s q} byte : Reached s q →
    Reached (s.push byte).2 (if (s.push byte).1 then q ++ [byte] else q)
  | write {s q} source : Reached s q →
    Reached (s.writeFrom source).2 (q ++ source.take (s.writeFrom source).1)
  | writeCrlf {s q} source : Reached s q →
    Reached (s.writeCrlf source).2 (q ++ expand (source.take (s.writeCrlf source).1))
  | read {s q} count : Reached s q →
    Reached (s.readInto count).2 (q.drop (s.readInto count).1.length)
  | clear {s q} : Reached s q → Reached s.clear []
  | takeControls {s q} controls flush : Reached s q →
    Reached (s.takeControls controls flush).2 (retained controls flush q)

/-- The ring answers as a queue of at most `RING_BYTES` bytes. -/
structure Answers (s : ByteRing) (q : List UInt8) : Prop where
  bounded : q.length ≤ ringBytes
  push : ∀ byte, (s.push byte).1 = decide (q.length < ringBytes)
  write : ∀ source, (s.writeFrom source).1 = min source.length (ringBytes - q.length)
  writeCrlf : ∀ source, (s.writeCrlf source).1 = fitting q source
  read : ∀ count, (s.readInto count).1 = q.take count
  events : ∀ controls flush, (s.takeControls controls flush).1 = eventBits controls q

/-- The ring holds the bytes of a queue. -/
structure Holds (s : ByteRing) (q : List UInt8) : Prop where
  read : s.read < ringBytes
  write : s.write = (s.read + s.len) % ringBytes
  room : s.len ≤ ringBytes
  bytes : Ring.contents ringBytes s.buffer s.read s.len = q

variable {s : ByteRing} {q : List UInt8}

namespace Holds

lemma length (h : Holds s q) : q.length = s.len := by
  rw [← h.bytes, Ring.length_contents]

lemma push (h : Holds s q) (byte : UInt8) : (s.push byte).1 = decide (q.length < ringBytes) ∧
    Holds (s.push byte).2 (if (s.push byte).1 then q ++ [byte] else q) := by
  rw [h.length, ByteRing.push]
  split
  case isTrue hfull => exact ⟨(decide_eq_false (by omega)).symm, h⟩
  case isFalse hroom =>
    refine ⟨(decide_eq_true (by omega)).symm, h.read, ?_, by simp only; omega, ?_⟩
    · simp [h.write, add_assoc]
    · simp only [h.write]
      rw [Ring.contents_append (by omega), h.bytes]
      rfl

lemma writeFrom (h : Holds s q) (source : List UInt8) :
    (s.writeFrom source).1 = min source.length (ringBytes - q.length) ∧
      Holds (s.writeFrom source).2 (q ++ source.take (s.writeFrom source).1) := by
  rw [h.length, ByteRing.writeFrom]
  split
  case isTrue hzero =>
    refine ⟨hzero.symm, ?_⟩
    rwa [take_zero, append_nil]
  case isFalse =>
    have hlen : (source.take (min source.length (ringBytes - s.len))).length =
        min source.length (ringBytes - s.len) := by simp
    have hpush := @Ring.contents_push _ ringBytes s.read s.len s.buffer
      (source.take (min source.length (ringBytes - s.len))) h.read (by omega)
    rw [hlen, h.bytes, ← h.write] at hpush
    refine ⟨rfl, h.read, ?_, by simp only; omega, hpush⟩
    simp [h.write, add_assoc]

lemma readInto (h : Holds s q) (count : Nat) :
    (s.readInto count).1 = q.take count ∧ Holds (s.readInto count).2 (q.drop count) := by
  have hroom := h.room
  have hmin : min count s.len ≤ s.len := min_le_right _ _
  rw [take_eq_take_min, drop_eq_drop_min, h.length, ByteRing.readInto]
  split
  case isTrue hzero =>
    rw [hzero]
    exact ⟨rfl, h⟩
  case isFalse =>
    rw [← h.bytes, Ring.take_contents hmin, Ring.drop_contents hmin]
    refine ⟨Ring.copyOut_around h.read (by omega), Nat.mod_lt _ (by decide), ?_, by simp only; omega, rfl⟩
    simp only [Nat.mod_add_mod, h.write]
    congr 1
    omega

end Holds

/-! ### Lines -/

/-- Of a source, `n` bytes are stored with their expansion, and the next one has no room. -/
structure Expands (q source : List UInt8) (n : Nat) (s : ByteRing) : Prop where
  le : n ≤ source.length
  holds : Holds s (q ++ expand (source.take n))
  full : n < source.length → ringBytes < (q ++ expand (source.take (n + 1))).length

namespace Expands

variable {source more : List UInt8} {n : Nat}

lemma stop (h : Expands q source n s) (hn : n < source.length) : Expands q (source ++ more) n s := by
  refine ⟨by simp; omega, ?_, fun _ => ?_⟩
  · rw [take_append_of_le_length h.le]
    exact h.holds
  · rw [take_append_of_le_length hn]
    exact h.full hn

lemma after (h : Expands (q ++ expand source) more n s) :
    Expands q (source ++ more) (source.length + n) s := by
  have htake : ∀ k, q ++ expand ((source ++ more).take (source.length + k)) =
      q ++ expand source ++ expand (more.take k) := fun k => by
    rw [take_length_add_append, expand, flatMap_append, append_assoc]
    rfl
  refine ⟨by simp [h.le], ?_, fun hlt => ?_⟩
  · rw [htake]
    exact h.holds
  · rw [add_assoc, htake]
    exact h.full (by simpa using hlt)

lemma line {line} (h : Holds s q) (hline : lineFeed ∉ line) :
    Expands q line (s.writeFrom line).1 (s.writeFrom line).2 := by
  obtain ⟨hn, hholds⟩ := h.writeFrom line
  have hplain : ∀ k, expand (line.take k) = line.take k := fun k => by
    refine Eq.trans (flatMap_congr fun byte hbyte => ?_) (flatMap_singleton' _)
    have hne : byte ≠ lineFeed := fun heq => hline (heq ▸ mem_of_mem_take hbyte)
    rw [if_neg hne]
  refine ⟨by omega, ?_, fun hlt => ?_⟩
  · rw [hplain]
    exact hholds
  · rw [hplain, length_append, length_take]
    omega

lemma noRoom (h : Holds s q) (hfull : ringBytes - s.len < 2) : Expands q [lineFeed] 0 s := by
  refine ⟨Nat.zero_le _, ?_, fun _ => ?_⟩
  · show Holds _ (_ ++ [])
    rwa [append_nil]
  · show _ < (_ ++ [carriageReturn, lineFeed]).length
    rw [length_append, h.length]
    show _ < _ + 2
    omega

/-- The loop stores whole expansions up to the first that has no room. -/
lemma lines {lines} (h : Holds s q) (hlines : ∀ line ∈ lines, lineFeed ∉ line) :
    Expands q ([lineFeed].intercalate lines) (s.writeLines lines).1 (s.writeLines lines).2 := by
  induction lines generalizing s q with
  | nil =>
    refine ⟨Nat.le_refl _, ?_, fun hlt => absurd hlt (Nat.lt_irrefl _)⟩
    show Holds _ (_ ++ [])
    rwa [append_nil]
  | cons first lines ih =>
    obtain ⟨hfirst, hlines⟩ := forall_mem_cons.mp hlines
    have hline := line h hfirst
    rw [ByteRing.writeLines]
    cases lines with
    | nil =>
      rw [if_pos (.inr rfl)]
      simpa using hline
    | cons next lines =>
      rw [intercalate_cons_cons, append_assoc]
      split
      case isTrue hstop =>
        exact hline.stop (hstop.resolve_right (cons_ne_nil _ _))
      case isFalse hgo =>
        have hall : (s.writeFrom first).1 = first.length := by
          have hle := hline.le
          omega
        have hholds := hline.holds
        rw [hall, take_length] at hholds
        have hlen := hholds.length
        split
        case isTrue hfull =>
          rw [hall]
          exact ((noRoom hholds hfull).stop Nat.zero_lt_one).after
        case isFalse hroom =>
          have hcr := (hholds.push carriageReturn).2
          rw [(hholds.push _).1, decide_eq_true (by omega), if_pos rfl] at hcr
          have hlf := (hcr.push lineFeed).2
          rw [(hcr.push _).1, decide_eq_true (by rw [length_append, length_singleton]; omega), if_pos rfl,
            append_assoc] at hlf
          change Holds _ (_ ++ expand [lineFeed]) at hlf
          have hrest := (after (ih hlf hlines)).after
          rwa [← add_assoc, ← hall] at hrest

lemma writeCrlf (h : Holds s q) : Expands q source (s.writeCrlf source).1 (s.writeCrlf source).2 := by
  have hlines := lines h fun line (hline : line ∈ source.splitOn lineFeed) => (mem_splitOn hline).1
  rwa [intercalate_splitOn] at hlines

lemma fitting_eq (h : Expands q source n s) : fitting q source = n := by
  refine Nat.findGreatest_eq_iff.mpr ⟨h.le, fun _ => ?_, fun k hk hle hfits => ?_⟩
  · rw [h.holds.length]
    exact h.holds.room
  · have hsplit : source.take k = source.take (n + 1) ++ (source.drop (n + 1)).take (k - (n + 1)) := by
      rw [← take_add, Nat.add_sub_of_le hk]
    have hfull := h.full (by omega)
    rw [hsplit, expand, flatMap_append, ← append_assoc, length_append] at hfits
    exact absurd (Nat.le_trans (Nat.le_add_right _ _) hfits) (Nat.not_le.mpr hfull)

end Expands

/-! ### Controls -/

variable {controls : List UInt8} {flush : Bool} {w : Sweep} {k : Nat}

/-- What the loop of `take_controls` has done after `k` bytes. -/
structure Swept (s : ByteRing) (controls : List UInt8) (flush : Bool) (q : List UInt8) (k : Nat)
    (w : Sweep) : Prop where
  le : w.kept ≤ k
  bytes : Ring.contents ringBytes w.buffer s.read w.kept = retained controls flush (q.take k)
  ahead : ∀ j, k ≤ j → j < ringBytes →
    w.buffer ((s.read + j) % ringBytes) = s.buffer ((s.read + j) % ringBytes)
  events : w.events = eventBits controls (q.take k)

lemma Swept.step (h : Holds s q) (hw : Swept s controls flush q k w) (hk : k < s.len) :
    Swept s controls flush q (k + 1) (s.sweep controls flush w k) := by
  have hroom := h.room
  obtain ⟨hle, hbytes, hahead, hevents⟩ := hw
  have hbyte : q.take (k + 1) = q.take k ++ [w.buffer ((s.read + k) % ringBytes)] := by
    rw [hahead k (Nat.le_refl _) (by omega), ← h.bytes, Ring.take_contents (n := k + 1) hk,
      Ring.take_contents hk.le, Ring.contents_add]
    simp [Ring.contents]
  simp only [ByteRing.sweep]
  generalize w.buffer ((s.read + k) % ringBytes) = byte at hbyte ⊢
  cases hc : controlAt controls byte with
  | some index =>
    refine ⟨by cases flush <;> simp; omega, ?_, fun j hj => hahead j (by omega), ?_⟩
    · rw [hbyte]
      cases flush <;> simp_all [retained]
    · simp [hbyte, eventBits, hc, hevents]
  | none =>
    refine ⟨Nat.succ_le_succ hle, ?_, fun j hj hlt => ?_, ?_⟩
    · rw [Ring.contents_append (by omega), hbyte, hbytes]
      cases flush <;> simp_all [retained]
    · show update _ _ _ _ = _
      rw [update_of_ne, hahead j (by omega) hlt]
      -- a byte that is kept goes to a cell that was read before
      intro heq
      have hmod : j ≡ w.kept [MOD ringBytes] := Nat.ModEq.add_left_cancel' s.read heq
      have := hmod.eq_of_lt_of_lt hlt (by omega)
      omega
    · simp [hbyte, eventBits, hc, hevents]

lemma Holds.takeControls (h : Holds s q) :
    (s.takeControls controls flush).1 = eventBits controls q ∧
      Holds (s.takeControls controls flush).2 (retained controls flush q) := by
  have hswept : ∀ k ≤ s.len, Swept s controls flush q k
      ((range k).foldl (s.sweep controls flush) ⟨s.buffer, 0, 0⟩) := by
    intro k hk
    induction k with
    | zero => exact ⟨Nat.le_refl _, by cases flush <;> rfl, fun _ _ _ => rfl, rfl⟩
    | succ k ih =>
      rw [range_succ, foldl_append]
      exact (ih (by omega)).step h hk
  obtain ⟨hle, hbytes, -, hevents⟩ := hswept s.len (Nat.le_refl _)
  rw [take_of_length_le h.length.le] at hbytes hevents
  exact ⟨hevents, h.read, rfl, hle.trans h.room, hbytes⟩

lemma Reached.holds (h : Reached s q) : Holds s q := by
  induction h with
  | empty => exact ⟨by decide, rfl, by decide, rfl⟩
  | push byte _ ih => exact (ih.push byte).2
  | write source _ ih => exact (ih.writeFrom source).2
  | writeCrlf source _ ih => exact (Expands.writeCrlf ih).holds
  | read count _ ih =>
    obtain ⟨hbytes, hholds⟩ := ih.readInto count
    rwa [hbytes, length_take, ← drop_eq_drop_min]
  | clear => exact ⟨(by decide : 0 < ringBytes), rfl, Nat.zero_le _, rfl⟩
  | takeControls controls flush _ ih => exact ih.takeControls.2

/-- After any calls a ring answers as the queue that the same calls give. -/
theorem ring_is_queue (h : Reached s q) : Answers s q := by
  have hholds := h.holds
  exact ⟨hholds.length ▸ hholds.room, fun byte => (hholds.push byte).1,
    fun source => (hholds.writeFrom source).1, fun source => (Expands.writeCrlf hholds).fitting_eq.symm,
    fun count => (hholds.readInto count).1, fun _ _ => hholds.takeControls.1⟩

/-- The ring was filled and read up to a byte near its end, where a line and a control are written. -/
def wrapped : ByteRing :=
  (((ByteRing.empty.writeFrom (replicate 4095 120)).2.readInto 4094).2.writeCrlf [97, 10, 3]).2

/-- What was written across the end of the ring is read back in order. -/
theorem ring_is_queue_wrapped : (wrapped.readInto 5).1 = [120, 97, 13, 10, 3] ∧
    (wrapped.takeControls [3, 0, 0] true).1 = 1 := by
  have hfull := Reached.empty.write (replicate 4095 120)
  rw [(ring_is_queue .empty).write, length_replicate, nil_append, take_replicate] at hfull
  have hread := hfull.read 4094
  rw [(ring_is_queue hfull).read, take_replicate, length_replicate, drop_replicate] at hread
  have hline := hread.writeCrlf [97, 10, 3]
  rw [(ring_is_queue hread).writeCrlf] at hline
  have hqueue := ring_is_queue hline
  exact ⟨hqueue.read 5, hqueue.events [3, 0, 0] true⟩

/-- Flushing drops the byte before the control as well. -/
theorem flush_drops_typed : let s := ((ByteRing.empty.push 97).2.push 3).2
    (s.takeControls [3, 0, 0] true).2.len = 0 ∧ (s.takeControls [3, 0, 0] false).2.len = 1 := by
  decide +kernel

end Nanami.Terminal

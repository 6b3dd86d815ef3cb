import Nanami.Alter.Files
import Nanami.Lib.Machine

/-!
# Collection of unix sockets

Model of the collection of unix sockets: the table of `common/state/unix_sockets.rs` with its marks, and
`collect` and `release_held` of `personality/linux/unix.rs`.

A socket stays if a file table refers to it, or the accept queue or a queued right of a socket that
stays; a peer does not retain a socket. The marks are found by passes over the table until a pass marks
nothing. What the sweep asks of the rest of the runtime is recorded in the order of the calls.
-/

namespace Nanami.Alter.Unix
open Nanami.Lib List

structure Packet where
  data : List UInt8
  offset : Nat
  rights : List LinuxFile

structure Socket where
  id : Nat
  inodePin : Option Nat
  peer : Option Nat
  pending : List Nat
  packets : List Packet
  marked : Bool

/-- A call of the sweep. With a file goes the answer of `references` that the callee acts on. -/
inductive Request where
  | forgetClosed (file : LinuxFile) (held : Bool)
  | posixClose (fd : Nat)
  | releaseFileDescription (file : LinuxFile) (held : Bool)

/-- `file`, without flags. -/
def file (id : Nat) : LinuxFile :=
  { LinuxFile.empty with kind := .socketUnix, posixFd := id, resource := id }

def Socket.rights (x : Socket) : List LinuxFile := x.packets.flatMap (·.rights)

def Socket.targets (x : Socket) : List Nat :=
  x.pending ++ (x.rights.filter (·.kind = .socketUnix)).map (·.resource)

def references (sweeping : Bool) (l : List Socket) (file : LinuxFile) : Bool :=
  (l.filter fun x => !sweeping || x.marked).any fun x => x.rights.any fun held =>
    held.kind = file.kind && held.posixFd = file.posixFd && held.resource = file.resource

def resetMarks (l : List Socket) : List Socket := l.map fun x => { x with marked := false }

/-- `mark`: whether the socket was unmarked, and the table afterwards. -/
def mark (id : Nat) : List Socket → Bool × List Socket
  | [] => (false, [])
  | x :: l =>
    if x.id = id then (!x.marked, { x with marked := true } :: l)
    else ((mark id l).1, x :: (mark id l).2)

def markEach : List Nat → Bool × List Socket → Bool × List Socket
  | [], s => s
  | id :: ids, (changed, l) => markEach ids (changed || (mark id l).1, (mark id l).2)

/-- The body of the inner loop of `trace_marks`. -/
def visit (s : Bool × List Socket) (index : Nat) : Bool × List Socket :=
  match s.2[index]? with
  | none => s
  | some x => if x.marked then markEach x.targets s else s

/-- One round of the outer loop of `trace_marks`. -/
def pass (l : List Socket) : Bool × List Socket := (List.range l.length).foldl visit (false, l)

def unmarked (l : List Socket) : Nat := l.countP fun x => !x.marked

lemma unmarked_mark {id l} : unmarked (mark id l).2 + (mark id l).1.toNat = unmarked l := by
  induction l with
  | nil => rfl
  | cons x l ih =>
    rw [mark]
    unfold unmarked at *
    split
    · cases hx : x.marked <;> simp [hx]
    · simp only [countP_cons]
      omega

def Marks (s t : Bool × List Socket) : Prop :=
  unmarked t.2 ≤ unmarked s.2 ∧ (t.1 = true ↔ s.1 = true ∨ unmarked t.2 < unmarked s.2)

variable {s : Bool × List Socket} {l l' : List Socket}

lemma Marks.refl : Marks s s := ⟨Nat.le_refl _, by simp⟩

lemma Marks.trans {t u} (h : Marks s t) (h' : Marks t u) : Marks s u := by
  obtain ⟨hle, hst⟩ := h
  obtain ⟨hle', htu⟩ := h'
  refine ⟨hle'.trans hle, ?_⟩
  rw [htu, hst, or_assoc]
  refine or_congr_right ?_
  omega

lemma markEach_marks {ids} : Marks s (markEach ids s) := by
  induction ids generalizing s with
  | nil => exact .refl
  | cons id ids ih =>
    obtain ⟨changed, l⟩ := s
    refine .trans ?_ ih
    have hcount := @unmarked_mark id l
    cases hm : (mark id l).1 with
    | true =>
      rw [hm, Bool.toNat_true] at hcount
      exact ⟨by simp only; omega, by simp only [Bool.or_true, true_iff]; omega⟩
    | false =>
      rw [hm, Bool.toNat_false, Nat.add_zero] at hcount
      exact ⟨hcount.le, by simp [hcount]⟩

lemma visits_marks {is : List Nat} : Marks s (is.foldl visit s) := by
  induction is generalizing s with
  | nil => exact .refl
  | cons i is ih =>
    refine .trans ?_ ih
    unfold visit
    split
    · exact .refl
    · split
      · exact markEach_marks
      · exact .refl

def traceMarks (l : List Socket) : List Socket :=
  if (pass l).1 then traceMarks (pass l).2 else (pass l).2
termination_by unmarked l
decreasing_by
  rename_i h
  exact (visits_marks.2.mp h).resolve_left (by simp)

/-- `release_held`, for a queue of a socket that is no longer in the table. -/
def releaseHeld (l : List Socket) (file : LinuxFile) : List Request :=
  if file.kind = .socketUnix then []
  else [.forgetClosed file (references true l file),
    .releaseFileDescription file (references true l file)]

/-- The body of the sweep, for a socket that was taken out of the table. -/
def release (l : List Socket) (x : Socket) : List Request :=
  .forgetClosed (file x.id) (references true l (file x.id)) ::
    (x.inodePin.toList.map .posixClose ++ x.rights.flatMap (releaseHeld l))

/-- The sweep: `take_unmarked` until there is none. -/
def sweep (l : List Socket) (requests : List Request) : List Socket × List Request :=
  match _h : swapRemoveFirst (fun x => !x.marked) l with
  | none => (l, requests)
  | some (x, rest) => sweep rest (requests ++ release rest x)
termination_by l.length
decreasing_by
  rw [(swapRemoveFirst_some _h).2.length_eq]
  exact Nat.lt_succ_self _

/-- `collect`, over the table and the sockets in file tables. -/
def collectEntries (roots : List Nat) (l : List Socket) (requests : List Request) :
    List Socket × List Request :=
  if l.isEmpty then (l, requests)
  else sweep (traceMarks (markEach roots (false, resetMarks l)).2) requests

/-! ## Marks as a set of sockets -/

section Marking

variable {l : List Socket} {m : Finset Nat}

def withMarks (m : Finset Nat) (l : List Socket) : List Socket :=
  l.map fun x => { x with marked := decide (x.id ∈ m) }

lemma mark_withMarks {id} (hn : (l.map Socket.id).Nodup) :
    mark id (withMarks m l) =
      (decide (id ∈ l.map Socket.id ∧ id ∉ m), withMarks (insert id m) l) := by
  induction l with
  | nil => rfl
  | cons x l ih =>
    rw [map_cons, nodup_cons] at hn
    by_cases hx : x.id = id
    · have hrest : withMarks (insert id m) l = withMarks m l := by
        refine map_congr_left fun y hy => ?_
        have hne : y.id ≠ id := fun h => hn.1 (hx ▸ h ▸ mem_map_of_mem hy)
        simp [hne]
      rw [withMarks, map_cons, mark, if_pos hx, withMarks, map_cons]
      change (_, _ :: withMarks m l) = (_, _ :: withMarks (insert id m) l)
      rw [hrest]
      simp [hx]
    · have hne : ¬id = x.id := fun h => hx h.symm
      change mark id (_ :: withMarks m l) = _
      rw [mark, if_neg hx, ih hn.2]
      simp [withMarks, hx, hne]

lemma markEach_withMarks {ids changed} (hn : (l.map Socket.id).Nodup) :
    (markEach ids (changed, withMarks m l)).2 = withMarks (m ∪ ids.toFinset) l := by
  induction ids generalizing changed m with
  | nil => simp [markEach]
  | cons id ids ih =>
    rw [markEach, mark_withMarks hn, ih, toFinset_cons, Finset.union_insert,
      Finset.insert_union]

/-- How far passes extend the marks: inside every set that is closed. -/
structure Extends (l : List Socket) (m n : Finset Nat) : Prop where
  subset : m ⊆ n
  least : ∀ P : Nat → Prop, (∀ x ∈ l, P x.id → ∀ i ∈ x.targets, P i) → (∀ i ∈ m, P i) → ∀ i ∈ n, P i

lemma Extends.refl : Extends l m m := ⟨subset_rfl, fun _ _ h => h⟩

lemma Extends.trans {n k} (h : Extends l m n) (h' : Extends l n k) : Extends l m k :=
  ⟨h.subset.trans h'.subset, fun P hP hm => h'.least P hP (h.least P hP hm)⟩

lemma visit_withMarks {index changed} (hn : (l.map Socket.id).Nodup) :
    ∃ n, (visit (changed, withMarks m l) index).2 = withMarks n l ∧ Extends l m n ∧
      ∀ x, l[index]? = some x → x.id ∈ m → ∀ i ∈ x.targets, i ∈ n := by
  rw [visit, withMarks, getElem?_map, ← withMarks]
  cases hx : l[index]? with
  | none => exact ⟨m, rfl, .refl, fun x h => by cases h⟩
  | some x =>
    by_cases hm : x.id ∈ m
    · refine ⟨m ∪ x.targets.toFinset, ?_, ⟨Finset.subset_union_left, fun P hP h i hi => ?_⟩, ?_⟩
      · simp only [Option.map_some, hm, decide_true, if_true]
        exact markEach_withMarks hn
      · obtain hi | hi := Finset.mem_union.mp hi
        · exact h i hi
        · exact hP x (mem_of_getElem? hx) (h _ hm) i (mem_toFinset.mp hi)
      · rintro y hy - i hi
        cases hy
        exact Finset.mem_union_right _ (mem_toFinset.mpr hi)
    · refine ⟨m, by simp [hm], .refl, fun y hy hmem => ?_⟩
      cases hy
      exact absurd hmem hm

lemma visits_withMarks {is : List Nat} {changed} (hn : (l.map Socket.id).Nodup) :
    ∃ n, (is.foldl visit (changed, withMarks m l)).2 = withMarks n l ∧ Extends l m n ∧
      ∀ index ∈ is, ∀ x, l[index]? = some x → x.id ∈ m → ∀ i ∈ x.targets, i ∈ n := by
  induction is generalizing changed m with
  | nil => exact ⟨m, rfl, .refl, fun _ h => by cases h⟩
  | cons index is ih =>
    obtain ⟨n, hv, he, ht⟩ := @visit_withMarks l m index changed hn
    obtain ⟨k, hv', he', ht'⟩ := @ih n (visit (changed, withMarks m l) index).1
    rw [← hv] at hv'
    refine ⟨k, hv', he.trans he', fun j hj x hx hm i hi => ?_⟩
    obtain rfl | hj := mem_cons.mp hj
    · exact he'.subset (ht x hx hm i hi)
    · exact ht' j hj x hx (he.subset hm) i hi

lemma mem_of_unmarked {n} (hsub : m ⊆ n) (hle : unmarked (withMarks m l) ≤ unmarked (withMarks n l))
    {x} (hx : x ∈ l) (hn : x.id ∈ n) : x.id ∈ m := by
  induction l with
  | nil => cases hx
  | cons y l ih =>
    have hrest : unmarked (withMarks n l) ≤ unmarked (withMarks m l) := by
      simp only [unmarked, withMarks, countP_map]
      refine countP_mono_left fun z _ hz => ?_
      simp only [Function.comp_apply, Bool.not_eq_true', decide_eq_false_iff_not] at hz ⊢
      exact fun h => hz (hsub h)
    have hcons : ∀ k : Finset Nat, unmarked (withMarks k (y :: l)) =
        unmarked (withMarks k l) + if y.id ∈ k then 0 else 1 := by
      intro k
      by_cases h : y.id ∈ k <;> simp [unmarked, withMarks, h]
    rw [hcons, hcons] at hle
    obtain rfl | hx := mem_cons.mp hx
    · by_contra hno
      rw [if_neg hno, if_pos hn] at hle
      omega
    · refine ih ?_ hx
      have hy : (if y.id ∈ n then 0 else 1) ≤ if y.id ∈ m then 0 else 1 := by
        by_cases h : y.id ∈ m
        · rw [if_pos h, if_pos (hsub h)]
        · split <;> omega
      omega

/-- The passes end with the least closed set. -/
lemma traceMarks_withMarks (hn : (l.map Socket.id).Nodup) :
    ∃ n, traceMarks (withMarks m l) = withMarks n l ∧ Extends l m n ∧
      ∀ x ∈ l, x.id ∈ n → ∀ i ∈ x.targets, i ∈ n := by
  induction hk : unmarked (withMarks m l) using Nat.strongRecOn generalizing m with
  | _ k ih =>
    obtain ⟨n, hv, he, ht⟩ := @visits_withMarks l m (List.range (withMarks m l).length) false hn
    have hv : (pass (withMarks m l)).2 = withMarks n l := hv
    have hmarks : Marks (false, withMarks m l) (pass (withMarks m l)) := visits_marks
    rw [Marks, hv] at hmarks
    rw [traceMarks, hv]
    split
    · next hc =>
      have hlt := (hmarks.2.mp hc).resolve_left (by simp)
      obtain ⟨n', hn', he', hcl⟩ := ih _ (hk ▸ hlt) rfl
      exact ⟨n', hn', he.trans he', hcl⟩
    · next hc =>
      refine ⟨n, rfl, he, fun x hx hmem i hi => ?_⟩
      -- nothing is new, so the socket was marked before the pass
      have hold := mem_of_unmarked he.subset (Nat.le_of_not_lt fun h => hc (hmarks.2.mpr (.inr h))) hx hmem
      obtain ⟨index, hlt, rfl⟩ := getElem_of_mem hx
      refine ht index (mem_range.mpr ?_) _ (getElem?_eq_getElem hlt) hold i hi
      simpa [withMarks] using hlt

end Marking

/-! ## The sweep -/

lemma references_congr (h : (l.filter (·.marked)).Perm (l'.filter (·.marked))) (file : LinuxFile) :
    references true l file = references true l' file := by
  exact h.any_eq

lemma release_congr (h : (l.filter (·.marked)).Perm (l'.filter (·.marked))) :
    release l = release l' := by
  have hheld : releaseHeld l = releaseHeld l' := by
    funext file
    rw [releaseHeld, releaseHeld, references_congr h]
  funext x
  rw [release, release, references_congr h, hheld]

/-- The sweep takes out each unmarked socket once and releases it. -/
lemma sweep_spec {l requests} :
    ∃ order : List Socket, order.Perm (l.filter (!·.marked)) ∧
      (sweep l requests).1.Perm (l.filter (·.marked)) ∧
      (sweep l requests).2 = requests ++ order.flatMap (release l) := by
  induction hk : l.length using Nat.strongRecOn generalizing l requests with
  | _ k ih =>
    rw [sweep]
    split
    · rename_i hnone
      have hall := swapRemoveFirst_none hnone
      refine ⟨[], ?_, ?_, by simp⟩
      · rw [filter_eq_nil_iff.mpr fun x hx => by simpa using hall x hx]
      · rw [filter_eq_self.mpr fun x hx => by simpa using hall x hx]
    · rename_i x rest hsome
      obtain ⟨hx, hperm⟩ := swapRemoveFirst_some hsome
      have hmarked : (rest.filter (·.marked)).Perm (l.filter (·.marked)) := by
        refine ((hperm.filter _).trans ?_).symm
        rw [filter_cons_of_neg (by simpa using hx)]
      obtain ⟨order, h1, h2, h3⟩ := @ih rest.length (by rw [← hk, hperm.length_eq]; simp) rest
        (requests ++ release rest x) rfl
      refine ⟨x :: order, ?_, h2.trans hmarked, ?_⟩
      · refine ((hperm.filter _).trans ?_).symm
        rw [filter_cons_of_pos (by simpa using hx)]
        exact h1.symm.cons x
      · rw [h3, release_congr hmarked, flatMap_cons, append_assoc]

/-! ## The collection -/

/-- The table with the file tables, and the calls of the sweep. `create` numbers the sockets, so no two
have one id. -/
structure UnixRuntime where
  files : FileRuntime
  entries : List Socket
  requests : List Request
  unique : (entries.map Socket.id).Nodup

namespace UnixRuntime

def openFiles (s : UnixRuntime) : List LinuxFile :=
  (s.files.slots.filter (· ≠ 0)).flatMap fun pid => (List.range linuxFdMax).map (s.files.file pid)

def roots (s : UnixRuntime) : List Nat :=
  (s.openFiles.filter (·.kind = .socketUnix)).map (·.resource)

/-- A socket that is held by a file table, or by a socket of the table that is. -/
inductive Reachable (s : UnixRuntime) : Nat → Prop where
  | table {id : Nat} : id ∈ s.roots → Reachable s id
  | held {x : Socket} {id : Nat} : x ∈ s.entries → Reachable s x.id → id ∈ x.targets → Reachable s id

lemma resetMarks_eq : resetMarks l = withMarks ∅ l := by
  simp [resetMarks, withMarks]

lemma marks_spec (s : UnixRuntime) :
    ∃ n, traceMarks (markEach s.roots (false, resetMarks s.entries)).2 = withMarks n s.entries ∧
      ∀ x : Socket, x.id ∈ n ↔ s.Reachable x.id := by
  have hc := @markEach_withMarks s.entries ∅ s.roots false s.unique
  obtain ⟨n, hn, he, hcl⟩ := @traceMarks_withMarks s.entries (∅ ∪ s.roots.toFinset) s.unique
  refine ⟨n, by rw [resetMarks_eq, hc, hn], fun x => ⟨fun h => ?_, fun h => ?_⟩⟩
  · exact he.least s.Reachable (fun y hy hr i hi => .held hy hr hi)
      (fun i hi => .table (mem_toFinset.mp hi)) _ h
  · generalize x.id = id at h
    induction h with
    | table hr => exact he.subset (mem_toFinset.mpr hr)
    | held hy _ hi ih => exact hcl _ hy ih _ hi

/-- The table after a collection, and the sockets in the order in which they were released. -/
lemma collectEntries_spec (s : UnixRuntime) :
    let t := collectEntries s.roots s.entries s.requests
    ∃ order : List Socket, (t.1.map Socket.id).Nodup ∧ (order.map Socket.id).Nodup ∧
      (∀ y, y ∈ t.1 ↔ ∃ x ∈ s.entries, s.Reachable x.id ∧ y = { x with marked := true }) ∧
      (∀ y, y ∈ order ↔ ∃ x ∈ s.entries, ¬s.Reachable x.id ∧ y = { x with marked := false }) ∧
      t.2 = s.requests ++ order.flatMap (release t.1) := by
  intro t
  by_cases hempty : s.entries = []
  · have ht : t = ([], s.requests) := by simp [t, collectEntries, hempty]
    rw [ht, hempty]
    exact ⟨[], by simp⟩
  obtain ⟨n, hn, hiff⟩ := s.marks_spec
  have ht : t = sweep (withMarks n s.entries) s.requests := by
    simp only [t, collectEntries, List.isEmpty_iff, hempty, if_false, hn]
  obtain ⟨order, h1, h2, h3⟩ := @sweep_spec (withMarks n s.entries) s.requests
  rw [← ht] at h2 h3
  have hids : ((withMarks n s.entries).map Socket.id).Nodup := by
    simpa [withMarks, Function.comp_def] using s.unique
  have hfilter : ∀ p, (((withMarks n s.entries).filter p).map Socket.id).Nodup := fun p =>
    (filter_sublist.map Socket.id).nodup hids
  have hmem : ∀ {y : Socket}, y ∈ withMarks n s.entries ↔
      ∃ x ∈ s.entries, y = { x with marked := decide (x.id ∈ n) } := by
    simp [withMarks, eq_comm]
  refine ⟨order, (h2.map _).nodup_iff.mpr (hfilter _), (h1.map _).nodup_iff.mpr (hfilter _),
    fun y => ?_, fun y => ?_, ?_⟩
  · rw [h2.mem_iff, mem_filter, hmem]
    constructor
    · rintro ⟨⟨x, hx, rfl⟩, hy⟩
      simp only [decide_eq_true_eq] at hy
      exact ⟨x, hx, (hiff x).mp hy, by simp [hy]⟩
    · rintro ⟨x, hx, hr, rfl⟩
      exact ⟨⟨x, hx, by simp [(hiff x).mpr hr]⟩, rfl⟩
  · rw [h1.mem_iff, mem_filter, hmem]
    constructor
    · rintro ⟨⟨x, hx, rfl⟩, hy⟩
      have hy : x.id ∉ n := by simpa using hy
      exact ⟨x, hx, fun hr => hy ((hiff x).mpr hr), by simp [hy]⟩
    · rintro ⟨x, hx, hr, rfl⟩
      exact ⟨⟨x, hx, by simp [mt (hiff x).mp hr]⟩, rfl⟩
  · rw [h3, release_congr]
    refine ((h2.filter _).trans ?_).symm
    simp

def collect (s : UnixRuntime) : UnixRuntime where
  files := s.files
  entries := (collectEntries s.roots s.entries s.requests).1
  requests := (collectEntries s.roots s.entries s.requests).2
  unique := s.collectEntries_spec.choose_spec.1

/-- What stays after a collection, and what it released. -/
structure Collected (s t : UnixRuntime) (order : List Socket) : Prop where
  once : (order.map Socket.id).Nodup
  kept : ∀ y, y ∈ t.entries ↔ ∃ x ∈ s.entries, s.Reachable x.id ∧ y = { x with marked := true }
  unreachable : ∀ y, y ∈ order ↔ ∃ x ∈ s.entries, ¬s.Reachable x.id ∧ y = { x with marked := false }
  released : t.requests = s.requests ++ order.flatMap (release t.entries)
  files : t.files = s.files

/-- A collection takes out exactly the sockets that no file table reaches. Each of them is released once,
with each right queued in it. The others stay as they are, up to the mark. -/
theorem collect_exact (s : UnixRuntime) : ∃ order, Collected s s.collect order := by
  obtain ⟨order, -, h1, h2, h3, h4⟩ := s.collectEntries_spec
  exact ⟨order, h1, h2, h3, h4, rfl⟩

lemma Reachable.collect {s : UnixRuntime} {id} (h : s.Reachable id) : s.collect.Reachable id := by
  obtain ⟨order, -, -, hkept, -⟩ := s.collectEntries_spec
  induction h with
  | table hroot => exact .table hroot
  | @held x id hx hreach htarget ih =>
    exact .held (x := { x with marked := true }) ((hkept _).mpr ⟨x, hx, hreach, rfl⟩) ih htarget

/-- A second collection finds nothing: what the first one leaves is reachable from what it leaves. -/
theorem collect_settles (s : UnixRuntime) : s.collect.collect.requests = s.collect.requests ∧
    s.collect.collect.entries.Perm s.collect.entries := by
  obtain ⟨order, -, -, hkept, -⟩ := s.collectEntries_spec
  obtain ⟨order', hids, -, hkept', hgone, hrequests⟩ := s.collect.collectEntries_spec
  have hreach : ∀ x ∈ s.collect.entries, s.collect.Reachable x.id ∧ x.marked = true := by
    intro y hy
    obtain ⟨x, -, hx, rfl⟩ := (hkept y).mp hy
    exact ⟨hx.collect, rfl⟩
  constructor
  · have hnone : order' = [] := eq_nil_iff_forall_not_mem.mpr fun y hy => by
      obtain ⟨x, hx, hno, -⟩ := (hgone y).mp hy
      exact hno (hreach x hx).1
    rw [hnone, flatMap_nil, append_nil] at hrequests
    exact hrequests
  · refine (perm_ext_iff_of_nodup hids.of_map s.collect.unique.of_map).mpr fun y =>
      (hkept' y).trans ⟨?_, fun hy => ⟨y, hy, (hreach y hy).1, ?_⟩⟩
    · rintro ⟨x, hx, -, rfl⟩
      rw [← (hreach x hx).2]
      exact hx
    · rw [← (hreach y hy).2]

end UnixRuntime

end Nanami.Alter.Unix

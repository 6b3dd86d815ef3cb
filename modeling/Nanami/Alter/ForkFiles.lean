import Nanami.Alter.Files

/-!
# The descriptors of a new task

What the table of a child is after a fork, and after a clone that shares memory but not files. The
child starts with the default entries of its terminal, and every descriptor that is open in its
parent is copied over them. A standard descriptor that the parent has closed is not copied, so the
child has the terminal in its place.
-/

namespace Nanami.Alter
open Nanami.Lib List

namespace FileRuntime

variable {s t u : FileRuntime} {parent child pid fd source : Nat} {file copy : LinuxFile}

/-! ## Descriptors of the posix server -/

/-- Tables and tasks are the same, and no descriptor of the posix server is lost. -/
structure Extends (s t : FileRuntime) : Prop where
  slots : t.slots = s.slots
  task : t.task = s.task
  tables : t.tables = s.tables
  posix : ∀ fd o, s.posixFds fd = some o → t.posixFds fd = some o

lemma Extends.refl : Extends s s := ⟨rfl, rfl, rfl, fun _ _ h => h⟩

lemma Extends.trans (h : Extends s t) (h' : Extends t u) : Extends s u where
  slots := h'.slots.trans h.slots
  task := h'.task.trans h.task
  tables := h'.tables.trans h.tables
  posix fd o ho := h'.posix fd o (h.posix fd o ho)

variable {E : Errno → FileRuntime → Prop} {oldFd : Nat} {m : EStateM Errno FileRuntime Unit}

lemma wp_answer {failure Q} (hok : Q () s) (herr : ∀ e, E e s) : wp (answer failure) Q E s := by
  cases failure with
  | none => exact hok
  | some e => exact herr e

lemma posixRequest_spec :
    ends posixRequest (fun t => Extends s t ∧ t.posixFds = s.posixFds) s := by
  have hsame : Extends s { s with refusals := s.refusals.tail } ∧
      ({ s with refusals := s.refusals.tail } : FileRuntime).posixFds = s.posixFds :=
    ⟨⟨rfl, rfl, rfl, fun _ _ h => h⟩, rfl⟩
  exact wp_answer hsame fun _ => hsame

lemma posixDup_spec :
    wp (posixDup oldFd)
      (fun fd t => Extends s t ∧ s.posixFds fd = none ∧
        ∃ o, s.posixFds oldFd = some o ∧ t.posixFds fd = some o)
      (fun _ => Extends s) s := by
  simp only [posixDup, wp_bind]
  refine wp_mono posixRequest_spec ?_ fun _ _ h => h.1
  rintro _ u ⟨hu, hfds⟩
  refine wp_okOr (fun o ho => ?_) fun _ => hu
  refine wp_okOr (fun fd hfd => ?_) fun _ => hu
  have hopen : s.posixFds oldFd = some o := by
    simp only [openFile, hfds] at ho
    split at ho
    · exact ho
    · cases ho
  have hfree : s.posixFds fd = none := by
    have h := find?_some hfd
    rwa [hfds, Option.isNone_iff_eq_none] at h
  refine ⟨hu.trans ⟨rfl, rfl, rfl, ?_⟩, hfree, o, hopen, by simp [setPosixFd]⟩
  intro x o' hx
  have hne : x ≠ fd := by
    rintro rfl
    rw [hfds, hfree] at hx
    cases hx
  simpa [setPosixFd, hne] using hx

variable {fds low : List Nat} {target terminalId : Nat} {k : CloneAnswers}

lemma posixCloseEach_spec :
    sure (posixCloseEach fds)
      (fun _ t => t.slots = s.slots ∧ t.task = s.task ∧ t.tables = s.tables ∧
        ∀ x ∉ fds, t.posixFds x = s.posixFds x) s := by
  induction fds generalizing s with
  | nil => exact ⟨rfl, rfl, rfl, fun _ _ => rfl⟩
  | cons fd rest ih =>
    have hrest : ∀ u : FileRuntime, u.slots = s.slots → u.task = s.task → u.tables = s.tables →
        (∀ x ≠ fd, u.posixFds x = s.posixFds x) →
        sure (posixCloseEach rest)
          (fun _ t => t.slots = s.slots ∧ t.task = s.task ∧ t.tables = s.tables ∧
            ∀ x ∉ fd :: rest, t.posixFds x = s.posixFds x) u := by
      intro u hslots htask htables hposix
      refine wp_post ih ?_
      rintro _ t ⟨h1, h2, h3, h4⟩
      refine ⟨h1.trans hslots, h2.trans htask, h3.trans htables, fun x hx => ?_⟩
      rw [mem_cons, not_or] at hx
      rw [h4 x hx.2, hposix x hx.1]
    simp only [posixCloseEach, posixClose, wp_bind, wp_attempt]
    refine wp_mono posixRequest_spec ?_ ?_
    · rintro _ u ⟨hu, hfds⟩
      refine wp_okOr (fun _ _ => ?_) fun _ => ?_
      · refine hrest _ hu.slots hu.task hu.tables fun x hx => ?_
        simp [setPosixFd, hx, hfds]
      · exact hrest u hu.slots hu.task hu.tables fun x _ => by rw [hfds]
    · rintro _ u ⟨hu, hfds⟩
      exact hrest u hu.slots hu.task hu.tables fun x _ => by rw [hfds]

lemma Extends.close (h : Extends s u) (hlow : ∀ x ∈ low, s.posixFds x = none)
    (hslots : t.slots = u.slots) (htask : t.task = u.task) (htables : t.tables = u.tables)
    (hposix : ∀ x ∉ low, t.posixFds x = u.posixFds x) : Extends s t where
  slots := hslots.trans h.slots
  task := htask.trans h.task
  tables := htables.trans h.tables
  posix x o hx := by
    have hnot : x ∉ low := by
      intro hmem
      rw [hlow x hmem] at hx
      cases hx
    rw [hposix x hnot]
    exact h.posix x o hx

lemma Extends.free (h : Extends s t) (hfree : t.posixFds fd = none) : s.posixFds fd = none := by
  by_contra hne
  obtain ⟨o, ho⟩ := Option.ne_none_iff_exists'.1 hne
  rw [h.posix fd o ho] at hfree
  cases hfree

lemma posixCloseEach_keeps {o} (hu : Extends s u) (hlow : ∀ x ∈ low, x < 3 ∧ s.posixFds x = none)
    (hfd : u.posixFds fd = some o) (hge : fd ≥ 3) :
    sure (posixCloseEach low) (fun _ t => Extends s t ∧ t.posixFds fd = some o)
      u := by
  refine wp_post posixCloseEach_spec ?_
  rintro _ t ⟨h1, h2, h3, h4⟩
  have hnot : fd ∉ low := fun hmem => absurd (hlow fd hmem).1 (by omega)
  exact ⟨hu.close (fun x hx => (hlow x hx).2) h1 h2 h3 h4, (h4 fd hnot).trans hfd⟩

/-- The invariant of the loop: the low descriptors were free before it. -/
lemma duplicateAbove_spec {room} (hu : Extends s u)
    (hold : ∀ o, u.posixFds oldFd = some o → s.posixFds oldFd = some o)
    (hlow : ∀ x ∈ low, x < 3 ∧ s.posixFds x = none) :
    wp (duplicateAbove oldFd room low)
      (fun fd t => Extends s t ∧ ∃ o, s.posixFds oldFd = some o ∧ t.posixFds fd = some o)
      (fun _ => Extends s) u := by
  induction room generalizing u low with
  | zero =>
    rw [duplicateAbove]
    simp only [wp_bind]
    refine wp_mono posixDup_spec ?_ fun _ _ => hu.trans
    rintro fd v ⟨hv, hfree, o, ho, hfd⟩
    refine wp_ite (fun hge => ?_) fun _ => ?_
    · simp only [wp_bind]
      refine wp_mono (posixCloseEach_keeps (hu.trans hv) hlow hfd hge) ?_ fun _ _ h => h.elim
      intro _ t ht
      exact ⟨ht.1, o, hold o ho, ht.2⟩
    · simp only [wp_bind]
      refine wp_mono posixCloseEach_spec ?_ fun _ _ h => h.elim
      rintro _ t ⟨h1, h2, h3, h4⟩
      refine (hu.trans hv).close (fun x hx => ?_) h1 h2 h3 h4
      obtain rfl | hx := mem_cons.1 hx
      · exact hu.free hfree
      · exact (hlow x hx).2
  | succ room ih =>
    rw [duplicateAbove]
    simp only [wp_bind]
    refine wp_mono posixDup_spec ?_ fun _ _ => hu.trans
    rintro fd v ⟨hv, hfree, o, ho, hfd⟩
    refine wp_ite (fun hge => ?_) fun hlt => ?_
    · simp only [wp_bind]
      refine wp_mono (posixCloseEach_keeps (hu.trans hv) hlow hfd hge) ?_ fun _ _ h => h.elim
      intro _ t ht
      exact ⟨ht.1, o, hold o ho, ht.2⟩
    · refine ih (hu.trans hv) (fun o' ho' => ?_) fun x hx => ?_
      · rw [hv.posix oldFd o ho] at ho'
        cases ho'
        exact hold o ho
      · obtain hx | hx := mem_append.1 hx
        · exact hlow x hx
        · rw [mem_singleton] at hx
          subst hx
          exact ⟨by omega, hu.free hfree⟩

/-! ## Copies of a descriptor -/

/-- `copy` is an entry of the same open object as `file`, with the same flags. The open file of a
descriptor of the posix server is the one it had in `s`. -/
structure SameObject (s t : FileRuntime) (file copy : LinuxFile) : Prop where
  same : copy = { file with posixFd := copy.posixFd }
  plain : file.hasPosixBackend = false → copy.posixFd = file.posixFd
  posix : file.hasPosixBackend = true → ∃ o, t.posixFds file.posixFd = some o ∧
    t.posixFds copy.posixFd = some o ∧ ∀ o', s.posixFds file.posixFd = some o' → o' = o

lemma SameObject.mono {s' t'} (h : SameObject s t file copy)
    (hs : ∀ fd o, s'.posixFds fd = some o → s.posixFds fd = some o)
    (ht : ∀ fd o, t.posixFds fd = some o → t'.posixFds fd = some o) :
    SameObject s' t' file copy where
  same := h.same
  plain := h.plain
  posix hb := by
    obtain ⟨o, hfile, hcopy, hsame⟩ := h.posix hb
    exact ⟨o, ht _ _ hfile, ht _ _ hcopy, fun o' ho' => hsame o' (hs _ _ ho')⟩

lemma SameObject.of_plain (hb : file.hasPosixBackend = false) : SameObject s t file file where
  same := rfl
  plain _ := rfl
  posix hb' := by rw [hb] at hb'; cases hb'

lemma setPipe_extends {id pipe} : Extends s (s.setPipe id pipe) :=
  ⟨rfl, rfl, rfl, fun _ _ h => h⟩

lemma duplicateLinuxFile_spec :
    ifOk (duplicateLinuxFile file) (fun copy t => Extends s t ∧ SameObject s t file copy) s := by
  refine wp_ite (fun hb => ?_) fun hb => ?_
  · simp only [wp_bind]
    refine wp_mono (duplicateAbove_spec .refl (fun _ h => h) (by simp)) ?_ fun _ _ _ => trivial
    rintro fd t ⟨ht, o, ho, hfd⟩
    refine ⟨ht, rfl, fun hb' => ?_, fun _ => ⟨o, ht.posix _ _ ho, hfd, fun o' ho' => ?_⟩⟩
    · rw [hb] at hb'
      cases hb'
    · rw [ho] at ho'
      cases ho'
      rfl
  · rw [Bool.not_eq_true] at hb
    split
    · trivial
    · simp only [wp_bind]
      refine wp_okOr (fun _ _ => ?_) fun _ => trivial
      exact ⟨setPipe_extends, .of_plain hb⟩
    · simp only [wp_bind]
      refine wp_okOr (fun _ _ => ?_) fun _ => trivial
      exact ⟨setPipe_extends, .of_plain hb⟩
    · exact ⟨.refl, .of_plain hb⟩

/-! ## Copies of a table -/

/-- The open descriptors `fds` of the table at `source` are copied to the table at `target`, and
nothing else changes in a table. -/
structure Copies (source target : Nat) (fds : List Nat) (s t : FileRuntime) : Prop where
  slots : t.slots = s.slots
  task : t.task = s.task
  posix : ∀ fd o, s.posixFds fd = some o → t.posixFds fd = some o
  other : ∀ address, address ≠ target → t.tables address = s.tables address
  rest : ∀ fd, fd ∉ fds → t.tables target fd = s.tables target fd
  opened : ∀ fd ∈ fds, (s.tables source fd).isOpen = true →
    SameObject s t (s.tables source fd) (t.tables target fd)
  closed : ∀ fd ∈ fds, (s.tables source fd).isOpen = false →
    t.tables target fd = s.tables target fd

lemma Copies.nil : Copies source target [] s s where
  slots := rfl
  task := rfl
  posix _ _ h := h
  other _ _ := rfl
  rest _ _ := rfl
  opened _ h := absurd h not_mem_nil
  closed _ h := absurd h not_mem_nil

lemma Copies.skip (hclosed : (s.tables source fd).isOpen = false) (hfd : fd ∉ fds)
    (h : Copies source target fds s t) : Copies source target (fd :: fds) s t :=
  { h with
    rest x hx := h.rest x fun hmem => hx (mem_cons_of_mem _ hmem)
    opened x hx ho := by
      obtain rfl | hx := mem_cons.1 hx
      · rw [hclosed] at ho
        cases ho
      · exact h.opened x hx ho
    closed x hx ho := by
      obtain rfl | hx := mem_cons.1 hx
      · exact h.rest x hfd
      · exact h.closed x hx ho }

lemma write_tables_of_ne {address} (h : address ≠ target) :
    (s.write target fd file).tables address = s.tables address := by
  simp [write, h]

lemma write_entry : (s.write target fd file).tables target fd = file := by
  simp [write]

lemma write_entry_of_ne {x} (h : x ≠ fd) :
    (s.write target fd file).tables target x = s.tables target x := by
  simp [write, h]

lemma Copies.cons {target fds} (hne : source ≠ target) (hfd : fd ∉ fds)
    (hopen : (s.tables source fd).isOpen = true) (hu : Extends s u)
    (hsame : SameObject s u (s.tables source fd) copy)
    (h : Copies source target fds (u.write target fd copy) t) :
    Copies source target (fd :: fds) s t where
  slots := h.slots.trans hu.slots
  task := h.task.trans hu.task
  posix x o hx := h.posix x o (hu.posix x o hx)
  other address ha := by rw [h.other address ha, write_tables_of_ne ha, hu.tables]
  rest x hx := by
    rw [mem_cons, not_or] at hx
    rw [h.rest x hx.2, write_entry_of_ne hx.1, hu.tables]
  opened x hx ho := by
    obtain rfl | hx := mem_cons.1 hx
    · rw [h.rest x hfd, write_entry]
      exact hsame.mono (fun _ _ h => h) h.posix
    · have hx' := h.opened x hx
      rw [write_tables_of_ne hne, hu.tables] at hx'
      exact (hx' ho).mono hu.posix fun _ _ h => h
  closed x hx ho := by
    obtain rfl | hrest := mem_cons.1 hx
    · rw [hopen] at ho
      cases ho
    · have hx' := h.closed x hrest
      have hxfd : x ≠ fd := by
        rintro rfl
        exact hfd hrest
      rw [write_tables_of_ne hne, hu.tables, write_entry_of_ne hxfd, hu.tables] at hx'
      exact hx' ho

lemma setLinuxFile_spec (hfd : fd < linuxFdMax) (hpid : pid ≠ 0) (hmem : pid ∈ s.slots) {Q}
    (h : Q true (s.write (s.task pid).files fd file)) : wp (setLinuxFile pid fd file) Q E s := by
  have htask : s.managedTask pid = some (s.task pid) := if_pos ⟨hpid, hmem⟩
  refine wp_ite (fun hge => by omega) fun _ => ?_
  simp only [wp_bind, wp_get, htask]
  exact h

lemma inheritEach_spec (hne : source ≠ target) (hchild : child ≠ 0) (hmem : child ∈ s.slots)
    (htarget : (s.task child).files = target) (hfds : ∀ fd ∈ fds, fd < linuxFdMax)
    (hnodup : fds.Nodup) :
    ifOk (inheritEach source child fds) (fun _ => Copies source target fds s) s := by
  induction fds generalizing s with
  | nil => exact .nil
  | cons fd rest ih =>
    obtain ⟨hfd, hnodup⟩ := nodup_cons.1 hnodup
    have hlt : fd < linuxFdMax := hfds fd mem_cons_self
    have hrest : ∀ x ∈ rest, x < linuxFdMax := fun x hx => hfds x (mem_cons_of_mem _ hx)
    refine wp_ite (fun hclosed => ?_) fun hopen => ?_
    · refine wp_post (ih hmem htarget hrest hnodup) ?_
      intro _ t ht
      exact ht.skip (by simpa using hclosed) hfd
    · simp only [wp_bind, wp_attempt]
      refine wp_mono duplicateLinuxFile_spec ?_ ?_
      · rintro copy u ⟨hu, hsame⟩
        have hmem' : child ∈ u.slots := by rw [hu.slots]; exact hmem
        have htarget' : (u.task child).files = target := by rw [hu.task]; exact htarget
        refine setLinuxFile_spec hlt hchild hmem' ?_
        rw [if_pos rfl, htarget']
        refine wp_post (ih hmem' htarget' hrest hnodup) ?_
        intro _ t ht
        exact .cons hne hfd (by simpa using hopen) hu hsame ht
      · intro e u _
        exact wp_true

/-! ## The new task -/

lemma orRemove_spec {Q} (h : ifOk m Q s) :
    ifOk (orRemove child m) Q s := by
  simp only [orRemove, wp_bind, wp_attempt]
  exact wp_post h (fun _ _ hq => hq)

lemma orDiscard_spec {Q} (h : ifOk m Q s) :
    ifOk (orDiscard child m) Q s := by
  refine orRemove_spec ?_
  simp only [wp_bind, wp_attempt]
  refine wp_mono h (fun _ _ hq => hq) fun _ _ _ => ?_
  exact wp_true

lemma files_lt_freshTable (h : pid ∈ s.slots) : (s.task pid).files < s.freshTable := by
  have hmem : (s.task pid).files ∈ s.slots.map fun q => (s.task q).files :=
    mem_map.2 ⟨pid, h, rfl⟩
  exact Nat.lt_succ_of_le (le_max_of_le hmem le_rfl)

lemma mem_addTask_slots {q} (h : q ∈ (s.addTask pid terminalId).slots) : q = pid ∨ q ∈ s.slots := by
  obtain hq | rfl := mem_or_eq_of_mem_set h
  · exact .inr hq
  · exact .inl rfl

lemma self_mem_addTask_slots (h : 0 ∈ s.slots) : pid ∈ (s.addTask pid terminalId).slots := by
  have hlt : s.slots.findIdx (· = 0) < s.slots.length :=
    findIdx_lt_length_of_exists ⟨0, h, by simp⟩
  exact mem_set hlt _

structure Inherits (parent child : Nat) (s t : FileRuntime) : Prop where
  opened : ∀ fd < linuxFdMax, (s.file parent fd).isOpen = true →
    SameObject s t (s.file parent fd) (t.file child fd)
  closed : ∀ fd < linuxFdMax, (s.file parent fd).isOpen = false →
    (t.file child fd).isOpen = false

/-- The child has a table of its own, with the open descriptors of its parent over the default
entries of the terminal. -/
structure Created (parent child : Nat) (s t : FileRuntime) : Prop where
  opened : ∀ fd < linuxFdMax, (s.file parent fd).isOpen = true →
    SameObject s t (s.file parent fd) (t.file child fd)
  closed : ∀ fd < linuxFdMax, (s.file parent fd).isOpen = false →
    t.file child fd = defaultFiles (s.task parent).terminalId fd
  apart : ∀ q ∈ t.slots, q ≠ child → (t.task q).files ≠ (t.task child).files

lemma addTask_created (hfree : 0 ∈ s.slots) (hchild : child ≠ 0) (hnew : child ∉ s.slots)
    (hmem : parent ∈ s.slots) (hterminal : terminalId = (s.task parent).terminalId) {cwd} :
    ifOk (inheritLinuxFiles parent child cwd) (fun _ => Created parent child s)
      (s.addTask child terminalId) := by
  have hne : parent ≠ child := by
    rintro rfl
    exact hnew hmem
  have hsource : ((s.addTask child terminalId).task parent).files = (s.task parent).files := by
    simp [addTask, hne]
  have hfresh : (s.task parent).files ≠ s.freshTable :=
    Nat.ne_of_lt (files_lt_freshTable hmem)
  have htarget : ((s.addTask child terminalId).task child).files = s.freshTable := by
    simp [addTask]
  have htable : (s.addTask child terminalId).tables (s.task parent).files =
      s.tables (s.task parent).files := by
    simp [addTask, hfresh]
  have hdefault : (s.addTask child terminalId).tables s.freshTable = defaultFiles terminalId := by
    simp [addTask]
  simp only [inheritLinuxFiles, wp_bind]
  refine wp_okOr (fun task htask => ?_) fun _ => trivial
  have hfiles : task.files = (s.task parent).files := by
    obtain ⟨_, ⟨⟩⟩ := Option.ite_none_right_eq_some.mp htask
    exact hsource
  refine wp_answer ?_ fun _ => trivial
  rw [hfiles]
  refine wp_post (inheritEach_spec hfresh hchild (self_mem_addTask_slots hfree) htarget
    (fun fd => mem_range.1) nodup_range) ?_
  intro _ t ht
  have hchildFiles : (t.task child).files = s.freshTable := by rw [ht.task, htarget]
  refine ⟨fun fd hfd ho => ?_, fun fd hfd ho => ?_, fun q hq hqc => ?_⟩
  · have h := ht.opened fd (mem_range.2 hfd)
    rw [htable] at h
    rw [file, file, hchildFiles]
    exact (h ho).mono (fun _ _ h => h) fun _ _ h => h
  · have h := ht.closed fd (mem_range.2 hfd)
    rw [htable, hdefault] at h
    rw [file, hchildFiles, ← hterminal]
    exact h ho
  · rw [ht.slots] at hq
    have hold : q ∈ s.slots := (mem_addTask_slots hq).resolve_left hqc
    have hqfiles : (t.task q).files = (s.task q).files := by
      rw [ht.task]
      simp [addTask, hqc]
    rw [hqfiles, hchildFiles]
    exact Nat.ne_of_lt (files_lt_freshTable hold)

/-- The two calls that give a new task a table of its own. -/
inductive Creation where
  | fork
  | cloneVm
  deriving DecidableEq, Repr

def Creation.start (c : Creation) (parent child : Nat) (k : CloneAnswers) :
    EStateM Errno FileRuntime Nat :=
  match c with
  | fork => sysFork parent child k
  | cloneVm => FileRuntime.cloneVm parent child false k

lemma sysFork_created (hchild : child ≠ 0) (hnew : child ∉ s.slots) :
    ifOk (sysFork parent child k) (fun _ => Created parent child s) s := by
  simp only [sysFork, wp_bind]
  refine wp_answer ?_ fun _ => trivial
  refine wp_okOr (fun task htask => ?_) fun _ => trivial
  obtain ⟨hmem, ⟨⟩⟩ := Option.ite_none_right_eq_some.mp htask
  refine wp_answer (wp_answer ?_ fun _ => trivial) fun _ => trivial
  refine wp_ite (fun hfree => ?_) fun _ => trivial
  simp only [wp_bind, wp_pure, Bool.not_true, Bool.false_eq_true, if_false]
  refine orRemove_spec (wp_answer ?_ fun _ => trivial)
  refine orRemove_spec (wp_post (addTask_created hfree hchild hnew hmem.2 rfl) ?_)
  intro _ t ht
  refine orDiscard_spec (wp_answer ?_ fun _ => trivial)
  refine orDiscard_spec (wp_answer ?_ fun _ => trivial)
  exact orDiscard_spec (wp_answer ht fun _ => trivial)

lemma cloneVm_created (hchild : child ≠ 0) (hnew : child ∉ s.slots) :
    ifOk (cloneVm parent child false k) (fun _ => Created parent child s)
      s := by
  simp only [cloneVm, wp_bind]
  refine wp_answer ?_ fun _ => trivial
  refine wp_okOr (fun task htask => ?_) fun _ => trivial
  obtain ⟨hmem, ⟨⟩⟩ := Option.ite_none_right_eq_some.mp htask
  refine wp_answer (orDiscard_spec ?_) fun _ => trivial
  simp only [cloneBody, wp_bind]
  refine wp_answer ?_ fun _ => trivial
  refine wp_ite (fun hfree => ?_) fun _ => trivial
  simp only [wp_modify, wp_bind, wp_pure, Bool.not_true, Bool.false_eq_true, if_false]
  refine wp_post (addTask_created hfree hchild hnew hmem.2 rfl) ?_
  intro _ t ht
  refine wp_answer ?_ fun _ => trivial
  refine wp_answer ?_ fun _ => trivial
  refine wp_answer ?_ fun _ => trivial
  exact wp_answer ht fun _ => trivial

/-! ## Later changes -/

/-- A call changes a descriptor of a task, or `F_SETFL` sets the status of a pipe's end. -/
inductive Change where
  | write (pid fd : Nat) (file : LinuxFile)
  | status (kind : LinuxFileKind) (pipe : Nat) (argument : BitVec 64)

def isAlias (kind : LinuxFileKind) (pipe : Nat) (file : LinuxFile) : Bool :=
  (file.kind = .pipeRead || file.kind = .pipeWrite) && file.kind = kind && file.posixFd = pipe

def withStatus (argument : BitVec 64) (file : LinuxFile) : LinuxFile :=
  { file with
    flags := (file.flags &&& ~~~linuxONonblock) ||| (argument &&& linuxONonblock) }

def Change.apply (s : FileRuntime) : Change → FileRuntime
  | write pid fd file => stateAfter (setLinuxFile pid fd file) s
  | status kind pipe argument =>
    { s with
      tables := fun address fd =>
        let file := s.tables address fd
        if isAlias kind pipe file then withStatus argument file else file }

def runChanges (s : FileRuntime) (changes : List Change) : FileRuntime :=
  changes.foldl Change.apply s

/-- An entry without the status that all descriptors of a pipe's end have in common. -/
def ownPart (file : LinuxFile) : LinuxFile :=
  if file.kind = .pipeRead ∨ file.kind = .pipeWrite then
    { file with flags := file.flags &&& ~~~linuxONonblock }
  else file

lemma ownPart_withStatus {kind pipe argument} (h : isAlias kind pipe file = true) :
    ownPart (withStatus argument file) = ownPart file := by
  have hpipe : file.kind = .pipeRead ∨ file.kind = .pipeWrite := by
    simp only [isAlias, Bool.and_eq_true, Bool.or_eq_true, decide_eq_true_eq] at h
    exact h.1.1
  have hflags : (file.flags &&& ~~~linuxONonblock ||| argument &&& linuxONonblock) &&&
      ~~~linuxONonblock = file.flags &&& ~~~linuxONonblock := by
    ext i hi
    simp only [BitVec.getElem_and, BitVec.getElem_or, BitVec.getElem_not]
    cases linuxONonblock[i] <;> simp
  simp [ownPart, withStatus, hpipe, hflags]

lemma apply_write {q} : (Change.write q fd file).apply s = s ∨
    (Change.write q fd file).apply s = s.write (s.task q).files fd file := by
  refine stateAfter_of_wp (P := fun t : FileRuntime => t = s ∨ t = s.write _ fd file) ?_
  refine wp_ite (fun _ => .inl rfl) fun _ => ?_
  simp only [wp_bind, wp_get]
  cases htask : s.managedTask q with
  | none => exact .inl rfl
  | some task =>
    obtain ⟨_, ⟨⟩⟩ := Option.ite_none_right_eq_some.mp htask
    exact .inr rfl

lemma apply_task {c : Change} : (c.apply s).task = s.task := by
  cases c with
  | write q fd file =>
    obtain h | h := @apply_write s fd file q
    · rw [h]
    · rw [h]
      rfl
  | status kind pipe argument => rfl

/-- A change through other tables leaves the entries of a task as they are, apart from the status of
pipe ends. -/
lemma apply_ownPart {c : Change}
    (h : ∀ q fd file, c = .write q fd file → (s.task q).files ≠ (s.task pid).files) :
    ownPart ((c.apply s).file pid fd) = ownPart (s.file pid fd) := by
  rw [file, apply_task]
  cases c with
  | write q x f =>
    obtain he | he := @apply_write s x f q
    · rw [he]
      rfl
    · rw [he, write_tables_of_ne (h q x f rfl).symm]
      rfl
  | status kind pipe argument =>
    simp only [Change.apply]
    split
    · rename_i halias
      exact ownPart_withStatus halias
    · rfl

lemma runChanges_ownPart {changes : List Change}
    (h : ∀ q fd file, .write q fd file ∈ changes → (s.task q).files ≠ (s.task pid).files) :
    ownPart ((s.runChanges changes).file pid fd) = ownPart (s.file pid fd) := by
  induction changes generalizing s with
  | nil => rfl
  | cons c rest ih =>
    have hrest := @ih (c.apply s) (by
      intro q x f hmem
      rw [apply_task]
      exact h q x f (mem_cons_of_mem _ hmem))
    have hfirst : ownPart ((c.apply s).file pid fd) = ownPart (s.file pid fd) := by
      refine apply_ownPart fun q x f hc => ?_
      subst hc
      exact h q x f mem_cons_self
    exact hrest.trans hfirst

/-- Later changes of the child's table are not seen through the table of another task, and the other
way round. -/
def Independent (child : Nat) (t : FileRuntime) : Prop :=
  ∀ changes : List Change,
    ((∀ q fd file, .write q fd file ∈ changes → q ∈ t.slots ∧ q ≠ child) →
      ∀ fd, ownPart ((t.runChanges changes).file child fd) = ownPart (t.file child fd)) ∧
    ((∀ q fd file, .write q fd file ∈ changes → q = child) →
      ∀ pid ∈ t.slots, pid ≠ child →
        ∀ fd, ownPart ((t.runChanges changes).file pid fd) = ownPart (t.file pid fd))

lemma Created.independent (h : Created parent child s t) : Independent child t := by
  intro changes
  constructor
  · intro hw fd
    refine runChanges_ownPart fun q x f hmem => ?_
    obtain ⟨hq, hne⟩ := hw q x f hmem
    exact h.apart q hq hne
  · intro hw pid hpid hne fd
    refine runChanges_ownPart fun q x f hmem => ?_
    rw [hw q x f hmem]
    exact (h.apart pid hpid hne).symm

/-! ## The table of the child -/

lemma defaultFiles_isOpen :
    (defaultFiles terminalId fd).isOpen = true ↔ terminalId ≠ 0 ∧ fd < 3 := by
  simp only [defaultFiles]
  split
  · rename_i h
    exact iff_of_true rfl h
  · rename_i h
    exact iff_of_false (by decide) h

lemma Created.inherits_iff (h : Created parent child s t) : Inherits parent child s t ↔
    (s.task parent).terminalId = 0 ∨ ∀ fd < 3, (s.file parent fd).isOpen = true := by
  constructor
  · intro hi
    by_contra hcon
    obtain ⟨hterminal, hfds⟩ := not_or.1 hcon
    simp only [not_forall, Bool.not_eq_true] at hfds
    obtain ⟨fd, hlt, hclosed⟩ := hfds
    have hmax : fd < linuxFdMax := by
      simp only [linuxFdMax]
      omega
    -- the terminal stands where the parent has nothing
    have hfalse := hi.closed fd hmax hclosed
    rw [h.closed fd hmax hclosed, defaultFiles_isOpen.2 ⟨hterminal, hlt⟩] at hfalse
    cases hfalse
  · intro hcase
    refine ⟨h.opened, fun fd hfd hclosed => ?_⟩
    rw [h.closed fd hfd hclosed, ← Bool.not_eq_true, defaultFiles_isOpen]
    rintro ⟨hterminal, hlt⟩
    obtain hzero | hopen := hcase
    · exact hterminal hzero
    · rw [hopen fd hlt] at hclosed
      cases hclosed

/-- After a fork or a clone without CLONE_FILES the child has exactly the descriptors of its parent,
in a table of its own, if and only if the task has no terminal or the parent has its three standard
descriptors open. -/
theorem child_inherits_files_iff (s : FileRuntime) (parent : Nat)
    (child : { pid : Nat // pid ≠ 0 ∧ pid ∉ s.slots }) (c : Creation) (k : CloneAnswers)
    {pid : Nat} {t : FileRuntime} (h : c.start parent child k s = .ok pid t) :
    Inherits parent child s t ∧ Independent child t ↔
      (s.task parent).terminalId = 0 ∨ ∀ fd < 3, (s.file parent fd).isOpen = true := by
  have hstart : ifOk (c.start parent child k) (fun _ => Created parent child s) s := by
    cases c with
    | fork => exact sysFork_created child.2.1 child.2.2
    | cloneVm => exact cloneVm_created child.2.1 child.2.2
  have hcreated := wp_ok hstart h
  rw [and_iff_left hcreated.independent]
  exact hcreated.inherits_iff

def sampleFiles (first : Nat) : FileRuntime where
  slots := [1, 0]
  task _ := ⟨1, 7, false⟩
  tables _ fd :=
    if first ≤ fd ∧ fd < 3 then .terminal
    else if fd = 3 then { LinuxFile.empty with kind := .posix, posixFd := 5 }
    else .empty
  pipes _ := .empty
  posixFds fd := if fd = 5 then some 9 else none
  refusals := []

def untroubled : CloneAnswers := ⟨none, none, none, none, none, none, none, none⟩

def sampleChild (first : Nat) : { pid : Nat // pid ≠ 0 ∧ pid ∉ (sampleFiles first).slots } :=
  ⟨2, by decide, by simp [sampleFiles]⟩

/-- A fork with standard input open. -/
theorem child_inherits_files_fork :
    ∃ pid t, Creation.fork.start 1 (sampleChild 0) untroubled (sampleFiles 0) = .ok pid t ∧
      Inherits 1 (sampleChild 0) (sampleFiles 0) t ∧ Independent (sampleChild 0) t := by
  obtain ⟨pid, t, h⟩ := exists_ok_of_succeeds (m := Creation.fork.start 1 (sampleChild 0) untroubled)
    (s := sampleFiles 0) (by decide +kernel)
  refine ⟨pid, t, h, (child_inherits_files_iff (sampleFiles 0) 1 (sampleChild 0) .fork untroubled
    h).2 (.inr ?_)⟩
  decide

/-- Standard input is closed in the parent, and it is the terminal in the child. -/
theorem child_opens_closed_stdin :
    succeeds (Creation.fork.start 1 (sampleChild 1) untroubled) (sampleFiles 1) = true ∧
      ((sampleFiles 1).file 1 0).isOpen = false ∧
      ((stateAfter (Creation.fork.start 1 (sampleChild 1) untroubled) (sampleFiles 1)).file 2
        0).isOpen = true := by
  decide +kernel

end FileRuntime

end Nanami.Alter

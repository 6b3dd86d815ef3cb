import Nanami.Alter.GuestMemory

/-!
# What the memory calls leave alone

Most of a memory call changes Alpha's pages, the RAM files and the framebuffers, and leaves the table
of mappings as it is. There is one lemma for each such part of a call.
-/

namespace Nanami.Alter
open Nanami.Lib
namespace VmRuntime

/-- What the memory calls record: the table and the ranges that the call has entered into it. -/
def record (s : VmRuntime) : List Nat × MappingTable × List (Nat × Nat) :=
  (s.tasks, s.mappings, s.placed)

/-- A part of a call that leaves the record as it is. -/
abbrev Keeps {α : Type} (m : VmM α) : Prop := Preserves record m

section Keeps

variable {α : Type} {pid base size prot id : Nat}

lemma keeps_get {f : VmRuntime → VmM α} (h : ∀ s, Keeps (f s)) : Keeps (get >>= f) :=
  .get fun s => h s s

lemma keeps_answer {f : Answer → VmM α} (h : ∀ a, Keeps (f a)) : Keeps (nextAnswer >>= f) :=
  .bind (fun _ => rfl) h

lemma keeps_request : Keeps request := by
  refine keeps_answer fun a => ?_
  cases a with
  | refused => exact .throw
  | granted | values | done => exact .pure

lemma keeps_requestIf {c} : Keeps (requestIf c) :=
  .ite (.attempt keeps_request) .pure

lemma keeps_requestValues : Keeps requestValues := by
  refine keeps_answer fun a => ?_
  cases a with
  | refused => exact .throw
  | granted => exact .throw
  | values => exact .pure
  | done => exact .throw

/-- A grant changes the pages of the guest alone. -/
lemma keeps_grant {requested : Nat} : Keeps (grant requested size) := by
  refine keeps_answer fun a => ?_
  cases a with
  | refused => exact .bind (.modify fun _ => rfl) fun _ => .throw
  | granted =>
    refine keeps_get fun s => ?_
    apply Preserves.ite
    · exact .bind (.modify fun _ => rfl) fun _ => .pure
    · exact .throw
  | values => exact .throw
  | done => exact .throw

lemma keeps_requestProcessMapAnonymous {requested : Option Nat} :
    Keeps (requestProcessMapAnonymous pid requested size) := by
  refine .ite .throw ?_
  refine .bind .okOr fun mapped => ?_
  refine keeps_get fun s => ?_
  refine .ite keeps_grant ?_
  exact .bind keeps_request fun _ => .pure

lemma keeps_requestProcessMapInitializedAt : Keeps (requestProcessMapInitializedAt base size) := by
  refine .ite .throw ?_
  refine .bind keeps_grant fun granted => ?_
  exact .ite .throw .pure

/-- So does everything that changes them for a task of the guest. -/
lemma keeps_pagesOfTask {change} (h : ∀ s, record (change s) = record s) :
    Keeps (modify (pagesOfTask pid change)) := by
  apply Preserves.modify
  intro s
  unfold pagesOfTask
  split
  · exact h s
  · rfl

lemma keeps_requestProcessMappingRelease : Keeps (requestProcessMappingRelease pid base size) := by
  refine .ite .throw ?_
  refine keeps_answer fun a => ?_
  cases a with
  | refused => exact .bind (keeps_pagesOfTask fun _ => rfl) fun _ => .throw
  | granted | values | done => exact keeps_pagesOfTask fun _ => rfl

lemma keeps_requestMappingShareAt {source : Nat} :
    Keeps (requestMappingShareAt pid source size base) := by
  refine .ite .throw ?_
  refine keeps_answer fun a => ?_
  cases a with
  | refused => exact .bind (keeps_pagesOfTask fun _ => rfl) fun _ => .throw
  | granted | values | done => exact keeps_pagesOfTask fun _ => rfl

lemma keeps_requestProcessMappingProtect : Keeps (requestProcessMappingProtect base size prot) :=
  .ite .throw keeps_request

lemma keeps_getObject : Keeps (getObject id) := keeps_get fun _ => .okOr

lemma keeps_tryReserve : Keeps tryReserve :=
  keeps_get fun _ => .ite .pure .throw

lemma keeps_insertObject {file} : Keeps (insertObject file) := by
  refine Preserves.get fun s => ?_
  apply wp_ite
  · intro _
    exact wp_throw.mpr rfl
  · intro _
    rfl

lemma keeps_attempt {β} {m : VmM β} {f : Except Errno β → VmM α} (hm : Keeps m)
    (hf : ∀ r, Keeps (f r)) : Keeps (attempt m >>= f) :=
  .bind (.attempt hm) hf

namespace Memfd

variable {index bytes length : Nat} {backing : Option Nat}

/-- A page of a memory file is made when it is first used. -/
lemma keeps_page : Keeps (page id index) := by
  refine .bind keeps_getObject fun file => ?_
  cases file.pages.find? (·.1 = index) with
  | some found => exact .pure
  | none =>
    refine .bind keeps_requestValues fun values => ?_
    exact .bind (.modify fun _ => rfl) fun _ => .pure

variable {mapping : MemoryMapping} {offset : Nat}

lemma keeps_aliasPage : Keeps (aliasPage id mapping offset) := by
  refine .bind keeps_page fun source => ?_
  refine .bind keeps_requestMappingShareAt fun _ => ?_
  exact keeps_get fun _ => keeps_requestProcessMappingProtect

lemma keeps_unmapReadPage : Keeps (unmapReadPage id index backing) := by
  apply Preserves.ite
  · exact .bind (.modify fun _ => rfl) fun _ => .attempt keeps_request
  · exact .pure

lemma keeps_collectPages {pages} : Keeps (collectPages id backing pages) := by
  induction pages with
  | nil => exact .pure
  | cons p rest ih =>
    refine .bind keeps_requestIf fun released => ?_
    cases released with
    | error => exact .pure
    | ok =>
      refine .bind keeps_unmapReadPage fun unmapped => ?_
      cases unmapped with
      | error => exact .pure
      | ok => exact .bind (.modify fun _ => rfl) fun _ => ih

/-- A memory file that nobody uses is taken apart. -/
lemma keeps_collect : Keeps (collect id) := by
  refine keeps_get fun s => ?_
  cases s.object id with
  | none => exact .pure
  | some file =>
    refine .ite .pure ?_
    refine .bind keeps_collectPages fun done => ?_
    apply Preserves.ite
    · refine .bind keeps_requestIf fun closed => ?_
      cases closed with
      | error => exact .pure
      | ok => exact .modify fun _ => rfl
    · exact .pure

lemma keeps_unmapOne {stop} {entry : Nat × MemoryMapping} :
    Keeps (unmapOne pid base stop entry) := by
  refine .ite .pure ?_
  refine .bind keeps_getObject fun _ => ?_
  refine .bind keeps_tryReserve fun _ => ?_
  refine .bind (.forEach (fun _ => keeps_requestProcessMappingRelease) _) fun _ => ?_
  refine keeps_get fun s => ?_
  refine .bind keeps_getObject fun file => ?_
  refine .bind .okOr fun owner => ?_
  exact .bind (.modify fun _ => rfl) fun _ => keeps_collect

lemma keeps_unmap : Keeps (unmap pid base bytes) := by
  refine .bind .okOr fun stop => ?_
  exact keeps_get fun _ => .forEach (fun _ => keeps_unmapOne) _

/-- Protections are put back when one of them is refused. -/
lemma keeps_protectEach {before updates : List (Nat × Nat × Nat)} :
    Keeps (protectEach prot before updates) := by
  induction updates generalizing before with
  | nil => exact .pure
  | cons update rest ih =>
    refine keeps_attempt keeps_requestProcessMappingProtect fun r => ?_
    cases r with
    | ok => exact ih
    | error =>
      apply Preserves.bind
      · exact .forEach (fun _ => keeps_requestProcessMappingProtect) _
      · exact fun _ => .throw

lemma keeps_protect : Keeps (protect pid base bytes prot) := by
  refine .bind .okOr fun stop => ?_
  refine keeps_get fun s => ?_
  refine .ite .throw ?_
  exact .bind .fromResult fun _ => keeps_protectEach

lemma keeps_resizePage {shrink : Bool} : Keeps (resizePage id shrink mapping offset) := by
  refine .ite keeps_requestProcessMappingRelease ?_
  refine .ite keeps_aliasPage ?_
  refine .bind keeps_requestProcessMapAnonymous fun _ => ?_
  exact keeps_get fun _ => keeps_requestProcessMappingProtect

lemma keeps_truncate : Keeps (truncate id length) := by
  refine .ite .throw ?_
  refine .bind keeps_getObject fun file => ?_
  refine .ite .throw ?_
  apply Preserves.bind
  · exact .forEach (fun _ => .forEach (fun _ => keeps_resizePage) _) _
  intro _
  exact .bind keeps_getObject fun _ => .modify fun _ => rfl

lemma keeps_populate : Keeps (populate id mapping offset) := by
  refine .ite keeps_aliasPage ?_
  refine .bind keeps_requestProcessMapAnonymous fun _ => ?_
  refine .bind keeps_getObject fun file => ?_
  refine .bind keeps_requestIf fun copied => ?_
  exact .bind .fromResult fun _ => keeps_requestProcessMappingProtect

lemma keeps_growFile : Keeps (growFile id length) := by
  refine .bind keeps_getObject fun file => ?_
  exact .ite keeps_truncate .pure

end Memfd

variable {rounds : Nat}

lemma keeps_releaseFrom {stop cursor : Nat} : Keeps (releaseFrom pid stop rounds cursor) := by
  induction rounds generalizing cursor with
  | zero => exact .pure
  | succ rounds ih =>
    apply Preserves.ite
    · refine keeps_get fun s => ?_
      refine .bind .okOr fun mapping => ?_
      refine .bind .okOr fun mappingEnd => ?_
      exact .bind keeps_requestProcessMappingRelease fun _ => ih
    · exact .pure

lemma keeps_releasePresentMappingPages : Keeps (releasePresentMappingPages pid base size) :=
  .bind .okOr fun _ => keeps_releaseFrom

lemma keeps_mapInitialized : Keeps (mapInitialized base size) :=
  .ite keeps_requestProcessMapInitializedAt .pure

variable {bytes copied : Nat}

/-- A file is read into its pages in rounds. -/
lemma keeps_readInto {buffered initialized : Nat} :
    Keeps (readInto base bytes rounds copied buffered initialized) := by
  induction rounds generalizing copied buffered initialized with
  | zero => exact .pure
  | succ rounds ih =>
    apply Preserves.ite
    · refine keeps_get fun s => ?_
      refine .ite .throw ?_
      refine .bind keeps_requestValues fun values => ?_
      refine .ite .pure ?_
      refine .ite .throw ?_
      refine .bind keeps_mapInitialized fun _ => ?_
      exact .bind keeps_mapInitialized fun _ => ih
    · exact .pure

lemma keeps_fillPages {mapped} : Keeps (fillPages base mapped bytes) := by
  apply Preserves.bind
  · apply Preserves.ite
    · exact .bind keeps_requestValues fun _ => .pure
    · exact .pure
  intro cached
  refine .ite keeps_requestProcessMapInitializedAt ?_
  refine .bind keeps_readInto fun progress => ?_
  exact .bind keeps_mapInitialized fun _ => keeps_mapInitialized

lemma keeps_copyFrom {chunk} : Keeps (copyFrom size chunk rounds copied) := by
  induction rounds generalizing copied with
  | zero => exact .pure
  | succ rounds ih =>
    apply Preserves.ite
    · exact .bind keeps_request fun _ => .bind keeps_request fun _ => ih
    · exact .pure

lemma keeps_copySameProcessRange : Keeps (copySameProcessRange size) := by
  refine .ite .pure ?_
  refine keeps_attempt keeps_request fun r => ?_
  cases r with
  | ok => exact .pure
  | error => exact keeps_get fun _ => keeps_copyFrom

end Keeps
end VmRuntime
end Nanami.Alter

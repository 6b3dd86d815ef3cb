import Nanami.Lib.Result
import Nanami.Lib.Machine

/-!
# Paths of a container

Model of `guest_path` and `host_path` of `negoto-oci` (`path.rs`): a path is normalised in the guest's
own namespace before the root of the bundle is put in front of it. A host path therefore stays below
the components of its root.
-/

namespace Nanami.Oci
open Lib List

abbrev Str := List Char

structure Error where
  message : String

def nul : Char := Char.ofNat 0
def dot : Str := ['.']
def dotDot : Str := ['.', '.']

def pushComponent (components : List Str) (component : Str) : List Str :=
  if component = [] ∨ component = dot then components
  else if component = dotDot then components.dropLast
  else components ++ [component]

/-- What is normalised: an absolute path itself, another one behind the working directory. -/
def input (cwd path : Str) : Str := if path.head? = some '/' then path else cwd ++ '/' :: path

def rooted (components : List Str) : Str := '/' :: ['/'].intercalate components

def guestPath (cwd path : Str) : Except Error Str :=
  if cwd.head? ≠ some '/' ∨ nul ∈ cwd ∨ nul ∈ path then .error ⟨"invalid pathname"⟩
  else .ok (rooted (((input cwd path).splitOn '/').foldl pushComponent []))

def hostPath (root guest : Str) : Except Error Str :=
  if root.head? ≠ some '/' ∨ guest.head? ≠ some '/' then
    throw ⟨"root and guest pathname must be absolute"⟩
  else do
    let guest ← guestPath ['/'] guest
    let root ← guestPath ['/'] root
    if root = ['/'] then throw ⟨"the native root cannot be a container rootfs"⟩
    else if guest = ['/'] then pure root
    else pure (root ++ guest)

def components (path : Str) : List Str := if path = ['/'] then [] else path.tail.splitOn '/'

def named (cwd path : Str) : List Str :=
  ((input cwd path).splitOn '/').filter fun c => c ≠ [] ∧ c ≠ dot

structure Normal (path : Str) : Prop where
  absolute : path.head? = some '/'
  clean : ∀ c ∈ components path, c ≠ [] ∧ c ≠ dot ∧ c ≠ dotDot

structure Clean (component : Str) : Prop where
  proper : component ≠ [] ∧ component ≠ dot ∧ component ≠ dotDot
  whole : '/' ∉ component
  text : nul ∉ component

variable {cs ds parts : List Str} {c s cwd path root guest g : Str}

lemma pushComponent_clean (hcs : ∀ d ∈ cs, Clean d) (hwhole : '/' ∉ c) (htext : nul ∉ c) :
    ∀ d ∈ pushComponent cs c, Clean d := by
  unfold pushComponent
  split
  · exact hcs
  · split
    · exact fun d hd => hcs d (dropLast_subset _ hd)
    · refine forall_mem_append.mpr ⟨hcs, forall_mem_singleton.mpr ⟨?_, hwhole, htext⟩⟩
      simp_all

lemma foldl_clean (hcs : ∀ d ∈ cs, Clean d) (h : ∀ c ∈ parts, '/' ∉ c ∧ nul ∉ c) :
    ∀ d ∈ parts.foldl pushComponent cs, Clean d := by
  induction parts generalizing cs with
  | nil => exact hcs
  | cons part parts ih =>
    obtain ⟨⟨hwhole, htext⟩, h⟩ := forall_mem_cons.mp h
    exact ih (pushComponent_clean hcs hwhole htext) h

lemma foldl_of_clean (h : ∀ d ∈ ds, Clean d) : ds.foldl pushComponent cs = cs ++ ds := by
  induction ds generalizing cs with
  | nil => simp
  | cons d ds ih =>
    obtain ⟨⟨⟨hne, hdot, hup⟩, -, -⟩, h⟩ := forall_mem_cons.mp h
    rw [foldl_cons, ih h, pushComponent, if_neg (by simp [hne, hdot]), if_neg hup]
    simp

lemma foldl_named : (parts.filter fun c => c ≠ [] ∧ c ≠ dot).foldl pushComponent cs =
    parts.foldl pushComponent cs := by
  induction parts generalizing cs with
  | nil => rfl
  | cons part parts ih =>
    rw [filter_cons]
    split
    · exact ih
    next h =>
      rw [decide_eq_true_eq, not_and_or, not_not, not_not] at h
      rw [ih, foldl_cons, pushComponent, if_pos h]

lemma splitOn_rooted : (rooted ds).splitOn '/' = [] :: (['/'].intercalate ds).splitOn '/' := by
  rw [rooted, splitOn_cons_eq_if_modifyHead]
  rfl

lemma splitOn_joined (h : ∀ d ∈ ds, Clean d) (hne : ds ≠ []) :
    (['/'].intercalate ds).splitOn '/' = ds :=
  splitOn_intercalate '/' (fun d hd => (h d hd).whole) hne

lemma foldl_rooted (h : ∀ d ∈ ds, Clean d) :
    ((rooted ds).splitOn '/').foldl pushComponent [] = ds := by
  rw [splitOn_rooted]
  by_cases hne : ds = []
  · subst hne
    rfl
  · rw [splitOn_joined h hne]
    exact foldl_of_clean h

lemma components_rooted (h : ∀ d ∈ ds, Clean d) : components (rooted ds) = ds := by
  by_cases hne : ds = []
  · subst hne
    rfl
  · have hjoin := splitOn_joined h hne
    rw [components, if_neg fun e => ?_]
    · exact hjoin
    · rw [(cons.inj e).2] at hjoin
      subst hjoin
      exact (h [] mem_cons_self).proper.1 rfl

lemma rooted_append (hcs : cs ≠ []) (hds : ds ≠ []) : rooted cs ++ rooted ds = rooted (cs ++ ds) := by
  induction cs with
  | nil => exact absurd rfl hcs
  | cons c cs ih =>
    cases cs with
    | nil => simp [rooted, intercalate_cons_of_ne_nil hds]
    | cons d cs =>
      have hrest := ih (cons_ne_nil _ _)
      simp only [rooted, cons_append, cons.injEq, true_and] at hrest ⊢
      simp [intercalate_cons_cons, hrest]

lemma mem_joined {x : Char} (hx : x ≠ '/') (h : x ∈ ['/'].intercalate parts) :
    ∃ c ∈ parts, x ∈ c := by
  induction parts with
  | nil => cases h
  | cons part parts ih =>
    by_cases hne : parts = []
    · subst hne
      exact ⟨part, mem_cons_self, by simpa using h⟩
    · rw [intercalate_cons_of_ne_nil hne, mem_append, mem_append, mem_singleton] at h
      obtain (h | h) | h := h
      · exact ⟨part, mem_cons_self, h⟩
      · exact absurd h hx
      · obtain ⟨c, hc, hx⟩ := ih h
        exact ⟨c, mem_cons_of_mem _ hc, hx⟩

lemma nul_mem_named : (∃ c ∈ named cwd path, nul ∈ c) ↔ nul ∈ input cwd path := by
  constructor
  · rintro ⟨c, hc, hnul⟩
    exact (mem_splitOn (mem_filter.mp hc).1).2 hnul
  · intro h
    have hjoin : nul ∈ ['/'].intercalate ((input cwd path).splitOn '/') := by
      rwa [intercalate_splitOn]
    obtain ⟨c, hc, hnul⟩ := mem_joined (by decide) hjoin
    refine ⟨c, mem_filter.mpr ⟨hc, decide_eq_true ⟨?_, ?_⟩⟩, hnul⟩
    · rintro rfl
      cases hnul
    · rintro rfl
      exact absurd hnul (by decide)

/-- `guest_path` reads no more of a path than the sequence it names. -/
lemma guestPath_named : guestPath cwd path =
    if cwd.head? ≠ some '/' ∨ nul ∈ cwd ∨ ∃ c ∈ named cwd path, nul ∈ c then
      .error ⟨"invalid pathname"⟩
    else .ok (rooted ((named cwd path).foldl pushComponent [])) := by
  have hnul : nul ∈ cwd ∨ nul ∈ path ↔ nul ∈ cwd ∨ nul ∈ input cwd path := by
    rw [input]
    split <;> simp [show nul ≠ '/' by decide]
  rw [guestPath, named, foldl_named, ← named]
  simp only [hnul, nul_mem_named]

lemma guestPath_ok (h : guestPath cwd path = .ok g) : ∃ ds, g = rooted ds ∧ ∀ d ∈ ds, Clean d := by
  rw [guestPath_named] at h
  split at h
  · cases h
  next hok =>
    cases h
    refine ⟨_, rfl, foldl_clean (fun _ h => nomatch h) fun c hc => ?_⟩
    exact ⟨(mem_splitOn (mem_filter.mp hc).1).1, fun hnul => hok (.inr (.inr ⟨c, hc, hnul⟩))⟩

lemma nul_not_mem_rooted (h : ∀ d ∈ ds, Clean d) : nul ∉ rooted ds := by
  intro hnul
  obtain hnul | hnul := mem_cons.mp hnul
  · exact absurd hnul (by decide)
  · obtain ⟨d, hd, hnul⟩ := mem_joined (by decide) hnul
    exact (h d hd).text hnul

lemma guestPath_rooted (habs : cwd.head? = some '/') (hcwd : nul ∉ cwd) (h : ∀ d ∈ ds, Clean d) :
    guestPath cwd (rooted ds) = .ok (rooted ds) := by
  rw [guestPath, if_neg (by simp [habs, hcwd, nul_not_mem_rooted h])]
  rw [input, if_pos (by rfl), foldl_rooted h]

lemma normal_rooted (h : ∀ d ∈ ds, Clean d) : Normal (rooted ds) where
  absolute := rfl
  clean := by
    rw [components_rooted h]
    exact fun d hd => (h d hd).proper

lemma hostPath_ok {host : Str} (h : hostPath root guest = .ok host) :
    ∃ cs ds, guestPath ['/'] root = .ok (rooted cs) ∧ guestPath ['/'] guest = .ok (rooted ds) ∧
      (∀ d ∈ cs, Clean d) ∧ (∀ d ∈ ds, Clean d) ∧ host = rooted (cs ++ ds) := by
  obtain ⟨-, h⟩ := guard_ok h
  obtain ⟨g, hguest, h⟩ := bind_ok h
  obtain ⟨r, hroot, h⟩ := bind_ok h
  obtain ⟨hne, h⟩ := guard_ok h
  obtain ⟨ds, rfl, hds⟩ := guestPath_ok hguest
  obtain ⟨cs, rfl, hcs⟩ := guestPath_ok hroot
  refine ⟨cs, ds, hroot, hguest, hcs, hds, ?_⟩
  split at h
  next hd =>
    have hnil : ds = [] := (components_rooted hds).symm.trans (by rw [hd]; rfl)
    rw [hnil, append_nil]
    cases h
    rfl
  next hd =>
    rw [← rooted_append (fun e => hne (by rw [e]; rfl)) (fun e => hd (by rw [e]; rfl))]
    cases h
    rfl

/-- A guest path is normal and a second normalisation keeps it; paths that name one sequence of
components have one guest path; and a host path is normal, with the components of its root first. -/
theorem paths_confined :
    (∀ cwd path g, guestPath cwd path = .ok g → Normal g ∧
      ∀ other : Str, other.head? = some '/' → nul ∉ other → guestPath other g = .ok g) ∧
    (∀ cwd path path', named cwd path = named cwd path' →
      guestPath cwd path = guestPath cwd path') ∧
    ∀ root guest host, hostPath root guest = .ok host →
      ∃ r g, guestPath ['/'] root = .ok r ∧ guestPath ['/'] guest = .ok g ∧ Normal host ∧
        components host = components r ++ components g := by
  refine ⟨fun cwd path g h => ?_, fun cwd path path' h => ?_, fun root guest host h => ?_⟩
  · obtain ⟨ds, rfl, hds⟩ := guestPath_ok h
    exact ⟨normal_rooted hds, fun other habs hother => guestPath_rooted habs hother hds⟩
  · rw [guestPath_named, guestPath_named, h]
  · obtain ⟨cs, ds, hroot, hguest, hcs, hds, rfl⟩ := hostPath_ok h
    have hall := forall_mem_append.mpr ⟨hcs, hds⟩
    refine ⟨_, _, hroot, hguest, normal_rooted hall, ?_⟩
    rw [components_rooted hall, components_rooted hcs, components_rooted hds]

/-- Guest `..` components stop at the root of the bundle. -/
theorem paths_confined_dotDot :
    hostPath "/b/./rootfs".toList "/../../etc//passwd".toList = .ok "/b/rootfs/etc/passwd".toList ∧
      Normal "/b/rootfs/etc/passwd".toList := by
  have h : hostPath "/b/./rootfs".toList "/../../etc//passwd".toList =
      .ok "/b/rootfs/etc/passwd".toList := by rfl
  obtain ⟨-, -, -, -, hnormal, -⟩ := paths_confined.2.2 _ _ _ h
  exact ⟨h, hnormal⟩

end Nanami.Oci

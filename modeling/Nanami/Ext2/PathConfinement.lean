import Nanami.Lib.Ghost
import Nanami.Ext2.PathWalk

/-!
# A walk stays below its root

The stacks of names and ancestors of a walk always describe one way down from the root. So `..`,
absolute links and relative links never leave the subtree of the root, and the path a walk returns
leads, component by component and without following a link, to the node it returns.
-/

namespace Nanami.Ext2.PathWalk

open Lib List

/-- A name that an entry of a directory can have. -/
structure ValidName (name : Bytes) : Prop where
  nonempty : name ≠ []
  noSlash : slash ∉ name
  noNul : 0 ∉ name
  notDot : name ≠ dot
  notDotDot : name ≠ dotDot

abbrev Entries := Nat → Bytes → Except Error Node

variable {σ : Type} {fs : Filesystem σ} {tree : Entries} {root : Nat}

/-- In every state, `lookup` answers with the entries of `tree`, and `parent_name` with the entry
under which the directory stands in its parent. Nothing is asked of `read_link`. -/
structure Describes (fs : Filesystem σ) (tree : Entries) : Prop where
  lookup : ∀ d name s, wp (fs.lookup d name) (fun node _ => tree d name = .ok node)
    (fun e _ => tree d name = .error e) s
  parentName : ∀ d s, wp (fs.parentName d) (fun found _ => found.1 ≠ d →
    ValidName found.2 ∧ tree found.1 found.2 = .ok ⟨d, .directory⟩) (fun _ _ => True) s

def Child (tree : Entries) (d c : Nat) : Prop := ∃ name kind, ValidName name ∧ tree d name = .ok ⟨c, kind⟩

def Below (tree : Entries) : Nat → Nat → Prop := Relation.ReflTransGen (Child tree)

def components (path : Bytes) : List Bytes := if path = [slash] then [] else path.tail.splitOn slash

def lookupComponents (tree : Entries) : Nat → List Bytes → Except Error Node
  | d, [] => .ok ⟨d, .directory⟩
  | d, name :: names =>
    match tree d name with
    | .error e => .error e
    | .ok ⟨c, .directory⟩ => lookupComponents tree c names
    | .ok node => if names = [] then .ok node else .error .notDirectory

/-- The node that a path names, or, when its final component is missing, the directory it would
stand in. -/
def Names (tree : Entries) (root : Nat) (r : Resolved) : Prop :=
  match r.node with
  | some node => lookupComponents tree root (components r.path) = .ok node
  | none => ∃ names name, components r.path = names ++ [name] ∧
      lookupComponents tree root names = .ok ⟨r.parent, .directory⟩ ∧
      tree r.parent name = .error .missing

/-! ### The stacks -/

/-- The ancestors and names of a walk, top first, describe one way down from the root. -/
inductive Stack (tree : Entries) (root : Nat) : List Nat → List Bytes → Prop where
  | base : Stack tree root [root] []
  | push {d c ds name names} :
    Stack tree root (d :: ds) names →
    ValidName name →
    tree d name = .ok ⟨c, .directory⟩ →
    Stack tree root (c :: d :: ds) (name :: names)

/-- Where a walk stands: at its top directory, at another node in it, or at a missing name in it. -/
inductive Stands (tree : Entries) (root : Nat) (allowMissing : Bool) :
    List Nat → List Bytes → Option Node → Nat → Prop where
  | directory {d ds names parent} :
    Stack tree root (d :: ds) names →
    Stands tree root allowMissing (d :: ds) names (some ⟨d, .directory⟩) parent
  | other {d ds name names node} :
    Stack tree root (d :: ds) names →
    ValidName name →
    tree d name = .ok node →
    node.kind ≠ .directory →
    Stands tree root allowMissing (d :: ds) (name :: names) (some node) d
  | missing {d ds name names} :
    Stack tree root (d :: ds) names →
    ValidName name →
    tree d name = .error .missing →
    allowMissing = true →
    Stands tree root allowMissing (d :: ds) (name :: names) none d

/-- Names that lead down from a directory, link by link not followed. -/
inductive Leads (tree : Entries) (allowMissing : Bool) : Nat → List Bytes → Option Node → Nat → Prop where
  | here {d parent} : Leads tree allowMissing d [] (some ⟨d, .directory⟩) parent
  | other {d name node} :
    ValidName name →
    tree d name = .ok node →
    node.kind ≠ .directory →
    Leads tree allowMissing d [name] (some node) d
  | missing {d name} :
    ValidName name →
    tree d name = .error .missing →
    allowMissing = true →
    Leads tree allowMissing d [name] none d
  | down {d c name names node parent} :
    ValidName name →
    tree d name = .ok ⟨c, .directory⟩ →
    Leads tree allowMissing c names node parent →
    Leads tree allowMissing d (name :: names) node parent

variable {allowMissing : Bool} {ds : List Nat} {names : List Bytes} {node : Option Node}
  {d parent : Nat}

lemma Stack.inSubtree (h : Stack tree root ds names) : ∀ d ∈ ds, Below tree root d := by
  induction h with
  | base =>
    intro d hd
    rw [mem_singleton.mp hd]
    exact .refl
  | @push d c ds name names _ hname hentry ih =>
    intro x hx
    cases mem_cons.mp hx with
    | inl hx =>
      subst hx
      exact .tail (ih d mem_cons_self) ⟨name, _, hname, hentry⟩
    | inr hx => exact ih x hx

lemma Stack.leads (h : Stack tree root ds names) :
    ∀ {d rest}, ds = d :: rest → ∀ {more}, Leads tree allowMissing d more node parent →
      Leads tree allowMissing root (names.reverse ++ more) node parent := by
  induction h with
  | base =>
    rintro d rest ⟨⟩ more hmore
    exact hmore
  | push _ hname hentry ih =>
    rintro d rest ⟨⟩ more hmore
    rw [reverse_cons, append_assoc]
    exact ih rfl (.down hname hentry hmore)

lemma Stands.leads (h : Stands tree root allowMissing ds names node parent) :
    Leads tree allowMissing root names.reverse node parent := by
  cases h with
  | directory hs => simpa using hs.leads rfl .here
  | other hs hname hentry hkind =>
    rw [reverse_cons]
    exact hs.leads rfl (.other hname hentry hkind)
  | missing hs hname hentry hallow =>
    rw [reverse_cons]
    exact hs.leads rfl (.missing hname hentry hallow)

lemma Leads.valid (h : Leads tree allowMissing d names node parent) :
    ∀ name ∈ names, ValidName name := by
  induction h with
  | here => exact fun _ h => absurd h not_mem_nil
  | other hname => exact forall_mem_singleton.mpr hname
  | missing hname => exact forall_mem_singleton.mpr hname
  | down hname _ _ ih => exact forall_mem_cons.mpr ⟨hname, ih⟩

lemma Leads.inSubtree (h : Leads tree allowMissing d names node parent) :
    ∀ found ∈ node, Below tree d found.inode := by
  induction h with
  | here =>
    rintro found ⟨⟩
    exact .refl
  | other hname hentry =>
    rintro found ⟨⟩
    exact .single ⟨_, _, hname, hentry⟩
  | missing => rintro found ⟨⟩
  | down hname hentry _ ih =>
    intro found hfound
    exact .head ⟨_, _, hname, hentry⟩ (ih found hfound)

variable {found : Node} {current start : Nat} {E : Error → σ → Prop}

lemma Leads.lookup_some (h : Leads tree allowMissing d names node parent)
    (hnode : node = some found) : lookupComponents tree d names = .ok found := by
  induction h with
  | here =>
    cases hnode
    rfl
  | @other d name node _ hentry hkind =>
    cases hnode
    obtain ⟨inode, kind⟩ := found
    cases kind with
    | directory => exact absurd rfl hkind
    | file | symlink | socket => simp [lookupComponents, hentry]
  | missing => cases hnode
  | down _ hentry _ ih =>
    rw [lookupComponents, hentry]
    exact ih hnode

lemma Leads.lookup_none (h : Leads tree allowMissing d names node parent) (hnode : node = none) :
    ∃ above name, names = above ++ [name] ∧
      lookupComponents tree d above = .ok ⟨parent, .directory⟩ ∧ tree parent name = .error .missing := by
  induction h with
  | here => cases hnode
  | other => cases hnode
  | @missing d name _ hentry => exact ⟨[], name, rfl, rfl, hentry⟩
  | @down d c first names node parent _ hentry _ ih =>
    obtain ⟨above, name, rfl, hlookup, hmissing⟩ := ih hnode
    refine ⟨first :: above, name, rfl, ?_, hmissing⟩
    rw [lookupComponents, hentry]
    exact hlookup

/-! ### The components of the input -/

variable {input name rest : Bytes} {inode room : Nat} {mayMiss : Bool} {seen : List Nat} {s : σ}

lemma validName_takeWhile (h : input.dropWhile (· = slash) ≠ []) (h0 : 0 ∉ input)
    (hdot : (input.dropWhile (· = slash)).takeWhile (· ≠ slash) ≠ dot)
    (hdots : (input.dropWhile (· = slash)).takeWhile (· ≠ slash) ≠ dotDot) :
    ValidName ((input.dropWhile (· = slash)).takeWhile (· ≠ slash)) where
  nonempty := by
    have hhead := head_dropWhile_not (· = slash) h
    cases hd : input.dropWhile (· = slash) with
    | nil => exact absurd hd h
    | cons a l =>
      have ha : a ≠ slash := by simpa [hd] using hhead
      rw [takeWhile_cons_of_pos (by simpa using ha)]
      exact cons_ne_nil _ _
  noSlash := fun hmem => by simpa using mem_takeWhile_imp hmem
  noNul := fun hmem =>
    h0 ((dropWhile_suffix _).subset ((List.takeWhile_prefix _).subset hmem))
  notDot := hdot
  notDotDot := hdots

lemma noNul_rest (h0 : 0 ∉ input) :
    0 ∉ (input.dropWhile (· = slash)).dropWhile (· ≠ slash) := fun hmem =>
  h0 ((dropWhile_suffix _).subset ((dropWhile_suffix _).subset hmem))

/-! ### What a walk keeps -/

/-- A file system's state with the directories it was asked for names in and the number of links it
was asked to read. -/
structure Record (σ : Type) where
  state : σ
  consulted : List Nat
  links : Nat

def recording (fs : Filesystem σ) : Filesystem (Record σ) where
  lookup d name := do
    modify fun r => { r with consulted := d :: r.consulted }
    zoom Record.state (fun t r => { r with state := t }) (fs.lookup d name)
  readLink inode := do
    modify fun r => { r with links := r.links + 1 }
    zoom Record.state (fun t r => { r with state := t }) (fs.readLink inode)
  parentName d := zoom Record.state (fun t r => { r with state := t }) (fs.parentName d)

/-- What holds between two rounds of a walk that is recorded. -/
structure Confined (tree : Entries) (root : Nat) (allowMissing : Bool) (w : Walk) (r : Record σ) :
    Prop where
  stands : Stands tree root allowMissing w.ancestors w.names w.node w.parent
  noNul : 0 ∉ w.remaining
  consulted : ∀ d ∈ r.consulted, Below tree root d
  links : r.links = w.links
  few : w.links ≤ symlinkMax

variable {followFinal : Bool} {w : Walk} {r : Record σ}

lemma recording_lookup (h : Describes fs tree) :
    wp ((recording fs).lookup d name)
      (fun node t => tree d name = .ok node ∧ t.consulted = d :: r.consulted ∧ t.links = r.links)
      (fun e t => tree d name = .error e ∧ t.consulted = d :: r.consulted ∧ t.links = r.links) r := by
  rw [recording, wp_update, wp_zoom]
  exact wp_mono (h.lookup d name _) (fun _ _ ha => ⟨ha, rfl, rfl⟩) (fun _ _ he => ⟨he, rfl, rfl⟩)

lemma recording_readLink :
    wp ((recording fs).readLink inode)
      (fun _ t => t.consulted = r.consulted ∧ t.links = r.links + 1)
      (fun _ t => t.links = r.links + 1) r := by
  rw [recording, wp_update, wp_zoom]
  exact wp_of_run (fun _ _ _ => ⟨rfl, rfl⟩) (fun _ _ _ => rfl)

lemma recording_parentName (h : Describes fs tree) :
    wp ((recording fs).parentName d)
      (fun found t => (found.1 ≠ d →
        ValidName found.2 ∧ tree found.1 found.2 = .ok ⟨d, .directory⟩) ∧
        t.consulted = r.consulted ∧ t.links = r.links)
      (fun _ t => t.links = r.links) r := by
  rw [recording, wp_zoom]
  exact wp_mono (h.parentName d _) (fun _ _ ha => ⟨ha, rfl, rfl⟩) (fun _ _ _ => rfl)

def GoesOn (tree : Entries) (root : Nat) (allowMissing : Bool) (next : Option Walk) (r : Record σ) :
    Prop := ∃ b, next = some b ∧ Confined tree root allowMissing b r

lemma Stack.bottom (h : Stack tree root ds names) : ds.drop (ds.length - 1) = [root] := by
  induction h with
  | base => rfl
  | push _ _ _ ih => simpa using ih

def Finds (tree : Entries) (d : Nat) (name : Bytes) (mayMiss : Bool) : Option Node → Prop
  | some found => tree d name = .ok found
  | none => tree d name = .error .missing ∧ mayMiss = true

lemma find_spec (h : Describes fs tree) (hfew : r.links ≤ symlinkMax) :
    wp (find (recording fs) d name mayMiss)
      (fun node t => Finds tree d name mayMiss node ∧ t.consulted = d :: r.consulted ∧
        t.links = r.links)
      (fun _ t => t.links ≤ symlinkMax) r := by
  rw [find, wp_try]
  refine wp_mono (recording_lookup h) (fun found t ht => ht) (fun e t ht => ?_)
  have hlinks : t.links ≤ symlinkMax := ht.2.2 ▸ hfew
  cases e with
  | missing => exact wp_ite (fun hmay => ⟨⟨ht.1, hmay⟩, ht.2⟩) (fun _ => hlinks)
  | _ => exact hlinks

section Walks

variable (hw : Confined tree root allowMissing w r)
include hw

lemma Confined.stack (hnode : w.node = some ⟨d, .directory⟩) :
    ∃ ds, w.ancestors = d :: ds ∧ Stack tree root (d :: ds) w.names := by
  have hstands := hw.stands
  rw [hnode] at hstands
  generalize w.ancestors = ancestors, w.names = names, w.parent = parent at hstands ⊢
  cases hstands with
  | directory hs => exact ⟨_, rfl, hs⟩
  | other _ _ _ hkind => exact absurd rfl hkind

lemma Confined.fewLinks : r.links ≤ symlinkMax :=
  hw.links ▸ hw.few

lemma Confined.consult {t : Record σ}
    (hd : Below tree root d) (hc : t.consulted = d :: r.consulted) (hl : t.links = r.links) :
    Confined tree root allowMissing w t where
  stands := hw.stands
  noNul := hw.noNul
  consulted := by
    rw [hc]
    exact forall_mem_cons.mpr ⟨hd, hw.consulted⟩
  links := hl.trans hw.links
  few := hw.few

lemma ascend_spec (hs : Stack tree root w.ancestors w.names) (h0 : 0 ∉ rest) :
    wp (ascend w rest) (GoesOn tree root allowMissing) (fun _ t => t.links ≤ symlinkMax) r := by
  refine wp_lookup hw.fewLinks fun directory hd => ?_
  refine ⟨_, rfl, ?_, h0, hw.consulted, hw.links, hw.few⟩
  generalize w.ancestors = ancestors, w.names = names at hs hd ⊢
  cases hs with
  | base =>
    obtain rfl : root = directory := Option.some.inj hd
    exact .directory .base
  | push hs hname hentry =>
    obtain rfl := Option.some.inj hd
    exact .directory hs

section Directory

variable (hd : w.ancestors = d :: ds) (hs : Stack tree root (d :: ds) w.names) (h0 : 0 ∉ rest)
include hd hs h0

lemma follow_spec :
    wp (follow (recording fs) w parent inode rest) (GoesOn tree root allowMissing)
      (fun _ t => t.links ≤ symlinkMax) r := by
  refine wp_guard hw.fewLinks fun hlinks => ?_
  have hroom : r.links + 1 ≤ symlinkMax := by
    rw [hw.links]
    exact Nat.le_of_not_lt hlinks
  refine wp_then recording_readLink (fun target t ht => ?_) (fun _ t ht => ht ▸ hroom)
  obtain ⟨htc, htl⟩ := ht
  have hfew : t.links ≤ symlinkMax := htl ▸ hroom
  refine wp_guard hfew fun _ => wp_guard hfew fun hnul => ?_
  refine wp_guard hfew fun _ => ?_
  refine wp_lookup hfew fun directory hdir => ?_
  refine ⟨_, rfl, ?_, ?_, htc ▸ hw.consulted, htl.trans (congrArg (· + 1) hw.links), ?_⟩
  · -- an absolute target starts at the root again, a relative one where the link stands
    by_cases habs : target.head? = some slash
    · simp only [habs, if_true] at hdir ⊢
      rw [hd, hs.bottom] at hdir ⊢
      obtain rfl : root = directory := Option.some.inj hdir
      exact .directory .base
    · simp only [habs, if_false] at hdir ⊢
      rw [hd] at hdir ⊢
      obtain rfl : d = directory := Option.some.inj hdir
      exact .directory hs
  · rw [mem_append, not_or]
    exact ⟨hnul, h0⟩
  · exact Nat.le_of_not_lt hlinks

lemma enter_spec {final} (hname : ValidName name)
    (hnode : Finds tree d name allowMissing node) :
    wp (enter w d name rest node final) (GoesOn tree root allowMissing)
      (fun _ t => t.links ≤ symlinkMax) r := by
  refine wp_guard hw.fewLinks fun _ => ?_
  refine ⟨_, rfl, ?_, h0, hw.consulted, hw.links, hw.few⟩
  simp only [hd]
  cases node with
  | none => exact .missing hs hname hnode.1 hnode.2
  | some found =>
    obtain ⟨inode, kind⟩ := found
    cases kind with
    | directory => exact .directory (.push hs hname hnode)
    | file | symlink | socket => exact .other hs hname hnode Kind.noConfusion

lemma component_spec (h : Describes fs tree) (hname : ValidName name) :
    wp (component (recording fs) followFinal allowMissing w d name rest)
      (GoesOn tree root allowMissing) (fun _ t => t.links ≤ symlinkMax) r := by
  refine wp_seq (find_spec h hw.fewLinks) (fun node t ht => ?_)
  obtain ⟨hfound, htc, htl⟩ := ht
  have hw' := hw.consult (hs.inSubtree _ mem_cons_self) htc htl
  have hnode : Finds tree d name allowMissing node := by
    cases node with
    | some found => exact hfound
    | none => exact ⟨hfound.1, (Bool.and_eq_true_iff.mp hfound.2).2⟩
  split
  · refine wp_ite (fun _ => ?_) (fun _ => ?_)
    · exact follow_spec hw' hd hs h0
    · exact enter_spec hw' hd hs h0 hname hnode
  · exact enter_spec hw' hd hs h0 hname hnode

end Directory

lemma step_spec (h : Describes fs tree) :
    wp (step (recording fs) followFinal allowMissing w)
      (afterRound (Confined tree root allowMissing) (Confined tree root allowMissing) w)
      (fun _ t => t.links ≤ symlinkMax) r := by
  have goesOn : ∀ (next : Option Walk) (t : Record σ), GoesOn tree root allowMissing next t →
      afterRound (Confined tree root allowMissing) (Confined tree root allowMissing) w next t := by
    rintro _ t ⟨b, rfl, hb⟩
    exact hb
  refine wp_ite (fun _ => hw) (fun hinput => ?_)
  have hrest := noNul_rest hw.noNul
  split
  · rename_i hnode
    obtain ⟨ds, hd, hs⟩ := hw.stack hnode
    refine wp_ite (fun _ => ?_) (fun hdot => wp_ite (fun _ => ?_) (fun hdots => ?_))
    · exact ⟨hw.stands, hrest, hw.consulted, hw.links, hw.few⟩
    · exact wp_post (ascend_spec hw (hd ▸ hs) hrest) goesOn
    · have hname := validName_takeWhile hinput hw.noNul hdot hdots
      exact wp_post (component_spec hw hd hs hrest h hname) goesOn
  · exact hw.fewLinks

lemma walk_spec (h : Describes fs tree) :
    wp (walk (recording fs) followFinal allowMissing w) (Confined tree root allowMissing)
      (fun _ t => t.links ≤ symlinkMax) r :=
  wp_loop_invariant (fun _ _ hw => step_spec hw h) hw

end Walks

lemma position_spec (h : Describes fs tree) :
    wp (position (recording fs) root room seen current)
      (fun found t => Stack tree root found.1 found.2 ∧ found.1.head? = some current ∧
        t.consulted = r.consulted ∧ t.links = r.links)
      (fun _ t => t.links = r.links) r := by
  induction room generalizing seen current r with
  | zero =>
    refine wp_ite (fun hroot => ?_) (fun _ => rfl)
    exact ⟨.base, congrArg some hroot.symm, rfl, rfl⟩
  | succ room ih =>
    refine wp_ite (fun hroot => ?_) (fun _ => wp_guard rfl fun _ => ?_)
    · exact ⟨.base, congrArg some hroot.symm, rfl, rfl⟩
    refine wp_seq (recording_parentName h) fun found t ht => ?_
    obtain ⟨hentry, htc, htl⟩ := ht
    refine wp_guard htl fun hself => ?_
    obtain ⟨hname, hchild⟩ := hentry hself
    refine wp_then ih (fun above u hu => ?_) (fun _ u hu => hu.trans htl)
    obtain ⟨hs, hhead, huc, hul⟩ := hu
    refine ⟨?_, rfl, huc.trans htc, hul.trans htl⟩
    obtain ⟨ancestors, names⟩ := above
    cases ancestors with
    | nil => cases hhead
    | cons a as =>
      obtain rfl := Option.some.inj hhead
      exact .push hs hname hchild

/-! ### The path that is returned -/

def slashed (names : List Bytes) : Bytes := names.flatMap (slash :: ·)

def absolute (names : List Bytes) : Bytes := if names = [] then [slash] else slashed names

lemma slashed_cons : slashed (name :: names) = slash :: (name ++ slashed names) := rfl

/-- A path is written as a whole, or it is too long. The first name has its slash already. -/
lemma writePath_from {path index} (hlen : path.length ≤ pathMax) :
    (writePath path index names : EStateM Error σ Bytes) =
      if (path ++ (slashed names).drop (if index = 0 then 1 else 0)).length ≤ pathMax then
        pure (path ++ (slashed names).drop (if index = 0 then 1 else 0))
      else throw .tooLong := by
  induction names generalizing path index with
  | nil =>
    rw [writePath, slashed, flatMap_nil, drop_nil, append_nil, if_pos hlen]
  | cons name names ih =>
    have hjoin : path ++ (slashed (name :: names)).drop (if index = 0 then 1 else 0) =
        (if index ≠ 0 then path ++ [slash] else path) ++ name ++ slashed names := by
      by_cases h : index = 0 <;> simp [slashed_cons, h]
    rw [writePath, hjoin]
    by_cases hlong : ((if index ≠ 0 then path ++ [slash] else path) ++ name).length > pathMax
    · have hmore : ¬((if index ≠ 0 then path ++ [slash] else path) ++ name ++
          slashed names).length ≤ pathMax := by
        rw [length_append]
        omega
      simp only [if_pos hlong, if_neg hmore]
    · simp only [if_neg hlong]
      exact ih (Nat.le_of_not_lt hlong)

lemma writePath_eq : (writePath [slash] 0 names : EStateM Error σ Bytes) =
    if (absolute names).length ≤ pathMax then pure (absolute names) else throw .tooLong := by
  have hjoin : absolute names = [slash] ++ (slashed names).drop 1 := by
    cases names with
    | nil => rfl
    | cons name names => rfl
  rw [hjoin]
  exact writePath_from (by decide)

lemma slashed_eq_intercalate :
    slashed (name :: names) = slash :: [slash].intercalate (name :: names) := by
  induction names generalizing name with
  | nil => simp [slashed]
  | cons next names ih =>
    rw [slashed_cons, ih]
    simp [List.intercalate, List.intersperse]

lemma head_absolute : (absolute names).head? = some slash := by
  cases names with
  | nil => rfl
  | cons name names => rfl

lemma components_absolute (h : ∀ name ∈ names, ValidName name) : components (absolute names) = names := by
  cases names with
  | nil => rfl
  | cons name names =>
    have hname := (h name mem_cons_self).nonempty
    have hne : slashed (name :: names) ≠ [slash] := by
      intro heq
      exact hname (append_eq_nil_iff.mp (List.cons.inj heq).2).1
    rw [absolute, if_neg (cons_ne_nil _ _), components, if_neg hne, slashed_eq_intercalate,
      tail_cons]
    exact splitOn_intercalate slash (fun n hn => (h n hn).noSlash) (cons_ne_nil _ _)

/-! ### Resolving the returned path again -/

lemma slashed_head (names : List Bytes) : slashed names = [] ∨ ∃ rest, slashed names = slash :: rest := by
  cases names with
  | nil => exact .inl rfl
  | cons name names => exact .inr ⟨_, rfl⟩

lemma split_slashed (hname : ValidName name) (names : List Bytes) :
    (slashed (name :: names)).dropWhile (· = slash) = name ++ slashed names ∧
    (name ++ slashed names).takeWhile (· ≠ slash) = name ∧
    (name ++ slashed names).dropWhile (· ≠ slash) = slashed names := by
  have hall : ∀ b ∈ name, decide (b ≠ slash) = true := by
    intro b hb
    exact decide_eq_true fun heq => hname.noSlash (heq ▸ hb)
  refine ⟨?_, ?_, ?_⟩
  · obtain ⟨b, bs, hb⟩ := exists_cons_of_ne_nil hname.nonempty
    have hfirst := of_decide_eq_true (hall b (hb ▸ mem_cons_self))
    rw [slashed_cons, hb, dropWhile_cons_of_pos (by simp), cons_append,
      dropWhile_cons_of_neg (by simpa using hfirst)]
  · rw [takeWhile_append_of_pos hall]
    rcases slashed_head names with h | ⟨rest, h⟩ <;> simp [h]
  · rw [dropWhile_append_of_pos hall]
    rcases slashed_head names with h | ⟨rest, h⟩ <;> simp [h]

lemma step_slashed (hname : ValidName name) (hr : w.remaining = slashed (name :: names))
    (hnode : w.node = some ⟨d, .directory⟩) :
    step fs followFinal allowMissing w =
      component fs followFinal allowMissing w d name (slashed names) := by
  obtain ⟨hskip, htake, hdrop⟩ := split_slashed hname names
  have hne : name ++ slashed names ≠ [] := fun h => hname.nonempty (append_eq_nil_iff.mp h).1
  simp only [step, hr, hskip, htake, hdrop, hnode, if_neg hne, if_neg hname.notDot,
    if_neg hname.notDotDot]

lemma walk_end {Q} (hr : w.remaining.dropWhile (· = slash) = []) (hQ : Q w s) :
    wp (walk fs followFinal allowMissing w) Q E s := by
  rw [walk, wp_loop]
  simp only [step, hr, if_true]
  exact hQ

lemma find_some (h : Describes fs tree) (hentry : tree d name = .ok found) :
    wp (find fs d name mayMiss) (fun node _ => node = some found) (fun _ _ => False) s := by
  rw [find, wp_try]
  refine wp_mono (h.lookup d name s) (fun a _ ha => ?_) (fun e _ he => ?_)
  · exact congrArg some (Except.ok.inj (ha.symm.trans hentry))
  · cases he.symm.trans hentry

lemma find_missing (h : Describes fs tree) (hentry : tree d name = .error .missing) :
    wp (find fs d name true) (fun node _ => node = none) (fun _ _ => False) s := by
  rw [find, wp_try]
  refine wp_mono (h.lookup d name s) (fun a _ ha => ?_) (fun e _ he => ?_)
  · cases ha.symm.trans hentry
  · obtain rfl := Except.error.inj (he.symm.trans hentry)
    rfl

lemma enter_final {Q} (hQ : Q (some { w with
      remaining := []
      ancestors := pushDirectory node w.ancestors
      names := name :: w.names
      node := node
      parent := parent
      lastName := name }) s) : wp (enter w parent name [] node true) Q E s := by
  exact hQ

lemma walk_slashed (h : Describes fs tree) (hl : Leads tree allowMissing d names node parent) :
    ∀ {w : Walk} {s : σ}, w.remaining = slashed names → w.node = some ⟨d, .directory⟩ →
      wp (walk fs false allowMissing w)
        (fun v _ => v.node = node ∧ v.names = names.reverse ++ w.names) (fun _ _ => False) s := by
  induction hl with
  | here =>
    intro w s hr hnode
    exact walk_end (by rw [hr]; rfl) ⟨hnode, rfl⟩
  | @other d name found hname hentry hkind =>
    intro w s hr hnode
    rw [walk, wp_loop, step_slashed hname hr hnode, component]
    refine wp_seq (find_some h hentry) ?_
    rintro _ t rfl
    obtain ⟨inode, kind⟩ := found
    cases kind with
    | directory => exact absurd rfl hkind
    | symlink | file | socket => exact enter_final (walk_end rfl ⟨rfl, rfl⟩)
  | @missing d name hname hentry hallow =>
    intro w s hr hnode
    subst hallow
    rw [walk, wp_loop, step_slashed hname hr hnode, component]
    refine wp_seq (find_missing h hentry) ?_
    rintro _ t rfl
    exact enter_final (walk_end rfl ⟨rfl, rfl⟩)
  | @down d c name names node parent hname hentry _ ih =>
    intro w s hr hnode
    rw [walk, wp_loop, step_slashed hname hr hnode, component]
    refine wp_seq (find_some h hentry) ?_
    rintro _ t rfl
    simp only [enter]
    rw [if_neg (by simp), wp_pure]
    refine wp_post (ih rfl rfl) (fun v _ hv => ?_)
    refine ⟨hv.1, ?_⟩
    rw [hv.2, reverse_cons, append_assoc]
    rfl

lemma Leads.allow {allow} (h : Leads tree allowMissing d names node parent)
    (hallow : node = none → allow = true) : Leads tree allow d names node parent := by
  induction h with
  | here => exact .here
  | other hname hentry hkind => exact .other hname hentry hkind
  | missing hname hentry => exact .missing hname hentry (hallow rfl)
  | down hname hentry _ ih => exact .down hname hentry (ih hallow)

lemma position_root : position fs root room seen root = pure ([root], []) := by
  cases room with
  | zero => rw [position, if_pos rfl]
  | succ room => rw [position, if_pos rfl]

lemma resolve_absolute (h : Describes fs tree) (hl : Leads tree allowMissing root names node parent)
    (hlen : (absolute names).length ≤ pathMax) (start : Nat) (s : σ) :
    wp (resolve fs root start (absolute names) false allowMissing)
      (fun r _ => r.node = node ∧ r.path = absolute names) (fun _ _ => False) s := by
  have hne : absolute names ≠ [] := fun heq => by
    have hhead := @head_absolute names
    rw [heq] at hhead
    cases hhead
  have hnul : 0 ∉ absolute names := by
    rw [absolute]
    split
    · decide
    · rw [slashed, mem_flatMap]
      rintro ⟨name, hname, hmem⟩
      cases mem_cons.mp hmem with
      | inl heq => exact absurd heq (by decide)
      | inr hmem => exact (hl.valid name hname).noNul hmem
  rw [resolve, if_neg (by simp [hne, hnul, hlen]), if_pos head_absolute, position_root, pure_bind]
  show wp (walk fs false allowMissing _ >>= _) _ _ _
  rw [wp_bind]
  have hwalk : ∀ w : Walk, w.remaining = absolute names → w.node = some ⟨root, .directory⟩ →
      w.names = [] → wp (walk fs false allowMissing w)
        (fun v _ => v.node = node ∧ v.names = names.reverse) (fun _ _ => False) s := by
    intro w hr hnode hn
    cases names with
    | nil =>
      cases hl
      exact walk_end (by rw [hr]; rfl) ⟨hnode, hn⟩
    | cons name names => simpa only [hn, append_nil] using walk_slashed h hl hr hnode
  refine wp_post (hwalk _ rfl rfl rfl) (fun v _ hv => ?_)
  rw [hv.2, reverse_reverse, writePath_eq, if_pos hlen]
  exact ⟨hv.1, rfl⟩

/-! ### The record says what the file system itself is asked -/

lemma find_mirrors :
    Mirrors Record.state (find (recording fs) d name mayMiss) (find fs d name mayMiss) := by
  have hlookup : Mirrors Record.state ((recording fs).lookup d name) (fs.lookup d name) :=
    .note (fun _ => rfl) (.zoom fun _ _ => rfl)
  refine .bind hlookup.attempt (fun found => ?_)
  split
  · exact .pure
  · exact .ite .pure .throw
  · exact .throw

lemma follow_mirrors :
    Mirrors Record.state (follow (recording fs) w parent inode rest) (follow fs w parent inode rest) := by
  have hread : Mirrors Record.state ((recording fs).readLink inode) (fs.readLink inode) :=
    .note (fun _ => rfl) (.zoom fun _ _ => rfl)
  refine .ite .throw (.bind hread fun target => ?_)
  exact .ite .throw (.ite .throw (.ite .throw (.bind .okOr fun _ => .pure)))

lemma step_mirrors : Mirrors Record.state (step (recording fs) followFinal allowMissing w)
    (step fs followFinal allowMissing w) := by
  refine .ite .pure ?_
  split
  · refine .ite .pure (.ite (.bind .okOr fun _ => .pure) (.bind find_mirrors fun node => ?_))
    split
    · exact .ite follow_mirrors (.ite .throw .pure)
    · exact .ite .throw .pure
  · exact .throw

lemma position_mirrors :
    Mirrors Record.state (position (recording fs) root room seen current)
      (position fs root room seen current) := by
  induction room generalizing seen current with
  | zero =>
    exact .ite .pure .throw
  | succ room ih =>
    refine .ite .pure (.ite .throw (.bind (.zoom fun _ _ => rfl) fun found => ?_))
    exact .ite .throw (.bind ih fun _ => .pure)

lemma resolve_mirrors :
    Mirrors Record.state (resolve (recording fs) root start input followFinal allowMissing)
      (resolve fs root start input followFinal allowMissing) := by
  refine .ite .throw (.bind position_mirrors fun found => .bind .okOr fun _ => ?_)
  refine .bind (.loop (fun _ => step_mirrors) _) fun w => .bind ?_ fun _ => .pure
  rw [writePath_eq, writePath_eq]
  exact .ite .pure .throw

/-- What a walk that returned `r` and left the record `t` guarantees. -/
structure Sound (fs : Filesystem σ) (tree : Entries) (root : Nat) (r : Resolved) (t : Record σ) :
    Prop where
  consulted : ∀ d ∈ t.consulted, Below tree root d
  node : ∀ found ∈ r.node, Below tree root found.inode
  absolute : r.path.head? = some slash
  clean : ∀ name ∈ components r.path, name ≠ [] ∧ name ≠ dot ∧ name ≠ dotDot
  names : Names tree root r
  again : ∀ allow start s, (r.node = none → allow = true) →
    ∃ r' t', resolve fs root start r.path false allow s = .ok r' t' ∧
      r'.node = r.node ∧ r'.path = r.path

lemma sound_of_leads (h : Describes fs tree) (hc : ∀ d ∈ r.consulted, Below tree root d)
    (hl : Leads tree allowMissing root names node parent)
    (hlen : (absolute names).length ≤ pathMax) :
    Sound fs tree root ⟨node, parent, name, absolute names⟩ r where
  consulted := hc
  node := hl.inSubtree
  absolute := head_absolute
  clean := by
    rw [components_absolute hl.valid]
    intro name hname
    have hvalid := hl.valid name hname
    exact ⟨hvalid.nonempty, hvalid.notDot, hvalid.notDotDot⟩
  names := by
    rw [Names, components_absolute hl.valid]
    cases node with
    | some found => exact hl.lookup_some rfl
    | none => exact hl.lookup_none rfl
  again := by
    intro allow start s hallow
    have hagain := resolve_absolute h (hl.allow hallow) hlen start s
    rw [wp] at hagain
    split at hagain
    · rename_i r' t' hrun
      exact ⟨r', t', hrun, hagain⟩
    · exact hagain.elim

lemma resolve_sound (h : Describes fs tree) :
    wp (resolve (recording fs) root start input followFinal allowMissing)
      (fun r t => Sound fs tree root r t ∧ t.links ≤ symlinkMax)
      (fun _ t => t.links ≤ symlinkMax) ⟨s, [], 0⟩ := by
  refine wp_guard (Nat.zero_le _) fun hinput => ?_
  rw [not_or, not_or] at hinput
  refine wp_then (position_spec h) (fun found t ht => ?_) (fun _ t ht => ht ▸ Nat.zero_le _)
  obtain ⟨ancestors, names⟩ := found
  obtain ⟨hs, hhead, htc, htl⟩ := ht
  show wp (okOr ancestors.head? Error.invalid >>= _) _ _ _
  rw [hhead, okOr_some, pure_bind, wp_bind]
  generalize (if input.head? = some slash then root else start) = current at hhead ⊢
  have hstands : Stands tree root allowMissing ancestors names (Walk.standAt current) current := by
    cases ancestors with
    | nil => cases hhead
    | cons d ds =>
      cases hhead
      exact .directory hs
  have hnone : ∀ d ∈ t.consulted, Below tree root d := by
    rw [htc]
    exact fun _ hd => absurd hd not_mem_nil
  refine wp_post (walk_spec ⟨hstands, hinput.2.2, hnone, htl, Nat.zero_le _⟩ h) (fun w u hw => ?_)
  rw [wp_bind, writePath_eq]
  refine wp_ite (fun hlen => ?_) (fun _ => hw.fewLinks)
  exact ⟨sound_of_leads h hw.consulted hw.stands.leads hlen, hw.fewLinks⟩

/-- For every file system whose lookups describe a directory tree, `resolve` reads at most forty
links; and what it returns is sound: it consulted nothing outside the subtree of the root, and its
path is clean, leads to its node and resolves to itself. -/
theorem resolve_confined (h : Describes fs tree) (root start : Nat) (input : Bytes)
    (followFinal allowMissing : Bool) (s : σ) :
    let run := resolve (recording fs) root start input followFinal allowMissing
    projectResult Record.state (run ⟨s, [], 0⟩) =
        resolve fs root start input followFinal allowMissing s ∧
      (stateAfter run ⟨s, [], 0⟩).links ≤ 40 ∧
      ∀ r t, run ⟨s, [], 0⟩ = .ok r t → Sound fs tree root r t := by
  intro run
  have hrun : wp run (fun r t => Sound fs tree root r t ∧ t.links ≤ symlinkMax)
      (fun _ t => t.links ≤ symlinkMax) ⟨s, [], 0⟩ := resolve_sound h
  refine ⟨resolve_mirrors _, ?_, fun r t hok => (wp_ok hrun hok).1⟩
  exact stateAfter_of_wp (wp_post hrun (fun _ _ h => h.2))

def sampleTree : Entries
  | 2, [97] => .ok ⟨3, .directory⟩
  | 3, [108] => .ok ⟨4, .symlink⟩
  | _, _ => .error .missing

def sampleFilesystem : Filesystem Unit where
  lookup d name := fromResult (sampleTree d name)
  readLink _ := pure [46, 46, 47, 46, 46, 47, 97]
  parentName d := if d = 3 then pure (2, [97]) else throw .missing

lemma sampleFilesystem_describes : Describes sampleFilesystem sampleTree where
  lookup _ _ _ := wp_fromResult (fun _ h => h) (fun _ h => h)
  parentName d s := by
    refine wp_ite (fun hd => ?_) (fun _ => trivial)
    rw [hd]
    exact fun _ => ⟨by constructor <;> decide, rfl⟩

/-- Following the link from the lower directory leads to that directory again. -/
theorem resolve_confined_through_link : ∃ r t,
    resolve (recording sampleFilesystem) 2 3 [108] true false ⟨(), [], 0⟩ = .ok r t ∧
      r.node = some ⟨3, .directory⟩ ∧ r.path = [47, 97] ∧ t.links = 1 ∧
      Sound sampleFilesystem sampleTree 2 r t := by
  have hrun : (match resolve (recording sampleFilesystem) 2 3 [108] true false ⟨(), [], 0⟩ with
      | .ok r t => decide (r.node = some ⟨3, .directory⟩ ∧ r.path = [47, 97] ∧ t.links = 1)
      | .error _ _ => false) = true := by decide +kernel
  split at hrun
  · rename_i r t hok
    obtain ⟨hnode, hpath, hlinks⟩ := of_decide_eq_true hrun
    exact ⟨r, t, hok, hnode, hpath, hlinks,
      (resolve_confined sampleFilesystem_describes 2 3 [108] true false ()).2.2 r t hok⟩
  · cases hrun

end Nanami.Ext2.PathWalk

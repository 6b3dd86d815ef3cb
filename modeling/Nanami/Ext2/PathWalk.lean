import Nanami.Lib.Loop

/-!
# Walking a pathname

The namespace-rooted walk of `path_walk.rs`, over any implementation of its `Filesystem` trait. The
vectors `names` and `ancestors` are used as stacks and stand here with their top first; the pair of
`remaining` and `cursor` is the part of `remaining` from the cursor on.
-/

namespace Nanami.Ext2.PathWalk

open Lib

abbrev Bytes := List UInt8

def slash : UInt8 := 47

def dot : Bytes := [46]

def dotDot : Bytes := [46, 46]

def pathMax : Nat := 4096

def symlinkMax : Nat := 40

inductive Error where
  | invalid | missing | notDirectory | loop | tooLong | exists | io | noSpace | readOnly | unsupported
  deriving DecidableEq, Repr

inductive Kind where
  | file | directory | symlink | socket
  deriving DecidableEq, Repr

structure Node where
  inode : Nat
  kind : Kind
  deriving DecidableEq, Repr

/-- The trait `Filesystem`: an implementation may keep a state of its own. -/
structure Filesystem (σ : Type) where
  lookup : Nat → Bytes → EStateM Error σ Node
  readLink : Nat → EStateM Error σ Bytes
  parentName : Nat → EStateM Error σ (Nat × Bytes)

structure Resolved where
  node : Option Node
  parent : Nat
  name : Bytes
  path : Bytes
  deriving DecidableEq, Repr

section Walk

variable {σ : Type} (fs : Filesystem σ)

/-- The loop that climbs from `current` to the root. `room` is how many ancestors may still be
pushed, `seen` are those pushed so far. -/
def position (root : Nat) : Nat → List Nat → Nat → EStateM Error σ (List Nat × List Bytes)
  | room, seen, current =>
    if current = root then pure ([root], [])
    else
      match room with
      | 0 => throw .invalid
      | room + 1 =>
        if current ∈ seen then throw .invalid
        else do
          let found ← fs.parentName current
          -- a descriptor outside the namespace
          if found.1 = current then throw .invalid
          else do
            let above ← position root room (current :: seen) found.1
            pure (current :: above.1, found.2 :: above.2)

/-- The variables of the main loop. -/
structure Walk where
  remaining : Bytes
  links : Nat
  ancestors : List Nat
  names : List Bytes
  node : Option Node
  parent : Nat
  lastName : Bytes

namespace Walk

def standAt (inode : Nat) : Option Node := some ⟨inode, .directory⟩

/-- What every round makes smaller: a followed link costs more than any rest of the input. -/
def measure (w : Walk) : Nat := (symlinkMax - w.links) * (pathMax + 1) + w.remaining.length

end Walk

def ascend (w : Walk) (rest : Bytes) : EStateM Error σ (Option Walk) := do
  let ancestors := if w.ancestors.length > 1 then w.ancestors.tail else w.ancestors
  let names := if w.ancestors.length > 1 then w.names.tail else w.names
  let directory ← okOr ancestors.head? .invalid
  pure (some { w with
    remaining := rest
    ancestors := ancestors
    names := names
    node := Walk.standAt directory
    parent := directory
    lastName := [] })

def find (parent : Nat) (name : Bytes) (mayMiss : Bool) : EStateM Error σ (Option Node) := do
  match ← attempt (fs.lookup parent name) with
  | .ok found => pure (some found)
  | .error .missing => if mayMiss then pure none else throw .missing
  | .error error => throw error

def follow (w : Walk) (parent inode : Nat) (rest : Bytes) : EStateM Error σ (Option Walk) :=
  if w.links + 1 > symlinkMax then throw .loop
  else do
    let target ← fs.readLink inode
    if target = [] then throw .missing
    else if 0 ∈ target then throw .invalid
    else if target.length + rest.length > pathMax then throw .tooLong
    else do
      let absolute := target.head? = some slash
      let ancestors := if absolute then w.ancestors.drop (w.ancestors.length - 1) else w.ancestors
      let names := if absolute then [] else w.names
      let directory ← okOr ancestors.head? .invalid
      pure (some { w with
        remaining := target ++ rest
        links := w.links + 1
        ancestors := ancestors
        names := names
        node := Walk.standAt directory
        parent := parent })

def pushDirectory (node : Option Node) (ancestors : List Nat) : List Nat :=
  match node with
  | some ⟨inode, .directory⟩ => inode :: ancestors
  | _ => ancestors

def enter (w : Walk) (parent : Nat) (name rest : Bytes) (node : Option Node) (finalComponent : Bool) :
    EStateM Error σ (Option Walk) :=
  if finalComponent && rest ≠ [] && node.any (·.kind ≠ .directory) then throw .notDirectory
  else pure (some { w with
    remaining := rest
    ancestors := pushDirectory node w.ancestors
    names := name :: w.names
    node := node
    parent := parent
    lastName := name })

def component (followFinal allowMissing : Bool) (w : Walk) (parent : Nat) (name rest : Bytes) :
    EStateM Error σ (Option Walk) := do
  let finalComponent := rest.all (· = slash)
  let trailingSlash : Bool := rest ≠ []
  let node ← find fs parent name (finalComponent && !trailingSlash && allowMissing)
  match node with
  | some ⟨inode, .symlink⟩ =>
    if followFinal || !finalComponent || trailingSlash then follow fs w parent inode rest
    else enter w parent name rest node finalComponent
  | _ => enter w parent name rest node finalComponent

/-- One round of the main loop; `none` is its `break`. -/
def step (followFinal allowMissing : Bool) (w : Walk) : EStateM Error σ (Option Walk) :=
  let input := w.remaining.dropWhile (· = slash)
  if input = [] then pure none
  else
    match w.node with
    | some ⟨inode, .directory⟩ =>
      let name := input.takeWhile (· ≠ slash)
      let rest := input.dropWhile (· ≠ slash)
      if name = dot then pure (some { w with remaining := rest })
      else if name = dotDot then ascend w rest
      else component fs followFinal allowMissing w inode name rest
    | _ => throw .notDirectory

variable {fs} {w : Walk} {rest name : Bytes} {parent : Nat} {followFinal allowMissing : Bool}

lemma follow_decreases {inode} (s : σ) :
    ifOk (follow fs w parent inode rest) (fun next _ => ∀ b ∈ next, b.measure < w.measure) s := by
  refine wp_guard trivial fun hlinks => ?_
  refine wp_seq (wp_of_run (fun _ _ _ => trivial) (fun _ _ _ => trivial)) fun target t _ => ?_
  refine wp_guard trivial fun _ => wp_guard trivial fun _ => ?_
  refine wp_guard trivial fun hlength => ?_
  refine wp_lookup trivial fun directory _ => ?_
  rintro b ⟨⟩
  simp only [Walk.measure, List.length_append, symlinkMax, pathMax] at *
  omega

lemma enter_decreases {node final} (h : rest.length < w.remaining.length) (s : σ) :
    ifOk (enter w parent name rest node final) (fun next _ => ∀ b ∈ next, b.measure < w.measure)
      s := by
  refine wp_guard trivial fun _ => ?_
  rintro b ⟨⟩
  simp only [Walk.measure]
  omega

lemma component_decreases (h : rest.length < w.remaining.length) (s : σ) :
    ifOk (component fs followFinal allowMissing w parent name rest)
      (fun next _ => ∀ b ∈ next, b.measure < w.measure) s := by
  refine wp_seq (wp_of_run (fun _ _ _ => trivial) (fun _ _ _ => trivial)) (fun node t _ => ?_)
  split
  · refine wp_ite (fun _ => follow_decreases t) (fun _ => enter_decreases h t)
  · exact enter_decreases h t

lemma length_rest {input : Bytes} (h : input.dropWhile (· = slash) ≠ []) :
    ((input.dropWhile (· = slash)).dropWhile (· ≠ slash)).length < input.length := by
  have hskip := (List.dropWhile_suffix (· = slash) : input.dropWhile (· = slash) <:+ input).length_le
  cases hd : input.dropWhile (· = slash) with
  | nil => exact absurd hd h
  | cons a l =>
    have ha : a ≠ slash := by
      have := List.head_dropWhile_not (· = slash) h
      simpa [hd] using this
    have hrest := (List.dropWhile_suffix (· ≠ slash) : l.dropWhile (· ≠ slash) <:+ l).length_le
    rw [hd, List.length_cons] at hskip
    rw [List.dropWhile_cons_of_pos (by simpa using ha)]
    omega

/-- Every round makes the measure smaller: it reads a component or uses up a link. -/
lemma step_decreases : Decreases Walk.measure (step fs followFinal allowMissing) := by
  intro w s
  refine wp_ite (fun _ => ?_) (fun hinput => ?_)
  · rintro b ⟨⟩
  have hrest := length_rest hinput
  split
  · refine wp_ite (fun _ => ?_) (fun _ => wp_ite (fun _ => ?_) (fun _ => ?_))
    · rintro b ⟨⟩
      simp only [Walk.measure]
      omega
    · refine wp_lookup trivial fun directory _ => ?_
      rintro b ⟨⟩
      simp only [Walk.measure]
      omega
    · exact component_decreases hrest s
  · trivial

variable (fs)

def walk (followFinal allowMissing : Bool) (w : Walk) : EStateM Error σ Walk :=
  loop Walk.measure (step fs followFinal allowMissing) step_decreases w

def writePath : Bytes → Nat → List Bytes → EStateM Error σ Bytes
  | path, _, [] => pure path
  | path, index, name :: names =>
    let path := (if index ≠ 0 then path ++ [slash] else path) ++ name
    if path.length > pathMax then throw .tooLong else writePath path (index + 1) names

def resolve (root start : Nat) (input : Bytes) (followFinal allowMissing : Bool) :
    EStateM Error σ Resolved :=
  if input = [] ∨ input.length > pathMax ∨ 0 ∈ input then throw .invalid
  else do
    let (ancestors, names) ← position fs root pathMax []
      (if input.head? = some slash then root else start)
    let directory ← okOr ancestors.head? .invalid
    let w ← walk fs followFinal allowMissing
      { remaining := input
        links := 0
        ancestors := ancestors
        names := names
        node := Walk.standAt directory
        parent := directory
        lastName := [] }
    let path ← writePath [slash] 0 w.names.reverse
    pure { node := w.node, parent := w.parent, name := w.lastName, path := path }

end Walk

end Nanami.Ext2.PathWalk

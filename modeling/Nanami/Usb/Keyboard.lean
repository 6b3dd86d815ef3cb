import Mathlib

/-!
# Keyboard reports

Model of the `Keyboard` of `usb-server` (`usb/hid.rs`): the key events that boot reports give, and the
release of what is held when the keyboard goes away. The events of a key code alternate in every
session whose reports never name the two usages that share a code together.
-/

namespace Nanami.Usb
open List

structure Event where
  kind : Nat
  code : Nat
  x : Int
  y : Int
  deriving DecidableEq, Repr

structure Keyboard where
  modifiers : UInt8
  keys : List UInt8

def Keyboard.new : Keyboard := ⟨0, replicate 6 0⟩

def modifierCodes : List Nat := [0x1d, 0x2a, 0x38, 0x15b, 0x11d, 0x36, 0x138, 0x15c]

def letters : List Nat :=
  [0x1e, 0x30, 0x2e, 0x20, 0x12, 0x21, 0x22, 0x23, 0x17, 0x24, 0x25, 0x26, 0x32, 0x31, 0x18, 0x19,
    0x10, 0x13, 0x1f, 0x14, 0x16, 0x2f, 0x11, 0x2d, 0x15, 0x2c]

/-- The arms of `keycode` for one usage each. -/
def singleKeys : List (Nat × Nat) :=
  [(39, 0x0b), (40, 0x1c), (41, 0x01), (42, 0x0e), (43, 0x0f), (44, 0x39), (45, 0x0c), (46, 0x0d),
    (47, 0x1a), (48, 0x1b), (49, 0x2b), (50, 0x2b), (51, 0x27), (52, 0x28), (53, 0x29), (54, 0x33),
    (55, 0x34), (56, 0x35), (57, 0x3a), (68, 0x57), (69, 0x58), (70, 0x137), (71, 0x46), (73, 0x152),
    (74, 0x147), (75, 0x149), (76, 0x153), (77, 0x14f), (78, 0x151), (79, 0x14d), (80, 0x14b),
    (81, 0x150), (82, 0x148), (83, 0x45), (84, 0x135), (85, 0x37), (86, 0x4a), (87, 0x4e), (88, 0x11c),
    (89, 0x4f), (90, 0x50), (91, 0x51), (92, 0x4b), (93, 0x4c), (94, 0x4d), (95, 0x47), (96, 0x48),
    (97, 0x49), (98, 0x52), (99, 0x53), (100, 0x56), (101, 0x15d)]

def keycode (usage : UInt8) : Option Nat :=
  let u := usage.toNat
  if 4 ≤ u ∧ u ≤ 29 then letters[u - 4]?
  else if 30 ≤ u ∧ u ≤ 38 then some (u - 30 + 2)
  else if 58 ≤ u ∧ u ≤ 67 then some (u - 58 + 0x3b)
  else singleKeys.lookup u

/-- `b & (1 << bit) != 0`. -/
def bitAt (b : UInt8) (bit : Nat) : Bool := b.toNat.testBit bit

/-- The loop over the modifiers, from a bit on. -/
def modifierChanges (old new : UInt8) : Nat → List Nat → List Event
  | _, [] => []
  | bit, code :: codes =>
    let rest := modifierChanges old new (bit + 1) codes
    if bitAt (old ^^^ new) bit then ⟨1, code, (bitAt new bit).toNat, 0⟩ :: rest else rest

/-- The loops over keys: an event for each one that is neither among the others nor in front of it in
its own array. -/
def changes (others : List UInt8) (x : Int) : List UInt8 → List UInt8 → List Event
  | _, [] => []
  | seen, key :: keys =>
    let rest := changes others x (key :: seen) keys
    if key ≠ 0 ∧ key ∉ others ∧ key ∉ seen then
      match keycode key with
      | some code => ⟨1, code, x, 0⟩ :: rest
      | none => rest
    else rest

/-- `data[2..8]`. -/
def keysOf (data : List UInt8) : List UInt8 := (data.drop 2).take 6

/-- A report that is not ignored: it is long enough, and no key is an error. -/
def Accepted (data : List UInt8) : Prop :=
  8 ≤ data.length ∧ ¬∃ key ∈ keysOf data, 1 ≤ key ∧ key ≤ 3

instance (data : List UInt8) : Decidable (Accepted data) := inferInstanceAs (Decidable (_ ∧ _))

def Keyboard.report (k : Keyboard) (data : List UInt8) : Keyboard × List Event :=
  if Accepted data then
    let modifiers := data.headD 0
    (⟨modifiers, keysOf data⟩,
      modifierChanges k.modifiers modifiers 0 modifierCodes ++
        (changes (keysOf data) 0 [] k.keys ++ changes k.keys 1 [] (keysOf data)))
  else (k, [])

def Keyboard.release (k : Keyboard) : Keyboard × List Event := k.report (replicate 8 0)

def Keyboard.run : Keyboard → List (List UInt8) → Keyboard × List Event
  | k, [] => (k, [])
  | k, data :: reports =>
    let (k, events) := k.report data
    let (k, more) := k.run reports
    (k, events ++ more)

def session (reports : List (List UInt8)) : List Event :=
  let (k, events) := Keyboard.new.run reports
  events ++ k.release.2

def trace (code : Nat) (events : List Event) : List Int :=
  (events.filter (·.code = code)).map (·.x)

/-- Values that alternate, from a key that is held or not to one that is held or not: 1 for a press and
0 for a release. -/
def Toggles : Bool → List Int → Bool → Prop
  | before, [], after => before = after
  | before, x :: xs, after => x = (!before).toNat ∧ Toggles (!before) xs after

variable {a b c : Bool} {code bit : Nat} {u v old new : UInt8} {keys others seen data : List UInt8}
  {codes : List Nat} {x : Int} {xs ys : List Int} {k : Keyboard} {reports : List (List UInt8)}

lemma Toggles.append (h : Toggles a xs b) (h' : Toggles b ys c) : Toggles a (xs ++ ys) c := by
  induction xs generalizing a with
  | nil =>
    cases h
    exact h'
  | cons x xs ih => exact ⟨h.1, ih h.2⟩

lemma trace_append {events more : List Event} :
    trace code (events ++ more) = trace code events ++ trace code more := by
  simp only [trace, filter_append, map_append]

/-! ### Key codes -/

def usages : List UInt8 := ((range 256).map UInt8.ofNat).filter (· ≠ 50)

lemma mem_usages (h : u ≠ 50) : u ∈ usages :=
  mem_filter.mpr ⟨mem_map.mpr ⟨u.toNat, mem_range.mpr u.toNat_lt, UInt8.ofNat_toNat⟩, by simpa using h⟩

lemma codes_nodup : (modifierCodes ++ usages.filterMap keycode).Nodup := by decide +kernel

lemma keycode_injective (hu : u ≠ 50) (hv : v ≠ 50) (hcu : keycode u = some code)
    (hcv : keycode v = some code) : u = v := by
  have hcodes := (nodup_append.mp codes_nodup).2.1
  rw [List.Nodup, pairwise_filterMap] at hcodes
  by_contra hne
  have hsymm : Std.Symm fun u v : UInt8 => ∀ c, keycode u = some c → ∀ d, keycode v = some d → c ≠ d :=
    ⟨fun _ _ h c hc d hd => (h d hd c hc).symm⟩
  exact hcodes.forall (mem_usages hu) (mem_usages hv) hne code hcu code hcv rfl

lemma keycode_not_modifier (h : keycode u = some code) : code ∉ modifierCodes := by
  intro hmem
  have hdisjoint := disjoint_of_nodup_append codes_nodup hmem
  by_cases hu : u = 50
  · exact hdisjoint (mem_filterMap.mpr ⟨49, mem_usages (by decide), by rw [← h, hu]; decide⟩)
  · exact hdisjoint (mem_filterMap.mpr ⟨u, mem_usages hu, h⟩)

def Apart (keys : List UInt8) : Prop := ¬(49 ∈ keys ∧ 50 ∈ keys)

lemma Apart.eq (h : Apart keys) (hu : u ∈ keys) (hv : v ∈ keys) (hcu : keycode u = some code)
    (hcv : keycode v = some code) : u = v := by
  have shared : keycode 49 = keycode 50 := by decide
  by_cases hu50 : u = 50 <;> by_cases hv50 : v = 50
  · rw [hu50, hv50]
  · subst hu50
    obtain rfl := keycode_injective hv50 (by decide) hcv (shared.trans hcu)
    exact absurd ⟨hv, hu⟩ h
  · subst hv50
    obtain rfl := keycode_injective hu50 (by decide) hcu (shared.trans hcv)
    exact absurd ⟨hu, hv⟩ h
  · exact keycode_injective hu50 hv50 hcu hcv

/-! ### One report -/

def Sends (keys : List UInt8) (code : Nat) : Prop := ∃ key ∈ keys, keycode key = some code

instance : Decidable (Sends keys code) := inferInstanceAs (Decidable (∃ key ∈ keys, _))

def Keyboard.held (k : Keyboard) (code : Nat) : Bool :=
  code ∈ modifierCodes && bitAt k.modifiers (modifierCodes.idxOf code) || decide (Sends k.keys code)

lemma trace_cons {e : Event} {events : List Event} :
    trace code (e :: events) = if e.code = code then e.x :: trace code events else trace code events := by
  by_cases h : e.code = code <;> simp [trace, h]

lemma bitAt_xor : bitAt (old ^^^ new) bit = true ↔ bitAt old bit ≠ bitAt new bit := by
  simp [bitAt, UInt8.toNat_xor, Nat.testBit_xor]

lemma modifierChanges_trace (h : codes.Nodup) :
    trace code (modifierChanges old new bit codes) =
      if code ∈ codes ∧ bitAt old (bit + codes.idxOf code) ≠ bitAt new (bit + codes.idxOf code) then
        [((bitAt new (bit + codes.idxOf code)).toNat : Int)] else [] := by
  induction codes generalizing bit with
  | nil => simp [modifierChanges, trace]
  | cons head codes ih =>
    obtain ⟨hhead, hcodes⟩ := nodup_cons.mp h
    rw [modifierChanges]
    by_cases hc : head = code
    · -- the code is not found again behind its own place
      subst hc
      simp only [mem_cons_self, true_and, idxOf_cons_self, Nat.add_zero, bitAt_xor]
      split <;> simp [trace_cons, ih hcodes, hhead]
    · have hplace : bit + (head :: codes).idxOf code = bit + 1 + codes.idxOf code := by
        rw [idxOf_cons_ne codes hc]
        omega
      rw [hplace]
      simp only [mem_cons, Ne.symm hc, false_or]
      rw [← ih hcodes]
      split
      · rw [trace_cons, if_neg hc]
      · rfl

lemma changes_trace (h : Apart keys) : trace code (changes others x seen keys) =
    if ∃ u ∈ keys, u ∉ others ∧ u ∉ seen ∧ keycode u = some code then [x] else [] := by
  induction keys generalizing seen with
  | nil => simp [changes, trace]
  | cons key keys ih =>
    have hkeys : Apart keys := fun hboth => h ⟨mem_cons_of_mem _ hboth.1, mem_cons_of_mem _ hboth.2⟩
    rw [changes]
    by_cases hcode : keycode key = some code
    · -- every key of this code is the same one, so it counts where it is seen first
      have hrest : trace code (changes others x (key :: seen) keys) = [] := by
        rw [ih hkeys, if_neg]
        rintro ⟨u, hu, -, hseen, hcu⟩
        exact hseen (h.eq (mem_cons_of_mem _ hu) mem_cons_self hcu hcode ▸ mem_cons_self)
      have hfirst : (∃ u ∈ key :: keys, u ∉ others ∧ u ∉ seen ∧ keycode u = some code) ↔
          key ≠ 0 ∧ key ∉ others ∧ key ∉ seen := by
        constructor
        · rintro ⟨u, hu, ho, hs, hcu⟩
          obtain rfl := h.eq hu mem_cons_self hcu hcode
          refine ⟨?_, ho, hs⟩
          rintro rfl
          cases hcu
        · exact fun hf => ⟨key, mem_cons_self, hf.2.1, hf.2.2, hcode⟩
      simp only [hfirst, hcode]
      split
      · rw [trace_cons, if_pos rfl, hrest]
      · exact hrest
    · have hrest : trace code (changes others x (key :: seen) keys) =
          if ∃ u ∈ key :: keys, u ∉ others ∧ u ∉ seen ∧ keycode u = some code then [x] else [] := by
        rw [ih hkeys]
        refine if_congr ?_ rfl rfl
        grind
      rw [← hrest]
      split
      · split
        · rename_i other hother
          rw [trace_cons, if_neg fun e => hcode (hother.trans (congrArg some e))]
        · rfl
      · rfl

lemma changes_toggle (hold : Apart keys) (hnew : Apart others) :
    Toggles (decide (Sends keys code))
      (trace code (changes others 0 [] keys) ++ trace code (changes keys 1 [] others))
      (decide (Sends others code)) := by
  rw [changes_trace hold, changes_trace hnew]
  simp only [not_mem_nil, not_false_eq_true, true_and]
  by_cases hboth : ∃ u ∈ keys, u ∈ others ∧ keycode u = some code
  · obtain ⟨u, hu, hu', hc⟩ := hboth
    have h : Sends keys code := ⟨u, hu, hc⟩
    have h' : Sends others code := ⟨u, hu', hc⟩
    rw [if_neg, if_neg, decide_eq_true h, decide_eq_true h']
    · exact rfl
    · rintro ⟨v, hv, hv', hcv⟩
      exact hv' (hnew.eq hv hu' hcv hc ▸ hu)
    · rintro ⟨v, hv, hv', hcv⟩
      exact hv' (hold.eq hv hu hcv hc ▸ hu')
  · have hreleased : (∃ u ∈ keys, u ∉ others ∧ keycode u = some code) ↔ Sends keys code := by
      unfold Sends
      grind
    have hpressed : (∃ u ∈ others, u ∉ keys ∧ keycode u = some code) ↔ Sends others code := by
      unfold Sends
      grind
    simp only [hreleased, hpressed]
    by_cases h : Sends keys code <;> by_cases h' : Sends others code <;> simp [h, h', Toggles]

lemma Keyboard.report_toggles (code : Nat) (data : List UInt8) (hk : Apart k.keys)
    (hdata : Accepted data → Apart (keysOf data)) :
    Toggles (k.held code) (trace code (k.report data).2) ((k.report data).1.held code) ∧
      Apart (k.report data).1.keys := by
  rw [report]
  split
  · rename_i hacc
    refine ⟨?_, hdata hacc⟩
    rw [trace_append, trace_append, modifierChanges_trace (by decide), Nat.zero_add]
    by_cases hm : code ∈ modifierCodes
    · have hnone : ∀ {keys}, ¬Sends keys code := fun ⟨u, _, hc⟩ => keycode_not_modifier hc hm
      have hempty : ∀ {keys others x}, Apart keys → trace code (changes others x [] keys) = [] := by
        intro keys others x h
        rw [changes_trace h, if_neg]
        exact fun ⟨u, hu, _, _, hc⟩ => hnone ⟨u, hu, hc⟩
      rw [hempty hk, hempty (hdata hacc)]
      simp only [held, hm, hnone, decide_true, Bool.true_and, decide_false, Bool.or_false, true_and]
      cases bitAt k.modifiers (modifierCodes.idxOf code) <;>
        cases bitAt (data.headD 0) (modifierCodes.idxOf code) <;> simp [Toggles]
    · simp only [held, hm, decide_false, Bool.false_and, Bool.false_or, false_and, if_false, nil_append]
      exact changes_toggle hk (hdata hacc)
  · exact ⟨rfl, hk⟩

lemma Keyboard.run_toggles (code : Nat) (hk : Apart k.keys)
    (hreports : ∀ data ∈ reports, Accepted data → Apart (keysOf data)) :
    Toggles (k.held code) (trace code (k.run reports).2) ((k.run reports).1.held code) ∧
      Apart (k.run reports).1.keys := by
  induction reports generalizing k with
  | nil => exact ⟨rfl, hk⟩
  | cons data reports ih =>
    obtain ⟨hdata, hrest⟩ := forall_mem_cons.mp hreports
    obtain ⟨hstep, hk'⟩ := report_toggles code data hk hdata
    obtain ⟨hrun, hend⟩ := ih hk' hrest
    refine ⟨?_, hend⟩
    show Toggles _ (trace code (_ ++ _)) _
    rw [trace_append]
    exact hstep.append hrun

lemma apart_new : Apart Keyboard.new.keys := by
  unfold Apart
  decide

lemma Keyboard.held_new : Keyboard.new.held code = false := by
  have hnone : ¬Sends Keyboard.new.keys code := by
    rintro ⟨u, hu, hc⟩
    rw [eq_of_mem_replicate hu] at hc
    cases hc
  rw [held, decide_eq_false hnone]
  simp [Keyboard.new, bitAt]

lemma Keyboard.release_toggles (hk : Apart k.keys) :
    Toggles (k.held code) (trace code k.release.2) false := by
  have hnew : k.release.1 = Keyboard.new := by
    rw [release, report, if_pos (by decide)]
    rfl
  rw [← @held_new code, ← hnew]
  exact (report_toggles code (replicate 8 0) hk fun _ => apart_new).1

/-- In every session whose reports do not name the usages 49 and 50 together, the events of each key
code alternate, from a press to a release. -/
theorem session_alternates (reports : List (List UInt8))
    (h : ∀ data ∈ reports, Accepted data → ¬(49 ∈ keysOf data ∧ 50 ∈ keysOf data)) (code : Nat) :
    Toggles false (trace code (session reports)) false := by
  obtain ⟨hrun, hk⟩ := Keyboard.run_toggles code apart_new h
  rw [Keyboard.held_new] at hrun
  show Toggles false (trace code (_ ++ _)) false
  rw [trace_append]
  exact hrun.append (Keyboard.release_toggles hk)

/-- Two keys and a modifier, released at the end of the session. -/
theorem session_alternates_shift : Toggles false
    (trace 0x1e (session [[0, 0, 4, 0, 0, 0, 0, 0], [2, 0, 4, 5, 0, 0, 0, 0]])) false :=
  session_alternates _ (by decide) _

/-- Two keys of one code: it is pressed twice before it is released. -/
theorem session_presses_twice :
    ¬Toggles false (trace 0x2b (session [[0, 0, 49, 50, 0, 0, 0, 0]])) false := by
  have htrace : trace 0x2b (session [[0, 0, 49, 50, 0, 0, 0, 0]]) = [1, 1, 0, 0] := by decide
  rw [htrace]
  simp [Toggles]

end Nanami.Usb

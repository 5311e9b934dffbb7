import Baulk.Support.FileTree

/-!
# Paths in a folder

What a path leads to, and how putting a folder or a file at a path changes that.
Two folders are the same if every path leads to the same in both, whatever the
order of their entries.
-/

namespace Baulk.Support

variable {κ β : Type} [DecidableEq κ]

namespace Folder

/-! ## Writing -/

/-- Put an entry in the place of the one with its name, or at the end. -/
def set (name : κ) (item : Item κ β) : Folder κ β → Folder κ β
  | nil => cons name item nil
  | file n content rest =>
      if n = name then cons name item rest
      else file n content (rest.set name item)
  | folder n inner rest =>
      if n = name then cons name item rest
      else folder n inner (rest.set name item)

/-- The folder of a name, which is empty if there is none. -/
def sub (name : κ) (f : Folder κ β) : Folder κ β :=
  match f.get name with
  | some (.folder inner) => inner
  | _ => nil

/-- Create the folders along a path. -/
def mkdirs : List κ → Folder κ β → Folder κ β
  | [], f => f
  | name :: path, f => f.set name (.folder ((f.sub name).mkdirs path))

/-- Put a file at a path, with the folders along it. -/
def put : List κ → β → Folder κ β → Folder κ β
  | [], _, f => f
  | [name], content, f => f.set name (.file content)
  | name :: next :: path, content, f =>
      f.set name (.folder ((f.sub name).put (next :: path) content))

/-! ## Looking up -/

/-- What a path leads to: nothing, a folder, or a file with its content. -/
def lookup : List κ → Folder κ β → Option (Option β)
  | [], _ => some none
  | name :: path, f =>
      match f.get name with
      | none => none
      | some (.file content) => if path = [] then some (some content) else none
      | some (.folder inner) => inner.lookup path

attribute [local simp] get set put lookup mkdirs

theorem get_set_self (name : κ) (item : Item κ β) (f : Folder κ β) :
    (f.set name item).get name = some item := by
  induction f with
  | nil => rw [set, get_cons, if_pos rfl]
  | file n content rest ih =>
      rw [set]
      split
      · rw [get_cons, if_pos rfl]
      · rename_i hn
        rw [get, if_neg hn, ih]
  | folder n inner rest ihInner ih =>
      rw [set]
      split
      · rw [get_cons, if_pos rfl]
      · rename_i hn
        rw [get, if_neg hn, ih]

theorem get_set_of_ne {name m : κ} (h : m ≠ name) (item : Item κ β)
    (f : Folder κ β) : (f.set name item).get m = f.get m := by
  induction f with
  | nil => rw [set, get_cons, if_neg h.symm]
  | file n content rest ih =>
      rw [set]
      split
      · rename_i hn
        rw [get_cons, if_neg h.symm, get, if_neg (hn ▸ h.symm)]
      · rw [get, get, ih]
  | folder n inner rest ihInner ih =>
      rw [set]
      split
      · rename_i hn
        rw [get_cons, if_neg h.symm, get, if_neg (hn ▸ h.symm)]
      · rw [get, get, ih]

theorem Distinct.set {f : Folder κ β} (h : f.Distinct) (name : κ)
    {item : Item κ β} (hitem : item.Distinct) : (f.set name item).Distinct := by
  induction f with
  | nil => exact distinct_cons.mpr ⟨rfl, hitem, trivial⟩
  | file n content rest ih =>
      rw [Folder.set]
      split
      · rename_i hn
        exact distinct_cons.mpr ⟨hn ▸ h.1, hitem, h.2⟩
      · rename_i hn
        refine ⟨?_, ih h.2⟩
        rw [get_set_of_ne hn]
        exact h.1
  | folder n inner rest ihInner ih =>
      rw [Folder.set]
      split
      · rename_i hn
        exact distinct_cons.mpr ⟨hn ▸ h.1, hitem, h.2.2⟩
      · rename_i hn
        refine ⟨?_, h.2.1, ih h.2.2⟩
        rw [get_set_of_ne hn]
        exact h.1

theorem Distinct.sub {f : Folder κ β} (h : f.Distinct) (name : κ) :
    (f.sub name).Distinct := by
  unfold Folder.sub
  split
  · rename_i inner hget
    exact h.get hget
  · trivial

theorem Distinct.mkdirs {f : Folder κ β} (h : f.Distinct) (path : List κ) :
    (f.mkdirs path).Distinct := by
  induction path generalizing f with
  | nil => exact h
  | cons name path ih =>
      have hinner := ih (h.sub name)
      exact h.set name hinner

theorem Distinct.put {f : Folder κ β} (h : f.Distinct) (path : List κ)
    (content : β) : (f.put path content).Distinct := by
  induction path generalizing f with
  | nil => exact h
  | cons name path ih =>
      cases path with
      | nil => exact h.set name trivial
      | cons next path =>
          have hinner := ih (h.sub name)
          exact h.set name hinner

theorem lookup_congr {f g : Folder κ β} {name : κ}
    (h : f.get name = g.get name) (path : List κ) :
    f.lookup (name :: path) = g.lookup (name :: path) := by
  rw [lookup, lookup, h]

theorem lookup_set_folder (name : κ) (inner f : Folder κ β) (path : List κ) :
    (f.set name (.folder inner)).lookup (name :: path) = inner.lookup path := by
  rw [lookup, get_set_self]

theorem lookup_sub (name : κ) (f : Folder κ β) {path : List κ}
    (h : path ≠ []) : (f.sub name).lookup path = f.lookup (name :: path) := by
  have hnil : (nil : Folder κ β).lookup path = none := by
    cases path with
    | nil => exact absurd rfl h
    | cons m path => rfl
  rw [lookup, sub]
  rcases f.get name with _ | (content | inner)
  · exact hnil
  · dsimp only
    rw [hnil, if_neg h]
  · rfl

theorem lookup_mkdirs {path q : List κ} (h : q <+: path) (f : Folder κ β) :
    (f.mkdirs path).lookup q = some none := by
  induction path generalizing f q with
  | nil =>
      rw [List.prefix_nil.mp h]
      rfl
  | cons name path ih =>
      cases q with
      | nil => rfl
      | cons m q =>
          obtain ⟨rfl, hq⟩ := List.cons_prefix_cons.mp h
          rw [mkdirs, lookup_set_folder]
          exact ih hq _

theorem lookup_mkdirs_of_not {path q : List κ} (h : ¬ q <+: path)
    (f : Folder κ β) : (f.mkdirs path).lookup q = f.lookup q := by
  induction path generalizing f q with
  | nil => rfl
  | cons name path ih =>
      cases q with
      | nil => exact absurd List.nil_prefix h
      | cons m q =>
          by_cases hm : m = name
          · rw [hm, List.cons_prefix_cons] at h
            have hq : ¬ q <+: path := fun hq => h ⟨rfl, hq⟩
            have hne : q ≠ [] := by
              rintro rfl
              exact hq List.nil_prefix
            rw [hm, mkdirs, lookup_set_folder, ih hq, lookup_sub name f hne]
          · exact lookup_congr (get_set_of_ne hm _ _) q

/-- At the path, along it and below it there is what was put there. -/
theorem lookup_put_congr {path q : List κ} (h : q <+: path ∨ path <+: q)
    (hpath : path ≠ []) (content : β) (f g : Folder κ β) :
    (f.put path content).lookup q = (g.put path content).lookup q := by
  induction path generalizing f g q with
  | nil => exact absurd rfl hpath
  | cons name path ih =>
      cases q with
      | nil => rfl
      | cons m q =>
          rw [List.cons_prefix_cons, List.cons_prefix_cons] at h
          have hm : m = name := by
            rcases h with h | h
            · exact h.1
            · exact h.1.symm
          have hq : q <+: path ∨ path <+: q := h.imp And.right And.right
          rw [hm]
          cases path with
          | nil => exact lookup_congr (by rw [put, put, get_set_self, get_set_self]) q
          | cons next path =>
              rw [put, put, lookup_set_folder, lookup_set_folder]
              exact ih hq nofun _ _

theorem lookup_put_of_not {path q : List κ} (h : ¬ (q <+: path ∨ path <+: q))
    (content : β) (f : Folder κ β) :
    (f.put path content).lookup q = f.lookup q := by
  induction path generalizing f q with
  | nil => rfl
  | cons name path ih =>
      cases q with
      | nil => exact absurd (.inl List.nil_prefix) h
      | cons m q =>
          by_cases hm : m = name
          · rw [hm, List.cons_prefix_cons, List.cons_prefix_cons] at h
            have hq : ¬ (q <+: path ∨ path <+: q) := fun hq =>
              h (hq.imp (⟨rfl, ·⟩) (⟨rfl, ·⟩))
            have hne : q ≠ [] := by
              rintro rfl
              exact hq (.inl List.nil_prefix)
            cases path with
            | nil => exact absurd (.inr List.nil_prefix) hq
            | cons next path =>
                rw [hm, put, lookup_set_folder, ih hq, lookup_sub name f hne]
          · cases path with
            | nil => exact lookup_congr (get_set_of_ne hm _ _) q
            | cons next path => exact lookup_congr (get_set_of_ne hm _ _) q

/-! ## The same content -/

/-- Every path leads to the same. -/
def Same (f g : Folder κ β) : Prop :=
  ∀ path, f.lookup path = g.lookup path

/-- What a path leads to in the one, it leads to in the other. -/
def Within (f g : Folder κ β) : Prop :=
  ∀ path found, f.lookup path = some found → g.lookup path = some found

theorem Same.symm {f g : Folder κ β} (h : f.Same g) : g.Same f :=
  fun path => (h path).symm

theorem Same.within {f g : Folder κ β} (h : f.Same g) : f.Within g :=
  fun path _ hfound => h path ▸ hfound

/-- The number of entries at all levels. -/
def size : Folder κ β → Nat
  | nil => 0
  | file _ _ rest => rest.size + 1
  | folder _ inner rest => inner.size + rest.size + 1

end Folder

end Baulk.Support

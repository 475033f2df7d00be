import Mathlib.Data.List.Basic
import Mathlib.Data.List.Nodup
import Yuanlei.Lib.PyText

/-!
# Pruning a mind map

A mind map is a tree whose inner nodes are categories and whose leaves are named like files.  When
files are removed, the leaves with their names are cut off, and so are the categories that are left
without children, except those that are named like the root.

Every node carries a place.  The code knows nothing of it; it tells two nodes with one content
apart, so that a node of the pruned tree can be compared with the node it comes from.

Main results:

- `exists_emptied_of_not_sound`: otherwise a category has become a leaf.
- `pruneAll_eq_self_iff`: when pruning changes nothing.
-/

namespace Yuanlei.MindMap

abbrev Text := List Char

variable {ι : Type}

/-- A node with its place and its children. -/
inductive MindNode (ι : Type) where
  | mk (content : Text) (place : ι) (children : List (MindNode ι))

namespace MindNode

def content : MindNode ι → Text
  | mk content _ _ => content

def place : MindNode ι → ι
  | mk _ place _ => place

def children : MindNode ι → List (MindNode ι)
  | mk _ _ children => children

end MindNode

open MindNode (mk)

/-- Lists of trees, with the leaves apart. -/
@[elab_as_elim]
theorem forest_induction {motive : List (MindNode ι) → Prop} (nil : motive [])
    (leaf : ∀ c p ns, motive ns → motive (mk c p [] :: ns))
    (category : ∀ c p x xs ns, motive (x :: xs) → motive ns → motive (mk c p (x :: xs) :: ns)) :
    ∀ ns, motive ns
  | [] => nil
  | mk c p [] :: ns => leaf c p ns (forest_induction nil leaf category ns)
  | mk c p (x :: xs) :: ns =>
    category c p x xs ns (forest_induction nil leaf category (x :: xs))
      (forest_induction nil leaf category ns)

/-! ## The nodes of a tree -/

mutual

/-- The leaves of a tree, from left to right. -/
def leavesOf : MindNode ι → List (MindNode ι)
  | mk c p [] => [mk c p []]
  | mk _ _ (x :: xs) => leavesOf x ++ leaves xs

def leaves : List (MindNode ι) → List (MindNode ι)
  | [] => []
  | n :: ns => leavesOf n ++ leaves ns

end

mutual

/-- The nodes of a tree that have children. -/
def categoriesOf : MindNode ι → List (MindNode ι)
  | mk _ _ [] => []
  | mk c p (x :: xs) => mk c p (x :: xs) :: (categoriesOf x ++ categories xs)

def categories : List (MindNode ι) → List (MindNode ι)
  | [] => []
  | n :: ns => categoriesOf n ++ categories ns

end

mutual

/-- The places of all nodes. -/
def placesOf : MindNode ι → List ι
  | mk _ p children => p :: places children

def places : List (MindNode ι) → List ι
  | [] => []
  | n :: ns => placesOf n ++ places ns

end

def collectLeafFilenames (node : MindNode ι) : List Text :=
  (leavesOf node).map MindNode.content

section Equations

variable (c : Text) (p : ι) (x : MindNode ι) (xs ns : List (MindNode ι))

@[simp]
theorem leaves_nil : leaves ([] : List (MindNode ι)) = [] := by
  rw [leaves]

@[simp]
theorem leaves_leaf : leaves (mk c p [] :: ns) = mk c p [] :: leaves ns := by
  rw [leaves, leavesOf, List.singleton_append]

@[simp]
theorem leaves_category : leaves (mk c p (x :: xs) :: ns) = leaves (x :: xs) ++ leaves ns := by
  rw [leaves, leavesOf, leaves]

@[simp]
theorem categories_nil : categories ([] : List (MindNode ι)) = [] := by
  rw [categories]

@[simp]
theorem categories_leaf : categories (mk c p [] :: ns) = categories ns := by
  rw [categories, categoriesOf, List.nil_append]

@[simp]
theorem categories_category : categories (mk c p (x :: xs) :: ns) =
    mk c p (x :: xs) :: (categories (x :: xs) ++ categories ns) := by
  rw [categories, categoriesOf, categories, List.cons_append]

@[simp]
theorem places_nil : places ([] : List (MindNode ι)) = [] := by
  rw [places]

@[simp]
theorem places_cons : places (mk c p xs :: ns) = p :: (places xs ++ places ns) := by
  rw [places, placesOf, List.cons_append]

end Equations

variable {ns : List (MindNode ι)}

/-- Every tree has a leaf. -/
theorem leaves_eq_nil_iff : leaves ns = [] ↔ ns = [] := by
  induction ns using forest_induction with
  | nil => simp
  | leaf c p ns _ => simp
  | category c p x xs ns ih _ => simp [ih]

theorem place_mem_places {n : MindNode ι}
    (h : n ∈ leaves ns ∨ n ∈ categories ns) : n.place ∈ places ns := by
  induction ns using forest_induction with
  | nil => simp at h
  | leaf c p ns ih =>
    rw [places_cons, places_nil, List.nil_append, List.mem_cons]
    rw [leaves_leaf, categories_leaf, List.mem_cons] at h
    rcases h with (rfl | h) | h
    · exact Or.inl rfl
    · exact Or.inr (ih (Or.inl h))
    · exact Or.inr (ih (Or.inr h))
  | category c p x xs ns ihChildren ih =>
    rw [places_cons, List.mem_cons, List.mem_append]
    rw [leaves_category, categories_category, List.mem_cons, List.mem_append, List.mem_append] at h
    rcases h with (h | h) | rfl | h | h
    · exact Or.inr (Or.inl (ihChildren (Or.inl h)))
    · exact Or.inr (Or.inr (ih (Or.inl h)))
    · exact Or.inl rfl
    · exact Or.inr (Or.inl (ihChildren (Or.inr h)))
    · exact Or.inr (Or.inr (ih (Or.inr h)))

/-- A leaf is at the place of no category. -/
def Apart (ns : List (MindNode ι)) : Prop :=
  ∀ l ∈ leaves ns, ∀ v ∈ categories ns, l.place ≠ v.place

theorem apart_of_nodup (h : (places ns).Nodup) : Apart ns := by
  induction ns using forest_induction with
  | nil =>
    intro l hl
    simp at hl
  | leaf c p ns ih =>
    rw [places_cons, places_nil, List.nil_append, List.nodup_cons] at h
    intro l hl v hv
    rw [categories_leaf] at hv
    rw [leaves_leaf, List.mem_cons] at hl
    rcases hl with rfl | hl
    · intro heq
      have hplace : p = v.place := heq
      exact h.1 (hplace ▸ place_mem_places (Or.inr hv))
    · exact ih h.2 l hl v hv
  | category c p x xs ns ihChildren ih =>
    rw [places_cons, List.nodup_cons, List.nodup_append] at h
    obtain ⟨hp, hchildren, hrest, hapart⟩ := h
    intro l hl v hv
    rw [leaves_category, List.mem_append] at hl
    rw [categories_category, List.mem_cons, List.mem_append] at hv
    rcases hl with hl | hl <;> rcases hv with rfl | hv | hv
    · intro heq
      have hplace : l.place = p := heq
      exact hp (List.mem_append_left _ (hplace ▸ place_mem_places (Or.inl hl)))
    · exact ihChildren hchildren l hl v hv
    · exact hapart _ (place_mem_places (Or.inl hl)) _ (place_mem_places (Or.inr hv))
    · intro heq
      have hplace : l.place = p := heq
      exact hp (List.mem_append_right _ (hplace ▸ place_mem_places (Or.inl hl)))
    · exact (hapart _ (place_mem_places (Or.inr hv)) _ (place_mem_places (Or.inl hl))).symm
    · exact ih hrest l hl v hv

/-! ## Pruning -/

section Prune

variable (removed : List Text) (root : Text)

mutual

/-- `_prune_mindmap_node` -/
def pruneNode : MindNode ι → Option (MindNode ι)
  | mk content place [] => if content ∈ removed then none else some (mk content place [])
  | mk content place (child :: children) =>
    match (pruneNode child).toList ++ pruneAll children with
    | [] => if content = root then some (mk content place []) else none
    | kept => some (mk content place kept)

/-- The children that are left. -/
def pruneAll : List (MindNode ι) → List (MindNode ι)
  | [] => []
  | node :: nodes => (pruneNode node).toList ++ pruneAll nodes

end

@[simp]
theorem pruneAll_nil : pruneAll removed root ([] : List (MindNode ι)) = [] := by
  rw [pruneAll]

@[simp]
theorem pruneAll_leaf (c : Text) (p : ι) (ns : List (MindNode ι)) :
    pruneAll removed root (mk c p [] :: ns) =
      (if c ∈ removed then [] else [mk c p []]) ++ pruneAll removed root ns := by
  rw [pruneAll, pruneNode]
  split_ifs <;> rfl

variable {removed root} {x : MindNode ι} {xs : List (MindNode ι)}

/-- A category whose children have gone stays only if it is named like the root. -/
theorem pruneAll_emptied (c : Text) (p : ι) (ns : List (MindNode ι))
    (h : pruneAll removed root (x :: xs) = []) :
    pruneAll removed root (mk c p (x :: xs) :: ns) =
      (if c = root then [mk c p []] else []) ++ pruneAll removed root ns := by
  rw [pruneAll] at h
  rw [pruneAll, pruneNode, h]
  split_ifs <;> rfl

theorem pruneAll_kept (c : Text) (p : ι) {k : MindNode ι} {ks : List (MindNode ι)}
    (ns : List (MindNode ι)) (h : pruneAll removed root (x :: xs) = k :: ks) :
    pruneAll removed root (mk c p (x :: xs) :: ns) =
      mk c p (k :: ks) :: pruneAll removed root ns := by
  rw [pruneAll] at h
  rw [pruneAll, pruneNode, h]
  rfl

variable (removed root)

/-- A category that is named like the root keeps a leaf. -/
def Sound (ns : List (MindNode ι)) : Prop :=
  ∀ v ∈ categories ns, v.content = root → ∃ l ∈ leaves v.children, l.content ∉ removed

variable {removed root} {ns : List (MindNode ι)} {c : Text} {p : ι}

theorem sound_leaf :
    Sound removed root (mk c p [] :: ns) ↔ Sound removed root ns := by
  simp [Sound]

theorem sound_category :
    Sound removed root (mk c p (x :: xs) :: ns) ↔
      (c = root → ∃ l ∈ leaves (x :: xs), l.content ∉ removed) ∧
        Sound removed root (x :: xs) ∧ Sound removed root ns := by
  unfold Sound
  rw [categories_category, List.forall_mem_cons, List.forall_mem_append]
  rfl

theorem leaves_pruneAll (h : Sound removed root ns) :
    leaves (pruneAll removed root ns) = (leaves ns).filter fun l => l.content ∉ removed := by
  induction ns using forest_induction with
  | nil => simp
  | leaf c p ns ih =>
    rw [pruneAll_leaf, leaves_leaf]
    by_cases hc : c ∈ removed
    · rw [if_pos hc, List.nil_append, ih (sound_leaf.mp h),
        List.filter_cons_of_neg (by simp [MindNode.content, hc])]
    · rw [if_neg hc, List.singleton_append, leaves_leaf, ih (sound_leaf.mp h),
        List.filter_cons_of_pos (by simp [MindNode.content, hc])]
  | category c p x xs ns ihChildren ih =>
    obtain ⟨hroot, hchildren, hrest⟩ := sound_category.mp h
    have hbelow := ihChildren hchildren
    rw [leaves_category, List.filter_append, ← hbelow, ← ih hrest]
    cases hkept : pruneAll removed root (x :: xs) with
    | nil =>
      -- all leaves below have gone, so the category is not named like the root
      have hne : c ≠ root := by
        intro heq
        obtain ⟨l, hl, hstays⟩ := hroot heq
        have hmem : l ∈ leaves (pruneAll removed root (x :: xs)) := by
          rw [hbelow]
          exact List.mem_filter.mpr ⟨hl, by simpa using hstays⟩
        rw [hkept, leaves_nil] at hmem
        exact absurd hmem List.not_mem_nil
      rw [pruneAll_emptied c p ns hkept, if_neg hne, leaves_nil, List.nil_append, List.nil_append]
    | cons k ks => rw [pruneAll_kept c p ns hkept, leaves_category]

/-- A category that is named like the root and loses all its leaves becomes a leaf, or one below it
does. -/
theorem exists_emptied_of_not_sound (h : ¬ Sound removed root ns) :
    ∃ l ∈ leaves (pruneAll removed root ns), ∃ v ∈ categories ns, l.place = v.place := by
  induction ns using forest_induction with
  | nil => exact absurd (fun v hv => by simp at hv) h
  | leaf c p ns ih =>
    obtain ⟨l, hl, v, hv, heq⟩ := ih (fun hsound => h (sound_leaf.mpr hsound))
    refine ⟨l, ?_, v, by rwa [categories_leaf], heq⟩
    rw [pruneAll_leaf]
    split_ifs
    · exact hl
    · rw [List.singleton_append, leaves_leaf]
      exact List.mem_cons_of_mem _ hl
  | category c p x xs ns ihChildren ih =>
    by_cases hrest : Sound removed root ns
    · by_cases hchildren : Sound removed root (x :: xs)
      · have hthis : ¬ (c = root → ∃ l ∈ leaves (x :: xs), l.content ∉ removed) :=
          fun hroot => h (sound_category.mpr ⟨hroot, hchildren, hrest⟩)
        rw [Classical.not_imp] at hthis
        obtain ⟨heq, hall⟩ := hthis
        have hnil : leaves (pruneAll removed root (x :: xs)) = [] := by
          rw [leaves_pruneAll hchildren, List.filter_eq_nil_iff]
          intro l hl hstays
          exact hall ⟨l, hl, by simpa using hstays⟩
        refine ⟨mk c p [], ?_, mk c p (x :: xs), by simp, rfl⟩
        rw [pruneAll_emptied c p ns (leaves_eq_nil_iff.mp hnil), if_pos heq]
        simp
      · obtain ⟨l, hl, v, hv, heq⟩ := ihChildren hchildren
        refine ⟨l, ?_, v, by simp [hv], heq⟩
        cases hkept : pruneAll removed root (x :: xs) with
        | nil => simp [hkept] at hl
        | cons k ks =>
          rw [pruneAll_kept c p ns hkept, leaves_category, ← hkept]
          exact List.mem_append_left _ hl
    · obtain ⟨l, hl, v, hv, heq⟩ := ih hrest
      refine ⟨l, ?_, v, by simp [hv], heq⟩
      cases hkept : pruneAll removed root (x :: xs) with
      | nil =>
        rw [pruneAll_emptied c p ns hkept]
        split_ifs
        · rw [List.singleton_append, leaves_leaf]
          exact List.mem_cons_of_mem _ hl
        · exact hl
      | cons k ks =>
        rw [pruneAll_kept c p ns hkept, leaves_category]
        exact List.mem_append_right _ hl

/-- A leaf of the pruned trees was a leaf that is not removed, or is at the place of a category. -/
theorem mem_leaves_pruneAll {l : MindNode ι} (h : l ∈ leaves (pruneAll removed root ns)) :
    (l ∈ leaves ns ∧ l.content ∉ removed) ∨ ∃ v ∈ categories ns, l.place = v.place := by
  induction ns using forest_induction with
  | nil => simp at h
  | leaf c p ns ih =>
    rw [pruneAll_leaf] at h
    rw [leaves_leaf, categories_leaf]
    have hrest : l ∈ leaves (pruneAll removed root ns) →
        (l ∈ mk c p [] :: leaves ns ∧ l.content ∉ removed) ∨
          ∃ v ∈ categories ns, l.place = v.place := by
      intro hl
      rcases ih hl with ⟨hleaf, hstays⟩ | hcategory
      · exact Or.inl ⟨List.mem_cons_of_mem _ hleaf, hstays⟩
      · exact Or.inr hcategory
    by_cases hc : c ∈ removed
    · rw [if_pos hc, List.nil_append] at h
      exact hrest h
    · rw [if_neg hc, List.singleton_append, leaves_leaf, List.mem_cons] at h
      rcases h with rfl | h
      · exact Or.inl ⟨List.mem_cons_self .., hc⟩
      · exact hrest h
  | category c p x xs ns ihChildren ih =>
    rw [leaves_category, categories_category]
    have hbelow : l ∈ leaves (pruneAll removed root (x :: xs)) →
        (l ∈ leaves (x :: xs) ++ leaves ns ∧ l.content ∉ removed) ∨
          ∃ v ∈ mk c p (x :: xs) :: (categories (x :: xs) ++ categories ns), l.place = v.place := by
      intro hl
      rcases ihChildren hl with ⟨hleaf, hstays⟩ | ⟨v, hv, heq⟩
      · exact Or.inl ⟨List.mem_append_left _ hleaf, hstays⟩
      · exact Or.inr ⟨v, List.mem_cons_of_mem _ (List.mem_append_left _ hv), heq⟩
    have hrest : l ∈ leaves (pruneAll removed root ns) →
        (l ∈ leaves (x :: xs) ++ leaves ns ∧ l.content ∉ removed) ∨
          ∃ v ∈ mk c p (x :: xs) :: (categories (x :: xs) ++ categories ns), l.place = v.place := by
      intro hl
      rcases ih hl with ⟨hleaf, hstays⟩ | ⟨v, hv, heq⟩
      · exact Or.inl ⟨List.mem_append_right _ hleaf, hstays⟩
      · exact Or.inr ⟨v, List.mem_cons_of_mem _ (List.mem_append_right _ hv), heq⟩
    cases hkept : pruneAll removed root (x :: xs) with
    | nil =>
      rw [pruneAll_emptied c p ns hkept] at h
      by_cases heq : c = root
      · rw [if_pos heq, List.singleton_append, leaves_leaf, List.mem_cons] at h
        rcases h with rfl | h
        · exact Or.inr ⟨_, List.mem_cons_self .., rfl⟩
        · exact hrest h
      · rw [if_neg heq, List.nil_append] at h
        exact hrest h
    | cons k ks =>
      rw [pruneAll_kept c p ns hkept, leaves_category, List.mem_append, ← hkept] at h
      exact h.elim hbelow hrest

/-- A category of the pruned trees is at the place of a category. -/
theorem mem_categories_pruneAll {v : MindNode ι}
    (h : v ∈ categories (pruneAll removed root ns)) : ∃ w ∈ categories ns, v.place = w.place := by
  induction ns using forest_induction with
  | nil => simp at h
  | leaf c p ns ih =>
    rw [pruneAll_leaf] at h
    rw [categories_leaf]
    split_ifs at h
    · exact ih h
    · rw [List.singleton_append, categories_leaf] at h
      exact ih h
  | category c p x xs ns ihChildren ih =>
    rw [categories_category]
    have hrest : v ∈ categories (pruneAll removed root ns) →
        ∃ w ∈ mk c p (x :: xs) :: (categories (x :: xs) ++ categories ns), v.place = w.place := by
      intro hv
      obtain ⟨w, hw, heq⟩ := ih hv
      exact ⟨w, List.mem_cons_of_mem _ (List.mem_append_right _ hw), heq⟩
    cases hkept : pruneAll removed root (x :: xs) with
    | nil =>
      rw [pruneAll_emptied c p ns hkept] at h
      split_ifs at h
      · rw [List.singleton_append, categories_leaf] at h
        exact hrest h
      · exact hrest h
    | cons k ks =>
      rw [pruneAll_kept c p ns hkept, categories_category, List.mem_cons, List.mem_append,
        ← hkept] at h
      rcases h with rfl | h | h
      · exact ⟨_, List.mem_cons_self .., rfl⟩
      · obtain ⟨w, hw, heq⟩ := ihChildren h
        exact ⟨w, List.mem_cons_of_mem _ (List.mem_append_left _ hw), heq⟩
      · exact hrest h

theorem pruneAll_eq_self (h : ∀ l ∈ leaves ns, l.content ∉ removed) :
    pruneAll removed root ns = ns := by
  induction ns using forest_induction with
  | nil => simp
  | leaf c p ns ih =>
    rw [leaves_leaf, List.forall_mem_cons] at h
    have hc : c ∉ removed := h.1
    rw [pruneAll_leaf, if_neg hc, ih h.2, List.singleton_append]
  | category c p x xs ns ihChildren ih =>
    rw [leaves_category, List.forall_mem_append] at h
    rw [pruneAll_kept c p ns (ihChildren h.1), ih h.2]

/-- Pruning changes nothing exactly if no leaf is removed. -/
theorem pruneAll_eq_self_iff (hapart : Apart ns) :
    pruneAll removed root ns = ns ↔ ∀ l ∈ leaves ns, l.content ∉ removed := by
  constructor
  · intro heq l hl
    have hmem : l ∈ leaves (pruneAll removed root ns) := by rwa [heq]
    rcases mem_leaves_pruneAll hmem with ⟨-, hstays⟩ | ⟨v, hv, hplace⟩
    · exact hstays
    · exact absurd hplace (hapart l hl v hv)
  · exact pruneAll_eq_self

/-- Pruned trees have their leaves apart from their categories, when no category is kept for its
name. -/
theorem apart_pruneAll (hapart : Apart ns)
    (hsound : Sound removed root ns) : Apart (pruneAll removed root ns) := by
  intro l hl v hv heq
  rw [leaves_pruneAll hsound] at hl
  obtain ⟨w, hw, hplace⟩ := mem_categories_pruneAll hv
  exact hapart l (List.mem_filter.mp hl).1 w hw (heq.trans hplace)

end Prune

end Yuanlei.MindMap

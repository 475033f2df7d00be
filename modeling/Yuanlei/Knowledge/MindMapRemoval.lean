import Yuanlei.Knowledge.MindMap

/-!
# Removing files from a mind map

The record of a knowledge base holds the mind map and the names of the files it was made from, by
their ids.  When files are deleted, their leaves are pruned and their ids are no longer tracked.
The tree knows names only, so a leaf that is cut off may be that of another file.

Main results:

- `batchRemove_prunes`, `removeFile_prunes`: what the two removals do.
- `removal_removesOnly_iff`: when the two removals do.
- `removeFiles_foldl`: removing file by file is one removal of all of them.
-/

namespace Yuanlei.MindMap

open MindNode (mk)

variable {ι : Type}

/-! ## The record -/

abbrev FileId := Text

/-- The columns of a knowledge base for its mind map.  The tracked files are a `dict` from ids
to names. -/
structure MindMapRecord (ι : Type) where
  mindmap : Option (MindNode ι)
  fileIds : Option (List (FileId × Text))

namespace MindMapRecord

/-- The tracked files; an absent map and an empty one are the same to every reader. -/
def tracked (r : MindMapRecord ι) : List (FileId × Text) :=
  r.fileIds.getD []

/-- `kb.mindmap_file_ids[file_id]` -/
def trackedName (r : MindMapRecord ι) (fileId : FileId) : Option Text :=
  (r.tracked.find? fun e => e.1 == fileId).map Prod.snd

/-- The tracked files without some ids. -/
def untrack (r : MindMapRecord ι) (ids : List FileId) : Option (List (FileId × Text)) :=
  if r.tracked = [] then none else some (r.tracked.filter fun e => e.1 ∉ ids)

/-- The leaves below the root. -/
def leaves (r : MindMapRecord ι) : List (MindNode ι) :=
  match r.mindmap with
  | none => []
  | some tree => MindMap.leaves tree.children

/-- The categories below the root. -/
def categories (r : MindMapRecord ι) : List (MindNode ι) :=
  match r.mindmap with
  | none => []
  | some tree => MindMap.categories tree.children

def HasLeaf (r : MindMapRecord ι) (name : Text) : Prop :=
  ∃ l ∈ r.leaves, l.content = name

end MindMapRecord

/-! ## The removals -/

/-- `remove_files_from_mindmap`; the new root takes the place of the old one. -/
def removeFilesFromMindmap (tree : MindNode ι) (removed : List Text) : MindNode ι :=
  if removed = [] then tree
  else (pruneNode removed tree.content tree).getD (mk tree.content tree.place [])

def removeFileFromMindmap (kb : MindMapRecord ι) (fileId : FileId) (filename : Option Text) :
    MindMapRecord ι :=
  match kb.mindmap with
  | none => kb
  | some tree =>
    let removedFilename : Option Text :=
      match kb.trackedName fileId with
      | some name => some name
      | none =>
        match filename with
        | none => none
        | some name =>
          if name ≠ [] ∧ name ∈ collectLeafFilenames tree then some name else none
    match removedFilename with
    | none => kb
    | some name =>
      if name = [] then kb
      else
        { mindmap := some (removeFilesFromMindmap tree [name])
          fileIds := kb.untrack [fileId] }

/-- The name that a removal marks as stale. -/
def staleName (kb : MindMapRecord ι) (removal : FileId × Text) : Option Text :=
  match kb.trackedName removal.1 with
  | some name => some name
  | none => if removal.2 ≠ [] then some removal.2 else none

def staleNames (kb : MindMapRecord ι) (removals : List (FileId × Text)) : List Text :=
  removals.filterMap (staleName kb)

def staleFileIds (kb : MindMapRecord ι) (removals : List (FileId × Text)) : List FileId :=
  (removals.filter fun removal => (staleName kb removal).isSome).map Prod.fst

def batchRemoveFilesFromMindmap (kb : MindMapRecord ι) (removals : List (FileId × Text)) :
    MindMapRecord ι :=
  match kb.mindmap with
  | none => kb
  | some tree =>
    if staleNames kb removals = [] then kb
    else
      { mindmap := some (removeFilesFromMindmap tree (staleNames kb removals))
        fileIds := kb.untrack (staleFileIds kb removals) }

/-! ## What the removals do -/

/-- The second record is the first one pruned by the names of the removals. -/
def Prunes (r r' : MindMapRecord ι) (removals : List (FileId × Text)) : Prop :=
  ∀ tree, r.mindmap = some tree → r'.mindmap = some (mk tree.content tree.place
      (pruneAll (staleNames r removals) tree.content tree.children)) ∧
    r'.tracked = r.tracked.filter fun e => e.1 ∉ removals.map Prod.fst

variable {r : MindMapRecord ι} {fileId : FileId}

theorem trackedName_eq_none_iff :
    r.trackedName fileId = none ↔ ∀ e ∈ r.tracked, e.1 ≠ fileId := by
  simp [MindMapRecord.trackedName]

variable {name : Text}

theorem mem_of_trackedName (h : r.trackedName fileId = some name) : (fileId, name) ∈ r.tracked := by
  obtain ⟨e, he, rfl⟩ := Option.map_eq_some_iff.mp h
  have hid : e.1 = fileId := by
    have hbeq := List.find?_some he
    exact beq_iff_eq.mp hbeq
  rw [← hid]
  exact List.mem_of_find?_eq_some he

@[simp]
theorem tracked_untrack (r : MindMapRecord ι) (tree : Option (MindNode ι)) (ids : List FileId) :
    MindMapRecord.tracked { mindmap := tree, fileIds := r.untrack ids } =
      r.tracked.filter fun e => e.1 ∉ ids := by
  by_cases hnil : r.tracked = []
  · simp [MindMapRecord.tracked, MindMapRecord.untrack] at hnil ⊢
    simp [hnil]
  · rw [MindMapRecord.tracked, MindMapRecord.untrack, if_neg hnil, Option.getD_some]

theorem mem_leavesOf_of_mem {tree l : MindNode ι} (h : l ∈ leaves tree.children) :
    l ∈ leavesOf tree := by
  cases tree with
  | mk c p children =>
    cases children with
    | nil => simp [MindNode.children] at h
    | cons x xs => rwa [leavesOf, ← leaves]

/-- The root stays with the children that are left. -/
theorem removeFilesFromMindmap_eq (tree : MindNode ι) {removed : List Text} (h : removed ≠ []) :
    removeFilesFromMindmap tree removed =
      mk tree.content tree.place (pruneAll removed tree.content tree.children) := by
  rw [removeFilesFromMindmap, if_neg h]
  cases tree with
  | mk c p children =>
    cases children with
    | nil =>
      rw [pruneNode]
      split_ifs <;> simp [MindNode.content, MindNode.place, MindNode.children]
    | cons x xs =>
      rw [pruneNode]
      simp only [MindNode.content, MindNode.place, MindNode.children, pruneAll]
      cases (pruneNode removed c x).toList ++ pruneAll removed c xs <;> simp

theorem pruneAll_removed_nil (root : Text) (ns : List (MindNode ι)) : pruneAll [] root ns = ns :=
  pruneAll_eq_self fun _ _ => List.not_mem_nil

variable {removals : List (FileId × Text)}

theorem mem_staleFileIds_iff {e : FileId × Text} (he : e ∈ r.tracked) :
    e.1 ∈ staleFileIds r removals ↔ e.1 ∈ removals.map Prod.fst := by
  simp only [staleFileIds, List.mem_map, List.mem_filter]
  constructor
  · rintro ⟨removal, ⟨hmem, -⟩, heq⟩
    exact ⟨removal, hmem, heq⟩
  · rintro ⟨removal, hmem, heq⟩
    refine ⟨removal, ⟨hmem, ?_⟩, heq⟩
    cases hname : r.trackedName removal.1 with
    | none => exact absurd heq.symm (trackedName_eq_none_iff.mp hname e he)
    | some name => simp [staleName, hname]

theorem batchRemove_prunes (r : MindMapRecord ι) (removals : List (FileId × Text)) :
    Prunes r (batchRemoveFilesFromMindmap r removals) removals := by
  intro tree htree
  have hfilter : (r.tracked.filter fun e => e.1 ∉ staleFileIds r removals) =
      r.tracked.filter fun e => e.1 ∉ removals.map Prod.fst := by
    refine List.filter_congr fun e he => ?_
    exact decide_eq_decide.mpr (not_congr (mem_staleFileIds_iff he))
  rw [batchRemoveFilesFromMindmap, htree]
  by_cases hnil : staleNames r removals = []
  · simp only [hnil, if_true]
    constructor
    · rw [htree, pruneAll_removed_nil]
      cases tree
      rfl
    · rw [← hfilter]
      refine (List.filter_eq_self.mpr fun e he => ?_).symm
      have hnone : ∀ removal ∈ removals, staleName r removal = none :=
        List.filterMap_eq_nil_iff.mp hnil
      have hids : staleFileIds r removals = [] := by
        rw [staleFileIds, List.map_eq_nil_iff, List.filter_eq_nil_iff]
        intro removal hmem
        simp [hnone removal hmem]
      simp [hids]
  · simp only [hnil, if_false]
    exact ⟨by rw [removeFilesFromMindmap_eq tree hnil], by rw [tracked_untrack, hfilter]⟩

/-- A removal of one file prunes like a batch of one, unless the file is tracked without a name. -/
theorem removeFile_prunes (filename : Option Text) (hname : r.trackedName fileId ≠ some []) :
    Prunes r (removeFileFromMindmap r fileId filename) [(fileId, filename.getD [])] := by
  intro tree htree
  have huntracked : r.trackedName fileId = none →
      r.tracked = r.tracked.filter fun e => e.1 ∉ [(fileId, filename.getD [])].map Prod.fst := by
    intro hnone
    refine (List.filter_eq_self.mpr fun e he => ?_).symm
    simpa using trackedName_eq_none_iff.mp hnone e he
  have hsame : ∀ removed : List Text, (∀ l ∈ leaves tree.children, l.content ∉ removed) →
      some tree = some (mk tree.content tree.place
        (pruneAll removed tree.content tree.children)) := by
    intro removed hleaves
    rw [pruneAll_eq_self hleaves]
    cases tree
    rfl
  rw [removeFileFromMindmap, htree]
  cases hfile : r.trackedName fileId with
  | some name =>
    have hne : name ≠ [] := by
      rintro rfl
      exact hname hfile
    simp only [if_neg hne, staleNames, List.filterMap_cons, List.filterMap_nil, staleName, hfile]
    rw [removeFilesFromMindmap_eq tree (by simp), tracked_untrack]
    exact ⟨rfl, by simp⟩
  | none =>
    cases filename with
    | none =>
      refine ⟨?_, huntracked hfile⟩
      rw [htree]
      refine hsame _ fun l _ => ?_
      simp [staleNames, staleName, hfile]
    | some name =>
      simp only
      by_cases hleaf : name ≠ [] ∧ name ∈ collectLeafFilenames tree
      · simp only [if_pos hleaf, if_neg hleaf.1]
        rw [removeFilesFromMindmap_eq tree (by simp), tracked_untrack]
        simp [staleNames, staleName, hfile, hleaf.1]
      · simp only [if_neg hleaf]
        refine ⟨?_, huntracked hfile⟩
        rw [htree]
        refine hsame _ fun l hl hstale => hleaf ?_
        simp only [staleNames, List.filterMap_cons, List.filterMap_nil, staleName, hfile,
          Option.getD_some] at hstale
        split_ifs at hstale with hne
        · have hcontent : l.content = name := by simpa using hstale
          refine ⟨hne, ?_⟩
          rw [← hcontent]
          exact List.mem_map_of_mem (mem_leavesOf_of_mem hl)
        · simp at hstale

/-! ## Removing only the given files -/

/-- Two records with the same mind map and the same tracked files. -/
def SameAs (r r' : MindMapRecord ι) : Prop :=
  r.mindmap = r'.mindmap ∧ r.tracked = r'.tracked

/-- What a removal of some files from a record has to do. -/
structure RemovesOnly (remove : MindMapRecord ι → MindMapRecord ι) (ids : List FileId)
    (before : MindMapRecord ι) : Prop where
  untracked : ∀ e ∈ (remove before).tracked, e.1 ∉ ids
  kept : ∀ e ∈ before.tracked, e.1 ∉ ids → before.HasLeaf e.2 → (remove before).HasLeaf e.2
  filled : ∀ l ∈ (remove before).leaves, ∀ v ∈ before.categories, l.place ≠ v.place
  ordered : List.Sublist (remove before).leaves before.leaves
  twice : SameAs (remove (remove before)) (remove before)

/-- No file that stays shares the name of a leaf with a removed one, no category that is named like
the root loses all its leaves, and a removed file with a leaf is tracked under its name. -/
structure Fits (before : MindMapRecord ι) (removals : List (FileId × Text)) : Prop where
  unshared : ∀ e ∈ before.tracked, e.1 ∉ removals.map Prod.fst → before.HasLeaf e.2 →
    e.2 ∉ staleNames before removals
  rooted : ∀ tree, before.mindmap = some tree →
    Sound (staleNames before removals) tree.content tree.children
  current : ∀ e ∈ removals, e.2 ≠ [] → e.2 ∉ staleNames before removals → ¬ before.HasLeaf e.2

/-- The stale names when none of the files is tracked any more. -/
theorem mem_staleNames_iff (h : ∀ e ∈ r.tracked, e.1 ∉ removals.map Prod.fst) :
    name ∈ staleNames r removals ↔ ∃ e ∈ removals, e.2 ≠ [] ∧ e.2 = name := by
  have hnone : ∀ removal ∈ removals, r.trackedName removal.1 = none := by
    intro removal hmem
    refine trackedName_eq_none_iff.mpr fun e he heq => h e he ?_
    rw [heq]
    exact List.mem_map_of_mem hmem
  rw [staleNames, List.mem_filterMap]
  constructor
  · rintro ⟨e, he, hname⟩
    rw [staleName, hnone e he] at hname
    by_cases hne : e.2 ≠ []
    · simp only [if_pos hne, Option.some.injEq] at hname
      exact ⟨e, he, hne, hname⟩
    · simp [hne] at hname
  · rintro ⟨e, he, hne, rfl⟩
    exact ⟨e, he, by simp [staleName, hnone e he, hne]⟩

theorem removesOnly_iff_of_prunes {remove : MindMapRecord ι → MindMapRecord ι}
    {removals : List (FileId × Text)} {before : MindMapRecord ι} {tree : MindNode ι}
    (htree : before.mindmap = some tree) (hplaces : (places tree.children).Nodup)
    (hfirst : Prunes before (remove before) removals)
    (hsecond : Prunes (remove before) (remove (remove before)) removals) :
    RemovesOnly remove (removals.map Prod.fst) before ↔ Fits before removals := by
  obtain ⟨hmap, htracked⟩ := hfirst tree htree
  obtain ⟨hmap₂, htracked₂⟩ := hsecond _ hmap
  have hapart := apart_of_nodup hplaces
  have huntracked : ∀ e ∈ (remove before).tracked, e.1 ∉ removals.map Prod.fst := by
    intro e he
    rw [htracked] at he
    simpa using (List.mem_filter.mp he).2
  have hleaves : before.leaves = leaves tree.children := by
    rw [MindMapRecord.leaves, htree]
  have hcategories : before.categories = categories tree.children := by
    rw [MindMapRecord.categories, htree]
  have hafter : (remove before).leaves =
      leaves (pruneAll (staleNames before removals) tree.content tree.children) := by
    rw [MindMapRecord.leaves, hmap]
    rfl
  have hkeeps : Sound (staleNames before removals) tree.content tree.children →
      ∀ l, l ∈ (remove before).leaves ↔
        l ∈ before.leaves ∧ l.content ∉ staleNames before removals := by
    intro hsound l
    rw [hafter, hleaves, leaves_pruneAll hsound, List.mem_filter]
    simp
  constructor
  · intro h
    have hsound : Sound (staleNames before removals) tree.content tree.children := by
      by_contra hnot
      obtain ⟨l, hl, v, hv, heq⟩ := exists_emptied_of_not_sound hnot
      exact h.filled l (hafter ▸ hl) v (hcategories ▸ hv) heq
    constructor
    · intro e he hstays hleaf
      obtain ⟨l, hl, hcontent⟩ := h.kept e he hstays hleaf
      rw [← hcontent]
      exact ((hkeeps hsound l).mp hl).2
    · intro tree' htree'
      rw [htree, Option.some.injEq] at htree'
      rw [← htree']
      exact hsound
    · rintro e he hne hfresh ⟨l, hl, hcontent⟩
      -- the second removal would cut off the leaf that the first one left
      have hstays : l ∈ (remove before).leaves :=
        (hkeeps hsound l).mpr ⟨hl, hcontent ▸ hfresh⟩
      have htwice := h.twice.1
      rw [hmap₂, hmap, Option.some.injEq] at htwice
      have hself := (MindNode.mk.inj htwice).2.2
      have hno := (pruneAll_eq_self_iff (apart_pruneAll hapart hsound)).mp hself l (hafter ▸ hstays)
      exact hno ((mem_staleNames_iff huntracked).mpr ⟨e, he, hne, hcontent.symm⟩)
  · intro h
    have hsound := h.rooted tree htree
    constructor
    · exact huntracked
    · rintro e he hstays ⟨l, hl, hcontent⟩
      have hname := h.unshared e he hstays ⟨l, hl, hcontent⟩
      exact ⟨l, (hkeeps hsound l).mpr ⟨hl, hcontent ▸ hname⟩, hcontent⟩
    · intro l hl v hv
      rw [hcategories] at hv
      have hbefore := ((hkeeps hsound l).mp hl).1
      exact hapart l (hleaves ▸ hbefore) v hv
    · rw [hafter, hleaves, leaves_pruneAll hsound]
      exact List.filter_sublist
    · constructor
      · rw [hmap₂, hmap]
        refine congrArg some (congrArg (mk _ _) (pruneAll_eq_self fun l hl hstale => ?_))
        obtain ⟨e, he, hne, hcontent⟩ := (mem_staleNames_iff huntracked).mp hstale
        have hmem := (hkeeps hsound l).mp (hafter ▸ hl)
        exact h.current e he hne (hcontent ▸ hmem.2) ⟨l, hmem.1, hcontent.symm⟩
      · rw [htracked₂]
        exact List.filter_eq_self.mpr fun e he => by simpa using huntracked e he

/-- The removals of a batch and of one file remove only the given files exactly if these fit and, for
one file, the tracked name is not empty. -/
theorem removal_removesOnly_iff {before : MindMapRecord ι} {tree : MindNode ι}
    (htree : before.mindmap = some tree) (hplaces : (places tree.children).Nodup) :
    (∀ removals, RemovesOnly (fun r => batchRemoveFilesFromMindmap r removals)
      (removals.map Prod.fst) before ↔ Fits before removals) ∧
    ∀ fileId filename, RemovesOnly (fun r => removeFileFromMindmap r fileId filename)
      [fileId] before ↔
        before.trackedName fileId ≠ some [] ∧ Fits before [(fileId, filename.getD [])] := by
  constructor
  · intro removals
    exact removesOnly_iff_of_prunes htree hplaces (batchRemove_prunes before removals)
      (batchRemove_prunes _ removals)
  · intro fileId filename
    by_cases hname : before.trackedName fileId = some []
    · constructor
      · intro h
        have hsame : removeFileFromMindmap before fileId filename = before := by
          simp [removeFileFromMindmap, htree, hname]
        have huntracked := h.untracked (fileId, [])
        rw [hsame] at huntracked
        exact absurd (List.mem_singleton_self fileId) (huntracked (mem_of_trackedName hname))
      · rintro ⟨hne, -⟩
        exact absurd hname hne
    · have hfirst := removeFile_prunes filename hname
      have hgone : (removeFileFromMindmap before fileId filename).trackedName fileId ≠ some [] := by
        intro hstill
        have hmem := mem_of_trackedName hstill
        rw [(hfirst tree htree).2] at hmem
        have hfresh := (List.mem_filter.mp hmem).2
        simp at hfresh
      have hiff := @removesOnly_iff_of_prunes ι
        (fun r => removeFileFromMindmap r fileId filename) _ _ _ htree hplaces hfirst
        (removeFile_prunes filename hgone)
      rw [List.map_singleton] at hiff
      rw [hiff]
      exact ⟨fun h => ⟨hname, h⟩, fun h => h.2⟩

/-- A mind map with one category and two files, and the names they are tracked under. -/
def twoFiles (first second : String) : MindMapRecord Nat where
  mindmap := some (mk "kb".toList 0 [mk "docs".toList 1
    [mk first.toList 2 [], mk second.toList 3 []]])
  fileIds := some [("f1".toList, first.toList), ("f2".toList, second.toList)]

theorem distinct_names_removesOnly :
    RemovesOnly (fun r => batchRemoveFilesFromMindmap r [("f1".toList, "a.md".toList)])
      ["f1".toList] (twoFiles "a.md" "b.md") := by
  refine ((@removal_removesOnly_iff Nat (twoFiles "a.md" "b.md") _ rfl ?_).1
    [("f1".toList, "a.md".toList)]).mpr ⟨?_, ?_, ?_⟩
  · decide
  · intro e he hstays _
    have hall : ∀ e ∈ (twoFiles "a.md" "b.md").tracked, e.1 ∉ ["f1".toList] →
        e.2 ∉ staleNames (twoFiles "a.md" "b.md") [("f1".toList, "a.md".toList)] := by
      decide
    exact hall e he hstays
  · intro tree htree v hv hroot
    obtain rfl := Option.some.inj htree
    simp [MindNode.children, categories, categoriesOf] at hv
    subst hv
    exact absurd hroot (by decide)
  · intro e he hne hfresh
    have hall : ∀ e ∈ [("f1".toList, "a.md".toList)],
        e.2 ∈ staleNames (twoFiles "a.md" "b.md") [("f1".toList, "a.md".toList)] := by
      decide
    exact absurd (hall e he) hfresh

/-- Removing one of two files with one name cuts off the leaves of both. -/
theorem shared_name_vanishes :
    ¬ ∀ (before : MindMapRecord Nat) tree removals, before.mindmap = some tree →
      (places tree.children).Nodup →
      RemovesOnly (fun r => batchRemoveFilesFromMindmap r removals) (removals.map Prod.fst)
        before := by
  intro hall
  have honly := hall (twoFiles "a.md" "a.md") _ [("f1".toList, "a.md".toList)] rfl (by decide)
  obtain ⟨l, hl, -⟩ := honly.kept ("f2".toList, "a.md".toList) (by decide) (by decide)
    ⟨mk "a.md".toList 3 [], by simp [MindMapRecord.leaves, twoFiles, MindNode.children], rfl⟩
  have hnone : (batchRemoveFilesFromMindmap (twoFiles "a.md" "a.md")
      [("f1".toList, "a.md".toList)]).leaves = [] := by
    rfl
  rw [hnone] at hl
  exact absurd hl List.not_mem_nil

/-! ## Several removals -/

/-- Pruning twice prunes by both lists: a node named like the root that has become a leaf stays. -/
theorem pruneAll_pruneAll {removed later : List Text} {root : Text} (hroot : root ∉ later)
    (ns : List (MindNode ι)) : pruneAll later root (pruneAll removed root ns) =
      pruneAll (removed ++ later) root ns := by
  induction ns using forest_induction with
  | nil => simp
  | leaf c p ns ih =>
    rw [pruneAll_leaf, pruneAll_leaf]
    by_cases hc : c ∈ removed
    · rw [if_pos hc, if_pos (List.mem_append_left _ hc), List.nil_append, List.nil_append, ih]
    · rw [if_neg hc, List.singleton_append, pruneAll_leaf, ih]
      simp [hc]
  | category c p x xs ns ihChildren ih =>
    cases hkept : pruneAll removed root (x :: xs) with
    | nil =>
      have hall : pruneAll (removed ++ later) root (x :: xs) = [] := by
        rw [← ihChildren, hkept, pruneAll_nil]
      rw [pruneAll_emptied c p ns hkept, pruneAll_emptied c p ns hall]
      split_ifs with hc
      · rw [List.singleton_append, pruneAll_leaf, if_neg (hc ▸ hroot), ih]
      · rw [List.nil_append, List.nil_append, ih]
    | cons k ks =>
      rw [pruneAll_kept c p ns hkept]
      rw [hkept] at ihChildren
      cases hlast : pruneAll later root (k :: ks) with
      | nil =>
        rw [hlast] at ihChildren
        rw [pruneAll_emptied c p _ hlast, pruneAll_emptied c p ns ihChildren.symm, ih]
      | cons k' ks' =>
        rw [hlast] at ihChildren
        rw [pruneAll_kept c p _ hlast, pruneAll_kept c p ns ihChildren.symm, ih]

/-- Removing batches of files one after the other is removing all of them at once, if no file has
the name of the root. -/
theorem removeFiles_foldl (tree : MindNode ι) (batches : List (List Text))
    (hroot : ∀ batch ∈ batches, tree.content ∉ batch) :
    batches.foldl removeFilesFromMindmap tree = removeFilesFromMindmap tree batches.flatten := by
  have hpruned : ∀ (tree : MindNode ι) (removed : List Text), removeFilesFromMindmap tree removed =
      mk tree.content tree.place (pruneAll removed tree.content tree.children) := by
    intro tree removed
    by_cases hnone : removed = []
    · rw [hnone, pruneAll_removed_nil, removeFilesFromMindmap, if_pos rfl]
      cases tree
      rfl
    · exact removeFilesFromMindmap_eq tree hnone
  induction batches generalizing tree with
  | nil => rfl
  | cons batch batches ih =>
    have hcontent : (removeFilesFromMindmap tree batch).content = tree.content := by
      rw [hpruned]
      rfl
    have hlater : tree.content ∉ batches.flatten := by
      intro hmem
      obtain ⟨later, hlater, hname⟩ := List.mem_flatten.mp hmem
      exact hroot later (List.mem_cons_of_mem _ hlater) hname
    rw [List.foldl_cons, ih _ fun later hmem => by
      rw [hcontent]
      exact hroot later (List.mem_cons_of_mem _ hmem)]
    rw [hpruned, hcontent, hpruned tree batch, List.flatten_cons, hpruned]
    exact congrArg (mk _ _) (pruneAll_pruneAll hlater tree.children)

/-- The two files of a map are removed one by one. -/
theorem removeFiles_foldl_twoFiles :
    [["a.md".toList], ["b.md".toList]].foldl removeFilesFromMindmap
        (mk "kb".toList 0 [mk "a.md".toList 1 [], mk "b.md".toList 2 []]) =
      removeFilesFromMindmap (mk "kb".toList 0 [mk "a.md".toList 1 [], mk "b.md".toList 2 []])
        ["a.md".toList, "b.md".toList] :=
  removeFiles_foldl _ [["a.md".toList], ["b.md".toList]] (by decide)

end Yuanlei.MindMap

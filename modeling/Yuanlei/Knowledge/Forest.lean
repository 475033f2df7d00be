import Yuanlei.Knowledge.Files

/-!
# The directory tree of a knowledge base

The listing of a knowledge base starts at the rows without a parent and goes down into folders.
It reaches every row once exactly where the parents form a forest of folders.

Main results:

- `Forest.no_cycle`: no row is above itself.
- `forest_of_reparent`: a row can move below a folder that it is not above.
-/

namespace Yuanlei.KnowledgeTree

variable {ι : Type} [DecidableEq ι]

/-! ## Chains of parents -/

def parentOf (files : KnowledgeFiles ι) (id : ι) : Option ι :=
  (files.get id).bind KnowledgeFile.parentId

variable {files : KnowledgeFiles ι} {id : ι}

theorem parentOf_eq_some {parent : ι} : parentOf files id = some parent ↔
      ∃ row, files.get id = some row ∧ row.parentId = some parent :=
  Option.bind_eq_some_iff

variable {row : KnowledgeFile ι}

theorem parentOf_of_get (h : files.get id = some row) : parentOf files id = row.parentId := by
  simp [parentOf, h]

/-- The number of folders above the rows below a parent. -/
inductive Depth (files : KnowledgeFiles ι) : Option ι → Nat → Prop
  | root : Depth files none 0
  | succ {id : ι} {row : KnowledgeFile ι} {n : Nat} :
      files.get id = some row → Depth files row.parentId n → Depth files (some id) (n + 1)

/-- A row is another one or one of its ancestors. -/
inductive Above (files : KnowledgeFiles ι) (a : ι) : ι → Prop
  | refl : Above files a a
  | up {b parent : ι} : parentOf files b = some parent → Above files a parent → Above files a b

variable {n : Nat}

theorem depth_some_iff : Depth files (some id) n ↔
      ∃ row m, files.get id = some row ∧ Depth files row.parentId m ∧ n = m + 1 := by
  constructor
  · intro h
    cases h with
    | succ hget hdepth => exact ⟨_, _, hget, hdepth, rfl⟩
  · rintro ⟨row, m, hget, hdepth, rfl⟩
    exact Depth.succ hget hdepth

variable {parent : Option ι}

theorem depth_unique {m : Nat} (hn : Depth files parent n) (hm : Depth files parent m) : n = m := by
  induction hn generalizing m with
  | root =>
    cases hm
    rfl
  | succ hget _ ih =>
    obtain ⟨row, k, hget', hdepth, rfl⟩ := depth_some_iff.mp hm
    rw [hget] at hget'
    cases hget'
    rw [ih hdepth]

theorem depth_parent {parent : ι} (h : Depth files (some id) n)
    (hparent : parentOf files id = some parent) :
    ∃ m, Depth files (some parent) m ∧ n = m + 1 := by
  obtain ⟨row, m, hget, hdepth, rfl⟩ := depth_some_iff.mp h
  rw [parentOf_of_get hget] at hparent
  rw [hparent] at hdepth
  exact ⟨m, hdepth, rfl⟩

variable {a b : ι}

theorem Above.depth_le (h : Above files a b)
    (hb : Depth files (some b) n) : ∃ m, Depth files (some a) m ∧ m ≤ n := by
  induction h generalizing n with
  | refl => exact ⟨n, hb, le_rfl⟩
  | up hparent _ ih =>
    obtain ⟨m, hm, rfl⟩ := depth_parent hb hparent
    obtain ⟨k, hk, hle⟩ := ih hm
    exact ⟨k, hk, by omega⟩

variable {c : ι}

/-- Two rows of one depth above the same row are the same. -/
theorem Above.eq_of_depth (ha : Above files a c) (hb : Above files b c)
    (hda : Depth files (some a) n)
    (hdb : Depth files (some b) n) (hc : ∃ m, Depth files (some c) m) : a = b := by
  induction ha with
  | refl =>
    cases hb with
    | refl => rfl
    | up hparent hrest =>
      obtain ⟨m, hm, heq⟩ := depth_parent hda hparent
      obtain ⟨k, hk, hle⟩ := hrest.depth_le hm
      have hkn := depth_unique hk hdb
      omega
  | @up c parent hparent hrest ih =>
    obtain ⟨m, hm⟩ := hc
    obtain ⟨m', hm', rfl⟩ := depth_parent hm hparent
    cases hb with
    | refl =>
      obtain ⟨k, hk, hle⟩ := hrest.depth_le hm'
      have hkn := depth_unique hk hda
      have hmn := depth_unique hm hdb
      omega
    | up hparent' hrest' =>
      rw [hparent] at hparent'
      cases hparent'
      exact ih hrest' ⟨m', hm'⟩

/-! ## Forests -/

structure Forest (kbId : String) (files : KnowledgeFiles ι) : Prop where
  parents : ∀ id row parent, files.get id = some row → row.kbId = kbId →
    row.parentId = some parent →
    ∃ prow, files.get parent = some prow ∧ prow.isFolder = some true ∧ prow.kbId = kbId
  rooted : ∀ id row, files.get id = some row → row.kbId = kbId → ∃ n, Depth files (some id) n

variable {kbId : String}

/-- No row of the knowledge base has itself among its ancestors. -/
theorem Forest.no_cycle (h : Forest kbId files) {parent : ι} (hget : files.get id = some row)
    (hkb : row.kbId = kbId) (hparent : row.parentId = some parent) : ¬ Above files id parent := by
  intro habove
  obtain ⟨n, hn⟩ := h.rooted id row hget hkb
  obtain ⟨m, hm, hnm⟩ := depth_parent hn ((parentOf_of_get hget).trans hparent)
  obtain ⟨k, hk, hle⟩ := habove.depth_le hm
  have heq := depth_unique hk hn
  omega

variable {files' : KnowledgeFiles ι} {x : ι}

/-- A row whose ancestors do not change stays where it is. -/
theorem depth_of_not_above (hsame : ∀ k, k ≠ x → files.get k = files'.get k)
    (hdepth : Depth files parent n) (hx : ∀ p, parent = some p → ¬ Above files x p) :
    Depth files' parent n := by
  induction hdepth with
  | root => exact Depth.root
  | @succ id row n hget _ ih =>
    have hne : id ≠ x := by
      intro heq
      exact hx id rfl (heq ▸ Above.refl)
    have hget' : files'.get id = some row := (hsame id hne) ▸ hget
    refine Depth.succ hget' (ih fun p hp habove => hx id rfl ?_)
    exact Above.up ((parentOf_of_get hget).trans hp) habove

theorem forest_of_reparent {row' : KnowledgeFile ι} (h : Forest kbId files)
    (hx : files.get x = some row)
    (hx' : files'.get x = some row') (hkb : row'.kbId = row.kbId)
    (hfolder : row.isFolder = some true → row'.isFolder = some true)
    (hsame : ∀ k, k ≠ x → files'.get k = files.get k)
    (hparent : row.kbId = kbId → ∀ p, row'.parentId = some p →
      (∃ prow, files.get p = some prow ∧ prow.isFolder = some true ∧ prow.kbId = kbId) ∧
      ¬ Above files x p) : Forest kbId files' := by
  have hkept : ∀ k krow, files.get k = some krow → ∃ krow', files'.get k = some krow' ∧
      (krow.isFolder = some true → krow'.isFolder = some true) ∧ krow'.kbId = krow.kbId := by
    intro k krow hget
    by_cases hk : k = x
    · rw [hk, hx] at hget
      cases hget
      exact ⟨row', hk ▸ hx', hfolder, hkb⟩
    · exact ⟨krow, (hsame k hk).trans hget, fun hkfolder => hkfolder, rfl⟩
  have hkeptFolder : ∀ p, (∃ prow, files.get p = some prow ∧ prow.isFolder = some true ∧
      prow.kbId = kbId) → ∃ prow, files'.get p = some prow ∧ prow.isFolder = some true ∧
      prow.kbId = kbId := by
    rintro p ⟨prow, hget, hisFolder, hpkb⟩
    obtain ⟨prow', hget', hisFolder', hpkb'⟩ := hkept p prow hget
    exact ⟨prow', hget', hisFolder' hisFolder, hpkb'.trans hpkb⟩
  have hsame' : ∀ k, k ≠ x → files.get k = files'.get k := fun k hk => (hsame k hk).symm
  have hxDepth : row.kbId = kbId → ∃ n, Depth files' (some x) n := by
    intro hxkb
    cases hp : row'.parentId with
    | none => exact ⟨1, Depth.succ hx' (hp ▸ Depth.root)⟩
    | some p =>
      obtain ⟨⟨prow, hprow, -, hpkb⟩, hnot⟩ := hparent hxkb p hp
      obtain ⟨n, hn⟩ := h.rooted p prow hprow hpkb
      have hn' := depth_of_not_above hsame' hn (fun q hq => by cases hq; exact hnot)
      exact ⟨n + 1, Depth.succ hx' (hp ▸ hn')⟩
  constructor
  · intro id r p hget hrkb hp
    by_cases hid : id = x
    · rw [hid, hx'] at hget
      cases hget
      exact hkeptFolder p (hparent (hkb.symm.trans hrkb) p hp).1
    · rw [hsame id hid] at hget
      exact hkeptFolder p (h.parents id r p hget hrkb hp)
  · intro id r hget hrkb
    by_cases hid : id = x
    · rw [hid, hx'] at hget
      cases hget
      rw [hid]
      exact hxDepth (hkb.symm.trans hrkb)
    · rw [hsame id hid] at hget
      obtain ⟨n, hn⟩ := h.rooted id r hget hrkb
      -- the chain is followed upwards until it ends or meets the row that moves
      suffices hall : ∀ p n, Depth files p n →
          (∀ q, p = some q → ∃ qrow, files.get q = some qrow ∧ qrow.kbId = kbId) →
          ∃ m, Depth files' p m from
        hall (some id) n hn (fun q hq => by cases hq; exact ⟨r, hget, hrkb⟩)
      intro p n hdepth
      induction hdepth with
      | root => exact fun _ => ⟨0, Depth.root⟩
      | @succ k krow n hk _ ih =>
        intro hq
        obtain ⟨krow₀, hk₀, hkkb⟩ := hq k rfl
        rw [hk] at hk₀
        cases hk₀
        by_cases hkx : k = x
        · rw [hkx, hx] at hk
          cases hk
          rw [hkx]
          exact hxDepth hkkb
        · obtain ⟨m, hm⟩ := ih fun q hq => by
            obtain ⟨qrow, hqrow, -, hqkb⟩ := h.parents k krow q hk hkkb hq
            exact ⟨qrow, hqrow, hqkb⟩
          exact ⟨m + 1, Depth.succ ((hsame k hkx).trans hk) hm⟩

/-- A new row comes below a folder of the knowledge base. -/
theorem forest_of_insert (h : Forest kbId files) (hinsert : files.insert x row = some files')
    (hparent : row.kbId = kbId → ∀ p, row.parentId = some p →
      ∃ prow, files.get p = some prow ∧ prow.isFolder = some true ∧ prow.kbId = kbId) :
    Forest kbId files' := by
  obtain ⟨hfresh, hget'⟩ := KnowledgeFiles.get_of_insert hinsert
  have hkept : ∀ k krow, files.get k = some krow → files'.get k = some krow := by
    intro k krow hget
    have hne : k ≠ x := by
      intro heq
      simp [heq, hfresh] at hget
    rw [hget', if_neg hne, hget]
  have hdepth : ∀ p n, Depth files p n → Depth files' p n := by
    intro p n hn
    induction hn with
    | root => exact Depth.root
    | succ hget _ ih => exact Depth.succ (hkept _ _ hget) ih
  constructor
  · intro id r p hget hkb hp
    rw [hget'] at hget
    split at hget
    · cases hget
      obtain ⟨prow, hprow, hprops⟩ := hparent hkb p hp
      exact ⟨prow, hkept p prow hprow, hprops⟩
    · obtain ⟨prow, hprow, hprops⟩ := h.parents id r p hget hkb hp
      exact ⟨prow, hkept p prow hprow, hprops⟩
  · intro id r hget hkb
    have hnew := hget
    rw [hget'] at hget
    split at hget
    · cases hget
      cases hp : row.parentId with
      | none => exact ⟨1, Depth.succ hnew (hp ▸ Depth.root)⟩
      | some p =>
        obtain ⟨prow, hprow, -, hpkb⟩ := hparent hkb p hp
        obtain ⟨n, hn⟩ := h.rooted p prow hprow hpkb
        exact ⟨n + 1, Depth.succ hnew (hp ▸ hdepth _ _ hn)⟩
    · obtain ⟨n, hn⟩ := h.rooted id r hget hkb
      exact ⟨n, hdepth _ _ hn⟩

/-- The rows below a deleted one come to the top. -/
theorem forest_of_delete (h : Forest kbId files) (x : ι) : Forest kbId (files.delete x) := by
  have hrow : ∀ k krow', (files.delete x).get k = some krow' → k ≠ x ∧ ∃ krow,
      files.get k = some krow ∧ krow' = KnowledgeFiles.clearParent x krow := by
    intro k krow' hget
    rw [KnowledgeFiles.get_delete] at hget
    split at hget
    · cases hget
    · next hne =>
      obtain ⟨krow, hkrow, heq⟩ := Option.map_eq_some_iff.mp hget
      exact ⟨hne, krow, hkrow, heq.symm⟩
  have hget : ∀ k krow, k ≠ x → files.get k = some krow →
      (files.delete x).get k = some (KnowledgeFiles.clearParent x krow) := by
    intro k krow hne hk
    rw [KnowledgeFiles.get_delete, if_neg hne, hk, Option.map_some]
  have hdepth : ∀ p n, Depth files p n → p ≠ some x → ∃ m, Depth (files.delete x) p m := by
    intro p n hn
    induction hn with
    | root => exact fun _ => ⟨0, Depth.root⟩
    | @succ k krow n hk _ ih =>
      intro hne
      have hkx : k ≠ x := fun heq => hne (congrArg some heq)
      have hk' := hget k krow hkx hk
      by_cases hp : krow.parentId = some x
      · refine ⟨1, Depth.succ hk' ?_⟩
        simp only [KnowledgeFiles.clearParent, hp, if_true]
        exact Depth.root
      · obtain ⟨m, hm⟩ := ih hp
        refine ⟨m + 1, Depth.succ hk' ?_⟩
        simpa only [KnowledgeFiles.clearParent, hp, if_false] using hm
  have hkbOf : ∀ krow, (KnowledgeFiles.clearParent x krow).kbId = krow.kbId := by
    intro krow
    unfold KnowledgeFiles.clearParent
    split <;> rfl
  have hfolderOf : ∀ krow, (KnowledgeFiles.clearParent x krow).isFolder = krow.isFolder := by
    intro krow
    unfold KnowledgeFiles.clearParent
    split <;> rfl
  constructor
  · intro id r p hid hkb hp
    obtain ⟨hne, row, hrow, rfl⟩ := hrow id r hid
    rw [hkbOf] at hkb
    have hp' : row.parentId = some p ∧ p ≠ x := by
      unfold KnowledgeFiles.clearParent at hp
      split at hp
      · simp at hp
      · next hnot => exact ⟨hp, fun heq => hnot (heq ▸ hp)⟩
    obtain ⟨prow, hprow, hfolder, hpkb⟩ := h.parents id row p hrow hkb hp'.1
    exact ⟨_, hget p prow hp'.2 hprow, (hfolderOf prow).trans hfolder, (hkbOf prow).trans hpkb⟩
  · intro id r hid hkb
    obtain ⟨hne, row, hrow, rfl⟩ := hrow id r hid
    rw [hkbOf] at hkb
    obtain ⟨n, hn⟩ := h.rooted id row hrow hkb
    exact hdepth (some id) n hn (fun heq => hne (Option.some.inj heq))

/-! ## The recursive listing -/

/-- `entries.extend(...)` over a list of children -/
def collect {α β : Type} (f : α → Option (List β)) : List α → Option (List β)
  | [] => some []
  | x :: xs => (f x).bind fun ys => (collect f xs).map (ys ++ ·)

variable {α β : Type}

theorem collect_isSome {f : α → Option (List β)} {xs : List α}
    (h : ∀ x ∈ xs, ∃ ys, f x = some ys) : ∃ zs, collect f xs = some zs := by
  induction xs with
  | nil => exact ⟨[], rfl⟩
  | cons x xs ih =>
    obtain ⟨ys, hys⟩ := h x (by simp)
    obtain ⟨zs, hzs⟩ := ih fun y hy => h y (by simp [hy])
    exact ⟨ys ++ zs, by simp [collect, hys, hzs]⟩

theorem mem_collect {f : α → Option (List β)} {xs : List α} {zs : List β}
    (h : collect f xs = some zs) (z : β) :
    z ∈ zs ↔ ∃ x ∈ xs, ∃ ys, f x = some ys ∧ z ∈ ys := by
  induction xs generalizing zs with
  | nil =>
    cases h
    simp
  | cons x xs ih =>
    obtain ⟨ys, hys, hrest⟩ := Option.bind_eq_some_iff.mp h
    obtain ⟨zs', hzs', rfl⟩ := Option.map_eq_some_iff.mp hrest
    simp [ih hzs', hys]

theorem nodup_collect {κ : Type} {f : α → Option (List β)} {key : β → κ} {xs : List α}
    {zs : List β} (h : collect f xs = some zs) (hxs : xs.Nodup)
    (heach : ∀ x ∈ xs, ∀ ys, f x = some ys → (ys.map key).Nodup)
    (hcross : ∀ x ∈ xs, ∀ y ∈ xs, ∀ us vs, f x = some us → f y = some vs →
      ∀ u ∈ us, ∀ v ∈ vs, key u = key v → x = y) : (zs.map key).Nodup := by
  induction xs generalizing zs with
  | nil =>
    cases h
    simp
  | cons x xs ih =>
    obtain ⟨ys, hys, hrest⟩ := Option.bind_eq_some_iff.mp h
    obtain ⟨zs', hzs', rfl⟩ := Option.map_eq_some_iff.mp hrest
    rw [List.nodup_cons] at hxs
    have hzsNodup := ih hzs' hxs.2 (fun y hy => heach y (by simp [hy]))
      (fun y hy w hw => hcross y (by simp [hy]) w (by simp [hw]))
    rw [List.map_append, List.nodup_append]
    refine ⟨heach x (by simp) ys hys, hzsNodup, ?_⟩
    intro a ha b hb hab
    obtain ⟨u, hu, rfl⟩ := List.mem_map.mp ha
    obtain ⟨v, hv, rfl⟩ := List.mem_map.mp hb
    obtain ⟨y, hy, vs, hvs, hvmem⟩ := (mem_collect hzs' v).mp hv
    have hxy := hcross x (by simp) y (by simp [hy]) ys vs hys hvs u hu v hvmem hab
    exact hxs.1 (hxy ▸ hy)

/-- The orders of `list_children` and of `_sort_file_entries`: folders first, then the names
in lower case, by the collation of the database and of the language. -/
structure ListingOrder (ι : Type) where
  children : ι × KnowledgeFile ι → ι × KnowledgeFile ι → Bool
  entries : ι × KnowledgeFile ι → ι × KnowledgeFile ι → Bool

def listChildren (order : ListingOrder ι) (files : KnowledgeFiles ι) (kbId : String)
    (parentId : Option ι) : List (ι × KnowledgeFile ι) :=
  (files.table.rows.filter fun e => e.2.kbId == kbId && e.2.parentId == parentId).insertionSort
    fun a b => order.children a b = true

/-- `_list_knowledge_children`; `none` is a recursion deeper than `fuel`. -/
def listKnowledgeChildren (order : ListingOrder ι) (files : KnowledgeFiles ι) (kbId : String)
    (recursive filesOnly : Bool) : Nat → Option ι → Option (List (ι × KnowledgeFile ι))
  | 0, _ => none
  | fuel + 1, parentId =>
    (collect
        (fun e =>
          let own := if !filesOnly || e.2.isFile then [e] else []
          if recursive && !e.2.isFile then
            (listKnowledgeChildren order files kbId recursive filesOnly fuel (some e.1)).map
              (own ++ ·)
          else
            some own)
        (listChildren order files kbId parentId)).map
      fun entries => entries.insertionSort fun a b => order.entries a b = true

theorem mem_listChildren {order : ListingOrder ι} {parentId : Option ι} :
    (id, row) ∈ listChildren order files kbId parentId ↔
      files.get id = some row ∧ row.kbId = kbId ∧ row.parentId = parentId := by
  rw [listChildren, List.mem_insertionSort, List.mem_filter, Table.mem_rows_iff]
  simp [KnowledgeFiles.get]

theorem nodup_listChildren (order : ListingOrder ι) (files : KnowledgeFiles ι) (kbId : String)
    (parentId : Option ι) : (listChildren order files kbId parentId).Nodup := by
  unfold listChildren
  rw [(List.perm_insertionSort _ _).nodup_iff]
  exact (List.Nodup.of_map Prod.fst files.table.nodupKeys).filter _

/-- A row lies below a parent, at any depth. -/
inductive Under (files : KnowledgeFiles ι) (parent : Option ι) : ι → Prop
  | child {id : ι} : (files.get id).isSome → parentOf files id = parent → Under files parent id
  | deeper {id q : ι} : parentOf files id = some q → Under files parent q → Under files parent id

theorem under_iff_child : Under files parent id ↔
      ∃ c, (files.get c).isSome ∧ parentOf files c = parent ∧ Above files c id := by
  constructor
  · intro h
    induction h with
    | child hsome hparent => exact ⟨_, hsome, hparent, Above.refl⟩
    | deeper hq _ ih =>
      obtain ⟨c, hsome, hparent, habove⟩ := ih
      exact ⟨c, hsome, hparent, Above.up hq habove⟩
  · rintro ⟨c, hsome, hparent, habove⟩
    induction habove with
    | refl => exact Under.child hsome hparent
    | up hq _ ih => exact Under.deeper hq ih

theorem above_iff_eq_or_under : Above files c id ↔ c = id ∨ Under files (some c) id := by
  constructor
  · intro h
    induction h with
    | refl => exact Or.inl rfl
    | @up b q hq _ ih =>
      right
      rcases ih with heq | hunder
      · obtain ⟨row, hrow, -⟩ := parentOf_eq_some.mp hq
        exact Under.child (by simp [hrow]) (heq ▸ hq)
      · exact Under.deeper hq hunder
  · rintro (rfl | hunder)
    · exact Above.refl
    · induction hunder with
      | child _ hparent => exact Above.up hparent Above.refl
      | deeper hq _ ih => exact Above.up hq ih

section Listing

variable {kbId : String} {files : KnowledgeFiles ι} {c id : ι} {row : KnowledgeFile ι}

/-- The ancestors of a row of the knowledge base belong to it. -/
theorem Forest.get_of_above (h : Forest kbId files) (habove : Above files c id)
    (hget : files.get id = some row) (hkb : row.kbId = kbId) :
    ∃ crow, files.get c = some crow ∧ crow.kbId = kbId := by
  induction habove generalizing row with
  | refl => exact ⟨row, hget, hkb⟩
  | up hq _ ih =>
    rw [parentOf_of_get hget] at hq
    obtain ⟨prow, hprow, -, hpkb⟩ := h.parents _ row _ hget hkb hq
    exact ih hprow hpkb

theorem Forest.isFolder_of_under (h : Forest kbId files) (hunder : Under files (some c) id)
    (hget : files.get id = some row)
    (hkb : row.kbId = kbId) {crow : KnowledgeFile ι} (hc : files.get c = some crow) :
    crow.isFolder = some true := by
  obtain ⟨k, -, hparent, habove⟩ := under_iff_child.mp hunder
  obtain ⟨krow, hkrow, hkkb⟩ := h.get_of_above habove hget hkb
  rw [parentOf_of_get hkrow] at hparent
  obtain ⟨prow, hprow, hfolder, -⟩ := h.parents k krow c hkrow hkkb hparent
  rw [hc] at hprow
  cases hprow
  exact hfolder

theorem under_none_of_depth {n : Nat} (h : Depth files (some id) n) :
    Under files none id := by
  generalize hp : some id = parent at h
  induction h generalizing id with
  | root => cases hp
  | @succ k row n hget hdepth ih =>
    cases hp
    cases hparent : row.parentId with
    | none => exact Under.child (by simp [hget]) ((parentOf_of_get hget).trans hparent)
    | some q => exact Under.deeper ((parentOf_of_get hget).trans hparent) (ih hparent.symm)

/-- The entries are the rows selected by `S` that the listing keeps, each once. -/
structure Lists (kbId : String) (files : KnowledgeFiles ι) (filesOnly : Bool) (S : ι → Prop)
    (entries : List (ι × KnowledgeFile ι)) : Prop where
  mem_iff : ∀ id row, (id, row) ∈ entries ↔ files.get id = some row ∧ row.kbId = kbId ∧ S id ∧
    (filesOnly = true → row.isFile = true)
  nodup : (entries.map Prod.fst).Nodup

section

variable (h : Forest kbId files)
include h

variable {crow : KnowledgeFile ι}

/-- The part of a file: itself. -/
theorem lists_file (filesOnly : Bool) (hc : files.get c = some crow) (hkb : crow.kbId = kbId)
    (hfile : crow.isFile = true) :
    Lists kbId files filesOnly (fun id => Above files c id) [(c, crow)] where
  mem_iff := by
    intro id row
    rw [List.mem_singleton]
    constructor
    · intro heq
      cases heq
      exact ⟨hc, hkb, Above.refl, fun _ => hfile⟩
    · rintro ⟨hget, hrkb, habove, -⟩
      rcases above_iff_eq_or_under.mp habove with heq | hunder
      · rw [← heq, hc] at hget
        cases hget
        rw [heq]
      · have hfolder := h.isFolder_of_under hunder hget hrkb hc
        rw [KnowledgeFile.isFile_eq_true] at hfile
        exact absurd hfolder hfile
  nodup := by simp

variable {filesOnly : Bool} {entries : List (ι × KnowledgeFile ι)}

theorem lists_folder (hc : files.get c = some crow) (hkb : crow.kbId = kbId)
    (hfolder : crow.isFile = false)
    (hentries : Lists kbId files filesOnly (fun id => Under files (some c) id) entries) :
    Lists kbId files filesOnly (fun id => Above files c id)
      ((if !filesOnly || crow.isFile then [(c, crow)] else []) ++ entries) := by
  have hnot : ¬ Under files (some c) c := by
    intro hunder
    obtain ⟨k, -, hparent, habove⟩ := under_iff_child.mp hunder
    obtain ⟨krow, hkrow, hkkb⟩ := h.get_of_above habove hc hkb
    rw [parentOf_of_get hkrow] at hparent
    exact h.no_cycle hkrow hkkb hparent habove
  cases filesOnly with
  | true =>
    simp only [Bool.not_true, hfolder, Bool.or_self, Bool.false_eq_true, if_false, List.nil_append]
    refine ⟨fun id row => ?_, hentries.nodup⟩
    rw [hentries.mem_iff]
    constructor
    · rintro ⟨hget, hrkb, hunder, hkeep⟩
      exact ⟨hget, hrkb, above_iff_eq_or_under.mpr (Or.inr hunder), hkeep⟩
    · rintro ⟨hget, hrkb, habove, hkeep⟩
      rcases above_iff_eq_or_under.mp habove with heq | hunder
      · rw [← heq, hc] at hget
        cases hget
        rw [hkeep rfl] at hfolder
        cases hfolder
      · exact ⟨hget, hrkb, hunder, hkeep⟩
  | false =>
    simp only [Bool.not_false, Bool.true_or, if_true, List.singleton_append]
    refine ⟨fun id row => ?_, ?_⟩
    · rw [List.mem_cons, hentries.mem_iff]
      constructor
      · rintro (heq | ⟨hget, hrkb, hunder, hkeep⟩)
        · cases heq
          exact ⟨hc, hkb, Above.refl, fun hcontra => by cases hcontra⟩
        · exact ⟨hget, hrkb, above_iff_eq_or_under.mpr (Or.inr hunder), hkeep⟩
      · rintro ⟨hget, hrkb, habove, hkeep⟩
        rcases above_iff_eq_or_under.mp habove with heq | hunder
        · left
          rw [← heq, hc] at hget
          cases hget
          rw [heq]
        · exact Or.inr ⟨hget, hrkb, hunder, hkeep⟩
    · rw [List.map_cons, List.nodup_cons]
      refine ⟨fun hmem => ?_, hentries.nodup⟩
      obtain ⟨⟨k, krow⟩, hk, heq⟩ := List.mem_map.mp hmem
      obtain ⟨-, -, hunder, -⟩ := (hentries.mem_iff k krow).mp hk
      simp only at heq
      exact hnot (heq ▸ hunder)

theorem lists_collect {order : ListingOrder ι} {parent : Option ι} {d : Nat}
    (hparent : Depth files parent d)
    {f : ι × KnowledgeFile ι → Option (List (ι × KnowledgeFile ι))}
    (hparts : ∀ e ∈ listChildren order files kbId parent, ∀ part, f e = some part →
      Lists kbId files filesOnly (fun id => Above files e.1 id) part)
    (hsome : ∀ e ∈ listChildren order files kbId parent, ∃ part, f e = some part)
    (hcollect : collect f (listChildren order files kbId parent) = some entries) :
    Lists kbId files filesOnly (fun id => Under files parent id) entries := by
  constructor
  · intro id row
    rw [mem_collect hcollect]
    constructor
    · rintro ⟨⟨c, crow⟩, hmem, part, hpart, hin⟩
      obtain ⟨hget, hkb, habove, hkeep⟩ := ((hparts _ hmem part hpart).mem_iff id row).mp hin
      obtain ⟨hc, -, hcparent⟩ := mem_listChildren.mp hmem
      have hunder : Under files parent id :=
        under_iff_child.mpr ⟨c, by simp [hc], (parentOf_of_get hc).trans hcparent, habove⟩
      exact ⟨hget, hkb, hunder, hkeep⟩
    · rintro ⟨hget, hkb, hunder, hkeep⟩
      obtain ⟨c, -, hcparent, habove⟩ := under_iff_child.mp hunder
      obtain ⟨crow, hc, hckb⟩ := h.get_of_above habove hget hkb
      rw [parentOf_of_get hc] at hcparent
      have hmem : (c, crow) ∈ listChildren order files kbId parent :=
        mem_listChildren.mpr ⟨hc, hckb, hcparent⟩
      obtain ⟨part, hpart⟩ := hsome _ hmem
      exact ⟨(c, crow), hmem, part, hpart,
        ((hparts _ hmem part hpart).mem_iff id row).mpr ⟨hget, hkb, habove, hkeep⟩⟩
  · refine nodup_collect hcollect (nodup_listChildren order files kbId parent)
      (fun e he part hpart => (hparts e he part hpart).nodup) ?_
    -- a row that two children share has both of them above it, at one depth
    rintro ⟨x, xrow⟩ hx ⟨y, yrow⟩ hy us vs hus hvs ⟨u, urow⟩ hu ⟨v, vrow⟩ hv huv
    subst huv
    obtain ⟨huget, hukb, hux, -⟩ := ((hparts _ hx us hus).mem_iff u urow).mp hu
    obtain ⟨-, -, huy, -⟩ := ((hparts _ hy vs hvs).mem_iff u vrow).mp hv
    obtain ⟨hxget, hxkb, hxparent⟩ := mem_listChildren.mp hx
    obtain ⟨hyget, hykb, hyparent⟩ := mem_listChildren.mp hy
    have hdx : Depth files (some x) (d + 1) := Depth.succ hxget (hxparent ▸ hparent)
    have hdy : Depth files (some y) (d + 1) := Depth.succ hyget (hyparent ▸ hparent)
    have hxy := hux.eq_of_depth huy hdx hdy (h.rooted u urow huget hukb)
    subst hxy
    rw [hxget] at hyget
    cases hyget
    rfl

theorem listKnowledgeChildren_lists (order : ListingOrder ι) (filesOnly : Bool) {bound : Nat}
    (hbound : ∀ id row n, files.get id = some row → Depth files (some id) n → n ≤ bound)
    (fuel d : Nat) (parent : Option ι) (hparent : Depth files parent d) (hfuel : bound < fuel + d) :
    ∃ entries, listKnowledgeChildren order files kbId true filesOnly fuel parent = some entries ∧
      Lists kbId files filesOnly (fun id => Under files parent id) entries := by
  induction fuel generalizing d parent with
  | zero =>
    cases hparent with
    | root => omega
    | succ hget hdepth =>
      have hle := hbound _ _ _ hget (Depth.succ hget hdepth)
      omega
  | succ fuel ih =>
    have hchild : ∀ e ∈ listChildren order files kbId parent,
        ∃ part, (let own := if !filesOnly || e.2.isFile then [e] else []
          if true && !e.2.isFile then
            (listKnowledgeChildren order files kbId true filesOnly fuel (some e.1)).map (own ++ ·)
          else some own) = some part ∧
        Lists kbId files filesOnly (fun id => Above files e.1 id) part := by
      rintro ⟨c, crow⟩ hmem
      obtain ⟨hc, hkb, hcparent⟩ := mem_listChildren.mp hmem
      cases hfile : crow.isFile with
      | true =>
        exact ⟨[(c, crow)], by simp, lists_file h filesOnly hc hkb hfile⟩
      | false =>
        have hdepth : Depth files (some c) (d + 1) := Depth.succ hc (hcparent ▸ hparent)
        obtain ⟨entries, hlist, hlists⟩ := ih (d + 1) (some c) hdepth (by omega)
        exact ⟨_, by simp [hfile, hlist], lists_folder h hc hkb hfile hlists⟩
    obtain ⟨entries, hcollect⟩ := collect_isSome fun e he =>
      (hchild e he).imp fun part hpart => hpart.1
    have hlists := lists_collect h hparent
      (fun e he part hpart => by
        obtain ⟨part', hpart', hl⟩ := hchild e he
        rw [hpart] at hpart'
        cases hpart'
        exact hl)
      (fun e he => (hchild e he).imp fun part hpart => hpart.1) hcollect
    refine ⟨_, by simp only [listKnowledgeChildren, hcollect, Option.map_some]; rfl, ?_⟩
    have hperm := List.perm_insertionSort (fun a b => order.entries a b = true) entries
    constructor
    · intro id row
      rw [hperm.mem_iff]
      exact hlists.mem_iff id row
    · rw [(hperm.map Prod.fst).nodup_iff]
      exact hlists.nodup

end

theorem exists_depth_bound (files : KnowledgeFiles ι) :
    ∃ bound, ∀ id row n, files.get id = some row → Depth files (some id) n → n ≤ bound := by
  suffices hlist : ∀ rows : List (ι × KnowledgeFile ι), ∃ bound, ∀ e ∈ rows, ∀ n,
      Depth files (some e.1) n → n ≤ bound by
    obtain ⟨bound, hbound⟩ := hlist files.table.rows
    refine ⟨bound, fun id row n hget hn => hbound (id, row) ?_ n hn⟩
    exact (files.table.mem_rows_iff id row).mpr hget
  intro rows
  induction rows with
  | nil => exact ⟨0, by simp⟩
  | cons e rows ih =>
    obtain ⟨bound, hbound⟩ := ih
    by_cases hdepth : ∃ m, Depth files (some e.1) m
    · obtain ⟨m, hm⟩ := hdepth
      refine ⟨max m bound, fun e' he' n hn => ?_⟩
      rcases List.mem_cons.mp he' with rfl | hrest
      · rw [depth_unique hn hm]
        exact le_max_left m bound
      · exact (hbound e' hrest n hn).trans (le_max_right m bound)
    · refine ⟨bound, fun e' he' n hn => ?_⟩
      rcases List.mem_cons.mp he' with rfl | hrest
      · exact absurd ⟨n, hn⟩ hdepth
      · exact hbound e' hrest n hn

theorem listKnowledgeChildren_complete (h : Forest kbId files) (order : ListingOrder ι)
    (filesOnly : Bool) :
    ∃ fuel₀, ∀ fuel, fuel₀ ≤ fuel →
      ∃ entries, listKnowledgeChildren order files kbId true filesOnly fuel none = some entries ∧
        (entries.map Prod.fst).Nodup ∧
        ∀ id row, (id, row) ∈ entries ↔ files.get id = some row ∧ row.kbId = kbId ∧
          (filesOnly = true → row.isFile = true) := by
  obtain ⟨bound, hbound⟩ := exists_depth_bound files
  refine ⟨bound + 1, fun fuel hfuel => ?_⟩
  obtain ⟨entries, hlist, hlists⟩ := listKnowledgeChildren_lists h order filesOnly hbound fuel 0
    none Depth.root (by omega)
  refine ⟨entries, hlist, hlists.nodup, fun id row => ?_⟩
  rw [hlists.mem_iff]
  constructor
  · rintro ⟨hget, hkb, -, hkeep⟩
    exact ⟨hget, hkb, hkeep⟩
  · rintro ⟨hget, hkb, hkeep⟩
    obtain ⟨n, hn⟩ := h.rooted id row hget hkb
    exact ⟨hget, hkb, under_none_of_depth hn, hkeep⟩

end Listing

end Yuanlei.KnowledgeTree

import Yuanlei.Lib.PosixPath

/-!
# The tree of headings and lines

`Node` of `nlp.py`: lines with levels become a tree, and the tree is cut into texts.  A line
that is deeper than the depth of the root belongs to the open heading above it.  The open
nodes are a stack; a node that is popped becomes the last child of the node below it.

Main results:

- `getTree`: the texts of a tree.
- `outputs_step`: how one line changes it.
-/

namespace Yuanlei.Chunking

open PosixPath (Text)

/-! ## Building the tree -/

/-- A node with its level, its texts and its children. -/
inductive Node (α : Type) where
  | mk (level : Nat) (texts : List α) (children : List (Node α))

namespace Node

variable {α : Type}

def level : Node α → Nat
  | mk level _ _ => level

def texts : Node α → List α
  | mk _ texts _ => texts

def children : Node α → List (Node α)
  | mk _ _ children => children

def addChild (node child : Node α) : Node α :=
  mk node.level node.texts (node.children ++ [child])

def addText (node : Node α) (text : α) : Node α :=
  mk node.level (node.texts ++ [text]) node.children

/-- The root of a tree. -/
def root : Node α :=
  mk 0 [] []

/-- Pop the open nodes that a heading of this level ends. -/
def closeWhile (level : Nat) : Node α → List (Node α) → Node α × List (Node α)
  | top, [] => (top, [])
  | top, parent :: below =>
    if level ≤ top.level then closeWhile level (parent.addChild top) below
    else (top, parent :: below)

/-- One line on the stack of open nodes; `-1` is no depth. -/
def buildStep (depth : Int) (stack : Node α × List (Node α)) (line : Nat × α) :
    Node α × List (Node α) :=
  if depth ≠ -1 ∧ depth < line.1 then (stack.1.addText line.2, stack.2)
  else
    let stack := closeWhile line.1 stack.1 stack.2
    (mk line.1 [line.2] [], stack.1 :: stack.2)

/-- The tree of a stack. -/
def closeAll : Node α → List (Node α) → Node α
  | top, [] => top
  | top, parent :: below => closeAll (parent.addChild top) below

/-- The open nodes after some lines. -/
def openNodes (depth : Int) (lines : List (Nat × α)) : Node α × List (Node α) :=
  lines.foldl (buildStep depth) (root, [])

def buildTree (depth : Int) (lines : List (Nat × α)) : Node α :=
  closeAll (openNodes depth lines).1 (openNodes depth lines).2

/-! ## Walking through the tree -/

/-- The titles that the children of a node get. -/
def pathTitles (depth : Int) (titles : List α) (node : Node α) : List α :=
  if 1 ≤ node.level ∧ node.level ≤ depth then titles ++ node.texts else titles

mutual

/-- `_dfs`, with the lines of a text apart. -/
def dfs (depth : Int) (titles : List α) : Node α → List (List α)
  | mk level texts children =>
    let path := if 1 ≤ level ∧ level ≤ depth then titles ++ texts else titles
    (if level = 0 ∧ !texts.isEmpty then [titles ++ texts] else []) ++
      (if depth < level ∧ !texts.isEmpty then [path ++ texts]
        else if children.isEmpty ∧ 1 ≤ level ∧ level ≤ depth then [path] else []) ++
      dfsChildren depth path children

def dfsChildren (depth : Int) (titles : List α) : List (Node α) → List (List α)
  | [] => []
  | node :: nodes => dfs depth titles node ++ dfsChildren depth titles nodes

end

/-- The lines of the texts of `get_tree`. -/
def getTreeLines (depth : Int) (node : Node α) : List (List α) :=
  dfs depth [] node

def getTree (depth : Int) (node : Node Text) : List Text :=
  (getTreeLines depth node).map (List.intercalate ['\n'])

/-! ## What the open nodes have emitted -/

section Outputs

variable (depth : Int)

/-- The titles below the innermost of these nodes. -/
def titlesOf : List (Node α) → List α
  | [] => []
  | node :: below => pathTitles depth (titlesOf below) node

/-- What the walk emits at these nodes and at their children so far. -/
def emitted : List (Node α) → List (List α)
  | [] => []
  | node :: below =>
    emitted below ++
      (if node.level = 0 ∧ !node.texts.isEmpty then [titlesOf depth below ++ node.texts]
        else []) ++
      dfsChildren depth (pathTitles depth (titlesOf depth below) node) node.children

/-- What the walk emits on the tree of a stack. -/
def outputs (stack : Node α × List (Node α)) : List (List α) :=
  emitted depth stack.2 ++ dfs depth (titlesOf depth stack.2) stack.1

variable {depth}

theorem dfsChildren_append (titles : List α) (nodes : List (Node α)) (node : Node α) :
    dfsChildren depth titles (nodes ++ [node])
      = dfsChildren depth titles nodes ++ dfs depth titles node := by
  induction nodes with
  | nil => simp [dfsChildren]
  | cons first nodes ih =>
    rw [List.cons_append, dfsChildren, dfsChildren, ih, List.append_assoc]

theorem dfs_addChild {node : Node α} (h : (node.level : Int) ≤ depth) (titles : List α)
    (child : Node α) :
    dfs depth titles (node.addChild child)
      = (if node.level = 0 ∧ !node.texts.isEmpty then [titles ++ node.texts] else []) ++
          dfsChildren depth (pathTitles depth titles node) node.children ++
          dfs depth (pathTitles depth titles node) child := by
  cases node with
  | mk level texts children =>
    have hdeep : ¬ depth < (level : Int) := Int.not_lt.mpr h
    have hsome : (children ++ [child]).isEmpty = false := by
      simp
    simp only [addChild, dfs, Node.level, Node.texts, Node.children, dfsChildren_append,
      pathTitles, hdeep, hsome, Bool.false_eq_true, false_and, if_false, List.append_nil,
      List.append_assoc]
    rfl

theorem emitted_cons_append_dfs {parent : Node α} (h : (parent.level : Int) ≤ depth)
    (top : Node α) (below : List (Node α)) :
    outputs depth (parent.addChild top, below) = outputs depth (top, parent :: below) := by
  simp only [outputs, emitted, titlesOf, dfs_addChild h, List.append_assoc]

variable {below : List (Node α)}

/-- The walk on the tree of a stack. -/
theorem dfs_closeAll (h : ∀ node ∈ below, (node.level : Int) ≤ depth)
    (top : Node α) : dfs depth [] (closeAll top below) = outputs depth (top, below) := by
  induction below generalizing top with
  | nil => simp [closeAll, outputs, emitted, titlesOf]
  | cons parent below ih =>
    rw [closeAll, ih (fun node hmem => h node (List.mem_cons_of_mem _ hmem)),
      emitted_cons_append_dfs (h parent List.mem_cons_self)]

/-- Popping nodes changes nothing that is emitted. -/
theorem outputs_closeWhile (h : ∀ node ∈ below, (node.level : Int) ≤ depth) (level : Nat)
    (top : Node α) :
    outputs depth (closeWhile level top below) = outputs depth (top, below) := by
  induction below generalizing top with
  | nil => rfl
  | cons parent below ih =>
    unfold closeWhile
    split
    · rw [ih (fun node hmem => h node (List.mem_cons_of_mem _ hmem)),
        emitted_cons_append_dfs (h parent List.mem_cons_self)]
    · rfl

end Outputs

/-! ## The stack of open headings -/

/-- The level and the texts of a node. -/
def entry (node : Node α) : Nat × List α :=
  (node.level, node.texts)

/-- The node of a heading. -/
def IsHeading (depth : Int) (node : Node α) : Prop :=
  1 ≤ node.level ∧ (node.level : Int) ≤ depth

/-- The open nodes are headings over a root, and the innermost one has no child. -/
structure Shape (depth : Int) (stack : Node α × List (Node α)) (heads : List (Node α))
    (base : Node α) : Prop where
  nodes : stack.1 :: stack.2 = heads ++ [base]
  base : base.level = 0
  heads : ∀ node ∈ heads, IsHeading depth node
  childless : stack.1.children = []

variable {depth : Int}

/-- A pop leaves a child behind. -/
theorem closeWhile_children (level : Nat) (top : Node α) (below : List (Node α)) :
    closeWhile level top below = (top, below) ∨ (closeWhile level top below).1.children ≠ [] := by
  induction below generalizing top with
  | nil => exact Or.inl rfl
  | cons parent below ih =>
    unfold closeWhile
    split
    · right
      rcases ih (parent.addChild top) with hstay | hpop
      · rw [hstay]
        simp [addChild, children]
      · exact hpop
    · exact Or.inl rfl

variable {base : Node α} {heads : List (Node α)}

theorem closeWhile_heads (level : Nat) (hbase : base.level = 0) {top : Node α}
    {below : List (Node α)}
    (hnodes : top :: below = heads ++ [base]) (hheads : ∀ node ∈ heads, IsHeading depth node) :
    ∃ heads' base', (closeWhile level top below).1 :: (closeWhile level top below).2
        = heads' ++ [base'] ∧ base'.entry = base.entry ∧
      heads'.map entry = (heads.map entry).dropWhile (fun e => level ≤ e.1) ∧
      ∀ node ∈ heads', IsHeading depth node := by
  induction below generalizing top heads base with
  | nil =>
    have hnil : heads = [] := by
      cases heads with
      | nil => rfl
      | cons head heads => simp at hnodes
    exact ⟨heads, base, hnodes, rfl, by simp [hnil], hheads⟩
  | cons parent below ih =>
    cases heads with
    | nil => simp at hnodes
    | cons head heads =>
      rw [List.cons_append, List.cons.injEq] at hnodes
      obtain ⟨hhead, hrest⟩ := hnodes
      unfold closeWhile
      split
      · rename_i hpop
        have hdrop : ((head :: heads).map entry).dropWhile (fun e => level ≤ e.1)
            = (heads.map entry).dropWhile (fun e => level ≤ e.1) := by
          rw [List.map_cons, List.dropWhile_cons_of_pos]
          rw [← hhead]
          exact decide_eq_true hpop
        rw [hdrop]
        cases heads with
        | nil =>
          rw [List.nil_append, List.cons.injEq] at hrest
          have hparent : parent.addChild top :: below = [] ++ [base.addChild top] := by
            rw [hrest.1, hrest.2]
            rfl
          have hlast : (base.addChild top).level = 0 := hbase
          exact ih hlast hparent (by simp)
        | cons second heads =>
          rw [List.cons_append, List.cons.injEq] at hrest
          have hparent : parent.addChild top :: below
              = (second.addChild top :: heads) ++ [base] := by
            rw [hrest.1, hrest.2]
            rfl
          have hsecond : ∀ node ∈ second.addChild top :: heads, IsHeading depth node := by
            intro node hmem
            rcases List.mem_cons.mp hmem with heq | hmem
            · rw [heq]
              exact hheads second (by simp)
            · exact hheads node (by simp [hmem])
          have h := ih hbase hparent hsecond
          exact h
      · rename_i hstay
        refine ⟨head :: heads, base, ?_, rfl, ?_, hheads⟩
        · rw [List.cons_append, hhead, hrest]
        · rw [List.map_cons, List.dropWhile_cons_of_neg]
          rw [← hhead]
          exact fun hle => hstay (of_decide_eq_true hle)

/-! ## One line -/

/-- The texts of the open headings, the outermost first. -/
def path (entries : List (Nat × List α)) : List α :=
  entries.reverse.flatMap (·.2)

/-- The lines before the first heading and the open headings with their texts. -/
abbrev View (α : Type) := List α × List (Nat × List α)

/-- The text that the walk is at. -/
def View.current (view : View α) : List α :=
  if view.2 = [] then view.1 else path view.2

/-- One line on the open headings. -/
def viewStep (depth : Int) (view : View α) (line : Nat × α) : View α :=
  if depth < line.1 then
    match view.2 with
    | [] => (view.1 ++ [line.2], [])
    | (level, texts) :: rest => (view.1, (level, texts ++ [line.2]) :: rest)
  else
    (view.1, (line.1, [line.2]) :: view.2.dropWhile fun e => line.1 ≤ e.1)

theorem path_cons (e : Nat × List α) (entries : List (Nat × List α)) :
    path (e :: entries) = path entries ++ e.2 := by
  simp [path]

theorem titlesOf_heads (hbase : base.level = 0) (hheads : ∀ node ∈ heads, IsHeading depth node) :
    titlesOf depth (heads ++ [base]) = path (heads.map entry) := by
  induction heads with
  | nil => simp [titlesOf, pathTitles, hbase, path]
  | cons head heads ih =>
    have hhead : 1 ≤ head.level ∧ (head.level : Int) ≤ depth := hheads head List.mem_cons_self
    rw [List.cons_append, titlesOf, ih fun node hmem => hheads node (List.mem_cons_of_mem _ hmem),
      pathTitles, if_pos hhead, List.map_cons, path_cons]
    rfl

/-- What is known of the stack and the open headings. -/
structure Tracks (depth : Int) (stack : Node α × List (Node α)) (view : View α) : Prop where
  shape : ∃ heads base, Shape depth stack heads base ∧ base.texts = view.1 ∧
    heads.map entry = view.2
  filled : ∀ e ∈ view.2, e.2 ≠ []

/-- The walk on a node without children. -/
theorem dfs_childless (titles : List α) (level : Nat) (texts : List α) :
    dfs depth titles (mk level texts []) =
      (if level = 0 ∧ !texts.isEmpty then [titles ++ texts] else []) ++
        (if depth < level ∧ !texts.isEmpty then
          [(if 1 ≤ level ∧ level ≤ depth then titles ++ texts else titles) ++ texts]
        else if 1 ≤ level ∧ level ≤ depth then [titles ++ texts] else []) := by
  have hpath : ∀ b : Prop, ∀ [Decidable b], (if b then [if b then titles ++ texts else titles]
      else []) = if b then [titles ++ texts] else [] := by
    intro b _
    split <;> rfl
  simp only [dfs, dfsChildren, List.append_nil, List.isEmpty_nil, true_and, hpath]

variable {stack : Node α × List (Node α)} {view : View α}

/-- The walk ends with the text that it is at. -/
theorem outputs_eq (hdepth : 0 ≤ depth) (h : Tracks depth stack view) : outputs depth stack
      = emitted depth stack.2 ++ if view.current = [] then [] else [view.current] := by
  obtain ⟨heads, base, hshape, hbase, hentries⟩ := h.shape
  obtain ⟨top, below⟩ := stack
  have hnodes := hshape.nodes
  have htop := hshape.childless
  unfold outputs
  congr 1
  cases top with
  | mk level texts children =>
    simp only [Node.children] at htop
    rw [htop, dfs_childless]
    cases heads with
    | nil =>
      simp only [List.nil_append, List.cons.injEq] at hnodes
      have hlevel : level = 0 := by
        have hzero := hshape.base
        rwa [← hnodes.1] at hzero
      have hview : view.current = texts := by
        rw [View.current, ← hentries, if_pos (by rfl), ← hbase, ← hnodes.1]
        rfl
      have hbelow : below = [] := hnodes.2
      rw [hview, hlevel, hbelow]
      by_cases hempty : texts = []
      · simp [hempty]
      · have hdeep : ¬ depth < 0 := Int.not_lt.mpr hdepth
        simp [titlesOf, hempty, hdeep]
    | cons head heads =>
      rw [List.cons_append, List.cons.injEq] at hnodes
      have hhead : 1 ≤ level ∧ (level : Int) ≤ depth := by
        have hheading := hshape.heads head List.mem_cons_self
        rwa [← hnodes.1] at hheading
      have hview : view.current = titlesOf depth below ++ texts := by
        have hheads : ∀ node ∈ heads, IsHeading depth node := fun node hmem =>
          hshape.heads node (List.mem_cons_of_mem _ hmem)
        have hbelow : below = heads ++ [base] := hnodes.2
        rw [View.current, ← hentries, if_neg (by simp), List.map_cons, path_cons, hbelow,
          titlesOf_heads hshape.base hheads, ← hnodes.1]
        rfl
      have hfilled : texts ≠ [] := by
        have hentry := h.filled head.entry (hentries ▸ List.mem_cons_self)
        rwa [← hnodes.1] at hentry
      have hdeep : ¬ depth < (level : Int) := Int.not_lt.mpr hhead.2
      have hzero : level ≠ 0 := by
        omega
      rw [hview]
      simp [hzero, hdeep, hhead, hfilled]

theorem dfs_of_children {node : Node α} (h : (node.level : Int) ≤ depth)
    (hchildren : node.children ≠ []) (titles : List α) :
    dfs depth titles node
      = (if node.level = 0 ∧ !node.texts.isEmpty then [titles ++ node.texts] else []) ++
          dfsChildren depth (pathTitles depth titles node) node.children := by
  cases node with
  | mk level texts children =>
    have hdeep : ¬ depth < (level : Int) := Int.not_lt.mpr h
    have hsome : children.isEmpty = false := by
      simpa [Node.children] using hchildren
    simp only [dfs, pathTitles, Node.level, Node.texts, Node.children, hdeep, hsome,
      Bool.false_eq_true, false_and, if_false, List.append_nil]
    rfl

variable {line : Nat × α}

theorem viewStep_deep (h : depth < line.1) :
    (viewStep depth view line).current = view.current ++ [line.2] := by
  obtain ⟨intro, entries⟩ := view
  unfold viewStep
  rw [if_pos h]
  cases entries with
  | nil => rfl
  | cons e entries => simp [View.current, path_cons]

theorem viewStep_heading (h : ¬ depth < line.1) : (viewStep depth view line).current
      = path (view.2.dropWhile fun e => line.1 ≤ e.1) ++ [line.2] := by
  unfold viewStep
  rw [if_neg h, View.current, if_neg (by simp), path_cons]

theorem buildStep_deep (hdepth : 1 ≤ depth) (h : depth < line.1) : buildStep depth stack line =
    (stack.1.addText line.2, stack.2) :=
  if_pos ⟨by omega, h⟩

theorem buildStep_heading (h : ¬ depth < line.1) :
    buildStep depth stack line = (mk line.1 [line.2] [],
      (closeWhile line.1 stack.1 stack.2).1 :: (closeWhile line.1 stack.1 stack.2).2) :=
  if_neg fun hdeep => h hdeep.2

theorem tracks_step (hdepth : 1 ≤ depth) (h : Tracks depth stack view) (hline : 1 ≤ line.1) :
    Tracks depth (buildStep depth stack line) (viewStep depth view line) := by
  obtain ⟨heads, base, hshape, hbase, hentries⟩ := h.shape
  obtain ⟨top, below⟩ := stack
  obtain ⟨intro, entries⟩ := view
  have hnodes : top :: below = heads ++ [base] := hshape.nodes
  have hintro : base.texts = intro := hbase
  by_cases hdeep : depth < line.1
  · rw [buildStep_deep hdepth hdeep]
    unfold viewStep
    rw [if_pos hdeep]
    cases heads with
    | nil =>
      rw [List.nil_append, List.cons.injEq] at hnodes
      simp only [List.map_nil] at hentries
      simp only [← hentries]
      refine ⟨⟨[], base.addText line.2, ⟨?_, hshape.base, by simp, hshape.childless⟩, ?_, rfl⟩,
        by simp⟩
      · rw [List.nil_append, hnodes.1, hnodes.2]
      · rw [← hintro]
        rfl
    | cons head heads =>
      rw [List.cons_append, List.cons.injEq] at hnodes
      simp only [List.map_cons] at hentries
      simp only [← hentries]
      refine ⟨⟨head.addText line.2 :: heads, base,
        ⟨?_, hshape.base, ?_, hshape.childless⟩, hbase, rfl⟩, ?_⟩
      · rw [List.cons_append, hnodes.1, hnodes.2]
      · intro node hmem
        rcases List.mem_cons.mp hmem with heq | hmem
        · rw [heq]
          exact hshape.heads head List.mem_cons_self
        · exact hshape.heads node (List.mem_cons_of_mem _ hmem)
      · intro e hmem
        rcases List.mem_cons.mp hmem with heq | hmem
        · rw [heq]
          simp [entry]
        · exact h.filled e (hentries ▸ List.mem_cons_of_mem _ hmem)
  · rw [buildStep_heading hdeep]
    unfold viewStep
    rw [if_neg hdeep]
    obtain ⟨heads', base', hnodes', hentry, hdrop, hheads'⟩ :=
      closeWhile_heads line.1 hshape.base hnodes hshape.heads
    have hlevel : (line.1 : Int) ≤ depth := Int.not_lt.mp hdeep
    refine ⟨⟨mk line.1 [line.2] [] :: heads', base', ⟨?_, ?_, ?_, rfl⟩, ?_, ?_⟩, ?_⟩
    · rw [hnodes', List.cons_append]
    · have hzero := congrArg Prod.fst hentry
      exact hzero.trans hshape.base
    · intro node hmem
      rcases List.mem_cons.mp hmem with heq | hmem
      · rw [heq]
        exact ⟨hline, hlevel⟩
      · exact hheads' node hmem
    · have htexts := congrArg Prod.snd hentry
      exact htexts.trans hbase
    · rw [List.map_cons, hdrop, hentries]
      rfl
    · intro e hmem
      rcases List.mem_cons.mp hmem with heq | hmem
      · rw [heq]
        simp
      · exact h.filled e ((List.dropWhile_sublist _).subset hmem)

/-- A line starts a new text or goes on with the text that the walk is at. -/
theorem outputs_step (hdepth : 1 ≤ depth) (h : Tracks depth stack view) (hline : 1 ≤ line.1) :
    outputs depth (buildStep depth stack line)
        = outputs depth stack ++ [(viewStep depth view line).current] ∨
      (view.current ≠ [] ∧ (viewStep depth view line).current = view.current ++ [line.2] ∧
        ∃ done, outputs depth stack = done ++ [view.current] ∧
          outputs depth (buildStep depth stack line)
            = done ++ [(viewStep depth view line).current]) := by
  have hzero : 0 ≤ depth := by
    omega
  have hnext := outputs_eq hzero (tracks_step hdepth h hline)
  have hnow := outputs_eq hzero h
  by_cases hdeep : depth < line.1
  · have hcurrent : (viewStep depth view line).current = view.current ++ [line.2] :=
      viewStep_deep hdeep
    rw [if_neg (by simp [hcurrent]), buildStep_deep hdepth hdeep] at hnext
    rw [buildStep_deep hdepth hdeep, hnext]
    by_cases hempty : view.current = []
    · left
      rw [if_pos hempty, List.append_nil] at hnow
      rw [hnow]
    · right
      rw [if_neg hempty] at hnow
      exact ⟨hempty, hcurrent, _, hnow, rfl⟩
  · have hcurrent : (viewStep depth view line).current
        = path (view.2.dropWhile fun e => line.1 ≤ e.1) ++ [line.2] := viewStep_heading hdeep
    obtain ⟨heads, base, hshape, hbase, hentries⟩ := h.shape
    obtain ⟨top, below⟩ := stack
    have hnodes : top :: below = heads ++ [base] := hshape.nodes
    obtain ⟨heads', base', hnodes', hentry, hdrop, hheads'⟩ :=
      closeWhile_heads line.1 hshape.base hnodes hshape.heads
    have hbounds : ∀ node ∈ top :: below, (node.level : Int) ≤ depth := by
      intro node hmem
      rw [hnodes] at hmem
      rcases List.mem_append.mp hmem with hmem | hmem
      · exact (hshape.heads node hmem).2
      · rw [List.mem_singleton.mp hmem, hshape.base]
        exact hzero
    rw [if_neg (by simp [hcurrent]), buildStep_heading hdeep] at hnext
    rw [buildStep_heading hdeep, hnext]
    rcases closeWhile_children line.1 top below with hstay | hpop
    · rw [hstay] at hnodes'
      have hheads : heads' = heads := List.append_inj_left' (hnodes'.symm.trans hnodes) rfl
      simp only [hstay]
      cases heads with
      | nil =>
        left
        rw [List.nil_append, List.cons.injEq] at hnodes
        have hnone : top.children = [] := hshape.childless
        have hview : view.current = top.texts := by
          rw [View.current, ← hentries, if_pos (by rfl), ← hbase, hnodes.1]
        have hlevel : top.level = 0 := hnodes.1 ▸ hshape.base
        rw [hnow]
        simp only [hnodes.2, emitted, titlesOf, hlevel, hnone, dfsChildren, hview]
        by_cases hempty : top.texts = []
        · simp [hempty]
        · simp [hempty]
      | cons head heads =>
        right
        rw [List.cons_append, List.cons.injEq] at hnodes
        have hnone : top.children = [] := hshape.childless
        have hhead : IsHeading depth top := hnodes.1 ▸ hshape.heads head List.mem_cons_self
        have hlevel : top.level ≠ 0 := by
          have hone := hhead.1
          omega
        have hsome : view.2 ≠ [] := by
          rw [← hentries]
          simp
        have hsame : (viewStep depth view line).current = view.current ++ [line.2] := by
          rw [hcurrent, ← hentries, ← hdrop, hheads, View.current, if_neg hsome, hentries]
        have hfull : view.current ≠ [] := by
          rw [View.current, if_neg hsome, ← hentries, List.map_cons, path_cons]
          have hfilled := h.filled head.entry (hentries ▸ List.mem_cons_self)
          simp [hfilled]
        refine ⟨hfull, hsame, emitted depth below, ?_, ?_⟩
        · rw [hnow, if_neg hfull]
        · simp [emitted, hlevel, hnone, dfsChildren]
    · left
      have hclosed : outputs depth (closeWhile line.1 top below) = outputs depth (top, below) :=
        outputs_closeWhile (fun node hmem => hbounds node (List.mem_cons_of_mem _ hmem)) line.1 top
      have hlevel : ((closeWhile line.1 top below).1.level : Int) ≤ depth := by
        cases heads' with
        | nil =>
          rw [List.nil_append, List.cons.injEq] at hnodes'
          have hlast : base'.level = 0 := (congrArg Prod.fst hentry).trans hshape.base
          rw [hnodes'.1, hlast]
          exact hzero
        | cons head heads' =>
          rw [List.cons_append, List.cons.injEq] at hnodes'
          rw [hnodes'.1]
          exact (hheads' head List.mem_cons_self).2
      rw [← hclosed, outputs, dfs_of_children hlevel hpop]
      simp only [emitted, List.append_assoc]

/-! ## All lines -/

/-- The open headings after some lines. -/
def viewOf (depth : Int) (lines : List (Nat × α)) : View α :=
  lines.foldl (viewStep depth) ([], [])

variable {lines : List (Nat × α)}

theorem tracks_openNodes (hdepth : 1 ≤ depth) (hlines : ∀ line ∈ lines, 1 ≤ line.1) :
    Tracks depth (openNodes depth lines) (viewOf depth lines) := by
  induction lines using List.reverseRecOn with
  | nil =>
    exact ⟨⟨[], root, ⟨rfl, rfl, by simp, rfl⟩, rfl, rfl⟩, by simp [viewOf]⟩
  | append_singleton lines line ih =>
    rw [openNodes, viewOf, List.foldl_append, List.foldl_append]
    exact tracks_step hdepth (ih fun l hmem => hlines l (List.mem_append_left _ hmem))
      (hlines line (by simp))

theorem getTreeLines_buildTree (hdepth : 1 ≤ depth) (hlines : ∀ line ∈ lines, 1 ≤ line.1) :
    getTreeLines depth (buildTree depth lines) = outputs depth (openNodes depth lines) := by
  obtain ⟨heads, base, hshape, -, -⟩ := (tracks_openNodes hdepth hlines).shape
  apply dfs_closeAll
  intro node hmem
  have hnode : node ∈ heads ++ [base] := hshape.nodes ▸ List.mem_cons_of_mem _ hmem
  rcases List.mem_append.mp hnode with hhead | hlast
  · exact (hshape.heads node hhead).2
  · rw [List.mem_singleton.mp hlast, hshape.base]
    omega

end Node

end Yuanlei.Chunking

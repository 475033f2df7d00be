import Yuanlei.Lib.PyText

/-!
# Pure POSIX paths

The lexical part of `pathlib.PurePosixPath` on texts: a path has a root, which is empty, one
slash or two, and the components between slashes without the empty ones and the dots.

Main results:

- `components_join`: components are read back from their join.
- `stripChars_slash_append`: stripping behind a slash.
-/

namespace PosixPath

open PyText (isSpace stripChars)

abbrev Text := List Char

/-! ## Components -/

/-- What a piece between slashes has to be to count as a component. -/
def counts (c : Text) : Bool :=
  !(c == [] || c == ['.'])

/-- The components of a text. -/
def components (s : Text) : List Text :=
  (s.splitOn '/').filter counts

/-- The texts that are components of some path. -/
def IsComponent (c : Text) : Prop :=
  '/' ∉ c ∧ c ≠ [] ∧ c ≠ ['.']

variable {c : Text}

theorem counts_iff : counts c ↔ c ≠ [] ∧ c ≠ ['.'] := by
  simp [counts]

@[simp]
theorem components_nil : components [] = [] := by
  decide

@[simp]
theorem components_append_slash (s t : Text) :
    components (s ++ '/' :: t) = components s ++ components t := by
  unfold components
  rw [List.splitOn_append_cons_self, List.filter_append]

@[simp]
theorem components_slash (t : Text) : components ('/' :: t) = components t := by
  simpa using components_append_slash [] t

theorem components_of_not_mem (h : '/' ∉ c) : components c = if counts c then [c] else [] := by
  unfold components
  rw [List.splitOn_eq_singleton h]
  split_ifs with hc <;> simp [hc]

theorem components_of_isComponent (h : IsComponent c) : components c = [c] := by
  rw [components_of_not_mem h.1, if_pos (counts_iff.mpr h.2)]

variable {s : Text}

/-- The pieces between the separators have no separator and only characters of the text. -/
theorem mem_splitOn (h : c ∈ s.splitOn '/') : '/' ∉ c ∧ ∀ x ∈ c, x ∈ s := by
  induction s generalizing c with
  | nil =>
    simp only [List.splitOn_nil, List.mem_singleton] at h
    simp [h]
  | cons a s ih =>
    rw [List.splitOn_cons_eq_if_modifyHead] at h
    split_ifs at h with ha
    · rcases List.mem_cons.mp h with rfl | hrest
      · simp
      · obtain ⟨hslash, hsub⟩ := ih hrest
        exact ⟨hslash, fun x hx => List.mem_cons_of_mem _ (hsub x hx)⟩
    · cases hsplit : s.splitOn '/' with
      | nil => exact absurd hsplit (List.splitOn_ne_nil _ _)
      | cons first rest =>
        rw [hsplit] at h ih
        simp only [List.modifyHead_cons, List.mem_cons] at h
        rcases h with rfl | hrest
        · obtain ⟨hslash, hsub⟩ := ih (List.mem_cons_self ..)
          have hne : a ≠ '/' := by simpa using ha
          refine ⟨by simp [hne.symm, hslash], ?_⟩
          intro x hx
          rcases List.mem_cons.mp hx with rfl | hx
          · exact List.mem_cons_self ..
          · exact List.mem_cons_of_mem _ (hsub x hx)
        · obtain ⟨hslash, hsub⟩ := ih (List.mem_cons_of_mem _ hrest)
          exact ⟨hslash, fun x hx => List.mem_cons_of_mem _ (hsub x hx)⟩

theorem isComponent_of_mem (h : c ∈ components s) : IsComponent c := by
  obtain ⟨hsplit, hc⟩ := List.mem_filter.mp h
  exact ⟨(mem_splitOn hsplit).1, counts_iff.mp hc⟩

variable {x : Char}

theorem mem_of_mem_components (h : c ∈ components s) (hx : x ∈ c) : x ∈ s :=
  (mem_splitOn (List.mem_filter.mp h).1).2 x hx

/-! ## Joining components -/

/-- `"/".join`. -/
def join (cs : List Text) : Text :=
  ['/'].intercalate cs

@[simp]
theorem join_nil : join [] = [] :=
  rfl

@[simp]
theorem join_singleton (c : Text) : join [c] = c := by
  simp [join]

variable {cs : List Text}

theorem join_cons (h : cs ≠ []) : join (c :: cs) = c ++ '/' :: join cs := by
  obtain ⟨d, ds, rfl⟩ := List.exists_cons_of_ne_nil h
  simp [join, List.intercalate]

theorem join_append {ds : List Text} (hcs : cs ≠ []) (hds : ds ≠ []) :
    join (cs ++ ds) = join cs ++ '/' :: join ds := by
  induction cs with
  | nil => exact absurd rfl hcs
  | cons c cs ih =>
    by_cases hcs' : cs = []
    · subst hcs'
      simpa using join_cons hds
    · rw [List.cons_append, join_cons (by simp [hcs']), ih hcs', join_cons hcs']
      simp

theorem components_join (h : ∀ c ∈ cs, IsComponent c) : components (join cs) = cs := by
  induction cs with
  | nil => rfl
  | cons c cs ih =>
    have hc := components_of_isComponent (h c (List.mem_cons_self ..))
    have hrest := ih fun d hd => h d (List.mem_cons_of_mem _ hd)
    by_cases hcs : cs = []
    · subst hcs
      simpa using hc
    · rw [join_cons hcs, components_append_slash, hc, hrest]
      rfl

theorem join_ne_nil (hne : cs ≠ []) (h : ∀ c ∈ cs, IsComponent c) : join cs ≠ [] := by
  intro hnil
  have hread := components_join h
  rw [hnil, components_nil] at hread
  exact hne hread.symm

theorem exists_join_eq_cons (hne : cs ≠ []) (h : ∀ c ∈ cs, IsComponent c) :
    ∃ a v, a ≠ '/' ∧ join cs = a :: v := by
  obtain ⟨c, ds, rfl⟩ := List.exists_cons_of_ne_nil hne
  obtain ⟨hslash, hc, -⟩ := h c (List.mem_cons_self ..)
  obtain ⟨a, u, rfl⟩ := List.exists_cons_of_ne_nil hc
  have ha : a ≠ '/' := by
    rintro rfl
    exact hslash (List.mem_cons_self ..)
  by_cases hds : ds = []
  · exact ⟨a, u, ha, by rw [hds, join_singleton]⟩
  · exact ⟨a, u ++ '/' :: join ds, ha, by rw [join_cons hds]; rfl⟩

theorem mem_join (h : x ∈ join cs) : x = '/' ∨ ∃ c ∈ cs, x ∈ c := by
  induction cs with
  | nil => cases h
  | cons c cs ih =>
    by_cases hcs : cs = []
    · subst hcs
      rw [join_singleton] at h
      exact .inr ⟨c, by simp, h⟩
    · rw [join_cons hcs] at h
      rcases List.mem_append.mp h with hc | hrest
      · exact .inr ⟨c, by simp, hc⟩
      · rcases List.mem_cons.mp hrest with rfl | hrest
        · exact .inl rfl
        · rcases ih hrest with hslash | ⟨d, hd, hx⟩
          · exact .inl hslash
          · exact .inr ⟨d, by simp [hd], hx⟩

theorem exists_mem_components (hx : x ∈ s) (hslash : x ≠ '/')
    (hdot : x ≠ '.') : ∃ c ∈ components s, x ∈ c := by
  have hpiece : ∃ c ∈ s.splitOn '/', x ∈ c := by
    by_contra hnone
    push Not at hnone
    have hjoin : x ∈ join (s.splitOn '/') := by
      rw [join, List.intercalate_splitOn]
      exact hx
    rcases mem_join hjoin with hsep | ⟨c, hc, hxc⟩
    · exact hslash hsep
    · exact hnone c hc hxc
  obtain ⟨c, hc, hxc⟩ := hpiece
  refine ⟨c, List.mem_filter.mpr ⟨hc, counts_iff.mpr ⟨List.ne_nil_of_mem hxc, ?_⟩⟩, hxc⟩
  rintro rfl
  exact hdot (List.mem_singleton.mp hxc)

/-- Components keep every character but slashes and dots, as often as it occurs. -/
theorem countP_flatten_components (p : Char → Bool) (hslash : p '/' = false) (hdot : p '.' = false)
    (s : Text) : (components s).flatten.countP p = s.countP p := by
  have hpieces : (s.splitOn '/').flatten.countP p = s.countP p := by
    induction s with
    | nil => simp
    | cons a s ih =>
      rw [List.splitOn_cons_eq_if_modifyHead, List.countP_cons, ← ih]
      split_ifs with ha hp hp
      · rw [beq_iff_eq] at ha
        rw [ha, hslash] at hp
        cases hp
      · simp
      all_goals cases hsplit : s.splitOn '/' with
        | nil => exact absurd hsplit (List.splitOn_ne_nil _ _)
        | cons first rest => simp [hp]; try omega
  rw [← hpieces]
  unfold components
  induction s.splitOn '/' with
  | nil => rfl
  | cons c cs ih =>
    rw [List.filter_cons]
    split_ifs with hc
    · simp only [List.flatten_cons, List.countP_append, ih]
    · have hzero : c.countP p = 0 := by
        have hcases : c = [] ∨ c = ['.'] := by
          rw [counts_iff] at hc
          tauto
        rcases hcases with rfl | rfl
        · rfl
        · simp [hdot]
      simp only [List.flatten_cons, List.countP_append, ih, hzero, Nat.zero_add]

/-! ## Pieces -/

theorem splitOn_slash (t : Text) : ('/' :: t).splitOn '/' = [] :: t.splitOn '/' := by
  have happend := List.splitOn_append_cons_self ([] : Text) t (a := '/')
  rwa [List.splitOn_nil] at happend

theorem splitOn_slash_join (hne : cs ≠ []) (h : ∀ c ∈ cs, IsComponent c) :
    ('/' :: join cs).splitOn '/' = [] :: cs := by
  rw [splitOn_slash, join, List.splitOn_intercalate '/' (fun c hc => (h c hc).1) hne]

theorem exists_splitOn_concat (s : Text) (hx : x ≠ '/') :
    ∃ pieces c, (s ++ [x]).splitOn '/' = pieces ++ [c ++ [x]] := by
  induction s with
  | nil => exact ⟨[], [], List.splitOn_eq_singleton (by simpa using hx.symm)⟩
  | cons a s ih =>
    obtain ⟨pieces, c, hsplit⟩ := ih
    rw [List.cons_append, List.splitOn_cons_eq_if_modifyHead, hsplit]
    split_ifs
    · exact ⟨[] :: pieces, c, rfl⟩
    · cases pieces with
      | nil => exact ⟨[], a :: c, rfl⟩
      | cons p pieces => exact ⟨(a :: p) :: pieces, c, rfl⟩

theorem splitOn_of_scheme (h : "://".toList <:+: s) :
    ∃ pieces c rest, s.splitOn '/' = pieces ++ [c ++ [':']] ++ [] :: rest := by
  obtain ⟨front, back, rfl⟩ := h
  obtain ⟨pieces, c, hsplit⟩ := exists_splitOn_concat front (x := ':') (by decide)
  refine ⟨pieces, c, back.splitOn '/', ?_⟩
  have htext : front ++ "://".toList ++ back = (front ++ [':']) ++ '/' :: ('/' :: back) := by
    simp
  rw [htext, List.splitOn_append_cons_self, splitOn_slash, hsplit]

theorem no_scheme_slash_join (h : ∀ c ∈ cs, IsComponent c) :
    ¬ "://".toList <:+: '/' :: join cs := by
  intro hscheme
  obtain ⟨pieces, c, rest, hsplit⟩ := splitOn_of_scheme hscheme
  by_cases hne : cs = []
  · subst hne
    rw [join_nil, splitOn_slash, List.splitOn_nil] at hsplit
    cases pieces with
    | nil => simp at hsplit
    | cons p pieces =>
      have hlength := congrArg List.length hsplit
      simp only [List.length_cons, List.length_append, List.length_nil] at hlength
      omega
  · rw [splitOn_slash_join hne h] at hsplit
    have hempty : [] ∈ cs := by
      cases pieces with
      | nil => simp at hsplit
      | cons p pieces =>
        simp only [List.cons_append, List.cons.injEq] at hsplit
        rw [hsplit.2]
        simp
    exact (h [] hempty).2.1 rfl

/-! ## Roots and normal forms -/

/-- The root of a path: exactly two slashes at the front are kept. -/
def rootOf : Text → Text
  | '/' :: '/' :: '/' :: _ => ['/']
  | '/' :: '/' :: _ => ['/', '/']
  | '/' :: _ => ['/']
  | _ => []

def isAbsolute (s : Text) : Bool :=
  rootOf s != []

def asPosix (s : Text) : Text :=
  if rootOf s = [] ∧ components s = [] then ['.'] else rootOf s ++ join (components s)

theorem isAbsolute_iff : isAbsolute s ↔ ∃ t, s = '/' :: t := by
  unfold isAbsolute rootOf
  split <;> simp_all

theorem rootOf_single {c : Char} (hc : c ≠ '/') (t : Text) : rootOf ('/' :: c :: t) = ['/'] := by
  unfold rootOf
  split <;> simp_all

theorem rootOf_cases (h : isAbsolute s) : rootOf s = ['/'] ∨ rootOf s = ['/', '/'] := by
  obtain ⟨t, rfl⟩ := isAbsolute_iff.mp h
  unfold rootOf
  split <;> simp_all

theorem asPosix_of_absolute (h : isAbsolute s) : asPosix s = rootOf s ++ join (components s) := by
  have hroot : rootOf s ≠ [] := by simpa [isAbsolute] using h
  simp [asPosix, hroot]

theorem components_asPosix (h : isAbsolute s) : components (asPosix s) = components s := by
  have hread := components_join fun c hc => isComponent_of_mem (s := s) hc
  rw [asPosix_of_absolute h]
  rcases rootOf_cases h with hroot | hroot
  · simp [hroot, hread]
  · simp [hroot, hread]

theorem rootOf_append (h : ∃ c ∈ s, c ≠ '/') (t : Text) : rootOf (s ++ t) = rootOf s := by
  obtain ⟨c, hc, hslash⟩ := h
  match s, hc with
  | [a], hc =>
    have ha : a ≠ '/' := by
      rw [← List.mem_singleton.mp hc]
      exact hslash
    simp [rootOf, ha]
  | [a, b], hc =>
    by_cases ha : a = '/'
    · have hb : b ≠ '/' := by
        rcases List.mem_cons.mp hc with rfl | hc
        · exact absurd ha hslash
        · rw [← List.mem_singleton.mp hc]
          exact hslash
      simp [rootOf, ha, hb]
    · simp [rootOf, ha]
  | a :: b :: d :: rest, hc =>
    by_cases ha : a = '/'
    · by_cases hb : b = '/'
      · by_cases hd : d = '/'
        · simp [rootOf, ha, hb, hd]
        · simp [rootOf, ha, hb, hd]
      · simp [rootOf, ha, hb]
    · simp [rootOf, ha]

/-- The texts that are the root of an absolute path. -/
def IsRoot (r : Text) : Prop :=
  r = ['/'] ∨ r = ['/', '/']

variable {r : Text}

theorem rootOf_append_join (hr : IsRoot r) (hne : cs ≠ [])
    (h : ∀ c ∈ cs, IsComponent c) : rootOf (r ++ join cs) = r := by
  obtain ⟨a, v, ha, hv⟩ := exists_join_eq_cons hne h
  rw [hv]
  rcases hr with rfl | rfl
  · simp [rootOf, ha]
  · simp [rootOf, ha]

theorem asPosix_append_join (hr : IsRoot r) (hne : cs ≠ [])
    (h : ∀ c ∈ cs, IsComponent c) : asPosix (r ++ join cs) = r ++ join cs := by
  have hroot := rootOf_append_join hr hne h
  have hcomponents : components (r ++ join cs) = cs := by
    have hread := components_join h
    rcases hr with rfl | rfl
    · simpa using hread
    · simpa using hread
  unfold asPosix
  rw [hroot, hcomponents]
  simp [hne]

variable {t : Text}

/-- A normal form that starts with a slash has components behind a root, or is a root. -/
theorem isAbsolute_of_asPosix (h : asPosix s = '/' :: t) : isAbsolute s := by
  by_contra hrelative
  have hroot : rootOf s = [] := by simpa [isAbsolute] using hrelative
  unfold asPosix at h
  rw [hroot] at h
  split_ifs at h with hnone
  · cases h
  · have hne : components s ≠ [] := fun hnil => hnone ⟨rfl, hnil⟩
    obtain ⟨a, v, ha, hv⟩ := exists_join_eq_cons hne fun c hc => isComponent_of_mem hc
    rw [hv, List.nil_append, List.cons.injEq] at h
    exact ha h.1

/-- What stands before a slash of a normal form is in normal form, unless it ends in a slash. -/
theorem asPosix_eq_self_of_append {v z : Text} (habsolute : isAbsolute v)
    (hend : ∃ t c, v = t ++ [c] ∧ c ≠ '/') (h : asPosix s = v ++ '/' :: z) : asPosix v = v := by
  obtain ⟨u, rfl⟩ := isAbsolute_iff.mp habsolute
  have hs : isAbsolute s := isAbsolute_of_asPosix h
  have hcomponents : ∀ c ∈ components s, IsComponent c := fun c hc => isComponent_of_mem hc
  have hne : u ≠ [] := by
    rintro rfl
    obtain ⟨t, c, heq, hc⟩ := hend
    have hlast := congrArg List.getLast? heq
    rw [List.getLast?_concat] at hlast
    exact hc (by simpa using hlast.symm)
  rw [asPosix_of_absolute hs] at h
  have hparts : components s ≠ [] := by
    intro hnil
    have hlength := congrArg List.length h
    have hpositive : 0 < u.length := List.length_pos_of_ne_nil hne
    rw [hnil] at hlength
    rcases rootOf_cases hs with hroot | hroot
    · simp [hroot] at hlength
    · simp [hroot] at hlength
      omega
  have hpieces := congrArg (List.splitOn '/') h
  rw [List.cons_append, splitOn_slash, List.splitOn_append_cons_self] at hpieces
  have hjoin : join (u.splitOn '/') = u := List.intercalate_splitOn '/'
  rcases rootOf_cases hs with hroot | hroot
  · rw [hroot, List.singleton_append, splitOn_slash_join hparts hcomponents,
      List.cons.injEq] at hpieces
    rw [← hjoin]
    refine asPosix_append_join (.inl rfl) (List.splitOn_ne_nil _ _) ?_
    intro c hc
    apply hcomponents
    rw [hpieces.2]
    exact List.mem_append_left _ hc
  · have htext : ['/', '/'] ++ join (components s) = '/' :: ('/' :: join (components s)) := rfl
    rw [hroot, htext, splitOn_slash, splitOn_slash_join hparts hcomponents,
      List.cons.injEq] at hpieces
    cases hsplit : u.splitOn '/' with
    | nil => exact absurd hsplit (List.splitOn_ne_nil _ _)
    | cons p ps =>
      rw [hsplit, List.cons_append, List.cons.injEq] at hpieces
      obtain ⟨-, rfl, hps⟩ := hpieces
      have hps' : ps ≠ [] := by
        rintro rfl
        rw [hsplit, join_singleton] at hjoin
        exact hne hjoin.symm
      rw [hsplit, join_cons hps', List.nil_append] at hjoin
      rw [← hjoin]
      refine asPosix_append_join (.inr rfl) hps' ?_
      intro c hc
      apply hcomponents
      rw [hps]
      exact List.mem_append_left _ hc

/-! ## Stripping paths -/

def rstrip (s : Text) : Text :=
  s.rdropWhile isSpace

/-- The text ends in white space. -/
def EndsInSpace (s : Text) : Prop :=
  rstrip s ≠ s

instance (s : Text) : Decidable (EndsInSpace s) :=
  inferInstanceAs (Decidable (rstrip s ≠ s))

theorem rstrip_append_of_ne_nil (s : Text) (h : rstrip t ≠ []) :
    rstrip (s ++ t) = s ++ rstrip t := by
  unfold rstrip List.rdropWhile at *
  rw [List.reverse_append, List.dropWhile_append]
  have hne : (t.reverse.dropWhile isSpace).isEmpty = false := by
    simpa [List.isEmpty_iff] using h
  simp [hne]

/-- Stripping keeps everything but white space. -/
theorem mem_rstrip (hx : x ∈ s) (hspace : isSpace x = false) : x ∈ rstrip s := by
  rw [← List.rdropWhile_append_rtakeWhile (p := isSpace) (l := s), List.mem_append] at hx
  rcases hx with hkept | hdropped
  · exact hkept
  · rw [List.mem_rtakeWhile_imp hdropped] at hspace
    cases hspace

theorem rstrip_append_slash (s t : Text) : rstrip (s ++ '/' :: t) = s ++ '/' :: rstrip t := by
  have hslash : ∀ u : Text, rstrip ('/' :: u) = '/' :: rstrip u := by
    intro u
    unfold rstrip List.rdropWhile
    rw [List.reverse_cons, List.dropWhile_append]
    by_cases hempty : u.reverse.dropWhile isSpace = []
    · simp [hempty, isSpace]
    · have hne : (u.reverse.dropWhile isSpace).isEmpty = false := by
        simpa [List.isEmpty_iff] using hempty
      simp [hne]
  rw [rstrip_append_of_ne_nil s (by simp [hslash]), hslash]

theorem join_getLast (hne : cs ≠ []) :
    join cs = cs.getLast hne ∨ ∃ front, join cs = front ++ '/' :: cs.getLast hne := by
  have hsplit := List.dropLast_append_getLast hne
  by_cases hinit : cs.dropLast = []
  · left
    rw [hinit, List.nil_append] at hsplit
    conv_lhs => rw [← hsplit, join_singleton]
  · right
    refine ⟨join cs.dropLast, ?_⟩
    conv_lhs => rw [← hsplit, join_append hinit (by simp), join_singleton]

/-- Only the last component is stripped. -/
theorem rstrip_join (hne : cs ≠ []) (hclean : ¬ EndsInSpace (cs.getLast hne)) :
    rstrip (join cs) = join cs := by
  have hlast : rstrip (cs.getLast hne) = cs.getLast hne := not_not.mp hclean
  rcases join_getLast hne with heq | ⟨front, heq⟩
  · rw [heq, hlast]
  · rw [heq, rstrip_append_slash, hlast]

/-- An absolute path is stripped at its end only. -/
theorem stripChars_slash (t : Text) : stripChars ('/' :: t) = '/' :: rstrip t := by
  have hkeep : ('/' :: t).dropWhile isSpace = '/' :: t := by
    simp [isSpace]
  have hrstrip := rstrip_append_slash [] t
  unfold stripChars
  exact hrstrip

theorem stripChars_slash_append (s t : Text) :
    stripChars ('/' :: (s ++ '/' :: t)) = '/' :: (s ++ '/' :: rstrip t) := by
  rw [stripChars_slash, rstrip_append_slash]

end PosixPath

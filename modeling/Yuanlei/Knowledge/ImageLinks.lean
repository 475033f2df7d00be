import Yuanlei.Lib.Percent
import Yuanlei.Lib.PosixPath
import Yuanlei.Lib.PySplit
import Mathlib.Data.List.Nodup
import Mathlib.Data.Nat.Digits.Defs

/-!
# Image links of an unpacked archive

A parser delivers a ZIP archive with a Markdown text and its images.  The images are uploaded, and
the image links of the text are rewritten to their URLs.  The rewriter registers three keys for each
image and takes the first key that the path of a link ends with.

Main results:

- `mem_processImages`: what the uploaded images look like.
- `replaceImageLinks_own_iff`: when every link is rewritten to its own image.
-/

namespace Yuanlei.ImageLinks

open PosixPath (components)

abbrev Text := List Char

/-! ## URLs of stored images -/

/-- The characters that `quote` keeps with the slash as a safe character. -/
def urlSafe (c : Char) : Bool :=
  c.isAlphanum || c == '_' || c == '.' || c == '-' || c == '~' || c == '/'

/-- `build_kb_image_proxy_url`; `none` stands for the `ValueError`. -/
def buildKbImageProxyUrl (objectName : Text) : Option Text :=
  match PyText.partition ['/'] objectName with
  | none => none
  | some (kbId, relativePath) =>
    if kbId ≠ [] ∧ "kb-images/".toList <+: relativePath then
      some ("/api/knowledge/databases/".toList ++
        (kbId ++ ("/images/".toList ++ Percent.quote urlSafe relativePath)))
    else none

/-! ## Uploading the images -/

structure ImageInfo where
  name : Text
  url : Text
  path : Text
deriving DecidableEq

/-- A file of the archive.  The time is that of the upload in microseconds; there is none when
reading or uploading the file raises. -/
structure ZipEntry where
  name : Text
  uploadedAt : Option Nat
deriving DecidableEq

def defaultImagePrefix : Text :=
  "unknown/kb-images".toList

def normalizeObjectPrefix (imagePrefix : Text) : Text :=
  let base := if imagePrefix = [] then defaultImagePrefix else imagePrefix
  let normalized := (base.dropWhile (· == '/')).rdropWhile (· == '/')
  if normalized = [] then defaultImagePrefix else normalized

def supportedExtensions : List Text :=
  [".jpg", ".jpeg", ".png", ".gif", ".webp", ".bmp"].map String.toList

/-- `Path.name`: the last component. -/
def pathName (path : Text) : Text :=
  (components path).getLastD []

/-- `Path.suffix` of a file name: from the last dot on, unless it is the first or the last
character. -/
def suffixOf (name : Text) : Text :=
  let after := name.rtakeWhile (· != '.')
  if after = [] ∨ name.length ≤ after.length + 1 then [] else '.' :: after

/-- `str.lower` is that of ASCII here: no other character has a lower case in the supported
extensions. -/
def isSupported (name : Text) : Bool :=
  supportedExtensions.contains ((suffixOf name).map Char.toLower)

def imageObject (normalizedPrefix name : Text) (timestamp : Nat) : Text :=
  normalizedPrefix ++ '/' :: (Nat.toDigits 10 timestamp ++ '_' :: name)

/-- The image of one entry; an exception of the upload or of the URL skips it. -/
def processImage (normalizedPrefix : Text) (entry : ZipEntry) : Option ImageInfo := do
  let name := pathName entry.name
  if isSupported name then
    let timestamp ← entry.uploadedAt
    let url ← buildKbImageProxyUrl (imageObject normalizedPrefix name timestamp)
    some { name := name, url := url, path := "images/".toList ++ name }
  else none

def processImages (imagesDir imagePrefix : Text) (entries : List ZipEntry) : List ImageInfo :=
  (entries.filter fun entry => (imagesDir ++ ['/']).isPrefixOf entry.name).filterMap
    (processImage (normalizeObjectPrefix imagePrefix))

/-! ## The links of a text -/

/-- A piece of a text for the pattern of image links. -/
inductive Piece where
  | text (c : Char)
  | link (alt path : Text)
deriving DecidableEq

def linkText (alt path : Text) : Text :=
  '!' :: '[' :: (alt ++ ']' :: '(' :: (path ++ [')']))

/-- The pattern at the start of a text: neither repetition can be matched in two ways, since what
follows it is what it excludes. -/
def matchLink : Text → Option (Text × Text)
  | '!' :: '[' :: rest =>
    match rest.dropWhile (· != ']') with
    | ']' :: '(' :: rest' =>
      let path := rest'.takeWhile (· != ')')
      if path ≠ [] ∧ rest'.dropWhile (· != ')') ≠ [] then
        some (rest.takeWhile (· != ']'), path)
      else none
    | _ => none
  | _ => none

/-- The pieces after `skip` characters that belong to the last match. -/
def piecesFrom : Nat → Text → List Piece
  | _, [] => []
  | skip + 1, _ :: cs => piecesFrom skip cs
  | 0, c :: cs =>
    match matchLink (c :: cs) with
    | some (alt, path) => .link alt path :: piecesFrom (alt.length + path.length + 4) cs
    | none => .text c :: piecesFrom 0 cs

/-- The matches of `re.sub` and the characters between them. -/
def pieces (t : Text) : List Piece :=
  piecesFrom 0 t

namespace Piece

def render : Piece → Text
  | text c => [c]
  | link alt path => linkText alt path

/-- The piece with another target of its link. -/
def withTarget (f : Text → Text) : Piece → Piece
  | text c => text c
  | link alt path => link alt (f path)

end Piece

def render (ps : List Piece) : Text :=
  ps.flatMap Piece.render

/-! ## Rewriting -/

/-- Assigning a key of a `dict` that keeps the order of its keys. -/
def assign (m : List (Text × Text)) (key value : Text) : List (Text × Text) :=
  if key ∈ m.map Prod.fst then m.map fun e => if e.1 = key then (key, value) else e
  else m ++ [(key, value)]

def registerImage (m : List (Text × Text)) (img : ImageInfo) : List (Text × Text) :=
  assign (assign (assign m img.path img.url) ('/' :: img.path) img.url) img.name img.url

def imageMap (images : List ImageInfo) : List (Text × Text) :=
  images.foldl registerImage []

def basename (path : Text) : Text :=
  path.rtakeWhile (· != '/')

/-- The path of a rewritten link. -/
def linkTarget (m : List (Text × Text)) (imgPath : Text) : Text :=
  match m.find? fun e => e.1.isSuffixOf imgPath || imgPath == e.1 with
  | some e => e.2
  | none =>
    match m.find? fun e => e.1 == basename imgPath with
    | some e => e.2
    | none => imgPath

/-- `replace_link` on a match, and every other character as it is. -/
def replaceLink (m : List (Text × Text)) : Piece → Text
  | .text c => [c]
  | .link alt path => linkText alt (linkTarget m path)

def replaceImageLinks (markdownContent : Text) (images : List ImageInfo) : Text :=
  if images = [] then markdownContent
  else (pieces markdownContent).flatMap (replaceLink (imageMap images))

/-! ## Cutting a text at its links -/

theorem takeWhile_append_dropWhile_ne (c : Char) (t : Text) :
    (∃ rest, t.dropWhile (· != c) = c :: rest ∧ t = t.takeWhile (· != c) ++ c :: rest) ∨
      t.dropWhile (· != c) = [] := by
  induction t with
  | nil => exact Or.inr rfl
  | cons d t ih =>
    by_cases hd : d = c
    · left
      exact ⟨t, by simp [hd], by simp [hd]⟩
    · have hdrop : (d :: t).dropWhile (· != c) = t.dropWhile (· != c) := by
        simp [hd]
      have htake : (d :: t).takeWhile (· != c) = d :: t.takeWhile (· != c) := by
        simp [hd]
      rw [hdrop, htake]
      rcases ih with ⟨rest, hrest, heq⟩ | hnil
      · left
        refine ⟨rest, hrest, ?_⟩
        rw [List.cons_append, ← heq]
      · exact Or.inr hnil

variable {t : Text}

theorem matchLink_spec {alt path : Text} (h : matchLink t = some (alt, path)) :
    ∃ rest, t = linkText alt path ++ rest := by
  unfold matchLink at h
  split at h
  case h_2 => exact absurd h (by simp)
  case h_1 rest =>
    split at h
    case h_2 => exact absurd h (by simp)
    case h_1 rest' hrest =>
      simp only at h
      split_ifs at h with hpath
      obtain ⟨rfl, rfl⟩ := Prod.mk.inj (Option.some.inj h)
      rcases takeWhile_append_dropWhile_ne ']' rest with ⟨more, hmore, heq⟩ | hnil
      · obtain rfl : more = '(' :: rest' := by
          rw [hrest] at hmore
          exact (List.cons.inj hmore).2.symm
        rcases takeWhile_append_dropWhile_ne ')' rest' with ⟨last, -, hlast⟩ | hnil
        · refine ⟨last, ?_⟩
          conv_lhs => rw [heq, hlast]
          simp [linkText]
        · exact absurd hnil hpath.2
      · rw [hrest] at hnil
        exact absurd hnil (by simp)

theorem piecesFrom_eq_drop (n : Nat) (t : Text) : piecesFrom n t = pieces (t.drop n) := by
  induction t generalizing n with
  | nil => cases n <;> simp [piecesFrom, pieces]
  | cons c cs ih =>
    cases n with
    | zero => rfl
    | succ n => rw [piecesFrom, ih n, List.drop_succ_cons]

/-- Cutting a text at its links loses nothing. -/
theorem render_pieces (t : Text) : render (pieces t) = t := by
  induction hn : t.length using Nat.strong_induction_on generalizing t with
  | h n ih =>
    cases t with
    | nil => rfl
    | cons c cs =>
      unfold pieces piecesFrom
      split
      case h_1 alt path hmatch =>
        obtain ⟨rest, hrest⟩ := matchLink_spec hmatch
        have hlen : (linkText alt path).length = alt.length + path.length + 4 + 1 := by
          simp [linkText]
          omega
        have hdrop : cs.drop (alt.length + path.length + 4) = rest := by
          rw [← List.drop_succ_cons (a := c), hrest, ← hlen, List.drop_left]
        have hshorter : rest.length < n := by
          rw [← hn, hrest, List.length_append, hlen]
          omega
        rw [piecesFrom_eq_drop, hdrop, hrest]
        exact congrArg _ (ih rest.length hshorter rest rfl)
      case h_2 =>
        have hshorter : cs.length < n := by
          rw [← hn, List.length_cons]
          omega
        exact congrArg _ (ih cs.length hshorter cs rfl)

/-! ## The uploaded images -/

/-- What `process_images` says of an image. -/
structure Uploaded (img : ImageInfo) : Prop where
  path_eq : img.path = "images/".toList ++ img.name
  no_slash : '/' ∉ img.name
  url_eq : ∃ front timestamp, buildKbImageProxyUrl (imageObject front img.name timestamp) =
    some img.url

variable {img : ImageInfo}

theorem mem_processImages {imagesDir imagePrefix : Text} {entries : List ZipEntry}
    (h : img ∈ processImages imagesDir imagePrefix entries) : Uploaded img := by
  obtain ⟨entry, -, hentry⟩ := List.mem_filterMap.mp h
  unfold processImage at hentry
  simp only at hentry
  split_ifs at hentry with hsupported
  obtain ⟨timestamp, -, hentry⟩ := Option.bind_eq_some_iff.mp hentry
  obtain ⟨url, hurl, hentry⟩ := Option.bind_eq_some_iff.mp hentry
  obtain rfl := Option.some.inj hentry
  have hne : pathName entry.name ≠ [] := by
    intro hnil
    rw [hnil] at hsupported
    exact absurd hsupported (by decide)
  have hmem : pathName entry.name ∈ components entry.name := by
    have hcomponents : components entry.name ≠ [] := by
      intro hnil
      exact hne (by simp [pathName, hnil])
    rw [pathName, List.getLastD_eq_getLast?, List.getLast?_eq_some_getLast hcomponents]
    exact List.getLast_mem hcomponents
  exact
    { path_eq := rfl
      no_slash := (PosixPath.isComponent_of_mem hmem).1
      url_eq := ⟨_, timestamp, hurl⟩ }

/-- The text before and after the first slash determine the text. -/
theorem eq_of_partition {x y : Text} (h : PyText.partition ['/'] t = some (x, y)) :
    t = x ++ '/' :: y ∧ '/' ∉ x := by
  obtain ⟨heq, hfirst⟩ := (PyText.partition_eq_some_iff (by simp)).mp h
  refine ⟨heq, fun hmem => ?_⟩
  obtain ⟨i, hi, hget⟩ := List.getElem_of_mem hmem
  refine hfirst i hi ?_
  rw [heq, List.drop_append_of_le_length (Nat.le_of_lt hi), List.drop_eq_getElem_cons hi, hget]
  exact ⟨_, rfl⟩

theorem buildKbImageProxyUrl_injective {s url : Text} (hs : buildKbImageProxyUrl s = some url)
    (ht : buildKbImageProxyUrl t = some url) : s = t := by
  have hread : ∀ {u : Text}, buildKbImageProxyUrl u = some url → ∃ kbId relativePath,
      u = kbId ++ '/' :: relativePath ∧ PyText.partition ['/'] (kbId ++
        ("/images/".toList ++ Percent.quote urlSafe relativePath)) =
          some (kbId, "images/".toList ++ Percent.quote urlSafe relativePath) ∧
      url = "/api/knowledge/databases/".toList ++
        (kbId ++ ("/images/".toList ++ Percent.quote urlSafe relativePath)) := by
    intro u hu
    unfold buildKbImageProxyUrl at hu
    split at hu
    · exact absurd hu (by simp)
    case h_2 kbId relativePath hpart =>
      split_ifs at hu
      obtain ⟨heq, hslash⟩ := eq_of_partition hpart
      exact ⟨kbId, relativePath, heq, PyText.partition_singleton _ _ hslash,
        (Option.some.inj hu).symm⟩
  obtain ⟨kbId, relativePath, rfl, hpart, hurl⟩ := hread hs
  obtain ⟨kbId', relativePath', rfl, hpart', hurl'⟩ := hread ht
  have hsame := List.append_cancel_left (hurl.symm.trans hurl')
  rw [hsame, hpart'] at hpart
  obtain ⟨rfl, hquote⟩ := Prod.mk.inj (Option.some.inj hpart)
  have hrelative := Percent.quote_injective (by decide) (List.append_cancel_left hquote)
  rw [hrelative]

variable {name : Text}

/-- The base name of a file behind a directory. -/
theorem basename_append_cons (dir : Text) (h : '/' ∉ name) :
    basename (dir ++ '/' :: name) = name := by
  have hall : ∀ c ∈ name.reverse, (c != '/') = true := by
    intro c hc
    exact bne_iff_ne.mpr fun heq => h (heq ▸ List.mem_reverse.mp hc)
  have hreverse : (dir ++ '/' :: name).reverse = name.reverse ++ '/' :: dir.reverse := by
    simp
  rw [basename, List.rtakeWhile, hreverse, List.takeWhile_append_of_pos hall]
  simp

theorem basename_of_not_mem (h : '/' ∉ name) : basename name = name := by
  refine List.rtakeWhile_eq_self_iff.mpr fun c hc => ?_
  exact bne_iff_ne.mpr fun heq => h (heq ▸ hc)

theorem not_mem_toDigits {c : Char} (hc : c.isDigit = false) (n : Nat) :
    c ∉ Nat.toDigits 10 n := by
  intro hmem
  have hdigit : c.isDigit = true := Nat.isDigit_of_mem_toDigits (by decide) (by decide) hmem
  rw [hc] at hdigit
  exact absurd hdigit (by decide)

variable {i j : ImageInfo}

theorem name_eq_of_url_eq (hi : Uploaded i) (hj : Uploaded j)
    (hurl : i.url = j.url) : i.name = j.name := by
  obtain ⟨front, timestamp, hfirst⟩ := hi.url_eq
  obtain ⟨front', timestamp', hsecond⟩ := hj.url_eq
  rw [hurl] at hfirst
  have hobject := buildKbImageProxyUrl_injective hfirst hsecond
  have hfile : ∀ {img : ImageInfo} (n : Nat), '/' ∉ img.name →
      '/' ∉ Nat.toDigits 10 n ++ '_' :: img.name := by
    intro img n hslash hmem
    rcases List.mem_append.mp hmem with hdigit | hname
    · exact not_mem_toDigits (by decide) n hdigit
    · rcases List.mem_cons.mp hname with heq | hname
      · exact absurd heq (by decide)
      · exact hslash hname
  have hbase := congrArg basename hobject
  rw [imageObject, imageObject, basename_append_cons _ (hfile _ hi.no_slash),
    basename_append_cons _ (hfile _ hj.no_slash)] at hbase
  have hpart := PyText.partition_singleton (Nat.toDigits 10 timestamp) i.name
    (not_mem_toDigits (c := '_') (by decide) timestamp)
  rw [hbase, PyText.partition_singleton _ _ (not_mem_toDigits (by decide) timestamp')] at hpart
  exact (Prod.mk.inj (Option.some.inj hpart)).2.symm

/-! ## The keys of the images -/

variable {m : List (Text × Text)}

theorem assign_of_not_mem {key : Text} (h : key ∉ m.map Prod.fst)
    (value : Text) : assign m key value = m ++ [(key, value)] := by
  rw [assign, if_neg h]

/-- The entries of one image. -/
def imageEntries (img : ImageInfo) : List (Text × Text) :=
  [(img.path, img.url), ('/' :: img.path, img.url), (img.name, img.url)]

variable {e : Text × Text}

theorem basename_of_mem_imageEntries (himg : Uploaded img) (he : e ∈ imageEntries img) : basename e.1 = img.name := by
  have hpath : img.path = "images".toList ++ '/' :: img.name := by
    rw [himg.path_eq]
    rfl
  simp only [imageEntries, List.mem_cons, List.not_mem_nil, or_false] at he
  rcases he with rfl | rfl | rfl
  · rw [hpath, basename_append_cons _ himg.no_slash]
  · rw [hpath, ← List.cons_append, basename_append_cons _ himg.no_slash]
  · exact basename_of_not_mem himg.no_slash

theorem registerImage_eq (himg : Uploaded img)
    (hnew : ∀ e ∈ m, basename e.1 ≠ img.name) : registerImage m img = m ++ imageEntries img := by
  have hfresh : ∀ e ∈ imageEntries img, e.1 ∉ m.map Prod.fst := by
    intro e he hmem
    obtain ⟨e', he', heq⟩ := List.mem_map.mp hmem
    refine hnew e' he' ?_
    rw [heq, basename_of_mem_imageEntries himg he]
  have hpath : img.path.length = 7 + img.name.length := by
    rw [himg.path_eq, List.length_append]
    rfl
  have hpathNew : img.path ∉ m.map Prod.fst :=
    hfresh (img.path, img.url) (by simp [imageEntries])
  have hslashNew : '/' :: img.path ∉ m.map Prod.fst :=
    hfresh ('/' :: img.path, img.url) (by simp [imageEntries])
  have hnameNew : img.name ∉ m.map Prod.fst :=
    hfresh (img.name, img.url) (by simp [imageEntries])
  have hne₁ : '/' :: img.path ≠ img.path := fun h => by
    simpa using congrArg List.length h
  have hne₂ : img.name ≠ img.path := fun h => by
    have := congrArg List.length h
    omega
  have hne₃ : img.name ≠ '/' :: img.path := fun h => by
    have := congrArg List.length h
    rw [List.length_cons] at this
    omega
  have hsecond : '/' :: img.path ∉ (m ++ [(img.path, img.url)]).map Prod.fst := by
    simp only [List.map_append, List.map_cons, List.map_nil, List.mem_append, List.mem_singleton,
      not_or]
    exact ⟨hslashNew, hne₁⟩
  have hthird : img.name ∉
      (m ++ [(img.path, img.url)] ++ [('/' :: img.path, img.url)]).map Prod.fst := by
    simp only [List.map_append, List.map_cons, List.map_nil, List.mem_append, List.mem_singleton,
      not_or]
    exact ⟨⟨hnameNew, hne₂⟩, hne₃⟩
  rw [registerImage, assign_of_not_mem hpathNew, assign_of_not_mem hsecond,
    assign_of_not_mem hthird]
  simp [imageEntries]

variable {images : List ImageInfo}

theorem imageMap_eq (hall : ∀ img ∈ images, Uploaded img)
    (hnames : (images.map ImageInfo.name).Nodup) :
    imageMap images = images.flatMap imageEntries := by
  induction images using List.reverseRecOn with
  | nil => rfl
  | append_singleton images img ih =>
    rw [List.map_append, List.nodup_append] at hnames
    have hearlier := ih (fun i hi => hall i (List.mem_append_left _ hi)) hnames.1
    have himg : Uploaded img := hall img (by simp)
    have hnew : ∀ e ∈ imageMap images, basename e.1 ≠ img.name := by
      intro e he
      rw [hearlier] at he
      obtain ⟨i, hi, he⟩ := List.mem_flatMap.mp he
      rw [basename_of_mem_imageEntries (hall i (List.mem_append_left _ hi)) he]
      exact hnames.2.2 _ (List.mem_map_of_mem hi) _ (by simp)
    have hstep : imageMap (images ++ [img]) = registerImage (imageMap images) img := by
      simp [imageMap]
    rw [hstep, registerImage_eq himg hnew, hearlier]
    simp

theorem name_suffix_of_mem_imageEntries (himg : Uploaded img) (he : e ∈ imageEntries img) : img.name <:+ e.1 ∧ e.2 = img.url := by
  have hpath : img.name <:+ img.path := by
    rw [himg.path_eq]
    exact List.suffix_append _ _
  simp only [imageEntries, List.mem_cons, List.not_mem_nil, or_false] at he
  rcases he with rfl | rfl | rfl
  · exact ⟨hpath, rfl⟩
  · exact ⟨hpath.trans (List.suffix_cons _ _), rfl⟩
  · exact ⟨List.suffix_refl _, rfl⟩

theorem imageMap_find (hall : ∀ img ∈ images, Uploaded img)
    (hnames : (images.map ImageInfo.name).Nodup) (p : Text) :
    ((imageMap images).find? fun e => e.1.isSuffixOf p || p == e.1).map Prod.snd =
      (images.find? fun img => img.name.isSuffixOf p).map ImageInfo.url := by
  rw [imageMap_eq hall hnames]
  clear hnames
  induction images with
  | nil => rfl
  | cons img images ih =>
    have himg : Uploaded img := hall img (List.mem_cons_self ..)
    rw [List.flatMap_cons, List.find?_append]
    by_cases hname : img.name <:+ p
    · obtain ⟨e, he⟩ : ∃ e, (imageEntries img).find?
          (fun e => e.1.isSuffixOf p || p == e.1) = some e := by
        refine Option.isSome_iff_exists.mp (List.find?_isSome.mpr ⟨(img.name, img.url), ?_, ?_⟩)
        · simp [imageEntries]
        · simp [hname]
      have hurl := (name_suffix_of_mem_imageEntries himg (List.mem_of_find?_eq_some he)).2
      rw [he, List.find?_cons_of_pos (by simpa using hname)]
      simp [hurl]
    · have hnone : (imageEntries img).find? (fun e => e.1.isSuffixOf p || p == e.1) = none := by
        refine List.find?_eq_none.mpr fun e he hends => hname ?_
        refine (name_suffix_of_mem_imageEntries himg he).1.trans ?_
        rcases Bool.or_eq_true_iff.mp hends with hsuffix | heq
        · exact List.isSuffixOf_iff_suffix.mp hsuffix
        · exact (beq_iff_eq.mp heq) ▸ List.suffix_refl p
      rw [hnone, Option.none_or, List.find?_cons_of_neg (by simpa using hname)]
      exact ih fun i hi => hall i (List.mem_cons_of_mem _ hi)

/-! ## The target of a link -/

theorem basename_suffix (p : Text) : basename p <:+ p :=
  List.rtakeWhile_suffix ..

theorem linkTarget_imageMap (hall : ∀ img ∈ images, Uploaded img)
    (hnames : (images.map ImageInfo.name).Nodup) (p : Text) :
    linkTarget (imageMap images) p =
      ((images.find? fun img => img.name.isSuffixOf p).map ImageInfo.url).getD p := by
  have hfind := imageMap_find hall hnames p
  unfold linkTarget
  split
  case h_1 e he =>
    rw [he, Option.map_some] at hfind
    rw [← hfind, Option.getD_some]
  case h_2 hnone =>
    rw [hnone, Option.map_none] at hfind
    rw [← hfind, Option.getD_none]
    split
    case h_2 => rfl
    case h_1 e he =>
      -- a key that is the base name would have been found as an ending of the path
      have hbase : e.1 = basename p := by
        have hkey := List.find?_some he
        exact beq_iff_eq.mp hkey
      have hends : e.1.isSuffixOf p = true :=
        List.isSuffixOf_iff_suffix.mpr (hbase ▸ basename_suffix p)
      have hno := List.find?_eq_none.mp hnone e (List.mem_of_find?_eq_some he)
      exact absurd (by simp [hends]) hno

/-- The path is the file name of the image, possibly behind directories. -/
def LinksTo (img : ImageInfo) (p : Text) : Prop :=
  p = img.name ∨ ∃ dir, p = dir ++ '/' :: img.name

theorem linksTo_iff (himg : Uploaded img) (p : Text) :
    LinksTo img p ↔ basename p = img.name := by
  constructor
  · rintro (rfl | ⟨dir, rfl⟩)
    · exact basename_of_not_mem himg.no_slash
    · exact basename_append_cons dir himg.no_slash
  · intro h
    have hsplit : p.rdropWhile (· != '/') ++ basename p = p := List.rdropWhile_append_rtakeWhile ..
    rcases List.eq_nil_or_concat' (p.rdropWhile (· != '/')) with hnil | ⟨dir, c, hdir⟩
    · left
      rw [← hsplit, hnil, List.nil_append, h]
    · right
      have hne : p.rdropWhile (· != '/') ≠ [] := by simp [hdir]
      have hlast := List.rdropWhile_last_not (· != '/') p hne
      have hc : c = '/' := by simpa [hdir] using hlast
      exact ⟨dir, by rw [← hsplit, hdir, hc, h]; simp⟩

variable {p : Text}

theorem LinksTo.suffix (h : LinksTo img p) : img.name <:+ p := by
  rcases h with rfl | ⟨dir, rfl⟩
  · exact List.suffix_refl _
  · exact ⟨dir ++ ['/'], by simp⟩

/-- A link to an image gets the URL of that image, and any other link stays. -/
def GetsOwn (images : List ImageInfo) (p target : Text) : Prop :=
  (∀ img ∈ images, LinksTo img p → target = img.url) ∧
    ((∀ img ∈ images, ¬ LinksTo img p) → target = p)

/-- No name ends the path before that of its own image; a path of no image ends with no name, or is
already the URL of the first image whose name it ends with. -/
structure KeepsApart (images : List ImageInfo) (p : Text) : Prop where
  own : ∀ before img after, images = before ++ img :: after → LinksTo img p →
    ∀ other ∈ before, ¬ other.name <:+ p
  other : (∀ img ∈ images, ¬ LinksTo img p) → ∀ before img after, images = before ++ img :: after →
    (∀ earlier ∈ before, ¬ earlier.name <:+ p) → img.name <:+ p → img.url = p

theorem find_eq_some_iff :
    (images.find? fun i => i.name.isSuffixOf p) = some img ↔
      img.name <:+ p ∧ ∃ before after, images = before ++ img :: after ∧
        ∀ earlier ∈ before, ¬ earlier.name <:+ p := by
  rw [List.find?_eq_some_iff_append]
  simp only [← List.isSuffixOf_iff_suffix, Bool.not_eq_true, Bool.not_eq_true',
    exists_and_right]

/-- An image of a list without repeated names is found by its name. -/
theorem eq_of_name_eq (hnames : (images.map ImageInfo.name).Nodup)
    (hi : i ∈ images) (hj : j ∈ images) (h : i.name = j.name) : i = j :=
  List.inj_on_of_nodup_map hnames hi hj h

theorem linkTarget_getsOwn_iff (hall : ∀ img ∈ images, Uploaded img)
    (hnames : (images.map ImageInfo.name).Nodup) (p : Text) :
    GetsOwn images p (linkTarget (imageMap images) p) ↔ KeepsApart images p := by
  rw [linkTarget_imageMap hall hnames]
  cases hfind : images.find? fun i => i.name.isSuffixOf p with
  | none =>
    have hends : ∀ img ∈ images, ¬ img.name <:+ p := by
      intro img himg
      have hno := List.find?_eq_none.mp hfind img himg
      simpa using hno
    have hapart : KeepsApart images p :=
      { own := fun before img after himages hown =>
          absurd hown.suffix (hends img (by simp [himages]))
        other := fun _ before img after himages _ hsuffix =>
          absurd hsuffix (hends img (by simp [himages])) }
    refine ⟨fun _ => hapart, fun _ => ⟨fun img himg hown => ?_, fun _ => rfl⟩⟩
    exact absurd hown.suffix (hends img himg)
  | some first =>
    obtain ⟨hends, before, after, himages, hbefore⟩ := find_eq_some_iff.mp hfind
    have hfirst : first ∈ images := by simp [himages]
    rw [Option.map_some, Option.getD_some]
    constructor
    · intro hgets
      constructor
      · intro before' img after' himages' hown
        -- the link's own image is the first one, since its URL is that of no other
        have himg : img ∈ images := by simp [himages']
        have hurl := hgets.1 img himg hown
        have hsame : first = img :=
          eq_of_name_eq hnames hfirst himg (name_eq_of_url_eq (hall _ hfirst) (hall _ himg) hurl)
        intro other hother hsuffix
        obtain ⟨i, hi⟩ : ∃ i, images.find? (fun i => i.name.isSuffixOf p) = some i ∧
            i ∈ before' := by
          obtain ⟨i, hi⟩ := Option.isSome_iff_exists.mp
            (List.find?_isSome (p := fun i => i.name.isSuffixOf p) |>.mpr
              ⟨other, hother, List.isSuffixOf_iff_suffix.mpr hsuffix⟩)
          refine ⟨i, ?_, List.mem_of_find?_eq_some hi⟩
          rw [himages', List.find?_append, hi, Option.some_or]
        rw [hfind, Option.some.injEq] at hi
        have hnodup := hnames
        rw [himages', List.map_append, List.nodup_append] at hnodup
        refine hnodup.2.2 first.name (List.mem_map_of_mem (hi.1 ▸ hi.2)) img.name (by simp) ?_
        rw [hsame]
      · intro hno before' img after' himages' hbefore' hsuffix
        have hsecond := find_eq_some_iff.mpr ⟨hsuffix, before', after', himages', hbefore'⟩
        rw [hfind, Option.some.injEq] at hsecond
        rw [← hsecond]
        exact hgets.2 hno
    · intro hapart
      constructor
      · intro img himg hown
        obtain ⟨before', after', himages'⟩ := List.append_of_mem himg
        -- no name before the link's own image ends the path, so that image is the first one
        have hsecond := find_eq_some_iff.mpr ⟨hown.suffix, before', after', himages',
          hapart.own before' img after' himages' hown⟩
        rw [hfind, Option.some.injEq] at hsecond
        rw [hsecond]
      · intro hno
        exact hapart.other hno before first after himages hbefore hends

/-! ## The rewritten text -/

theorem replaceImageLinks_eq (text : Text) (images : List ImageInfo) :
    replaceImageLinks text images =
      render ((pieces text).map (Piece.withTarget (linkTarget (imageMap images)))) := by
  have hpiece : ∀ piece, replaceLink (imageMap images) piece =
      (piece.withTarget (linkTarget (imageMap images))).render := by
    intro piece
    cases piece <;> rfl
  by_cases hnil : images = []
  · have hsame : ∀ piece, Piece.withTarget (linkTarget (imageMap [])) piece = piece := by
      intro piece
      cases piece <;> rfl
    have hid : Piece.withTarget (linkTarget (imageMap [])) = id := funext hsame
    rw [replaceImageLinks, if_pos hnil, hnil, hid, List.map_id, render_pieces]
  · rw [replaceImageLinks, if_neg hnil, render, List.flatMap_map]
    exact congrArg (fun f => (pieces text).flatMap f) (funext hpiece)

/-- The rewritten text is the text with other link targets, and every link gets the URL of its own
image exactly if no name of another image stands in the way. -/
theorem replaceImageLinks_own_iff {imagesDir imagePrefix : Text} {entries : List ZipEntry}
    {images : List ImageInfo} (himages : processImages imagesDir imagePrefix entries = images)
    (hnames : (images.map ImageInfo.name).Nodup) (text : Text) :
    render (pieces text) = text ∧
      replaceImageLinks text images =
        render ((pieces text).map (Piece.withTarget (linkTarget (imageMap images)))) ∧
      ((∀ alt p, .link alt p ∈ pieces text →
          GetsOwn images p (linkTarget (imageMap images) p)) ↔
        ∀ alt p, .link alt p ∈ pieces text → KeepsApart images p) := by
  have hall : ∀ img ∈ images, Uploaded img := by
    intro img himg
    rw [← himages] at himg
    exact mem_processImages himg
  refine ⟨render_pieces text, replaceImageLinks_eq text images, ?_⟩
  constructor
  · intro h alt p hmem
    exact (linkTarget_getsOwn_iff hall hnames p).mp (h alt p hmem)
  · intro h alt p hmem
    exact (linkTarget_getsOwn_iff hall hnames p).mpr (h alt p hmem)

/-- An archive with two figures. -/
def twoFigures (first second : String) : List ZipEntry :=
  [{ name := "images/".toList ++ first.toList, uploadedAt := some 1710000000000000 },
    { name := "images/".toList ++ second.toList, uploadedAt := some 1710000000000001 }]

def uploadedFigures (first second : String) : List ImageInfo :=
  processImages "images".toList "kb_1/kb-images".toList (twoFigures first second)

theorem keepsApart_of_forall (hall : ∀ img ∈ images, Uploaded img)
    (hnames : (images.map ImageInfo.name).Nodup)
    (h : ∀ img ∈ images, img.name <:+ p → LinksTo img p) : KeepsApart images p := by
  constructor
  · intro before img after himages hown other hother hsuffix
    have himg : img ∈ images := by simp [himages]
    have hmem : other ∈ images := by simp [himages, hother]
    have hsame : other.name = img.name := by
      rw [← (linksTo_iff (hall _ hmem) p).mp (h other hmem hsuffix),
        (linksTo_iff (hall _ himg) p).mp hown]
    rw [himages, List.map_append, List.nodup_append] at hnames
    exact hnames.2.2 _ (List.mem_map_of_mem hother) img.name (by simp) hsame
  · intro hno before img after himages _ hsuffix
    have himg : img ∈ images := by simp [himages]
    exact absurd (h img himg hsuffix) (hno img himg)

theorem separate_figures_rewritten :
    GetsOwn (uploadedFigures "a.png" "b.png") "images/b.png".toList
      (linkTarget (imageMap (uploadedFigures "a.png" "b.png")) "images/b.png".toList) := by
  have hnames : ((uploadedFigures "a.png" "b.png").map ImageInfo.name).Nodup := by
    decide +kernel
  have hown := (@replaceImageLinks_own_iff "images".toList "kb_1/kb-images".toList
    (twoFigures "a.png" "b.png") (uploadedFigures "a.png" "b.png") rfl hnames
    "see ![b](images/b.png)".toList).2.2.mpr
  refine hown ?_ "b".toList "images/b.png".toList (by decide +kernel)
  intro alt p hlink
  have hpath : p = "images/b.png".toList := by
    have hlinks : ∀ piece ∈ pieces "see ![b](images/b.png)".toList,
        piece = .link "b".toList "images/b.png".toList ∨ piece.render.length = 1 := by
      decide +kernel
    rcases hlinks _ hlink with heq | hlen
    · exact (Piece.link.inj heq).2
    · simp [Piece.render, linkText] at hlen
  subst hpath
  refine keepsApart_of_forall (fun _ => mem_processImages) hnames fun img himg hsuffix => ?_
  have hname : img.name = "b.png".toList := by
    have honly : ∀ img ∈ uploadedFigures "a.png" "b.png",
        img.name <:+ "images/b.png".toList → img.name = "b.png".toList := by
      decide +kernel
    exact honly img himg hsuffix
  exact Or.inr ⟨"images".toList, by rw [hname]; rfl⟩

/-- The link to the second figure gets the URL of the first, whose name its own name ends with. -/
theorem shorter_name_captures :
    ¬ ∀ imagesDir imagePrefix entries text, ((processImages imagesDir imagePrefix entries).map
      ImageInfo.name).Nodup → ∀ alt p, .link alt p ∈ pieces text →
        GetsOwn (processImages imagesDir imagePrefix entries) p
          (linkTarget (imageMap (processImages imagesDir imagePrefix entries)) p) := by
  intro hall
  have hown := hall "images".toList "kb_1/kb-images".toList (twoFigures "1.png" "11.png")
    "see ![b](images/11.png)".toList (by decide +kernel) "b".toList "images/11.png".toList
    (by decide +kernel)
  have hsecond : ∃ img ∈ uploadedFigures "1.png" "11.png", img.name = "11.png".toList ∧
      linkTarget (imageMap (uploadedFigures "1.png" "11.png")) "images/11.png".toList ≠ img.url := by
    decide +kernel
  obtain ⟨img, himg, hname, hurl⟩ := hsecond
  refine hurl (hown.1 img himg (Or.inr ⟨"images".toList, ?_⟩))
  rw [hname]
  rfl

end Yuanlei.ImageLinks

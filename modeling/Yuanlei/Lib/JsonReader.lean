import Yuanlei.Lib.JsonRoundTrip

/-!
# What the JSON reader consumes

Two general facts about the reader.  A property of the text in front of it that is
kept over plain characters and over strings holds of the text behind the value, and
a property of the strings read holds of all strings in the value.

Main results:

- `Json.inv_parse`: an invariant of the text is kept by the reader.
-/

universe u

namespace Json

variable {F : Type u}

/-! ## The strings of a value -/

mutual

/-- Every string and every key in the value satisfies `P`. -/
def AllStrings (P : String → Prop) : Json F → Prop
  | str s => P s
  | arr vs => AllStringsItems P vs
  | obj fs => AllStringsFields P fs
  | _ => True

def AllStringsItems (P : String → Prop) : List (Json F) → Prop
  | [] => True
  | v :: vs => v.AllStrings P ∧ AllStringsItems P vs

def AllStringsFields (P : String → Prop) : List (String × Json F) → Prop
  | [] => True
  | (k, v) :: fs => P k ∧ v.AllStrings P ∧ AllStringsFields P fs

end

variable {P : String → Prop} {fs : List (String × Json F)}

theorem allStringsFields_iff :
    AllStringsFields P fs ↔ ∀ e ∈ fs, P e.1 ∧ e.2.AllStrings P := by
  induction fs with
  | nil => simp [AllStringsFields]
  | cons e fs ih =>
    simp only [AllStringsFields, ih, List.forall_mem_cons, and_assoc]

theorem allStrings_setField {e : String × Json F} (hfs : AllStringsFields P fs)
    (he : P e.1 ∧ e.2.AllStrings P) :
    AllStringsFields P (setField fs e) := by
  rw [allStringsFields_iff] at hfs ⊢
  unfold setField
  split_ifs
  · intro f hf
    obtain ⟨g, hg, rfl⟩ := List.mem_map.mp hf
    split
    · exact he
    · exact hfs g hg
  · intro f hf
    rcases List.mem_append.mp hf with hold | hnew
    · exact hfs f hold
    · rw [List.mem_singleton.mp hnew]
      exact he

theorem allStrings_dictOf (hfs : AllStringsFields P fs) : AllStringsFields P (dictOf fs) := by
  have hgo : ∀ (rest done : List (String × Json F)), AllStringsFields P done →
      AllStringsFields P rest → AllStringsFields P (rest.foldl setField done) := by
    intro rest
    induction rest with
    | nil => exact fun done hdone _ => hdone
    | cons e rest ih =>
      intro done hdone hrest
      rw [allStringsFields_iff] at hrest
      exact ih _ (allStrings_setField hdone (hrest e List.mem_cons_self))
        (allStringsFields_iff.mpr fun f hf => hrest f (List.mem_cons_of_mem _ hf))
  exact hgo fs [] trivial hfs

/-! ## Invariants of the text -/

/-- A character that neither opens or closes a string nor escapes. -/
def Plain (c : Char) : Prop :=
  c ≠ '"' ∧ c ≠ '\\'

instance : DecidablePred Plain := fun c =>
  inferInstanceAs (Decidable (c ≠ '"' ∧ c ≠ '\\'))

section
variable {I : List Char → Prop} {P : String → Prop} (hplain : ∀ c t, Plain c → I (c :: t) → I t)
include hplain

variable {t : List Char}

theorem inv_append (pre : List Char) (hpre : ∀ c ∈ pre, Plain c) (h : I (pre ++ t)) : I t := by
  induction pre with
  | nil => exact h
  | cons c pre ih =>
    exact ih (fun d hd => hpre d (List.mem_cons_of_mem _ hd))
      (hplain c _ (hpre c List.mem_cons_self) h)

theorem inv_dropWhile {p : Char → Bool} (hp : ∀ c, p c → Plain c) (h : I t) :
    I (t.dropWhile p) := by
  refine inv_append hplain (t.takeWhile p) (fun c hc => hp c ?_) ?_
  · exact List.mem_takeWhile_imp hc
  · rw [List.takeWhile_append_dropWhile]
    exact h

section

variable (h : I t)
include h

theorem inv_skipWs : I (skipWs t) := by
  refine inv_dropWhile hplain (fun c hc => ?_) h
  simp only [isWs, Bool.or_eq_true, beq_iff_eq] at hc
  rcases hc with ((rfl | rfl) | rfl) | rfl <;> exact (by decide)

variable {ds r : List Char}

theorem inv_takeDigits (heq : takeDigits t = some (ds, r)) : I r := by
  unfold takeDigits at heq
  simp only at heq
  split_ifs at heq
  simp only [Option.some.injEq, Prod.mk.injEq] at heq
  rw [← heq.2]
  refine inv_dropWhile hplain (fun c hc => ?_) h
  exact ⟨ne_of_isDigit hc (by decide), ne_of_isDigit hc (by decide)⟩

theorem inv_takeMinus : I (takeMinus t).2 := by
  unfold takeMinus
  split
  · exact hplain _ _ (by decide) h
  · exact h

theorem inv_takeInt (heq : takeInt t = some (ds, r)) : I r := by
  unfold takeInt at heq
  split at heq
  · simp only [Option.some.injEq, Prod.mk.injEq] at heq
    rw [← heq.2]
    exact hplain _ _ (by decide) h
  · exact inv_takeDigits hplain h heq

theorem inv_takeFrac : I (takeFrac t).2 := by
  unfold takeFrac
  split
  · rename_i t'
    split
    · rename_i hdigits
      exact inv_takeDigits hplain (hplain _ _ (by decide) h) hdigits
    · exact h
  · exact h

theorem inv_takeSign : I (takeSign t).2 := by
  unfold takeSign
  split
  · exact hplain _ _ (by decide) h
  · exact hplain _ _ (by decide) h
  · exact h

theorem inv_takeExp : I (takeExp t).2 := by
  unfold takeExp
  split
  · exact h
  · rename_i e t'
    split_ifs with he
    · have hletter : Plain e := by
        rcases he with rfl | rfl <;> exact (by decide)
      split
      · rename_i hdigits
        exact inv_takeDigits hplain (inv_takeSign hplain (hplain _ _ hletter h)) hdigits
      · exact h
    · exact h

theorem inv_parseNumber {text : FloatText F} {v : Json F}
    (heq : parseNumber text t = some (v, r)) : I r ∧ v.AllStrings P := by
  unfold parseNumber at heq
  simp only at heq
  split at heq
  · cases heq
  · rename_i whole t₁ hint
    have h₁ := inv_takeInt hplain (inv_takeMinus hplain h) hint
    have h₃ := inv_takeExp hplain (inv_takeFrac hplain h₁)
    split_ifs at heq
    · cases heq
      exact ⟨h₃, trivial⟩
    · simp only [Option.some.injEq, Prod.mk.injEq] at heq
      obtain ⟨rfl, rfl⟩ := heq
      exact ⟨h₃, trivial⟩

end

variable (hstring : ∀ t s r, I ('"' :: t) → parseString t = some (s, r) → I r ∧ P (String.ofList s))
include hstring

/-- What holds of the text in front of the reader, and is kept over plain characters and over
strings, holds of the text behind a value; and what is known of the strings read holds of all
strings in the value. -/
theorem inv_parse (text : FloatText F) (n : Nat) :
    (∀ {t r v}, I t → parseValue text n t = some (v, r) → I r ∧ v.AllStrings P) ∧
    (∀ {t r vs}, I t → parseItems text n t = some (vs, r) → I r ∧ AllStringsItems P vs) ∧
    ∀ {t r fs}, I t → parseFields text n t = some (fs, r) → I r ∧ AllStringsFields P fs := by
  induction n with
  | zero =>
    refine ⟨fun _ h => ?_, fun _ h => ?_, fun _ h => ?_⟩
    · simp [parseValue] at h
    · simp [parseItems] at h
    · simp [parseFields] at h
  | succ n ih =>
    obtain ⟨ihValue, ihItems, ihFields⟩ := ih
    refine ⟨fun {t r v} h heq => ?_, fun {t r vs} h heq => ?_, fun {t r fs} h heq => ?_⟩
    · rw [parseValue.eq_def] at heq
      simp only at heq
      split at heq
      · obtain ⟨e, he, heq⟩ := Option.map_eq_some_iff.mp heq
        cases heq
        exact hstring _ _ _ h he
      · have hopen := inv_skipWs hplain (hplain _ _ (by decide) h)
        split at heq
        · rename_i hclose
          cases heq
          rw [hclose] at hopen
          exact ⟨hplain _ _ (by decide) hopen, trivial⟩
        · obtain ⟨e, he, heq⟩ := Option.map_eq_some_iff.mp heq
          cases heq
          exact ihItems hopen he
      · have hopen := inv_skipWs hplain (hplain _ _ (by decide) h)
        split at heq
        · rename_i hclose
          simp only [Option.some.injEq, Prod.mk.injEq] at heq
          obtain ⟨rfl, rfl⟩ := heq
          rw [hclose] at hopen
          exact ⟨hplain _ _ (by decide) hopen, trivial⟩
        · obtain ⟨e, he, heq⟩ := Option.map_eq_some_iff.mp heq
          simp only [Prod.mk.injEq] at heq
          obtain ⟨rfl, rfl⟩ := heq
          obtain ⟨hrest, hfields⟩ := ihFields hopen he
          exact ⟨hrest, allStrings_dictOf hfields⟩
      · cases heq
        exact ⟨inv_append hplain ['n', 'u', 'l', 'l'] (by decide) h, trivial⟩
      · simp only [Option.some.injEq, Prod.mk.injEq] at heq
        obtain ⟨rfl, rfl⟩ := heq
        exact ⟨inv_append hplain ['t', 'r', 'u', 'e'] (by decide) h, trivial⟩
      · cases heq
        exact ⟨inv_append hplain ['f', 'a', 'l', 's', 'e'] (by decide) h, trivial⟩
      · simp only [Option.some.injEq, Prod.mk.injEq] at heq
        obtain ⟨rfl, rfl⟩ := heq
        exact ⟨inv_append hplain ['N', 'a', 'N'] (by decide) h, trivial⟩
      · cases heq
        exact ⟨inv_append hplain ['I', 'n', 'f', 'i', 'n', 'i', 't', 'y'] (by decide) h, trivial⟩
      · simp only [Option.some.injEq, Prod.mk.injEq] at heq
        obtain ⟨rfl, rfl⟩ := heq
        exact ⟨inv_append hplain ['-', 'I', 'n', 'f', 'i', 'n', 'i', 't', 'y'] (by decide) h,
          trivial⟩
      · exact inv_parseNumber hplain h heq
    · rw [parseItems] at heq
      split at heq
      · cases heq
      · rename_i v t₁ hvalue
        obtain ⟨h₁, hv⟩ := ihValue h hvalue
        have h₂ := inv_skipWs hplain h₁
        split at heq
        · rename_i t₂ hclose
          cases heq
          rw [hclose] at h₂
          exact ⟨hplain _ _ (by decide) h₂, hv, trivial⟩
        · rename_i t₂ hcomma
          rw [hcomma] at h₂
          obtain ⟨e, he, heq⟩ := Option.map_eq_some_iff.mp heq
          cases heq
          obtain ⟨hrest, hitems⟩ := ihItems (inv_skipWs hplain (hplain _ _ (by decide) h₂)) he
          exact ⟨hrest, hv, hitems⟩
        · cases heq
    · rw [parseFields.eq_def] at heq
      simp only at heq
      split at heq
      · split at heq
        · cases heq
        · rename_i k t₁ hkey
          obtain ⟨h₁, hk⟩ := hstring _ _ _ h hkey
          have h₂ := inv_skipWs hplain h₁
          split at heq
          · rename_i t₂ hcolon
            rw [hcolon] at h₂
            have h₃ := inv_skipWs hplain (hplain _ _ (by decide) h₂)
            split at heq
            · cases heq
            · rename_i v t₃ hvalue
              obtain ⟨h₄, hv⟩ := ihValue h₃ hvalue
              have h₅ := inv_skipWs hplain h₄
              split at heq
              · rename_i t₄ hclose
                cases heq
                rw [hclose] at h₅
                exact ⟨hplain _ _ (by decide) h₅, hk, hv, trivial⟩
              · rename_i t₄ hcomma
                rw [hcomma] at h₅
                obtain ⟨e, he, heq⟩ := Option.map_eq_some_iff.mp heq
                cases heq
                obtain ⟨hrest, hfields⟩ :=
                  ihFields (inv_skipWs hplain (hplain _ _ (by decide) h₅)) he
                exact ⟨hrest, hk, hv, hfields⟩
              · cases heq
          · cases heq
      · cases heq

end

/-! ## The string reader -/

/-- What the string reader can do: it stops at a quote, takes a plain character as it is, or
takes an escape. -/
inductive ReadsString : List Char → List Char → List Char → Prop
  | quote (r : List Char) : ReadsString ('"' :: r) [] r
  | plain {c : Char} {t s r : List Char} (hc : Plain c) (h : ReadsString t s r) :
      ReadsString (c :: t) (c :: s) r
  | escape {x c : Char} {digits t s r : List Char} (hdigits : ∀ d ∈ digits, Plain d)
      (h : ReadsString t s r) : ReadsString ('\\' :: x :: (digits ++ t)) (c :: s) r
  | surrogates {x x' c : Char} {digits digits' t s r : List Char} (hdigits : ∀ d ∈ digits, Plain d)
      (hdigits' : ∀ d ∈ digits', Plain d) (h : ReadsString t s r) :
      ReadsString ('\\' :: x :: (digits ++ '\\' :: x' :: (digits' ++ t))) (c :: s) r

variable {c : Char} {n : Nat}

theorem hexVal_plain (h : hexVal c = some n) : Plain c := by
  refine ⟨?_, ?_⟩
  · rintro rfl
    have hnone : hexVal '"' = none := by decide
    simp [hnone] at h
  · rintro rfl
    have hnone : hexVal '\\' = none := by decide
    simp [hnone] at h

theorem hex4_plain {a b d : Char} (h : hex4 a b c d = some n) :
    ∀ x ∈ [a, b, c, d], Plain x := by
  unfold hex4 at h
  split at h
  · rename_i ha hb hc hd
    simp [hexVal_plain ha, hexVal_plain hb, hexVal_plain hc, hexVal_plain hd]
  · cases h

variable {t : List Char}

theorem parseString_reads {s r : List Char} (h : parseString t = some (s, r)) :
    ReadsString t s r := by
  fun_induction parseString t generalizing s with
  | case2 t =>
    cases h
    exact .quote _
  | case5 a b c d n hn hhigh a' b' c' d' t m hm hlow ih =>
    obtain ⟨e, he, heq⟩ := Option.map_eq_some_iff.mp h
    cases heq
    exact @ReadsString.surrogates _ _ _ [a, b, c, d] [a', b', c', d'] _ _ _ (hex4_plain hn)
      (hex4_plain hm) (ih he)
  | case9 a b c d t n hn hhigh hlow ih =>
    obtain ⟨e, he, heq⟩ := Option.map_eq_some_iff.mp h
    simp only [Prod.mk.injEq] at heq
    obtain ⟨rfl, rfl⟩ := heq
    exact @ReadsString.escape _ _ [a, b, c, d] _ _ _ (hex4_plain hn) (ih he)
  | case11 c t hshort c' hc' ih =>
    obtain ⟨e, he, heq⟩ := Option.map_eq_some_iff.mp h
    cases heq
    exact @ReadsString.escape _ _ [] _ _ _ (by simp) (ih he)
  | case13 c t hquote hescape hslash hraw ih =>
    obtain ⟨e, he, heq⟩ := Option.map_eq_some_iff.mp h
    simp only [Prod.mk.injEq] at heq
    obtain ⟨rfl, rfl⟩ := heq
    exact .plain ⟨by simpa using hquote, fun hc => hraw (.inr hc)⟩ (ih he)
  | _ => cases h

end Json

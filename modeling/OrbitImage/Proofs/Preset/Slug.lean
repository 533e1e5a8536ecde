import Mathlib.Data.List.Chain
import OrbitImage.Preset
import OrbitImage.Proofs.Text.Numeral
import OrbitImage.Proofs.Text.Runs
/-!
Slugs. The words of a name are its maximal runs of ASCII letters and digits, and its slug is made of
them in lower case, with one dash between neighbours. Whatever the name is, the slug is of the form
`IsSlug`; and the texts of this form are those that are their own slugs.
-/
namespace OrbitImage.Preset
open Text

/-- Lower-case letters, digits, and dashes that stand between two of these. -/
structure IsSlug (cs : List Char) : Prop where
  characters : ∀ c ∈ cs, c.isLower ∨ c.isDigit ∨ c = '-'
  start : cs.head? ≠ some '-'
  stop : cs.getLast? ≠ some '-'
  apart : cs.IsChain fun a b => ¬(a = '-' ∧ b = '-')

/-- A word of a slug. -/
structure IsWord (word : List Char) : Prop where
  ne_nil : word ≠ []
  characters : ∀ c ∈ word, c.isLower ∨ c.isDigit

/-! ### Characters -/

theorem isAlphanumeric_of_letter {c : Char} (h : c.isLower ∨ c.isDigit) : isAlphanumeric c := by
  rcases h with h | h
  · have hz : 'a' ≤ c ∧ c ≤ 'z' :=
      (Bool.and_eq_true_iff.mp h).imp of_decide_eq_true of_decide_eq_true
    simp [isAlphanumeric, hz]
  · simp [isAlphanumeric, h]

theorem lt_of_isAlphanumeric {c : Char} (h : isAlphanumeric c) : c.toNat < 128 := by
  simp only [isAlphanumeric, Char.isDigit, Bool.or_eq_true, Bool.and_eq_true,
    decide_eq_true_eq] at h
  obtain (⟨-, hdigit⟩ | ⟨-, hlower⟩) | ⟨-, hupper⟩ := h
  · exact toNat_lt_of_le (d := '9') hdigit (by decide)
  · exact toNat_lt_of_le hlower (by decide)
  · exact toNat_lt_of_le hupper (by decide)

theorem letter_toLower {c : Char} (h : isAlphanumeric c) : c.toLower.isLower ∨ c.toLower.isDigit :=
  ascii_cases (P := fun c => isAlphanumeric c → c.toLower.isLower ∨ c.toLower.isDigit) (by decide)
    (lt_of_isAlphanumeric h) h

theorem toLower_of_letter {c : Char} (h : c.isLower ∨ c.isDigit) : c.toLower = c ∧ c ≠ '-' :=
  ascii_cases (P := fun c => c.isLower ∨ c.isDigit → c.toLower = c ∧ c ≠ '-') (by decide)
    (lt_of_isAlphanumeric (isAlphanumeric_of_letter h)) h

theorem IsWord.not_dash {word : List Char} (h : IsWord word) : ∀ c ∈ word, c ≠ '-' :=
  fun c hc => (toLower_of_letter (h.characters c hc)).2

theorem IsWord.exists_reverse {word : List Char} (h : IsWord word) :
    ∃ d ds, word.reverse = d :: ds ∧ d ≠ '-' := by
  obtain ⟨d, ds, hreverse⟩ := List.exists_cons_of_ne_nil (mt List.reverse_eq_nil_iff.mp h.ne_nil)
  exact ⟨d, ds, hreverse, h.not_dash d (List.mem_reverse.mp (hreverse ▸ List.mem_cons_self))⟩

theorem isWord_map_toLower {run : List Char} (hne : run ≠ []) (h : ∀ c ∈ run, isAlphanumeric c) :
    IsWord (run.map Char.toLower) := by
  refine ⟨by simpa using hne, fun d hd => ?_⟩
  obtain ⟨c, hc, rfl⟩ := List.mem_map.mp hd
  exact letter_toLower (h c hc)

/-! ### The loop, word by word -/

theorem extend_letter {c : Char} (hc : isAlphanumeric c) (slug : List Char) :
    extend slug c = c.toLower :: slug := by
  unfold extend
  rw [if_pos hc]

theorem extend_after_dash {c : Char} (hc : isAlphanumeric c = false) (slug : List Char) :
    extend ('-' :: slug) c = '-' :: slug := by
  simp only [extend, hc, Bool.false_eq_true, if_false]

theorem extend_after_letter {c d : Char} (hc : isAlphanumeric c = false) (hd : d ≠ '-')
    (slug : List Char) : extend (d :: slug) c = '-' :: d :: slug := by
  simp only [extend, hc, Bool.false_eq_true, if_false]
  split
  case h_1 h => cases h
  case h_2 h => exact absurd (List.cons.inj h).1 hd
  case h_3 => rfl

theorem foldl_extend_run {run : List Char} (h : ∀ c ∈ run, isAlphanumeric c) (slug : List Char) :
    run.foldl extend slug = (run.map Char.toLower).reverse ++ slug := by
  induction run generalizing slug with
  | nil => rfl
  | cons c run ih =>
      obtain ⟨hc, hrun⟩ := List.forall_mem_cons.mp h
      rw [List.foldl_cons, extend_letter hc, ih hrun]
      simp

/-- What the loop holds when words have ended and no other has begun: they are held last character
first, with a dash behind each of them. -/
def held (words : List (List Char)) : List Char :=
  (words.flatMap (· ++ ['-'])).reverse

theorem held_append_singleton (words : List (List Char)) (word : List Char) :
    held (words ++ [word]) = '-' :: (word.reverse ++ held words) := by
  simp [held]

/-- Between words nothing is added. -/
theorem extend_held {c : Char} (hc : isAlphanumeric c = false) (words : List (List Char)) :
    extend (held words) c = held words := by
  obtain rfl | ⟨before, word, rfl⟩ := words.eq_nil_or_concat
  · simp [extend, hc, held]
  · rw [List.concat_eq_append, held_append_singleton, extend_after_dash hc]

/-- The first character behind a word adds the dash. -/
theorem extend_word {c : Char} (hc : isAlphanumeric c = false) {word : List Char}
    (hword : IsWord word) (words : List (List Char)) :
    extend (word.reverse ++ held words) c = held (words ++ [word]) := by
  obtain ⟨d, ds, hreverse, hd⟩ := hword.exists_reverse
  rw [held_append_singleton, hreverse, List.cons_append, extend_after_letter hc hd]

theorem intercalate_append_singleton (words : List (List Char)) (word : List Char) :
    ['-'].intercalate (words ++ [word]) = words.flatMap (· ++ ['-']) ++ word := by
  induction words with
  | nil => simp
  | cons first words ih =>
      obtain ⟨next, rest, hcons⟩ := List.exists_cons_of_ne_nil (by simp : words ++ [word] ≠ [])
      rw [List.cons_append, hcons, List.intercalate_cons_cons, ← hcons, ih]
      simp

/-- No dash is dropped behind a word. -/
theorem dropWhile_word {word : List Char} (hword : IsWord word) (words : List (List Char)) :
    (word.reverse ++ held words).dropWhile (· = '-') =
      (['-'].intercalate (words ++ [word])).reverse := by
  obtain ⟨d, ds, hreverse, hd⟩ := hword.exists_reverse
  rw [intercalate_append_singleton, List.reverse_append, ← held, hreverse, List.cons_append,
    List.dropWhile_cons_of_neg (by simpa using hd)]

theorem dropWhile_held {words : List (List Char)} (h : ∀ word ∈ words, IsWord word) :
    (held words).dropWhile (· = '-') = (['-'].intercalate words).reverse := by
  obtain rfl | ⟨before, word, rfl⟩ := words.eq_nil_or_concat
  · rfl
  · rw [List.concat_eq_append] at h ⊢
    rw [held_append_singleton, List.dropWhile_cons_of_pos (by simp),
      dropWhile_word (h word (by simp))]

/-- By induction on the runs of what is left of the name, for all words that have ended before. -/
theorem dropWhile_foldl_extend {cs : List Char} {runs : List (List Char)}
    (h : Runs isAlphanumeric cs runs) (words : List (List Char))
    (hwords : ∀ word ∈ words, IsWord word) :
    (cs.foldl extend (held words)).dropWhile (· = '-') =
      (['-'].intercalate (words ++ runs.map (·.map Char.toLower))).reverse := by
  induction h generalizing words with
  | nil => simpa using dropWhile_held hwords
  | gap hc hrest ih => rw [List.foldl_cons, extend_held hc, ih words hwords]
  | @run run cs runs hne hall hcs hrest ih =>
      have hword := isWord_map_toLower hne hall
      have hnext : ∀ word ∈ words ++ [run.map Char.toLower], IsWord word := by
        simpa [or_imp, forall_and] using ⟨hwords, hword⟩
      rw [List.foldl_append, foldl_extend_run hall]
      cases cs with
      | nil =>
          obtain rfl := hrest.eq_nil
          exact dropWhile_word hword words
      | cons c cs =>
          -- From here on the loop is where it would be had the word ended before.
          have hc := hcs c rfl
          have hbehind := ih _ hnext
          rw [List.foldl_cons, extend_held hc] at hbehind
          rw [List.foldl_cons, extend_word hc hword, hbehind]
          simp

theorem slugChars_eq {name : List Char} {runs : List (List Char)}
    (h : Runs isAlphanumeric name runs) :
    slugChars name = ['-'].intercalate (runs.map (·.map Char.toLower)) := by
  have hloop := dropWhile_foldl_extend h [] (by simp)
  rw [slugChars, show ([] : List Char) = held [] from rfl, hloop, List.reverse_reverse]
  rfl

/-! ### The form of a slug -/

namespace IsSlug

theorem nil : IsSlug [] :=
  ⟨by simp, by simp, by simp, .nil⟩

theorem of_isWord {word : List Char} (h : IsWord word) : IsSlug word where
  characters c hc := (h.characters c hc).imp_right .inl
  start hstart := h.not_dash _ (List.mem_of_mem_head? hstart) rfl
  stop hstop := h.not_dash _ (List.mem_of_mem_getLast? hstop) rfl
  apart := by
    refine List.Pairwise.isChain (List.pairwise_of_forall_mem_list ?_)
    exact fun c hc _ _ hboth => h.not_dash c hc hboth.1

theorem append_word {word rest : List Char} (h : IsSlug rest) (hne : rest ≠ [])
    (hword : IsWord word) : IsSlug (word ++ '-' :: rest) where
  characters c hc := by
    rcases List.mem_append.mp hc with hc | hc
    · exact (of_isWord hword).characters c hc
    · rcases List.mem_cons.mp hc with rfl | hc
      · exact .inr (.inr rfl)
      · exact h.characters c hc
  start := by
    obtain ⟨c, cs, rfl⟩ := List.exists_cons_of_ne_nil hword.ne_nil
    exact (of_isWord hword).start
  stop := by
    obtain ⟨c, cs, rfl⟩ := List.exists_cons_of_ne_nil hne
    simpa [List.getLast?_cons_cons] using h.stop
  apart := by
    refine List.isChain_append.mpr ⟨(of_isWord hword).apart, ?_, ?_⟩
    · refine List.isChain_cons.mpr ⟨?_, h.apart⟩
      rintro c hc ⟨-, rfl⟩
      exact h.start hc
    · rintro c hc - - ⟨rfl, -⟩
      exact (of_isWord hword).stop hc

theorem intercalate_ne_nil {word : List Char} (h : IsWord word) (words : List (List Char)) :
    ['-'].intercalate (word :: words) ≠ [] := by
  cases words with
  | nil =>
      rw [List.intercalate_singleton]
      exact h.ne_nil
  | cons next words =>
      rw [List.intercalate_cons_cons]
      simp

theorem intercalate {words : List (List Char)} (h : ∀ word ∈ words, IsWord word) :
    IsSlug (['-'].intercalate words) := by
  induction words with
  | nil => exact .nil
  | cons word words ih =>
      obtain ⟨hword, hwords⟩ := List.forall_mem_cons.mp h
      cases words with
      | nil =>
          rw [List.intercalate_singleton]
          exact of_isWord hword
      | cons next words =>
          rw [List.intercalate_cons_cons, List.append_assoc]
          exact (ih hwords).append_word (intercalate_ne_nil (hwords next (by simp)) words) hword

end IsSlug

theorem isSlug_slugChars (name : List Char) : IsSlug (slugChars name) := by
  obtain ⟨runs, hruns⟩ := exists_runs isAlphanumeric name
  rw [slugChars_eq hruns]
  refine .intercalate fun word hword => ?_
  obtain ⟨run, hrun, rfl⟩ := List.mem_map.mp hword
  obtain ⟨hne, hall⟩ := hruns.forall_mem run hrun
  exact isWord_map_toLower hne hall

/-- A text of the form of a slug is taken over as it is: a letter is in lower case, and a dash comes
behind a letter. -/
theorem foldl_extend_slug {cs : List Char} (hcs : ∀ c ∈ cs, c.isLower ∨ c.isDigit ∨ c = '-')
    (hapart : cs.IsChain fun a b => ¬(a = '-' ∧ b = '-')) (slug : List Char)
    (hslug : '-' ∈ cs.head? → ∃ d rest, slug = d :: rest ∧ d ≠ '-') :
    cs.foldl extend slug = cs.reverse ++ slug := by
  induction cs generalizing slug with
  | nil => rfl
  | cons c cs ih =>
      obtain ⟨hc, hcs⟩ := List.forall_mem_cons.mp hcs
      obtain ⟨hnext, hapart⟩ := List.isChain_cons.mp hapart
      have hextend : extend slug c = c :: slug := by
        by_cases hdash : c = '-'
        · subst hdash
          obtain ⟨d, rest, rfl, hd⟩ := hslug rfl
          exact extend_after_letter rfl hd rest
        · have hletter : c.isLower ∨ c.isDigit := hc.imp_right (Or.resolve_right · hdash)
          rw [extend_letter (isAlphanumeric_of_letter hletter), (toLower_of_letter hletter).1]
      rw [List.foldl_cons, hextend, ih hcs hapart _ fun hhead =>
        ⟨c, slug, rfl, fun hc => hnext '-' hhead ⟨hc, rfl⟩⟩]
      simp

theorem slugChars_eq_self_iff {cs : List Char} : slugChars cs = cs ↔ IsSlug cs := by
  constructor
  · intro h
    rw [← h]
    exact isSlug_slugChars cs
  · intro h
    have hloop := foldl_extend_slug h.characters h.apart [] fun hhead => absurd hhead h.start
    have hdrop : cs.reverse.dropWhile (· = '-') = cs.reverse := by
      have hstop := h.stop
      rw [← List.head?_reverse] at hstop
      cases hreverse : cs.reverse with
      | nil => rfl
      | cons d ds =>
          rw [hreverse] at hstop
          exact List.dropWhile_cons_of_neg (by simpa using hstop)
    rw [slugChars, hloop, List.append_nil, hdrop, List.reverse_reverse]

/-- The slug of a name is made of the words of the name, its maximal runs of ASCII letters and
digits: they are put in lower case and joined by single dashes. So every slug has the form of a
slug; a name of this form, and no other name, is its own slug; and the slug of a slug is itself. -/
theorem slug_canonical (p : Preset) :
    (∃ words, (∀ runs, Runs isAlphanumeric p.name.toList runs ↔ runs = words) ∧
      p.slug = "-".intercalate (words.map fun word => String.ofList (word.map Char.toLower))) ∧
    IsSlug p.slug.toList ∧ (p.slug = p.name ↔ IsSlug p.name.toList) ∧
    ∀ equation, (⟨p.slug, equation⟩ : Preset).slug = p.slug := by
  have htoList : p.slug.toList = slugChars p.name.toList := String.toList_ofList
  have hslug := isSlug_slugChars p.name.toList
  refine ⟨?_, htoList ▸ hslug, ?_, fun equation => ?_⟩
  · obtain ⟨words, hwords⟩ := exists_runs isAlphanumeric p.name.toList
    refine ⟨words, fun runs => ⟨hwords.unique, fun h => h ▸ hwords⟩, ?_⟩
    rw [← String.toList_inj, htoList, slugChars_eq hwords, String.toList_intercalate, List.map_map]
    simp [Function.comp_def]
  · rw [← String.toList_inj, htoList]
    exact slugChars_eq_self_iff
  · rw [← String.toList_inj, htoList]
    change (String.ofList (slugChars p.slug.toList)).toList = _
    rw [String.toList_ofList, htoList]
    exact slugChars_eq_self_iff.mpr hslug

example : (⟨"-- Bad (Low  Bits)! é", ""⟩ : Preset).slug = "bad-low-bits" := by decide +kernel

end OrbitImage.Preset

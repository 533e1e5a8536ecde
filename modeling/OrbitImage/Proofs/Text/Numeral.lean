import Mathlib.Data.List.Induction
import OrbitImage.Proofs.Text.Runs
import OrbitImage.Text.Numeral
/-!
Characters and numerals. What holds of the first 128 characters is checked one by one; the letter
case of a digit does not matter; and the digits of a number have its value.
-/
namespace OrbitImage.Text

/-! ### Characters -/

/-- A property of the first 128 characters. -/
theorem ascii_cases {P : Char → Prop} (h : ∀ n < 128, P (Char.ofNat n)) {c : Char}
    (hc : c.toNat < 128) : P c := by
  simpa only [Char.ofNat_toNat] using h c.toNat hc

-- There are finitely many characters: left to itself, `decide` would go through them all.
theorem forall_mem_of_all {P : Char → Prop} [DecidablePred P] {cs : List Char}
    (h : cs.all fun c => decide (P c)) : ∀ c ∈ cs, P c :=
  fun c hc => of_decide_eq_true (List.all_eq_true.mp h c hc)

theorem toNat_lt_of_le {c d : Char} (h : c ≤ d) (hd : d.toNat < 128) : c.toNat < 128 :=
  Nat.lt_of_le_of_lt (UInt32.le_iff_toNat_le.mp h) hd

theorem lt_of_isHexDigit {c : Char} (h : isHexDigit c) : c.toNat < 128 := by
  simp only [isHexDigit, isHexLetter, Char.isDigit, Bool.or_eq_true, Bool.and_eq_true,
    decide_eq_true_eq] at h
  obtain ⟨-, hdigit⟩ | ⟨-, hlower⟩ | ⟨-, hupper⟩ := h
  · exact toNat_lt_of_le (d := '9') hdigit (by decide)
  · exact toNat_lt_of_le hlower (by decide)
  · exact toNat_lt_of_le hupper (by decide)

theorem toUpper_of_not_ascii {c : Char} (h : ¬c.toNat < 128) : c.toUpper = c := by
  refine dif_neg fun hc => h ?_
  exact Nat.lt_of_le_of_lt (UInt32.le_iff_toNat_le.mp hc.2) (by decide)

theorem toLower_of_not_ascii {c : Char} (h : ¬c.toNat < 128) : c.toLower = c := by
  refine dif_neg fun hc => h ?_
  exact Nat.lt_of_le_of_lt (UInt32.le_iff_toNat_le.mp hc.2) (by decide)

/-- A character is its upper case or the lower case of it. -/
theorem eq_or_eq_toLower_toUpper (c : Char) : c = c.toUpper ∨ c = c.toUpper.toLower := by
  by_cases h : c.toNat < 128
  · exact ascii_cases (P := fun c => c = c.toUpper ∨ c = c.toUpper.toLower) (by decide) h
  · exact .inl (toUpper_of_not_ascii h).symm

/-- Characters without letter case are their own upper case only. -/
theorem eq_of_map_toUpper {cs ds : List Char} (h : cs.map Char.toUpper = ds)
    (hd : ∀ d ∈ ds, d.toLower = d) : cs = ds := by
  subst h
  induction cs with
  | nil => rfl
  | cons c cs ih =>
      obtain ⟨hc, hcs⟩ := List.forall_mem_cons.mp hd
      have same : c = c.toUpper := by
        rcases eq_or_eq_toLower_toUpper c with h | h
        · exact h
        · rwa [hc] at h
      rw [List.map_cons, ← same, ← ih hcs]

/-- What is checked of the first 128 characters and their lower case, and holds of a character and
itself, holds of all. -/
theorem toLower_cases {P : Char → Char → Prop} (hself : ∀ c, P c c)
    (h : ∀ n < 128, P (Char.ofNat n) (Char.ofNat n).toLower) (c : Char) : P c c.toLower := by
  by_cases hc : c.toNat < 128
  · exact ascii_cases (P := fun c => P c c.toLower) h hc
  · rw [toLower_of_not_ascii hc]
    exact hself c

theorem isHexDigit_of_toLower {c : Char} : isHexDigit c.toLower → isHexDigit c :=
  toLower_cases (P := fun c d => isHexDigit d → isHexDigit c) (fun _ => id) (by decide) c

theorem isHexLetter_of_toLower {c : Char} : isHexLetter c.toLower → isHexLetter c :=
  toLower_cases (P := fun c d => isHexLetter d → isHexLetter c) (fun _ => id) (by decide) c

theorem digitValue_toLower {c : Char} (h : isHexDigit c) : digitValue c.toLower = digitValue c :=
  ascii_cases (P := fun c => isHexDigit c → digitValue c.toLower = digitValue c) (by decide)
    (lt_of_isHexDigit h) h

/-! ### Numerals -/

theorem valueIn_append (base : Nat) (cs ds : List Char) :
    valueIn base (cs ++ ds) = ds.foldl (fun n c => n * base + digitValue c) (valueIn base cs) := by
  rw [valueIn, List.foldl_append]
  rfl

theorem valueIn_zeros (base zeros : Nat) : valueIn base (List.replicate zeros '0') = 0 := by
  induction zeros with
  | zero => rfl
  | succ zeros ih =>
      rw [List.replicate_succ', valueIn_append, ih]
      simp [digitValue]

theorem valueIn_zeros_append (base zeros : Nat) (ds : List Char) :
    valueIn base (List.replicate zeros '0' ++ ds) = valueIn base ds := by
  rw [valueIn_append, valueIn_zeros]
  rfl

theorem digitValue_digitChar {d : Nat} (h : d < 16) : digitValue d.digitChar = d := by
  have digits : ∀ d < 16, digitValue d.digitChar = d := by decide
  exact digits d h

theorem valueIn_toDigits {base : Nat} (h1 : 1 < base) (h16 : base ≤ 16) (n : Nat) :
    valueIn base (Nat.toDigits base n) = n := by
  induction n using Nat.base_induction base h1 with
  | single m hm =>
      rw [Nat.toDigits_of_lt_base hm, ← digitValue_digitChar (Nat.lt_of_lt_of_le hm h16)]
      simp [valueIn, digitValue_digitChar (Nat.lt_of_lt_of_le hm h16)]
  | digit m k hk hm ih =>
      rw [← Nat.toDigits_append_toDigits h1 hm hk, valueIn_append, ih, Nat.toDigits_of_lt_base hk]
      simp [digitValue_digitChar (Nat.lt_of_lt_of_le hk h16), Nat.mul_comm]

/-- A numeral ends where its digits end. -/
theorem toDigits_append_inj {m n : Nat} {cs ds : List Char}
    (hcs : ∀ c ∈ cs.head?, c.isDigit = false) (hds : ∀ c ∈ ds.head?, c.isDigit = false)
    (h : Nat.toDigits 10 m ++ cs = Nat.toDigits 10 n ++ ds) : m = n ∧ cs = ds := by
  have hdigit (n : Nat) : ∀ c ∈ Nat.toDigits 10 n, c.isDigit :=
    fun c => Nat.isDigit_of_mem_toDigits (by decide) (by decide)
  obtain ⟨hdigits, hrest⟩ := run_append_inj (hdigit m) (hdigit n) hcs hds h
  refine ⟨?_, hrest⟩
  calc m = valueIn 10 (Nat.toDigits 10 m) := (valueIn_toDigits (by decide) (by decide) m).symm
    _ = valueIn 10 (Nat.toDigits 10 n) := by rw [hdigits]
    _ = n := valueIn_toDigits (by decide) (by decide) n

theorem valueIn_map_toLower {base : Nat} {ds : List Char} (h : ∀ c ∈ ds, isHexDigit c) :
    valueIn base (ds.map Char.toLower) = valueIn base ds := by
  have from_value : ∀ n, (ds.map Char.toLower).foldl (fun n c => n * base + digitValue c) n =
      ds.foldl (fun n c => n * base + digitValue c) n := by
    induction ds with
    | nil => exact fun n => rfl
    | cons c ds ih =>
        obtain ⟨hc, h⟩ := List.forall_mem_cons.mp h
        intro n
        rw [List.map_cons, List.foldl_cons, List.foldl_cons, digitValue_toLower hc]
        exact ih h _
  exact from_value 0

theorem isHexDigit_of_mem_toDigits {n : Nat} {c : Char} (h : c ∈ Nat.toDigits 16 n) :
    isHexDigit c := by
  have digits : ∀ d < 16, isHexDigit d.digitChar := by decide
  induction n using Nat.base_induction 16 (by decide) with
  | single m hm =>
      rw [Nat.toDigits_of_lt_base hm, List.mem_singleton] at h
      exact h ▸ digits m hm
  | digit m k hk hm ih =>
      rw [← Nat.toDigits_append_toDigits (by decide) hm hk, Nat.toDigits_of_lt_base hk] at h
      rcases List.mem_append.mp h with h | h
      · exact ih h
      · exact List.mem_singleton.mp h ▸ digits k hk

/-- A row of digits is the numeral of its value behind some zeros. -/
theorem exists_zeros_append_toDigits {base : Nat} (h1 : 1 < base) (h16 : base ≤ 16)
    {ds : List Char} (hne : ds ≠ []) (hds : ∀ d ∈ ds, ∃ k < base, d = k.digitChar) :
    ∃ zeros, ds = List.replicate zeros '0' ++ Nat.toDigits base (valueIn base ds) := by
  induction ds using List.reverseRecOn with
  | nil => exact absurd rfl hne
  | append_singleton ds d ih =>
      obtain ⟨k, hk, rfl⟩ := hds d (by simp)
      have hvalue : valueIn base (ds ++ [k.digitChar]) = valueIn base ds * base + k := by
        rw [valueIn_append]
        simp [digitValue_digitChar (Nat.lt_of_lt_of_le hk h16)]
      rw [hvalue]
      rcases List.eq_nil_or_concat ds with rfl | ⟨_, _, hconcat⟩
      · refine ⟨0, ?_⟩
        rw [show valueIn base [] = 0 from rfl, Nat.zero_mul, Nat.zero_add,
          Nat.toDigits_of_lt_base hk]
        rfl
      · obtain ⟨zeros, hzeros⟩ := ih (by simp [hconcat]) fun d hd => hds d (by simp [hd])
        rcases Nat.eq_zero_or_pos (valueIn base ds) with h0 | hpos
        · -- A row of zeros: they all stand in front of the last digit.
          refine ⟨zeros + 1, ?_⟩
          rw [h0, Nat.toDigits_of_lt_base (Nat.lt_trans Nat.zero_lt_one h1)] at hzeros
          rw [h0, Nat.zero_mul, Nat.zero_add, Nat.toDigits_of_lt_base hk, List.replicate_succ',
            hzeros]
          rfl
        · refine ⟨zeros, ?_⟩
          rw [Nat.mul_comm, ← Nat.toDigits_append_toDigits h1 hpos hk, ← List.append_assoc,
            ← hzeros, Nat.toDigits_of_lt_base hk]

end OrbitImage.Text

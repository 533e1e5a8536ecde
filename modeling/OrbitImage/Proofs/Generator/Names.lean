import OrbitImage.Command.Split
import OrbitImage.Proofs.Equation.Composition
import OrbitImage.Proofs.Equation.Letters
import OrbitImage.Proofs.Session.Panel
/-!
Names of built-in generators and equations. A text is a name or an equation and never both, in any
letter case and with any blanks around it: each name has a letter that no equation has, or a letter
a to f without the 0 that starts a literal. So it does not matter that a source of a panel is looked
up among the names first.
-/
namespace OrbitImage
open Text

/-! ### Blanks and letter case -/

namespace Text

theorem filter_dropWhile_isBlank (cs : List Char) :
    (cs.dropWhile isBlank).filter (!isBlank ·) = cs.filter (!isBlank ·) := by
  have hblank : (cs.takeWhile isBlank).filter (!isBlank ·) = [] :=
    List.filter_eq_nil_iff.mpr fun c hc => by simp [List.mem_takeWhile_imp hc]
  conv_rhs => rw [← List.takeWhile_append_dropWhile (p := isBlank) (l := cs)]
  rw [List.filter_append, hblank, List.nil_append]

theorem strip_trim (s : String) : strip (trim s) = strip s := by
  rw [strip, trim, String.toList_ofList, trimChars, List.filter_reverse, filter_dropWhile_isBlank,
    List.filter_reverse, List.reverse_reverse, filter_dropWhile_isBlank, strip]

theorem mem_lowerChar {c d : Char} (h : d ∈ lowerChar c) :
    c = '\u212A' ∧ d = 'k' ∨ c = '\u0130' ∧ (d = 'i' ∨ d = '\u0307') ∨ d = c.toLower := by
  unfold lowerChar at h
  split at h
  case isTrue hc => exact .inl ⟨hc, List.mem_singleton.mp h⟩
  case isFalse =>
    split at h
    case isTrue hc => exact .inr (.inl ⟨hc, by simpa using h⟩)
    case isFalse => exact .inr (.inr (List.mem_singleton.mp h))

theorem isBlank_toLower (c : Char) : isBlank c.toLower = isBlank c :=
  toLower_cases (P := fun c d => isBlank d = isBlank c) (fun _ => rfl) (by decide) c

theorem isBlank_of_mem_lowerChar {c d : Char} (h : d ∈ lowerChar c) : isBlank d = isBlank c := by
  obtain ⟨rfl, rfl⟩ | ⟨rfl, rfl | rfl⟩ | rfl := mem_lowerChar h
  · decide
  · decide
  · decide
  · exact isBlank_toLower c

theorem strip_lower (s : String) : strip (lower s) = (strip s).flatMap lowerChar := by
  rw [strip, lower, String.toList_ofList, strip]
  induction s.toList with
  | nil => rfl
  | cons c cs ih =>
      rw [List.flatMap_cons, List.filter_append, ih, List.filter_cons]
      cases hc : isBlank c with
      | true =>
          have hnone : (lowerChar c).filter (!isBlank ·) = [] :=
            List.filter_eq_nil_iff.mpr fun d hd => by simp [isBlank_of_mem_lowerChar hd, hc]
          simp [hnone]
      | false =>
          have hall : (lowerChar c).filter (!isBlank ·) = lowerChar c :=
            List.filter_eq_self.mpr fun d hd => by simp [isBlank_of_mem_lowerChar hd, hc]
          simp [hall]

end Text

/-! ### Texts that are no equations -/

namespace Token

/-- Something in a text is found in no equation: a character, or a letter a to f without the 0 of a
literal. -/
def Foreign (cs : List Char) : Prop :=
  (∃ c ∈ cs, ¬IsWritten c) ∨ (∃ c ∈ cs, isHexLetter c) ∧ '0' ∉ cs

-- The instances for lists are named: there are others that go through all characters there are.
instance (cs : List Char) : Decidable (Foreign cs) :=
  have : Decidable (∃ c ∈ cs, ¬IsWritten c) := List.decidableBEx _ cs
  have : Decidable (∃ c ∈ cs, isHexLetter c) := List.decidableBEx _ cs
  inferInstanceAs (Decidable (_ ∨ _))

theorem Foreign.not_reads {cs : List Char} (h : Foreign cs) (ts : List Token) : ¬Reads cs ts := by
  intro hreads
  rcases h with ⟨c, hc, hforeign⟩ | ⟨⟨c, hc, hletter⟩, hzero⟩
  · exact hforeign (isWritten_of_disallowed hreads.characters c hc)
  · obtain ⟨u, w, rfl⟩ := List.append_of_mem hc
    obtain ⟨v, ds, rfl, -⟩ := prefixed_of_withoutHex hreads.letters u c w rfl hletter
    exact hzero (by simp)

theorem isWritten_of_mem_lowerChar {c d : Char} (hc : IsWritten c) (hd : d ∈ lowerChar c) :
    IsWritten d := by
  have hascii := lt_of_isWritten hc
  obtain ⟨rfl, -⟩ | ⟨rfl, -⟩ | rfl := mem_lowerChar hd
  · exact absurd hascii (by decide)
  · exact absurd hascii (by decide)
  · exact ascii_cases (P := fun c => IsWritten c → IsWritten c.toLower) (by decide) hascii hc

theorem isHexLetter_of_mem_lowerChar {c d : Char} (hd : d ∈ lowerChar c) (h : isHexLetter d) :
    isHexLetter c := by
  obtain ⟨-, rfl⟩ | ⟨-, rfl | rfl⟩ | rfl := mem_lowerChar hd
  · cases h
  · cases h
  · cases h
  · exact isHexLetter_of_toLower h

/-- No text becomes foreign by its letter case alone. -/
theorem Foreign.of_lower {cs : List Char} (h : Foreign (cs.flatMap lowerChar)) : Foreign cs := by
  rcases h with ⟨d, hd, hforeign⟩ | ⟨⟨d, hd, hletter⟩, hzero⟩
  · obtain ⟨c, hc, hdc⟩ := List.mem_flatMap.mp hd
    exact .inl ⟨c, hc, fun hwritten => hforeign (isWritten_of_mem_lowerChar hwritten hdc)⟩
  · obtain ⟨c, hc, hdc⟩ := List.mem_flatMap.mp hd
    refine .inr ⟨⟨c, hc, isHexLetter_of_mem_lowerChar hdc hletter⟩, fun hmem => hzero ?_⟩
    exact List.mem_flatMap.mpr ⟨'0', hmem, by decide⟩

end Token

/-! ### Names -/

namespace BuiltIn

/-- The names of a generator in lower case: its id, and longer ones. -/
def names : BuiltIn → List String
  | lcg => ["lcg"]
  | xorshift32 => ["xorshift32", "xorshift"]
  | splitMix => ["splitmix"]
  | plusFour => ["bad1", "bad-plus-four"]
  | timesTwo => ["bad2", "bad-times-two"]

theorem find?_eq_some_iff {s : String} {b : BuiltIn} :
    find? s = some b ↔ Text.lower (Text.trim s) ∈ b.names := by
  constructor
  · intro h
    unfold find? at h
    split at h <;> cases h <;> simp [names, *]
  · intro h
    unfold find?
    generalize Text.lower (Text.trim s) = name at h ⊢
    revert name
    cases b <;> decide

theorem names_foreign (b : BuiltIn) : ∀ name ∈ b.names, Token.Foreign (strip name) := by
  cases b <;> decide

end BuiltIn

theorem Program.compile_ne_ok_of_find? {s : String} {b : BuiltIn} (h : BuiltIn.find? s = some b)
    (program : Program) : compile s ≠ .ok program := by
  intro hcompile
  obtain ⟨ts, hreading, -⟩ := exists_reading hcompile
  have hforeign := b.names_foreign _ (BuiltIn.find?_eq_some_iff.mp h)
  rw [strip_lower, strip_trim] at hforeign
  exact hforeign.of_lower.not_reads ts hreading.reads

namespace Panel

theorem withSource_of_compile {s : String} {program : Program}
    (h : Program.compile s = .ok program) (p : Panel) :
    p.withSource s = { p with equation := s, builtInName := "" } := by
  unfold withSource
  cases hfind : BuiltIn.find? s with
  | none => rfl
  | some b => exact absurd h (Program.compile_ne_ok_of_find? hfind program)

/-- A source is never ambiguous. It is recognised as a name of a built-in generator if it is one in
lower case and without the blanks around it, and then it is no equation; so every equation that
compiles is taken for one, and the panel generates with its program. -/
theorem source_unambiguous (s : String) :
    (∀ b, BuiltIn.find? s = some b ↔ Text.lower (Text.trim s) ∈ b.names) ∧
    (∀ b, BuiltIn.find? s = some b → ∃ fault, Program.compile s = .error fault) ∧
    ∀ program, Program.compile s = .ok program → ∀ p : Panel,
      p.withSource s = { p with equation := s, builtInName := "" } ∧
      (p.bitPlane ≤ 31 → ∃ r, (p.withSource s).toRequest = .ok r ∧
        r.generator = .ok (.custom program)) := by
  refine ⟨fun b => BuiltIn.find?_eq_some_iff, fun b hb => ?_, fun program hprogram p => ?_⟩
  · cases hcompile : Program.compile s with
    | ok program => exact absurd hcompile (Program.compile_ne_ok_of_find? hb program)
    | error fault => exact ⟨fault, rfl⟩
  · have hsource := withSource_of_compile hprogram p
    refine ⟨hsource, fun hbit => ?_⟩
    rw [hsource]
    refine ⟨_, toRequest_eq_ok_iff.mpr ⟨hbit, .inl ⟨rfl, rfl⟩⟩, ?_⟩
    exact Request.generator_eq_ok_iff.mpr ⟨hbit, program, hprogram, rfl⟩

/-- A name between wide blanks, and an equation that has the same letters in a literal. -/
theorem source_unambiguous_bad :
    BuiltIn.find? "\u2003BAd1\u3000\n" = some .plusFour ∧
    (∃ fault, Program.compile "\u2003BAd1\u3000\n" = .error fault) ∧
    ∃ program, Program.compile " x^0xBAd1 " = .ok program ∧
      ∃ r, (Panel.withSource { builtInName := "lcg" } " x^0xBAd1 ").toRequest = .ok r ∧
        r.generator = .ok (.custom program) := by
  have hname : BuiltIn.find? "\u2003BAd1\u3000\n" = some .plusFour := by decide +kernel
  have hcompile : ∃ program, Program.compile " x^0xBAd1 " = .ok program :=
    ⟨Program.ofExpr (.binary .xor .x (.number 0xBAD1)) (by decide), Program.compile_eq_ok_iff.mpr
      ⟨by decide, _, (by decide +kernel : Token.scan " x^0xBAd1 " = .ok
        [.x, .operator (.binary .xor), .number 0xBAD1]), rfl⟩⟩
  obtain ⟨program, hprogram⟩ := hcompile
  obtain ⟨-, hnone, -⟩ := source_unambiguous "\u2003BAd1\u3000\n"
  obtain ⟨-, -, htaken⟩ := source_unambiguous " x^0xBAd1 "
  obtain ⟨-, hgenerates⟩ := htaken program hprogram { builtInName := "lcg" }
  exact ⟨hname, hnone _ hname, program, hprogram, hgenerates (by decide)⟩

end Panel

end OrbitImage

import OrbitImage.Proofs.Equation.Evaluation
import OrbitImage.Proofs.Image.Density
import OrbitImage.Proofs.Image.Pixel
/-!
Expressions whose low bits depend on low bits only: what their operators do to a bit shows in that
bit and above it. The density map of such a program has at most one pixel in a column that is not
black, as the side is a power of two and the column decides the row.
-/
namespace OrbitImage

/-! ### Operators -/

/-- The words have the same low bits. -/
def AgreeBelow (m : Nat) (a b : UInt32) : Prop :=
  a.toNat ≡ b.toNat [MOD 2 ^ m]

theorem mod_word_modEq {m : Nat} (hm : m ≤ 32) (n : Nat) : n % 2 ^ 32 ≡ n [MOD 2 ^ m] :=
  (Nat.mod_modEq n (2 ^ 32)).of_dvd (Nat.pow_dvd_pow 2 hm)

namespace AgreeBelow

variable {m : Nat} {a a' b b' : UInt32}

theorem add (hm : m ≤ 32) (ha : AgreeBelow m a a') (hb : AgreeBelow m b b') :
    AgreeBelow m (a + b) (a' + b') := by
  rw [AgreeBelow, UInt32.toNat_add, UInt32.toNat_add]
  exact ((mod_word_modEq hm _).trans (Nat.ModEq.add ha hb)).trans (mod_word_modEq hm _).symm

theorem mul (hm : m ≤ 32) (ha : AgreeBelow m a a') (hb : AgreeBelow m b b') :
    AgreeBelow m (a * b) (a' * b') := by
  rw [AgreeBelow, UInt32.toNat_mul, UInt32.toNat_mul]
  exact ((mod_word_modEq hm _).trans (Nat.ModEq.mul ha hb)).trans (mod_word_modEq hm _).symm

theorem of_add (hm : m ≤ 32) (hb : AgreeBelow m b b') (h : AgreeBelow m (a + b) (a' + b')) :
    AgreeBelow m a a' := by
  rw [AgreeBelow, UInt32.toNat_add, UInt32.toNat_add] at h
  exact Nat.ModEq.add_right_cancel hb
    (((mod_word_modEq hm _).symm.trans h).trans (mod_word_modEq hm _))

/-- A difference is what is added to make up the sum. -/
theorem sub (hm : m ≤ 32) (ha : AgreeBelow m a a') (hb : AgreeBelow m b b') :
    AgreeBelow m (a - b) (a' - b') := by
  apply of_add hm hb
  rwa [UInt32.sub_add_cancel, UInt32.sub_add_cancel]

theorem complement (hm : m ≤ 32) (ha : AgreeBelow m a a') : AgreeBelow m (~~~a) (~~~a') := by
  have hall (c : UInt32) : ~~~c + c = 0xffffffff := by
    apply UInt32.toNat_inj.mp
    have hc := c.toNat_lt
    rw [UInt32.toNat_add, UInt32.toNat_not, UInt32.size, Nat.sub_add_cancel (by omega)]
    rfl
  apply of_add hm ha
  rw [hall, hall]
  exact Nat.ModEq.rfl

theorem and (ha : AgreeBelow m a a') (hb : AgreeBelow m b b') :
    AgreeBelow m (a &&& b) (a' &&& b') := by
  rw [AgreeBelow, Nat.ModEq] at *
  rw [UInt32.toNat_and, UInt32.toNat_and, Nat.and_mod_two_pow, Nat.and_mod_two_pow, ha, hb]

theorem or (ha : AgreeBelow m a a') (hb : AgreeBelow m b b') :
    AgreeBelow m (a ||| b) (a' ||| b') := by
  rw [AgreeBelow, Nat.ModEq] at *
  rw [UInt32.toNat_or, UInt32.toNat_or, Nat.or_mod_two_pow, Nat.or_mod_two_pow, ha, hb]

theorem xor (ha : AgreeBelow m a a') (hb : AgreeBelow m b b') :
    AgreeBelow m (a ^^^ b) (a' ^^^ b') := by
  rw [AgreeBelow, Nat.ModEq] at *
  rw [UInt32.toNat_xor, UInt32.toNat_xor, Nat.xor_mod_two_pow, Nat.xor_mod_two_pow, ha, hb]

theorem shiftLeft (hm : m ≤ 32) (ha : AgreeBelow m a a') (n : UInt32) :
    AgreeBelow m (a <<< n) (a' <<< n) := by
  rw [AgreeBelow, UInt32.toNat_shiftLeft, UInt32.toNat_shiftLeft, Nat.shiftLeft_eq,
    Nat.shiftLeft_eq]
  exact ((mod_word_modEq hm _).trans (Nat.ModEq.mul_right _ ha)).trans (mod_word_modEq hm _).symm

end AgreeBelow

/-- The operators of two operands that carry upwards, whatever the operands are. -/
def BinaryOp.carrying : List BinaryOp :=
  [.add, .sub, .mul, .and, .or, .xor]

theorem BinaryOp.apply_agree {op : BinaryOp} (hop : op ∈ carrying) {m : Nat} (hm : m ≤ 32)
    {a a' b b' : UInt32} (ha : AgreeBelow m a a') (hb : AgreeBelow m b b') :
    AgreeBelow m (op.apply a b) (op.apply a' b') := by
  simp only [carrying, List.mem_cons, List.not_mem_nil, or_false] at hop
  rcases hop with rfl | rfl | rfl | rfl | rfl | rfl
  · exact ha.add hm hb
  · exact ha.sub hm hb
  · exact ha.mul hm hb
  · exact ha.and hb
  · exact ha.or hb
  · exact ha.xor hb

/-! ### Expressions -/

/-- Expressions of operators that carry upwards; a shift to the left does so by a literal amount. -/
inductive Expr.Carries : Expr → Prop
  | number (n : UInt32) : Carries (.number n)
  | x : Carries .x
  | complement {e : Expr} : Carries e → Carries (.complement e)
  | binary {op : BinaryOp} {l r : Expr} : op ∈ BinaryOp.carrying → Carries l → Carries r →
      Carries (.binary op l r)
  | shift {e : Expr} (n : UInt32) : Carries e → Carries (.binary .shl e (.number n))

theorem Expr.Carries.value_agree {e : Expr} (he : e.Carries) {m : Nat} (hm : m ≤ 32)
    {x y : UInt32} (hxy : AgreeBelow m x y) : AgreeBelow m (e.value x) (e.value y) := by
  induction he with
  | number n => exact Nat.ModEq.rfl
  | x => exact hxy
  | complement _ ih => exact ih.complement hm
  | binary hop _ _ ihl ihr => exact BinaryOp.apply_agree hop hm ihl ihr
  | shift n _ ih => exact ih.shiftLeft hm n

theorem Program.eval_agree {p : Program} {e : Expr} (hp : e.postorder = p.tokens) (he : e.Carries)
    {m : Nat} (hm : m ≤ 32) {x y : UInt32} (hxy : AgreeBelow m x y) :
    AgreeBelow m (p.eval x) (p.eval y) := by
  obtain ⟨f, hf, hfits⟩ := Token.exists_postorder p.single
  obtain rfl := Expr.postorder_injective (hp.trans hf.symm)
  rw [eval_of_postorder hp hfits, eval_of_postorder hp hfits]
  exact he.value_agree hm hxy

/-! ### Columns -/

theorem Resolution.exists_side_eq (r : Resolution) : ∃ m ≤ 32, r.side.toNat = 2 ^ m := by
  cases r with
  | r256 => exact ⟨8, by decide, rfl⟩
  | r512 => exact ⟨9, by decide, rfl⟩
  | r1024 => exact ⟨10, by decide, rfl⟩

/-- The pixel in a column and a row. -/
def Image.pixelAt (image : Image) (col row : Nat) : Pixel :=
  Pixel.read image.pixels (row * image.side.toNat + col)

def Pixel.black : Pixel :=
  ⟨0, 0, 0, 255⟩

namespace Request

/-- The hits of a column are in one row, if the column of a value decides that of the next. -/
theorem row_eq_of_hits {r : Request} {g : Generator}
    (hg : ∀ x y : UInt32, x.toNat % r.resolution.side.toNat = y.toNat % r.resolution.side.toNat →
      (g.step x).toNat % r.resolution.side.toNat = (g.step y).toNat % r.resolution.side.toNat)
    {px py : Nat} (hpx : px < r.resolution.side.toNat) (h : r.hits g px py ≠ 0) :
    py = (g.step px.toUInt32).toNat % r.resolution.side.toNat := by
  obtain ⟨i, -, hi⟩ := List.countP_pos_iff.mp (Nat.pos_of_ne_zero h)
  obtain ⟨hcol, hrow⟩ := of_decide_eq_true hi
  have hword : px.toUInt32.toNat = px :=
    UInt32.toNat_ofNat_of_lt' (Nat.lt_trans hpx r.resolution.side.toNat_lt)
  rw [← hrow]
  apply hg
  rw [hcol, hword, Nat.mod_eq_of_lt hpx]

theorem pixelAt_of_no_hits (r : Request) (g : Generator) {px py : Nat}
    (hpx : px < r.resolution.side.toNat) (hpy : py < r.resolution.side.toNat)
    (hnone : r.hits g px py = 0) : (r.densityMap g).pixelAt px py = Pixel.black := by
  obtain ⟨word, hword, hhits⟩ := Density.exists_counter g r.seed r.resolution.pixels_lt hpx hpy
  have hlevel : (r.densityLevels g)[py * r.resolution.side.toNat + px]? = some 0 := by
    rw [densityLevels, List.getElem?_map, Array.getElem?_toList, ← PairScale.gray_of_no_hits
      r.pairScale (hhits.trans hnone) (r.density g).most]
    exact congrArg _ hword
  apply Pixel.read_eq_of_byteAt?
  intro c hc
  have hdiv : (4 * (py * r.resolution.side.toNat + px) + c) / 4 =
      py * r.resolution.side.toNat + px := by omega
  have hmod : (4 * (py * r.resolution.side.toNat + px) + c) % 4 = c := by omega
  rw [show (r.densityMap g).side = r.resolution.side from rfl, pixels_densityMap,
    byteAt?_foldl_putGray, hdiv, hmod, hlevel]
  obtain rfl | rfl | rfl | rfl : c = 0 ∨ c = 1 ∨ c = 2 ∨ c = 3 := by omega
  all_goals rfl

end Request

/-- A program whose operators carry upwards keeps the agreement of low bits. So only one pixel of a
column can be other than black: the one in the row that the column is taken to. -/
theorem Program.carrying_columns (p : Program) (e : Expr) (hp : e.postorder = p.tokens)
    (he : e.Carries) :
    (∀ m ≤ 32, ∀ x y : UInt32, x.toNat ≡ y.toNat [MOD 2 ^ m] →
      (p.eval x).toNat ≡ (p.eval y).toNat [MOD 2 ^ m]) ∧
    ∀ r : Request, r.mode = .pair →
      ∀ px < r.resolution.side.toNat, ∀ py < r.resolution.side.toNat,
        (r.synthesize (.custom p)).pixelAt px py ≠ Pixel.black →
        py = (p.eval px.toUInt32).toNat % r.resolution.side.toNat := by
  refine ⟨fun m hm x y => eval_agree hp he hm, fun r hmode px hpx py hpy hlit => ?_⟩
  have himage : r.synthesize (.custom p) = r.densityMap (.custom p) := by
    simp only [Request.synthesize, hmode]
  obtain ⟨m, hm, hside⟩ := r.resolution.exists_side_eq
  have hstep (x y : UInt32) (hxy : x.toNat % r.resolution.side.toNat =
      y.toNat % r.resolution.side.toNat) : (p.eval x).toNat % r.resolution.side.toNat =
      (p.eval y).toNat % r.resolution.side.toNat := by
    rw [hside] at hxy ⊢
    exact eval_agree hp he hm hxy
  have hhits : r.hits (.custom p) px py ≠ 0 := by
    intro hnone
    rw [himage] at hlit
    exact hlit (r.pixelAt_of_no_hits _ hpx hpy hnone)
  exact Request.row_eq_of_hits hstep hpx hhits

/-- Values that agree in the low byte only, and the column that they share. -/
theorem Program.carrying_columns_byte :
    let e : Expr := .binary .sub (.binary .shl (.complement .x) (.number 35)) (.binary .mul .x .x)
    ∃ p : Program, e.postorder = p.tokens ∧
      (p.eval 0x105).toNat ≡ (p.eval 5).toNat [MOD 2 ^ 8] ∧
      ∀ py < 256, py ≠ 183 →
        (({ mode := .pair } : Request).synthesize (.custom p)).pixelAt 5 py = Pixel.black := by
  intro e
  have he : e.Carries :=
    .binary (by decide) (.shift 35 (.complement .x)) (.binary (by decide) .x .x)
  let p := ofExpr e (by decide)
  obtain ⟨hlow, hcolumn⟩ := carrying_columns p e rfl he
  refine ⟨p, rfl, hlow 8 (by decide) 0x105 5 (by decide), fun py hpy hrow => ?_⟩
  by_contra hlit
  have hvalue : (p.eval 5).toNat % 256 = 183 := by decide +kernel
  exact hrow ((hcolumn { mode := .pair } rfl 5 (by decide) py hpy hlit).trans hvalue)

end OrbitImage

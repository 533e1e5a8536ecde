import OrbitImage.Image.Painting
import OrbitImage.Proofs.Image.Gray
/-!
Both ways of painting, reduced to the steps of the generator: a step is a value with the one before
it, and the buffer, the counts and the range are each one fold over what the steps yield. Where the
levels are kept or painted at once makes no difference to any of the folds.
-/
namespace OrbitImage

/-! ### Steps -/

namespace Generator

/-- The first steps from a seed on, each a value and the next. -/
def steps (g : Generator) (seed : UInt32) (count : Nat) : List (UInt32 × UInt32) :=
  (List.range count).map fun k => (g.orbit seed k, g.orbit seed (k + 1))

@[simp] theorem length_steps (g : Generator) (seed : UInt32) (count : Nat) :
    (g.steps seed count).length = count := by
  simp [steps]

/-- The orbit from the value after the seed is the orbit without the seed. -/
theorem orbit_step (g : Generator) (seed : UInt32) (k : Nat) :
    g.orbit (g.step seed) k = g.orbit seed (k + 1) := by
  induction k with
  | zero => rfl
  | succ k ih => exact congrArg g.step ih

@[simp] theorem steps_zero (g : Generator) (seed : UInt32) : g.steps seed 0 = [] := rfl

theorem steps_succ (g : Generator) (seed : UInt32) (count : Nat) :
    g.steps seed (count + 1) = (seed, g.step seed) :: g.steps (g.step seed) count := by
  simp only [steps, List.range_succ_eq_map, List.map_cons, List.map_map]
  congr 1
  apply List.map_congr_left
  intro k _
  simp only [Function.comp_apply, orbit_step]

theorem values_steps (g : Generator) (seed : UInt32) (count : Nat) :
    (g.steps seed count).map Prod.snd = (List.range' 1 count).map (g.orbit seed) := by
  rw [List.range'_eq_map_range, steps, List.map_map, List.map_map]
  apply List.map_congr_left
  intro k _
  simp only [Function.comp_apply, Nat.add_comm 1 k]

theorem toList_extend (g : Generator) (count : Nat) (x : UInt32) (values : Array UInt32) :
    (g.extend count x values).toList = values.toList ++ (g.steps x count).map Prod.snd := by
  induction count generalizing x values with
  | zero => simp [extend]
  | succ count ih =>
      rw [extend, ih, Array.toList_push, steps_succ, List.map_cons, List.append_assoc]
      rfl

theorem toList_sample (g : Generator) (seed : UInt32) (count : Nat) :
    (g.sample seed count).toList = (g.steps seed count).map Prod.snd := by
  rw [sample, toList_extend]
  rfl

end Generator

/-! ### Folds -/

theorem Canvas.paint_eq_foldl (g : Generator) (gray : UInt32 → UInt32 → UInt8) (count : Nat)
    (x : UInt32) (c : Canvas) :
    Canvas.paint g gray count x c =
      (g.steps x count).foldl (fun c p => c.add p.2 (gray p.1 p.2)) c := by
  induction count generalizing x c with
  | zero => rfl
  | succ count ih => rw [paint, ih, Generator.steps_succ, List.foldl_cons]

/-- A canvas takes its three parts along without mixing them. -/
theorem Canvas.foldl_add (gray : UInt32 → UInt32 → UInt8) (ps : List (UInt32 × UInt32))
    (c : Canvas) :
    ps.foldl (fun c p => c.add p.2 (gray p.1 p.2)) c =
      { pixels := (ps.map fun p => gray p.1 p.2).foldl putGray c.pixels
        bits := (ps.map Prod.snd).foldl BitCounter.add c.bits
        range := (ps.map fun p => gray p.1 p.2).foldl GrayRange.observe c.range } := by
  induction ps generalizing c with
  | nil => rfl
  | cons p ps ih => rw [List.foldl_cons, ih]; rfl

/-- Comparing each value with the one before gives back the level of each step. -/
theorem toList_foldl_levels (g : Generator) (gray : UInt32 → UInt32 → UInt8) (count : Nat)
    (seed : UInt32) (levels : Array UInt8) :
    (((g.steps seed count).map Prod.snd).foldl
        (fun (s : UInt32 × Array UInt8) x => (x, s.2.push (gray s.1 x)))
        (seed, levels)).2.toList =
      levels.toList ++ (g.steps seed count).map fun p => gray p.1 p.2 := by
  -- The fold carries the value before the next, which is where the steps that are left start.
  induction count generalizing seed levels with
  | zero => simp
  | succ count ih =>
      rw [Generator.steps_succ, List.map_cons, List.foldl_cons, ih, Array.toList_push,
        List.append_assoc]
      rfl

theorem toList_grayLevels_sample (g : Generator) (gray : UInt32 → UInt32 → UInt8) (seed : UInt32)
    (count : Nat) :
    (grayLevels gray seed (g.sample seed count)).toList =
      (g.steps seed count).map fun p => gray p.1 p.2 := by
  rw [grayLevels, ← Array.foldl_toList, Generator.toList_sample]
  exact toList_foldl_levels g gray count seed _

theorem toList_stretch (low high : UInt8) (grays : Array UInt8) :
    (stretch low high grays).toList =
      grays.toList.map fun gray => if low < high then stretchLevel low high gray else gray := by
  rw [stretch]
  split <;> simp

namespace Resolution

theorem pixels_pos (r : Resolution) : 0 < r.pixels := by
  cases r <;> decide

/-- All pixels can be counted in a word. -/
theorem pixels_lt (r : Resolution) : r.pixels < 2 ^ 32 := by
  cases r <;> decide

end Resolution

namespace Request

/-- The grey levels of all steps, before any stretch. -/
def levels (r : Request) (g : Generator) : List UInt8 :=
  (g.steps r.seed r.resolution.pixels).map fun p => r.mode.gray r.bitPlane p.1 p.2

/-- The image of grey levels, with the counts and the range of the levels before any stretch. -/
def imageOfLevels (r : Request) (g : Generator) (levels : List UInt8) : Image :=
  r.imageOf (levels.foldl putGray .empty)
    (((g.steps r.seed r.resolution.pixels).map Prod.snd).foldl BitCounter.add {})
    ((r.levels g).foldl GrayRange.observe {})

theorem length_levels (r : Request) (g : Generator) : (r.levels g).length = r.resolution.pixels := by
  rw [levels, List.length_map, Generator.length_steps]

theorem levels_ne_nil (r : Request) (g : Generator) : r.levels g ≠ [] := by
  apply List.ne_nil_of_length_pos
  rw [length_levels]
  exact r.resolution.pixels_pos

theorem singlePass_eq (r : Request) (g : Generator) :
    r.singlePass g = r.imageOfLevels g (r.levels g) := by
  rw [singlePass, Canvas.paint_eq_foldl, Canvas.foldl_add]
  rfl

theorem twoPass_eq (r : Request) (g : Generator) {low high : UInt8}
    (h : r.contrast.bounds ((r.levels g).foldl GrayRange.observe {}) = (low, high)) :
    r.twoPass g = r.imageOfLevels g ((r.levels g).map fun gray =>
      if low < high then stretchLevel low high gray else gray) := by
  have hlevels := toList_grayLevels_sample g (r.mode.gray r.bitPlane) r.seed r.resolution.pixels
  have hvalues := g.toList_sample r.seed r.resolution.pixels
  have hrange : GrayRange.ofArray
      (grayLevels (r.mode.gray r.bitPlane) r.seed (g.sample r.seed r.resolution.pixels)) =
      (r.levels g).foldl GrayRange.observe {} := by
    rw [GrayRange.ofArray, ← Array.foldl_toList, hlevels]
    rfl
  rw [twoPass, imageOfLevels, hrange, h]
  simp only [← Array.foldl_toList, toList_stretch, hlevels, hvalues]
  rfl

theorem synthesize_of_ne_pair {r : Request} (h : r.mode ≠ .pair) (g : Generator) :
    r.synthesize g = if r.contrast.enabled then r.twoPass g else r.singlePass g := by
  rw [synthesize]
  split
  · contradiction
  · rfl

theorem synthesize_plain {r : Request} (hmode : r.mode ≠ .pair) {off : Contrast}
    (hoff : off.enabled = false) (g : Generator) :
    { r with contrast := off }.synthesize g = r.imageOfLevels g (r.levels g) := by
  rw [synthesize_of_ne_pair (r := { r with contrast := off }) hmode, if_neg (by simp [hoff]),
    singlePass_eq]
  rfl

theorem synthesize_drawn {r : Request} (hmode : r.mode ≠ .pair) {on : Contrast}
    (hon : on.enabled = true) (g : Generator) {low high : UInt8}
    (h : on.bounds ((r.levels g).foldl GrayRange.observe {}) = (low, high)) :
    { r with contrast := on }.synthesize g = r.imageOfLevels g ((r.levels g).map fun gray =>
      if low < high then stretchLevel low high gray else gray) := by
  rw [synthesize_of_ne_pair (r := { r with contrast := on }) hmode, if_pos hon]
  exact twoPass_eq { r with contrast := on } g h

end Request

/-! ### Bytes -/

/-- The bytes of a pixel. -/
def pixel (gray : UInt8) : List UInt8 :=
  [gray, gray, gray, 255]

theorem toList_foldl_putGray (grays : List UInt8) (pixels : ByteArray) :
    (grays.foldl putGray pixels).data.toList = pixels.data.toList ++ grays.flatMap pixel := by
  induction grays generalizing pixels with
  | nil => simp
  | cons gray grays ih =>
      rw [List.foldl_cons, ih, List.flatMap_cons, ← List.append_assoc]
      congr 1
      simp only [putGray, pixel, ByteArray.data_push, Array.toList_push, List.append_assoc,
        List.cons_append, List.nil_append]

theorem byteAt?_eq (bytes : ByteArray) (i : Nat) : byteAt? bytes i = bytes.data.toList[i]? := by
  rw [byteAt?, Array.getElem?_toList, getElem?_def]
  rfl

theorem getElem?_flatMap_pixel (grays : List UInt8) (i : Nat) :
    (grays.flatMap pixel)[i]? =
      grays[i / 4]?.map fun gray => if i % 4 = 3 then 255 else gray := by
  induction grays generalizing i with
  | nil => simp
  | cons gray grays ih =>
      match i with
      | 0 | 1 | 2 | 3 => rfl
      | i + 4 =>
          have hdiv : (i + 4) / 4 = i / 4 + 1 := by omega
          have hmod : (i + 4) % 4 = i % 4 := by omega
          rw [hdiv, hmod, List.getElem?_cons_succ, ← ih i]
          rfl

/-- A byte of a painted buffer belongs to the pixel of its quarter, and each fourth is opaque. -/
theorem byteAt?_foldl_putGray (grays : List UInt8) (i : Nat) :
    byteAt? (grays.foldl putGray .empty) i =
      grays[i / 4]?.map fun gray => if i % 4 = 3 then 255 else gray := by
  rw [byteAt?_eq, toList_foldl_putGray, ← getElem?_flatMap_pixel]
  rfl

theorem exists_channels {grays : List UInt8} {p : Nat} (h : p < grays.length) :
    ∃ gray, byteAt? (grays.foldl putGray .empty) (4 * p) = some gray ∧
      byteAt? (grays.foldl putGray .empty) (4 * p + 1) = some gray ∧
      byteAt? (grays.foldl putGray .empty) (4 * p + 2) = some gray ∧
      byteAt? (grays.foldl putGray .empty) (4 * p + 3) = some 255 := by
  have hbyte (c : Nat) (hc : c < 4) : byteAt? (grays.foldl putGray .empty) (4 * p + c) =
      some (if c = 3 then 255 else grays[p]) := by
    have hdiv : (4 * p + c) / 4 = p := by omega
    have hmod : (4 * p + c) % 4 = c := by omega
    simp only [byteAt?_foldl_putGray, hdiv, hmod, List.getElem?_eq_getElem h, Option.map_some]
  exact ⟨_, hbyte 0 (by decide), hbyte 1 (by decide), hbyte 2 (by decide), hbyte 3 (by decide)⟩

theorem size_foldl_putGray (grays : List UInt8) :
    (grays.foldl putGray .empty).size = 4 * grays.length := by
  have hpixels : (grays.flatMap pixel).length = 4 * grays.length := by
    rw [List.length_flatMap, show (fun gray => (pixel gray).length) = fun _ => 4 from rfl,
      List.map_const', List.sum_replicate_nat, Nat.mul_comm]
  rw [← hpixels, ← ByteArray.size_data, ← Array.length_toList, toList_foldl_putGray]
  rfl

end OrbitImage

import OrbitImage.Image.Painting
import OrbitImage.Proofs.Image.Checked
import OrbitImage.Proofs.Image.Pixel
import OrbitImage.Proofs.Image.Progress
import OrbitImage.Proofs.Session.Panel
/-!
Synthesis without faults. The loops over the pixels are run with watched operations, on buffers of
zeros in which each pixel has its place, and with the reporter ticking in every round. What a round
needs is kept by the rounds before: the counts are at most their number, the cells are counted, and
the pixels up to here are painted. So a request with a generator comes to its image.
-/
namespace OrbitImage

open Checked

/-! ### Loops -/

section
variable {σ : Type}

/-- Runs the rounds from `i` on, of which `count` are left. -/
def Checked.loop? (body : Nat → σ → Option σ) : Nat → Nat → σ → Option σ
  | 0, _, s => some s
  | count + 1, i, s => (body i s).bind (loop? body count (i + 1))

variable {body : Nat → σ → Option σ} {total : Nat}

/-- A loop comes to its end if no round breaks off, and keeps what each round keeps. -/
theorem Checked.exists_loop? (kept : Nat → σ → Prop)
    (hbody : ∀ i < total, ∀ s, kept i s → ∃ s', body i s = some s' ∧ kept (i + 1) s')
    {count i : Nat} (hi : i + count = total) {s : σ} (h : kept i s) :
    ∃ s', loop? body count i s = some s' ∧ kept total s' := by
  induction count generalizing i s with
  | zero => exact ⟨s, rfl, by rwa [← hi]⟩
  | succ count ih =>
      obtain ⟨s', hs', h'⟩ := hbody i (by omega) s h
      obtain ⟨s'', hs'', h''⟩ := ih (by omega) h'
      exact ⟨s'', by rw [loop?, hs', Option.bind_some, hs''], h''⟩

/-- A loop whose rounds lead from each state of a sequence to the next. -/
theorem Checked.loop?_eq (state : Nat → σ)
    (hbody : ∀ i < total, body i (state i) = some (state (i + 1))) :
    loop? body total 0 (state 0) = some (state total) := by
  obtain ⟨s, hs, rfl⟩ := exists_loop? (fun i s => s = state i)
    (fun i hi s h => ⟨_, h ▸ hbody i hi, rfl⟩) (Nat.zero_add total) rfl
  exact hs

end

/-! ### Painting in place -/

/-- `putGray` at the place of a pixel. The index is an exact number, so one that is inside is a word. -/
def putGray? (pixels : ByteArray) (i : Nat) (gray : UInt8) : Option ByteArray :=
  Pixel.write? pixels i ⟨gray, gray, gray, 255⟩

/-- A buffer of zeros. -/
def zeroPixels? (total : Nat) : Option ByteArray :=
  (long? (total * 4)).map fun size => ⟨Array.replicate size.toNat 0⟩

/-- Paints levels, each at its place. -/
def paint? (total : Nat) (level? : Nat → Option UInt8) : Option ByteArray := do
  let pixels ← zeroPixels? total
  loop? (fun i pixels => do putGray? pixels i (← level? i)) total 0 pixels

/-- The levels are painted, and there is a place for each of the others. -/
structure Painted (total : Nat) (levels : List UInt8) (pixels : ByteArray) : Prop where
  size : pixels.size = 4 * total
  byte : ∀ k < 4 * levels.length,
    byteAt? pixels k = byteAt? (levels.foldl putGray .empty) k

theorem painted_zeros {total : Nat} (h : total * 4 < 2 ^ 64) :
    ∃ pixels, zeroPixels? total = some pixels ∧ Painted total [] pixels := by
  obtain ⟨size, hsize, hvalue⟩ := long?_of_lt h
  refine ⟨_, by rw [zeroPixels?, hsize, Option.map_some], ?_, fun k hk => ?_⟩
  · rw [← ByteArray.size_data, Array.size_replicate, hvalue, Nat.mul_comm]
  · exact absurd hk (Nat.not_lt_zero k)

theorem Pixel.byte_gray (gray : UInt8) (c : Nat) (hc : c < 4) :
    byte ⟨gray, gray, gray, 255⟩ c = if c = 3 then 255 else gray := by
  match c with
  | 0 | 1 | 2 | 3 => rfl

namespace Painted

variable {total : Nat} {levels : List UInt8} {pixels : ByteArray}

theorem put (h : Painted total levels pixels) (hroom : levels.length < total) (gray : UInt8) :
    ∃ pixels', putGray? pixels levels.length gray = some pixels' ∧
      Painted total (levels ++ [gray]) pixels' := by
  have hsize := h.size
  obtain ⟨pixels', hput, hsize', hbyte⟩ :=
    Pixel.exists_write? (show 4 * levels.length + 3 < pixels.size by omega)
      ⟨gray, gray, gray, 255⟩
  refine ⟨pixels', hput, hsize'.trans hsize, fun k hk => ?_⟩
  rw [List.length_append, List.length_singleton] at hk
  rw [hbyte, byteAt?_foldl_putGray]
  by_cases hlast : k / 4 = levels.length
  · rw [if_pos hlast, hlast, List.getElem?_concat_length,
      Pixel.byte_gray _ _ (Nat.mod_lt k (by decide))]
    rfl
  · rw [if_neg hlast, h.byte k (by omega), byteAt?_foldl_putGray,
      List.getElem?_append_left (by omega)]

/-- With all places taken the buffer is what the levels paint. -/
theorem eq_foldl (h : Painted levels.length levels pixels) :
    pixels = levels.foldl putGray .empty := by
  have hsize : (levels.foldl putGray .empty).size = 4 * levels.length := size_foldl_putGray levels
  refine ext_byteAt? (h.size.trans hsize.symm) fun k hk => h.byte k ?_
  rwa [hsize] at hk

end Painted

theorem paint?_eq {total : Nat} {levels : List UInt8} {level? : Nat → Option UInt8}
    (hlength : levels.length = total) (hroom : total * 4 < 2 ^ 64)
    (hlevel : ∀ i < total, level? i = levels[i]?) :
    paint? total level? = some (levels.foldl putGray .empty) := by
  subst hlength
  obtain ⟨pixels, hpixels, hzeros⟩ := painted_zeros hroom
  have hround (i : Nat) (hi : i < levels.length) (pixels : ByteArray)
      (h : Painted levels.length (levels.take i) pixels) :
      ∃ pixels', (do putGray? pixels i (← level? i)) = some pixels' ∧
        Painted levels.length (levels.take (i + 1)) pixels' := by
    have hlength : (levels.take i).length = i := List.length_take_of_le (Nat.le_of_lt hi)
    obtain ⟨pixels', hput, h'⟩ := h.put (by rwa [hlength]) levels[i]
    rw [hlength] at hput
    refine ⟨pixels', ?_, by rwa [List.take_succ_eq_append_getElem hi]⟩
    rw [hlevel i hi, List.getElem?_eq_getElem hi, Option.bind_eq_bind, Option.bind_some, hput]
  obtain ⟨pixels', hloop, h⟩ := exists_loop? _ hround (Nat.zero_add _) hzeros
  rw [List.take_length] at h
  rw [paint?, hpixels, Option.bind_eq_bind, Option.bind_some, hloop, h.eq_foldl]

/-! ### Reporters -/

namespace Reporter

theorem total_phase {α : Type} (r : Reporter α) (offset span : α) :
    (r.phase offset span).total = r.total :=
  rfl

variable {α : Type} [Percent α]

def tick? (r : Reporter α) (i : Nat) : Option (Reporter α) :=
  (mod? i r.interval).map fun _ => r.tick i

theorem tick?_eq (r : Reporter α) (i : Nat) : r.tick? i = some (r.tick i) := by
  rw [tick?, mod?_of_pos r.interval_pos, Option.map_some]

theorem ticks_concat (r : Reporter α) (count : Nat) :
    r.ticks 0 (count + 1) = (r.ticks 0 count).tick count := by
  rw [ticks_eq_foldl, ticks_eq_foldl, List.range'_1_concat, List.map_append, List.foldl_append,
    Nat.zero_add]
  rfl

theorem total_ticks (r : Reporter α) (i count : Nat) : (r.ticks i count).total = r.total := by
  induction count generalizing r i with
  | zero => rfl
  | succ count ih =>
      rw [ticks, ih, tick]
      split <;> rfl

end Reporter

/-! ### Images -/

theorem Generator.steps_concat (g : Generator) (seed : UInt32) (count : Nat) :
    g.steps seed (count + 1) =
      g.steps seed count ++ [(g.orbit seed count, g.orbit seed (count + 1))] := by
  rw [steps, List.range_succ, List.map_append]
  rfl

/-- The number of pixels, and of rounds. -/
def Resolution.pixels? (r : Resolution) : Option Nat :=
  (long? (r.side.toNat * r.side.toNat)).map (·.toNat)

theorem Resolution.pixels?_eq (r : Resolution) : r.pixels? = some r.pixels := by
  cases r <;> rfl

theorem Resolution.bytes_lt (r : Resolution) : r.pixels * 4 < 2 ^ 64 := by
  cases r <;> decide

namespace Request

variable {α : Type} [Percent α]

/-- The image of a pass, its statistics numbered. -/
def imageOf? (r : Request) (pixels : ByteArray) (bits : BitCounter) (range : GrayRange) :
    Option Image := do
  let entries ← bits.stats? r.resolution.pixels.toUInt64
  return { r.imageOf pixels bits range with stats := .bits entries }

theorem imageOf?_eq (r : Request) (pixels : ByteArray) (bits : BitCounter) (range : GrayRange) :
    r.imageOf? pixels bits range = some (r.imageOf pixels bits range) := by
  rw [imageOf?, BitCounter.stats?_eq]
  rfl

/-! What the first rounds of a pass have made. -/

def valuesTo (r : Request) (g : Generator) (i : Nat) : List UInt32 :=
  (g.steps r.seed i).map Prod.snd

def levelsTo (r : Request) (g : Generator) (i : Nat) : List UInt8 :=
  (g.steps r.seed i).map fun p => r.mode.gray r.bitPlane p.1 p.2

def bitsTo (r : Request) (g : Generator) (i : Nat) : BitCounter :=
  (r.valuesTo g i).foldl BitCounter.add {}

def rangeTo (r : Request) (g : Generator) (i : Nat) : GrayRange :=
  (r.levelsTo g i).foldl GrayRange.observe {}

section
variable (r : Request) (g : Generator) (i : Nat)

theorem length_valuesTo : (r.valuesTo g i).length = i := by
  rw [valuesTo, List.length_map, Generator.length_steps]

theorem length_levelsTo : (r.levelsTo g i).length = i := by
  rw [levelsTo, List.length_map, Generator.length_steps]

theorem valuesTo_succ : r.valuesTo g (i + 1) = r.valuesTo g i ++ [g.orbit r.seed (i + 1)] := by
  rw [valuesTo, Generator.steps_concat, List.map_append]
  rfl

theorem levelsTo_succ : r.levelsTo g (i + 1) = r.levelsTo g i ++
    [r.mode.gray r.bitPlane (g.orbit r.seed i) (g.orbit r.seed (i + 1))] := by
  rw [levelsTo, Generator.steps_concat, List.map_append]
  rfl

theorem bitsTo_succ : r.bitsTo g (i + 1) = (r.bitsTo g i).add (g.orbit r.seed (i + 1)) := by
  rw [bitsTo, valuesTo_succ, List.foldl_append]
  rfl

theorem rangeTo_succ : r.rangeTo g (i + 1) = (r.rangeTo g i).observe
    (r.mode.gray r.bitPlane (g.orbit r.seed i) (g.orbit r.seed (i + 1))) := by
  rw [rangeTo, levelsTo_succ, List.foldl_append]
  rfl

/-- No counter is at its end, since none is above the number of rounds. -/
theorem add?_bitsTo (hi : i < r.resolution.pixels) (x : UInt32) :
    (r.bitsTo g i).add? x = some ((r.bitsTo g i).add x) := by
  have hpixels := r.resolution.pixels_lt
  have hlength := r.length_valuesTo g i
  refine BitCounter.add?_eq (fun bit hbit => ?_) x
  have hcount := BitCounter.toNat_foldl_add_empty
    (show (r.valuesTo g i).length < 2 ^ 32 by omega) hbit
  have hle : (r.valuesTo g i).countP (fun x => x.toNat.testBit bit) ≤ (r.valuesTo g i).length :=
    List.countP_le_length
  rw [bitsTo, hcount]
  omega

end

/-! ### One pass -/

def paintStep? (r : Request) (g : Generator) (i : Nat) :
    UInt32 × Canvas × Reporter α → Option (UInt32 × Canvas × Reporter α)
  | (previous, ⟨pixels, bits, range⟩, reporter) => do
    let x ← g.step? previous
    let bits ← bits.add? x
    let gray ← r.mode.gray? r.bitPlane previous x
    let pixels ← putGray? pixels i gray
    let reporter ← reporter.tick? i
    return (x, ⟨pixels, bits, range.observe gray⟩, reporter)

def singlePass? (r : Request) (g : Generator) (reporter : Reporter α) :
    Option (Image × Reporter α) := do
  let total ← r.resolution.pixels?
  let pixels ← zeroPixels? total
  let (_, c, reporter) ← loop? (r.paintStep? g) total 0 (r.seed, ⟨pixels, {}, {}⟩, reporter)
  return (← r.imageOf? c.pixels c.bits c.range, reporter)

/-- In the rounds so far the values are counted, compared and painted, each with a tick. -/
def PaintedTo (r : Request) (g : Generator) (reporter : Reporter α) (i : Nat)
    (s : UInt32 × Canvas × Reporter α) : Prop :=
  ∃ pixels, Painted r.resolution.pixels (r.levelsTo g i) pixels ∧
    s = (g.orbit r.seed i, ⟨pixels, r.bitsTo g i, r.rangeTo g i⟩, reporter.ticks 0 i)

theorem PaintedTo.exists_paintStep? {r : Request} (hbit : r.bitPlane ≤ 31) {g : Generator}
    {reporter : Reporter α} {i : Nat} (hi : i < r.resolution.pixels)
    {s : UInt32 × Canvas × Reporter α} (h : r.PaintedTo g reporter i s) :
    ∃ s', r.paintStep? g i s = some s' ∧ r.PaintedTo g reporter (i + 1) s' := by
  obtain ⟨pixels, hpixels, rfl⟩ := h
  obtain ⟨pixels', hput, hpixels'⟩ := hpixels.put (by rwa [length_levelsTo])
    (r.mode.gray r.bitPlane (g.orbit r.seed i) (g.orbit r.seed (i + 1)))
  rw [length_levelsTo] at hput
  rw [← levelsTo_succ] at hpixels'
  have hstep : g.step? (g.orbit r.seed i) = some (g.orbit r.seed (i + 1)) := g.step?_eq _
  refine ⟨_, ?_, pixels', hpixels', rfl⟩
  simp only [paintStep?, hstep, r.add?_bitsTo g i hi, r.mode.gray?_eq hbit, hput,
    Reporter.tick?_eq, Option.bind_eq_bind, Option.bind_some, ← bitsTo_succ, ← rangeTo_succ,
    ← Reporter.ticks_concat]
  rfl

theorem singlePass?_eq {r : Request} (hbit : r.bitPlane ≤ 31) (g : Generator)
    (reporter : Reporter α) :
    r.singlePass? g reporter = some (r.singlePass g, reporter.ticks 0 r.resolution.pixels) := by
  obtain ⟨zeros, hzeros, hblank⟩ := painted_zeros r.resolution.bytes_lt
  obtain ⟨s, hloop, pixels, hpixels, rfl⟩ := exists_loop? (r.PaintedTo g reporter)
    (fun i hi s h => h.exists_paintStep? hbit hi) (Nat.zero_add _) ⟨zeros, hblank, rfl⟩
  have hpainted : pixels = (r.levels g).foldl putGray .empty :=
    Painted.eq_foldl (by rwa [length_levels])
  have hstart : (g.orbit r.seed 0, (⟨zeros, r.bitsTo g 0, r.rangeTo g 0⟩ : Canvas),
      reporter.ticks 0 0) = (r.seed, ⟨zeros, {}, {}⟩, reporter) := rfl
  rw [hstart] at hloop
  simp only [singlePass?, r.resolution.pixels?_eq, hzeros, hloop, imageOf?_eq, hpainted,
    singlePass_eq, Option.bind_eq_bind, Option.bind_some]
  rfl

/-! ### Two passes -/

def sampleStep? (g : Generator) (i : Nat) :
    UInt32 × Array UInt32 × BitCounter × Reporter α →
      Option (UInt32 × Array UInt32 × BitCounter × Reporter α)
  | (previous, values, bits, reporter) => do
    let x ← g.step? previous
    let bits ← bits.add? x
    let reporter ← reporter.tick? i
    return (x, values.push x, bits, reporter)

def levelStep? (r : Request) (values : Array UInt32) (i : Nat) :
    UInt32 × Array UInt8 × GrayRange × Reporter α →
      Option (UInt32 × Array UInt8 × GrayRange × Reporter α)
  | (previous, levels, range, reporter) => do
    let x ← values[i]?
    let gray ← r.mode.gray? r.bitPlane previous x
    let reporter ← reporter.tick? i
    return (x, levels.push gray, range.observe gray, reporter)

def twoPass? (r : Request) (g : Generator) (reporter : Reporter α) :
    Option (Image × Reporter α) := do
  let total ← r.resolution.pixels?
  let reporter := reporter.phase (Percent.whole 0) (Percent.whole 50)
  let (_, values, bits, reporter) ← loop? (sampleStep? g) total 0 (r.seed, #[], {}, reporter)
  let reporter := reporter.phase (Percent.whole 50) (Percent.whole 50)
  let (_, levels, range, reporter) ←
    loop? (r.levelStep? values) values.size 0 (r.seed, #[], {}, reporter)
  let (low, high) := r.contrast.bounds range
  let stretched ← stretch? low high levels
  let pixels ← paint? total (stretched[·]?)
  return (← r.imageOf? pixels bits range, reporter)

theorem loop?_sampleStep? (r : Request) (g : Generator) (reporter : Reporter α) :
    loop? (sampleStep? g) r.resolution.pixels 0 (r.seed, #[], {}, reporter) =
      some (g.orbit r.seed r.resolution.pixels, (r.valuesTo g r.resolution.pixels).toArray,
        r.bitsTo g r.resolution.pixels, reporter.ticks 0 r.resolution.pixels) := by
  refine loop?_eq (fun i => (g.orbit r.seed i, (r.valuesTo g i).toArray, r.bitsTo g i,
    reporter.ticks 0 i)) fun i hi => ?_
  have hstep : g.step? (g.orbit r.seed i) = some (g.orbit r.seed (i + 1)) := g.step?_eq _
  simp only [sampleStep?, hstep, r.add?_bitsTo g i hi, Reporter.tick?_eq, Option.bind_eq_bind,
    Option.bind_some, List.push_toArray, ← valuesTo_succ, ← bitsTo_succ, ← Reporter.ticks_concat]
  rfl

theorem loop?_levelStep? {r : Request} (hbit : r.bitPlane ≤ 31) (g : Generator)
    (reporter : Reporter α) (total : Nat) :
    loop? (r.levelStep? (r.valuesTo g total).toArray) total 0 (r.seed, #[], {}, reporter) =
      some (g.orbit r.seed total, (r.levelsTo g total).toArray, r.rangeTo g total,
        reporter.ticks 0 total) := by
  refine loop?_eq (fun i => (g.orbit r.seed i, (r.levelsTo g i).toArray, r.rangeTo g i,
    reporter.ticks 0 i)) fun i hi => ?_
  have hvalue : (r.valuesTo g total).toArray[i]? = some (g.orbit r.seed (i + 1)) := by
    rw [List.getElem?_toArray, valuesTo, Generator.values_steps, List.getElem?_map,
      List.getElem?_range' hi, Nat.one_mul, Nat.add_comm]
    rfl
  simp only [levelStep?, hvalue, r.mode.gray?_eq hbit, Reporter.tick?_eq, Option.bind_eq_bind,
    Option.bind_some, List.push_toArray, ← levelsTo_succ, ← rangeTo_succ, ← Reporter.ticks_concat]
  rfl

theorem twoPass?_eq {r : Request} (hbit : r.bitPlane ≤ 31) (g : Generator)
    (reporter : Reporter α) :
    r.twoPass? g reporter = some (r.twoPass g,
      (((reporter.phase (Percent.whole 0) (Percent.whole 50)).ticks 0 r.resolution.pixels).phase
        (Percent.whole 50) (Percent.whole 50)).ticks 0 r.resolution.pixels) := by
  have hsize : (r.valuesTo g r.resolution.pixels).toArray.size = r.resolution.pixels := by
    rw [List.size_toArray, length_valuesTo]
  rcases hbounds : r.contrast.bounds (r.rangeTo g r.resolution.pixels) with ⟨low, high⟩
  have hstretched := toList_stretch low high (r.levelsTo g r.resolution.pixels).toArray
  have hlength : (stretch low high (r.levelsTo g r.resolution.pixels).toArray).toList.length =
      r.resolution.pixels := by
    rw [hstretched, List.length_map]
    exact r.length_levels g
  have hpaint := paint?_eq hlength r.resolution.bytes_lt fun i _ => Array.getElem?_toList.symm
  simp only [twoPass?, r.resolution.pixels?_eq, loop?_sampleStep?, hsize, loop?_levelStep? hbit,
    hbounds, stretch?_eq, hpaint, hstretched, imageOf?_eq, r.twoPass_eq g hbounds,
    Option.bind_eq_bind, Option.bind_some]
  rfl

/-! ### Density maps -/

def hitStep? (r : Request) (g : Generator) (i : Nat) :
    UInt32 × Density × Reporter α → Option (UInt32 × Density × Reporter α)
  | (previous, d, reporter) => do
    let x ← g.step? previous
    let cell ← Density.cell? r.resolution.side previous x
    let d ← d.add? cell
    let reporter ← reporter.tick? i
    return (x, d, reporter)

def densityMap? (r : Request) (g : Generator) (reporter : Reporter α) :
    Option (Image × Reporter α) := do
  let total ← r.resolution.pixels?
  let (_, d, reporter) ←
    loop? (r.hitStep? g) total 0 (r.seed, Density.blank total, reporter)
  let pixels ← paint? total fun i => d.hits[i]?.bind (r.pairScale.gray? · d.most)
  return (⟨pixels, r.resolution.side, .pairs d.most, none, none⟩, reporter)

/-- The map of the first hits. -/
def densityTo (r : Request) (g : Generator) (i : Nat) : Density :=
  Density.count g r.resolution.side i r.seed (Density.blank r.resolution.pixels)

theorem densityTo_succ (r : Request) (g : Generator) (i : Nat) :
    r.densityTo g (i + 1) = (r.densityTo g i).add
      (Density.cell r.resolution.side (g.orbit r.seed i) (g.orbit r.seed (i + 1))) := by
  rw [densityTo, densityTo, Density.count_eq_foldl, Density.count_eq_foldl, Density.hitCells,
    Generator.steps_concat, List.map_append, List.foldl_append]
  rfl

/-- No cell has more hits than there have been rounds. -/
theorem add?_densityTo (r : Request) (g : Generator) {i : Nat} (hi : i < r.resolution.pixels)
    {cell : Nat} (hcell : cell < r.resolution.pixels) :
    (r.densityTo g i).add? cell = some ((r.densityTo g i).add cell) := by
  have hpixels := r.resolution.pixels_lt
  have hcounts : (r.densityTo g i).Counts r.resolution.pixels
      (Density.hitCells g r.resolution.side r.seed i) :=
    Density.counts_count g r.side_pos r.seed (Nat.lt_trans hi hpixels)
  have hlength : (Density.hitCells g r.resolution.side r.seed i).length = i := by
    rw [Density.hitCells, List.length_map, Generator.length_steps]
  have hlt : cell < (r.densityTo g i).hits.size := by rwa [hcounts.size]
  have hle : (Density.hitCells g r.resolution.side r.seed i).count cell ≤
      (Density.hitCells g r.resolution.side r.seed i).length := List.count_le_length
  refine Density.add?_eq hlt ?_
  rw [hcounts.hits cell hlt]
  omega

theorem loop?_hitStep? (r : Request) (g : Generator) (reporter : Reporter α) :
    loop? (r.hitStep? g) r.resolution.pixels 0
        (r.seed, Density.blank r.resolution.pixels, reporter) =
      some (g.orbit r.seed r.resolution.pixels, r.density g,
        reporter.ticks 0 r.resolution.pixels) := by
  refine loop?_eq (fun i => (g.orbit r.seed i, r.densityTo g i, reporter.ticks 0 i))
    fun i hi => ?_
  have hstep : g.step? (g.orbit r.seed i) = some (g.orbit r.seed (i + 1)) := g.step?_eq _
  have hcell := Density.cell_lt r.side_pos (g.orbit r.seed i) (g.orbit r.seed (i + 1))
  simp only [hitStep?, hstep, Density.cell?_eq r.side_pos, r.add?_densityTo g hi hcell,
    Reporter.tick?_eq, Option.bind_eq_bind, Option.bind_some, ← densityTo_succ,
    ← Reporter.ticks_concat]
  rfl

theorem densityMap?_eq (r : Request) (g : Generator) (reporter : Reporter α) :
    r.densityMap? g reporter =
      some (r.densityMap g, reporter.ticks 0 r.resolution.pixels) := by
  have hcounts := r.counts_density g
  have hlevel (i : Nat) (hi : i < r.resolution.pixels) :
      (r.density g).hits[i]?.bind (r.pairScale.gray? · (r.density g).most) =
        (r.densityLevels g)[i]? := by
    have hlt : i < (r.density g).hits.size := by rwa [hcounts.size]
    have hle : (r.density g).hits[i].toNat ≤ (r.density g).most.toNat := by
      rw [hcounts.hits i hlt]
      exact hcounts.le_most i
    rw [densityLevels, List.getElem?_map, Array.getElem?_toList, Array.getElem?_eq_getElem hlt,
      Option.bind_some, PairScale.gray?_eq _ hle (r.most_pos g)]
    rfl
  have hpaint := paint?_eq (r.length_densityLevels g) r.resolution.bytes_lt hlevel
  simp only [densityMap?, r.resolution.pixels?_eq, loop?_hitStep?, hpaint, ← pixels_densityMap,
    Option.bind_eq_bind, Option.bind_some]
  rfl

/-! ### Requests -/

/-- The image and the percentages of a request, made with watched operations. -/
def synthesize? (α : Type) [Percent α] (r : Request) (g : Generator) :
    Option (Image × Array α) := do
  let reporter := Reporter.start (← r.resolution.pixels?)
  let (image, reporter) ←
    match r.mode with
    | .pair => r.densityMap? g reporter
    | _ => if r.contrast.enabled then r.twoPass? g reporter else r.singlePass? g reporter
  return (image, reporter.finish.sent)

theorem progress_of_plain {r : Request} (h : r.isBuffered = false) :
    r.progress α =
      ((Reporter.start r.resolution.pixels).ticks 0 r.resolution.pixels).finish.sent := by
  rw [progress, schedule, h]
  rfl

theorem progress_of_buffered {r : Request} (h : r.isBuffered = true) :
    r.progress α =
      (((((Reporter.start r.resolution.pixels).phase (Percent.whole 0) (Percent.whole 50)).ticks 0
        r.resolution.pixels).phase (Percent.whole 50) (Percent.whole 50)).ticks 0
          r.resolution.pixels).finish.sent := by
  rw [progress, schedule, h]
  simp only [if_true, List.foldl_cons, List.foldl_nil, Reporter.step, Reporter.total_phase,
    Reporter.total_ticks]
  rfl

/-- A request with a generator has its image without a fault on the way: no word is shifted by its
width or more, no sum, product or cast loses a digit, no index is behind the end of a stack, a
buffer or a map, and no divisor is zero. -/
theorem synthesize_without_fault (α : Type) [Percent α] (r : Request) (g : Generator)
    (h : r.generator = .ok g) : r.synthesize? α g = some (r.synthesize g, r.progress α) := by
  have hbit : r.bitPlane ≤ 31 := (generator_eq_ok_iff.mp h).1
  rw [synthesize?, r.resolution.pixels?_eq, Option.bind_eq_bind, Option.bind_some]
  by_cases hmode : r.mode = .pair
  · have hplain : r.isBuffered = false := isBuffered_eq_false_iff.mpr (.inl hmode)
    simp only [hmode, densityMap?_eq, Option.bind_eq_bind, Option.bind_some, synthesize,
      progress_of_plain hplain]
    rfl
  · rw [synthesize_of_ne_pair hmode]
    split
    · contradiction
    cases hcontrast : r.contrast.enabled with
    | true =>
        have hbuffered : r.isBuffered = true := by simp [isBuffered, hmode, hcontrast]
        simp only [if_true, twoPass?_eq hbit, Option.bind_eq_bind, Option.bind_some,
          progress_of_buffered hbuffered]
        rfl
    | false =>
        have hplain : r.isBuffered = false := isBuffered_eq_false_iff.mpr (.inr hcontrast)
        simp only [Bool.false_eq_true, if_false, singlePass?_eq hbit, Option.bind_eq_bind,
          Option.bind_some, progress_of_plain hplain]
        rfl

/-- The highest bit is 31 places away. -/
theorem synthesize_without_fault_highest_bit :
    let r : Request := { ofBuiltIn .xorshift32 with mode := .bitPlane, bitPlane := 31 }
    r.generator = .ok (.builtIn .xorshift32) ∧
      r.synthesize? ℚ (.builtIn .xorshift32) =
        some (r.synthesize (.builtIn .xorshift32), r.progress ℚ) := by
  intro r
  have hgenerator : r.generator = .ok (.builtIn .xorshift32) := by decide +kernel
  exact ⟨hgenerator, synthesize_without_fault ℚ r _ hgenerator⟩

end Request

end OrbitImage

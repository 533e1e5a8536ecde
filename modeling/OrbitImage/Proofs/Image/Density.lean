import Mathlib.Algebra.BigOperators.Group.Finset.Basic
import Mathlib.Algebra.BigOperators.Group.Finset.Piecewise
import Mathlib.Algebra.BigOperators.Group.Finset.Sigma
import Mathlib.Data.UInt
import OrbitImage.Proofs.Image.Orbit
/-!
Density maps as counts: each word of a map is the number of times that its cell was hit, and the
densest of them is the maximum. The cells are hit by the steps of the generator, so the counts are
numbers of steps, and each step lies in one cell.
-/
namespace OrbitImage

/-! ### Counting -/

namespace Density

/-- The map counts the hits in a list, and no counter has wrapped around. -/
structure Counts (d : Density) (cells : Nat) (hit : List Nat) : Prop where
  size : d.hits.size = cells
  hits : ∀ c (h : c < d.hits.size), d.hits[c].toNat = hit.count c
  le_most : ∀ c, hit.count c ≤ d.most.toNat
  attained : ∃ c < cells, hit.count c = d.most.toNat

theorem counts_blank {cells : Nat} (h : 0 < cells) : (blank cells).Counts cells [] where
  size := by simp [blank]
  hits := by simp [blank]
  le_most := by simp [blank]
  attained := ⟨0, h, rfl⟩

theorem counts_add {d : Density} {cells : Nat} {hit : List Nat} (hd : d.Counts cells hit)
    {cell : Nat} (hcell : cell < cells) (hroom : hit.length + 1 < 2 ^ 32) :
    (d.add cell).Counts cells (hit ++ [cell]) := by
  have hlt : cell < d.hits.size := by rw [hd.size]; exact hcell
  have hle : hit.count cell ≤ hit.length := List.count_le_length
  have hcount (c : Nat) :
      (hit ++ [cell]).count c = hit.count c + if cell = c then 1 else 0 := by
    simp only [List.count_append, List.count_singleton, beq_iff_eq]
  have hnext : (d.hits[cell] + 1).toNat = hit.count cell + 1 := by
    rw [UInt32.toNat_add, hd.hits cell hlt, show (1 : UInt32).toNat = 1 from rfl,
      Nat.mod_eq_of_lt (by omega)]
  have hadd : d.add cell = ⟨d.hits.set cell (d.hits[cell] + 1), max d.most (d.hits[cell] + 1)⟩ :=
    dif_pos hlt
  have hmost : (d.add cell).most.toNat = max d.most.toNat (hit.count cell + 1) := by
    rw [hadd, UInt32.toNat_max, hnext]
  refine ⟨?_, ?_, ?_, ?_⟩
  · rw [hadd, Array.size_set, hd.size]
  · intro c hc
    simp only [hadd, Array.getElem_set, hcount]
    split
    next heq => rw [hnext, heq]
    next => exact hd.hits c _
  · intro c
    have hc := hd.le_most c
    rw [hmost, hcount]
    split
    next heq => rw [heq]; exact Nat.le_max_right _ _
    next => exact Nat.le_trans hc (Nat.le_max_left _ _)
  · -- The densest cell so far stays the densest unless the cell that was hit has passed it.
    by_cases hpass : d.most.toNat < hit.count cell + 1
    · refine ⟨cell, hcell, ?_⟩
      rw [hmost, hcount, if_pos rfl, Nat.max_eq_right (Nat.le_of_lt hpass)]
    · obtain ⟨c, hc, hdensest⟩ := hd.attained
      refine ⟨c, hc, ?_⟩
      have hother : cell ≠ c := by
        rintro rfl
        omega
      rw [hmost, hcount, if_neg hother, Nat.add_zero, hdensest, Nat.max_eq_left (by omega)]

theorem counts_foldl {d : Density} {cells : Nat} {hit : List Nat} (hd : d.Counts cells hit)
    (more : List Nat) (hcells : ∀ c ∈ more, c < cells)
    (hroom : hit.length + more.length < 2 ^ 32) :
    (more.foldl add d).Counts cells (hit ++ more) := by
  induction more generalizing d hit with
  | nil => simpa using hd
  | cons c more ih =>
      simp only [List.length_cons] at hroom
      have hstep := counts_add hd (hcells c List.mem_cons_self) (by omega)
      have hrest := ih hstep (fun b hb => hcells b (List.mem_cons_of_mem c hb))
        (by simp only [List.length_append, List.length_singleton]; omega)
      rwa [List.append_assoc] at hrest

/-! ### Cells -/

/-- The cells that the first steps from a seed hit, in order. -/
def hitCells (g : Generator) (side : UInt32) (seed : UInt32) (n : Nat) : List Nat :=
  (g.steps seed n).map fun p => cell side p.1 p.2

theorem count_eq_foldl (g : Generator) (side : UInt32) (n : Nat) (x : UInt32) (d : Density) :
    count g side n x d = (hitCells g side x n).foldl add d := by
  induction n generalizing x d with
  | zero => rfl
  | succ n ih =>
      rw [count, ih, hitCells, hitCells, Generator.steps_succ, List.map_cons, List.foldl_cons]

theorem toNat_cell (side previous x : UInt32) :
    cell side previous x =
      (x.toNat % side.toNat) * side.toNat + previous.toNat % side.toNat := by
  rw [cell, UInt32.toNat_mod, UInt32.toNat_mod]

theorem cell_lt {side : UInt32} (h : 0 < side.toNat) (previous x : UInt32) :
    cell side previous x < side.toNat * side.toNat := by
  rw [toNat_cell]
  exact index_lt (Nat.mod_lt previous.toNat h) (Nat.mod_lt x.toNat h)

theorem cell_eq_iff {side previous x : UInt32} {px : Nat} (hpx : px < side.toNat) (py : Nat) :
    cell side previous x = py * side.toNat + px ↔
      previous.toNat % side.toNat = px ∧ x.toNat % side.toNat = py := by
  have hside : 0 < side.toNat := Nat.lt_of_le_of_lt (Nat.zero_le px) hpx
  have hcol := Nat.mod_lt previous.toNat hside
  rw [toNat_cell]
  constructor
  · intro h
    have hmod := congrArg (· % side.toNat) h
    have hdiv := congrArg (· / side.toNat) h
    simp only [Nat.mul_add_mod_self_right, Nat.mod_eq_of_lt hcol, Nat.mod_eq_of_lt hpx] at hmod
    simp only [Nat.add_comm (_ * _), Nat.add_mul_div_right _ _ hside, Nat.div_eq_of_lt hcol,
      Nat.div_eq_of_lt hpx, Nat.zero_add] at hdiv
    exact ⟨hmod, hdiv⟩
  · rintro ⟨rfl, rfl⟩
    rfl

/-- How many of the first steps lead from a value in a column to a value in a row. -/
def hitsAt (side : UInt32) (v : Nat → UInt32) (n px py : Nat) : Nat :=
  (List.range n).countP fun i =>
    (v i).toNat % side.toNat = px ∧ (v (i + 1)).toNat % side.toNat = py

theorem hitsAt_le (side : UInt32) (v : Nat → UInt32) (n px py : Nat) :
    hitsAt side v n px py ≤ n := by
  exact countP_range_le n _

theorem count_hitCells (g : Generator) {side : UInt32} (seed : UInt32) (n : Nat) {px : Nat}
    (hpx : px < side.toNat) (py : Nat) :
    (hitCells g side seed n).count (py * side.toNat + px) =
      hitsAt side (g.orbit seed) n px py := by
  rw [hitCells, Generator.steps, List.map_map, List.count, List.countP_map, hitsAt]
  apply List.countP_congr
  intro i _
  simp only [Function.comp_apply, beq_iff_eq, decide_eq_true_eq, cell_eq_iff hpx]

theorem sum_hitsAt {side : UInt32} (h : 0 < side.toNat) (v : Nat → UInt32) (n : Nat) :
    ∑ px ∈ Finset.range side.toNat, ∑ py ∈ Finset.range side.toNat, hitsAt side v n px py = n := by
  induction n with
  | zero => simp [hitsAt]
  | succ n ih =>
      have hstep (px py : Nat) : hitsAt side v (n + 1) px py = hitsAt side v n px py +
          if (v n).toNat % side.toNat = px then
            if (v (n + 1)).toNat % side.toNat = py then 1 else 0 else 0 := by
        simp only [hitsAt, List.range_succ, List.countP_append, List.countP_singleton,
          decide_eq_true_eq, ite_and]
      have hcol : (v n).toNat % side.toNat ∈ Finset.range side.toNat :=
        Finset.mem_range.mpr (Nat.mod_lt _ h)
      have hrow : (v (n + 1)).toNat % side.toNat ∈ Finset.range side.toNat :=
        Finset.mem_range.mpr (Nat.mod_lt _ h)
      have hone : ∑ px ∈ Finset.range side.toNat, ∑ py ∈ Finset.range side.toNat,
          (if (v n).toNat % side.toNat = px then
            if (v (n + 1)).toNat % side.toNat = py then 1 else 0 else 0) = 1 := by
        rw [Finset.sum_comm]
        simp only [Finset.sum_ite_eq, if_pos hcol, if_pos hrow]
      simp only [hstep, Finset.sum_add_distrib, ih, hone]

theorem counts_count (g : Generator) {side : UInt32} (h : 0 < side.toNat) (seed : UInt32) {n : Nat}
    (hn : n < 2 ^ 32) :
    (count g side n seed (blank (side.toNat * side.toNat))).Counts (side.toNat * side.toNat)
      (hitCells g side seed n) := by
  rw [count_eq_foldl]
  apply counts_foldl (counts_blank (Nat.mul_pos h h))
  · intro c hc
    obtain ⟨p, -, rfl⟩ := List.mem_map.mp hc
    exact cell_lt h p.1 p.2
  · simpa [hitCells] using hn

/-- The counter of a cell is the number of its hits, after any number of steps. -/
theorem exists_counter (g : Generator) {side : UInt32} (seed : UInt32) {n : Nat} (hn : n < 2 ^ 32)
    {px py : Nat} (hpx : px < side.toNat) (hpy : py < side.toNat) :
    ∃ counter,
      (count g side n seed (blank (side.toNat * side.toNat))).hits[py * side.toNat + px]? =
        some counter ∧
      counter.toNat = hitsAt side (g.orbit seed) n px py := by
  have hside : 0 < side.toNat := Nat.lt_of_le_of_lt (Nat.zero_le px) hpx
  have hd := counts_count g hside seed hn
  have hsize : py * side.toNat + px <
      (count g side n seed (blank (side.toNat * side.toNat))).hits.size := by
    rw [hd.size]
    exact index_lt hpx hpy
  exact ⟨_, Array.getElem?_eq_getElem hsize, by rw [hd.hits, count_hitCells g seed n hpx py]⟩

end Density

/-! ### Levels -/

namespace PairScale

theorem gray_of_no_hits (scale : PairScale) {hits : UInt32} (h : hits.toNat = 0) (most : UInt32) :
    scale.gray hits most = 0 := by
  have hzero : hits = 0 := UInt32.toNat_inj.mp h
  cases scale <;> exact if_pos (Or.inl hzero)

theorem toNat_gray_linear {hits most : UInt32} (hle : hits.toNat ≤ most.toNat)
    (hpos : 0 < most.toNat) :
    (linear.gray hits most).toNat = hits.toNat * 255 / most.toNat := by
  by_cases hzero : hits.toNat = 0
  · rw [gray_of_no_hits linear hzero, hzero, Nat.zero_mul, Nat.zero_div]
    rfl
  · have hnonzero : ¬(hits = 0 ∨ most = 0) := by
      rintro (rfl | rfl)
      · exact hzero rfl
      · exact absurd hpos (Nat.lt_irrefl 0)
    have hword : hits.toNat * 255 < 2 ^ 64 := by
      have hhits := hits.toNat_lt
      omega
    have hlevel : hits.toNat * 255 / most.toNat ≤ 255 := by
      apply Nat.div_le_of_le_mul
      exact Nat.mul_le_mul_right 255 hle
    simp only [gray, if_neg hnonzero, UInt64.toNat_toUInt8, UInt64.toNat_div, UInt64.toNat_mul, UInt32.toNat_toUInt64]
    rw [show (255 : UInt64).toNat = 255 from rfl, Nat.mod_eq_of_lt hword,
      Nat.mod_eq_of_lt (Nat.lt_succ_of_le hlevel)]

/-- The quotient reaches its bound for the bound of its numerator only. -/
theorem level_eq_full_iff {hits most : Nat} (hle : hits ≤ most) (hpos : 0 < most) :
    hits * 255 / most = 255 ↔ hits = most := by
  constructor
  · intro h
    have hmul := Nat.div_mul_le_self (hits * 255) most
    rw [h] at hmul
    omega
  · rintro rfl
    rw [Nat.mul_div_right 255 hpos]

end PairScale

/-! ### The painted map -/

/-- The image shows counts of hits: the densest cell is known, and each cell without a hit is black. -/
structure Image.ShowsHits (image : Image) (side most : UInt32) (hits : Nat → Nat → Nat) : Prop where
  side_eq : image.side = side
  size : image.pixels.size = 4 * side.toNat * side.toNat
  stats : image.stats = .pairs most
  most_pos : 1 ≤ most.toNat
  attained : ∃ px < side.toNat, ∃ py < side.toNat, hits px py = most.toNat
  le_most : ∀ px < side.toNat, ∀ py < side.toNat, hits px py ≤ most.toNat
  rangeless : image.darkest = none ∧ image.brightest = none
  channels : ∀ p < side.toNat * side.toNat, ∃ gray,
    byteAt? image.pixels (4 * p) = some gray ∧
    byteAt? image.pixels (4 * p + 1) = some gray ∧
    byteAt? image.pixels (4 * p + 2) = some gray ∧
    byteAt? image.pixels (4 * p + 3) = some 255
  black : ∀ px py : UInt32, px < side → py < side → hits px.toNat py.toNat = 0 →
    image.grayAt? px py = some 0

namespace Request

/-- The density map of a request after its last step. -/
def density (r : Request) (g : Generator) : Density :=
  Density.count g r.resolution.side r.resolution.pixels r.seed (Density.blank r.resolution.pixels)

/-- The hits of a cell among all steps of a request. -/
def hits (r : Request) (g : Generator) (px py : Nat) : Nat :=
  Density.hitsAt r.resolution.side (g.orbit r.seed) r.resolution.pixels px py

def densityLevels (r : Request) (g : Generator) : List UInt8 :=
  (r.density g).hits.toList.map fun hits => r.pairScale.gray hits (r.density g).most

theorem pixels_densityMap (r : Request) (g : Generator) :
    (r.densityMap g).pixels = (r.densityLevels g).foldl putGray .empty := by
  rw [densityLevels, List.foldl_map, Array.foldl_toList]
  rfl

theorem side_pos (r : Request) : 0 < r.resolution.side.toNat :=
  Nat.pos_of_mul_pos_left r.resolution.pixels_pos

theorem counts_density (r : Request) (g : Generator) :
    (r.density g).Counts r.resolution.pixels
      (Density.hitCells g r.resolution.side r.seed r.resolution.pixels) :=
  Density.counts_count g r.side_pos r.seed r.resolution.pixels_lt

theorem length_densityLevels (r : Request) (g : Generator) :
    (r.densityLevels g).length = r.resolution.pixels := by
  rw [densityLevels, List.length_map, Array.length_toList, (r.counts_density g).size]

theorem hits_le_most (r : Request) (g : Generator) {px : Nat} (hpx : px < r.resolution.side.toNat)
    (py : Nat) : r.hits g px py ≤ (r.density g).most.toNat := by
  rw [hits, ← Density.count_hitCells g r.seed _ hpx]
  exact (r.counts_density g).le_most _

/-- The densest cell is one of the map. -/
theorem exists_hits_eq_most (r : Request) (g : Generator) :
    ∃ px < r.resolution.side.toNat, ∃ py < r.resolution.side.toNat,
      r.hits g px py = (r.density g).most.toNat := by
  obtain ⟨c, hc, hcount⟩ := (r.counts_density g).attained
  have hcol := Nat.mod_lt c r.side_pos
  refine ⟨c % r.resolution.side.toNat, hcol, c / r.resolution.side.toNat,
    Nat.div_lt_of_lt_mul hc, ?_⟩
  rw [hits, ← Density.count_hitCells g r.seed _ hcol, Nat.mul_comm, Nat.div_add_mod, hcount]

theorem sum_hits (r : Request) (g : Generator) :
    ∑ px ∈ Finset.range r.resolution.side.toNat, ∑ py ∈ Finset.range r.resolution.side.toNat,
      r.hits g px py = r.resolution.pixels :=
  Density.sum_hitsAt r.side_pos _ _

theorem most_pos (r : Request) (g : Generator) : 1 ≤ (r.density g).most.toNat := by
  by_contra h
  have hzero (px : Nat) (hpx : px ∈ Finset.range r.resolution.side.toNat) (py : Nat) :
      r.hits g px py = 0 := by
    have hle := r.hits_le_most g (Finset.mem_range.mp hpx) py
    omega
  have hsum := r.sum_hits g
  rw [Finset.sum_eq_zero fun px hpx => Finset.sum_eq_zero fun py _ => hzero px hpx py] at hsum
  exact absurd hsum.symm (Nat.ne_of_gt r.resolution.pixels_pos)

theorem exists_grayAt?_densityMap (r : Request) (g : Generator) {px py : UInt32}
    (hpx : px < r.resolution.side) (hpy : py < r.resolution.side) :
    ∃ word, word.toNat = r.hits g px.toNat py.toNat ∧
      (r.densityMap g).grayAt? px py = some (r.pairScale.gray word (r.density g).most) := by
  obtain ⟨word, hword, hhits⟩ := Density.exists_counter g r.seed r.resolution.pixels_lt
    (UInt32.lt_iff_toNat_lt.mp hpx) (UInt32.lt_iff_toNat_lt.mp hpy)
  refine ⟨word, hhits, ?_⟩
  have hlevel : (r.densityLevels g)[py.toNat * r.resolution.side.toNat + px.toNat]? =
      some (r.pairScale.gray word (r.density g).most) := by
    rw [densityLevels, List.getElem?_map, Array.getElem?_toList]
    exact congrArg _ hword
  rw [← hlevel]
  exact Image.grayAt?_painted (r.pixels_densityMap g) r.resolution.pixels_lt hpx hpy

theorem densityMap_showsHits (r : Request) (g : Generator) :
    (r.densityMap g).ShowsHits r.resolution.side (r.density g).most (r.hits g) where
  side_eq := rfl
  size := by
    rw [pixels_densityMap, size_foldl_putGray, length_densityLevels, Nat.mul_assoc]
    rfl
  stats := rfl
  most_pos := r.most_pos g
  attained := r.exists_hits_eq_most g
  le_most := fun px hpx py _ => r.hits_le_most g hpx py
  rangeless := ⟨rfl, rfl⟩
  channels := by
    intro p hp
    rw [pixels_densityMap]
    apply exists_channels
    rw [length_densityLevels]
    exact hp
  black := by
    intro px py hpx hpy hnone
    obtain ⟨word, hword, hgray⟩ := r.exists_grayAt?_densityMap g hpx hpy
    rw [hgray, PairScale.gray_of_no_hits _ (hword.trans hnone)]

theorem exists_gray_linear {r : Request} (hlinear : r.pairScale = .linear) (g : Generator)
    {px py : UInt32} (hpx : px < r.resolution.side) (hpy : py < r.resolution.side) :
    ∃ gray, (r.densityMap g).grayAt? px py = some gray ∧
      gray.toNat = r.hits g px.toNat py.toNat * 255 / (r.density g).most.toNat := by
  obtain ⟨word, hword, hgray⟩ := r.exists_grayAt?_densityMap g hpx hpy
  have hle : word.toNat ≤ (r.density g).most.toNat := by
    rw [hword]
    exact r.hits_le_most g (UInt32.lt_iff_toNat_lt.mp hpx) _
  refine ⟨_, hgray, ?_⟩
  rw [hlinear, PairScale.toNat_gray_linear hle (r.most_pos g), hword]

/-- The counters hold the hits after any number of steps, so that none has wrapped around. -/
theorem synthesize_shows_hits (r : Request) (g : Generator) (hmode : r.mode = .pair) :
    let side := r.resolution.side
    let image := r.synthesize g
    ∃ most,
      image.ShowsHits side most (r.hits g) ∧
      (∑ px ∈ Finset.range side.toNat, ∑ py ∈ Finset.range side.toNat, r.hits g px py =
        side.toNat * side.toNat) ∧
      (∀ n ≤ side.toNat * side.toNat, ∀ px < side.toNat, ∀ py < side.toNat, ∃ counter,
        (Density.count g side n r.seed (Density.blank (side.toNat * side.toNat))).hits[
          py * side.toNat + px]? = some counter ∧
        counter.toNat = Density.hitsAt side (g.orbit r.seed) n px py) ∧
      (r.pairScale = .linear →
        (∀ px py, px < side → py < side → ∃ gray, image.grayAt? px py = some gray ∧
          gray.toNat = r.hits g px.toNat py.toNat * 255 / most.toNat ∧
          (gray = 255 ↔ r.hits g px.toNat py.toNat = most.toNat)) ∧
        (∀ px py px' py' gray gray', px < side → py < side → px' < side → py' < side →
          image.grayAt? px py = some gray → image.grayAt? px' py' = some gray' →
          r.hits g px.toNat py.toNat ≤ r.hits g px'.toNat py'.toNat → gray ≤ gray')) := by
  intro side image
  have himage : image = r.densityMap g := by
    simp only [image, synthesize, hmode]
  refine ⟨(r.density g).most, ?_, r.sum_hits g, ?_, ?_⟩
  · rw [himage]
    exact r.densityMap_showsHits g
  · intro n hn px hpx py hpy
    exact Density.exists_counter g r.seed (Nat.lt_of_le_of_lt hn r.resolution.pixels_lt) hpx hpy
  · intro hlinear
    rw [himage]
    constructor
    · intro px py hpx hpy
      obtain ⟨gray, hgray, hlevel⟩ := exists_gray_linear hlinear g hpx hpy
      refine ⟨gray, hgray, hlevel, ?_⟩
      have hle := r.hits_le_most g (UInt32.lt_iff_toNat_lt.mp hpx) py.toNat
      rw [← PairScale.level_eq_full_iff hle (r.most_pos g), ← hlevel]
      exact UInt8.toNat_inj.symm
    · intro px py px' py' gray gray' hpx hpy hpx' hpy' hgray hgray' hle
      obtain ⟨_, h, hlevel⟩ := exists_gray_linear hlinear g hpx hpy
      obtain ⟨_, h', hlevel'⟩ := exists_gray_linear hlinear g hpx' hpy'
      cases h.symm.trans hgray
      cases h'.symm.trans hgray'
      rw [UInt8.le_iff_toNat_le, hlevel, hlevel']
      exact Nat.div_le_div_right (Nat.mul_le_mul_right 255 hle)

/-- A generator that stays where it is hits one cell only. -/
theorem synthesize_shows_hits_fixed :
    let r : Request := { mode := .pair, seed := 0, pairScale := .linear }
    (r.synthesize (.builtIn .timesTwo)).grayAt? 0 0 = some 255 := by
  intro r
  obtain ⟨most, hshows, -, -, hlinear⟩ := synthesize_shows_hits r (.builtIn .timesTwo) rfl
  obtain ⟨gray, hgray, -, hfull⟩ := (hlinear rfl).1 0 0 (by decide) (by decide)
  have hall : r.hits (.builtIn .timesTwo) 0 0 = r.resolution.pixels := by
    rw [hits, Density.hitsAt, List.countP_eq_length.mpr, List.length_range]
    intro i _
    have hzero : ∀ k, (Generator.builtIn .timesTwo).orbit r.seed k = 0 :=
      fun k => Generator.orbit_of_fixed rfl (Nat.zero_le k) rfl
    rw [hzero, hzero]
    rfl
  obtain ⟨px, -, py, -, hmost⟩ := hshows.attained
  have hle := Density.hitsAt_le r.resolution.side
    ((Generator.builtIn .timesTwo).orbit r.seed) r.resolution.pixels px py
  have hge := hshows.le_most 0 (by decide) 0 (by decide)
  rw [hgray, hfull.mpr (show r.hits _ 0 0 = most.toNat from Nat.le_antisymm hge ?_)]
  rw [hall, ← hmost]
  exact hle

end Request

end OrbitImage

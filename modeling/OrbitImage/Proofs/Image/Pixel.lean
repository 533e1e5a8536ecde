import OrbitImage.Proofs.Image.Painting
/-!
Buffers that are written pixel by pixel. A pixel is written exactly if the buffer has all its bytes,
and then it is read back, while the other pixels stay as they were.
-/
namespace OrbitImage

/-- A byte that is there can be replaced, and all others stay. -/
theorem exists_setByte? {bytes : ByteArray} {i : Nat} (h : i < bytes.size) (b : UInt8) :
    ∃ bytes', setByte? bytes i b = some bytes' ∧ bytes'.size = bytes.size ∧
      ∀ j, byteAt? bytes' j = if i = j then some b else byteAt? bytes j := by
  refine ⟨bytes.set i b, dif_pos h, Array.size_set h, fun j => ?_⟩
  have hset : (bytes.set i b h).data.toList = bytes.data.toList.set i b :=
    Array.toList_set bytes.data i b h
  have hlt : i < bytes.data.toList.length := h
  rw [byteAt?_eq, byteAt?_eq, hset, List.getElem?_set, if_pos hlt]

theorem byteAt?_of_lt {bytes : ByteArray} {i : Nat} (h : i < bytes.size) :
    byteAt? bytes i = some bytes[i] :=
  dif_pos h

theorem byteAt?_of_le {bytes : ByteArray} {i : Nat} (h : bytes.size ≤ i) :
    byteAt? bytes i = none :=
  dif_neg (Nat.not_lt.mpr h)

/-- A buffer is known by its size and its bytes. -/
theorem ext_byteAt? {bytes bytes' : ByteArray} (hsize : bytes'.size = bytes.size)
    (h : ∀ i < bytes.size, byteAt? bytes' i = byteAt? bytes i) : bytes' = bytes := by
  apply ByteArray.ext
  apply Array.toList_inj.mp
  apply List.ext_getElem?
  intro i
  rw [← byteAt?_eq, ← byteAt?_eq]
  by_cases hi : i < bytes.size
  · exact h i hi
  · rw [byteAt?_of_le (by omega), byteAt?_of_le (by omega)]

namespace Pixel

/-- The byte of a channel. -/
def byte (p : Pixel) : Nat → UInt8
  | 0 => p.red
  | 1 => p.green
  | 2 => p.blue
  | _ => p.alpha

/-- A pixel that is written takes the place of the bytes of its quarter. -/
theorem exists_write? {bytes : ByteArray} {i : Nat} (h : 4 * i + 3 < bytes.size) (p : Pixel) :
    ∃ bytes', p.write? bytes i = some bytes' ∧ bytes'.size = bytes.size ∧
      ∀ k, byteAt? bytes' k = if k / 4 = i then some (p.byte (k % 4)) else byteAt? bytes k := by
  have h₀ : 4 * i < bytes.size := by omega
  obtain ⟨red, hred, hsize₀, hbyte₀⟩ := exists_setByte? h₀ p.red
  have h₁ : 4 * i + 1 < red.size := by omega
  obtain ⟨green, hgreen, hsize₁, hbyte₁⟩ := exists_setByte? h₁ p.green
  have h₂ : 4 * i + 2 < green.size := by omega
  obtain ⟨blue, hblue, hsize₂, hbyte₂⟩ := exists_setByte? h₂ p.blue
  have h₃ : 4 * i + 3 < blue.size := by omega
  obtain ⟨alpha, halpha, hsize₃, hbyte₃⟩ := exists_setByte? h₃ p.alpha
  refine ⟨alpha, ?_, by omega, fun k => ?_⟩
  · simp only [write?, hred, hgreen, hblue, halpha, Option.bind_eq_bind, Option.bind_some]
  · rw [hbyte₃, hbyte₂, hbyte₁, hbyte₀]
    by_cases hk : k / 4 = i
    · have hchannel : k % 4 = 0 ∨ k % 4 = 1 ∨ k % 4 = 2 ∨ k % 4 = 3 := by omega
      rw [if_pos hk]
      obtain hc | hc | hc | hc := hchannel
      · rw [hc, if_neg (by omega), if_neg (by omega), if_neg (by omega), if_pos (by omega)]
        rfl
      · rw [hc, if_neg (by omega), if_neg (by omega), if_pos (by omega)]
        rfl
      · rw [hc, if_neg (by omega), if_pos (by omega)]
        rfl
      · rw [hc, if_pos (by omega)]
        rfl
    · rw [if_neg hk, if_neg (by omega), if_neg (by omega), if_neg (by omega), if_neg (by omega)]

/-- A pixel that is there is read as its bytes. -/
theorem byteAt?_of_read {bytes : ByteArray} {i c : Nat} (h : 4 * i + 3 < bytes.size) (hc : c < 4) :
    byteAt? bytes (4 * i + c) = some ((read bytes i).byte c) := by
  have hbyte (k : Nat) (hk : k < 4) :
      byteAt? bytes (4 * i + k) = some ((byteAt? bytes (4 * i + k)).getD 0) := by
    rw [byteAt?_of_lt (by omega)]
    rfl
  match c with
  | 0 => exact hbyte 0 hc
  | 1 => exact hbyte 1 hc
  | 2 => exact hbyte 2 hc
  | 3 => exact hbyte 3 hc

theorem read_eq_of_byteAt? {bytes : ByteArray} {i : Nat} {p : Pixel}
    (h : ∀ c < 4, byteAt? bytes (4 * i + c) = some (p.byte c)) : read bytes i = p := by
  simp only [read, h 0 (by decide), h 1 (by decide), h 2 (by decide), h 3 (by decide)]
  rfl

/-- What is written is read back, and what is beside it stays. -/
theorem read_of_write? {bytes bytes' : ByteArray} {i : Nat} {p : Pixel}
    (h : ∀ k, byteAt? bytes' k = if k / 4 = i then some (p.byte (k % 4)) else byteAt? bytes k)
    (j : Nat) : read bytes' j = if j = i then p else read bytes j := by
  have hdiv (c : Nat) (hc : c < 4) : (4 * j + c) / 4 = j := by omega
  have hmod (c : Nat) (hc : c < 4) : (4 * j + c) % 4 = c := by omega
  split
  next hj =>
    apply read_eq_of_byteAt?
    intro c hc
    rw [h, hdiv c hc, hmod c hc, if_pos hj]
  next hj =>
    simp only [read, h, hdiv 0 (by decide), hdiv 1 (by decide), hdiv 2 (by decide),
      hdiv 3 (by decide), if_neg hj]

end Pixel

end OrbitImage

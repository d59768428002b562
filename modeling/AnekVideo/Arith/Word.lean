/-
  AnekVideo.Arith.Word

  32-bit words in byte-addressed memory, least significant byte first.
-/
import Mathlib

namespace Word

/-- Memory: a byte at every offset. -/
abbrev Bytes := Nat → UInt8

/-- The word at offset `o`. -/
def load32 (d : Bytes) (o : Nat) : UInt32 :=
  UInt32.ofNat ((d o).toNat + 256 * ((d (o + 1)).toNat + 256 * ((d (o + 2)).toNat +
    256 * (d (o + 3)).toNat)))

/-- The memory after storing `v` at offset `o`. -/
def store32 (d : Bytes) (o : Nat) (v : UInt32) : Bytes := fun i =>
  if o ≤ i ∧ i < o + 4 then UInt8.ofNat (v.toNat / 256 ^ (i - o)) else d i

variable {d d' : Bytes} {o o' : Nat} {v : UInt32}

/-- A word depends only on its four bytes. -/
theorem load32_congr (h : ∀ i, o ≤ i → i < o + 4 → d' i = d i) :
    load32 d' o = load32 d o := by
  simp only [load32, h o (by omega) (by omega), h (o + 1) (by omega) (by omega),
    h (o + 2) (by omega) (by omega), h (o + 3) (by omega) (by omega)]

theorem store32_of_lt {i : Nat} (hi : i < o ∨ o + 4 ≤ i) : store32 d o v i = d i :=
  if_neg (by omega)

theorem load32_store32_ne (h : o' + 4 ≤ o ∨ o + 4 ≤ o') :
    load32 (store32 d o v) o' = load32 d o' :=
  load32_congr fun i _ _ => store32_of_lt (by omega)

theorem load32_store32 : load32 (store32 d o v) o = v := by
  have hbyte : ∀ j, j < 4 → (store32 d o v (o + j)).toNat = v.toNat / 256 ^ j % 256 := by
    intro j hj
    rw [store32, if_pos (by omega), Nat.add_sub_cancel_left]
    simp
  have hv : v.toNat < 2 ^ 32 := v.toNat_lt
  apply UInt32.toNat_inj.1
  rw [load32, UInt32.toNat_ofNat']
  have h0 := hbyte 0 (by decide)
  rw [Nat.add_zero] at h0
  rw [h0, hbyte 1 (by decide), hbyte 2 (by decide), hbyte 3 (by decide)]
  norm_num
  omega

@[simp] theorem load32_zero (o : Nat) : load32 (fun _ => 0) o = 0 := rfl

end Word

/-
  AnekVideo.Shm.Layout

  The layout of a segment: its size, where its marker stands, and how long its
  mapping is.  `av_shm_create_rw`, `av_shm_attach_ro`, `av_shm_cleanup` and
  `av_shm_free` each compute their part anew, in `size_t`; here the roundings
  turn into `roundUp`, none of them wraps, and the four agree.
-/
import AnekVideo.Arith.RoundUp
import AnekVideo.Shm.Code

namespace AnekVideo

open Interact RoundUp

variable (h : Host)

/-! ## The machine -/

theorem Host.ptrSize_pos : 0 < h.ptrSize := by
  rcases h.ptrSize_eq with hp | hp <;> omega

theorem Host.pageSize_le : h.pageSize ≤ 1024 * 1024 * 64 :=
  Nat.le_of_dvd (by decide) h.page_dvd_max

theorem Host.pageSize_pos : 0 < h.pageSize :=
  Nat.pos_of_dvd_of_pos h.page_dvd_max (by decide)

theorem Host.sizeMod_ge : 2 ^ 32 ≤ h.sizeMod := by
  rcases h.ptrSize_eq with hp | hp <;> simp [Host.sizeMod, hp]

theorem Host.four_dvd_ptrSize : 4 ∣ h.ptrSize := by
  rcases h.ptrSize_eq with hp | hp <;> omega

theorem Host.ptrSize_dvd_eight : h.ptrSize ∣ 8 := by
  rcases h.ptrSize_eq with hp | hp
  · rw [hp]
    decide
  · rw [hp]

/-! ## The roundings -/

variable {h}

theorem avAlign_eq {l : Nat} (hl : l + h.ptrSize < h.sizeMod) :
    avAlign h l = roundUp h.ptrSize l := by
  have hp := h.ptrSize_pos
  have hup := roundUp_lt hp (l := l)
  rw [avAlign, Nat.mod_eq_of_lt (by omega : l + h.ptrSize - 1 < h.sizeMod)]
  exact Nat.mod_eq_of_lt (Nat.lt_trans hup hl)

theorem avPageAlign_eq {l : Nat} (hl : l + h.pageSize < h.sizeMod) :
    avPageAlign h l = roundUp h.pageSize l := by
  have hp := h.pageSize_pos
  have hup := roundUp_lt hp (l := l)
  rw [avPageAlign, Nat.mod_eq_of_lt (by omega : l + h.pageSize - 1 < h.sizeMod)]
  exact Nat.mod_eq_of_lt (Nat.lt_trans hup hl)

theorem ptrSize_no_wrap {l : Nat} (hl : l ≤ 2 ^ 28) : l + h.ptrSize < h.sizeMod := by
  have := h.sizeMod_ge
  rcases h.ptrSize_eq with hp | hp <;> omega

theorem pageSize_no_wrap {l : Nat} (hl : l ≤ 2 ^ 28) : l + h.pageSize < h.sizeMod := by
  have := h.sizeMod_ge
  have := h.pageSize_le
  omega

variable (h)

theorem maxShmSize_eq : maxShmSize h = 2 ^ 26 := by
  have hdvd : h.ptrSize ∣ 1024 * 1024 * 64 := h.ptr_dvd_page.trans h.page_dvd_max
  calc maxShmSize h = roundUp h.ptrSize (1024 * 1024 * 64) :=
    avAlign_eq (ptrSize_no_wrap (by decide))
    _ = 1024 * 1024 * 64 := roundUp_of_dvd h.ptrSize_pos hdvd
    _ = 2 ^ 26 := by decide

theorem shmMarkerSize_eq : shmMarkerSize h = 8 := by
  rw [shmMarkerSize, avAlign_eq (ptrSize_no_wrap (by decide)),
    roundUp_of_dvd h.ptrSize_pos h.ptrSize_dvd_eight]

/-! ## The size of a segment -/

/-- The sizes `av_shm_create_rw` admits. -/
def SizeOk (size : Nat) : Prop := 0 < size ∧ size ≤ maxShmSize h

/-- What `av_shm_create_rw` offers to the user: `AV_PAGE_ALIGN(size)`. -/
def userSize (size : Nat) : Nat := avPageAlign h size

/-- `m->size` of a shared segment. -/
def segSize (size : Nat) : Nat := (avPageAlign h size + shmMarkerSize h) % h.sizeMod

/-- Where the marker of a segment of size `s` starts. -/
def markerOff (s : Nat) : Nat := s - shmMarkerSize h

variable {h} {size : Nat}

theorem SizeOk.le (hs : SizeOk h size) : size ≤ 2 ^ 26 := maxShmSize_eq h ▸ hs.2

theorem userSize_eq (hs : SizeOk h size) : userSize h size = roundUp h.pageSize size :=
  avPageAlign_eq (pageSize_no_wrap (Nat.le_trans hs.le (by decide)))

theorem le_userSize (hs : SizeOk h size) : size ≤ userSize h size :=
  userSize_eq hs ▸ le_roundUp h.pageSize_pos

theorem userSize_le (hs : SizeOk h size) : userSize h size ≤ 2 ^ 26 :=
  userSize_eq hs ▸ roundUp_le h.pageSize_pos h.page_dvd_max hs.le

theorem userSize_pos (hs : SizeOk h size) : 0 < userSize h size :=
  Nat.lt_of_lt_of_le hs.1 (le_userSize hs)

theorem page_dvd_userSize (hs : SizeOk h size) : h.pageSize ∣ userSize h size :=
  userSize_eq hs ▸ dvd_roundUp ..

theorem ptrSize_dvd_userSize (hs : SizeOk h size) : h.ptrSize ∣ userSize h size :=
  h.ptr_dvd_page.trans (page_dvd_userSize hs)

theorem segSize_eq (hs : SizeOk h size) : segSize h size = userSize h size + 8 := by
  have hle := userSize_le hs
  have hmod := h.sizeMod_ge
  rw [segSize, shmMarkerSize_eq]
  exact Nat.mod_eq_of_lt (by unfold userSize at hle; omega)

theorem segSize_le (hs : SizeOk h size) : segSize h size ≤ 2 ^ 26 + 8 := by
  rw [segSize_eq hs]
  exact Nat.add_le_add_right (userSize_le hs) 8

theorem segSize_pos (hs : SizeOk h size) : 0 < segSize h size := by
  rw [segSize_eq hs]
  omega

theorem markerSize_le_segSize (hs : SizeOk h size) : shmMarkerSize h ≤ segSize h size := by
  rw [shmMarkerSize_eq, segSize_eq hs]
  exact Nat.le_add_left ..

theorem markerOff_segSize (hs : SizeOk h size) :
    markerOff h (segSize h size) = userSize h size := by
  rw [markerOff, segSize_eq hs, shmMarkerSize_eq, Nat.add_sub_cancel]

/-- The cleanup and the creator compute the same place in a mapping. -/
theorem markerAddr_eq {ptr s : Nat} (hs : shmMarkerSize h ≤ s) :
    markerAddr h ptr s = ptr + markerOff h s := by
  rw [markerAddr, markerOff, Nat.add_sub_assoc hs]

/-- The mapping of a segment of size `s` covers it. -/
theorem le_mapLen {s : Nat} (hs : s ≤ 2 ^ 28) : s ≤ avPageAlign h s := by
  rw [avPageAlign_eq (pageSize_no_wrap hs)]
  exact le_roundUp h.pageSize_pos

theorem page_dvd_mapLen {s : Nat} (hs : s ≤ 2 ^ 28) : h.pageSize ∣ avPageAlign h s := by
  rw [avPageAlign_eq (pageSize_no_wrap hs)]
  exact dvd_roundUp ..

/-! ## The test of an attach -/

/-- What the tests of `av_shm_attach_ro` let pass. -/
theorem invalidSize_eq_false_iff {s : Nat} :
    invalidSize h s = false ↔ 0 < s ∧ s ≤ 2 ^ 26 + 8 ∧ h.ptrSize ∣ s := by
  have hmod := h.sizeMod_ge
  simp only [invalidSize, Bool.or_eq_false_iff, decide_eq_false_iff_not, maxShmSize_eq,
    shmMarkerSize_eq]
  constructor
  · rintro ⟨⟨hpos, hle⟩, halign⟩
    rw [Nat.mod_eq_of_lt (by omega), avAlign_eq (ptrSize_no_wrap (by omega)), not_not,
      roundUp_eq_self_iff h.ptrSize_pos] at halign
    exact ⟨by omega, by omega, halign⟩
  · rintro ⟨hpos, hle, hdvd⟩
    refine ⟨⟨by omega, by omega⟩, ?_⟩
    rw [Nat.mod_eq_of_lt (by omega), avAlign_eq (ptrSize_no_wrap (by omega)), not_not,
      roundUp_of_dvd h.ptrSize_pos hdvd]

/-- An attach accepts every segment a create makes, with the creator's size. -/
theorem invalidSize_segSize (hs : SizeOk h size) : invalidSize h (segSize h size) = false := by
  rw [invalidSize_eq_false_iff]
  refine ⟨segSize_pos hs, segSize_le hs, ?_⟩
  rw [segSize_eq hs]
  exact Nat.dvd_add (ptrSize_dvd_userSize hs) h.ptrSize_dvd_eight

/-- What an attach maps covers the segment, and is whole pages. -/
theorem mapLen_attached {s : Nat} (hs : invalidSize h s = false) :
    s ≤ avPageAlign h s ∧ 0 < avPageAlign h s ∧
      roundUp h.pageSize (avPageAlign h s) = avPageAlign h s := by
  rw [invalidSize_eq_false_iff] at hs
  have hle : s ≤ 2 ^ 28 := by omega
  have hcover := le_mapLen (h := h) hle
  exact ⟨hcover, by omega, roundUp_of_dvd h.pageSize_pos (page_dvd_mapLen hle)⟩

/-- No page starts at `MAP_FAILED`. -/
theorem page_ne_mapFailed {a : Nat} (ha : h.pageSize ∣ a) : a ≠ mapFailed h := by
  have h4 : 4 ∣ a := h.four_dvd_ptrSize.trans (h.ptr_dvd_page.trans ha)
  have hmod : 4 ∣ h.sizeMod := by
    rcases h.ptrSize_eq with hp | hp <;> rw [Host.sizeMod, hp] <;> decide
  have hge := h.sizeMod_ge
  unfold mapFailed
  omega

theorem mod_sizeMod {s : Nat} (hs : invalidSize h s = false) : s % h.sizeMod = s := by
  have hmod := h.sizeMod_ge
  rw [invalidSize_eq_false_iff] at hs
  exact Nat.mod_eq_of_lt (by omega)

end AnekVideo

/-
  AnekVideo.Shm.Maps

  The address space of a process.  The kernel never maps over a mapping, so an
  address lies in at most one of them, and unmapping exactly one of them takes
  away that one and leaves the others.
-/
import AnekVideo.Shm.Kernel

namespace AnekVideo

variable {m m' : Mapping} {p : Proc} {a lo hi : Nat}

theorem Mapping.Disjoint.symm (h : m.Disjoint m') : m'.Disjoint m := Or.symm h

theorem Mapping.not_disjoint (h : m.addr ≤ a ∧ a < m.addr + m.len)
    (h' : m'.addr ≤ a ∧ a < m'.addr + m'.len) : ¬ m.Disjoint m' := by
  unfold Mapping.Disjoint
  omega

/-- Mappings that do not overlap start at different addresses. -/
theorem Mapping.Disjoint.addr_ne (hm : 0 < m.len) (hm' : 0 < m'.len) (h : m.Disjoint m') :
    m.addr ≠ m'.addr := by
  unfold Mapping.Disjoint at h
  omega

theorem Mapping.cut_self (hm : 0 < m.len) : m.cut m.addr (m.addr + m.len) = [] := by
  have hin : ¬ (m.addr + m.len ≤ m.addr ∨ m.addr + m.len ≤ m.addr) := by omega
  simp [Mapping.cut, hm.ne']

theorem Mapping.cut_disjoint (h : m.Disjoint m') : m'.cut m.addr (m.addr + m.len) = [m'] :=
  if_pos h

/-- The mapping an address lies in is the one that is found. -/
theorem Proc.mapAt_eq_of_others (hd : ∀ m' ∈ p.maps, m' ≠ m → m.Disjoint m')
    (hm : m ∈ p.maps) (ha : m.addr ≤ a ∧ a < m.addr + m.len) : p.mapAt a = some m := by
  have hsome : (p.mapAt a).isSome := List.find?_isSome.2 ⟨m, hm, decide_eq_true ha⟩
  obtain ⟨m', hm'⟩ := Option.isSome_iff_exists.1 hsome
  have hmem : m' ∈ p.maps := List.mem_of_find?_eq_some hm'
  have ha' : m'.addr ≤ a ∧ a < m'.addr + m'.len := by simpa using List.find?_some hm'
  by_cases heq : m' = m
  · rw [hm', heq]
  · exact absurd (hd m' hmem heq) (Mapping.not_disjoint ha ha')

theorem Proc.mapAt_eq (hd : p.maps.Pairwise Mapping.Disjoint) (hm : m ∈ p.maps)
    (ha : m.addr ≤ a ∧ a < m.addr + m.len) : p.mapAt a = some m := by
  have hsymm : Std.Symm Mapping.Disjoint := ⟨fun _ _ => Mapping.Disjoint.symm⟩
  exact Proc.mapAt_eq_of_others (fun m' hm' hne => hd.forall hm hm' hne.symm) hm ha

theorem Mapping.flatMap_cut {ms : List Mapping} (hd : ∀ m' ∈ ms, m.Disjoint m') :
    ms.flatMap (Mapping.cut m.addr (m.addr + m.len)) = ms := by
  rw [List.flatMap_congr (g := fun m' => [m']) fun m' hm' => Mapping.cut_disjoint (hd m' hm')]
  exact List.flatMap_singleton' ms

/-- Unmapping a mapping that overlaps no other leaves the others. -/
theorem Proc.unmap_perm {ms : List Mapping} (hp : p.maps.Perm (m :: ms))
    (hd : ∀ m' ∈ ms, m.Disjoint m') (hlen : 0 < m.len) :
    (p.unmap m.addr (m.addr + m.len)).maps.Perm ms := by
  have hperm := hp.flatMap_right (Mapping.cut m.addr (m.addr + m.len))
  rwa [List.flatMap_cons, Mapping.cut_self hlen, Mapping.flatMap_cut hd] at hperm

/-- Unmapping one mapping removes it and keeps the others. -/
theorem Proc.unmap_maps (hd : p.maps.Pairwise Mapping.Disjoint) (hm : m ∈ p.maps)
    (hlen : 0 < m.len) : (p.unmap m.addr (m.addr + m.len)).maps = p.maps.erase m := by
  change p.maps.flatMap (Mapping.cut m.addr (m.addr + m.len)) = _
  generalize p.maps = maps at hd hm
  induction maps with
  | nil => cases hm
  | cons m₀ maps ih =>
    rw [List.pairwise_cons] at hd
    rw [List.flatMap_cons]
    by_cases h₀ : m₀ = m
    · subst h₀
      rw [Mapping.cut_self hlen, Mapping.flatMap_cut hd.1, List.erase_cons_head]
      rfl
    · have hm : m ∈ maps := by
        rcases List.mem_cons.1 hm with h | h
        · exact absurd h.symm h₀
        · exact h
      rw [Mapping.cut_disjoint (hd.1 m hm).symm, ih hd.2 hm,
        List.erase_cons_tail (by simpa using h₀)]
      rfl

theorem Proc.pairwise_erase (hd : p.maps.Pairwise Mapping.Disjoint) :
    (p.maps.erase m).Pairwise Mapping.Disjoint :=
  hd.sublist List.erase_sublist

/-! ## Descriptors -/

theorem Proc.file_eq_none {fd : Int} : p.file fd = none ↔ ∀ x ∈ p.fds, x.1 ≠ fd := by
  unfold Proc.file
  rw [List.lookup_eq_none_iff]
  refine forall₂_congr fun x _ => ?_
  rw [bne_iff_ne]
  exact ne_comm

theorem Proc.file_cons {fd : Int} {f : File} {fds : List (Int × File)}
    (hp : p.fds = (fd, f) :: fds) : p.file fd = some f := by
  simp [Proc.file, hp]

/-- Closing the newest descriptor leaves the older ones. -/
theorem Proc.closeFd_cons {fd : Int} {f : File} {fds : List (Int × File)}
    (hp : p.fds = (fd, f) :: fds) (hd : ∀ x ∈ fds, x.1 ≠ fd) : (p.closeFd fd).fds = fds := by
  change p.fds.filter (fun x => x.1 ≠ fd) = fds
  rw [hp, List.filter_cons_of_neg (by simp), List.filter_eq_self]
  exact fun x hx => by simpa using hd x hx

/-! ## There is always room -/

theorem Proc.exists_fd (p : Proc) : ∃ n : Nat, p.file n = none := by
  have hbound : ∃ n : Nat, ∀ x ∈ p.fds, x.1 < n := by
    generalize p.fds = fds
    induction fds with
    | nil => exact ⟨0, nofun⟩
    | cons x fds ih =>
      obtain ⟨n, hn⟩ := ih
      refine ⟨n + x.1.toNat + 1, fun y hy => ?_⟩
      rcases List.mem_cons.1 hy with rfl | hy
      · omega
      · have := hn y hy
        omega
  obtain ⟨n, hn⟩ := hbound
  exact ⟨n, file_eq_none.2 fun x hx => (hn x hx).ne⟩

theorem Proc.exists_addr (p : Proc) {page : Nat} (hpage : 0 < page) :
    ∃ a, 0 < a ∧ page ∣ a ∧ ∀ m ∈ p.maps, m.addr + m.len ≤ a := by
  have hbound : ∃ n : Nat, ∀ m ∈ p.maps, m.addr + m.len ≤ n := by
    generalize p.maps = maps
    induction maps with
    | nil => exact ⟨0, nofun⟩
    | cons m maps ih =>
      obtain ⟨n, hn⟩ := ih
      refine ⟨n + m.addr + m.len, fun m' hm' => ?_⟩
      rcases List.mem_cons.1 hm' with rfl | hm'
      · omega
      · have := hn m' hm'
        omega
  obtain ⟨n, hn⟩ := hbound
  have hle : n + 1 ≤ page * (n + 1) := Nat.le_mul_of_pos_left _ hpage
  exact ⟨page * (n + 1), by omega, Nat.dvd_mul_right .., fun m hm => by have := hn m hm; omega⟩

end AnekVideo

/-
  AnekVideo.Server.Grow

  The capacity of a `struct av_buffer`.  `av_buffer_grow` computes it in `int`
  from a `size_t` and rounds it past the next multiple of `BUF_CHUNK`, so it
  does what it is for as long as the sum stays an `int`.  Where the `int` goes
  negative the allocator refuses the request and the assertion ends the process;
  where it wraps to 0 or above, the call returns a buffer that is too small.
-/
import AnekVideo.Server.Heap

namespace AnekVideo
namespace Server

open Interact State

/-! ## The size -/

theorem tmod_of_neg {x : Int} (hx : x < 0) (m : Int) : x.tmod m = -((-x) % m) := by
  rw [← Int.tmod_eq_emod_of_nonneg (by omega), Int.neg_tmod, Int.neg_neg]

/-- The new size: the next chunk after the sum, or what the wrapped sum gives. -/
theorem grownSize_eq {s : Int} (h0 : 0 ≤ s) (hs : s < 2 ^ 31) (n : Nat) :
    grownSize s n = if (s + n) % 2 ^ 32 < 2 ^ 31 - 1024 then 1024 * ((s + n) % 2 ^ 32 / 1024 + 1)
      else if (s + n) % 2 ^ 32 < 2 ^ 31 then - 2 ^ 31
      else 1024 - 1024 * ((2 ^ 32 - (s + n) % 2 ^ 32) / 1024) := by
  have hsum : toInt ((toSize s + n : Nat) % 2 ^ 64) =
      if (s + n) % 2 ^ 32 < 2 ^ 31 then (s + n) % 2 ^ 32 else (s + n) % 2 ^ 32 - 2 ^ 32 := by
    unfold toInt toSize
    push_cast
    omega
  unfold grownSize
  simp only [hsum, bufChunk]
  -- the sign of the sum decides what the remainder is
  by_cases hx : (s + n) % 2 ^ 32 < 2 ^ 31
  · rw [if_pos hx, Int.tmod_eq_emod_of_nonneg (by omega)]
    unfold toInt
    omega
  · rw [if_neg hx, tmod_of_neg (by omega)]
    unfold toInt
    omega

theorem grownSize_range {s : Int} (h0 : 0 ≤ s) (hs : s < 2 ^ 31) (n : Nat) :
    -2 ^ 31 ≤ grownSize s n ∧ grownSize s n < 2 ^ 31 := by
  rw [grownSize_eq h0 hs]
  omega

theorem bufChunk_dvd_grownSize {s : Int} (h0 : 0 ≤ s) (hs : s < 2 ^ 31) (n : Nat) :
    bufChunk ∣ grownSize s n := by
  rw [grownSize_eq h0 hs]
  unfold bufChunk
  omega

theorem toSize_of_nonneg {s : Int} (h0 : 0 ≤ s) (hs : s < 2 ^ 31) : toSize s = s.toNat := by
  unfold toSize
  omega

/-- A negative size is more than the allocator gives. -/
theorem nonneg_of_toSize_le {s : Int} (hs : -2 ^ 31 ≤ s) (hle : toSize s ≤ ptrdiffMax) :
    0 ≤ s := by
  unfold toSize ptrdiffMax at hle
  omega

/-! ## The invariant -/

/-- `b` holds an allocation of exactly `b.size` bytes, a positive number of chunks, and the
    used bytes are in it. -/
structure Holds (k : State) (b : AvBuffer) : Prop where
  notNull : b.buf ≠ 0
  block : (k.blocks b.buf).map List.length = some b.size.toNat
  pos : 0 < b.size
  int : b.size < 2 ^ 31
  chunks : bufChunk ∣ b.size
  usedPos : 0 ≤ b.used
  usedLe : b.used ≤ b.size

/-- A buffer is as `buffer_init` leaves it, or holds its allocation. -/
def BufOk (k : State) (b : AvBuffer) : Prop := b = {} ∨ Holds k b

/-- The first `used` bytes. -/
def contents (k : State) (b : AvBuffer) : List UInt8 :=
  ((k.blocks b.buf).getD []).take b.used.toNat

theorem Holds.exists_block {k : State} {b : AvBuffer} (h : Holds k b) :
    ∃ bytes, k.blocks b.buf = some bytes ∧ bytes.length = b.size.toNat :=
  Option.map_eq_some_iff.1 h.block

theorem BufOk.size {k : State} {b : AvBuffer} (h : BufOk k b) :
    0 ≤ b.size ∧ b.size < 2 ^ 31 ∧ bufChunk ∣ b.size ∧ 0 ≤ b.used ∧
    b.used ≤ b.size := by
  rcases h with rfl | h
  · exact ⟨by decide, by decide, by decide, by decide, by decide⟩
  · exact ⟨h.pos.le, h.int, h.chunks, h.usedPos, h.usedLe⟩

/-! ## What a call does -/

/-- A new allocation, with the old bytes as far as they fit. -/
structure Grown (k : State) (b : AvBuffer) (s : Int) (k' : State) (b' : AvBuffer) : Prop where
  size : b'.size = s
  used : b'.used = b.used
  notNull : b'.buf ≠ 0
  place : b'.buf = b.buf ∨ k.blocks b'.buf = none
  limit : toSize s ≤ ptrdiffMax
  block : ∃ bytes, k'.blocks b'.buf = some bytes ∧ bytes.length = toSize s ∧
    (b.buf ≠ 0 → ((k.blocks b.buf).getD []).take (toSize s) <+: bytes)
  frame : ∀ q, q ≠ b.buf → q ≠ b'.buf → k'.blocks q = k.blocks q
  msgs : k'.msgs = k.msgs
  connected : k'.connected = k.connected
  wild : k'.wild = k.wild

variable {k k' : State} {b b' : AvBuffer} {n : Nat} {ev : Event} {ch : Choice}

theorem malloc_cases {p : Nat} (he : malloc ch n k = some (p, k')) :
    (p = 0 ∧ k' = k) ∨ (p ≠ 0 ∧ k.blocks p = none ∧ n ≤ ptrdiffMax ∧
      ∃ bytes, bytes.length = n ∧ k' = k.setBlock p (some bytes)) := by
  unfold malloc at he
  split at he
  · rename_i q bytes
    split at he
    · rename_i hq
      obtain ⟨hq0, hnone, hlen, hle⟩ := hq
      cases he
      exact .inr ⟨hq0, Option.isNone_iff_eq_none.1 hnone, hle, bytes, hlen, rfl⟩
    · cases he
  · cases he
    exact .inl ⟨rfl, rfl⟩

theorem realloc_cases {p q : Nat} (he : realloc ch p n k = some (q, k')) :
    (q = 0 ∧ k' = k) ∨ (q ≠ 0 ∧ (q = p ∨ k.blocks q = none) ∧ n ≤ ptrdiffMax ∧
      ∃ old bytes, k.blocks p = some old ∧ bytes.length = n ∧ old.take n <+: bytes ∧
        k' = (k.setBlock p none).setBlock q (some bytes)) := by
  unfold realloc at he
  split at he
  · rename_i q' bytes old hp
    split at he
    · rename_i hq
      obtain ⟨hq0, hplace, hlen, hle, hpre⟩ := hq
      cases he
      exact .inr ⟨hq0, hplace.imp_right Option.isNone_iff_eq_none.1, hle, old, bytes, hp, hlen,
        List.isPrefixOf_iff_prefix.1 hpre, rfl⟩
    · cases he
  · cases he
  · cases he
    exact .inl ⟨rfl, rfl⟩

/-- An assertion that fails ends the process. -/
theorem assert_ends {c : Bool} {e : String} {Q : Unit → State → Prop}
    (hQ : c = true → Q () k) :
    Ends (sem ev) (fun _ => True) Q (assert c e) k := by
  unfold assert
  split
  · rename_i hc
    exact .pure (hQ hc)
  · refine .op (.inl trivial) fun _ k₁ _ => .op (.inl trivial) fun r _ _ => ?_
    exact r.elim

/-- The allocation finds a block for the new size, or leaves a null pointer. -/
theorem avBufferAlloc_ends (hb : BufOk k b) (s : Int) :
    Ends (sem ev) (fun _ => True) (fun b' k' => b'.buf = 0 ∨ Grown k b s k' b')
      (avBufferAlloc { b with size := s }) k := by
  unfold avBufferAlloc
  dsimp only
  by_cases h0 : b.buf = 0
  · rw [if_pos h0]
    -- a buffer without a block is a fresh one
    have hfresh : b = {} := hb.resolve_right fun h => h.notNull h0
    refine .op (.inl trivial) fun p k₁ hs => ?_
    obtain ⟨ch, he⟩ := hs
    rcases malloc_cases he with ⟨rfl, -⟩ | ⟨hp, hnone, hle, bytes, hlen, rfl⟩
    · exact .pure (.inl rfl)
    · refine .pure (.inr ?_)
      subst hfresh
      exact
        { size := rfl
          used := rfl
          notNull := hp
          place := .inr hnone
          limit := hle
          block := ⟨bytes, by simp, hlen, fun h => absurd rfl h⟩
          frame := fun q _ hq => by simp [hq]
          msgs := rfl
          connected := rfl
          wild := rfl }
  · rw [if_neg h0]
    refine .op (.inl trivial) fun p k₁ hs => ?_
    obtain ⟨ch, he⟩ := hs
    rcases realloc_cases he with ⟨rfl, -⟩ | ⟨hp, hplace, hle, old, bytes, hold, hlen, hpre,
      rfl⟩
    · exact .pure (.inl rfl)
    · refine .pure (.inr ?_)
      exact
        { size := rfl
          used := rfl
          notNull := hp
          place := hplace
          limit := hle
          block := ⟨bytes, by simp, hlen, fun _ => by simpa [hold] using hpre⟩
          frame := fun q hqb hq => by simp [hq, hqb]
          msgs := rfl
          connected := rfl
          wild := rfl }

/-- One call of `av_buffer_grow`: nothing to do, or a buffer of the new size. -/
theorem avBufferGrow_ends (hb : BufOk k b) (n : Nat) :
    Ends (sem ev) (fun _ => True) (fun r k' => ∃ b', r = (0, some b') ∧
      ((n < b.size.toNat ∧ b' = b ∧ k' = k) ∨
        (b.size.toNat ≤ n ∧ Grown k b (grownSize b.size n) k' b')))
      (avBufferGrow (some b) n) k := by
  obtain ⟨h0, hlt, -⟩ := hb.size
  unfold avBufferGrow
  dsimp only
  rw [toSize_of_nonneg h0 hlt]
  split
  · rename_i hn
    exact .pure ⟨b, rfl, .inl ⟨hn, rfl, rfl⟩⟩
  · rename_i hn
    refine .seq (avBufferAlloc_ends hb _) fun b' k₁ hgrown =>
      .op (.inl trivial) fun _ k₂ hs => ?_
    obtain ⟨ch, he⟩ := hs
    cases he
    refine .seq (Q := fun _ k' => k' = k₁ ∧ b'.buf ≠ 0) (assert_ends ?_) fun _ k₂ hk => ?_
    · intro hp
      exact ⟨rfl, of_decide_eq_true hp⟩
    · obtain ⟨rfl, hp⟩ := hk
      exact .pure ⟨b', rfl, .inr ⟨by omega, hgrown.resolve_left hp⟩⟩

/-! ## The condition -/

/-- What a call that returns 0 has to leave. -/
structure GrowOk (k : State) (b : AvBuffer) (n : Nat) (k' : State) (b' : AvBuffer) : Prop where
  holds : Holds k' b'
  request : n ≤ b'.size
  grows : b.size ≤ b'.size
  used : b'.used = b.used
  contents : contents k' b' = contents k b

/-- The request is already met, the sum and its rounding stay below 2^31, or they turn the
    `int` negative, so that the allocation fails. -/
def Fits (b : AvBuffer) (n : Nat) : Prop :=
  n < b.size ∨ b.size + n < 2 ^ 31 - 1024 ∨
    (2 ^ 31 - 1024 ≤ (b.size + n) % 2 ^ 32 ∧ (b.size + n) % 2 ^ 32 ≤ 2 ^ 32 - 2048)

/-- A new allocation is right if its size is. -/
theorem Grown.ok {s : Int} (hb : BufOk k b) (hg : Grown k b s k' b') (hpos : 0 < s)
    (hint : s < 2 ^ 31) (hchunk : bufChunk ∣ s) (hn : n ≤ s) (hgrows : b.size ≤ s) :
    GrowOk k b n k' b' := by
  obtain ⟨bytes, hbytes, hlen, hpre⟩ := hg.block
  obtain ⟨-, -, -, hused0, hused⟩ := hb.size
  rw [toSize_of_nonneg hpos.le hint] at hlen hpre
  refine ⟨⟨hg.notNull, ?_, ?_, ?_, ?_, ?_, ?_⟩, ?_, ?_, hg.used, ?_⟩
  · rw [hbytes, hg.size, Option.map_some, hlen]
  · rw [hg.size]; exact hpos
  · rw [hg.size]; exact hint
  · rw [hg.size]; exact hchunk
  · rw [hg.used]; exact hused0
  · rw [hg.used, hg.size]; omega
  · rw [hg.size]; exact hn
  · rw [hg.size]; exact hgrows
  · unfold Server.contents
    rw [hbytes, hg.used, Option.getD_some]
    rcases hb with rfl | hb
    · rfl
    · obtain ⟨old, hold, holdlen⟩ := hb.exists_block
      have hpre := hpre hb.notNull
      rw [hold, Option.getD_some, List.take_of_length_le (by omega)] at hpre
      rw [hold, Option.getD_some]
      obtain ⟨tail, rfl⟩ := hpre
      rw [List.take_append_of_le_length (by omega)]

/-- Under the condition every call that returns 0 is right. -/
theorem growOk_of_fits (hb : BufOk k b) (hfits : Fits b n) :
    Ends (sem ev) (fun _ => True) (fun r k' => ∃ b', r = (0, some b') ∧ GrowOk k b n k' b')
      (avBufferGrow (some b) n) k := by
  obtain ⟨h0, hlt, hchunk, hused0, hused⟩ := hb.size
  refine (avBufferGrow_ends hb n).mono fun r k' hr => ?_
  obtain ⟨b', rfl, ⟨hn, rfl, rfl⟩ | ⟨hn, hg⟩⟩ := hr
  · -- a buffer that is larger than the request has a block
    have hholds : Holds k' b' := by
      rcases hb with rfl | hb
      · exact absurd hn (Nat.not_lt_zero n)
      · exact hb
    exact ⟨b', rfl, hholds, by omega, le_refl _, rfl, rfl⟩
  · have hsize := grownSize_eq h0 hlt n
    have hpos : 0 ≤ grownSize b.size n :=
      nonneg_of_toSize_le (grownSize_range h0 hlt n).1 hg.limit
    rcases hfits with hfits | hfits | ⟨hlo, hhi⟩
    · omega
    · have hmod : (b.size + n) % 2 ^ 32 = b.size + n := Int.emod_eq_of_lt (by omega) (by omega)
      rw [hmod, if_pos hfits] at hsize
      refine ⟨b', rfl, hg.ok hb (by omega) (by omega) ?_ (by omega) (by omega)⟩
      rw [hsize]
      exact Dvd.intro _ rfl
    · -- the allocator has refused
      rw [if_neg (by omega)] at hsize
      split at hsize <;> omega

/-! ## Outside of the condition -/

theorem toSize_le {s : Int} (h0 : 0 ≤ s) (hs : s < 2 ^ 31) : toSize s ≤ ptrdiffMax := by
  rw [toSize_of_nonneg h0 hs]
  unfold ptrdiffMax
  omega

/-- The allocator can find a new block for any size it does not refuse. -/
theorem exists_malloc (k : State) (hn : n ≤ ptrdiffMax) : ∃ p ch, p ≠ 0 ∧
    malloc ch n k = some (p, k.setBlock p (some (List.replicate n 0))) := by
  obtain ⟨m, hm⟩ := k.finite
  have hfree : k.blocks (m + 1) = none := hm _ (Nat.le_succ m)
  refine ⟨m + 1, .block (m + 1) (List.replicate n 0), Nat.succ_ne_zero m, ?_⟩
  unfold malloc
  dsimp only
  rw [if_pos ⟨Nat.succ_ne_zero m, by rw [hfree]; rfl, List.length_replicate, hn⟩]

theorem avBufferAlloc_exists (ev : Event) (hb : BufOk k b) {s : Int}
    (hs : toSize s ≤ ptrdiffMax) :
    ∃ b' k', Exec (sem ev) (avBufferAlloc { b with size := s }) k b' k' ∧
      Grown k b s k' b' := by
  have hexec : ∃ b' k', b'.buf ≠ 0 ∧
      Exec (sem ev) (avBufferAlloc { b with size := s }) k b' k' := by
    unfold avBufferAlloc
    dsimp only
    by_cases h0 : b.buf = 0
    · rw [if_pos h0]
      obtain ⟨p, ch, hp, hmalloc⟩ := exists_malloc k hs
      exact ⟨{ buf := p, used := 0, size := s }, _, hp, .op (r := p) ⟨ch, hmalloc⟩ .pure⟩
    · rw [if_neg h0]
      obtain ⟨old, hold, -⟩ := (hb.resolve_left fun h => h0 (by rw [h])).exists_block
      -- the block grows or shrinks where it is
      let bytes := old.take (toSize s) ++ List.replicate (toSize s - (old.take (toSize s)).length) 0
      have hlen : bytes.length = toSize s := by
        have := List.length_take_le (toSize s) old
        simp only [bytes, List.length_append, List.length_replicate]
        omega
      have hrealloc : realloc (.block b.buf bytes) b.buf (toSize s) k =
          some (b.buf, (k.setBlock b.buf none).setBlock b.buf (some bytes)) := by
        have hpre : (old.take (toSize s)).isPrefixOf bytes = true :=
          List.isPrefixOf_iff_prefix.2 (List.prefix_append ..)
        unfold realloc
        rw [hold]
        dsimp only
        rw [if_pos ⟨h0, .inl rfl, hlen, hs, hpre⟩]
      exact ⟨{ b with size := s }, _, h0, .op (r := b.buf) ⟨.block b.buf bytes, hrealloc⟩ .pure⟩
  obtain ⟨b', k', hp, he⟩ := hexec
  exact ⟨b', k', he, ((avBufferAlloc_ends hb s).exec he).resolve_left hp⟩

theorem avBufferGrow_exists (ev : Event) (hb : BufOk k b) (hn : b.size.toNat ≤ n)
    (hs : toSize (grownSize b.size n) ≤ ptrdiffMax) :
    ∃ b' k', Exec (sem ev) (avBufferGrow (some b) n) k (0, some b') k' ∧
      Grown k b (grownSize b.size n) k' b' := by
  obtain ⟨h0, hlt, -⟩ := hb.size
  obtain ⟨b', k', he, hg⟩ := avBufferAlloc_exists ev hb hs
  refine ⟨b', k', ?_, hg⟩
  unfold avBufferGrow
  dsimp only
  rw [toSize_of_nonneg h0 hlt, if_neg (by omega)]
  have hassert : Exec (sem ev) (assert (decide (b'.buf ≠ 0)) "b->buf") k' () k' := by
    unfold assert
    rw [if_pos (decide_eq_true hg.notNull)]
    exact .pure
  exact .bind he (.op ⟨.null, rfl⟩ (.bind hassert .pure))

/-- Outside of the condition a call can return a buffer that is too small. -/
theorem exists_small (ev : Event) (hb : BufOk k b) (hn : ¬ Fits b n) :
    ∃ b' k', Exec (sem ev) (avBufferGrow (some b) n) k (0, some b') k' ∧
      ¬ GrowOk k b n k' b' := by
  obtain ⟨h0, hlt, -⟩ := hb.size
  have hrange := grownSize_range h0 hlt n
  have hsize := grownSize_eq h0 hlt n
  simp only [Fits, not_or, not_and] at hn
  obtain ⟨hn, hsum, hwrap⟩ := hn
  -- the sum has wrapped, and what is left is 0 or less than the request
  have hsmall : 0 ≤ grownSize b.size n ∧
      (grownSize b.size n = 0 ∨ grownSize b.size n < n) := by
    by_cases hx : (b.size + n) % 2 ^ 32 < 2 ^ 31 - 1024
    · rw [if_pos hx] at hsize
      omega
    · rw [if_neg hx] at hsize
      have hhi := hwrap (by omega)
      rw [if_neg (by omega)] at hsize
      omega
  obtain ⟨b', k', he, hg⟩ := avBufferGrow_exists ev hb (by omega) (toSize_le hsmall.1 hrange.2)
  refine ⟨b', k', he, fun hok => ?_⟩
  have hpos := hok.holds.pos
  have hreq := hok.request
  rw [hg.size] at hpos hreq
  omega

/-! ## Runs -/

/-- The calls and appends on one buffer, each call with a request that `ok` admits. -/
inductive BufferRun (ok : AvBuffer → Nat → Prop) : State → AvBuffer → Prop
  | init {ev : Event} {k k' : State} {b : AvBuffer} :
      Exec (sem ev) bufferInit k b k' → BufferRun ok k' b
  | grow {ev : Event} {k k' : State} {b b' : AvBuffer} {n : Nat} {r : Int} :
      BufferRun ok k b → ok b n → Exec (sem ev) (avBufferGrow (some b) n) k (r, some b') k' →
      BufferRun ok k' b'
  | append {k : State} {b : AvBuffer} {bs : List UInt8} :
      BufferRun ok k b → (bs.length : Int) ≤ b.size - b.used →
      BufferRun ok (k.storeAll b.buf b.used bs) { b with used := b.used + bs.length }

/-- A new buffer is empty, and nothing else has changed. -/
theorem bufferInit_ends : Ends (sem ev) (fun _ => True) (fun b k' => b = {} ∧ k'.msgs = k.msgs ∧
    k'.connected = k.connected ∧ k'.wild = k.wild ∧
    ∀ q, k.blocks q ≠ none → k'.blocks q = k.blocks q) bufferInit k := by
  refine .op (.inl trivial) fun p k₁ hs => ?_
  obtain ⟨ch, he⟩ := hs
  have hk₁ : k₁.msgs = k.msgs ∧ k₁.connected = k.connected ∧ k₁.wild = k.wild ∧
      ∀ q, k.blocks q ≠ none → k₁.blocks q = k.blocks q := by
    rcases malloc_cases he with ⟨rfl, rfl⟩ | ⟨hp, hnone, -, bytes, -, rfl⟩
    · exact ⟨rfl, rfl, rfl, fun _ _ => rfl⟩
    · refine ⟨rfl, rfl, rfl, fun q hq => ?_⟩
      rw [setBlock_blocks, if_neg]
      rintro rfl
      exact hq hnone
  refine .seq (Q := fun _ k₂ => k₂ = k₁) (assert_ends fun _ => rfl) fun _ k₂ hk => ?_
  subst hk
  exact .pure ⟨rfl, hk₁⟩

theorem BufOk.append {bs : List UInt8} (hb : BufOk k b)
    (hbs : (bs.length : Int) ≤ b.size - b.used) :
    BufOk (k.storeAll b.buf b.used bs) { b with used := b.used + bs.length } := by
  rcases hb with rfl | hb
  · -- nothing fits into a buffer without a block
    have hnil : (bs.length : Int) ≤ 0 := hbs
    obtain rfl : bs = [] := List.length_eq_zero_iff.1 (by omega)
    exact .inl rfl
  · have hused := hb.usedPos
    refine .inr ⟨hb.notNull, ?_, hb.pos, hb.int, hb.chunks, ?_, ?_⟩
    · rw [(storeAll_stored ..).length]
      exact hb.block
    · show 0 ≤ b.used + bs.length
      omega
    · show b.used + bs.length ≤ b.size
      omega

/-- Every state of a run that meets the condition keeps the invariant. -/
theorem BufferRun.ok (hrun : BufferRun Fits k b) : BufOk k b := by
  induction hrun with
  | init he => exact .inl (bufferInit_ends.exec he).1
  | grow _ hfits he ih =>
    obtain ⟨b', heq, hok⟩ := (growOk_of_fits ih hfits).exec he
    cases heq
    exact .inr hok.holds
  | append _ hbs ih => exact ih.append hbs

/-- In every state that calls within the condition and appends can reach, a call is right
    exactly if it meets the condition, too. -/
theorem buffer_grow_ok (k : State) (b : AvBuffer) (hrun : BufferRun Fits k b) (n : Nat) :
    (∀ ev r b' k', Exec (sem ev) (avBufferGrow (some b) n) k (r, some b') k' → r = 0 →
      GrowOk k b n k' b') ↔ Fits b n := by
  have hb := hrun.ok
  constructor
  · intro hall
    by_contra hfits
    obtain ⟨b', k', he, hsmall⟩ := exists_small ⟨[], by decide, [], 0, none, none⟩ hb hfits
    exact hsmall (hall _ _ _ _ he rfl)
  · intro hfits ev r b' k' he _
    obtain ⟨b'', heq, hok⟩ := (growOk_of_fits hb hfits).exec he
    cases heq
    exact hok

/-- A heap without blocks. -/
def emptyState : State where
  blocks := fun _ => none
  finite := ⟨0, fun _ _ => rfl⟩
  msgs := fun _ => {}
  connected := fun _ => false
  wild := []

/-- Nothing happens on the socket. -/
def silence : Event := ⟨[], by decide, [], 0, none, none⟩

theorem bufferInit_exec : Exec (sem silence) bufferInit emptyState {}
    (emptyState.setBlock 1 (some (List.replicate 16 0))) :=
  .op ⟨.block 1 (List.replicate 16 0), by rfl⟩ (.bind (.ret (by rfl)) .pure)

theorem buffer_grow_ok_demo : ∃ k, BufferRun Fits k {} ∧ ∀ ev r b' k',
    Exec (sem ev) (avBufferGrow (some {}) 100) k (r, some b') k' → r = 0 →
    GrowOk k {} 100 k' b' := by
  have hrun : BufferRun Fits _ {} := .init bufferInit_exec
  refine ⟨_, hrun, (buffer_grow_ok _ {} hrun 100).2 (.inr (.inl ?_))⟩
  decide

/-- `av_buffer_grow(buffer_init(), 1UL << 32)` can return 0, with 1024 bytes at best. -/
theorem small_buffer : ∃ k b' k', BufferRun (fun _ _ => True) k {} ∧
    Exec (sem silence) (avBufferGrow (some {}) (2 ^ 32)) k (0, some b') k' ∧
    ¬ GrowOk k {} (2 ^ 32) k' b' := by
  have hrun : BufferRun (fun _ _ => True) _ {} := .init bufferInit_exec
  have hnot : ¬ Fits {} (2 ^ 32) := by
    unfold Fits
    decide
  obtain ⟨b', k', he, hsmall⟩ := exists_small silence (.inl rfl) hnot
  exact ⟨_, b', k', hrun, he, hsmall⟩

end Server
end AnekVideo

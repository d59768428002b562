/-
  AnekVideo.Names.Numerals

  Which strings `av_atou` accepts.  `Numeral` is the grammar that `strtoul`
  reads under base 0, with the signed value a numeral stands for; the value of
  a row of digits is `Nat.ofDigits`.

  `av_atou` compares the end pointer with the NUL, so it takes the empty string
  for a number, and it tests the value after `strtoul` has wrapped a minus sign
  around, so it takes some negative numerals too.  On all other strings it
  accepts exactly the numerals below 2^32.
-/
import AnekVideo.Names

namespace AnekVideo

/-! ## The code, with what it stores -/

/-- What `av_atou` leaves behind: its result, `*ret_u`, and `errno`, `none` for 0. -/
structure AtouOut where
  ret : Int
  retU : UInt32
  errno : Option Errno
  deriving DecidableEq, Repr

/-- `av_atou` on a `*ret_u` that holds `retU`. -/
def avAtouInto (h : Host) (s : CStr) (retU : UInt32) : AtouOut :=
  let l := strtoul h.sizeMod s
  -- errno was 0 before the call
  let errno : Option Errno := if l.erange then some .ERANGE else none
  if l.rest ≠ [] ∨ errno ≠ none then ⟨-1, retU, some (errno.getD .EINVAL)⟩
  else if l.value % 2 ^ 32 ≠ l.value then ⟨-1, retU, some .ERANGE⟩
  else ⟨0, UInt32.ofNat l.value, errno⟩

/-- The two readings of `av_atou` agree where it succeeds. -/
theorem avAtouInto_ok {h : Host} {s : CStr} {u : UInt32} (hu : avAtou h s = .ok u) (retU : UInt32) :
    avAtouInto h s retU = ⟨0, u, none⟩ := by
  unfold avAtou at hu
  unfold avAtouInto
  cases he : (strtoul h.sizeMod s).erange with
  | true => simp [he] at hu
  | false =>
    simp only [he, Bool.false_eq_true, or_false, if_false] at hu ⊢
    split at hu
    · cases hu
    · rename_i hr
      split at hu
      · cases hu
      · rename_i hv
        cases hu
        rw [if_neg (by simp [hr]), if_neg hv]

/-- And where it fails. -/
theorem avAtouInto_error {h : Host} {s : CStr} {e : Errno} (he : avAtou h s = .error e)
    (retU : UInt32) : avAtouInto h s retU = ⟨-1, retU, some e⟩ := by
  unfold avAtou at he
  unfold avAtouInto
  cases hr : (strtoul h.sizeMod s).erange with
  | true =>
    simp only [hr, or_true, if_true] at he
    cases he
    simp [hr]
  | false =>
    simp only [hr, Bool.false_eq_true, or_false, if_false] at he ⊢
    split at he
    · rename_i hrest
      cases he
      simp [hrest]
    · rename_i hrest
      split at he
      · rename_i hv
        cases he
        rw [if_neg (by simp [hrest]), if_pos hv]
      · cases he

/-! ## Numerals -/

/-- `cs` is a non-empty row of digits of base `b` with the value `m`. -/
def Digits (b : Nat) (cs : CStr) (m : Nat) : Prop :=
  cs ≠ [] ∧ ∃ ds, List.Forall₂ (fun c d => digitValue c = some d ∧ d < b) cs ds ∧
    m = Nat.ofDigits b ds.reverse

/-- A numeral under base 0, without a sign. -/
inductive Unsigned : CStr → Nat → Prop
  | hex {x : Char} {cs : CStr} {m : Nat} :
      x = 'x' ∨ x = 'X' → Digits 16 cs m → Unsigned ('0' :: x :: cs) m
  | octal {cs : CStr} {m : Nat} : Digits 8 ('0' :: cs) m → Unsigned ('0' :: cs) m
  | decimal {c : Char} {cs : CStr} {m : Nat} :
      c ≠ '0' → Digits 10 (c :: cs) m → Unsigned (c :: cs) m

/-- White space, an optional sign and a numeral under base 0, with its value. -/
inductive Numeral : CStr → Int → Prop
  | plain {ws cs : CStr} {m : Nat} :
      (∀ c ∈ ws, isspace c = true) → Unsigned cs m → Numeral (ws ++ cs) m
  | plus {ws cs : CStr} {m : Nat} :
      (∀ c ∈ ws, isspace c = true) → Unsigned cs m → Numeral (ws ++ '+' :: cs) m
  | minus {ws cs : CStr} {m : Nat} :
      (∀ c ∈ ws, isspace c = true) → Unsigned cs m → Numeral (ws ++ '-' :: cs) (-m)

/-- A digit in front of a row of digits. -/
theorem ofDigits_reverse_cons (b acc d : Nat) (ds : List Nat) :
    acc * b ^ (d :: ds).length + Nat.ofDigits b (d :: ds).reverse =
      (acc * b + d) * b ^ ds.length + Nat.ofDigits b ds.reverse := by
  rw [List.reverse_cons, Nat.ofDigits_append, Nat.ofDigits_singleton, List.length_reverse,
    List.length_cons, pow_succ]
  ring

/-- A row of digits that is read to its end has its value. -/
theorem scanDigits_eq_nil_iff {b acc v : Nat} {cs : CStr} :
    scanDigits b acc cs = (v, []) ↔
      ∃ ds, List.Forall₂ (fun c d => digitValue c = some d ∧ d < b) cs ds ∧
        v = acc * b ^ cs.length + Nat.ofDigits b ds.reverse := by
  induction cs generalizing acc with
  | nil => simp [scanDigits, eq_comm]
  | cons c cs ih =>
    unfold scanDigits
    constructor
    · intro h
      split at h
      · rename_i d hc
        split at h
        · rename_i hd
          obtain ⟨ds, hds, rfl⟩ := ih.1 h
          refine ⟨d :: ds, .cons ⟨hc, hd⟩ hds, ?_⟩
          rw [List.length_cons, hds.length_eq, ← List.length_cons, ofDigits_reverse_cons]
        · simp at h
      · simp at h
    · rintro ⟨_, hds, rfl⟩
      cases hds with
      | @cons _ d _ ds hc hds =>
        simp only [hc.1, hc.2, if_true]
        refine ih.2 ⟨ds, hds, ?_⟩
        rw [List.length_cons, hds.length_eq, ← List.length_cons (a := d), ofDigits_reverse_cons]

/-- Reading a row of digits to its end, from 0. -/
theorem digits_iff {b m : Nat} {cs : CStr} :
    Digits b cs m ↔ cs ≠ [] ∧ scanDigits b 0 cs = (m, []) := by
  rw [scanDigits_eq_nil_iff]
  simp [Digits]

theorem Digits.mem {b m : Nat} {cs : CStr} (h : Digits b cs m) :
    ∀ c ∈ cs, ∃ d, digitValue c = some d ∧ d < b := by
  obtain ⟨-, ds, hds, -⟩ := h
  induction hds with
  | nil => simp
  | cons hc _ ih =>
    intro c' hc'
    rcases List.mem_cons.1 hc' with rfl | hc'
    · exact ⟨_, hc⟩
    · exact ih c' hc'

/-- A digit or a letter is neither white space nor a sign. -/
theorem digitValue_some {c : Char} {d : Nat} (h : digitValue c = some d) :
    isspace c = false ∧ c ≠ '-' ∧ c ≠ '+' := by
  have hc : 48 ≤ c.toNat := by
    unfold digitValue at h
    split at h
    · rename_i hr; exact hr.1
    · split at h
      · rename_i hr; have : 97 ≤ c.toNat := hr.1; omega
      · split at h
        · rename_i hr; have : 65 ≤ c.toNat := hr.1; omega
        · cases h
  refine ⟨?_, ?_, ?_⟩
  · have hne : c ≠ ' ' := by
      rintro rfl
      exact absurd hc (by decide)
    simp only [isspace, hne, decide_false, Bool.false_or, Bool.and_eq_false_iff,
      decide_eq_false_iff_not]
    omega
  · rintro rfl
    exact absurd hc (by decide)
  · rintro rfl
    exact absurd hc (by decide)

/-- The mark of a hexadecimal prefix is not an octal digit. -/
theorem not_octal {x : Char} {d : Nat} (hx : x = 'x' ∨ x = 'X') (hd : digitValue x = some d) :
    ¬ d < 8 := by
  rcases hx with rfl | rfl
  · rw [show digitValue 'x' = some 33 from rfl, Option.some.injEq] at hd
    omega
  · rw [show digitValue 'X' = some 33 from rfl, Option.some.injEq] at hd
    omega

/-- The prefix decides the base. -/
theorem unsigned_iff {cs : CStr} {m : Nat} :
    Unsigned cs m ↔ Digits (scanBase cs).1 (scanBase cs).2 m := by
  constructor
  · intro h
    cases h with
    | hex hx hd => rcases hx with rfl | rfl <;> exact hd
    | @octal cs _ hd =>
      have hbase : scanBase ('0' :: cs) = (8, '0' :: cs) := by
        unfold scanBase
        -- neither `x` nor `X` is an octal digit
        split
        · rename_i heq
          cases heq
          obtain ⟨d, hx, hlt⟩ := hd.mem 'x' (by simp)
          exact absurd hlt (not_octal (.inl rfl) hx)
        · rename_i heq
          cases heq
          obtain ⟨d, hx, hlt⟩ := hd.mem 'X' (by simp)
          exact absurd hlt (not_octal (.inr rfl) hx)
        · rename_i heq; cases heq; rfl
        · rename_i h0; exact absurd rfl (h0 cs)
      rw [hbase]
      exact hd
    | @decimal c cs _ hc hd =>
      have hbase : scanBase (c :: cs) = (10, c :: cs) := by
        unfold scanBase
        split
        · rename_i heq; cases heq; exact absurd rfl hc
        · rename_i heq; cases heq; exact absurd rfl hc
        · rename_i heq; cases heq; exact absurd rfl hc
        · rfl
      rw [hbase]
      exact hd
  · unfold scanBase
    split
    · exact Unsigned.hex (.inl rfl)
    · exact Unsigned.hex (.inr rfl)
    · exact Unsigned.octal
    · rename_i h0
      intro hd
      cases cs with
      | nil => exact absurd rfl hd.1
      | cons c cs => exact .decimal (fun hc => h0 cs (by rw [hc])) hd

theorem Unsigned.head {cs : CStr} {m : Nat} (h : Unsigned cs m) :
    ∃ c t, cs = c :: t ∧ isspace c = false ∧ c ≠ '-' ∧ c ≠ '+' := by
  cases h with
  | hex _ _ => exact ⟨'0', _, rfl, by decide⟩
  | octal _ => exact ⟨'0', _, rfl, by decide⟩
  | @decimal c cs _ _ hd =>
    obtain ⟨d, hc, -⟩ := hd.mem c (by simp)
    exact ⟨c, cs, rfl, digitValue_some hc⟩

/-- The value of a magnitude under a sign. -/
def signed (neg : Bool) (m : Nat) : Int := if neg then -m else m

/-- What `strtoul` scans is in the grammar. -/
theorem Numeral.of_scan {ws cs : CStr} {m : Nat} (hws : ∀ c ∈ ws, isspace c = true)
    (hm : Unsigned (scanSign cs).2 m) : Numeral (ws ++ cs) (signed (scanSign cs).1 m) := by
  revert hm
  unfold scanSign
  split
  · exact Numeral.minus hws
  · exact Numeral.plus hws
  · exact Numeral.plain hws

/-- The grammar is what `strtoul` scans. -/
theorem numeral_iff {s : CStr} {v : Int} :
    Numeral s v ↔ ∃ m, Unsigned (scanSign (s.dropWhile isspace)).2 m ∧
      v = signed (scanSign (s.dropWhile isspace)).1 m := by
  constructor
  · intro h
    cases h with
    | @plain ws cs m hws hm =>
      obtain ⟨c, t, rfl, hspace, hminus, hplus⟩ := hm.head
      have hdrop : (ws ++ c :: t).dropWhile isspace = c :: t := by
        rw [List.dropWhile_append_of_pos hws, List.dropWhile_cons_of_neg (by simp [hspace])]
      have hsign : scanSign (c :: t) = (false, c :: t) := by
        unfold scanSign
        split
        · rename_i heq; cases heq; exact absurd rfl hminus
        · rename_i heq; cases heq; exact absurd rfl hplus
        · rfl
      rw [hdrop, hsign]
      exact ⟨m, hm, rfl⟩
    | @plus ws cs m hws hm =>
      have hdrop : (ws ++ '+' :: cs).dropWhile isspace = '+' :: cs := by
        rw [List.dropWhile_append_of_pos hws, List.dropWhile_cons_of_neg (by decide)]
      rw [hdrop]
      exact ⟨m, hm, rfl⟩
    | @minus ws cs m hws hm =>
      have hdrop : (ws ++ '-' :: cs).dropWhile isspace = '-' :: cs := by
        rw [List.dropWhile_append_of_pos hws, List.dropWhile_cons_of_neg (by decide)]
      rw [hdrop]
      exact ⟨m, hm, rfl⟩
  · rintro ⟨m, hm, rfl⟩
    have hws : ∀ c ∈ s.takeWhile isspace, isspace c = true :=
      fun c hc => List.mem_takeWhile_imp hc
    -- white space, sign and digits together are the whole string
    have hread := Numeral.of_scan hws hm
    rwa [List.takeWhile_append_dropWhile] at hread

/-- `strtoul` on a numeral: the value modulo `mod`, unless it is too long. -/
theorem strtoul_of_numeral {mod : Nat} {s : CStr} {v : Int} (hv : Numeral s v) :
    strtoul mod s =
      if mod ≤ v.natAbs then ⟨mod - 1, [], true⟩ else ⟨(v % mod).toNat, [], false⟩ := by
  obtain ⟨m, hm, rfl⟩ := numeral_iff.1 hv
  rcases hsign : scanSign (s.dropWhile isspace) with ⟨neg, s₁⟩
  rw [hsign] at hm
  rcases hbase : scanBase s₁ with ⟨base, s₂⟩
  rw [unsigned_iff, hbase, digits_iff] at hm
  obtain ⟨hne, hscan⟩ := hm
  -- at least one digit has been read
  have hlen : ¬ ([] : CStr).length = s₂.length := by
    intro h
    exact hne (List.length_eq_zero_iff.1 h.symm)
  have habs : (signed neg m).natAbs = m := by
    unfold signed
    split
    · omega
    · omega
  simp only [strtoul, hsign, hbase, hscan, hlen, if_false, habs]
  by_cases hmod : mod ≤ m
  · rw [if_pos hmod, if_pos hmod]
  · rw [if_neg hmod, if_neg hmod]
    have hlt : m < mod := by omega
    cases neg with
    | false =>
      have : signed false m % (mod : Int) = m :=
        Int.emod_eq_of_lt (by simp [signed]) (by simp [signed, hlt])
      rw [this]
      rfl
    | true =>
      -- a minus sign counts down from `mod`
      have : signed true m % (mod : Int) = ((mod - m) % mod : Nat) := by
        rw [Int.natCast_mod, Nat.cast_sub hlt.le]
        show -(m : Int) % mod = (mod - m) % mod
        rw [← Int.add_emod_left, Int.sub_eq_add_neg]
      rw [this, Int.toNat_natCast]
      rfl

theorem scanBase_tail {s₁ s₂ : CStr} (h : scanBase s₁ = (16, s₂)) : s₁.tail ≠ [] := by
  unfold scanBase at h
  split at h
  · simp
  · simp
  · cases h
  · cases h

/-- On any other string but the empty one, `strtoul` leaves something unread. -/
theorem strtoul_rest_ne_nil {mod : Nat} {s : CStr} (hs : s ≠ []) (hnum : ∀ v, ¬ Numeral s v) :
    (strtoul mod s).rest ≠ [] := by
  rcases hsign : scanSign (s.dropWhile isspace) with ⟨neg, s₁⟩
  rcases hbase : scanBase s₁ with ⟨base, s₂⟩
  rcases hscan : scanDigits base 0 s₂ with ⟨m, rest⟩
  simp only [strtoul, hsign, hbase, hscan]
  by_cases hlen : rest.length = s₂.length
  · rw [if_pos hlen]
    split
    · -- a lone prefix: the end pointer stands at its `x`
      rename_i h16
      subst h16
      exact scanBase_tail hbase
    · exact hs
  · rw [if_neg hlen]
    have hne : s₂ ≠ [] := by
      rintro rfl
      cases hscan
      exact hlen rfl
    -- a row of digits read to its end would be a numeral
    have hrest : rest ≠ [] := by
      rintro rfl
      apply hnum (signed neg m)
      apply numeral_iff.2
      rw [hsign]
      refine ⟨m, unsigned_iff.2 ?_, rfl⟩
      rw [hbase]
      exact digits_iff.2 ⟨hne, hscan⟩
    split
    · exact hrest
    · exact hrest

theorem Digits.unique {b m m' : Nat} {cs : CStr} (h : Digits b cs m) (h' : Digits b cs m') :
    m = m' := by
  have heq := (digits_iff.1 h).2.symm.trans (digits_iff.1 h').2
  exact congrArg Prod.fst heq

/-- A string is a numeral of one value at most. -/
theorem Numeral.unique {s : CStr} {v v' : Int} (h : Numeral s v) (h' : Numeral s v') : v = v' := by
  obtain ⟨m, hm, rfl⟩ := numeral_iff.1 h
  obtain ⟨m', hm', rfl⟩ := numeral_iff.1 h'
  rw [(unsigned_iff.1 hm).unique (unsigned_iff.1 hm')]

theorem not_numeral_nil (v : Int) : ¬ Numeral [] v := by
  intro h
  obtain ⟨m, hm, -⟩ := numeral_iff.1 h
  obtain ⟨c, t, hct, -⟩ := hm.head
  cases hct

/-! ## av_atou -/

section Atou

variable {h : Host} {s : CStr} {v : Int}

/-- On a numeral, `av_atou` tests the value that `strtoul` wrapped. -/
theorem avAtou_numeral (h64 : h.ptrSize = 8) (hv : Numeral s v) :
    avAtou h s = if v.natAbs < 2 ^ 64 ∧ v % 2 ^ 64 < 2 ^ 32
      then .ok (UInt32.ofNat (v % 2 ^ 64).toNat) else .error .ERANGE := by
  have hmod : h.sizeMod = 2 ^ 64 := by rw [Host.sizeMod, h64]
  have hst := @strtoul_of_numeral (2 ^ 64) s v hv
  by_cases habs : v.natAbs < 2 ^ 64
  · rw [if_neg (by omega)] at hst
    have hpos : 0 ≤ v % 2 ^ 64 := by omega
    have hcast : ((2 ^ 64 : Nat) : Int) = 2 ^ 64 := by norm_num
    rw [hcast] at hst
    simp only [avAtou, hmod, hst, ne_eq, not_true_eq_false, Bool.false_eq_true, or_self, if_false]
    by_cases hsmall : v % 2 ^ 64 < 2 ^ 32
    · rw [if_neg (by omega), if_pos ⟨habs, hsmall⟩]
    · rw [if_pos (by omega), if_neg (by omega)]
  · rw [if_pos (by omega)] at hst
    simp only [avAtou, hmod, hst, or_true, if_true, habs, false_and, if_false]

/-- Whatever is no numeral is refused, but for the empty string. -/
theorem avAtou_other (h : Host) (hs : s ≠ []) (hnum : ∀ v, ¬ Numeral s v) :
    ∃ e, avAtou h s = .error e := by
  unfold avAtou
  simp only [strtoul_rest_ne_nil hs hnum, ne_eq, not_false_eq_true, true_or, if_true]
  exact ⟨_, rfl⟩

theorem avAtou_nil (h : Host) : avAtou h [] = .ok 0 := rfl

/-- What `av_atou` is for, at one string: it accepts the numerals of 32-bit values, whatever
    `*ret_u` held before, and refuses everything else with `errno` set and `*ret_u` as it was. -/
structure AtouExact (h : Host) (s : CStr) : Prop where
  accepts : ∀ retU v, Numeral s v → 0 ≤ v → v < 2 ^ 32 →
    (avAtouInto h s retU).ret = 0 ∧ ((avAtouInto h s retU).retU.toNat : Int) = v
  refuses : ∀ retU, (¬ ∃ v, Numeral s v ∧ 0 ≤ v ∧ v < 2 ^ 32) →
    (avAtouInto h s retU).ret = -1 ∧ (avAtouInto h s retU).errno ≠ none ∧
      (avAtouInto h s retU).retU = retU

/-- A refusal is right where no 32-bit value is written. -/
theorem AtouExact.of_error {e : Errno} (he : avAtou h s = .error e)
    (hno : ¬ ∃ v, Numeral s v ∧ 0 ≤ v ∧ v < 2 ^ 32) : AtouExact h s where
  accepts := fun _ v hv h0 hlt => absurd ⟨v, hv, h0, hlt⟩ hno
  refuses := fun retU _ => by
    rw [avAtouInto_error he]
    exact ⟨rfl, by simp, rfl⟩

/-- Acceptance is wrong there. -/
theorem not_atouExact_of_ok {u : UInt32} (hu : avAtou h s = .ok u)
    (hno : ¬ ∃ v, Numeral s v ∧ 0 ≤ v ∧ v < 2 ^ 32) : ¬ AtouExact h s := by
  intro hx
  have hret := (hx.refuses 0 hno).1
  rw [avAtouInto_ok hu] at hret
  cases hret

/-- `av_atou` does what it is for exactly on the strings that are not empty and are no negative
    numeral that wraps around to a 32-bit value. -/
theorem atouExact_iff (h : Host) (h64 : h.ptrSize = 8) (s : CStr) :
    AtouExact h s ↔ s ≠ [] ∧ ¬ ∃ m : Nat, Numeral s (-m) ∧ 2 ^ 64 - 2 ^ 32 < m ∧
    m < 2 ^ 64 := by
  by_cases hs : s = []
  · subst hs
    have hno : ¬ ∃ v, Numeral [] v ∧ 0 ≤ v ∧ v < 2 ^ 32 :=
      fun ⟨v, hv, _⟩ => not_numeral_nil v hv
    exact ⟨fun hx => absurd hx (not_atouExact_of_ok (avAtou_nil h) hno),
      fun hx => absurd rfl hx.1⟩
  by_cases hnum : ∃ v, Numeral s v
  · obtain ⟨v, hv⟩ := hnum
    have hatou := avAtou_numeral h64 hv
    -- the values that wrap are those of the condition
    have hwrap : (∃ m : Nat, Numeral s (-m) ∧ 2 ^ 64 - 2 ^ 32 < m ∧ m < 2 ^ 64) ↔
        -2 ^ 64 < v ∧ v < -(2 ^ 64 - 2 ^ 32) := by
      constructor
      · rintro ⟨m, hm, hlo, hhi⟩
        obtain rfl := hv.unique hm
        omega
      · rintro ⟨hlo, hhi⟩
        refine ⟨v.natAbs, ?_, by omega, by omega⟩
        have : -(v.natAbs : Int) = v := by omega
        rw [this]
        exact hv
    rw [hwrap]
    by_cases hin : 0 ≤ v ∧ v < 2 ^ 32
    · -- a 32-bit value is accepted and stored
      have hval : v % 2 ^ 64 = v := Int.emod_eq_of_lt hin.1 (by omega)
      rw [hval, if_pos ⟨by omega, hin.2⟩] at hatou
      refine ⟨fun _ => ⟨hs, by omega⟩, fun _ => ⟨?_, ?_⟩⟩
      · intro retU v' hv' _ _
        obtain rfl := hv.unique hv'
        rw [avAtouInto_ok hatou]
        refine ⟨rfl, ?_⟩
        have hlt : v.toNat < 2 ^ 32 := by omega
        show ((UInt32.ofNat v.toNat).toNat : Int) = v
        rw [UInt32.toNat_ofNat_of_lt' hlt]
        omega
      · intro _ hno
        exact absurd ⟨v, hv, hin⟩ hno
    · have hno : ¬ ∃ v, Numeral s v ∧ 0 ≤ v ∧ v < 2 ^ 32 := by
        rintro ⟨v', hv', hr⟩
        obtain rfl := hv.unique hv'
        exact hin hr
      by_cases hw : -2 ^ 64 < v ∧ v < -(2 ^ 64 - 2 ^ 32)
      · rw [if_pos (by omega)] at hatou
        exact ⟨fun hx => absurd hx (not_atouExact_of_ok hatou hno), fun hx => absurd hw hx.2⟩
      · rw [if_neg (by omega)] at hatou
        exact ⟨fun _ => ⟨hs, hw⟩, fun _ => .of_error hatou hno⟩
  · obtain ⟨e, he⟩ := avAtou_other h hs fun v hv => hnum ⟨v, hv⟩
    exact ⟨fun _ => ⟨hs, fun ⟨m, hm, _⟩ => hnum ⟨_, hm⟩⟩,
      fun _ => .of_error he fun ⟨v, hv, _⟩ => hnum ⟨v, hv⟩⟩

end Atou

theorem lp64_ptrSize : 8 = 4 ∨ 8 = 8 := .inr rfl

/-- A 64-bit machine. -/
def lp64 : Host := ⟨8, 16384, false, 0, lp64_ptrSize, by decide, by decide⟩

theorem atouExact_iff_demo : AtouExact lp64 ['4', '2'] := by
  apply (atouExact_iff lp64 rfl ['4', '2']).2
  have h42 : Numeral ['4', '2'] 42 :=
    numeral_iff.2 ⟨42, unsigned_iff.2 (digits_iff.2 ⟨by decide, rfl⟩), rfl⟩
  refine ⟨by decide, ?_⟩
  rintro ⟨m, hm, -, -⟩
  have := h42.unique hm
  omega

/-- `-18446744073709551615`, which `strtoul` wraps to 1. -/
def wrappedOne : CStr :=
  ['-', '1', '8', '4', '4', '6', '7', '4', '4', '0', '7', '3', '7', '0', '9', '5', '5', '1', '6',
    '1', '5']

/-- The empty string is taken for 0, and a negative numeral for 1. -/
theorem empty_accepted : ¬ AtouExact lp64 [] ∧ ¬ AtouExact lp64 wrappedOne := by
  constructor
  · apply not_atouExact_of_ok (avAtou_nil lp64)
    rintro ⟨v, hv, -⟩
    exact not_numeral_nil v hv
  · have hok : avAtou lp64 wrappedOne = .ok 1 := by rfl
    apply not_atouExact_of_ok hok
    rintro ⟨v, hv, h0, -⟩
    have hneg : Numeral wrappedOne (signed true (2 ^ 64 - 1)) :=
      numeral_iff.2 ⟨2 ^ 64 - 1, unsigned_iff.2 (digits_iff.2 ⟨by decide, by rfl⟩), rfl⟩
    rw [hv.unique hneg] at h0
    exact absurd h0 (by decide)

end AnekVideo

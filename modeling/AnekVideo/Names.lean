/-
  AnekVideo.Names

  The names of segments: `segment_name` of src/shm.c writes an id into a name,
  the prefix test of `av_shm_cleanup` and `av_atou` of src/util.c read one back.
  `strtoul` is the C library's, with base 0.
-/
import AnekVideo.Util

namespace AnekVideo

/-! ## strtoul -/

/-- `isspace` in the C locale: space, `\t`, `\n`, `\v`, `\f`, `\r`. -/
def isspace (c : Char) : Bool := c = ' ' || (9 ≤ c.toNat && c.toNat ≤ 13)

/-- The value of a digit or letter in bases up to 36. -/
def digitValue (c : Char) : Option Nat :=
  if '0'.toNat ≤ c.toNat ∧ c.toNat ≤ '9'.toNat then some (c.toNat - '0'.toNat)
  else if 'a'.toNat ≤ c.toNat ∧ c.toNat ≤ 'z'.toNat then some (c.toNat - 'a'.toNat + 10)
  else if 'A'.toNat ≤ c.toNat ∧ c.toNat ≤ 'Z'.toNat then some (c.toNat - 'A'.toNat + 10)
  else none

/-- Reads the longest run of digits of `base`: the value, from `acc`, and what is
    left. -/
def scanDigits (base acc : Nat) : CStr → Nat × CStr
  | [] => (acc, [])
  | c :: cs =>
    match digitValue c with
    | some d => if d < base then scanDigits base (acc * base + d) cs else (acc, c :: cs)
    | none => (acc, c :: cs)

/-- An optional sign: whether it is a minus, and what is left. -/
def scanSign : CStr → Bool × CStr
  | '-' :: cs => (true, cs)
  | '+' :: cs => (false, cs)
  | cs => (false, cs)

/-- The base that a prefix asks for under base 0, and what is left for the digits. -/
def scanBase : CStr → Nat × CStr
  | '0' :: 'x' :: cs => (16, cs)
  | '0' :: 'X' :: cs => (16, cs)
  | '0' :: cs => (8, '0' :: cs)
  | cs => (10, cs)

/-- What `strtoul` leaves behind: the value, what the end pointer points to, and
    whether it set `errno` to `ERANGE`. -/
structure Strtoul where
  value : Nat
  rest : CStr
  erange : Bool
  deriving DecidableEq, Repr

/-- `strtoul(s, &x, 0)` for an `unsigned long` below `mod`.  Without digits the end
    pointer is `s` itself, or the `x` of a lone `0x`. -/
def strtoul (mod : Nat) (s : CStr) : Strtoul :=
  let (neg, s₁) := scanSign (s.dropWhile isspace)
  let (base, s₂) := scanBase s₁
  let (v, rest) := scanDigits base 0 s₂
  -- no digits
  if rest.length = s₂.length then
    if base = 16 then ⟨0, s₁.tail, false⟩ else ⟨0, s, false⟩
  -- out of range: `ULONG_MAX`
  else if mod ≤ v then ⟨mod - 1, rest, true⟩
  -- a minus negates in unsigned arithmetic
  else ⟨if neg then (mod - v) % mod else v, rest, false⟩

/-! ## The code -/

/-- `av_atou`: `*ret_u`, or the `errno` it leaves. -/
def avAtou (h : Host) (s : CStr) : Except Errno UInt32 :=
  let l := strtoul h.sizeMod s
  if l.rest ≠ [] ∨ l.erange = true then
    .error (if l.erange then .ERANGE else .EINVAL)
  -- the value does not fit a `uint32_t`
  else if l.value % 2 ^ 32 ≠ l.value then .error .ERANGE
  else .ok (UInt32.ofNat l.value)

/-- `SHM_NAME_PREFIX`. -/
def shmNamePrefix : CStr := ['a', 'n', 'e', 'k', '-', 's', 'h', 'm', '-']

/-- `"%u"`. -/
def formatU (id : UInt32) : CStr := Nat.toDigits 10 id.toNat

/-- `segment_name` into a buffer of `l` bytes: `snprintf` keeps one for the NUL. -/
def segmentName (l : Nat) (id : UInt32) : CStr :=
  ('/' :: shmNamePrefix ++ formatU id).take (l - 1)

/-- The tests of `av_shm_cleanup` on an entry's name: `strncmp` with the prefix, and
    `av_atou` on the rest. -/
def entryId (h : Host) (name : CStr) : Option UInt32 :=
  if name.take shmNamePrefix.length ≠ shmNamePrefix then none
  else
    match avAtou h (name.drop shmNamePrefix.length) with
    | .ok id => some id
    | .error _ => none

/-- The name of segment `id` as it stands in the directory. -/
def entryName (id : UInt32) : CStr := shmNamePrefix ++ formatU id

/-! ## Encoding and decoding -/

theorem digitValue_digitChar {d : Nat} (hd : d < 10) : digitValue (Nat.digitChar d) = some d := by
  interval_cases d <;> decide

/-- Decimal digits are read as digits. -/
theorem scanDigits_append (base : Nat) (cs t : CStr) (acc : Nat)
    (h : ∀ c ∈ cs, ∃ d, d < base ∧ digitValue c = some d) :
    scanDigits base acc (cs ++ t) = scanDigits base (scanDigits base acc cs).1 t := by
  induction cs generalizing acc with
  | nil => rfl
  | cons c cs ih =>
    obtain ⟨d, hd, hc⟩ := h c (by simp)
    have htail : ∀ c ∈ cs, ∃ d, d < base ∧ digitValue c = some d :=
      fun c' hc' => h c' (by simp [hc'])
    simp only [List.cons_append, scanDigits, hc, hd, if_true]
    exact ih _ htail

theorem toDigits_digits (n : Nat) :
    ∀ c ∈ Nat.toDigits 10 n, ∃ d, d < 10 ∧ digitValue c = some d := by
  induction n using Nat.strong_induction_on with
  | _ n ih =>
    rw [Nat.toDigits_eq_if (by decide)]
    by_cases hn : n < 10
    · simp only [hn, if_true, List.mem_singleton]
      rintro c rfl
      exact ⟨n, hn, digitValue_digitChar hn⟩
    · simp only [hn, if_false, List.mem_append, List.mem_singleton]
      rintro c (hc | rfl)
      · exact ih (n / 10) (Nat.div_lt_self (by omega) (by decide)) c hc
      · exact ⟨n % 10, by omega, digitValue_digitChar (by omega)⟩

/-- Reading the decimal digits of `n` gives `n` back. -/
theorem scanDigits_toDigits (n : Nat) : scanDigits 10 0 (Nat.toDigits 10 n) = (n, []) := by
  induction n using Nat.strong_induction_on with
  | _ n ih =>
    rw [Nat.toDigits_eq_if (by decide)]
    by_cases hn : n < 10
    · simp [hn, scanDigits, digitValue_digitChar hn]
    · have hlt : n / 10 < n := Nat.div_lt_self (by omega) (by decide)
      have hmod : n % 10 < 10 := by omega
      simp only [hn, if_false]
      rw [scanDigits_append 10 _ _ _ (toDigits_digits (n / 10)), ih _ hlt]
      simp only [scanDigits, digitValue_digitChar hmod, hmod, if_true]
      rw [Nat.div_add_mod' n 10]

/-- The first digit of a positive number is not `0`, so nothing is taken for an
    octal or hexadecimal prefix. -/
theorem head_toDigits {n : Nat} (hn : 0 < n) : ∃ d cs, 0 < d ∧ d < 10 ∧
    Nat.toDigits 10 n = Nat.digitChar d :: cs := by
  induction n using Nat.strong_induction_on with
  | _ n ih =>
    rw [Nat.toDigits_eq_if (by decide)]
    by_cases hlt : n < 10
    · exact ⟨n, [], hn, hlt, by simp [hlt]⟩
    · obtain ⟨d, cs, hd, hd', hcs⟩ := ih (n / 10) (Nat.div_lt_self hn (by decide)) (by omega)
      exact ⟨d, cs ++ [Nat.digitChar (n % 10)], hd, hd', by simp [hlt, hcs]⟩

/-- `strtoul` reads a decimal numeral back. -/
theorem strtoul_toDigits {mod n : Nat} (hn : n < mod) :
    strtoul mod (Nat.toDigits 10 n) = ⟨n, [], false⟩ := by
  rcases Nat.eq_zero_or_pos n with rfl | hpos
  · have hmod : ¬ mod ≤ 0 := by omega
    simp [strtoul, Nat.toDigits_zero, scanSign, scanBase, scanDigits, isspace, digitValue, hmod]
  · obtain ⟨d, cs, hd, hd', hcs⟩ := head_toDigits hpos
    have hspace : (Nat.toDigits 10 n).dropWhile isspace = Nat.toDigits 10 n := by
      rw [hcs]
      have : isspace (Nat.digitChar d) = false := by interval_cases d <;> decide
      simp [this]
    have hsign : scanSign (Nat.toDigits 10 n) = (false, Nat.toDigits 10 n) := by
      rw [hcs]
      interval_cases d <;> rfl
    have hbase : scanBase (Nat.toDigits 10 n) = (10, Nat.toDigits 10 n) := by
      rw [hcs]
      interval_cases d <;> rfl
    have hlen : ¬ ([] : CStr).length = (Nat.toDigits 10 n).length := by
      rw [hcs]; simp
    simp only [strtoul, hspace, hsign, hbase, scanDigits_toDigits, hlen, if_false,
      Nat.not_le.2 hn]
    rfl

/-- `av_atou` reads back what `%u` writes. -/
theorem avAtou_formatU (h : Host) (id : UInt32) : avAtou h (formatU id) = .ok id := by
  have hid : id.toNat < 2 ^ 32 := id.toNat_lt
  have hmod : 2 ^ 32 ≤ h.sizeMod := by
    rcases h.ptrSize_eq with hp | hp <;> simp [Host.sizeMod, hp]
  simp only [avAtou, formatU, strtoul_toDigits (Nat.lt_of_lt_of_le hid hmod),
    Nat.mod_eq_of_lt hid]
  simp

/-- The cleanup reads the id back from a segment's name. -/
theorem entryId_entryName (h : Host) (id : UInt32) : entryId h (entryName id) = some id := by
  have htake : (entryName id).take shmNamePrefix.length = shmNamePrefix := List.take_left' rfl
  have hdrop : (entryName id).drop shmNamePrefix.length = formatU id := List.drop_left' rfl
  simp only [entryId, htake, hdrop, avAtou_formatU]
  simp

theorem entryName_injective : Function.Injective entryName := by
  intro id id' heq
  have hh : Host := ⟨8, 4096, false, 0, .inr rfl, by decide, by decide⟩
  have := congrArg (entryId hh) heq
  rwa [entryId_entryName, entryId_entryName, Option.some.injEq] at this

/-- A 32-byte buffer holds every segment name. -/
theorem segmentName_eq {l : Nat} (hl : 32 ≤ l) (id : UInt32) :
    segmentName l id = '/' :: entryName id := by
  have hlen : (formatU id).length ≤ 10 := by
    rw [formatU, Nat.length_toDigits_le_iff (by decide) (by decide)]
    have := id.toNat_lt
    omega
  have hp : shmNamePrefix.length = 9 := rfl
  rw [segmentName, List.take_of_length_le]
  · rfl
  · simp only [List.length_cons, List.length_append, hp]
    omega

end AnekVideo

/-
  AnekVideo.Shm.Entries

  Segments and the entries of /dev/shm.

  The name `segment_name` builds for an id is read back as that id, so the
  cleanup finds every segment that a create has made.  The way back is lossy:
  `av_atou` also reads an id from names that `segment_name` never builds, and
  there the cleanup acts on another object than the entry it has read.
-/
import AnekVideo.Names.Numerals
import AnekVideo.Shm.Traces

namespace AnekVideo

open Interact

/-! ## Decimal numerals -/

/-- What `%u` can write: decimal digits without a leading zero. -/
structure PlainDecimal (cs : CStr) : Prop where
  ne_nil : cs ≠ []
  digit : ∀ c ∈ cs, c.isDigit = true
  lead : cs.head? = some '0' → cs = ['0']

theorem plainDecimal_toDigits (n : Nat) : PlainDecimal (Nat.toDigits 10 n) where
  ne_nil := Nat.toDigits_ne_nil
  digit := fun c hc => Nat.isDigit_of_mem_toDigits (by decide) (by decide) hc
  lead := by
    rcases Nat.eq_zero_or_pos n with rfl | hpos
    · intro _
      exact Nat.toDigits_zero 10
    · obtain ⟨d, cs, hd, hd', hcs⟩ := head_toDigits hpos
      intro h0
      rw [hcs, List.head?_cons, Option.some.injEq] at h0
      have hne : Nat.digitChar d ≠ '0' := by interval_cases d <;> decide
      exact absurd h0 hne

theorem digitChar_of_isDigit {c : Char} (hc : c.isDigit = true) :
    ∃ d, d < 10 ∧ c = Nat.digitChar d := by
  have hr : 48 ≤ c.toNat ∧ c.toNat ≤ 57 := by
    simpa [Char.isDigit, UInt32.le_iff_toNat_le] using hc
  refine ⟨c.toNat - 48, by omega, ?_⟩
  have hof : c = Char.ofNat c.toNat := (Char.ofNat_toNat c).symm
  obtain ⟨h1, h2⟩ := hr
  generalize c.toNat = n at *
  rw [hof]
  interval_cases n <;> rfl

/-- A row of decimal digits that starts with another digit than 0 is what `%u` writes for a
    positive number. -/
theorem row_eq_toDigits {cs : CStr} (hne : cs ≠ []) (hdigit : ∀ c ∈ cs, c.isDigit = true)
    (hlead : cs.head? ≠ some '0') : ∃ n, 0 < n ∧ cs = Nat.toDigits 10 n := by
  induction cs using List.reverseRecOn with
  | nil => exact absurd rfl hne
  | append_singleton cs c ih =>
    obtain ⟨d, hd, rfl⟩ := digitChar_of_isDigit (hdigit c (by simp))
    by_cases hcs : cs = []
    · subst hcs
      refine ⟨d, ?_, (Nat.toDigits_of_lt_base hd).symm⟩
      by_contra h0
      obtain rfl : d = 0 := by omega
      exact hlead rfl
    · have hhead : (cs ++ [Nat.digitChar d]).head? = cs.head? := List.head?_append_of_ne_nil _ hcs
      obtain ⟨n, hn, hcs'⟩ := ih hcs (fun c' hc' => hdigit c' (by simp [hc'])) (hhead ▸ hlead)
      refine ⟨10 * n + d, by omega, ?_⟩
      rw [← Nat.toDigits_append_toDigits (by decide) hn hd, ← hcs', Nat.toDigits_of_lt_base hd]

theorem PlainDecimal.eq_toDigits {cs : CStr} (h : PlainDecimal cs) :
    ∃ n, cs = Nat.toDigits 10 n := by
  by_cases h0 : cs.head? = some '0'
  · exact ⟨0, h.lead h0⟩
  · obtain ⟨n, -, hn⟩ := row_eq_toDigits h.ne_nil h.digit h0
    exact ⟨n, hn⟩

/-- What `%u` writes is a numeral under base 0. -/
theorem numeral_toDigits (n : Nat) : Numeral (Nat.toDigits 10 n) n := by
  have hscan := scanDigits_toDigits n
  have hne : Nat.toDigits 10 n ≠ [] := Nat.toDigits_ne_nil
  have hread : Unsigned (Nat.toDigits 10 n) n → Numeral ([] ++ Nat.toDigits 10 n) n :=
    Numeral.plain (by simp)
  apply hread
  rcases Nat.eq_zero_or_pos n with rfl | hpos
  · exact .octal (digits_iff.2 ⟨by decide, rfl⟩)
  · obtain ⟨d, cs, hd, hd', hcs⟩ := head_toDigits hpos
    have hlead : Nat.digitChar d ≠ '0' := by interval_cases d <;> decide
    rw [hcs] at hscan ⊢
    exact .decimal hlead (digits_iff.2 ⟨by simp, hscan⟩)

/-- Read as an id, it is that id. -/
theorem avAtou_toDigits {h : Host} {n : Nat} {id : UInt32}
    (hid : avAtou h (Nat.toDigits 10 n) = .ok id) : Nat.toDigits 10 n = formatU id := by
  have hst : strtoul h.sizeMod (Nat.toDigits 10 n) =
      if h.sizeMod ≤ n then ⟨h.sizeMod - 1, [], true⟩
      else ⟨((n : Int) % h.sizeMod).toNat, [], false⟩ := strtoul_of_numeral (numeral_toDigits n)
  by_cases hmod : h.sizeMod ≤ n
  · rw [if_pos hmod] at hst
    simp [avAtou, hst] at hid
  · have hval : ((n : Int) % h.sizeMod).toNat = n := by
      rw [Int.emod_eq_of_lt (by omega) (by omega)]
      exact Int.toNat_natCast n
    rw [if_neg hmod, hval] at hst
    by_cases hn : n % 2 ^ 32 = n
    · simp only [avAtou, hst, hn, ne_eq, not_true_eq_false, Bool.false_eq_true, or_self,
        if_false, Except.ok.injEq] at hid
      rw [formatU, ← hid, UInt32.toNat_ofNat', hn]
    · simp only [avAtou, hst, hn, ne_eq, not_true_eq_false, Bool.false_eq_true, or_self,
        if_false, not_false_eq_true, if_true] at hid
      cases hid

/-! ## What the cleanup acts on -/

/-- The name an operation opens or unlinks. -/
def Sys.object : Sys → Option CStr
  | .shmOpen name _ _ => some name
  | .shmUnlink name => some name
  | _ => none

/-- The operation opens and unlinks nothing but `name`. -/
def ActsOn (name : CStr) (o : Sys) : Prop := ∀ n, o.object = some n → n = name

variable {h : Host} {id : UInt32} {e name : CStr}

theorem quiet_actsOn {α : Type} {p : C α} (hp : p.Only Kernel.QuietOp) :
    p.Only (ActsOn name) := by
  refine hp.mono fun o ho n hn => ?_
  cases o <;> first | exact ho.elim | cases hn

theorem actsOn_none {o : Sys} (ho : o.object = none) : ActsOn name o := by
  intro n hn
  rw [ho] at hn
  cases hn

theorem avShmAttachFail_actsOn (fd : Int) {m : AvShm} (hm : m.id = id) :
    (avShmAttachFail fd m).Obeys (ActsOn name) fun r => r.2.id = id :=
  .bind (.only (quiet_actsOn (avClose_quiet fd))) fun _ _ => .ret hm

/-- An attach opens the segment of its id, and the handle has that id. -/
theorem avShmAttachRo_actsOn (m : AvShm) :
    (avShmAttachRo h m id).Obeys (ActsOn (segmentName 32 id)) fun r => r.2.id = id := by
  have hopen : ActsOn (segmentName 32 id) (.shmOpen (segmentName 32 id) .rdonly 0) :=
    fun n hn => (Option.some.inj hn).symm
  refine .op hopen fun r => ?_
  cases r with
  | error e =>
    dsimp only
    split
    · exact .op (actsOn_none rfl) fun _ => .ret rfl
    · exact .ret rfl
  | ok fd =>
    refine .op (actsOn_none rfl) fun r => ?_
    cases r with
    | error e => exact .op (actsOn_none rfl) fun _ => avShmAttachFail_actsOn fd rfl
    | ok stSize =>
      dsimp only
      split
      · exact .op (actsOn_none rfl) fun _ => avShmAttachFail_actsOn fd rfl
      · refine .op (actsOn_none rfl) fun r => ?_
        cases r with
        | error e => exact .op (actsOn_none rfl) fun _ => avShmAttachFail_actsOn fd rfl
        | ok ptr =>
          refine .bind (.only (quiet_actsOn (avClose_quiet fd))) fun r _ => ?_
          exact .bind (.only (quiet_actsOn (avAssert_quiet ..))) fun _ _ => .ret rfl

/-- A free unlinks at most the segment of the handle's id. -/
theorem avShmFree_actsOn (m : AvShm) :
    (avShmFree h m).Only (ActsOn (segmentName 32 m.id)) := by
  have hassert : ∀ b e f, (avAssert b e f).Only (ActsOn (segmentName 32 m.id)) := fun b e f =>
    quiet_actsOn (avAssert_quiet b e f)
  have hlog : ∀ {α : Type} (r : Except Errno α) f a,
      (logIfError r f a).Only (ActsOn (segmentName 32 m.id)) := fun r f a =>
    quiet_actsOn (logIfError_quiet r f a)
  have hunlink : ActsOn (segmentName 32 m.id) (.shmUnlink (segmentName 32 m.id)) :=
    fun n hn => (Option.some.inj hn).symm
  refine .bind (hassert _ _ _) fun _ => ?_
  refine .bind (hassert _ _ _) fun _ => ?_
  refine .bind (hassert _ _ _) fun _ => ?_
  dsimp only
  split
  · refine .op (actsOn_none rfl) fun r => ?_
    exact .bind (hlog _ _ _) fun _ => .ret
  · refine .op (actsOn_none rfl) fun r => ?_
    refine .bind (hlog _ _ _) fun _ => ?_
    split
    · refine .op hunlink fun r => ?_
      exact .bind (hlog _ _ _) fun _ => .ret
    · exact .ret

/-- The two buffers hold the same name. -/
theorem segmentName_128 (id : UInt32) : segmentName 128 id = segmentName 32 id :=
  (segmentName_eq (by decide) id).trans (segmentName_eq (by decide) id).symm

theorem avShmCleanupSeg_actsOn {seg : AvShm} (hseg : seg.id = id) :
    (avShmCleanupSeg h id seg).Only (ActsOn (segmentName 32 id)) := by
  have hunlink : ActsOn (segmentName 32 id) (.shmUnlink (segmentName 128 id)) := by
    intro n hn
    rw [← segmentName_128]
    exact (Option.some.inj hn).symm
  exact avShmCleanupSeg_only (hseg ▸ avShmFree_actsOn seg) (fun _ => actsOn_none rfl)
    (fun _ => actsOn_none rfl) (fun _ _ _ => actsOn_none rfl) hunlink

/-- Whatever the system answers, the cleanup of an entry opens and unlinks only the segment
    of the id it has read. -/
theorem avShmCleanupEntry_actsOn (he : entryId h e = some id) :
    (avShmCleanupEntry h e).Obeys (ActsOn (segmentName 32 id)) fun _ => True := by
  unfold avShmCleanupEntry
  rw [he]
  refine .bind (avShmAttachRo_actsOn {}) fun r hr => ?_
  dsimp only
  split
  · exact .ret trivial
  · exact .only (avShmCleanupSeg_actsOn hr)

/-- And it opens that one. -/
theorem ActsOn.of_entry (he : entryId h e = some id)
    (hacts : (avShmCleanupEntry h e).Obeys (ActsOn name) fun _ => True) :
    segmentName 32 id = name := by
  unfold avShmCleanupEntry at hacts
  rw [he] at hacts
  have hopen := hacts.first rfl (.error .ENOENT)
  exact hopen _ rfl

theorem entryId_some (he : entryId h e = some id) :
    e = shmNamePrefix ++ e.drop shmNamePrefix.length ∧
      avAtou h (e.drop shmNamePrefix.length) = .ok id := by
  unfold entryId at he
  split at he
  · cases he
  · rename_i htake
    rw [not_ne_iff] at htake
    refine ⟨?_, ?_⟩
    · conv_lhs => rw [← List.take_append_drop shmNamePrefix.length e, htake]
    · cases hr : avAtou h (e.drop shmNamePrefix.length) with
      | error _ => rw [hr] at he; cases he
      | ok u => rw [hr] at he; cases he; rfl

/-- The cleanup acts on the entry it has read exactly if the name is one that `%u` has written. -/
theorem cleanup_own_entry (h : Host) (e : CStr) (id : UInt32) (he : entryId h e = some id) :
    (segmentName 32 id = '/' :: e ↔ PlainDecimal (e.drop shmNamePrefix.length)) ∧
      ((avShmCleanupEntry h e).Obeys (ActsOn ('/' :: e)) (fun _ => True) ↔
        PlainDecimal (e.drop shmNamePrefix.length)) := by
  obtain ⟨heq, hatou⟩ := entryId_some he
  have hname : segmentName 32 id = '/' :: e ↔ PlainDecimal (e.drop shmNamePrefix.length) := by
    rw [segmentName_eq (by decide), List.cons.injEq, entryName]
    constructor
    · rintro ⟨-, hcut⟩
      rw [← hcut, List.drop_left' rfl]
      exact plainDecimal_toDigits _
    · intro hplain
      obtain ⟨n, hn⟩ := hplain.eq_toDigits
      rw [hn] at hatou
      refine ⟨rfl, ?_⟩
      rw [← avAtou_toDigits hatou, ← hn]
      exact heq.symm
  refine ⟨hname, fun hacts => hname.1 (ActsOn.of_entry he hacts), fun hplain => ?_⟩
  rw [← hname.2 hplain]
  exact avShmCleanupEntry_actsOn he

theorem cleanup_own_entry_demo : segmentName 32 7 = '/' :: (shmNamePrefix ++ ['7']) ∧
    (avShmCleanupEntry lp64 (shmNamePrefix ++ ['7'])).Obeys
      (ActsOn ('/' :: (shmNamePrefix ++ ['7']))) fun _ => True := by
  have hown := cleanup_own_entry lp64 (shmNamePrefix ++ ['7']) 7 (by rfl)
  have hplain : PlainDecimal ['7'] := plainDecimal_toDigits 7
  exact ⟨hown.1.2 hplain, hown.2.2 hplain⟩

/-- At `anek-shm-007` the cleanup acts on `/anek-shm-7`, at `anek-shm-` on `/anek-shm-0`. -/
theorem other_entry : entryId lp64 (shmNamePrefix ++ ['0', '0', '7']) = some 7 ∧
    segmentName 32 7 ≠ '/' :: (shmNamePrefix ++ ['0', '0', '7']) ∧
    entryId lp64 shmNamePrefix = some 0 ∧ segmentName 32 0 ≠ '/' :: shmNamePrefix := by
  refine ⟨by rfl, ?_, by rfl, ?_⟩
  · rw [segmentName_eq (by decide)]
    decide
  · rw [segmentName_eq (by decide)]
    decide

/-! ## What a create makes -/

/-- The name of segment `id` in a buffer of `l` bytes is whole, and the tests of the cleanup
    read `id` back from it. -/
structure NameDecodes (h : Host) (l : Nat) (id : UInt32) : Prop where
  whole : segmentName l id = '/' :: (shmNamePrefix ++ formatU id)
  prefixed : ('/' :: shmNamePrefix) <+: segmentName l id
  prefixTest : (segmentName l id).tail.take shmNamePrefix.length = shmNamePrefix
  atou : avAtou h ((segmentName l id).tail.drop shmNamePrefix.length) = .ok id
  found : entryId h (segmentName l id).tail = some id

theorem nameDecodes (h : Host) {l : Nat} (hl : 32 ≤ l) (id : UInt32) : NameDecodes h l id where
  whole := segmentName_eq hl id
  prefixed := ⟨formatU id, (segmentName_eq hl id).symm⟩
  prefixTest := by
    rw [segmentName_eq hl]
    exact List.take_left' rfl
  atou := by
    rw [segmentName_eq hl, List.tail_cons, entryName, List.drop_left' rfl]
    exact avAtou_formatU h id
  found := by
    rw [segmentName_eq hl]
    exact entryId_entryName h id

/-- An operation that makes no segment, or one whose name decodes to its id. -/
def MakesDecodable (h : Host) : Sys → Prop
  | .shmOpen name .rdwrCreatExcl _ => ∃ id, name = segmentName 32 id ∧ NameDecodes h 32 id
  | _ => True

theorem helper_makes {α : Type} {p : C α} (hp : p.Only HelperOp) :
    p.Only (MakesDecodable h) := by
  refine hp.mono fun o ho => ?_
  cases o <;> first | exact ho.elim | trivial

theorem avShmCleanup_makes (h : Host) : (avShmCleanup h).Only (MakesDecodable h) := by
  refine (avShmCleanup_only h).mono fun o ho => ?_
  cases o with
  | shmOpen name flags mode => obtain rfl : flags = .rdonly := ho; trivial
  | _ => trivial

theorem avShmCreateFail_makes (fd : Int) (fn : CStr) (m : AvShm) :
    (avShmCreateFail fd fn m).Only (MakesDecodable h) := by
  unfold avShmCreateFail
  split
  · refine .op trivial fun _ => ?_
    exact .bind (helper_makes (avClose_helper fd)) fun _ => .ret
  · exact .ret

/-- Every segment a create makes has a name that decodes. -/
theorem avShmCreateRw_makes (h : Host) (idp : Nat) (m : AvShm) (size : Nat) (shared : Int)
    (mode : Nat) : (avShmCreateRw h idp m size shared mode).Only (MakesDecodable h) := by
  have hassert : ∀ b e f, (avAssert b e f).Only (MakesDecodable h) := fun b e f =>
    helper_makes (avAssert_helper b e f)
  have hfail : ∀ {l f a} fd fn m, (call (.log l f a) >>= fun _ => avShmCreateFail fd fn m).Only
      (MakesDecodable h) := fun fd fn m => .op trivial fun _ => avShmCreateFail_makes fd fn m
  refine .bind (hassert ..) fun _ => ?_
  refine .bind (hassert ..) fun _ => ?_
  refine .bind (hassert ..) fun _ => ?_
  refine .bind (avShmCleanup_makes h) fun _ => ?_
  dsimp only
  split
  · refine .op trivial fun r => ?_
    cases r with
    | error e => exact hfail _ _ _
    | ok ptr => exact .ret
  · refine .bind (helper_makes (avRandom_helper ..)) fun _ => ?_
    refine .op trivial fun id => ?_
    have hname : MakesDecodable h (.shmOpen (segmentName 32 id) .rdwrCreatExcl (mode &&& 0o444)) :=
      ⟨id, rfl, nameDecodes h (by decide) id⟩
    refine .op hname fun r => ?_
    cases r with
    | error e => exact hfail _ _ _
    | ok fd =>
      refine .op trivial fun r => ?_
      cases r with
      | error e => exact hfail _ _ _
      | ok _ =>
        refine .op trivial fun r => ?_
        cases r with
        | error e => exact hfail _ _ _
        | ok ptr =>
          -- the pid, the marker, and the descriptor is closed
          refine .op trivial fun _ => .op trivial fun _ => .op trivial fun _ => ?_
          refine .bind (helper_makes (avClose_helper fd)) fun r => ?_
          exact .bind (hassert ..) fun _ => .ret

/-- What a create opens to make a segment, on every run: the name of the id in the handle it
    returns, and on success that one.  Runs that end early open no other kind of name. -/
structure MakesOwn (h : Host) : Prop where
  decodable : ∀ idp m size shared mode,
    (avShmCreateRw h idp m size shared mode).Only (MakesDecodable h)
  named : ∀ idp m size shared mode t r, Run (avShmCreateRw h idp m size shared mode) t r →
    ∀ name, .made name ∈ sights t → name = segmentName 32 r.2.id
  made : ∀ idp m size shared mode t r, Run (avShmCreateRw h idp m size shared mode) t r →
    r.1 = 0 → shared ≠ 0 → .made (segmentName 32 r.2.id) ∈ sights t

theorem makesOwn (h : Host) : MakesOwn h where
  decodable := avShmCreateRw_makes h
  named := by
    intro idp m size shared mode t r hr name hname
    obtain ⟨v, v', ht, hpass, hv⟩ := avShmCreateRw_run hr
    rw [ht, List.mem_append] at hname
    obtain hname | hname := hname
    · exact (hpass _ hname).elim
    · cases hv with
      | unmapped => simp at hname
      | anonymous => simp at hname
      | failed _ hn hrest =>
        obtain rfl | ⟨e, rfl⟩ := hrest
        · simpa [hn] using hname
        · simpa [hn] using hname
      | made _ hn => simpa [hn] using hname
  made := by
    intro idp m size shared mode t r hr h0 hs
    obtain ⟨v, v', ht, -, hv⟩ := avShmCreateRw_run hr
    rw [ht]
    cases hv with
    | unmapped hs' => exact absurd hs' hs
    | anonymous hs' => exact absurd hs' hs
    | failed => cases h0
    | made _ hn => simp [hn]

/-- What the cleanup does about the entry of segment `id`: it opens that segment, it opens and
    unlinks nothing else there, and no pass that lists the entry leaves it unopened. -/
structure CleanupFinds (h : Host) (id : UInt32) : Prop where
  opens : ∃ f, (avShmCleanupEntry h (segmentName 32 id).tail).head =
    .call (.shmOpen (segmentName 32 id) .rdonly 0) f
  acts : (avShmCleanupEntry h (segmentName 32 id).tail).Obeys (ActsOn (segmentName 32 id))
    fun _ => True
  passes : ∀ t r, Run (avShmCleanup h) t r → .listed (segmentName 32 id).tail ∈ sights t →
    .attached (segmentName 32 id) ∈ sights t

theorem cleanupFinds (h : Host) (id : UInt32) : CleanupFinds h id := by
  have hfound : entryId h (segmentName 32 id).tail = some id :=
    (nameDecodes h (by decide) id).found
  refine ⟨?_, avShmCleanupEntry_actsOn hfound, fun t r hr hl => ?_⟩
  · unfold avShmCleanupEntry
    rw [hfound]
    exact ⟨_, rfl⟩
  · exact avShmCleanup_run hr _ id hl hfound

/-- Names decode to the ids they encode and ids have names of their own; a create makes its
    segment under the name of the id it hands out, and the cleanup reads that id from the entry
    and opens that segment. -/
theorem names_decode (h : Host) (l : Nat) (hl : 32 ≤ l) : (∀ id, NameDecodes h l id) ∧
    Function.Injective (segmentName l) ∧ MakesOwn h ∧ ∀ id, CleanupFinds h id := by
  refine ⟨nameDecodes h hl, ?_, makesOwn h, cleanupFinds h⟩
  intro id id' heq
  rw [segmentName_eq hl, segmentName_eq hl, List.cons.injEq] at heq
  exact entryName_injective heq.2

theorem names_decode_demo : NameDecodes lp64 32 0 ∧ NameDecodes lp64 32 4294967295 ∧
    segmentName 32 0 ≠ segmentName 32 4294967295 ∧ MakesOwn lp64 ∧ CleanupFinds lp64 7 := by
  obtain ⟨hall, hinj, hmakes, hfinds⟩ := names_decode lp64 32 (by decide)
  refine ⟨hall 0, hall 4294967295, ?_, hmakes, hfinds 7⟩
  intro heq
  exact absurd (hinj heq) (by decide)

end AnekVideo

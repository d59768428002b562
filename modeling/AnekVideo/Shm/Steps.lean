/-
  AnekVideo.Shm.Steps

  Each operation of shm.c against the protocol: which promise it keeps, and
  what its process knows afterwards.
-/
import AnekVideo.Shm.Protocol

namespace AnekVideo
namespace Kernel

open Interact RoundUp Word

variable {h : Host} {b : Bool} {t s : Nat} {k k' : Kernel} {ch : Choice}
variable {hs : List Handle} {n : Nat} {c : Option ShmCall}

/-! ## Quiet operations -/

theorem Own.quiet (ho : Own h b t hs n c k) (hq : Quiet t k k') : Own h b t hs n c k' := by
  obtain ⟨fds, mem, w, rfl⟩ := hq
  refine ho.setProc ?_ ?_ ?_ ?_ ?_
  exacts [rfl, ho.alive, rfl, ho.calls, ho.cur]

theorem Calm.quiet (hc : Calm h t k) (hq : Quiet t k k') : Calm h t k' := by
  obtain ⟨fds, mem, w, rfl⟩ := hq
  exact hc.setProc rfl

theorem Guar.quiet {o : Sys} {r : o.Resp} (hi : Inv h k) (ho : QuietOp o) (hq : Quiet t k k') :
    Guar h b t o k r k' := by
  obtain ⟨fds, mem, w, rfl⟩ := hq
  refine .setProc hi rfl id ?_
  cases o with
  | atomicLoad a => exact ho
  | atomicStore a v => exact ho
  | _ => trivial

/-- An operation that failed changed nothing. -/
theorem Guar.same {o : Sys} {r : o.Resp} (hi : Inv h k) (ho : Plain o) :
    Guar h b t o k r k := by
  have hg := Guar.setProc (h := h) (b := b) (t := t) (k := k) (p := k.procs t) (o := o) (r := r)
    hi rfl (fun ha => ha) ho
  rwa [setProc_id] at hg

/-- What a process knows about one object and its own history, and no quiet
    operation changes. -/
def QuietKept (t : Nat) (P : Kernel → Prop) : Prop := ∀ k k', Quiet t k k' → P k → P k'

theorem QuietKept.and {P Q : Kernel → Prop} (hP : QuietKept t P) (hQ : QuietKept t Q) :
    QuietKept t fun k => P k ∧ Q k := fun k k' hq hk => ⟨hP k k' hq hk.1, hQ k k' hq hk.2⟩

/-! ## The descriptors and mappings of the own process -/

/-- A new mapping of object `i`, as the handle `hd` describes it. -/
theorem Own.map (hd : Handle) {i a : Nat} (ho : Own h b t hs n c k) (ha : hd.m.ptr = a)
    (hlen : 0 < avPageAlign h hd.m.size) (hnew : ∀ m ∈ (k.procs t).maps,
      Mapping.Disjoint ⟨a, avPageAlign h hd.m.size, some i, 0, decide hd.Created⟩ m)
    (hi : i < k.inos) (hshared : hd.m.shared ≠ 0) (hsize : invalidSize h hd.m.size = false)
    (hroom : ¬ hd.Created → hd.room = 0)
    (hcreated : hd.Created → ∃ mk, (k.inodes i).made = some mk ∧ mk.owner = t ∧
      mk.call = hd.call ∧ mk.name = entryName hd.m.id ∧ hd.m.size = segSize h mk.size ∧
      hd.room = userSize h mk.size ∧ (b = true → k.dir.lookup mk.name = some i))
    (hcall : ∀ x ∈ hs, x.call ≠ hd.call) (hpos : ∀ x ∈ hs, 0 < avPageAlign h x.m.size) :
    let k' :=
      k.setProc t ((k.procs t).map ⟨a, avPageAlign h hd.m.size, some i, 0, decide hd.Created⟩)
    Own h b t (hd :: hs) n c k' ∧ HandleAt h b t hd i k' := by
  intro k'
  subst ha
  have hself : k'.procs t =
      (k.procs t).map ⟨hd.m.ptr, avPageAlign h hd.m.size, some i, 0, decide hd.Created⟩ :=
    setProc_self ..
  have hat : HandleAt h b t hd i k' :=
    { map := by rw [hself]; exact List.mem_cons_self
      lt := hi
      shared := hshared
      size := hsize
      room := hroom
      created := hcreated }
  refine ⟨?_, hat⟩
  exact
    { inv := ho.inv.setProc rfl
      lt := ho.lt
      alive := by rw [hself]; exact ho.alive
      calls := by rw [hself]; exact ho.calls
      cur := by rw [hself]; exact ho.cur
      disjoint := by rw [hself]; exact List.pairwise_cons.2 ⟨hnew, ho.disjoint⟩
      handles := by
        intro x hx
        rcases List.mem_cons.1 hx with rfl | hx
        · exact ⟨i, hat⟩
        · obtain ⟨j, hj⟩ := ho.handles x hx
          exact ⟨j, hj.setProc (List.mem_cons_of_mem _ hj.map)⟩
      distinct := by
        refine List.pairwise_cons.2 ⟨fun x hx => ⟨?_, (hcall x hx).symm⟩, ho.distinct⟩
        obtain ⟨j, hj⟩ := ho.handles x hx
        exact Mapping.Disjoint.addr_ne hlen (hpos x hx) (hnew _ hj.map) }

/-- Unmapping what the handle `hd` describes takes its handle away. -/
theorem Own.unmap {hd : Handle} (ho : Own h b t (hd :: hs) n c k)
    (hlen : 0 < avPageAlign h hd.m.size) :
    Own h b t hs n c (k.setProc t
      ((k.procs t).unmap hd.m.ptr (hd.m.ptr + avPageAlign h hd.m.size))) := by
  obtain ⟨i, hi⟩ := ho.handles hd List.mem_cons_self
  obtain ⟨hne, hdist⟩ := List.pairwise_cons.1 ho.distinct
  have hmaps := Proc.unmap_maps ho.disjoint hi.map hlen
  exact
    { inv := ho.inv.setProc rfl
      lt := ho.lt
      alive := by rw [setProc_self]; exact ho.alive
      calls := by rw [setProc_self]; exact ho.calls
      cur := by rw [setProc_self]; exact ho.cur
      disjoint := by rw [setProc_self, hmaps]; exact Proc.pairwise_erase ho.disjoint
      handles := by
        intro x hx
        obtain ⟨j, hj⟩ := ho.handles x (List.mem_cons_of_mem _ hx)
        refine ⟨j, hj.setProc ?_⟩
        rw [hmaps]
        -- the mapping of another handle starts elsewhere
        refine (List.mem_erase_of_ne fun heq => ?_).2 hj.map
        exact (hne x hx).1 (congrArg Mapping.addr heq).symm
      distinct := hdist }

/-- Dropping a handle from the books. -/
theorem Own.drop {hd : Handle} (ho : Own h b t (hd :: hs) n c k) : Own h b t hs n c k :=
  { ho with
    handles := fun x hx => ho.handles x (List.mem_cons_of_mem _ hx)
    distinct := (List.pairwise_cons.1 ho.distinct).2 }

theorem Own.perm {hs' : List Handle} (ho : Own h b t hs n c k) (hp : hs.Perm hs') :
    Own h b t hs' n c k :=
  { ho with
    handles := fun x hx => ho.handles x (hp.mem_iff.2 hx)
    distinct := hp.pairwise ho.distinct fun hxy => ⟨hxy.1.symm, hxy.2.symm⟩ }

/-! ## Changes to an own segment -/

/-- A change of segment `i` by the process that makes it: it may grow from nothing
    and gain its marker, and loses neither. -/
structure OwnChange (h : Host) (t : Nat) (k : Kernel) (i : Nat) (mk : Made) (x : Inode) : Prop where
  made : (k.inodes i).made = some mk
  owner : mk.owner = t
  made' : x.made = some mk
  removable : x.removable = (k.inodes i).removable
  grown : (k.inodes i).len ≠ 0 → x.len = (k.inodes i).len
  len : x.len = 0 ∨ x.len = segSize h mk.size
  stays : mk.Marked h (k.inodes i) → mk.Marked h x
  marked : mk.Marked h x → x.len = segSize h mk.size ∧
    load32 x.data (mk.place h + shmMarkerPid) = (k.procs mk.owner).pid

variable {i : Nat} {mk : Made} {x : Inode}

theorem OwnChange.made_eq (hx : OwnChange h t k i mk x) (j : Nat) :
    ((k.setInode i x).inodes j).made = (k.inodes j).made := by
  by_cases hj : j = i
  · subst hj
    rw [setInode_self, hx.made', hx.made]
  · rw [setInode_ne _ _ _ hj]

theorem OwnChange.inv (hx : OwnChange h t k i mk x) (hi : Inv h k) : Inv h (k.setInode i x) where
  names := hi.names
  canonical := fun n j mk' hl hmk' => hi.canonical n j mk' hl (hx.made_eq j ▸ hmk')
  pids := hi.pids
  made := fun j mk' hmk' => by
    rw [hx.made_eq] at hmk'
    have hok := hi.made j mk' hmk'
    by_cases hj : j = i
    · subst hj
      obtain rfl : mk = mk' := Option.some.inj (hx.made.symm.trans hmk')
      refine ⟨hok.lt, hok.owner, hok.size, ?_, ?_, ?_⟩
      · rw [setInode_self]; exact hx.len
      · rw [setInode_self]; exact hx.marked
      · rw [setInode_self, hx.removable]; exact hok.removable
    · refine ⟨hok.lt, hok.owner, hok.size, ?_, ?_, ?_⟩
      · rw [setInode_ne _ _ _ hj]; exact hok.len
      · rw [setInode_ne _ _ _ hj]; exact hok.marked
      · rw [setInode_ne _ _ _ hj]; exact hok.removable

theorem OwnChange.rely (hx : OwnChange h t k i mk x) (hs : s ≠ t) :
    Rely h b s k (k.setInode i x) where
  own := rfl
  nprocs := Nat.le_refl _
  procs := fun _ _ => ⟨rfl, id⟩
  inos := Nat.le_refl _
  made := fun j _ => hx.made_eq j
  kept := fun j mk' hmk' => by rw [hx.made_eq]; exact hmk'
  mine := fun j mk' hmk' howner => by
    have hj : j ≠ i := by
      rintro rfl
      obtain rfl : mk = mk' := Option.some.inj (hx.made.symm.trans hmk')
      exact hs (howner ▸ hx.owner)
    exact setInode_ne _ _ _ hj
  grown := fun j mk' _ hl => by
    by_cases hj : j = i
    · subst hj; rw [setInode_self]; exact hx.grown hl
    · rw [setInode_ne _ _ _ hj]
  marked := fun j mk' hmk' hm => by
    by_cases hj : j = i
    · subst hj
      obtain rfl : mk = mk' := Option.some.inj (hx.made.symm.trans hmk')
      rw [setInode_self]
      exact hx.stays hm
    · rw [setInode_ne _ _ _ hj]; exact hm
  bound := fun _ _ _ _ _ _ hl => hl
  inv := hx.inv

theorem OwnChange.guar {o : Sys} {r : o.Resp} (hx : OwnChange h t k i mk x) (hi : Inv h k)
    (hload : ∀ a, o ≠ .atomicLoad a)
    (hstore : ∀ a v, o = .atomicStore a v → StoreOk h t a v k) :
    Guar h b t o k r (k.setInode i x) where
  rely := fun _ hs => hx.rely hs
  inv := hx.inv hi
  load := fun a ha => absurd ha (hload a)
  store := hstore
  removal := fun _ _ _ _ hl _ hne => absurd hl hne

theorem OwnChange.handle {hd : Handle} {j : Nat} (hx : OwnChange h t k i mk x)
    (hh : HandleAt h b t hd j k) : HandleAt h b t hd j (k.setInode i x) where
  map := hh.map
  lt := hh.lt
  shared := hh.shared
  size := hh.size
  room := hh.room
  created := fun hc => by rw [hx.made_eq]; exact hh.created hc

theorem OwnChange.own (hx : OwnChange h t k i mk x) (ho : Own h b t hs n c k) :
    Own h b t hs n c (k.setInode i x) where
  inv := hx.inv ho.inv
  lt := ho.lt
  alive := ho.alive
  calls := ho.calls
  cur := ho.cur
  disjoint := ho.disjoint
  handles := fun hd hhd => by
    obtain ⟨j, hj⟩ := ho.handles hd hhd
    exact ⟨j, hx.handle hj⟩
  distinct := ho.distinct

theorem OwnChange.calm (hx : OwnChange h t k i mk x) (hc : Calm h t k) :
    Calm h t (k.setInode i x) :=
  ⟨fun j mk' hsaw => hc.1 j mk' ⟨hsaw.1, by rw [← hx.made_eq]; exact hsaw.2⟩, hc.2⟩

/-! ## A new segment -/

/-- A segment that its creator has made in this call: how long it is, and what the
    creator knows of its name. -/
structure Fresh (b : Bool) (t i : Nat) (mk : Made) (len : Nat) (k : Kernel) : Prop where
  made : (k.inodes i).made = some mk
  owner : mk.owner = t
  len : (k.inodes i).len = len
  opened : (k.procs t).opened = some i
  bound : b = true → k.dir.lookup mk.name = some i

theorem OwnChange.fresh {len : Nat} (hx : OwnChange h t k i mk x) (hf : Fresh b t i mk len k) :
    Fresh b t i mk x.len (k.setInode i x) where
  made := by rw [hx.made_eq]; exact hf.made
  owner := hf.owner
  len := by rw [setInode_self]
  opened := hf.opened
  bound := hf.bound

theorem Fresh.rely {len : Nat} (hf : Fresh b t i mk len k) (ha : (k.procs t).alive = true)
    (hr : Rely h b t k k') : Fresh b t i mk len k' where
  made := hr.kept i mk hf.made
  owner := hf.owner
  len := by rw [hr.mine i mk hf.made hf.owner]; exact hf.len
  opened := by rw [hr.own]; exact hf.opened
  bound := fun hb => hr.bound hb ha i mk hf.made hf.owner (hf.bound hb)

theorem Fresh.setProc {len : Nat} {p : Proc} (hf : Fresh b t i mk len k)
    (ho : p.opened = (k.procs t).opened) : Fresh b t i mk len (k.setProc t p) where
  made := hf.made
  owner := hf.owner
  len := hf.len
  opened := by rw [setProc_self, ho]; exact hf.opened
  bound := hf.bound

section Create

/-- What the record of a new segment has to be. -/
structure MadeFor (h : Host) (k : Kernel) (name : CStr) (mk : Made) : Prop where
  owner : mk.owner < k.nprocs
  size : SizeOk h mk.size
  name : ∃ id, name = entryName id

variable {name : CStr} {mode fd : Nat}

/-- The parts of the state after a create, for a process in the call `cur`. -/
theorem create_made {idp size mode' : Nat} {m : AvShm} {shared : Int}
    (hcur : (k.procs t).cur = some (.create idp m size shared mode')) :
    k.madeBy t name = some ⟨t, (k.procs t).calls, name, size⟩ := by
  simp only [madeBy, hcur]

theorem create_inodes_ne {made : Option Made} {j : Nat} (hj : j ≠ k.inos) :
    (k.create h t name mode fd made).inodes j = k.inodes j := Function.update_of_ne hj ..

theorem create_inodes_self {made : Option Made} :
    ((k.create h t name mode fd made).inodes k.inos).made = made ∧
      ((k.create h t name mode fd made).inodes k.inos).len = 0 ∧
      (((k.create h t name mode fd made).inodes k.inos).data = fun _ => 0) ∧
      ((k.create h t name mode fd made).inodes k.inos).removable = true := by
  simp [create]

theorem create_procs_ne {made : Option Made} (hs : s ≠ t) :
    (k.create h t name mode fd made).procs s = k.procs s := Function.update_of_ne hs ..

theorem create_procs_self {made : Option Made} :
    (k.create h t name mode fd made).procs t =
      { (k.procs t).openFd fd (.shm k.inos true) with opened := some k.inos } :=
  Function.update_self ..

theorem create_lookup {made : Option Made} {n' : CStr} :
    (k.create h t name mode fd made).dir.lookup n' =
      if n' = name then some k.inos else k.dir.lookup n' := by
  by_cases hn : n' = name
  · subst hn
    rw [if_pos rfl]
    exact AList.lookup_insert _
  · rw [if_neg hn]
    exact AList.lookup_insert_ne hn

theorem create_pid {made : Option Made} (s : Nat) :
    ((k.create h t name mode fd made).procs s).pid = (k.procs s).pid ∧
      ((k.create h t name mode fd made).procs s).alive = (k.procs s).alive := by
  by_cases hs : s = t
  · subst hs; rw [create_procs_self]; exact ⟨rfl, rfl⟩
  · rw [create_procs_ne hs]; exact ⟨rfl, rfl⟩

theorem Inv.made_ne (hi : Inv h k) {j : Nat} {mk' : Made} (hmk : (k.inodes j).made = some mk') :
    j ≠ k.inos := (hi.made j mk' hmk).lt.ne

theorem Inv.create {made : Option Made} (hi : Inv h k)
    (hmade : ∀ mk, made = some mk → MadeFor h k name mk) :
    Inv h (k.create h t name mode fd made) where
  names := fun n' j hl => by
    rw [create_lookup] at hl
    split at hl
    · cases hl; exact Nat.lt_succ_self _
    · exact Nat.lt_succ_of_lt (hi.names n' j hl)
  canonical := fun n' j mk' hl hmk' => by
    rw [create_lookup] at hl
    split at hl
    · rename_i hn
      cases hl
      rw [hn]
      exact (hmade mk' (create_inodes_self.1.symm.trans hmk')).name
    · rw [create_inodes_ne (hi.names n' j hl).ne] at hmk'
      exact hi.canonical n' j mk' hl hmk'
  pids := fun s hs => by rw [(create_pid s).1]; exact hi.pids s hs
  made := fun j mk' hmk' => by
    by_cases hj : j = k.inos
    · subst hj
      obtain ⟨hm, hl, hd, hrem⟩ := @create_inodes_self h t k name mode fd made
      have hfor := hmade mk' (hm.symm.trans hmk')
      refine ⟨Nat.lt_succ_self _, hfor.owner, hfor.size, .inl hl, fun hmarked => ?_, hrem⟩
      -- a new object has no marker
      rw [Made.Marked, hd, load32_zero] at hmarked
      exact absurd hmarked (by decide)
    · rw [create_inodes_ne hj] at hmk'
      have hok := hi.made j mk' hmk'
      refine ⟨Nat.lt_succ_of_lt hok.lt, hok.owner, hok.size, ?_, ?_, ?_⟩
      · rw [create_inodes_ne hj]; exact hok.len
      · rw [create_inodes_ne hj, (create_pid mk'.owner).1]; exact hok.marked
      · rw [create_inodes_ne hj]; exact hok.removable

theorem Rely.create {made : Option Made} (hi : Inv h k) (hs : s ≠ t)
    (hmade : ∀ mk, made = some mk → MadeFor h k name mk)
    (hl : k.dir.lookup name = none) : Rely h b s k (k.create h t name mode fd made) where
  own := create_procs_ne hs
  nprocs := Nat.le_refl _
  procs := fun u _ => ⟨(create_pid u).1, by rw [(create_pid u).2]; exact id⟩
  inos := Nat.le_succ _
  made := fun j hj => by rw [create_inodes_ne hj.ne]
  kept := fun j mk' hmk' => by rw [create_inodes_ne (hi.made_ne hmk')]; exact hmk'
  mine := fun j mk' hmk' _ => create_inodes_ne (hi.made_ne hmk')
  grown := fun j mk' hmk' _ => by rw [create_inodes_ne (hi.made_ne hmk')]
  marked := fun j mk' hmk' hm => by rw [create_inodes_ne (hi.made_ne hmk')]; exact hm
  bound := fun _ _ j mk' _ _ hl' => by
    rw [create_lookup, if_neg ?_]
    · exact hl'
    · rintro rfl
      rw [hl] at hl'
      cases hl'
  inv := fun hi => hi.create hmade

theorem Guar.create {made : Option Made} {o : Sys} {r : o.Resp} (hi : Inv h k)
    (hmade : ∀ mk, made = some mk → MadeFor h k name mk)
    (hl : k.dir.lookup name = none) (ho : Plain o) :
    Guar h b t o k r (k.create h t name mode fd made) where
  rely := fun _ hs => .create hi hs hmade hl
  inv := hi.create hmade
  load := fun a ha => absurd ha (ho.not_load a)
  store := fun a v ha => absurd ha (ho.not_store a v)
  removal := fun _ n' j mk' hl' _ hne => by
    refine absurd ?_ hne
    rw [create_lookup, if_neg ?_]
    · exact hl'
    · rintro rfl
      rw [hl] at hl'
      cases hl'

theorem Own.create {made : Option Made} (ho : Own h b t hs n c k)
    (hmade : ∀ mk, made = some mk → MadeFor h k name mk)
    (hl : k.dir.lookup name = none) : Own h b t hs n c (k.create h t name mode fd made) where
  inv := ho.inv.create hmade
  lt := ho.lt
  alive := by rw [(create_pid t).2]; exact ho.alive
  calls := by rw [create_procs_self]; exact ho.calls
  cur := by rw [create_procs_self]; exact ho.cur
  disjoint := by rw [create_procs_self]; exact ho.disjoint
  handles := fun hd hhd => by
    obtain ⟨j, hj⟩ := ho.handles hd hhd
    refine ⟨j,
      { map := by rw [create_procs_self]; exact hj.map
        lt := Nat.lt_succ_of_lt hj.lt
        shared := hj.shared
        size := hj.size
        room := hj.room
        created := fun hc => ?_ }⟩
    obtain ⟨mk', hmk', howner, hcall, hname, hsize, hroom, hl'⟩ := hj.created hc
    refine ⟨mk', by rw [create_inodes_ne (ho.inv.made_ne hmk')]; exact hmk', howner, hcall,
      hname, hsize, hroom, fun hb => ?_⟩
    rw [create_lookup, if_neg ?_]
    · exact hl' hb
    · intro hn
      -- the name was free, so no handle stands for it
      rw [hn, hl] at hl'
      cases hl' hb
  distinct := ho.distinct

theorem Calm.create {made : Option Made} (hc : Calm h t k) :
    Calm h t (k.create h t name mode fd made) := by
  refine ⟨fun j mk' hsaw => ?_, fun l hload => ?_⟩
  · obtain ⟨hload, hmk'⟩ := hsaw
    rw [create_procs_self] at hload
    have hj : j ≠ k.inos := (hc.2 _ hload).ne
    rw [create_inodes_ne hj] at hmk'
    exact hc.1 j mk' ⟨hload, hmk'⟩
  · rw [create_procs_self] at hload
    exact Nat.lt_succ_of_lt (hc.2 l hload)

theorem Fresh.create {mk : Made} (ht : mk.owner = t) (hname : mk.name = name) :
    Fresh b t k.inos mk 0 (k.create h t name mode fd (some mk)) where
  made := create_inodes_self.1
  owner := ht
  len := create_inodes_self.2.1
  opened := by rw [create_procs_self]
  bound := fun _ => by rw [create_lookup, if_pos hname]

end Create

/-! ## A name that goes -/

section Unlink

variable {name : CStr}

theorem erase_lookup {n' : CStr} (hn : n' ≠ name) :
    (k.dir.erase name).lookup n' = k.dir.lookup n' := AList.lookup_erase_ne hn

theorem Inv.erase (hi : Inv h k) : Inv h { k with dir := k.dir.erase name } where
  names := fun n' j hl => by
    by_cases hn : n' = name
    · subst hn
      rw [AList.lookup_erase] at hl
      cases hl
    · rw [AList.lookup_erase_ne hn] at hl
      exact hi.names n' j hl
  canonical := fun n' j mk' hl hmk' => by
    by_cases hn : n' = name
    · subst hn
      rw [AList.lookup_erase] at hl
      cases hl
    · rw [AList.lookup_erase_ne hn] at hl
      exact hi.canonical n' j mk' hl hmk'
  pids := hi.pids
  made := fun j mk' hmk' => ⟨(hi.made j mk' hmk').lt, (hi.made j mk' hmk').owner,
    (hi.made j mk' hmk').size, (hi.made j mk' hmk').len, (hi.made j mk' hmk').marked,
    (hi.made j mk' hmk').removable⟩

/-- Unlinking is in order where the protocol allows the removal and the segment, if
    it is one, is not one of another living process. -/
theorem Guar.erase {o : Sys} {r : o.Resp} (hi : Inv h k) (ho : Plain o)
    (hok : b = true → ∀ j mk, k.dir.lookup name = some j → (k.inodes j).made = some mk →
      ByCreator t k name mk ∨ (k.procs mk.owner).alive = false) :
    Guar h b t o k r { k with dir := k.dir.erase name } where
  rely := fun s hs =>
    { own := rfl
      nprocs := Nat.le_refl _
      procs := fun _ _ => ⟨rfl, id⟩
      inos := Nat.le_refl _
      made := fun _ _ => rfl
      kept := fun _ _ hmk => hmk
      mine := fun _ _ _ _ => rfl
      grown := fun _ _ _ _ => rfl
      marked := fun _ _ _ hm => hm
      bound := fun hb ha j mk' hmk' howner hl => by
        by_cases hn : mk'.name = name
        · rcases hok hb j mk' (hn ▸ hl) hmk' with hby | hdead
          · exact absurd (howner.symm.trans hby.1) hs
          · rw [howner, ha] at hdead
            cases hdead
        · -- another name is not touched
          exact (erase_lookup hn).trans hl
      inv := fun hi => hi.erase }
  inv := hi.erase
  load := fun a ha => absurd ha (ho.not_load a)
  store := fun a v ha => absurd ha (ho.not_store a v)
  removal := fun hb n' j mk' hl hmk' hne => by
    by_cases hn : n' = name
    · subst hn
      exact hok hb j mk' hl hmk'
    · exact absurd ((erase_lookup hn).trans hl) hne

theorem Own.erase (ho : Own h b t hs n c k)
    (hok : b = true → ∀ hd ∈ hs, hd.Created → entryName hd.m.id ≠ name ∨
      k.dir.lookup name = none) : Own h b t hs n c { k with dir := k.dir.erase name } where
  inv := ho.inv.erase
  lt := ho.lt
  alive := ho.alive
  calls := ho.calls
  cur := ho.cur
  disjoint := ho.disjoint
  handles := fun hd hhd => by
    obtain ⟨j, hj⟩ := ho.handles hd hhd
    refine ⟨j, hj.map, hj.lt, hj.shared, hj.size, hj.room, fun hc => ?_⟩
    obtain ⟨mk', hmk', howner, hcall, hname, hsize, hroom, hl'⟩ := hj.created hc
    refine ⟨mk', hmk', howner, hcall, hname, hsize, hroom, fun hb => ?_⟩
    have hne : mk'.name ≠ name := by
      rcases hok hb hd hhd hc with hne | hnone
      · rw [hname]; exact hne
      · rintro rfl
        rw [hl' hb] at hnone
        cases hnone
    exact (erase_lookup hne).trans (hl' hb)
  distinct := ho.distinct

end Unlink

/-! ## Loads -/

/-- A word read through a mapped handle. -/
theorem load_handle {hd : Handle} {o : Nat} {v : UInt32} (ho : Own h b t hs n c k)
    (hi : HandleAt h b t hd i k) (hoff : o < avPageAlign h hd.m.size)
    (he : exec h ch t (.atomicLoad (hd.m.ptr + o)) k = some (v, k')) :
    v = load32 (k.inodes i).data o ∧
      k' = k.setProc t { k.procs t with lastLoad := some ⟨i, o, v⟩ } ∧
      ∃ m, (k.procs t).mapAt (hd.m.ptr + o) = some m ∧ m.ino = some i ∧
        o = hd.m.ptr + o - m.addr + m.off := by
  have hat : (k.procs t).mapAt (hd.m.ptr + o) = some _ :=
    Proc.mapAt_eq ho.disjoint hi.map ⟨Nat.le_add_right .., Nat.add_lt_add_left hoff _⟩
  obtain ⟨m, hm, ⟨j, hj, hv, hk⟩ | ⟨hj, -⟩⟩ := atomicLoad_cases he
  · rw [hat] at hm
    cases hm
    cases hj
    simp only [Nat.add_sub_cancel_left, Nat.add_zero] at hv hk
    exact ⟨hv, hk, _, hat, rfl, by simp⟩
  · rw [hat] at hm
    cases hm
    cases hj

/-- A byte written through a mapped handle. -/
theorem write_handle {hd : Handle} {o : Nat} {v : UInt8} {r} (ho : Own h b t hs n c k)
    (hi : HandleAt h b t hd i k) (hoff : o < avPageAlign h hd.m.size)
    (he : exec h ch t (.userWrite (hd.m.ptr + o) v) k = some (r, k')) :
    k' = k.setInode i
      { k.inodes i with data := Function.update (k.inodes i).data o v } := by
  have hat : (k.procs t).mapAt (hd.m.ptr + o) = some _ :=
    Proc.mapAt_eq ho.disjoint hi.map ⟨Nat.le_add_right .., Nat.add_lt_add_left hoff _⟩
  obtain ⟨m, hm, ⟨j, hj, hk⟩ | ⟨hj, -⟩⟩ := userWrite_cases he
  · rw [hat] at hm
    cases hm
    cases hj
    simp only [Nat.add_sub_cancel_left, Nat.add_zero] at hk
    exact hk
  · rw [hat] at hm
    cases hm
    cases hj

/-- A word stored through a mapped handle. -/
theorem store_handle {hd : Handle} {o : Nat} {v : UInt32} {r} (ho : Own h b t hs n c k)
    (hi : HandleAt h b t hd i k) (hoff : o < avPageAlign h hd.m.size)
    (he : exec h ch t (.atomicStore (hd.m.ptr + o) v) k = some (r, k')) :
    k' = k.setInode i { k.inodes i with data := store32 (k.inodes i).data o v } := by
  have hat : (k.procs t).mapAt (hd.m.ptr + o) = some _ :=
    Proc.mapAt_eq ho.disjoint hi.map ⟨Nat.le_add_right .., Nat.add_lt_add_left hoff _⟩
  obtain ⟨m, hm, ⟨j, hj, hk⟩ | ⟨hj, -⟩⟩ := atomicStore_cases he
  · rw [hat] at hm
    cases hm
    cases hj
    simp only [Nat.add_sub_cancel_left, Nat.add_zero] at hk
    exact hk
  · rw [hat] at hm
    cases hm
    cases hj

end Kernel
end AnekVideo

/-
  AnekVideo.Talloc.Code

  ccan/talloc/talloc.c: the tree of chunks and the references between them.

  A chunk and the pointer `TC_PTR_FROM_CHUNK` makes of it are one number, 0 for NULL.
  The memory is one map for each field; a `struct talloc_reference_handle` lies in the
  memory of its own chunk.  An access to what is not a chunk, which is where
  `talloc_chunk_from_ptr` aborts or the C code has no meaning, faults.

  What `malloc` and `realloc` return is an argument `mem`, 0 for NULL.  Locks and
  external memory (`TALLOC_FLAG_EXT_ALLOC`) are not here, and a destructor that is not
  talloc's own calls no talloc function.
-/
import AnekVideo.Interact.Faults

namespace AnekVideo
namespace Talloc

open Interact

/-! ## The memory -/

/-- `MAX_TALLOC_SIZE`. -/
def maxTallocSize : Nat := 0x10000000

/-- What computing in `size_t` leaves of a number. -/
def sizeT (n : Nat) : Nat := n % 2 ^ 64

/-- Whose `next` and `prev`: those of a `struct talloc_chunk`, or those of a
    `struct talloc_reference_handle`. -/
inductive Links
  | chunk
  | handle
  deriving DecidableEq, Repr

/-- `tc->destructor`; `running` is `(talloc_destructor_t)-1`. -/
inductive Destructor
  | none
  | running
  | tallocReferenceDestructor
  | user (d : Nat)
  deriving DecidableEq, Repr

/-- `tc->name`; `reference` is `TALLOC_MAGIC_REFERENCE`. -/
inductive Name
  | null
  | reference
  | str (s : String)
  deriving DecidableEq, Repr

/-- The memory as talloc sees it.  `loop` is `TALLOC_FLAG_LOOP`, `ptr` the field of a
    handle; `ran` are the chunks whose destructors have run, the latest first. -/
@[ext] structure Heap where
  live : Nat → Bool
  next : Links → Nat → Nat
  prev : Links → Nat → Nat
  parent : Nat → Nat
  child : Nat → Nat
  refs : Nat → Nat
  destructor : Nat → Destructor
  name : Nat → Name
  size : Nat → Nat
  loop : Nat → Bool
  ptr : Nat → Nat
  nullContext : Nat
  ran : List Nat

/-- An access to what is not a chunk, or more rounds or calls than a bound admits. -/
inductive Fault
  | access (p : Nat)
  | stuck
  deriving DecidableEq, Repr

abbrev T := Faulty Heap Fault

namespace Heap

variable (k : Heap) (p : Nat)

def setNext (l : Links) (v : Nat) : Heap :=
  { k with next := fun l' a => if l' = l ∧ a = p then v else k.next l' a }

def setPrev (l : Links) (v : Nat) : Heap :=
  { k with prev := fun l' a => if l' = l ∧ a = p then v else k.prev l' a }

def setParent (v : Nat) : Heap := { k with parent := Function.update k.parent p v }
def setChild (v : Nat) : Heap := { k with child := Function.update k.child p v }
def setRefs (v : Nat) : Heap := { k with refs := Function.update k.refs p v }
def setDestructor (d : Destructor) : Heap :=
  { k with destructor := Function.update k.destructor p d }
def setName (x : Name) : Heap := { k with name := Function.update k.name p x }
def setSize (n : Nat) : Heap := { k with size := Function.update k.size p n }
def setLoop (b : Bool) : Heap := { k with loop := Function.update k.loop p b }
def setPtr (v : Nat) : Heap := { k with ptr := Function.update k.ptr p v }
def setLive (b : Bool) : Heap := { k with live := Function.update k.live p b }

/-- Before the first call. -/
def empty : Heap where
  live := fun _ => false
  next := fun _ _ => 0
  prev := fun _ _ => 0
  parent := fun _ => 0
  child := fun _ => 0
  refs := fun _ => 0
  destructor := fun _ => .none
  name := fun _ => .null
  size := fun _ => 0
  loop := fun _ => false
  ptr := fun _ => 0
  nullContext := 0
  ran := []

end Heap

/-- Reading a field of `p`. -/
def load {α : Type} (field : Heap → Nat → α) (p : Nat) : T α := fun k =>
  if k.live p then .ok (field k p, k) else .error (.access p)

/-- Writing a field of `p`. -/
def store (p : Nat) (set : Heap → Heap) : T Unit := fun k =>
  if k.live p then .ok ((), set k) else .error (.access p)

/-- `if (p)` in front of writing a field of `p`. -/
def storeNonnull (p : Nat) (set : Heap → Heap) : T Unit :=
  if p = 0 then return () else store p set

/-- `talloc_chunk_from_ptr`: the flags are looked at. -/
def tallocChunkFromPtr (p : Nat) : T Unit := load (fun _ _ => ()) p

/-- `null_context`. -/
def nullContext : T Nat := fun k => .ok (k.nullContext, k)

/-! ## The lists -/

/-- `(p)->next = (p)->prev = NULL`. -/
def clearLinks (l : Links) (p : Nat) : T Unit := do
  store p (·.setPrev p l 0)
  store p (·.setNext p l 0)

/-- `_TLIST_ADD`: the new value of `list`. -/
def tlistAdd (l : Links) (list p : Nat) : T Nat := do
  if list = 0 then
    clearLinks l p
    return p
  else
    store list (·.setPrev list l p)
    store p (·.setNext p l list)
    store p (·.setPrev p l 0)
    return p

/-- The two stores that link the neighbours of `p` to each other. -/
def bypass (l : Links) (p : Nat) : T Unit := do
  let prev ← load (·.prev l) p
  let next ← load (·.next l) p
  storeNonnull prev (·.setNext prev l next)
  storeNonnull next (·.setPrev next l prev)

/-- `_TLIST_REMOVE`: the new value of `list`. -/
def tlistRemove (l : Links) (list p : Nat) : T Nat := do
  if p = list then
    let list ← load (·.next l) p
    storeNonnull list (·.setPrev list l 0)
    if p ≠ 0 ∧ p ≠ list then
      clearLinks l p
      return list
    else return list
  else
    bypass l p
    if p ≠ 0 then
      clearLinks l p
      return list
    else return list

/-! ## Walking the tree -/

/-- `while (tc->prev) tc = tc->prev;`, in at most `n` rounds. -/
def firstSibling (n tc : Nat) : T Nat :=
  Faulty.rounds .stuck (fun tc => do
    let prev ← load (·.prev .chunk) tc
    if prev ≠ 0 then return .inl prev else return .inr tc) n tc

/-- `talloc_parent_chunk`. -/
def tallocParentChunk (n ptr : Nat) : T Nat := do
  if ptr = 0 then return 0
  else
    tallocChunkFromPtr ptr
    let tc ← firstSibling n ptr
    load (·.parent) tc

/-- The loop that climbs from a context through its parents to the first that passes
    `test`, NULL if there is none. -/
def climb (n : Nat) (test : Nat → T Bool) (context : Nat) : T Nat :=
  Faulty.rounds .stuck (fun tc => do
    if tc = 0 then return .inr 0
    else
      let found ← test tc
      if found then return .inr tc
      else
        let tc ← firstSibling n tc
        let parent ← load (·.parent) tc
        return .inl parent) n context

/-- `_talloc_is_parent`. -/
def tallocIsParent (n context ptr : Nat) : T Bool := do
  if context = 0 then return false
  else
    tallocChunkFromPtr context
    let tc ← climb n (fun tc => return decide (tc = ptr)) context
    return decide (tc ≠ 0)

/-- `tc->name && strcmp(tc->name, name) == 0`; `TALLOC_MAGIC_REFERENCE` is the address 1,
    where `strcmp` finds no string. -/
def nameIs (tc : Nat) (name : String) : T Bool := do
  match ← load (·.name) tc with
  | .null => return false
  | .reference => throw (.access 1)
  | .str s => return decide (s = name)

/-- `talloc_find_parent_byname`. -/
def tallocFindParentByname (n context : Nat) (name : String) : T Nat := do
  if context = 0 then return 0
  else
    tallocChunkFromPtr context
    climb n (fun tc => nameIs tc name) context

/-! ## Allocation -/

/-- `init_talloc`. -/
def initTalloc (parent tc size : Nat) : T Nat := do
  if tc = 0 then return 0
  else
    store tc (·.setSize tc size)
    store tc (·.setLoop tc false)
    store tc (·.setDestructor tc .none)
    store tc (·.setChild tc 0)
    store tc (·.setName tc .null)
    store tc (·.setRefs tc 0)
    if parent ≠ 0 then
      let child ← load (·.child) parent
      -- `tc->next = NULL` where there is no child
      storeNonnull child (·.setParent child 0)
      store tc (·.setNext tc .chunk child)
      storeNonnull child (·.setPrev child .chunk tc)
      store tc (·.setParent tc parent)
      store tc (·.setPrev tc .chunk 0)
      store parent (·.setChild parent tc)
      return tc
    else
      store tc (·.setParent tc 0)
      store tc (·.setPrev tc .chunk 0)
      store tc (·.setNext tc .chunk 0)
      return tc

/-- `malloc` of a chunk, which returns `mem`. -/
def malloc (mem : Nat) : T Nat := fun k =>
  .ok (mem, if mem = 0 then k else k.setLive mem true)

/-- `__talloc`. -/
def talloc (mem context size : Nat) : T Nat := do
  let null ← nullContext
  let context := if context = 0 then null else context
  if maxTallocSize ≤ size then return 0
  else if context ≠ 0 then
    tallocChunkFromPtr context
    let tc ← malloc mem
    initTalloc context tc size
  else
    let tc ← malloc mem
    initTalloc 0 tc size

/-- `_talloc_named_const`. -/
def tallocNamedConst (mem context size : Nat) (name : Name) : T Nat := do
  let ptr ← talloc mem context size
  if ptr = 0 then return 0
  else
    store ptr (·.setName ptr name)
    return ptr

/-- `_talloc_set_destructor`. -/
def tallocSetDestructor (ptr : Nat) (d : Destructor) : T Unit := store ptr (·.setDestructor ptr d)

/-- `talloc_enable_null_tracking`. -/
def tallocEnableNullTracking (mem : Nat) : T Unit := do
  let null ← nullContext
  if null = 0 then
    let p ← tallocNamedConst mem 0 0 (.str "null_context")
    fun k => .ok ((), { k with nullContext := p })
  else return ()

/-! ## References -/

/-- `sizeof(struct talloc_reference_handle)`. -/
def sizeofHandle : Nat := 24

/-- `_talloc_reference`. -/
def tallocReference (mem context ptr : Nat) : T Nat := do
  if ptr = 0 then return 0
  else
    tallocChunkFromPtr ptr
    let handle ← tallocNamedConst mem context sizeofHandle .reference
    if handle = 0 then return 0
    else
      tallocSetDestructor handle .tallocReferenceDestructor
      store handle (·.setPtr handle ptr)
      let refs ← load (·.refs) ptr
      let refs ← tlistAdd .handle refs handle
      store ptr (·.setRefs ptr refs)
      load (·.ptr) handle

/-- `talloc_increase_ref_count`. -/
def tallocIncreaseRefCount (mem ptr : Nat) : T Int := do
  let null ← nullContext
  let p ← tallocReference mem null ptr
  if p = 0 then return -1 else return 0

/-- `talloc_reference_destructor`. -/
def tallocReferenceDestructor (handle : Nat) : T Int := do
  let ptr ← load (·.ptr) handle
  tallocChunkFromPtr ptr
  let refs ← load (·.refs) ptr
  let refs ← tlistRemove .handle refs handle
  store ptr (·.setRefs ptr refs)
  return 0

/-! ## Moving a chunk -/

/-- The statement that takes a chunk out of its list, in `__talloc_steal` and `_talloc_free`. -/
def unlink (tc : Nat) : T Unit := do
  let parent ← load (·.parent) tc
  if parent ≠ 0 then
    let list ← load (·.child) parent
    let list ← tlistRemove .chunk list tc
    store parent (·.setChild parent list)
    storeNonnull list (·.setParent list parent)
  else bypass .chunk tc

/-- `__talloc_steal`. -/
def tallocSteal (newCtx ptr : Nat) : T Nat := do
  if ptr = 0 then return 0
  else
    let null ← nullContext
    let newCtx := if newCtx = 0 then null else newCtx
    tallocChunkFromPtr ptr
    if newCtx = 0 then
      unlink ptr
      clearLinks .chunk ptr
      store ptr (·.setParent ptr 0)
      return ptr
    else
      tallocChunkFromPtr newCtx
      let parent ← load (·.parent) ptr
      -- nothing to do for the chunk itself, and for its parent where it is the first child
      if ptr = newCtx ∨ parent = newCtx then return ptr
      else
        unlink ptr
        store ptr (·.setParent ptr newCtx)
        let child ← load (·.child) newCtx
        storeNonnull child (·.setParent child 0)
        let child ← tlistAdd .chunk child ptr
        store newCtx (·.setChild newCtx child)
        return ptr

/-! ## Freeing -/

/-- What the destructors return: the `n`-th to run, with the number of its code and the chunk. -/
abbrev Outcomes := Nat → Nat → Nat → Int

variable (D : Outcomes)

/-- A destructor runs. -/
def Destructor.run (ptr : Nat) : Destructor → T Int
  | .tallocReferenceDestructor => Talloc.tallocReferenceDestructor ptr
  | .user d => fun k => .ok (D k.ran.length d ptr, { k with ran := ptr :: k.ran })
  | .none => return 0
  | .running => return -1

/-- The part of `_talloc_free` that runs the destructor: whether it refuses. -/
def destruct (ptr : Nat) : T Bool := do
  match ← load (·.destructor) ptr with
  | .none => return false
  -- `(talloc_destructor_t)-1`: the destructor of this chunk has not returned yet
  | .running => return true
  | d =>
    store ptr (·.setDestructor ptr .running)
    let r ← d.run D ptr
    if r = -1 then
      store ptr (·.setDestructor ptr d)
      return true
    else
      store ptr (·.setDestructor ptr .none)
      return false

/-- Who will own a child that cannot be freed, as far as its references tell. -/
def referrer (n child : Nat) : T Nat := do
  let null ← nullContext
  let refs ← load (·.refs) child
  if refs ≠ 0 then
    let p ← tallocParentChunk n refs
    return if p ≠ 0 then p else null
  else return null

/-- One round of `while (tc->child)`, where `free` is `_talloc_free`. -/
def freeChild (free : Nat → T Int) (n ptr : Nat) : T (Unit ⊕ Unit) := do
  let child ← load (·.child) ptr
  if child = 0 then return .inr ()
  else
    -- looked up before the child loses the reference that says so
    let newParent ← referrer n child
    let r ← free child
    -- its destructor refused, or a reference holds it
    if r = -1 then
      let null ← nullContext
      if newParent = null then
        let p ← tallocParentChunk n ptr
        let _ ← tallocSteal (if p ≠ 0 then p else newParent) child
        return .inl ()
      else
        let _ ← tallocSteal newParent child
        return .inl ()
    else return .inl ()

/-- `tc->flags |= TALLOC_FLAG_FREE; free(tc);`. -/
def release (ptr : Nat) : T Unit := store ptr (·.setLive ptr false)

/-- `_talloc_free`, its calls nested at most `depth` deep and each loop at most `n` rounds long. -/
def tallocFree (n : Nat) : Nat → Nat → T Int
  | 0, _ => throw .stuck
  | depth + 1, ptr => do
    if ptr = 0 then return -1
    else
      tallocChunkFromPtr ptr
      let refs ← load (·.refs) ptr
      if refs ≠ 0 then
        -- a reference from below the chunk does not keep it
        let isChild ← tallocIsParent n refs ptr
        let _ ← tallocFree n depth refs
        if isChild then tallocFree n depth ptr else return -1
      else
        let loop ← load (·.loop) ptr
        -- the chunk is being freed by a call that has not returned
        if loop then return 0
        else
          let refused ← destruct D ptr
          if refused then return -1
          else
            unlink ptr
            store ptr (·.setLoop ptr true)
            Faulty.rounds .stuck (fun _ => freeChild (tallocFree n depth) n ptr) n ()
            release ptr
            return 0

/-- `talloc_free`. -/
def free (n ptr : Nat) : T Int := tallocFree D n n ptr

/-- `talloc_disable_null_tracking`. -/
def tallocDisableNullTracking (n : Nat) : T Unit := do
  let null ← nullContext
  let _ ← free D n null
  fun k => .ok ((), { k with nullContext := 0 })

/-! ## Releasing a reference -/

/-- The handle that hangs off `context`, in the list from `h` on. -/
def findHandle (n context h : Nat) : T Nat :=
  Faulty.rounds .stuck (fun h => do
    if h = 0 then return .inr 0
    else
      let p ← tallocParentChunk n h
      if p = context then return .inr h
      else
        let next ← load (·.next .handle) h
        return .inl next) n h

/-- `talloc_unreference`. -/
def tallocUnreference (n context ptr : Nat) : T Int := do
  tallocChunkFromPtr ptr
  let null ← nullContext
  let refs ← load (·.refs) ptr
  let h ← findHandle n (if context = 0 then null else context) refs
  if h = 0 then return -1 else free D n h

/-- `talloc_unlink`. -/
def tallocUnlink (n context ptr : Nat) : T Int := do
  if ptr = 0 then return -1
  else
    let null ← nullContext
    let context := if context = 0 then null else context
    let r ← tallocUnreference D n context ptr
    if r = 0 then return 0
    else
      -- `talloc_chunk_from_ptr(context)`, unless it is NULL
      storeNonnull context id
      let parent ← tallocParentChunk n ptr
      if parent ≠ context then return -1
      else
        let refs ← load (·.refs) ptr
        if refs = 0 then free D n ptr
        else
          -- a parent leaves: the newest reference gives way to the place it hung at
          let newParent ← tallocParentChunk n refs
          let r ← tallocUnreference D n newParent ptr
          if r ≠ 0 then return -1
          else
            let _ ← tallocSteal newParent ptr
            return 0

/-! ## Changing the size of a chunk -/

/-- What is at `p` has moved to `m`. -/
def Heap.move (k : Heap) (p m : Nat) : Heap where
  live := Function.update (Function.update k.live p false) m true
  next := fun l a => if a = m then k.next l p else k.next l a
  prev := fun l a => if a = m then k.prev l p else k.prev l a
  parent := Function.update k.parent m (k.parent p)
  child := Function.update k.child m (k.child p)
  refs := Function.update k.refs m (k.refs p)
  destructor := Function.update k.destructor m (k.destructor p)
  name := Function.update k.name m (k.name p)
  size := Function.update k.size m (k.size p)
  loop := Function.update k.loop m (k.loop p)
  ptr := Function.update k.ptr m (k.ptr p)
  nullContext := k.nullContext
  ran := k.ran

/-- `realloc` of the chunk `p`, which returns `mem`. -/
def realloc (p mem : Nat) : T Nat := fun k => .ok (mem, if mem = 0 then k else k.move p mem)

/-- `_talloc_realloc`. -/
def tallocRealloc (n mem context ptr size : Nat) (name : Name) : T Nat := do
  if size = 0 then
    let _ ← free D n ptr
    return 0
  else if maxTallocSize ≤ size then return 0
  else if ptr = 0 then tallocNamedConst mem context size name
  else
    tallocChunkFromPtr ptr
    let refs ← load (·.refs) ptr
    if refs ≠ 0 then return 0
    else
      let tc ← realloc ptr mem
      if tc = 0 then return 0
      else
        -- all that pointed to the old place, but for the references, of which there are none
        let parent ← load (·.parent) tc
        storeNonnull parent (·.setChild parent tc)
        let child ← load (·.child) tc
        storeNonnull child (·.setParent child tc)
        let prev ← load (·.prev .chunk) tc
        storeNonnull prev (·.setNext prev .chunk tc)
        let next ← load (·.next .chunk) tc
        storeNonnull next (·.setPrev next .chunk tc)
        store tc (·.setSize tc size)
        store tc (·.setName tc name)
        return tc

/-! ## Looking at the tree -/

/-- `_talloc_total_size` and `_talloc_total_blocks`, which differ in what a chunk adds. -/
def total (add : Heap → Nat → Nat) (n : Nat) : Nat → Nat → T Nat
  | 0, _ => throw .stuck
  | depth + 1, ptr => do
    tallocChunkFromPtr ptr
    let loop ← load (·.loop) ptr
    if loop then return 0
    else
      store ptr (·.setLoop ptr true)
      -- what the chunk adds itself
      let first ← load add ptr
      let child ← load (·.child) ptr
      let sum ← Faulty.rounds .stuck (fun ((c, sum) : Nat × Nat) => do
        if c = 0 then return .inr sum
        else
          let t ← total add n depth c
          let next ← load (·.next .chunk) c
          return .inl (next, sizeT (sum + t))) n (child, sizeT first)
      store ptr (·.setLoop ptr false)
      return sum

/-- `_talloc_total_size`. -/
def totalSize (n ptr : Nat) : T Nat := total (·.size) n n ptr

/-- `_talloc_total_blocks`. -/
def totalBlocks (n ptr : Nat) : T Nat := total (fun _ _ => 1) n n ptr

/-- `talloc_total_size`. -/
def tallocTotalSize (n ptr : Nat) : T Nat := do
  let null ← nullContext
  let ptr := if ptr = 0 then null else ptr
  if ptr = 0 then return 0 else totalSize n ptr

/-- `_talloc_reference_count`. -/
def referenceCount (n ptr : Nat) : T Nat := do
  tallocChunkFromPtr ptr
  let h ← load (·.refs) ptr
  Faulty.rounds .stuck (fun ((h, ret) : Nat × Nat) => do
    if h = 0 then return .inr ret
    else
      let next ← load (·.next .handle) h
      return .inl (next, sizeT (ret + 1))) n (h, 0)

/-- `talloc_get_name`. -/
def tallocGetName (ptr : Nat) : T String := do
  tallocChunkFromPtr ptr
  match ← load (·.name) ptr with
  | .reference => return ".reference"
  | .str s => return s
  | .null => return "UNNAMED"

/-- A line that `talloc_report_depth_FILE_helper` prints. -/
inductive Line
  | reference (depth : Nat) (name : String)
  | top (full : Bool) (name : String) (size blocks : Nat)
  | chunk (depth : Nat) (name : String) (size blocks refs ptr : Nat)
  deriving DecidableEq, Repr

/-- `talloc_report_depth_FILE_helper`. -/
def reportDepthFileHelper (n ptr depth : Nat) (maxDepth : Int) (isRef : Bool) : T Line := do
  let name ← tallocGetName ptr
  if isRef then return .reference depth name
  else
    let size ← totalSize n ptr
    let blocks ← totalBlocks n ptr
    if depth = 0 then return .top (decide (maxDepth < 0)) name size blocks
    else
      let refs ← referenceCount n ptr
      return .chunk depth name size blocks refs ptr

/-- `_talloc_report_depth_cb` with that helper; `nest` bounds how deep its calls are nested. -/
def reportDepth (n : Nat) (maxDepth : Int) : Nat → Nat → Nat → T (List Line)
  | 0, _, _ => throw .stuck
  | nest + 1, ptr, depth => do
    tallocChunkFromPtr ptr
    let loop ← load (·.loop) ptr
    if loop then return []
    else
      let line ← reportDepthFileHelper n ptr depth maxDepth false
      if 0 ≤ maxDepth ∧ maxDepth ≤ depth then return [line]
      else
        store ptr (·.setLoop ptr true)
        let child ← load (·.child) ptr
        let lines ← Faulty.rounds .stuck (fun ((c, lines) : Nat × List Line) => do
          if c = 0 then return .inr lines
          else
            let name ← load (·.name) c
            -- a handle is told by its name, and gives the line of what it refers to
            let more ← (if name = .reference then do
                let p ← load (·.ptr) c
                let line ← reportDepthFileHelper n p (depth + 1) maxDepth true
                return [line]
              else reportDepth n maxDepth nest c (depth + 1))
            let next ← load (·.next .chunk) c
            return .inl (next, lines ++ more)) n (child, [line])
        store ptr (·.setLoop ptr false)
        return lines

/-- `talloc_report_depth_file`: the lines it prints. -/
def tallocReportDepthFile (n ptr depth : Nat) (maxDepth : Int) : T (List Line) := do
  let null ← nullContext
  let ptr := if ptr = 0 then null else ptr
  if ptr = 0 then return [] else reportDepth n maxDepth n ptr depth

end Talloc
end AnekVideo

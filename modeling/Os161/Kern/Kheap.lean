import Os161.Lib.Links
import Os161.Lib.Lts
import Os161.Lib.Prog
import Os161.Vm.Ram

/-! # `kheap.c`: blocks of less than a page

A page is cut into blocks of one size. The free blocks of a page are linked through their first word,
and the pages through the table of page references. Addresses are `u_int32_t`, and 0 is `NULL`.
-/

namespace Os161

open Prog

abbrev NSIZES : Nat := 8

def sizes : List Nat := [16, 32, 64, 128, 256, 512, 1024, 2048]

def sizeAt (blktype : Nat) : Nat := sizes.getD blktype 0

structure Pageref where
  next_samesize : Option Nat
  next_all : Option Nat
  pageaddr_and_blocktype : Nat
  freelist_offset : Nat
  nfree : Nat
  deriving DecidableEq, Repr

abbrev INVALID_OFFSET : Nat := 0xffff

def PR_PAGEADDR (pr : Pageref) : Nat := pageFrame pr.pageaddr_and_blocktype
def PR_BLOCKTYPE (pr : Pageref) : Nat := pr.pageaddr_and_blocktype % PAGE_SIZE
def MKPAB (pa blk : Nat) : Nat := pageFrame pa + blk % PAGE_SIZE

abbrev NPAGEREFS : Nat := 256
abbrev INUSE_WORDS : Nat := 8

/-- The variables of the allocator, the words of memory, and the pages that `alloc_kpages` has handed
out and that have not been given back. -/
structure Kheap where
  mem : Nat → Nat
  pagerefs : Nat → Pageref
  pagerefs_inuse : Nat → BitVec 32
  sizebases : Nat → Option Nat
  allbase : Option Nat
  kpages : List Nat

inductive KheapPanic where
  | allocpageref | freepageref_range | freepageref_inuse | remove_lists | blocktype
  | kmalloc_blocktype | kmalloc_offset | kmalloc_more | kmalloc_next | kmalloc_last
  | fresh_self | fresh_offset
  | kfree_blocktype | kfree_addr | kfree_nfree | kfree_align
  | list_loop
  deriving DecidableEq, Repr

abbrev KheapProg := Prog KheapPanic Empty Kheap

def u32 (x : Nat) : Nat := x % 2 ^ 32

/-! ## Page references -/

def inuseBit (j : Nat) : BitVec 32 := 1#32 <<< j

def Kheap.setInuse (s : Kheap) (i : Nat) (w : BitVec 32) : Kheap :=
  { s with pagerefs_inuse := Function.update s.pagerefs_inuse i w }

def allocpageref : KheapProg (Option Nat) := do
  let s ← get
  match (List.range INUSE_WORDS).find? fun i => s.pagerefs_inuse i ≠ 0xffffffff#32 with
  | none => return none
  | some i =>
    match (List.range 32).find? fun j => s.pagerefs_inuse i &&& inuseBit j = 0#32 with
    | none => stop .allocpageref
    | some j =>
      set (s.setInuse i (s.pagerefs_inuse i ||| inuseBit j))
      return some (i * 32 + j)

def freepageref (p : Nat) : KheapProg Unit := do
  ensure (p < NPAGEREFS) .freepageref_range
  let s ← get
  let i := p / 32
  let k := inuseBit (p % 32)
  ensure (s.pagerefs_inuse i &&& k ≠ 0#32) .freepageref_inuse
  set (s.setInuse i (s.pagerefs_inuse i &&& ~~~k))

def Kheap.setPageref (s : Kheap) (k : Nat) (pr : Pageref) : Kheap :=
  { s with pagerefs := Function.update s.pagerefs k pr }

def Kheap.writeSamesize (s : Kheap) (blktype : Nat) (p : Option Nat) : Links.Guy Nat → Kheap
  | .first => { s with sizebases := Function.update s.sizebases blktype p }
  | .after k => s.setPageref k { s.pagerefs k with next_samesize := p }

def Kheap.writeAll (s : Kheap) (p : Option Nat) : Links.Guy Nat → Kheap
  | .first => { s with allbase := p }
  | .after k => s.setPageref k { s.pagerefs k with next_all := p }

def remove_samesize (pr blktype : Nat) : KheapProg Unit := do
  let s ← get
  match Links.find (s.sizebases blktype) (fun k => (s.pagerefs k).next_samesize) pr (NPAGEREFS + 1) .first with
  | none => stop .list_loop
  | some none => pure ()
  | some (some guy) => set (s.writeSamesize blktype (s.pagerefs pr).next_samesize guy)

def remove_all (pr : Nat) : KheapProg Unit := do
  let s ← get
  match Links.find s.allbase (fun k => (s.pagerefs k).next_all) pr (NPAGEREFS + 1) .first with
  | none => stop .list_loop
  | some none => pure ()
  | some (some guy) => set (s.writeAll (s.pagerefs pr).next_all guy)

def remove_lists (pr blktype : Nat) : KheapProg Unit := do
  ensure (blktype < NSIZES) .remove_lists
  remove_samesize pr blktype
  remove_all pr

/-! ## Allocation -/

def blocktype (sz : Nat) : KheapProg Nat :=
  match (List.range NSIZES).find? fun i => sz ≤ sizeAt i with
  | some i => pure i
  | none => stop .blocktype

def scan (next : Pageref → Option Nat) (check : Pageref → Prop) [DecidablePred check] (p : KheapPanic)
    (hit : Pageref → Bool) : Nat → Option Nat → KheapProg (Option Nat)
  | _, none => pure none
  | 0, some _ => stop .list_loop
  | n + 1, some pr => do
    let r := (← get).pagerefs pr
    ensure (check r) p
    if hit r then return some pr else scan next check p hit n (next r)

/-- The page is the one that the outcome of the call names, 0 if there is none. -/
def Kheap.alloc_kpages (page : Nat) : KheapProg Nat := do
  if page = 0 then
    return 0
  else
    modify fun s => { s with kpages := page :: s.kpages }
    return page

def Kheap.free_kpages (addr : Nat) : KheapProg Unit :=
  modify fun s => { s with kpages := s.kpages.erase addr }

def Kheap.store (s : Kheap) (fl p : Nat) : Kheap := { s with mem := Function.update s.mem fl p }

def doalloc (pr : Nat) : KheapProg Nat := do
  let s ← get
  let r := s.pagerefs pr
  ensure (r.freelist_offset < PAGE_SIZE) .kmalloc_offset
  let prpage := PR_PAGEADDR r
  let retptr := u32 (prpage + r.freelist_offset)
  let fl := s.mem retptr
  let nfree := (r.nfree + 2 ^ 16 - 1) % 2 ^ 16
  if fl ≠ 0 then
    ensure (nfree > 0) .kmalloc_more
    let offset := u32 (fl + 2 ^ 32 - prpage)
    ensure (offset < PAGE_SIZE) .kmalloc_next
    set (s.setPageref pr { r with nfree := nfree, freelist_offset := offset % 2 ^ 16 })
    return retptr
  else
    ensure (nfree = 0) .kmalloc_last
    set (s.setPageref pr { r with nfree := nfree, freelist_offset := INVALID_OFFSET })
    return retptr

def link_blocks (fla sz : Nat) : Nat → Nat → Nat → KheapProg Nat
  | 0, _, fl => pure fl
  | n + 1, i, _ => do
    let fl := u32 (fla + i * sz)
    modify fun s => s.store fl (u32 (fla + (i - 1) * sz))
    ensure (fl ≠ (← get).mem fl) .fresh_self
    link_blocks fla sz n (i + 1) fl

def newpage (pr prpage blktype : Nat) : KheapProg Unit := do
  let nfree := PAGE_SIZE / sizeAt blktype
  modify fun s => s.setPageref pr
    { s.pagerefs pr with pageaddr_and_blocktype := MKPAB prpage blktype, nfree := nfree }
  modify fun s => s.store prpage 0
  let fl ← link_blocks prpage (sizeAt blktype) (nfree - 1) 1 prpage
  let offset := u32 (fl + 2 ^ 32 - prpage) % 2 ^ 16
  modify fun s => s.setPageref pr { s.pagerefs pr with freelist_offset := offset }
  ensure (offset = (nfree - 1) * sizeAt blktype) .fresh_offset
  modify fun s => s.setPageref pr { s.pagerefs pr with next_samesize := s.sizebases blktype }
  modify fun s => { s with sizebases := Function.update s.sizebases blktype (some pr) }
  modify fun s => s.setPageref pr { s.pagerefs pr with next_all := s.allbase }
  modify fun s => { s with allbase := some pr }

def subpage_grow (blktype page : Nat) : KheapProg Nat := do
  match ← allocpageref with
  | none => return 0
  | some pr =>
    let prpage ← Kheap.alloc_kpages page
    if prpage = 0 then
      freepageref pr
      return 0
    else
      newpage pr prpage blktype
      doalloc pr

def subpage_kmalloc (sz page : Nat) : KheapProg Nat := do
  let blktype ← blocktype sz
  let start := (← get).sizebases blktype
  let found ← scan (·.next_samesize) (PR_BLOCKTYPE · = blktype) .kmalloc_blocktype (·.nfree > 0) NPAGEREFS start
  match found with
  | some pr => doalloc pr
  | none => subpage_grow blktype page

/-! ## Freeing -/

def fill_deadbeef (ptr len : Nat) (mem : Nat → Nat) : Nat → Nat :=
  (List.range (len / 4)).foldl (fun mem i => Function.update mem (u32 (ptr + 4 * i)) 0xdeadbeef) mem

def Pageref.has (ptraddr : Nat) (pr : Pageref) : Bool :=
  PR_PAGEADDR pr ≤ ptraddr && ptraddr < u32 (PR_PAGEADDR pr + PAGE_SIZE)

def putback (pr offset : Nat) : KheapProg Unit := do
  let s ← get
  let r := s.pagerefs pr
  let fla := u32 (PR_PAGEADDR r + offset)
  let next := if r.freelist_offset = INVALID_OFFSET then 0 else u32 (PR_PAGEADDR r + r.freelist_offset)
  set { s.store fla next with
    pagerefs := Function.update s.pagerefs pr
      { r with freelist_offset := offset % 2 ^ 16, nfree := (r.nfree + 1) % 2 ^ 16 } }

def release (pr : Nat) : KheapProg Unit := do
  let r := (← get).pagerefs pr
  ensure (r.nfree ≤ PAGE_SIZE / sizeAt (PR_BLOCKTYPE r)) .kfree_nfree
  if r.nfree = PAGE_SIZE / sizeAt (PR_BLOCKTYPE r) then
    remove_lists pr (PR_BLOCKTYPE r)
    Kheap.free_kpages (PR_PAGEADDR r)
    freepageref pr
  else
    pure ()

/-- False where the C function returns -1. -/
def subpage_kfree (ptr : Nat) : KheapProg Bool := do
  let start := (← get).allbase
  match ← scan (·.next_all) (PR_BLOCKTYPE · < NSIZES) .kfree_blocktype (Pageref.has ptr) NPAGEREFS start with
  | none => return false
  | some pr =>
    let s ← get
    let r := s.pagerefs pr
    let offset := u32 (ptr + 2 ^ 32 - PR_PAGEADDR r)
    ensure (¬ (offset ≥ PAGE_SIZE ∨ offset % sizeAt (PR_BLOCKTYPE r) ≠ 0)) .kfree_addr
    set { s with mem := fill_deadbeef ptr (sizeAt (PR_BLOCKTYPE r)) s.mem }
    putback pr offset
    release pr
    return true

def kfree (ptr : Nat) : KheapProg Unit := do
  if ptr = 0 then
    pure ()
  else if ← subpage_kfree ptr then
    pure ()
  else
    ensure (ptr % PAGE_SIZE = 0) .kfree_align
    Kheap.free_kpages ptr

/-! ## Runs -/

structure KheapRun where
  heap : Kheap
  live : List (Nat × Nat)

/-- A call of `kmalloc` with what `alloc_kpages` returns if it is called, a call of `kfree`, and a store
of a word by anybody. -/
inductive KheapOp where
  | kmalloc (sz page : Nat)
  | kfree (ptr : Nat)
  | store (addr word : Nat)
  deriving DecidableEq, Repr

def Kheap.InUse (s : Kheap) (k : Nat) : Prop := k < NPAGEREFS ∧ (s.pagerefs_inuse (k / 32)).getLsbD (k % 32) = true

def Pageref.InPage (r : Pageref) (a : Nat) : Prop := PR_PAGEADDR r ≤ a ∧ a < PR_PAGEADDR r + PAGE_SIZE

def KheapOp.Legal (w : KheapRun) : KheapOp → Prop
  | .kmalloc sz page => sz < LARGEST_SUBPAGE_SIZE ∧
      (page = 0 ∨ page % PAGE_SIZE = 0 ∧ page < 2 ^ 32 ∧ page ∉ w.heap.kpages)
  | .kfree ptr => ∃ p ∈ w.live, p.1 = ptr
  | .store addr word => addr % 4 = 0 ∧ word < 2 ^ 32 ∧
      ((∃ p ∈ w.live, p.1 ≤ addr ∧ addr < p.1 + p.2) ∨
        ∀ k < NPAGEREFS, w.heap.InUse k → ¬ (w.heap.pagerefs k).InPage addr)

def KheapOp.Below : KheapOp → Prop
  | .kmalloc _ page => page + PAGE_SIZE < 2 ^ 32
  | _ => True

def KheapOp.exec (op : KheapOp) (w : KheapRun) : Except KheapPanic KheapRun :=
  match op with
  | .kmalloc sz page =>
    match subpage_kmalloc sz page w.heap with
    | .ok (.ok ptr, s) => .ok ⟨s, if ptr = 0 then w.live else (ptr, sz) :: w.live⟩
    | .error p => .error p
  | .kfree ptr =>
    match Os161.kfree ptr w.heap with
    | .ok (.ok _, s) => .ok ⟨s, w.live.filter fun p => p.1 ≠ ptr⟩
    | .error p => .error p
  | .store addr word => .ok { w with heap := w.heap.store addr word }

def kheap : Machine KheapRun KheapOp Empty KheapPanic where
  init w := w.live = [] ∧ (∀ i, w.heap.pagerefs_inuse i = 0#32) ∧ (∀ b, w.heap.sizebases b = none) ∧
    w.heap.allbase = none
  step w op :=
    match op.exec w with
    | .ok w' => .ok (w', [])
    | .error p => .error p

end Os161

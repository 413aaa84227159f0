import Flyos.Mm.Pmm
import Flyos.Lib.TableTree

/-!
# Page tables

`kernel/mm/vmm.c`.  Physical memory is identity mapped, so a table pointer is
the physical address of its frame; `PageTables` is that memory seen as 512
64-bit entries in every frame.  The functions are the C functions on a state
that holds the tables, the page allocator and CR3.  The TLB and the messages on
the serial line are left out: no function reads them back.

`oom` is a ghost: it is set when `pmm_alloc_page` has answered with 0, which the
C code does not record.

No sum below can wrap: a large page's address is a multiple of 2 MiB, to which
less than 2 MiB is added.
-/

namespace Flyos

/-- `VMM_PRESENT`. -/
abbrev vmmPresent : Nat := 1

/-- `VMM_WRITABLE`. -/
abbrev vmmWritable : Nat := 2

/-- `VMM_USER`. -/
abbrev vmmUser : Nat := 4

/-- `VMM_HUGE`. -/
abbrev vmmHuge : Nat := 0x80

/-- `ADDR_MASK`. -/
abbrev addrMask : Nat := 0x000FFFFFFFFFF000

/-- `~0x1FFFFFULL`. -/
abbrev hugeMask : Nat := 0xFFFFFFFFFFE00000

/-- `~0xFFFULL`. -/
abbrev pageMask : Nat := 0xFFFFFFFFFFFFF000

/-- The 512 entries of every frame. -/
abbrev PageTables := Nat → Fin 512 → Nat

instance neZero_entries : NeZero 512 := ⟨by decide⟩

/-- What `vmm.c` works on. -/
structure Vmm where
  mem : PageTables
  pmm : Pmm
  cr3 : Nat
  oom : Bool

namespace Vmm

/-- `table[i] = e`. -/
def set (s : Vmm) (table : Nat) (i : Fin 512) (e : Nat) : Vmm :=
  { s with mem := fun f j => if f = table ∧ j = i then e else s.mem f j }

/-- A loop that assigns every entry of a table. -/
def fillPage (s : Vmm) (table : Nat) (e : Fin 512 → Nat) : Vmm :=
  { s with mem := fun f j => if f = table then e j else s.mem f j }

/-- The second of two such loops decides. -/
@[simp] theorem fillPage_fillPage (s : Vmm) (table : Nat) (e e' : Fin 512 → Nat) :
    (s.fillPage table e).fillPage table e' = s.fillPage table e' := by
  simp only [fillPage, mk.injEq, and_true]
  funext f j
  by_cases here : f = table
  · rw [if_pos here, if_pos here]
  · rw [if_neg here, if_neg here, if_neg here]

/-- `zero_page`. -/
def zeroPage (s : Vmm) (table : Nat) : Vmm := s.fillPage table fun _ => 0

/-- `pmm_alloc_page`. -/
def allocPage (s : Vmm) : Nat × Vmm :=
  let r := pmmAllocPage s.pmm
  (r.1, { s with pmm := r.2, oom := s.oom || r.1 == 0 })

/-- The table CR3 points to. -/
def root (s : Vmm) : Nat := s.cr3 &&& addrMask

end Vmm

/-- `next_table`: the table behind an entry, which is made when there is none. -/
def nextTable (s : Vmm) (parent : Nat) (idx : Fin 512) : Nat × Vmm :=
  if s.mem parent idx &&& vmmPresent = 0 then
    let r := s.allocPage
    let np := r.1
    if np = 0 then (0, r.2)
    else
      let s := r.2.zeroPage np
      let s := s.set parent idx (np ||| vmmPresent ||| vmmWritable ||| vmmUser)
      (s.mem parent idx &&& addrMask, s)
  else
    let s := s.set parent idx (s.mem parent idx ||| vmmUser)
    (s.mem parent idx &&& addrMask, s)

/-- `split_huge_pd`: make a table of small pages out of a large page. -/
def splitHugePd (s : Vmm) (pd : Nat) (pdIdx : Fin 512) : Int × Vmm :=
  if s.mem pd pdIdx &&& vmmHuge = 0 then (0, s)
  else
    let hugePhys := s.mem pd pdIdx &&& hugeMask
    let flags := s.mem pd pdIdx &&& 0xFFF
    let r := s.allocPage
    let ptPhys := r.1
    if ptPhys = 0 then (-1, r.2)
    else
      let s := r.2.zeroPage ptPhys
      let s := s.fillPage ptPhys fun i =>
        (hugePhys + i * pageSize) ||| flags ||| vmmPresent ||| vmmUser
      (0, s.set pd pdIdx (ptPhys ||| vmmPresent ||| vmmWritable ||| vmmUser))

/-- Nine bits of a virtual address. -/
def tableIdx (virt shift : Nat) : Fin 512 :=
  ⟨(virt >>> shift) &&& 0x1FF, Nat.lt_of_le_of_lt Nat.and_le_right (by decide)⟩

/-- `vmm_map`. -/
def vmmMap (s : Vmm) (virt phys flags : Nat) : Vmm :=
  let pml4Idx := tableIdx virt 39
  let pdptIdx := tableIdx virt 30
  let pdIdx := tableIdx virt 21
  let ptIdx := tableIdx virt 12
  let r := nextTable s s.root pml4Idx
  let pdpt := r.1
  if pdpt = 0 then r.2
  else
    let r := nextTable r.2 pdpt pdptIdx
    let pd := r.1
    if pd = 0 then r.2
    else
      let r := splitHugePd r.2 pd pdIdx
      if r.1 < 0 then r.2
      else if r.2.mem pd pdIdx &&& vmmHuge ≠ 0 then r.2
      else
        let r := nextTable r.2 pd pdIdx
        let pt := r.1
        if pt = 0 then r.2
        else r.2.set pt ptIdx ((phys &&& pageMask) ||| (flags &&& 0xFFF) ||| vmmPresent)

/-- `vmm_unmap`. -/
def vmmUnmap (s : Vmm) (virt : Nat) : Vmm :=
  let pml4Idx := tableIdx virt 39
  let pdptIdx := tableIdx virt 30
  let pdIdx := tableIdx virt 21
  let ptIdx := tableIdx virt 12
  let pml4 := s.root
  if s.mem pml4 pml4Idx &&& vmmPresent = 0 then s
  else
    let pdpt := s.mem pml4 pml4Idx &&& addrMask
    if s.mem pdpt pdptIdx &&& vmmPresent = 0 then s
    else
      let pd := s.mem pdpt pdptIdx &&& addrMask
      if s.mem pd pdIdx &&& vmmPresent = 0 then s
      else if s.mem pd pdIdx &&& vmmHuge ≠ 0 then s
      else
        let pt := s.mem pd pdIdx &&& addrMask
        s.set pt ptIdx 0

/-- `vmm_get_phys`. -/
def vmmGetPhys (s : Vmm) (virt : Nat) : Nat :=
  let pml4Idx := tableIdx virt 39
  let pdptIdx := tableIdx virt 30
  let pdIdx := tableIdx virt 21
  let ptIdx := tableIdx virt 12
  let pml4 := s.root
  if s.mem pml4 pml4Idx &&& vmmPresent = 0 then 0
  else
    let pdpt := s.mem pml4 pml4Idx &&& addrMask
    if s.mem pdpt pdptIdx &&& vmmPresent = 0 then 0
    else
      let pd := s.mem pdpt pdptIdx &&& addrMask
      if s.mem pd pdIdx &&& vmmPresent = 0 then 0
      else if s.mem pd pdIdx &&& vmmHuge ≠ 0 then
        (s.mem pd pdIdx &&& hugeMask) + (virt &&& 0x1FFFFF)
      else
        let pt := s.mem pd pdIdx &&& addrMask
        if s.mem pt ptIdx &&& vmmPresent = 0 then 0
        else (s.mem pt ptIdx &&& addrMask) + (virt &&& 0xFFF)

end Flyos

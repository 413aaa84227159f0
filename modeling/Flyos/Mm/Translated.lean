import Flyos.Mm.User

/-!
# The loader through its own page tables

`next_table`, `split_huge_pd` and `vmm_map` of `kernel/mm/vmm.c`, and the loader and the
stack of `kernel/mm/user.c`, as the processor runs them: a physical address that the C code
casts to a pointer is a virtual address, and every access goes through the page tables of
the moment, which the same call is changing.

* `loadEntry` and `storeEntry` are `table[i]` and `table[i] = e` for a `uint64_t*`;
* `zeroPage` stores the 4096 bytes of `zero_page` and `zero_phys`, one after the other;
* `copyBytes` of `Flyos.Mm.User` goes through virtual addresses already.

`none` is a page fault in the kernel, which halts, or a loop that does not end.  The
functions of the same names in `Flyos.Mm.Vmm` and `Flyos.Mm.User` work on physical frames;
`Flyos.Mm.SelfMapped` says when they do the same.

The bytes of the file are a parameter.  `apps_find` answers with an address in the kernel
image, which the code and the data of the kernel are in too; that no program is linked over
that image is assumed.
-/

namespace Flyos.Translated

/-! ## Memory -/

/-- `table[i]`.  Tables are aligned, so that an entry is in the page of its table. -/
def loadEntry (s : Vmm) (table : Nat) (i : Fin 512) : Option Nat :=
  (pageAt s (path table)).map fun frame => s.mem frame i

/-- `table[i] = e`. -/
def storeEntry (s : Vmm) (table : Nat) (i : Fin 512) (e : Nat) : Option Vmm :=
  (pageAt s (path table)).map fun frame => s.set frame i e

/-- `zero_page` and `zero_phys`: `p[i] = 0` for 4096 bytes. -/
def zeroPage (s : Vmm) (phys : Nat) : Option Vmm :=
  (List.range pageSize).foldlM (fun s k => s.storeByte (phys + k) 0) s

/-! ## `vmm.c` -/

/-- `next_table`. -/
def nextTable (s : Vmm) (parent : Nat) (idx : Fin 512) : Option (Nat × Vmm) :=
  (loadEntry s parent idx).bind fun e =>
    if e &&& vmmPresent = 0 then
      let r := s.allocPage
      let np := r.1
      if np = 0 then some (0, r.2)
      else
        (zeroPage r.2 np).bind fun s =>
          (storeEntry s parent idx (np ||| vmmPresent ||| vmmWritable ||| vmmUser)).bind fun s =>
            (loadEntry s parent idx).map fun e => (e &&& addrMask, s)
    else
      (storeEntry s parent idx (e ||| vmmUser)).bind fun s =>
        (loadEntry s parent idx).map fun e => (e &&& addrMask, s)

/-- `split_huge_pd`. -/
def splitHugePd (s : Vmm) (pd : Nat) (pdIdx : Fin 512) : Option (Int × Vmm) :=
  (loadEntry s pd pdIdx).bind fun e =>
    if e &&& vmmHuge = 0 then some (0, s)
    else
      let hugePhys := e &&& hugeMask
      let flags := e &&& 0xFFF
      let r := s.allocPage
      let ptPhys := r.1
      if ptPhys = 0 then some (-1, r.2)
      else
        (zeroPage r.2 ptPhys).bind fun s =>
          ((List.finRange 512).foldlM (fun s i => storeEntry s ptPhys i
              ((hugePhys + i * pageSize) ||| flags ||| vmmPresent ||| vmmUser)) s).bind fun s =>
            (storeEntry s pd pdIdx (ptPhys ||| vmmPresent ||| vmmWritable ||| vmmUser)).map
              fun s => (0, s)

/-- `vmm_map`. -/
def vmmMap (s : Vmm) (virt phys flags : Nat) : Option Vmm :=
  let pml4Idx := tableIdx virt 39
  let pdptIdx := tableIdx virt 30
  let pdIdx := tableIdx virt 21
  let ptIdx := tableIdx virt 12
  (nextTable s s.root pml4Idx).bind fun r =>
    let pdpt := r.1
    if pdpt = 0 then some r.2
    else
      (nextTable r.2 pdpt pdptIdx).bind fun r =>
        let pd := r.1
        if pd = 0 then some r.2
        else
          (splitHugePd r.2 pd pdIdx).bind fun r =>
            if r.1 < 0 then some r.2
            else
              (loadEntry r.2 pd pdIdx).bind fun e =>
                if e &&& vmmHuge ≠ 0 then some r.2
                else
                  (nextTable r.2 pd pdIdx).bind fun r =>
                    let pt := r.1
                    if pt = 0 then some r.2
                    else
                      storeEntry r.2 pt ptIdx
                        ((phys &&& pageMask) ||| (flags &&& 0xFFF) ||| vmmPresent)

/-! ## `user.c` -/

/-- `for (va = first; va < last; va += 0x1000)`, with a body that may end it or fault. -/
def pageLoop (body : Nat → Vmm → Option (Bool × Vmm)) :
    Nat → Nat → Nat → Vmm → Option (Bool × Vmm)
  | 0, _, _, _ => none
  | fuel + 1, va, last, s =>
      if va < last then
        (body va s).bind fun r =>
          if r.1 then pageLoop body fuel ((va + pageSize) % 2 ^ 64) last r.2 else some (false, r.2)
      else some (true, s)

/-- A turn of the loop over the pages of a segment. -/
def elfPage (va : Nat) (s : Vmm) : Option (Bool × Vmm) :=
  let r := s.allocPage
  let phys := r.1
  if phys = 0 then some (false, r.2)
  else
    (zeroPage r.2 phys).bind fun s =>
      (vmmMap s va phys (vmmWritable ||| vmmUser)).map fun s => (true, s)

/-- One turn of the loop over the program headers. -/
def loadSegment (elf : ByteMemory) (ph : Phdr) (s : Vmm) : Option (Bool × Vmm) :=
  if ph.pType ≠ ptLoad then some (true, s)
  else
    (pageLoop elfPage allPages ph.pages.1 ph.pages.2 s).bind fun r =>
      if r.1 then (copyBytes elf ph r.2).map fun s => (true, s) else some (false, r.2)

/-- The loop over the program headers. -/
def loadSegments (elf : ByteMemory) : List Nat → Vmm → Option (Bool × Vmm)
  | [], s => some (true, s)
  | i :: is, s =>
      (loadSegment elf (phdr elf i) s).bind fun r =>
        if r.1 then loadSegments elf is r.2 else some (false, r.2)

/-- `user_load_elf`. -/
def userLoadElf (elf : ByteMemory) (s : Vmm) : Option (Nat × Vmm) :=
  if elf 0 ≠ 0x7F ∨ elf 1 ≠ 0x45 ∨ elf 2 ≠ 0x4C ∨ elf 3 ≠ 0x46 then some (0, s)
  else
    (loadSegments elf (List.range (ePhnum elf)) s).map fun r =>
      (if r.1 then eEntry elf else 0, r.2)

/-- A turn of the loop in `user_setup_stack_at`, which does not look whether there was a
page. -/
def stackPage (va : Nat) (s : Vmm) : Option (Bool × Vmm) :=
  let r := s.allocPage
  let phys := r.1
  (zeroPage r.2 phys).bind fun s =>
    (vmmMap s va phys (vmmWritable ||| vmmUser)).map fun s => (true, s)

/-- `user_setup_stack_at`. -/
def userSetupStackAt (base size : Nat) (s : Vmm) : Option Vmm :=
  (pageLoop stackPage allPages base ((base + size) % 2 ^ 64) s).map Prod.snd

end Flyos.Translated

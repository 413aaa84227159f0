import Flyos.Lib.ByteMemory
import Flyos.Mm.Clone
import Flyos.Mm.PageTree
import Flyos.Mm.PmmInit

/-!
# Address spaces of the kernel and of user programs

What is mapped where: `heap_init`, `fb_init` and the network card of `kmain` map the
kernel's devices, `user_load_elf` and `user_setup_stack_at` of `kernel/mm/user.c` map
programs, and `SYS_EXEC`, `SYS_SPAWN` and `task_fork` use these.  `KernelStep` is any
one of them, in any order, with a task switch in between.

The loader copies a program through its virtual addresses (`storeByte`), so what it
writes depends on the page tables of the moment.  `none` is a call that does not come
back: a page fault in the kernel, which halts, or a loop that does not end.

The functions work on physical frames, as `Flyos.Mm.Vmm` does.  The C code reaches a
frame by its identity mapping, so the model follows it for as long as that is there, as it
is in all runs of `identity_survives`.  What the loader does where a program may replace
that mapping is `Flyos.Mm.Translated`.
-/

namespace Flyos

/-! ## Loops over pages -/

/-- `for (va = first; va < last; va += 0x1000)` with a body that may end it. -/
def pageLoop (body : Nat → Vmm → Bool × Vmm) : Nat → Nat → Nat → Vmm → Option (Bool × Vmm)
  | 0, _, _, _ => none
  | fuel + 1, va, last, s =>
      if va < last then
        let r := body va s
        if r.1 then pageLoop body fuel ((va + pageSize) % 2 ^ 64) last r.2 else some (false, r.2)
      else some (true, s)

/-- More turns than there are pages. -/
abbrev allPages : Nat := 2 ^ 64 / pageSize + 1

/-- A turn of the loop in `heap_init`. -/
def heapPage (va : Nat) (s : Vmm) : Bool × Vmm :=
  let r := s.allocPage
  let phys := r.1
  if phys = 0 then (false, r.2) else (true, vmmMap r.2 va phys vmmWritable)

/-- `heap_init`, the mapping. -/
def heapInitMap (s : Vmm) : Option Vmm :=
  (pageLoop heapPage allPages heapStart (heapStart + heapPages * pageSize) s).map Prod.snd

/-- `mmio_virt`. -/
abbrev mmioVirt : Nat := 0xFFFFA00000000000

/-- The loop of `kmain` over the registers of the network card at BAR 0. -/
def mapNic (bar : Nat) (s : Vmm) : Option Vmm :=
  let mmioPhys := bar / 16 * 16
  (pageLoop (fun va s => (true, vmmMap s va (mmioPhys + (va - mmioVirt)) vmmWritable)) allPages
    mmioVirt (mmioVirt + 128 * 1024) s).map Prod.snd

/-- The pages of the framebuffer: `first` and `last` of `fb_init`. -/
def FbInfo.pages (fb : FbInfo) : Nat × Nat :=
  (pageDown fb.addr, pageDown ((fb.addr + fb.pitch * fb.height + 0xFFF) % 2 ^ 64))

/-- `fb_init`, the mapping. -/
def fbInitMap (fb : FbInfo) (s : Vmm) : Option Vmm :=
  if fb.addr = 0 then some s
  else
    (pageLoop (fun va s => (true, vmmMap s va va vmmWritable)) allPages fb.pages.1 fb.pages.2
      s).map Prod.snd

/-! ## Programs -/

/-- The bytes of a word with one of them replaced. -/
def setByte (e k : Nat) (b : UInt8) : Nat :=
  e - e / 256 ^ k % 256 * 256 ^ k + b.toNat * 256 ^ k

theorem wordIdx_lt (virt : Nat) : virt % pageSize / 8 < 512 := by
  simp only [pageSize]
  omega

/-- A byte stored at a virtual address. -/
def Vmm.storeByte (s : Vmm) (virt : Nat) (b : UInt8) : Option Vmm :=
  (pageAt s (path virt)).map fun frame =>
    let i : Fin 512 := ⟨virt % pageSize / 8, wordIdx_lt virt⟩
    s.set frame i (setByte (s.mem frame i) (virt % 8) b)

/-- The fields of `Elf64_Phdr` that the loader looks at. -/
structure Phdr where
  pType : Nat
  pOffset : Nat
  pVaddr : Nat
  pFilesz : Nat
  pMemsz : Nat

/-- `PT_LOAD`. -/
abbrev ptLoad : Nat := 1

/-- `ehdr->e_entry`. -/
def eEntry (elf : ByteMemory) : Nat := elf.load 24 8

/-- `ehdr->e_phnum`. -/
def ePhnum (elf : ByteMemory) : Nat := elf.load 56 2

/-- The program header number `i`. -/
def phdr (elf : ByteMemory) (i : Nat) : Phdr :=
  let ph := (elf.load 32 8 + i * elf.load 54 2) % 2 ^ 64
  { pType := elf.load ph 4
    pOffset := elf.load (ph + 8) 8
    pVaddr := elf.load (ph + 16) 8
    pFilesz := elf.load (ph + 32) 8
    pMemsz := elf.load (ph + 40) 8 }

/-- The pages of a segment: `first` and `last` of `user_load_elf`. -/
def Phdr.pages (ph : Phdr) : Nat × Nat :=
  (pageDown ph.pVaddr, pageDown ((ph.pVaddr + ph.pMemsz + 0xFFF) % 2 ^ 64))

/-- A turn of the loop over the pages of a segment. -/
def elfPage (va : Nat) (s : Vmm) : Bool × Vmm :=
  let r := s.allocPage
  let phys := r.1
  if phys = 0 then (false, r.2)
  else (true, vmmMap (r.2.zeroPage phys) va phys (vmmWritable ||| vmmUser))

/-- `dst[k] = src[k]` for the bytes of a segment in the file. -/
def copyBytes (elf : ByteMemory) (ph : Phdr) (s : Vmm) : Option Vmm :=
  (List.range ph.pFilesz).foldlM
    (fun s k => s.storeByte ((ph.pVaddr + k) % 2 ^ 64) (elf ((ph.pOffset + k) % 2 ^ 64))) s

/-- One turn of the loop over the program headers. -/
def loadSegment (elf : ByteMemory) (ph : Phdr) (s : Vmm) : Option (Bool × Vmm) :=
  if ph.pType ≠ ptLoad then some (true, s)
  else
    (pageLoop elfPage allPages ph.pages.1 ph.pages.2 s).bind fun r =>
      if r.1 then (copyBytes elf ph r.2).map fun s => (true, s) else some (false, r.2)

/-- The loop over the program headers. -/
def loadSegments (elf : ByteMemory) : List Nat → Vmm → Option (Bool × Vmm)
  | [], s => some (true, s)
  | i :: is, s =>
      (loadSegment elf (phdr elf i) s).bind fun r =>
        if r.1 then loadSegments elf is r.2 else some (false, r.2)

/-- `user_load_elf`. -/
def userLoadElf (elf : ByteMemory) (s : Vmm) : Option (Nat × Vmm) :=
  if elf 0 ≠ 0x7F ∨ elf 1 ≠ 0x45 ∨ elf 2 ≠ 0x4C ∨ elf 3 ≠ 0x46 then some (0, s)
  else
    (loadSegments elf (List.range (ePhnum elf)) s).map fun r =>
      (if r.1 then eEntry elf else 0, r.2)

/-- A turn of the loop in `user_setup_stack_at`, which does not look whether there was a
page. -/
def stackPage (va : Nat) (s : Vmm) : Bool × Vmm :=
  let r := s.allocPage
  let phys := r.1
  (true, vmmMap (r.2.zeroPage phys) va phys (vmmWritable ||| vmmUser))

/-- `user_setup_stack_at`. -/
def userSetupStackAt (base size : Nat) (s : Vmm) : Option Vmm :=
  (pageLoop stackPage allPages base ((base + size) % 2 ^ 64) s).map Prod.snd

/-- `CHILD_STACK_BASE`. -/
abbrev childStackBase : Nat := 0x7F000000

/-- `CHILD_STACK_SIZE`. -/
abbrev childStackSize : Nat := 0x4000

/-- `SYS_EXEC` and `kernel_spawn_child`: load a program and set its stack up. -/
def loadProgram (elf : ByteMemory) (s : Vmm) : Option Vmm :=
  (userLoadElf elf s).bind fun r =>
    if r.1 = 0 then some r.2 else userSetupStackAt childStackBase childStackSize r.2

/-! ## The system -/

/-- The page tables, the framebuffer, and the PML4 of every address space there is. -/
structure Machine where
  vmm : Vmm
  fb : FbInfo
  spaces : List Nat
  spawnUsed : Bool

/-- What the kernel does to address spaces.  Programs are those in the kernel image. -/
inductive KernelCall where
  | heapInit
  | mapNic (bar : Nat)
  | fbInit (fb : FbInfo)
  | loadElf (elf : ByteMemory)
  | setupStack (base size : Nat)
  | exec (elf : ByteMemory)
  | spawn (elf : ByteMemory)
  | clonePml4
  | fork
  | switchTo (root : Nat)

/-- A new address space, when there is one. -/
def Machine.addSpace (m : Machine) (r : Nat × Vmm) : Machine :=
  if r.1 = 0 then { m with vmm := r.2 }
  else { m with vmm := r.2, spaces := r.1 :: m.spaces }

/-- One call, when it comes back. -/
inductive KernelStep : Machine → KernelCall → Machine → Prop
  | heapInit {m : Machine} {s : Vmm} :
      heapInitMap m.vmm = some s → KernelStep m .heapInit { m with vmm := s }
  | mapNic {m : Machine} {bar : Nat} {s : Vmm} :
      bar < 2 ^ 32 → mapNic bar m.vmm = some s → KernelStep m (.mapNic bar) { m with vmm := s }
  | fbInit {m : Machine} {fb : FbInfo} {s : Vmm} :
      fbInitMap fb m.vmm = some s → KernelStep m (.fbInit fb) { m with vmm := s, fb := fb }
  | loadElf {m : Machine} {elf : ByteMemory} {r : Nat × Vmm} :
      userLoadElf elf m.vmm = some r → KernelStep m (.loadElf elf) { m with vmm := r.2 }
  | setupStack {m : Machine} {base size : Nat} {s : Vmm} :
      userSetupStackAt base size m.vmm = some s →
      KernelStep m (.setupStack base size) { m with vmm := s }
  | exec {m : Machine} {elf : ByteMemory} {s : Vmm} :
      loadProgram elf m.vmm = some s → KernelStep m (.exec elf) { m with vmm := s }
  | spawnAgain {m : Machine} {elf : ByteMemory} :
      m.spawnUsed = true → KernelStep m (.spawn elf) m
  | spawn {m : Machine} {elf : ByteMemory} {s : Vmm} :
      m.spawnUsed = false → loadProgram elf m.vmm = some s →
      KernelStep m (.spawn elf) { m with vmm := s, spawnUsed := true }
  | clonePml4 {m : Machine} :
      KernelStep m .clonePml4 (m.addSpace (vmmClonePml4 m.vmm))
  | fork {m : Machine} :
      KernelStep m .fork (m.addSpace (vmmClonePml4Deep m.fb m.vmm m.vmm.root))
  | switchTo {m : Machine} {root : Nat} :
      root ∈ m.spaces → KernelStep m (.switchTo root) { m with vmm := { m.vmm with cr3 := root } }

/-! ## Boot -/

/-- Where the linker puts the kernel: from 1 MiB on, within the identity map, with the
three tables of `boot.S` one after the other. -/
structure KernelImage where
  kernelEnd : Nat
  pml4 : Nat
  aligned : pageSize ∣ pml4
  above : 0x100000 ≤ pml4
  inside : pml4 + 3 * pageSize ≤ kernelEnd
  low : kernelEnd ≤ 2 ^ 30

namespace KernelImage

/-- `kernel_start`. -/
abbrev kernelStart : Nat := 0x100000

/-- The label `pdpt`. -/
def pdpt (img : KernelImage) : Nat := img.pml4 + pageSize

/-- The label `pd`. -/
def pd (img : KernelImage) : Nat := img.pml4 + 2 * pageSize

/-- The tables `boot.S` builds: 512 large pages map the first GiB to itself. -/
def bootTables (img : KernelImage) (rest : PageTables) : PageTables := fun f i =>
  if f = img.pml4 then if i = 0 then img.pdpt ||| 3 else 0
  else if f = img.pdpt then if i = 0 then img.pd ||| 3 else 0
  else if f = img.pd then 0x83 + i * 0x200000
  else rest f i

/-- The machine when `pmm_init` has run. -/
def boot (img : KernelImage) (rest : PageTables) (pmm : Pmm) : Machine where
  vmm := { mem := img.bootTables rest, pmm := pmm, cr3 := img.pml4, oom := false }
  fb := ⟨0, 0, 0⟩
  spaces := [img.pml4]
  spawnUsed := false

end KernelImage

end Flyos

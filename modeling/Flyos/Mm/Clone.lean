import Flyos.Mm.Vmm

/-!
# Copies of address spaces

The second half of `kernel/mm/vmm.c`: `vmm_clone_pml4` shares every table below the
PML4; `vmm_clone_pml4_deep` copies the lower half table by table and page by page,
but for large pages and the framebuffer, and shares the upper half.

Each of the four nested loops has its body as a function here.  A body answers with
`false` where the C code returns 0, which ends the loops around it.
-/

namespace Flyos

/-- The fields of `fb_info_t` that the copy looks at. -/
structure FbInfo where
  addr : Nat
  pitch : Nat
  height : Nat

/-- The frame lies in the framebuffer. -/
def FbInfo.covers (fb : FbInfo) (frame : Nat) : Bool :=
  fb.addr != 0 && decide (fb.addr ≤ frame) &&
    decide (frame < (fb.addr + fb.pitch * fb.height) % 2 ^ 64)

/-- A loop over entries that stops when its body does. -/
def forEntries (body : Fin 512 → Vmm → Bool × Vmm) : List (Fin 512) → Vmm → Bool × Vmm
  | [], s => (true, s)
  | i :: is, s =>
      let r := body i s
      if r.1 then forEntries body is r.2 else (false, r.2)

/-- `vmm_clone_pml4`. -/
def vmmClonePml4 (s : Vmm) : Nat × Vmm :=
  let r := s.allocPage
  let newPhys := r.1
  if newPhys = 0 then (0, r.2)
  else (newPhys, r.2.fillPage newPhys (r.2.mem s.root))

/-- `copy_page`. -/
def copyPage (s : Vmm) (srcPhys : Nat) : Nat × Vmm :=
  let r := s.allocPage
  let dstPhys := r.1
  if dstPhys = 0 then (0, r.2)
  else (dstPhys, r.2.fillPage dstPhys (r.2.mem srcPhys))

/-- What the upper three loops do with a link: link a fresh table and run the next loop
over both tables. -/
def cloneTable (body : Nat → Nat → Fin 512 → Vmm → Bool × Vmm) (src dst : Nat) (i : Fin 512)
    (s : Vmm) : Bool × Vmm :=
  let srcTable := s.mem src i &&& addrMask
  let r := s.allocPage
  let dstTable := r.1
  if dstTable = 0 then (false, r.2)
  else
    let s := r.2.zeroPage dstTable
    let s := s.set dst i (dstTable ||| (s.mem src i &&& 0xFFF))
    forEntries (body srcTable dstTable) (List.finRange 512) s

/-- The loop over a page table. -/
def clonePt (fb : FbInfo) (srcPt dstPt : Nat) (l : Fin 512) (s : Vmm) : Bool × Vmm :=
  if s.mem srcPt l &&& vmmPresent = 0 then (true, s.set dstPt l 0)
  else
    let srcFrame := s.mem srcPt l &&& addrMask
    if fb.covers srcFrame then (true, s.set dstPt l (s.mem srcPt l))
    else
      let r := copyPage s srcFrame
      let dstFrame := r.1
      if dstFrame = 0 then (false, r.2)
      else (true, r.2.set dstPt l (dstFrame ||| (r.2.mem srcPt l &&& 0xFFF)))

/-- The loop over a page directory. -/
def clonePd (fb : FbInfo) (srcPd dstPd : Nat) (k : Fin 512) (s : Vmm) : Bool × Vmm :=
  if s.mem srcPd k &&& vmmPresent = 0 then (true, s.set dstPd k 0)
  else if s.mem srcPd k &&& vmmHuge ≠ 0 then (true, s.set dstPd k (s.mem srcPd k))
  else cloneTable (clonePt fb) srcPd dstPd k s

/-- The loop over a page directory pointer table. -/
def clonePdpt (fb : FbInfo) (srcPdpt dstPdpt : Nat) (j : Fin 512) (s : Vmm) : Bool × Vmm :=
  if s.mem srcPdpt j &&& vmmPresent = 0 then (true, s.set dstPdpt j 0)
  else cloneTable (clonePd fb) srcPdpt dstPdpt j s

/-- The loop over the PML4. -/
def clonePml4 (fb : FbInfo) (srcPml4 dstPml4 : Nat) (i : Fin 512) (s : Vmm) : Bool × Vmm :=
  if 256 ≤ i.val then (true, s.set dstPml4 i (s.mem srcPml4 i))
  else if s.mem srcPml4 i &&& vmmPresent = 0 then (true, s.set dstPml4 i 0)
  else cloneTable (clonePdpt fb) srcPml4 dstPml4 i s

/-- `vmm_clone_pml4_deep`. -/
def vmmClonePml4Deep (fb : FbInfo) (s : Vmm) (srcPml4 : Nat) : Nat × Vmm :=
  let r := s.allocPage
  let dstPml4 := r.1
  if dstPml4 = 0 then (0, r.2)
  else
    let s := r.2.zeroPage dstPml4
    let r := forEntries (clonePml4 fb srcPml4 dstPml4) (List.finRange 512) s
    if r.1 then (dstPml4, r.2) else (0, r.2)

end Flyos

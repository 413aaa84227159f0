import Flyos.Fs.Ramfs
import Flyos.Mm.Translated

/-!
# Exec

`SYS_EXEC` of `kernel/arch/syscall.c`, with `apps_find` of `kernel/fs/apps.c`.  The loader
and the stack are those of `Flyos.Mm.User`.  The programs of the table are linked into the
kernel image when it is built, so the table is a parameter.

`Translated.sysExec` is the C code, with the page tables between it and the frames;
`sysExec` is the same on frames.
-/

namespace Flyos

/-- `app_entry_t`: a name and the bytes from `elf_start` on. -/
structure App where
  name : CString
  elf : ByteMemory

/-- `apps_find`. -/
def appsFind (apps : List App) (name : CString) : Option App :=
  apps.find? fun app => strEq app.name name

/-- What `SYS_EXEC` works on. -/
structure ExecState where
  vmm : Vmm
  userReturnRip : Nat
  userReturnRsp : Nat

/-- The name that stands for a null pointer: `"hello"`. -/
def hello : CString := [0x68, 0x65, 0x6C, 0x6C, 0x6F]

/-- `SYS_EXEC`: the result, and the state it leaves.  `none` is a fault in the kernel. -/
def Translated.sysExec (apps : List App) (name : Option CString) (s : ExecState) :
    Option (Int × ExecState) :=
  match appsFind apps (name.getD hello) with
  | none => some (-1, s)
  | some app =>
      (Translated.userLoadElf app.elf s.vmm).bind fun r =>
        let entry := r.1
        if entry = 0 then some (-1, { s with vmm := r.2 })
        else
          (Translated.userSetupStackAt childStackBase childStackSize r.2).map fun vmm =>
            (0, { vmm, userReturnRip := entry, userReturnRsp := childStackBase + childStackSize })

/-- The same on frames. -/
def sysExec (apps : List App) (name : Option CString) (s : ExecState) :
    Option (Int × ExecState) :=
  match appsFind apps (name.getD hello) with
  | none => some (-1, s)
  | some app =>
      (userLoadElf app.elf s.vmm).bind fun r =>
        let entry := r.1
        if entry = 0 then some (-1, { s with vmm := r.2 })
        else
          (userSetupStackAt childStackBase childStackSize r.2).map fun vmm =>
            (0, { vmm, userReturnRip := entry, userReturnRsp := childStackBase + childStackSize })

end Flyos

import Flyos.Drivers.Ata
import Flyos.Fs.Serialize

/-!
# Saving and loading the RAM file system

`kernel/fs/persist.c`: the image lies in a fixed area of the disk and is moved through
one large heap block, at most 128 sectors at a time.
-/

namespace Flyos

variable {H : Type*} (A : Allocator H)

/-- `PERSIST_START_LBA`. -/
abbrev persistStartLba : Nat := 32768

/-- `PERSIST_MAX_SECTORS`. -/
abbrev persistMaxSectors : Nat := 1024

/-- `BLOB_MAX`. -/
abbrev blobMax : Nat := persistMaxSectors * ataSectorSize

/-- `kfree` of the block and `return`. -/
def freeReturn (s : Ramfs H) (blob : Nat) (result : Int) (d : Ata) :
    Option (Int × Ramfs H × Ata) :=
  (s.freeBuf A blob).map fun s => (result, s, d)

/-- The loop of `persist_load`: `remain` sectors from `lba` into `blob` at `p`. -/
def loadLoop : Nat → Ata → Nat → Nat → Nat → List UInt8 → Option (Option (List UInt8) × Ata)
  | 0, _, _, _, _, _ => none
  | fuel + 1, d, lba, remain, p, blob =>
      if remain = 0 then some (some blob, d)
      else
        let chunk := if 128 < remain then 128 else remain
        match ataReadSectors d lba chunk with
        | (none, d) => some (none, d)
        | (some data, d) =>
            (splice blob p data).bind fun blob =>
              loadLoop fuel d (lba + chunk) (remain - chunk) (p + chunk * ataSectorSize) blob

/-- The size in an image, kept in the bounds `persist_load` gives it. -/
def loadSize (blob : List UInt8) : Nat := max (min (ofLe32 ((blob.drop 8).take 4)) blobMax) 16

/-- `persist_load`. -/
def persistLoad (s : Ramfs H) (d : Ata) : Option (Int × Ramfs H × Ata) :=
  let r := s.kmalloc A blobMax
  if r.1 = 0 then some (-1, r.2, d)
  else
    let junk := A.junk s.heap blobMax
    let s := r.2.setBuf r.1 junk
    match ataReadSectors d persistStartLba 1 with
    | (none, d) => freeReturn A s r.1 (-1) d
    | (some data, d) =>
        (splice junk 0 data).bind fun blob =>
          if blob.take 8 ≠ magic then freeReturn A (s.setBuf r.1 blob) r.1 0 d
          else
            let total := loadSize blob
            let sectors := (total + ataSectorSize - 1) / ataSectorSize
            (loadLoop (sectors + 1) d persistStartLba sectors 0 blob).bind fun
              | (none, d) => freeReturn A s r.1 (-1) d
              | (some blob, d) =>
                  (slice blob 0 total).bind fun input =>
                    (ramfsDeserialize A (s.setBuf r.1 blob) input).bind fun t =>
                      freeReturn A t.2 r.1 t.1 d

/-- The loop of `persist_save`: `remain` sectors of `blob` from `p` to `lba`. -/
def saveLoop : Nat → Ata → Nat → Nat → Nat → List UInt8 → Option (Bool × Ata)
  | 0, _, _, _, _, _ => none
  | fuel + 1, d, lba, remain, p, blob =>
      if remain = 0 then some (true, d)
      else
        let chunk := if 128 < remain then 128 else remain
        (slice blob p (chunk * ataSectorSize)).bind fun data =>
          match ataWriteSectors d lba chunk data with
          | (false, d) => some (false, d)
          | (true, d) =>
              saveLoop fuel d (lba + chunk) (remain - chunk) (p + chunk * ataSectorSize) blob

/-- `persist_save`. -/
def persistSave (s : Ramfs H) (d : Ata) : Option (Int × Ramfs H × Ata) :=
  let r := s.kmalloc A blobMax
  if r.1 = 0 then some (-1, r.2, d)
  else
    let junk := A.junk s.heap blobMax
    let s := r.2.setBuf r.1 junk
    (ramfsSerialize s junk blobMax).bind fun
      | none => freeReturn A s r.1 (-1) d
      | some out =>
          let blob := out ++ junk.drop out.length
          let sectors := min ((out.length + ataSectorSize - 1) / ataSectorSize) persistMaxSectors
          (saveLoop (sectors + 1) d persistStartLba sectors 0 blob).bind fun w =>
            freeReturn A (s.setBuf r.1 blob) r.1 (if w.1 then 0 else -1) w.2

end Flyos

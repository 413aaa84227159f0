import Flyos.Drivers.Ata
import Mathlib.Algebra.Group.Int.Defs

/-!
# The FAT16 volume

`kernel/fs/fat16.c`, over the disk of `kernel/drivers/ata.c`.  The static variables that
`fat16_init` fills are a `Fat16`; the functions take it and the drive.

Two things stop the C code without a result: a division by zero, and a loop along a
cluster chain that has no end.  Both are a `Fat16Trap`; the loops along chains count their
rounds.  The two `kmalloc` of a lookup are the parameter `kmalloc`: whether the heap has
a block of that size.
-/

namespace Flyos

/-- Why a call gives no result. -/
inductive Fat16Trap
  | divide
  | rounds
  deriving DecidableEq

/-- The static variables of `fat16.c`. -/
structure Fat16 where
  partLba : Nat
  bytesPerSector : Nat
  sectorsPerCluster : Nat
  reservedSectors : Nat
  numFats : Nat
  rootEntries : Nat
  fatSize : Nat
  fatStartLba : Nat
  rootStartLba : Nat
  dataStartLba : Nat
  deriving DecidableEq

/-- What the static variables start with. -/
def Fat16.initial : Fat16 where
  partLba := 0
  bytesPerSector := 512
  sectorsPerCluster := 1
  reservedSectors := 1
  numFats := 2
  rootEntries := 512
  fatSize := 0
  fatStartLba := 0
  rootStartLba := 0
  dataStartLba := 0

/-! ## Words in a buffer -/

/-- `*(uint16_t*)(buf + off)`. -/
def word (buf : List UInt8) (off : Nat) : Nat :=
  (buf.getD off 0).toNat + 2 ^ 8 * (buf.getD (off + 1) 0).toNat

/-- `*(uint16_t*)(buf + off) = v`. -/
def setWord (buf : List UInt8) (off v : Nat) : List UInt8 :=
  (buf.set off (UInt8.ofNat v)).set (off + 1) (UInt8.ofNat (v / 2 ^ 8))

/-- A value as two bytes, lowest first. -/
def le16 (v : Nat) : List UInt8 := [UInt8.ofNat v, UInt8.ofNat (v / 2 ^ 8)]

/-! ## Sectors of the volume -/

/-- `read_sector`. -/
def readSector (g : Fat16) (d : Ata) (lba : Nat) : Option (List UInt8) × Ata :=
  ataReadSectors d (g.partLba + lba) 1

/-- `write_sector`. -/
def writeSector (g : Fat16) (d : Ata) (lba : Nat) (buf : List UInt8) : Bool × Ata :=
  ataWriteSectors d (g.partLba + lba) 1 buf

/-- `root_sectors`, as every function computes it. -/
def Fat16.rootSectors (g : Fat16) : Except Fat16Trap Nat :=
  if g.bytesPerSector = 0 then .error .divide
  else .ok ((g.rootEntries * 32 + g.bytesPerSector - 1) / g.bytesPerSector)

/-- The fields of the boot sector that `fat16_init` reads. -/
def Fat16.ofBootSector (partLba : Nat) (boot : List UInt8) : Fat16 :=
  let numFats := (boot.getD 16 0).toNat
  let reserved := word boot 14
  let fatSize := word boot 22
  { partLba
    bytesPerSector := word boot 11
    sectorsPerCluster := (boot.getD 13 0).toNat
    reservedSectors := reserved
    numFats
    rootEntries := word boot 17
    fatSize
    fatStartLba := reserved
    rootStartLba := reserved + numFats * fatSize
    dataStartLba := 0 }

/-- `fat16_init`. -/
def fat16Init (g : Fat16) (d : Ata) (partitionLba : Nat) : Except Fat16Trap (Fat16 × Ata) :=
  let g := { g with partLba := partitionLba }
  match readSector g d 0 with
  | (none, d) => .ok (g, d)
  | (some boot, d) =>
      let g := Fat16.ofBootSector partitionLba boot
      g.rootSectors.map fun n => ({ g with dataStartLba := g.rootStartLba + n }, d)

/-! ## Directory entries -/

/-- `(uint8_t)d->name[0]`. -/
def direntFirst (e : List UInt8) : UInt8 := e.getD 0 0

/-- `d->attr`. -/
def direntAttr (e : List UInt8) : UInt8 := e.getD 11 0

/-- `dirent_raw`: the 11 bytes of the name. -/
def direntRaw (e : List UInt8) : List UInt8 := e.take 11

/-- `d->cluster_lo`. -/
def direntCluster (e : List UInt8) : Nat := word e 26

/-- `d->size`. -/
def direntSize (e : List UInt8) : Nat := word e 28 + 2 ^ 16 * word e 30

/-- The entry `write_root_dirent` fills in. -/
def newDirent (want : List UInt8) (cluster size : Nat) : List UInt8 :=
  want ++ 0x20 :: List.replicate 14 0 ++ le16 cluster ++ (le16 size ++ le16 (size / 2 ^ 16))

/-- `&ents[k]` of a sector. -/
def dirent (buf : List UInt8) (k : Nat) : List UInt8 := (buf.drop (32 * k)).take 32

/-- The sector with `ents[k]` replaced. -/
def setDirent (buf : List UInt8) (k : Nat) (e : List UInt8) : List UInt8 :=
  buf.take (32 * k) ++ e ++ buf.drop (32 * k + 32)

/-! ## Names -/

/-- `if (c >= 'a' && c <= 'z') c -= 32;` -/
def upperCase (c : UInt8) : UInt8 := if 0x61 ≤ c ∧ c ≤ 0x7A then c - 0x20 else c

/-- The loop over the base name, with at most `n` characters to come. -/
def parseBase (name : List UInt8) : Nat → Nat → List UInt8 → Nat × List UInt8
  | 0, i, out => (i, out)
  | n + 1, i, out =>
      let c := name.getD i 0
      if c ≠ 0 ∧ c ≠ 0x2E then parseBase name n (i + 1) (out.set i (upperCase c)) else (i, out)

/-- The loop over the extension, with at most `n` characters to come. -/
def parseExt (name : List UInt8) : Nat → Nat → Nat → List UInt8 → List UInt8
  | 0, _, _, out => out
  | n + 1, i, j, out =>
      let c := name.getD i 0
      if c ≠ 0 then parseExt name n (i + 1) (j + 1) (out.set j (upperCase c)) else out

/-- The 11 bytes of a name: the text that `parse_83` and `find_root_entry` share. -/
def parseName (name : List UInt8) : List UInt8 :=
  let r := parseBase name 8 0 (List.replicate 11 0x20)
  if name.getD r.1 0 = 0x2E then parseExt name 3 (r.1 + 1) 8 r.2 else r.2

/-- `parse_83`. -/
def parse83 (name : List UInt8) : List UInt8 := parseName name

/-- The parser inlined in `find_root_entry`. -/
def findName (name : List UInt8) : List UInt8 := parseName name

/-! ## Scanning the root directory -/

/-- The loop over the entries of a sector from `k` on: the first one `visit` stops at. -/
def visitSector {α : Type} (visit : List UInt8 → Option α) (buf : List UInt8) :
    Nat → Nat → Option (Nat × α)
  | 0, _ => none
  | n + 1, k =>
      match visit (dirent buf k) with
      | some a => some (k, a)
      | none => visitSector visit buf n (k + 1)

/-- How a scan ends: a sector could not be read, the directory ended, or `visit` stopped at
entry `k` of sector `s`, which holds `buf`. -/
inductive Scan (α : Type)
  | failed
  | ended
  | hit (s k : Nat) (buf : List UInt8) (a : α)

/-- The loop over the sectors of the root directory from `s` on. -/
def scanRoot {α : Type} (g : Fat16) (visit : List UInt8 → Option α) :
    Nat → Nat → Ata → Scan α × Ata
  | 0, _, d => (.ended, d)
  | n + 1, s, d =>
      match readSector g d (g.rootStartLba + s) with
      | (none, d) => (.failed, d)
      | (some buf, d) =>
          match visitSector visit buf 16 0 with
          | some (k, a) => (.hit s k buf a, d)
          | none => scanRoot g visit n (s + 1) d

/-- The loop body of `find_root_entry`: at the end mark it returns 0, at the name the entry. -/
def findVisit (want e : List UInt8) : Option (Option (List UInt8)) :=
  if direntFirst e = 0 then some none
  else if direntFirst e = 0xE5 then none
  else if direntAttr e = 0x0F then none
  else if direntRaw e = want then some (some e)
  else none

/-- `find_root_entry`. -/
def findRootEntry (g : Fat16) (kmalloc : Nat → Bool) (d : Ata) (name : List UInt8) :
    Except Fat16Trap (Option (List UInt8) × Ata) :=
  g.rootSectors.map fun n =>
    if kmalloc 512 = false then (none, d)
    else
      match scanRoot g (findVisit (findName name)) n 0 d with
      | (.hit _ _ _ (some e), d) => (if kmalloc 32 then some e else none, d)
      | (_, d) => (none, d)

/-- `fat16_file_size`. -/
def fat16FileSize (g : Fat16) (kmalloc : Nat → Bool) (d : Ata) (name : List UInt8) :
    Except Fat16Trap (Nat × Ata) :=
  (findRootEntry g kmalloc d name).map fun r => ((r.1.map direntSize).getD 0, r.2)

/-! ## Listing the root directory -/

/-- The characters of a field that `dirent_name` copies: those before the first space. -/
def fieldText (field : List UInt8) : List UInt8 := field.takeWhile (· ≠ 0x20)

/-- `dirent_name`: the characters stored in front of the final 0. -/
def direntName (e : List UInt8) : List UInt8 :=
  fieldText (e.take 8) ++
    if e.getD 8 0 ≠ 0x20 then 0x2E :: fieldText ((e.drop 8).take 3) else []

/-- `name` and `len`, as the loops of `fat16_list_root` read the name: up to the first 0. -/
def listedName (e : List UInt8) : List UInt8 := (direntName e).takeWhile (· ≠ 0)

/-- What an entry adds to the list. -/
def listedLine (e : List UInt8) : List UInt8 :=
  listedName e ++ (if direntAttr e &&& 0x10 ≠ 0 then [0x2F] else []) ++ [0x0A]

/-- `pos + len + 2 > max` is false. -/
abbrev LineFits (max : Int) (out e : List UInt8) : Prop :=
  (out.length : Int) + (listedName e).length + 2 ≤ max

/-- The loop over the entries of a sector from `k` on, with `out` written: whether the function
returns in it, at the end mark, and what is written. -/
def listSector (max : Int) (buf : List UInt8) : Nat → Nat → List UInt8 → Bool × List UInt8
  | 0, _, out => (false, out)
  | n + 1, k, out =>
      let e := dirent buf k
      if direntFirst e = 0 then (true, out)
      else if direntFirst e = 0xE5 then listSector max buf n (k + 1) out
      else if direntAttr e = 0x0F then listSector max buf n (k + 1) out
      else if LineFits max out e then listSector max buf n (k + 1) (out ++ listedLine e)
      -- the break leaves this loop only
      else (false, out)

/-- The loop over the sectors from `s` on. -/
def listLoop (g : Fat16) (max : Int) : Nat → Nat → Ata → List UInt8 → List UInt8 × Ata
  | 0, _, d, out => (out, d)
  | n + 1, s, d, out =>
      match readSector g d (g.rootStartLba + s) with
      | (none, d) => (out, d)
      | (some buf, d) =>
          match listSector max buf 16 0 out with
          | (true, out) => (out, d)
          | (false, out) => listLoop g max n (s + 1) d out

/-- `fat16_list_root`: the result, and what is written to `buf`. -/
def fat16ListRoot (g : Fat16) (kmalloc : Nat → Bool) (d : Ata) (max : Int) :
    Except Fat16Trap ((Int × List UInt8) × Ata) :=
  g.rootSectors.map fun n =>
    if kmalloc 512 = false then ((-1, []), d)
    else
      let r := listLoop g max n 0 d []
      ((r.1.length, r.1), r.2)

/-! ## The file allocation table -/

/-- `fat_get`. -/
def fatGet (g : Fat16) (d : Ata) (cluster : Nat) : Nat × Ata :=
  match readSector g d (g.fatStartLba + cluster * 2 / 512) with
  | (none, d) => (0xFFFF, d)
  | (some buf, d) => (word buf (cluster * 2 % 512), d)

/-- `fat_next`. -/
def fatNext (g : Fat16) (d : Ata) (cluster : Nat) : Nat × Ata := fatGet g d cluster

/-- The loop of `fat_set` over the copies from `f` on. -/
def fatSetLoop (g : Fat16) (lba off value : Nat) : Nat → Nat → Ata → Bool × Ata
  | 0, _, d => (true, d)
  | n + 1, f, d =>
      match readSector g d (lba + f * g.fatSize) with
      | (none, d) => (false, d)
      | (some buf, d) =>
          match writeSector g d (lba + f * g.fatSize) (setWord buf off value) with
          | (false, d) => (false, d)
          | (true, d) => fatSetLoop g lba off value n (f + 1) d

/-- `fat_set`: whether it succeeded. -/
def fatSet (g : Fat16) (d : Ata) (cluster value : Nat) : Bool × Ata :=
  fatSetLoop g (g.fatStartLba + cluster * 2 / 512) (cluster * 2 % 512) value g.numFats 0 d

/-- The loop of `alloc_cluster` over the entries of sector `s` of the table from `i` on: the
cluster it takes, 0 when it gives up, nothing when it goes on. -/
def freeFatEntry (buf : List UInt8) (s : Nat) : Nat → Nat → Option Nat
  | 0, _ => none
  | n + 1, i =>
      let idx := s * 256 + i
      if idx < 2 then freeFatEntry buf s n (i + 1)
      else if 0xFFF0 ≤ idx then some 0
      else if word buf (2 * i) = 0 then some idx
      else freeFatEntry buf s n (i + 1)

/-- The loop of `alloc_cluster` over the sectors of the table from `s` on. -/
def allocLoop (g : Fat16) : Nat → Nat → Ata → Nat × Ata
  | 0, _, d => (0, d)
  | n + 1, s, d =>
      match readSector g d (g.fatStartLba + s) with
      | (none, d) => (0, d)
      | (some buf, d) =>
          match freeFatEntry buf s 256 0 with
          | some 0 => (0, d)
          | some cluster =>
              let r := fatSet g d cluster 0xFFFF
              (if r.1 then cluster else 0, r.2)
          | none => allocLoop g n (s + 1) d

/-- `alloc_cluster`: the cluster, or 0. -/
def allocCluster (g : Fat16) (d : Ata) : Nat × Ata := allocLoop g g.fatSize 0 d

/-- `cluster >= 2 && cluster < 0xFFF8`. -/
abbrev InChain (cluster : Nat) : Prop := 2 ≤ cluster ∧ cluster < 0xFFF8

/-- `free_chain`. -/
def freeChain (g : Fat16) : Nat → Ata → Nat → Except Fat16Trap Ata
  | 0, _, _ => .error .rounds
  | fuel + 1, d, cluster =>
      if InChain cluster then
        let next := fatGet g d cluster
        freeChain g fuel (fatSet g next.2 cluster 0).2 next.1
      else .ok d

/-! ## Reading -/

/-- The inner loop of `fat16_read_file`: `n` more sectors from `lba`, while fewer than `size`
bytes are there. -/
def readCluster (g : Fat16) (size : Nat) :
    Nat → Nat → Ata → List UInt8 → Bool × List UInt8 × Ata
  | 0, _, d, acc => (true, acc, d)
  | n + 1, lba, d, acc =>
      if size ≤ acc.length then (true, acc, d)
      else
        match readSector g d lba with
        | (none, d) => (false, acc, d)
        | (some buf, d) =>
            readCluster g size n (lba + 1) d (acc ++ buf.take (size - acc.length))

/-- The loop of `fat16_read_file` along the chain. -/
def readChain (g : Fat16) (size : Nat) :
    Nat → Ata → Nat → List UInt8 → Except Fat16Trap (Bool × List UInt8 × Ata)
  | 0, _, _, _ => .error .rounds
  | fuel + 1, d, cluster, acc =>
      if InChain cluster ∧ acc.length < size then
        let lba := g.dataStartLba + (cluster - 2) * g.sectorsPerCluster
        match readCluster g size g.sectorsPerCluster lba d acc with
        | (false, acc, d) => .ok (false, acc, d)
        | (true, acc, d) =>
            let next := fatNext g d cluster
            readChain g size fuel next.2 next.1 acc
      else .ok (true, acc, d)

/-- `fat16_read_file`: the result, and the bytes stored in `out`. -/
def fat16ReadFile (g : Fat16) (kmalloc : Nat → Bool) (fuel : Nat) (d : Ata) (name : List UInt8)
    (max : Int) : Except Fat16Trap ((Int × List UInt8) × Ata) :=
  (findRootEntry g kmalloc d name).bind fun
    | (none, d) => .ok ((-1, []), d)
    | (some e, d) =>
        let max := (max % 2 ^ 32).toNat
        let size := if max < direntSize e then max else direntSize e
        if size = 0 ∨ direntCluster e < 2 then .ok ((0, []), d)
        else (readChain g size fuel d (direntCluster e) []).map fun r =>
          ((if r.1 then Int.bmod r.2.1.length (2 ^ 32) else -1, r.2.1), r.2.2)

/-! ## Deleting -/

/-- The loop body of `fat16_delete_file`: at the end mark it returns -1, at the name it goes
on to delete. -/
def deleteVisit (want e : List UInt8) : Option Bool :=
  if direntFirst e = 0 then some false
  else if direntRaw e ≠ want then none
  else some true

/-- `fat16_delete_file`: whether it returned 0. -/
def fat16DeleteFile (g : Fat16) (fuel : Nat) (d : Ata) (name : List UInt8) :
    Except Fat16Trap (Bool × Ata) :=
  g.rootSectors.bind fun n =>
    match scanRoot g (deleteVisit (parse83 name)) n 0 d with
    | (.hit s k buf true, d) =>
        (freeChain g fuel d (direntCluster (dirent buf k))).map fun d =>
          writeSector g d (g.rootStartLba + s) (buf.set (32 * k) 0xE5)
    | (_, d) => .ok (false, d)

/-! ## Writing -/

/-- The loop of `fat16_write_file` that allocates `n` more clusters: the first and the last
one, or nothing when there was none left. -/
def allocChain (g : Fat16) (fuel : Nat) :
    Nat → Ata → Nat → Nat → Except Fat16Trap (Option (Nat × Nat) × Ata)
  | 0, d, first, prev => .ok (some (first, prev), d)
  | n + 1, d, first, prev =>
      match allocCluster g d with
      | (0, d) =>
          if first ≠ 0 then (freeChain g fuel d first).map fun d => (none, d)
          else .ok (none, d)
      | (cluster, d) =>
          if prev ≠ 0 then allocChain g fuel n (fatSet g d prev cluster).2 first cluster
          else allocChain g fuel n d cluster cluster

/-- A sector filled from `src`, the rest of it with zeros. -/
def padSector (src : List UInt8) : List UInt8 :=
  src.take 512 ++ List.replicate (512 - src.length) 0

/-- The inner loop of `fat16_write_file`: `n` more sectors from `lba`, while bytes of `src`
remain. -/
def writeCluster (g : Fat16) : Nat → Nat → Ata → List UInt8 → Bool × List UInt8 × Ata
  | 0, _, d, src => (true, src, d)
  | n + 1, lba, d, src =>
      if src = [] then (true, src, d)
      else
        match writeSector g d lba (padSector src) with
        | (false, d) => (false, src, d)
        | (true, d) => writeCluster g n (lba + 1) d (src.drop 512)

/-- The loop of `fat16_write_file` along the chain. -/
def writeChain (g : Fat16) : Nat → Ata → Nat → List UInt8 → Except Fat16Trap (Bool × Ata)
  | 0, _, _, _ => .error .rounds
  | fuel + 1, d, cluster, src =>
      if InChain cluster ∧ src ≠ [] then
        let lba := g.dataStartLba + (cluster - 2) * g.sectorsPerCluster
        match writeCluster g g.sectorsPerCluster lba d src with
        | (false, _, d) => .ok (false, d)
        | (true, src, d) =>
            let next := fatGet g d cluster
            writeChain g fuel next.2 next.1 src
      else .ok (true, d)

/-- The loop body of `write_root_dirent`: it stops at an entry that is not in use. -/
def writeVisit (e : List UInt8) : Option Unit :=
  if direntFirst e = 0 ∨ direntFirst e = 0xE5 then some () else none

/-- `write_root_dirent`: whether it succeeded. -/
def writeRootDirent (g : Fat16) (d : Ata) (want : List UInt8) (cluster size : Nat) :
    Except Fat16Trap (Bool × Ata) :=
  g.rootSectors.map fun n =>
    match scanRoot g writeVisit n 0 d with
    | (.hit s k buf (), d) =>
        writeSector g d (g.rootStartLba + s) (setDirent buf k (newDirent want cluster size))
    | (_, d) => (false, d)

/-- `num_clusters`. -/
def numClusters (g : Fat16) (size : Nat) : Except Fat16Trap Nat :=
  let clusterSize := g.sectorsPerCluster * g.bytesPerSector
  if clusterSize = 0 then .error .divide
  else .ok ((size + clusterSize - 1) / clusterSize)

/-- `fat16_write_file` of `size` bytes at `data`: whether it returned 0. -/
def fat16WriteFile (g : Fat16) (fuel : Nat) (d : Ata) (name data : List UInt8) (size : Int) :
    Except Fat16Trap (Bool × Ata) :=
  if size < 0 then .ok (false, d)
  else
    let size := size.toNat
    -- the result of fat16_delete_file is not looked at
    (fat16DeleteFile g fuel d name).bind fun deleted =>
      (numClusters g size).bind fun n =>
        (allocChain g fuel n deleted.2 0 0).bind fun
          | (none, d) => .ok (false, d)
          | (some (first, prev), d) =>
              let d := if prev ≠ 0 then (fatSet g d prev 0xFFFF).2 else d
              (writeChain g fuel d first (data.take size)).bind fun
                | (false, d) => .ok (false, d)
                | (true, d) => writeRootDirent g d (parse83 name) first size

end Flyos

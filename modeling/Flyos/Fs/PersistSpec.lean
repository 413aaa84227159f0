import Flyos.Fs.Allocators
import Flyos.Fs.DeserializeSpec
import Flyos.Fs.Persist
import Flyos.Fs.RamfsRun

/-!
# What was saved is loaded again

`persist_save` leaves the image of the tree on the disk (`persistSave_spec`), and
`persist_load` reads any disk without harm (`persistLoad_spec`) and an image back
(`persistLoad_image`).  Put together they are `persist_roundtrip`.

The block through which the image moves is a spare buffer of the file system: it is
allocated in front of the run and freed behind it, and nothing in between touches it.
-/

namespace Flyos

variable {H : Type*} {A : Allocator H} {s t u : Ramfs H} {kids : Nat → List Nat}
  {depth : Nat → Nat}

/-! ## The block -/

/-- A state that shows the same files, though its heap and its spare buffers may differ. -/
structure Looks (s t : Ramfs H) : Prop where
  nodes : t.nodes = s.nodes
  bytes : ∀ x, fileBytes t x = fileBytes s x
  root : t.root = s.root
  cwd : t.cwd = s.cwd

theorem Looks.trans (h : Looks s t) (h' : Looks t u) : Looks s u :=
  ⟨h'.nodes.trans h.nodes, fun x => (h'.bytes x).trans (h.bytes x), h'.root.trans h.root,
    h'.cwd.trans h.cwd⟩

theorem Looks.shows (h : Looks s t) {f : Forest} {a : Nat} {l : List Nat} (shows : Shows s a f l) :
    Shows t a f l :=
  shows.congr fun x _ => ⟨by rw [h.nodes], h.bytes x⟩

/-- A buffer that no node has may change. -/
theorem Looks.of_unowned {a : Nat} {o : Option (List UInt8)} (nodes : t.nodes = s.nodes)
    (bufs : t.bufs = Function.update s.bufs a o) (root : t.root = s.root) (cwd : t.cwd = s.cwd)
    (unowned : ∀ {p n}, s.nodes p = some n → n.data ≠ a) : Looks s t := by
  refine ⟨nodes, fun x => ?_, root, cwd⟩
  rw [fileBytes, fileBytes, nodes, bufs]
  cases at_x : s.nodes x with
  | none => rfl
  | some n => simp [Function.update_of_ne (unowned at_x)]

/-- The invariant does not depend on such a buffer. -/
theorem RamfsInv.of_unowned (inv : RamfsInv A s kids depth) {a : Nat} {o : Option (List UInt8)}
    (nodes : t.nodes = s.nodes) (bufs : t.bufs = Function.update s.bufs a o)
    (root : t.root = s.root) (unowned : ∀ {p n}, s.nodes p = some n → n.data ≠ a)
    (unused : s.nodes a = none) (live : ∀ {x}, A.live s.heap x → x ≠ a → A.live t.heap x)
    (block : ∀ b, o = some b → A.live t.heap a) : RamfsInv A t kids depth := by
  have same : ∀ {x}, x ≠ a → t.bufs x = s.bufs x := fun ne => by
    rw [bufs, Function.update_of_ne ne]
  have node_ne : ∀ {p n}, s.nodes p = some n → p ≠ a := fun at_p eq => by
    rw [eq, unused] at at_p
    cases at_p
  refine ⟨by rw [nodes, root]; exact inv.links, fun {p n} at_p => ?_, fun {p n} at_p => ?_,
    fun {p q n m} at_p at_q => ?_, fun {p n} at_p => ?_, fun {x c} held => ?_, fun {p m} at_p => ?_⟩
  · rw [nodes] at at_p
    refine (inv.bufs.held at_p).imp id fun ⟨data, c, held, sizes⟩ => ⟨data, c, ?_, sizes⟩
    rw [same (unowned at_p), held]
  · exact inv.bufs.caps (nodes ▸ at_p)
  · exact inv.bufs.own (nodes ▸ at_p) (nodes ▸ at_q)
  · rw [nodes] at at_p
    exact live (inv.bufs.nodeLive at_p) (node_ne at_p)
  · by_cases here : x = a
    · rw [here, bufs, Function.update_self] at held
      rw [here]
      exact block c held
    · rw [same here] at held
      exact live (inv.bufs.bufLive held) here
  · rw [nodes] at at_p
    rw [same (node_ne at_p)]
    exact inv.bufs.apart at_p

/-- **An allocated block** is a spare buffer. -/
theorem kmalloc_block (inv : RamfsInv A s kids depth) {n a : Nat} {u : Ramfs H}
    (got : s.kmalloc A n = (a, u)) (nonnull : a ≠ 0) (b : List UInt8) :
    RamfsInv A (u.setBuf a b) kids depth ∧ Spare (u.setBuf a b) a b ∧ Looks s (u.setBuf a b) ∧
      (u.setBuf a b).oom = s.oom := by
  obtain ⟨files, inv', oom, fresh⟩ := kmalloc_keeps inv n
  rw [got] at files inv' oom fresh
  dsimp only at files inv' oom fresh
  obtain ⟨unused, unbuf, live⟩ := fresh nonnull
  have unowned : ∀ {p n}, u.nodes p = some n → n.data ≠ a := by
    intro p n at_p eq
    rcases inv'.bufs.held at_p with ⟨zero, -⟩ | ⟨-, c, held, -⟩
    · exact nonnull (eq.symm.trans zero)
    · rw [eq, files.bufs, unbuf] at held
      cases held
  refine ⟨inv'.of_unowned rfl rfl rfl unowned (by rw [files.nodes, unused]) (fun held _ => held)
    fun _ _ => live, ⟨Function.update_self .., unowned⟩, ?_, ?_⟩
  · refine .of_unowned (a := a) (o := some b) files.nodes ?_ files.root files.cwd fun at_p => ?_
    · rw [Ramfs.setBuf_bufs, files.bufs]
    · exact unowned (files.nodes ▸ at_p)
  · change u.oom = s.oom
    simp [oom, nonnull]

namespace Spare

variable {a : Nat} {b : List UInt8} (spare : Spare s a b) (inv : RamfsInv A s kids depth)
include spare inv

/-- It is no node. -/
theorem unused : s.nodes a = none := by
  by_contra used
  obtain ⟨n, at_a⟩ := Option.ne_none_iff_exists'.mp used
  have free := inv.bufs.apart at_a
  rw [spare.held] at free
  cases free

/-- A spare buffer may be written. -/
theorem setBuf (c : List UInt8) :
    RamfsInv A (s.setBuf a c) kids depth ∧ Spare (s.setBuf a c) a c ∧ Looks s (s.setBuf a c) :=
  ⟨inv.of_unowned rfl rfl rfl spare.unowned (spare.unused inv) (fun held _ => held)
    fun _ _ => inv.bufs.bufLive spare.held, ⟨Function.update_self .., spare.unowned⟩,
    .of_unowned rfl rfl rfl rfl spare.unowned⟩

/-- **A spare buffer is freed.** -/
theorem freed (result : Int) (d : Ata) :
    ∃ t, freeReturn A s a result d = some (result, t, d) ∧ RamfsInv A t kids depth ∧ Looks s t ∧
      t.oom = s.oom := by
  have live := inv.bufs.bufLive spare.held
  let t : Ramfs H := { s with heap := A.free s.heap a, bufs := Function.update s.bufs a none }
  have inv' : RamfsInv A t kids depth :=
    inv.of_unowned (o := none) rfl rfl rfl spare.unowned (spare.unused inv)
      (fun held ne => (A.free_live live).mpr ⟨held, ne⟩) (fun _ absent => by cases absent)
  exact ⟨t, by rw [freeReturn, Ramfs.freeBuf_some A spare.held]; rfl, inv',
    .of_unowned rfl rfl rfl rfl spare.unowned, rfl⟩

end Spare

/-! ## The loops over the sectors -/

/-- A chunk is not empty and not larger than what remains. -/
theorem chunk_spec {remain : Nat} (more : remain ≠ 0) :
    ∃ c, (if 128 < remain then 128 else remain) = c ∧ 0 < c ∧ c ≤ remain := by
  by_cases large : 128 < remain
  · exact ⟨128, if_pos large, by decide, by omega⟩
  · exact ⟨remain, if_neg large, by omega, by omega⟩

/-- The loop of `persist_save`: however it ends, the first sectors hold what was in the block, all
of them if it succeeds, and it succeeds on a healthy drive. -/
theorem saveLoop_spec (fuel : Nat) (d : Ata) (lba remain p : Nat) (blob : List UInt8)
    (enough : remain < fuel) (disk : lba + remain ≤ 2 ^ 28)
    (room : p + remain * ataSectorSize ≤ blob.length) :
    ∃ b d', saveLoop fuel d lba remain p blob = some (b, d') ∧
      (∃ k ≤ remain, d.Stored lba k (blob.drop p) d' ∧ (b = true → k = remain)) ∧
      (d.Healthy → b = true) := by
  induction fuel generalizing d lba remain p with
  | zero => omega
  | succ fuel ih =>
      rw [saveLoop]
      by_cases last : remain = 0
      · exact ⟨true, d, if_pos last, ⟨0, Nat.zero_le _, .zero (by rfl) lba _, fun _ => last.symm⟩,
          fun _ => rfl⟩
      obtain ⟨c, chunk, some_sector, le⟩ := chunk_spec last
      obtain ⟨k, rfl⟩ : ∃ k, remain = c + k := ⟨remain - c, by omega⟩
      rw [Nat.add_mul] at room
      have inside : p + c * ataSectorSize ≤ blob.length :=
        Nat.le_trans (Nat.add_le_add_left (Nat.le_add_right ..) p) room
      have read : slice blob p (c * ataSectorSize) = some ((blob.drop p).take (c * ataSectorSize)) := by
        rw [slice, if_pos inside]
      have length : ((blob.drop p).take (c * ataSectorSize)).length = c * ataSectorSize := by
        rw [List.length_take, List.length_drop]
        omega
      rw [if_neg last, chunk]
      dsimp only
      rw [read, Option.bind_some, Nat.add_sub_cancel_left]
      obtain ⟨b, u, wrote⟩ : ∃ b u, ataWriteSectors d lba c ((blob.drop p).take (c * ataSectorSize)) =
          (b, u) := ⟨_, _, rfl⟩
      rw [wrote]
      have healthy : d.Healthy → b = true ∧ u.Healthy := by
        intro ok
        obtain ⟨u', wrote', ok'⟩ :=
          ataWriteSectors_healthy ok lba c ((blob.drop p).take (c * ataSectorSize))
        rw [wrote, Prod.mk.injEq] at wrote'
        exact ⟨wrote'.1, wrote'.2 ▸ ok'⟩
      obtain ⟨-, j, part, stored, all⟩ := ataWriteSectors_stored wrote (by omega) length
      have first : d.Stored lba j (blob.drop p) u := by
        refine ⟨stored.bytes.trans ?_, stored.others⟩
        rw [List.take_take, Nat.min_eq_left (Nat.mul_le_mul_right _ part)]
      cases b with
      | false =>
          exact ⟨false, u, rfl, ⟨j, by omega, first, fun success => by cases success⟩,
            fun ok => (healthy ok).1⟩
      | true =>
          obtain ⟨rfl, -⟩ := all rfl
          obtain ⟨b, d', ran, ⟨i, part', stored', all'⟩, ready⟩ := ih u (lba + j) k
            (p + j * ataSectorSize) (by omega) (by omega) (by omega)
          rw [← List.drop_drop] at stored'
          exact ⟨b, d', ran, ⟨j + i, by omega, first.append stored', fun success => by
            rw [all' success]⟩, fun ok => ready (healthy ok).2⟩

/-- The loop of `persist_load`: from a healthy drive, the block gets the sectors. -/
theorem loadLoop_spec (fuel : Nat) (d : Ata) (lba remain p : Nat) (blob : List UInt8)
    (enough : remain < fuel) (disk : lba + remain ≤ 2 ^ 28)
    (room : p + remain * ataSectorSize ≤ blob.length) :
    ∃ r d', loadLoop fuel d lba remain p blob = some (r, d') ∧
      (∀ b, r = some b → b.length = blob.length) ∧
      (d.Healthy → r = some (overlay blob p (Ata.bytesFrom d.sectors lba remain))) := by
  induction fuel generalizing d lba remain p blob with
  | zero => omega
  | succ fuel ih =>
      rw [loadLoop]
      by_cases last : remain = 0
      · refine ⟨some blob, d, if_pos last, fun b eq => by rw [Option.some.inj eq], fun _ => ?_⟩
        rw [last, Ata.bytesFrom, overlay_nil]
      obtain ⟨c, chunk, some_sector, le⟩ := chunk_spec last
      obtain ⟨k, rfl⟩ : ∃ k, remain = c + k := ⟨remain - c, by omega⟩
      rw [Nat.add_mul] at room
      rw [if_neg last, chunk]
      dsimp only
      rw [Nat.add_sub_cancel_left]
      obtain ⟨o, u, read⟩ : ∃ o u, ataReadSectors d lba c = (o, u) := ⟨_, _, rfl⟩
      rw [read]
      cases o with
      | none =>
          refine ⟨none, u, rfl, (fun _ absent => by cases absent), fun ok => ?_⟩
          obtain ⟨d', delivered, -⟩ := ataReadSectors_healthy ok lba c (by omega)
          rw [read] at delivered
          cases delivered
      | some data =>
          have sized := ataReadSectors_length read
          have fits : p + data.length ≤ blob.length := by omega
          dsimp only
          rw [splice_eq fits, Option.bind_some]
          obtain ⟨r, d', ran, length, healthy⟩ := ih u (lba + c) k (p + c * ataSectorSize)
            (overlay blob p data) (by omega) (by omega) (by rw [length_overlay fits]; omega)
          refine ⟨r, d', ran, fun b eq => (length b eq).trans (length_overlay fits), fun ok => ?_⟩
          obtain ⟨d'', delivered, same⟩ := ataReadSectors_healthy ok lba c (by omega)
          rw [read, Prod.mk.injEq, Option.some.injEq] at delivered
          obtain ⟨rfl, rfl⟩ := delivered
          rw [healthy (same.healthy ok), ← sized, overlay_overlay fits, same.sectors,
            ← Ata.bytesFrom_add]

/-! ## Saving -/

/-- The sectors that hold `n` bytes. -/
def sectorsOf (n : Nat) : Nat := (n + ataSectorSize - 1) / ataSectorSize

theorem le_sectorsOf (n : Nat) : n ≤ sectorsOf n * ataSectorSize := by
  simp only [sectorsOf, ataSectorSize]
  omega

theorem sectorsOf_le {n k : Nat} (le : n ≤ k * ataSectorSize) : sectorsOf n ≤ k := by
  simp only [sectorsOf, ataSectorSize] at *
  omega

/-- The disk holds the image, from `PERSIST_START_LBA` on. -/
def HoldsImage (d : Ata) (f : Forest) : Prop :=
  (image f).length ≤ blobMax ∧ ∃ tail,
    Ata.bytesFrom d.sectors persistStartLba (sectorsOf (image f).length) = image f ++ tail

/-- How `persist_save` goes: it gives up before it writes, without memory or with a tree that is too
large, or it writes the image sector by sector. -/
theorem persistSave_cases (inv : RamfsInv A s kids depth) {n : Node}
    (at_root : s.nodes s.root = some n) {f : Forest} {l : List Nat}
    (shows : Shows s n.children f l) (well : f.WellNamed) (d : Ata) :
    (∃ t, persistSave A s d = some (-1, t, d) ∧ RamfsInv A t kids depth ∧ Looks s t ∧
      ((s.kmalloc A blobMax).1 ≠ 0 → blobMax < (image f).length + 4)) ∨
    ∃ tail, (image f ++ tail).length = blobMax ∧ ∀ w,
      saveLoop (sectorsOf (image f).length + 1) d persistStartLba (sectorsOf (image f).length) 0
        (image f ++ tail) = some w →
      ∃ t, persistSave A s d = some (if w.1 then 0 else -1, t, w.2) ∧ RamfsInv A t kids depth ∧
        Looks s t := by
  unfold persistSave
  obtain ⟨a, u, got⟩ : ∃ a u, s.kmalloc A blobMax = (a, u) := ⟨_, _, rfl⟩
  have junk := A.junk_length s.heap blobMax
  rw [got]
  dsimp only
  by_cases null : a = 0
  · obtain ⟨files, inv', -⟩ := kmalloc_keeps inv blobMax
    rw [got] at files inv'
    refine .inl ⟨u, if_pos null, inv', ⟨files.nodes, fun x => ?_, files.root, files.cwd⟩,
      fun memory => absurd null memory⟩
    rw [fileBytes, fileBytes, files.nodes, files.bufs]
  rw [if_neg null]
  obtain ⟨inv₁, spare, looks, -⟩ := kmalloc_block inv got null (A.junk s.heap blobMax)
  rcases ramfsSerialize_spec inv₁ (by rw [looks.root, looks.nodes]; exact at_root)
    (looks.shows shows) well.short (.inl (by decide : blobMax ≤ 2 ^ 63)) junk with ⟨failed, full⟩ | ⟨wrote, fits⟩
  · obtain ⟨t, ran, inv₂, looks', -⟩ := spare.freed inv₁ (-1) d
    refine .inl ⟨t, by rw [failed]; exact ran, inv₂, looks.trans looks', fun _ => ?_⟩
    have le := f.spare_le
    rcases full with few | full
    · exact absurd few (by decide)
    · omega
  · have count : min (sectorsOf (image f).length) persistMaxSectors = sectorsOf (image f).length :=
      Nat.min_eq_left (sectorsOf_le (Nat.le_of_add_right_le fits))
    have length : (image f ++ (A.junk s.heap blobMax).drop (image f).length).length = blobMax := by
      rw [List.length_append, List.length_drop]
      omega
    refine .inr ⟨_, length, fun w saved => ?_⟩
    obtain ⟨inv₂, spare', looks'⟩ := spare.setBuf inv₁
      (image f ++ (A.junk s.heap blobMax).drop (image f).length)
    obtain ⟨t, ran, inv₃, looks'', -⟩ := spare'.freed inv₂ (if w.1 then 0 else -1) w.2
    refine ⟨t, ?_, inv₃, (looks.trans looks').trans looks''⟩
    rw [wrote, Option.bind_some]
    dsimp only
    rw [show min (((image f).length + ataSectorSize - 1) / ataSectorSize) persistMaxSectors =
      sectorsOf (image f).length from count, saved, Option.bind_some]
    exact ran

/-- The loop of `persist_save` over a whole image. -/
theorem saveImage_spec (d : Ata) {f : Forest} {tail : List UInt8}
    (length : (image f ++ tail).length = blobMax) :
    ∃ b d', saveLoop (sectorsOf (image f).length + 1) d persistStartLba
        (sectorsOf (image f).length) 0 (image f ++ tail) = some (b, d') ∧
      (∃ k ≤ sectorsOf (image f).length, d.Stored persistStartLba k (image f ++ tail) d' ∧
        (b = true → k = sectorsOf (image f).length)) ∧ (d.Healthy → b = true) := by
  have fits : (image f).length ≤ blobMax := by
    rw [← length, List.length_append]
    exact Nat.le_add_right ..
  have room := Nat.mul_le_mul_right ataSectorSize (sectorsOf_le fits)
  exact saveLoop_spec _ d persistStartLba _ 0 _ (Nat.lt_succ_self _)
    (Nat.le_trans (Nat.add_le_add_left (sectorsOf_le fits) _) (by decide))
    (by rw [length, Nat.zero_add]; exact room)

/-- A disk that has all sectors of the image holds it. -/
theorem HoldsImage.of_stored {d d' : Ata} {f : Forest} {tail : List UInt8}
    (fits : (image f).length ≤ blobMax)
    (stored : d.Stored persistStartLba (sectorsOf (image f).length) (image f ++ tail) d') :
    HoldsImage d' f := by
  refine ⟨fits, tail.take (sectorsOf (image f).length * ataSectorSize - (image f).length), ?_⟩
  rw [stored.bytes, List.take_append, List.take_of_length_le (le_sectorsOf _)]

/-- **What `persist_save` does**: it leaves the tree as it was, and if it succeeds the disk
holds the image.  It succeeds if there is memory, the image is not too long and the drive
works. -/
theorem persistSave_spec (inv : RamfsInv A s kids depth) {n : Node}
    (at_root : s.nodes s.root = some n) {f : Forest} {l : List Nat}
    (shows : Shows s n.children f l) (well : f.WellNamed) (d : Ata) :
    ∃ r t d', persistSave A s d = some (r, t, d') ∧ RamfsInv A t kids depth ∧ Looks s t ∧
      (r = 0 → HoldsImage d' f) ∧
      ((s.kmalloc A blobMax).1 ≠ 0 → (image f).length + 4 ≤ blobMax → d.Healthy → r = 0) := by
  rcases persistSave_cases inv at_root shows well d with ⟨t, ran, inv', looks, why⟩ |
    ⟨tail, length, saves⟩
  · exact ⟨-1, t, d, ran, inv', looks, (fun ok => by cases ok), fun memory room =>
      absurd (why memory) (Nat.not_lt.mpr room)⟩
  obtain ⟨b, d', saved, ⟨k, -, stored, all⟩, healthy⟩ := saveImage_spec d length
  obtain ⟨t, ran, inv', looks⟩ := saves _ saved
  refine ⟨_, t, d', ran, inv', looks, fun ok => ?_, fun _ _ ok => if_pos (healthy ok)⟩
  have succeeded : b = true := by
    cases b with
    | true => rfl
    | false => cases ok
  rw [all succeeded] at stored
  refine .of_stored ?_ stored
  rw [← length, List.length_append]
  exact Nat.le_add_right ..

/-! ## Loading -/

/-- What `persist_load` finds on a disk that holds an image, though a short one is read
with bytes behind it. -/
theorem HoldsImage.read {d : Ata} {f : Forest} (holds : HoldsImage d f) {blob rest : List UInt8}
    (first : blob = Ata.bytesFrom d.sectors persistStartLba 1 ++ rest) :
    blob.take 8 = magic ∧ ∃ tail,
      (Ata.bytesFrom d.sectors persistStartLba (sectorsOf (loadSize blob))).take (loadSize blob) =
        image f ++ tail ∧ (image f ++ tail).length = max (image f).length 16 := by
  obtain ⟨fits, tail, whole⟩ := holds
  have twelve := length_image f
  obtain ⟨k, count⟩ : ∃ k, sectorsOf (image f).length = 1 + k := by
    refine ⟨sectorsOf (image f).length - 1, ?_⟩
    simp only [sectorsOf, ataSectorSize]
    omega
  have sector := Ata.length_bytesFrom d.sectors persistStartLba 1
  have all := Ata.length_bytesFrom d.sectors persistStartLba (sectorsOf (image f).length)
  rw [count, Ata.bytesFrom_add] at whole
  have front : ∀ i n, i + n ≤ 512 → (blob.drop i).take n = ((image f ++ tail).drop i).take n := by
    intro i n le
    simp only [ataSectorSize] at sector
    rw [← whole, first, List.drop_append_of_le_length (by omega),
      List.drop_append_of_le_length (by omega),
      List.take_append_of_le_length (by rw [List.length_drop]; omega),
      List.take_append_of_le_length (by rw [List.length_drop]; omega)]
  have size : loadSize blob = max (image f).length 16 := by
    simp only [blobMax, persistMaxSectors, ataSectorSize] at fits
    rw [loadSize, front 8 4 (by decide), image_total, ofLe32_le32 (by omega), Nat.min_eq_left fits]
  have same : sectorsOf (loadSize blob) = sectorsOf (image f).length := by
    rw [size]
    simp only [sectorsOf, ataSectorSize]
    omega
  have enough := le_sectorsOf (loadSize blob)
  rw [← Ata.bytesFrom_add, ← count] at whole
  rw [whole, List.length_append] at all
  refine ⟨?_, tail.take (loadSize blob - (image f).length), ?_, ?_⟩
  · have start := front 0 8 (by decide)
    rwa [List.drop_zero, List.drop_zero, image_magic] at start
  · rw [same, whole, List.take_append, List.take_of_length_le (by omega)]
  · rw [same] at enough
    rw [List.length_append, List.length_take]
    omega

/-- How `persist_load` goes: it gives up and leaves the files as they were, or it hands the bytes
of the disk to `ramfs_deserialize`.  From a drive that works and holds an image it hands over the
image, if there is memory for the block. -/
theorem persistLoad_cases (inv : RamfsInv A s kids depth) (d : Ata) :
    (∃ r t d', persistLoad A s d = some (r, t, d') ∧ RamfsInv A t kids depth ∧ Looks s t ∧
      ((s.kmalloc A blobMax).1 ≠ 0 → d.Healthy → ∀ f, ¬ HoldsImage d f) ∧
      ((s.kmalloc A blobMax).1 = 0 → t.oom = true)) ∨
    ∃ blob input d', (s.kmalloc A blobMax).1 ≠ 0 ∧
      persistLoad A s d = (ramfsDeserialize A
        ((s.kmalloc A blobMax).2.setBuf (s.kmalloc A blobMax).1 blob) input).bind
          (fun t => freeReturn A t.2 (s.kmalloc A blobMax).1 t.1 d') ∧
      (d.Healthy → ∀ f, HoldsImage d f →
        ∃ tail, input = image f ++ tail ∧
          (image f ++ tail).length = max (image f).length 16) := by
  unfold persistLoad
  obtain ⟨a, u, got⟩ : ∃ a u, s.kmalloc A blobMax = (a, u) := ⟨_, _, rfl⟩
  have junk := A.junk_length s.heap blobMax
  rw [got]
  dsimp only
  by_cases null : a = 0
  · obtain ⟨files, inv', oom, -⟩ := kmalloc_keeps inv blobMax
    rw [got] at files inv' oom
    have looks : Looks s u := by
      refine ⟨files.nodes, fun x => ?_, files.root, files.cwd⟩
      rw [fileBytes, fileBytes, files.nodes, files.bufs]
    refine .inl ⟨-1, u, d, if_pos null, inv', looks, fun some_ => absurd null some_, fun _ => ?_⟩
    change u.oom = (s.oom || a == 0) at oom
    rw [oom, null]
    simp
  rw [if_neg null]
  obtain ⟨inv₁, spare, looks, -⟩ := kmalloc_block inv got null (A.junk s.heap blobMax)
  obtain ⟨o, d₁, first⟩ : ∃ o d₁, ataReadSectors d persistStartLba 1 = (o, d₁) := ⟨_, _, rfl⟩
  have delivers : d.Healthy → o = some (Ata.bytesFrom d.sectors persistStartLba 1) ∧
      Ata.Same d d₁ := by
    intro ok
    obtain ⟨d', delivered, same⟩ := ataReadSectors_healthy ok persistStartLba 1
      (by decide)
    rw [first, Prod.mk.injEq] at delivered
    exact ⟨delivered.1, delivered.2 ▸ same⟩
  rw [first]
  cases o with
  | none =>
      obtain ⟨t, ran, inv₂, looks', -⟩ := spare.freed inv₁ (-1) d₁
      refine .inl ⟨-1, t, d₁, ran, inv₂, looks.trans looks', fun _ ok _ _ => ?_,
        fun zero => absurd zero null⟩
      cases (delivers ok).1
  | some data =>
  have sized := ataReadSectors_length first
  have fits : 0 + data.length ≤ (A.junk s.heap blobMax).length := by
    rw [junk, sized, Nat.zero_add]
    decide
  obtain ⟨blob, copied⟩ : ∃ blob, overlay (A.junk s.heap blobMax) 0 data = blob := ⟨_, rfl⟩
  have length : blob.length = blobMax := by rw [← copied, length_overlay fits, junk]
  have front : d.Healthy → blob = Ata.bytesFrom d.sectors persistStartLba 1 ++
      (A.junk s.heap blobMax).drop data.length := by
    intro ok
    rw [← Option.some.inj (delivers ok).1, ← copied, overlay_zero]
  dsimp only
  rw [splice_eq fits, copied, Option.bind_some]
  by_cases other : blob.take 8 ≠ magic
  · obtain ⟨inv₂, spare', looks'⟩ := spare.setBuf inv₁ blob
    obtain ⟨t, ran, inv₃, looks'', -⟩ := spare'.freed inv₂ 0 d₁
    refine .inl ⟨0, t, d₁, by rw [if_pos other]; exact ran, inv₃, (looks.trans looks').trans looks'',
      fun _ ok f holds => ?_, fun zero => absurd zero null⟩
    exact absurd (holds.read (front ok)).1 other
  rw [if_neg other]
  have total : loadSize blob ≤ blobMax := by
    simp only [loadSize, blobMax, persistMaxSectors, ataSectorSize]
    omega
  have room := Nat.mul_le_mul_right ataSectorSize (sectorsOf_le total)
  obtain ⟨o, d₂, loaded, kept, healthy⟩ := loadLoop_spec (sectorsOf (loadSize blob) + 1) d₁
    persistStartLba (sectorsOf (loadSize blob)) 0 blob (Nat.lt_succ_self _)
    (Nat.le_trans (Nat.add_le_add_left (sectorsOf_le total) _) (by decide))
    (by rw [length, Nat.zero_add]; exact room)
  rw [show (loadSize blob + ataSectorSize - 1) / ataSectorSize = sectorsOf (loadSize blob) from rfl,
    loaded, Option.bind_some]
  cases o with
  | none =>
      obtain ⟨t, ran, inv₂, looks', -⟩ := spare.freed inv₁ (-1) d₂
      refine .inl ⟨-1, t, d₂, ran, inv₂, looks.trans looks', fun _ ok _ _ => ?_,
        fun zero => absurd zero null⟩
      cases healthy ((delivers ok).2.healthy ok)
  | some blob' =>
  have inside : 0 + loadSize blob ≤ blob'.length := by
    rw [kept blob' rfl, length, Nat.zero_add]
    exact total
  dsimp only
  rw [slice, if_pos inside, Option.bind_some, List.drop_zero]
  refine .inr ⟨blob', blob'.take (loadSize blob), d₂, null, ?_, fun ok f holds => ?_⟩
  · rw [Ramfs.setBuf, Ramfs.setBuf, Function.update_idem]
    rfl
  · obtain ⟨-, tail, input, enough⟩ := holds.read (front ok)
    have contents := Option.some.inj (healthy ((delivers ok).2.healthy ok))
    have sectors := le_sectorsOf (loadSize blob)
    refine ⟨tail, ?_, enough⟩
    rw [contents, overlay_zero, (delivers ok).2.sectors,
      List.take_append_of_le_length (by rw [Ata.length_bytesFrom]; exact sectors), input]

/-- **What `persist_load` does** with any disk: it ends, and leaves a tree.  If the disk
holds an image and every sector can be read, and no allocation fails, an empty root gets
what the image says. -/
theorem persistLoad_spec (inv : RamfsInv A s kids depth) (d : Ata) :
    ∃ r t d', persistLoad A s d = some (r, t, d') ∧ (∃ kids depth, RamfsInv A t kids depth) ∧
      t.root = s.root ∧ t.cwd = s.cwd ∧
      ∀ {f n}, HoldsImage d f → f.WellNamed → d.Healthy → s.nodes s.root = some n →
        n.children = 0 → t.oom = false →
        r = 0 ∧ ∃ n' l, t.nodes t.root = some n' ∧ Shows t n'.children (f.addTo .nil) l := by
  rcases persistLoad_cases inv d with ⟨r, t, d', ran, inv', looks, gaveUp, full⟩ |
    ⟨blob, input, d', memory, ran, reads⟩
  · refine ⟨r, t, d', ran, ⟨kids, depth, inv'⟩, looks.root, looks.cwd, fun holds _ ok _ _ calm => ?_⟩
    by_cases null : (s.kmalloc A blobMax).1 = 0
    · rw [full null] at calm
      cases calm
    · exact absurd holds (gaveUp null ok _)
  obtain ⟨inv₁, spare, before, -⟩ := kmalloc_block inv (Prod.mk.eta).symm memory blob
  obtain ⟨r, v, read, ext⟩ := ramfsDeserialize_spec inv₁ input
  obtain ⟨kids', depth', inv₂⟩ := ext.inv
  obtain ⟨t, freed, inv₃, looks, oom⟩ := (ext.spare spare).freed inv₂ r d'
  refine ⟨r, t, d', by rw [ran, read]; exact freed, ⟨kids', depth', inv₃⟩,
    looks.root.trans (ext.root.trans before.root), looks.cwd.trans (ext.cwd.trans before.cwd),
    fun {f n} holds well ok at_root empty calm => ?_⟩
  obtain ⟨tail, rfl, enough⟩ := reads ok f holds
  have small : (image f).length < 2 ^ 32 := Nat.lt_of_le_of_lt holds.1 (by decide)
  obtain ⟨rfl, l, made⟩ := ramfsDeserialize_image inv₁
    (by rw [before.root, before.nodes]; exact at_root) empty well small (by omega) read
    (by rw [← oom]; exact calm)
  obtain ⟨n', c, -, at_root', shows⟩ := made.dir
  rw [before.root] at at_root'
  exact ⟨rfl, _, l, by rw [looks.root, looks.nodes, ext.root, before.root]; exact at_root',
    looks.shows shows⟩

/-! ## The round trip -/

/-- Two forests with the same files and directories, in whatever order. -/
def Forest.Similar (f g : Forest) : Prop := (f.entries []).Perm (g.entries [])

/-- The root of a state shows the forest. -/
def ShowsRoot (s : Ramfs H) (f : Forest) : Prop :=
  ∃ n l, s.nodes s.root = some n ∧ Shows s n.children f l

/-- What is loaded from a disk that holds an image. -/
theorem persistLoad_fresh {h : H} (booted : (ramfsInit A (Ramfs.empty h)).root ≠ 0) (d : Ata) :
    ∃ r t d', persistLoad A (ramfsInit A (Ramfs.empty h)) d = some (r, t, d') ∧
      (∃ kids depth, RamfsInv A t kids depth) ∧
      ∀ f, HoldsImage d f → f.WellNamed → d.Healthy → t.oom = false →
        r = 0 ∧ ∃ g, ShowsRoot t g ∧ g.Similar f := by
  rcases ramfsInit_spec (A := A) h with ⟨depth, inv⟩ | none
  swap
  · exact absurd none.root booted
  obtain ⟨m, at_root, -⟩ := inv.links.top
  obtain ⟨r, t, d', loaded, inv', -, -, read⟩ := persistLoad_spec inv d
  refine ⟨r, t, d', loaded, inv', fun f holds well readable calm => ?_⟩
  obtain ⟨ok, n, l, at_root', shows⟩ := read holds well readable at_root
    (inv.links.chain at_root) calm
  refine ⟨ok, f.addTo .nil, ⟨n, l, at_root', shows⟩, ?_⟩
  simpa [Forest.Similar, Forest.entries] using Forest.entries_addTo f .nil []

/-- **The round trip.**  When `persist_save` of a tree with proper names reports success, the
image it wrote fits the area; and when `persist_load` then reads that disk into a fresh root, it
ends, and if no allocation failed it reports success and the loaded tree has the same directories
and the same files with the same contents.  It rests on the round trip of the encoder and the
decoder over whole forests and on what the drive holds after the sectors are written; one healthy
disk is all that the two sides share. -/
theorem persist_roundtrip {H' : Type*} {B : Allocator H'} (inv : RamfsInv A s kids depth)
    (names : NamesFit s) {s' : Ramfs H} {d d' d₂ : Ata}
    (saved : persistSave A s d = some (0, s', d')) (disk : d₂.sectors = d'.sectors)
    (readable : d₂.Healthy) {h : H'} (booted : (ramfsInit B (Ramfs.empty h)).root ≠ 0) :
    ∃ f, ShowsRoot s f ∧ HoldsImage d' f ∧
      ∃ r t d₃, persistLoad B (ramfsInit B (Ramfs.empty h)) d₂ = some (r, t, d₃) ∧
        (t.oom = false → r = 0 ∧ ∃ g, ShowsRoot t g ∧ g.Similar f) := by
  obtain ⟨n, at_root, -⟩ := inv.links.top
  obtain ⟨f, l, shows, well⟩ := inv.shows names at_root
  obtain ⟨r, t, u, ran, -, -, holds, -⟩ := persistSave_spec inv at_root shows well d
  obtain ⟨rfl, rfl, rfl⟩ : 0 = r ∧ s' = t ∧ d' = u := by
    simpa using saved.symm.trans ran
  refine ⟨f, ⟨n, l, at_root, shows⟩, holds rfl, ?_⟩
  obtain ⟨fits, tail, whole⟩ := holds rfl
  obtain ⟨r, t, d₃, loaded, -, read⟩ := persistLoad_fresh booted d₂
  exact ⟨r, t, d₃, loaded, read f ⟨fits, tail, by rw [disk, whole]⟩ well readable⟩

/-- There is a tree with one file, of two bytes. -/
theorem exists_tree_ab : ∃ (s : Ramfs CountingHeap) (kids : Nat → List Nat) (depth : Nat → Nat),
    RamfsInv countingAllocator s kids depth ∧ NamesFit s ∧
      ShowsRoot s (.file [97] [5, 6] .nil) ∧ (s.kmalloc countingAllocator blobMax).1 ≠ 0 := by
  let s₀ := ramfsInit countingAllocator (Ramfs.empty CountingHeap.empty)
  have booted : s₀.root ≠ 0 := by decide
  rcases ramfsInit_spec (A := countingAllocator) CountingHeap.empty with ⟨depth, inv₀⟩ | none
  swap
  · exact absurd none.root booted
  -- the file is created and written, and there is memory for the image
  have memory : ((createNode countingAllocator .file s₀ 1 [97]).bind fun r =>
      (ramfsWrite countingAllocator r.2 2 [5, 6] 0).map fun w =>
        (r.1, w.1, (w.2.kmalloc countingAllocator blobMax).1)) = some (2, 2, 4) := rfl
  obtain ⟨c, s₁, made, ⟨null, -⟩ | ⟨-, -, -, -, -, nodes, -, root, -, -, inv₁⟩⟩ :=
    createNode_spec inv₀ (rfl : s₀.nodes 1 = some _) .file [97]
  · rw [made, null, Option.bind_some, Option.map_eq_some_iff] at memory
    obtain ⟨w, -, absurd⟩ := memory
    cases absurd
  have name : c = 2 := by
    rw [made, Option.bind_some, Option.map_eq_some_iff] at memory
    obtain ⟨w, -, eq⟩ := memory
    exact congrArg Prod.fst eq
  subst name
  have at_file : s₁.nodes 2 = some (newNode .file [97] 1 0) := by
    rw [nodes]
    rfl
  rw [made, Option.bind_some] at memory
  obtain ⟨s, inv, ⟨failed, -⟩ | ⟨-, ran, written⟩⟩ := ramfsWrite_spec inv₁ at_file
    (by decide : 0 + ([5, 6] : List UInt8).length ≤ 2 ^ 63)
  · rw [failed] at memory
    cases congrArg (Option.map fun r => r.2.1) memory
  rw [ran] at memory
  have block : (s.kmalloc countingAllocator blobMax).1 = 4 :=
    congrArg (fun r => r.2.2) (Option.some.inj memory)
  have root' : s.root = 1 := written.root.trans root
  have at_root : s.nodes 1 = some { newNode .dir [47] 0 0 with children := 2 } := by
    rw [written.nodes (by decide), nodes]
    rfl
  obtain ⟨n, at_file', shell, -⟩ := written.node
  simp only [Node.shell, newNode, Prod.mk.injEq] at shell
  have empty : fileBytes s₁ 2 = [] := by
    rw [fileBytes, at_file]
    rfl
  have contents : fileBytes s 2 = [5, 6] := by
    rw [written.bytes (Nat.zero_le _), empty]
    rfl
  have shows : Shows s 2 (.file [97] [5, 6] .nil) [2] :=
    ⟨by decide, n, [], rfl, at_file', shell.1, shell.2.1, contents, shell.2.2.2.2, rfl⟩
  have only : ∀ {c m}, s.nodes c = some m → c ≠ s.root → c = 2 := by
    intro c m at_c top
    by_contra other
    rw [root'] at top
    rw [written.nodes other, nodes, withChild, Function.update_of_ne top,
      Function.update_of_ne other] at at_c
    have absent : s₀.nodes c = none := Function.update_of_ne top ..
    rw [absent] at at_c
    cases at_c
  have names : NamesFit s := by
    intro c m at_c top
    obtain rfl := only at_c top
    obtain rfl := Option.some.inj (at_c.symm.trans at_file')
    rw [shell.1]
    exact ⟨by decide, by decide, fun at_c' top' differ => absurd (only at_c' top') differ⟩
  exact ⟨s, _, _, inv, names, ⟨_, [2], by rw [root', at_root], shows⟩, by rw [block]; decide⟩

/-- This tree, saved and loaded. -/
theorem persist_roundtrip_ab :
    ∃ (s s' t : Ramfs CountingHeap) (f : Forest) (d d' d₃ : Ata) (r : Int),
      ShowsRoot s (.file [97] [5, 6] .nil) ∧
      persistSave countingAllocator s d = some (0, s', d') ∧ HoldsImage d' f ∧
      persistLoad countingAllocator (ramfsInit countingAllocator (Ramfs.empty CountingHeap.empty))
        { d with sectors := d'.sectors } = some (r, t, d₃) ∧
      (t.oom = false → r = 0 ∧ ∃ g, ShowsRoot t g ∧ g.Similar f) := by
  obtain ⟨s, kids, depth, inv, names, ⟨n, l, at_root, shows⟩, memory⟩ := exists_tree_ab
  let d : Ata := ⟨fun _ => .ofList [], 65536, fun _ => false, 0, []⟩
  have healthy : ∀ sectors, Ata.Healthy { d with sectors := sectors } := fun _ =>
    ⟨(by decide : 65536 ≠ 0), fun _ _ => rfl⟩
  have well : (Forest.file [97] [5, 6] .nil).WellNamed := by
    simp [Forest.WellNamed, Forest.names]
  obtain ⟨r, s', d', saved, -, -, -, succeeds⟩ := persistSave_spec inv at_root shows well d
  obtain rfl := succeeds memory (by decide) (healthy d.sectors)
  obtain ⟨f, -, holds, r, t, d₃, loaded, read⟩ := persist_roundtrip inv names saved
    (by rfl) (healthy d'.sectors)
    (by decide : (ramfsInit countingAllocator (Ramfs.empty CountingHeap.empty)).root ≠ 0)
  exact ⟨s, s', t, f, d, d', d₃, r, ⟨n, l, at_root, shows⟩, saved, holds, loaded, read⟩

end Flyos

import Flyos.Fs.DeserializeAny
import Flyos.Fs.PersistSpec

/-!
# A save that does not finish

`persist_save` writes the sectors of the new image over those of the old one, in order.
However it ends, and wherever the machine stops, the first `k` sectors are those of the
new image and the others are as before (`SavedUpTo`).  With `k = 0` the old tree is still
there, with all sectors the new one is (`persistSave_torn`).  In between `persist_load`
reads a mixture, which need not be either of the trees (`persistSave_mixes`).
-/

namespace Flyos

variable {H : Type*} {A : Allocator H} {s t : Ramfs H} {kids : Nat → List Nat}
  {depth : Nat → Nat}

/-- The first `k` sectors of the image of `f` were written, in front of what was on the disk. -/
def SavedUpTo (d : Ata) (f : Forest) (k : Nat) (d' : Ata) : Prop :=
  k ≤ sectorsOf (image f).length ∧ (k ≠ 0 → (image f).length ≤ blobMax) ∧
    ∃ tail, d.Stored persistStartLba k (image f ++ tail) d'

/-- An image has at least one sector. -/
theorem sectorsOf_image_pos (f : Forest) : 0 < sectorsOf (image f).length := by
  have length := length_image f
  simp only [sectorsOf, ataSectorSize]
  omega

/-- With no sector written the disk is as it was. -/
theorem SavedUpTo.zero {d d' : Ata} {f : Forest} (saved : SavedUpTo d f 0 d') :
    d'.sectors = d.sectors := by
  obtain ⟨-, -, tail, stored⟩ := saved
  exact funext fun j => stored.others j (by omega)

/-- With all sectors written the disk holds the image. -/
theorem SavedUpTo.all {d d' : Ata} {f : Forest}
    (saved : SavedUpTo d f (sectorsOf (image f).length) d') : HoldsImage d' f := by
  obtain ⟨-, fits, tail, stored⟩ := saved
  exact .of_stored (fits (Nat.pos_iff_ne_zero.mp (sectorsOf_image_pos f))) stored

/-- **However `persist_save` ends**, some sectors of the image were written, and all of them if it
succeeds. -/
theorem persistSave_saved (inv : RamfsInv A s kids depth) {n : Node}
    (at_root : s.nodes s.root = some n) {f : Forest} {l : List Nat}
    (shows : Shows s n.children f l) (well : f.WellNamed) (d : Ata) :
    ∃ r t d' k, persistSave A s d = some (r, t, d') ∧ SavedUpTo d f k d' ∧
      (r = 0 → k = sectorsOf (image f).length) := by
  rcases persistSave_cases inv at_root shows well d with ⟨t, ran, -⟩ | ⟨tail, length, saves⟩
  · refine ⟨-1, t, d, 0, ran, ⟨Nat.zero_le _, fun some_ => absurd rfl some_, [], ?_⟩,
      fun ok => by cases ok⟩
    exact .zero (by rfl) _ _
  obtain ⟨b, d', saved, ⟨k, le, stored, all⟩, -⟩ := saveImage_spec d length
  obtain ⟨t, ran, -⟩ := saves _ saved
  refine ⟨_, t, d', k, ran, ⟨le, fun _ => ?_, tail, stored⟩, fun ok => all ?_⟩
  · rw [← length, List.length_append]
    exact Nat.le_add_right ..
  · cases b with
    | true => rfl
    | false => cases ok

/-- **A save that is cut short.**  On a disk that holds the image of an old tree, a new one is
saved.  However `persist_save` ends, the first `k` sectors of the new image are then in front of
what was there, all of them if it reports success.  When the save ended, or the machine stopped,
after `k` sectors, a load into a fresh root ends with a tree; with enough memory this is exactly
the old tree if nothing was written, and exactly the new one if everything was. -/
theorem persistSave_torn {H' : Type*} {B : Allocator H'} (inv : RamfsInv A s kids depth)
    (names : NamesFit s) (d : Ata) {old : Forest} (was : HoldsImage d old)
    (oldNamed : old.WellNamed) {h : H'} (booted : (ramfsInit B (Ramfs.empty h)).root ≠ 0) :
    ∃ new, ShowsRoot s new ∧
      (∃ r s' d' k, persistSave A s d = some (r, s', d') ∧ SavedUpTo d new k d' ∧
        (r = 0 → k = sectorsOf (image new).length)) ∧
      ∀ k d₂, SavedUpTo d new k d₂ → d₂.Healthy →
        ∃ r t d₃, persistLoad B (ramfsInit B (Ramfs.empty h)) d₂ = some (r, t, d₃) ∧
          (∃ kids depth, RamfsInv B t kids depth) ∧
          (t.oom = false →
            (k = 0 → r = 0 ∧ ∃ g, ShowsRoot t g ∧ g.Similar old) ∧
            (k = sectorsOf (image new).length → r = 0 ∧ ∃ g, ShowsRoot t g ∧ g.Similar new)) := by
  obtain ⟨n, at_root, -⟩ := inv.links.top
  obtain ⟨new, l, shows, well⟩ := inv.shows names at_root
  refine ⟨new, ⟨n, l, at_root, shows⟩, persistSave_saved inv at_root shows well d,
    fun k d₂ saved readable => ?_⟩
  obtain ⟨r, t, d₃, loaded, inv', read⟩ := persistLoad_fresh booted d₂
  refine ⟨r, t, d₃, loaded, inv', fun calm => ⟨?_, ?_⟩⟩
  · rintro rfl
    obtain ⟨fits, tail, whole⟩ := was
    exact read old ⟨fits, tail, by rw [saved.zero, whole]⟩ oldNamed readable calm
  · rintro rfl
    exact read new saved.all well readable calm

/-! ## A mixture -/

/-- A node pointer shows one forest. -/
theorem Shows.unique {f g : Forest} {a : Nat} {l l' : List Nat} (shows : Shows s a f l)
    (shows' : Shows s a g l') : f = g := by
  induction f generalizing a g l l' with
  | nil =>
      cases g with
      | nil => rfl
      | file name bytes rest => exact absurd shows.1 shows'.1
      | dir name kids rest => exact absurd shows.1 shows'.1
  | file name bytes rest ih =>
      obtain ⟨nonnull, n, r, -, at_a, named, file, contents, tail⟩ := shows
      cases g with
      | nil => exact absurd shows'.1 nonnull
      | file name' bytes' rest' =>
          obtain ⟨-, n', r', -, at_a', named', -, contents', tail'⟩ := shows'
          obtain rfl := Option.some.inj (at_a.symm.trans at_a')
          rw [← named, named', ← contents, contents', ih tail tail']
      | dir name' kids' rest' =>
          obtain ⟨-, n', k', r', -, at_a', -, dir, -⟩ := shows'
          obtain rfl := Option.some.inj (at_a.symm.trans at_a')
          rw [file] at dir
          cases dir
  | dir name kids rest ihKids ih =>
      obtain ⟨nonnull, n, k, r, -, at_a, named, dir, inner, tail⟩ := shows
      cases g with
      | nil => exact absurd shows'.1 nonnull
      | file name' bytes' rest' =>
          obtain ⟨-, n', r', -, at_a', -, file, -⟩ := shows'
          obtain rfl := Option.some.inj (at_a.symm.trans at_a')
          rw [file] at dir
          cases dir
      | dir name' kids' rest' =>
          obtain ⟨-, n', k', r', -, at_a', named', -, inner', tail'⟩ := shows'
          obtain rfl := Option.some.inj (at_a.symm.trans at_a')
          rw [← named, named', ihKids inner inner', ih tail tail']

/-- A file `a` of two sectors, counting what stands in front of the contents. -/
def longFile (bytes : List UInt8) : Forest := .file [97] bytes .nil

/-- The old contents. -/
def oldBytes : List UInt8 := List.replicate 494 1

/-- The new contents. -/
def newBytes : List UInt8 := List.replicate 494 2

/-- The new contents in the first sector, the old ones in the second. -/
def mixedBytes : List UInt8 := List.replicate 493 2 ++ [1]

theorem longFile_named (bytes : List UInt8) : (longFile bytes).WellNamed := by
  simp [longFile, Forest.WellNamed, Forest.names]

/-- A drive with the old image, which fails at the third wait. -/
def failingDrive : Ata :=
  ⟨fun j => .ofList ((image (longFile oldBytes)).drop ((j - persistStartLba) * ataSectorSize)),
    65536, fun n => n == 2, 0, []⟩

/-- A drive with the first sector of the new image in front of the second of the old one. -/
def mixedDrive : Ata :=
  { failingDrive with
    sectors := Function.update failingDrive.sectors persistStartLba
      (.ofList (image (longFile newBytes)))
    fault := fun _ => false }

theorem failingDrive_holds : HoldsImage failingDrive (longFile oldBytes) :=
  ⟨by decide +kernel, List.replicate 511 0, by decide +kernel⟩

theorem mixedDrive_holds : HoldsImage mixedDrive (longFile mixedBytes) :=
  ⟨by decide +kernel, List.replicate 511 0, by decide +kernel⟩

theorem mixedDrive_healthy : mixedDrive.Healthy := ⟨by decide, fun _ _ => rfl⟩

/-- There is a tree with the new contents. -/
theorem exists_newTree : ∃ (s : Ramfs CountingHeap) (kids : Nat → List Nat) (depth : Nat → Nat)
    (n : Node) (l : List Nat), RamfsInv countingAllocator s kids depth ∧
      s.nodes s.root = some n ∧ Shows s n.children (longFile newBytes) l ∧
      (s.kmalloc countingAllocator blobMax).1 ≠ 0 := by
  obtain ⟨depth, inv⟩ := freshRoot_inv
  have calm : (ramfsDeserialize countingAllocator freshRoot (image (longFile newBytes))).map
      (fun r => (r.2.oom, (r.2.kmalloc countingAllocator blobMax).1)) = some (false, 4) := by
    decide +kernel
  obtain ⟨⟨r, t⟩, ran, same⟩ := Option.map_eq_some_iff.mp calm
  simp only [Prod.mk.injEq] at same
  obtain ⟨calm, memory⟩ := same
  obtain ⟨-, l, made⟩ := ramfsDeserialize_image inv
    (rfl : freshRoot.nodes freshRoot.root = some _) rfl (longFile_named newBytes) (by decide +kernel)
    (show 16 ≤ (image (longFile newBytes) ++ []).length by decide +kernel)
    (by rw [List.append_nil]; exact ran) calm
  obtain ⟨kids, depth, inv'⟩ := made.inv
  obtain ⟨n, c, -, at_root, shows⟩ := made.dir
  rw [← made.root] at at_root
  exact ⟨t, kids, depth, _, l, inv', at_root, shows, by rw [memory]; decide⟩

/-- Saving it on the failing drive writes the first sector. -/
theorem persistSave_fails {n : Node} {l : List Nat} {s : Ramfs CountingHeap}
    (inv : RamfsInv countingAllocator s kids depth) (at_root : s.nodes s.root = some n)
    (shows : Shows s n.children (longFile newBytes) l)
    (memory : (s.kmalloc countingAllocator blobMax).1 ≠ 0) :
    ∃ t d', persistSave countingAllocator s failingDrive = some (-1, t, d') ∧
      d'.sectors = mixedDrive.sectors := by
  have length : (image (longFile newBytes)).length = 513 := by decide +kernel
  rcases persistSave_cases inv at_root shows (longFile_named newBytes) failingDrive with
    ⟨t, -, -, -, large⟩ | ⟨tail, full, saves⟩
  · have impossible := large memory
    rw [length] at impossible
    exact absurd impossible (by decide)
  have two : sectorsOf (image (longFile newBytes)).length = 2 := by rw [length]; rfl
  rw [two] at saves
  generalize blob : image (longFile newBytes) ++ tail = bytes at *
  have long : 0 + 2 * ataSectorSize ≤ bytes.length := by rw [full]; decide
  obtain ⟨d', wrote, stored⟩ := ataWriteSectors_stops (d := failingDrive) (k := 1) (by decide)
    (show persistStartLba < 2 ^ 28 by decide)
    (show (bytes.take (2 * ataSectorSize)).length = 2 * ataSectorSize by
      rw [List.length_take]
      omega) (by decide)
    (by decide) rfl
  have saved : saveLoop (2 + 1) failingDrive persistStartLba 2 0 bytes = some (false, d') := by
    have read : slice bytes 0 (2 * ataSectorSize) = some (bytes.take (2 * ataSectorSize)) := by
      rw [slice, if_pos long, List.drop_zero]
    rw [saveLoop, if_neg (by decide), if_neg (by decide : ¬ 128 < 2)]
    dsimp only
    rw [read, Option.bind_some, wrote]
  obtain ⟨t, ran, -⟩ := saves _ saved
  refine ⟨t, d', ran, funext fun j => ?_⟩
  by_cases first : j = persistStartLba
  · subst first
    refine Subtype.ext ?_
    have front := stored.bytes
    rw [Ata.bytesFrom, Ata.bytesFrom, List.append_nil] at front
    rw [front, List.take_take, ← blob, List.take_append_of_le_length (by rw [length]; decide)]
    decide +kernel
  · rw [stored.others j (by omega)]
    exact (Function.update_of_ne first ..).symm

/-- Loading from the mixed drive hands the mixed image over. -/
theorem mixedDrive_read : ∃ blob d', persistLoad countingAllocator freshRoot mixedDrive =
    (ramfsDeserialize countingAllocator ((freshRoot.kmalloc countingAllocator blobMax).2.setBuf
      (freshRoot.kmalloc countingAllocator blobMax).1 blob) (image (longFile mixedBytes))).bind
        fun t => freeReturn countingAllocator t.2
          (freshRoot.kmalloc countingAllocator blobMax).1 t.1 d' := by
  obtain ⟨depth, inv⟩ := freshRoot_inv
  rcases persistLoad_cases inv mixedDrive with ⟨-, -, -, -, -, -, gaveUp, -⟩ |
    ⟨blob, input, d', memory, ran, reads⟩
  · exact absurd mixedDrive_holds (gaveUp (by decide) mixedDrive_healthy _)
  · obtain ⟨tail, rfl, length⟩ := reads mixedDrive_healthy _ mixedDrive_holds
    have long : (image (longFile mixedBytes)).length = 513 := by decide +kernel
    rw [List.length_append, long] at length
    obtain rfl := List.length_eq_zero_iff.mp (by omega : tail.length = 0)
    rw [List.append_nil] at ran
    exact ⟨blob, d', ran⟩

/-- There is enough memory for it. -/
theorem mixedDrive_calm : (ramfsDeserialize countingAllocator
    ((freshRoot.kmalloc countingAllocator blobMax).2.setBuf
      (freshRoot.kmalloc countingAllocator blobMax).1 mixedDrive_read.choose)
        (image (longFile mixedBytes))).map (fun r => r.2.oom) = some false := by
  decide +kernel

/-- **A mixture is loaded.**  A tree with one file is saved over another one, and the drive fails
behind the first of two sectors: the file that is loaded then has neither the old nor the new
contents. -/
theorem persistSave_mixes : ¬ ∀ {s s' t : Ramfs CountingHeap} {kids : Nat → List Nat}
    {depth : Nat → Nat} {old new : Forest} {d d' d₂ d₃ : Ata} {r : Int},
    RamfsInv countingAllocator s kids depth → ShowsRoot s new → new.WellNamed →
    HoldsImage d old → old.WellNamed → persistSave countingAllocator s d = some (-1, s', d') →
    d₂.sectors = d'.sectors → d₂.Healthy →
    persistLoad countingAllocator freshRoot d₂ = some (r, t, d₃) → t.oom = false →
    ∃ g, ShowsRoot t g ∧ (g.Similar old ∨ g.Similar new) := by
  intro all
  obtain ⟨s, kids, depth, n, l, inv, at_root, shows, memory⟩ := exists_newTree
  obtain ⟨s', d', saved, same⟩ := persistSave_fails inv at_root shows memory
  obtain ⟨depth', fresh⟩ := freshRoot_inv
  obtain ⟨r, t, d₃, loaded, -, -, -, read⟩ := persistLoad_spec fresh mixedDrive
  have calm : t.oom = false := by
    obtain ⟨d₄, ran⟩ := mixedDrive_read.choose_spec
    obtain ⟨⟨r', v⟩, deserialized, oom⟩ := Option.map_eq_some_iff.mp mixedDrive_calm
    rw [deserialized, loaded, Option.bind_some, freeReturn] at ran
    obtain ⟨w, freed, eq⟩ := Option.map_eq_some_iff.mp ran.symm
    obtain ⟨-, -, rfl⟩ := Option.map_eq_some_iff.mp freed
    cases eq
    exact oom
  obtain ⟨-, n', l', at_root', shows'⟩ := read mixedDrive_holds (longFile_named _)
    mixedDrive_healthy (rfl : freshRoot.nodes freshRoot.root = some _) rfl calm
  obtain ⟨g, ⟨m, l'', at_root'', shows''⟩, similar⟩ := all inv ⟨n, l, at_root, shows⟩
    (longFile_named _) failingDrive_holds (longFile_named _) saved same.symm mixedDrive_healthy
    loaded calm
  obtain rfl := Option.some.inj (at_root'.symm.trans at_root'')
  obtain rfl := shows'.unique shows''
  rcases similar with same | same
  · exact absurd (List.perm_singleton.mp same) (by decide +kernel)
  · exact absurd (List.perm_singleton.mp same) (by decide +kernel)

/-- A small tree is saved on this drive. -/
theorem persistSave_torn_ab : ∃ (s s' : Ramfs CountingHeap) (new : Forest) (d' : Ata) (r : Int)
    (k : Nat), ShowsRoot s new ∧ HoldsImage failingDrive (longFile oldBytes) ∧
      persistSave countingAllocator s failingDrive = some (r, s', d') ∧
      SavedUpTo failingDrive new k d' ∧ (r = 0 → k = sectorsOf (image new).length) := by
  obtain ⟨s, kids, depth, inv, names, -, -⟩ := exists_tree_ab
  obtain ⟨new, shows, ⟨r, s', d', k, saved⟩, -⟩ := persistSave_torn inv names failingDrive
    failingDrive_holds (longFile_named _)
    (by decide : (ramfsInit countingAllocator (Ramfs.empty CountingHeap.empty)).root ≠ 0)
  exact ⟨s, s', new, d', r, k, shows, failingDrive_holds, saved⟩

end Flyos

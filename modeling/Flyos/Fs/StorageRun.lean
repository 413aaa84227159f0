import Flyos.Fs.DiskAreas
import Flyos.Fs.PathForest
import Flyos.Fs.PathRun

/-!
# What a reboot finds

The whole storage of the system: the file system in memory, and the disk with the FAT16 volume and
the image of `persist.c`.  `StorageModel` says what it is for: a tree of files in memory, a map
of files on the volume, and the tree that was saved last.  A reboot goes back to the saved tree
and leaves the volume.

`storageRun_refines` says that every run of the code, of calls on files, calls on the volume,
`persist_save` and reboots in any order, is a run of that model with the same answers: no call on
the volume harms the saved tree, saving does not harm the volume, and what is loaded is what was
saved.  The drive answers, and writes to the volume find room in it.
-/

namespace Flyos

variable {H : Type*} {A : Allocator H} {kids : Nat → List Nat} {depth : Nat → Nat}

/-! ## The model -/

/-- What happens to the storage: a call on files, a call on the volume, `SYS_SYNC`, or the system
is started again. -/
inductive StorageEvent where
  | file (e : PathEvent)
  | fat (call : FatCall) (done : Bool)
  | fatRead (name : List UInt8) (max : Nat) (answer : Int × List UInt8)
  | sync (result : Int)
  | reboot

/-- **What the storage is for**: files in memory, files on the volume, and a saved tree. -/
structure StorageModel where
  fs : PathFs
  files : FileMap
  saved : PathTree CString (List UInt8)

/-- An empty file system, an empty volume, and nothing saved. -/
def StorageModel.start : StorageModel := ⟨.empty, fun _ => none, .bare _ _⟩

/-- A step of the model. -/
def StorageModel.Step (m : StorageModel) (e : StorageEvent) (m' : StorageModel) : Prop :=
  match e with
  | .file e => ∃ fs, m.fs.Step e fs ∧ m' = { m with fs }
  | .fat call done => m' = { m with files := m.files.after (call, done) }
  | .fatRead name max answer => answer = readResult (m.files (parse83 name)) max ∧ m' = m
  | .sync result => (result = 0 ∧ m' = { m with saved := m.fs.tree }) ∨ (result = -1 ∧ m' = m)
  | .reboot => m' = { m with fs := ⟨m.saved, [], fun _ => none⟩ }

/-! ## The code -/

/-- The file system in memory, and the disk. -/
structure Storage (H : Type*) where
  sys : FileSys H
  disk : Ata

/-- A step of the code.  `kmain` starts with an empty heap, `ramfs_init`, `file_init` and
`persist_load`; there is memory for what is loaded, and for the buffers of `fat16_read_file`. -/
def StorageStep (A : Allocator H) (g : Fat16) (fuel : Nat) (s : Storage H) (e : StorageEvent)
    (t : Storage H) : Prop :=
  match e with
  | .file e => PathEventStep A s.sys e t.sys ∧ t.disk = s.disk
  | .fat call done => fatCall g fuel s.disk.untouched call = .ok (done, t.disk) ∧ t.sys = s.sys
  | .fatRead name max answer =>
      fat16ReadFile g (fun _ => true) fuel s.disk name max = .ok (answer, t.disk) ∧ t.sys = s.sys
  | .sync result => ∃ fs, persistSave A s.sys.fs s.disk = some (result, fs, t.disk) ∧
      t.sys = { s.sys with fs }
  | .reboot => ∃ h r fs, (ramfsInit A (Ramfs.empty h)).root ≠ 0 ∧
      persistLoad A (ramfsInit A (Ramfs.empty h)) s.disk = some (r, fs, t.disk) ∧
      fs.oom = false ∧ t.sys = fileInit fs

/-- Names that a call creates come from C strings. -/
def PathCall.Plain : PathCall → Prop
  | .open path => 0 ∉ path
  | .mkdir path => 0 ∉ path
  | _ => True

/-- The call of an event is fit; on the volume it finds room. -/
def StorageEvent.Fit (g : Fat16) (total : Nat) (s : Storage H) (e : StorageEvent) : Prop :=
  match e with
  | .file e => e.Fit s.sys ∧ e.call.Plain
  | .fat call _ => call.Valid ∧ CallRoom g total s.disk.untouched call.volume
  | .fatRead _ max _ => max < 2 ^ 31
  | .sync _ => True
  | .reboot => True

/-! ## The names -/

/-- Names in the model stay free of NULs. -/
theorem PathFs.Step.plain {m m' : PathFs} {e : PathEvent} (every : m.tree.Over (0 ∉ ·))
    (plain : e.call.Plain) (step : m.Step e m') : m'.tree.Over (0 ∉ ·) := by
  obtain ⟨call, answer, noMemory⟩ := e
  have created : ∀ {path : CString} {kind : PathEntry (List UInt8)} {made : List CString}
      {m' : PathFs}, 0 ∉ path → m.create path kind = some (made, m') → m'.tree.Over (0 ∉ ·) := by
    intro path kind made m' plain create
    obtain ⟨dir, -, create⟩ := Option.bind_eq_some_iff.mp create
    obtain ⟨tree, added, same⟩ := Option.map_eq_some_iff.mp create
    obtain ⟨-, rfl⟩ := Prod.mk.inj same
    refine every.add? (fun mem => plain ?_) added
    have base : (m.split path).2 = path ∨ ∃ i, (m.split path).2 = path.drop i := by
      rw [PathFs.split]
      cases lastSlash path with
      | none => exact .inl rfl
      | some i => exact .inr ⟨i + 1, rfl⟩
    have part := List.mem_of_mem_take mem
    rcases base with same | ⟨i, same⟩
    · rwa [same] at part
    · rw [same] at part
      exact List.mem_of_mem_drop part
  have taken : ∀ (m : PathFs) (path : List CString), (m.take path).2.tree = m.tree := by
    intro m path
    unfold PathFs.take
    split <;> rfl
  have after : m' = (m.exec noMemory call).2 := (congrArg Prod.snd step).symm
  subst after
  cases call with
  | «open» path =>
      rw [exec]
      cases m.resolve path with
      | some found => exact (taken m found).symm ▸ every
      | none =>
          cases create : (if noMemory then none else m.create path (.file [])) with
          | none => exact every
          | some made =>
              have named := created plain (Option.ite_none_left_eq_some.mp create).2
              exact (taken made.2 made.1).symm ▸ named
  | close fd =>
      rw [exec]
      cases m.held fd <;> exact every
  | read fd n =>
      rw [exec]
      cases m.held fd <;> exact every
  | write fd buf =>
      rw [exec]
      cases if noMemory then none else m.held fd with
      | none => exact every
      | some held => exact every.modify _ _
  | mkdir path =>
      rw [exec]
      cases create : (if noMemory then none else m.create path .dir) with
      | none => exact every
      | some made => exact created plain (Option.ite_none_left_eq_some.mp create).2
  | unlink path =>
      rw [exec]
      cases removed : (m.resolve path).bind m.tree.remove? with
      | none => exact every
      | some tree =>
          obtain ⟨found, -, remove⟩ := Option.bind_eq_some_iff.mp removed
          exact every.remove? remove
  | chdir path =>
      rw [exec]
      cases m.resolve path with
      | none => exact every
      | some dir =>
          dsimp only
          split <;> exact every

/-! ## The saved tree -/

/-- A name that is stored and found again. -/
structure StoredName (name : CString) : Prop where
  proper : ProperName name
  short : name.length < ramfsNameMax
  plain : 0 ∉ name

/-- **The tree that the disk holds**: that of an image, or only a root where there is no image. -/
def SavedOn (sectors : Nat → Sector) (tree : PathTree CString (List UInt8)) : Prop :=
  (∃ d f, d.sectors = sectors ∧ HoldsImage d f ∧ f.WellNamed ∧ Lists tree (f.entries []) ∧
    tree.Over StoredName) ∨
  (sectors persistStartLba).1.take 8 ≠ magic ∧ tree = .bare _ _

section Saving

variable {s t : Ramfs H} {d d' : Ata} {m : PathTree CString (List UInt8)}

/-- Sectors in front of the image area do not matter to it. -/
theorem SavedOn.congr (saved : SavedOn d.sectors m)
    (same : ∀ l, persistStartLba ≤ l → d'.sectors l = d.sectors l) : SavedOn d'.sectors m := by
  rcases saved with ⟨u, f, sectors, ⟨fits, tail, image⟩, good⟩ | ⟨blank, bare⟩
  · refine .inl ⟨d', f, rfl, ⟨fits, tail, ?_⟩, good⟩
    rw [← image, sectors]
    exact Ata.bytesFrom_congr fun k low _ => same k low
  · refine .inr ⟨?_, bare⟩
    rw [same _ (Nat.le_refl _)]
    exact blank

/-- A state that looks the same has the same tree. -/
theorem Looks.treeShows (looks : Looks s t) (shown : TreeShows s m) : TreeShows t m := by
  have entries : ∀ n nd, entryOf t n nd = entryOf s n nd := fun n nd =>
    entryOf_congr rfl (looks.bytes n)
  intro names e
  rw [shown names e]
  simp only [PathTo.iff_of_nodes looks.nodes looks.root, looks.nodes, entries]

/-- And the same names. -/
theorem Looks.named (looks : Looks s t) (named : Named A s) (tree : RamfsInv A t kids depth) :
    Named A t := by
  refine ⟨⟨kids, depth, tree⟩, ?_, ?_⟩
  · unfold NamesOk
    rw [looks.nodes, looks.root]
    exact named.names
  · rw [looks.nodes, looks.root]
    exact named.short

/-- The names in the tree of a state are good, if they have no NUL. -/
theorem Named.over (named : Named A s) (shown : TreeShows s m) (plain : m.Over (0 ∉ ·)) :
    m.Over StoredName ∧ NamesFit s := by
  have good : ∀ {c n}, s.nodes c = some n → c ≠ s.root → StoredName n.name := by
    intro c n at_c other
    obtain ⟨kids, depth, inv⟩ := named.tree
    obtain ⟨⟨d, at_p⟩, -⟩ := inv.links.parent at_c other
    obtain ⟨front, path⟩ := inv.pathTo at_p
    refine ⟨(named.names at_c other).1, named.short c n at_c other, ?_⟩
    refine plain (front ++ [n.name]) ?_ n.name (by simp)
    rw [shown.entry_at (.child at_c other path) at_c]
    exact Option.some_ne_none _
  refine ⟨shown.over good, fun {c n} at_c other => ?_⟩
  exact ⟨(good at_c other).short, (good at_c other).plain, (named.names at_c other).2⟩

/-- **What `persist_save` saves** is the tree, or nothing. -/
theorem persistSave_saves (named : Named A s) (shown : TreeShows s m) (plain : m.Over (0 ∉ ·))
    (ok : d.Healthy) :
    ∃ r t d', persistSave A s d = some (r, t, d') ∧ (∃ kids depth, RamfsInv A t kids depth) ∧
      Looks s t ∧ d'.Healthy ∧ (∀ l < persistStartLba, d'.sectors l = d.sectors l) ∧
      ((r = 0 ∧ SavedOn d'.sectors m) ∨ (r = -1 ∧ d' = d)) := by
  obtain ⟨kids, depth, inv⟩ := named.tree
  obtain ⟨n, at_root, -⟩ := inv.links.top
  obtain ⟨every, fit⟩ := named.over shown plain
  obtain ⟨f, l, shows_, well⟩ := inv.shows fit at_root
  obtain ⟨r, t, d', ran, inv', looks, healthy, front, result⟩ :=
    persistSave_disk inv at_root shows_ well ok
  refine ⟨r, t, d', ran, ⟨kids, depth, inv'⟩, looks, healthy, front, ?_⟩
  refine result.imp (fun ⟨done, holds⟩ => ⟨done, .inl ⟨d', f, rfl, holds, well, ?_, every⟩⟩) id
  exact (ShowsRoot.treeShows_iff inv ⟨n, l, at_root, shows_⟩).mp shown

/-- **What `persist_load` loads** into a fresh root is what is saved. -/
theorem persistLoad_loads {h : H} (booted : (ramfsInit A (Ramfs.empty h)).root ≠ 0)
    (saved : SavedOn d.sectors m) (ok : d.Healthy) :
    ∃ r t d', persistLoad A (ramfsInit A (Ramfs.empty h)) d = some (r, t, d') ∧
      (t.oom = false → r = 0 ∧ Named A t ∧ TreeShows t m ∧ t.cwd = t.root) := by
  rcases ramfsInit_spec (A := A) h with ⟨depth, inv⟩ | none
  swap
  · exact absurd none.root booted
  have here : (ramfsInit A (Ramfs.empty h)).cwd = (ramfsInit A (Ramfs.empty h)).root := rfl
  rcases saved with ⟨u, f, sectors, ⟨fits, tail, image⟩, well, lists, every⟩ | ⟨blank, rfl⟩
  · obtain ⟨r, t, d', loaded, ⟨kids', depth', inv'⟩, root, cwd, -⟩ := persistLoad_spec inv d
    obtain ⟨r', t', u', loaded', -, read⟩ := persistLoad_fresh booted d
    obtain ⟨rfl, rfl, rfl⟩ : r = r' ∧ t = t' ∧ d' = u' := by
      simpa using loaded.symm.trans loaded'
    refine ⟨r, t, d', loaded, fun calm => ?_⟩
    obtain ⟨done, g, shown, similar⟩ :=
      read f ⟨fits, tail, by rw [← sectors]; exact image⟩ well ok calm
    have tree : TreeShows t m := (shown.treeShows_iff inv').mpr (lists.perm similar.symm)
    have once : ((g.entries []).map Prod.fst).Nodup :=
      (similar.map Prod.fst).nodup_iff.mpr (well.nodup [])
    refine ⟨done, shown.named inv' once tree fun path there name mem => ?_, tree, ?_⟩
    · have good := every path there name mem
      exact ⟨good.proper, good.short⟩
    · rw [root, cwd, here]
  · obtain ⟨r, t, d', loaded, inv', looks, done⟩ := persistLoad_blank inv ok blank
    obtain ⟨start, shown⟩ := fileInit_shows inv here
    refine ⟨r, t, d', loaded, fun calm => ⟨done calm, looks.named start.named inv',
      looks.treeShows shown.fs.tree, ?_⟩⟩
    rw [looks.root, looks.cwd, here]

end Saving

/-! ## The invariant -/

/-- The files in memory, the volume and the saved tree are those of the model. -/
structure StorageInv (A : Allocator H) (g : Fat16) (total : Nat) (s : Storage H)
    (m : StorageModel) : Prop where
  files : PathInv A s.sys
  shown : SysShows s.sys m.fs
  plain : m.fs.tree.Over (0 ∉ ·)
  volume : FatInv g s.disk m.files
  sound : (Vol.ofSectors g s.disk.sectors).Sound g total
  saved : SavedOn s.disk.sectors m.saved

/-- Whatever the storage is asked is answered: calls that are fit and find room, saving, and
loading into a fresh root. -/
structure Storage.Answers (A : Allocator H) (g : Fat16) (total fuel : Nat) (s : Storage H) :
    Prop where
  file : ∀ c : PathCall, c.Fit s.sys.clearOom → ∃ a t, pathExec A s.sys.clearOom c = some (a, t)
  fat : ∀ call : FatCall, call.Valid → CallRoom g total s.disk.untouched call.volume →
    ∃ r, fatCall g fuel s.disk.untouched call = .ok r
  sync : ∃ r, persistSave A s.sys.fs s.disk = some r
  load : ∀ h, (ramfsInit A (Ramfs.empty h)).root ≠ 0 →
    ∃ r, persistLoad A (ramfsInit A (Ramfs.empty h)) s.disk = some r

/-- A volume with files is on a drive that answers. -/
theorem FatInv.healthy {g : Fat16} {d : Ata} {files : FileMap} (inv : FatInv g d files) :
    d.Healthy := by
  obtain ⟨base, V, chain, holds, -⟩ := inv
  exact holds.watched.healthy

/-- The file system that looks the same. -/
theorem PathInv.looks {s : FileSys H} {fs : Ramfs H} (inv : PathInv A s) (looks : Looks s.fs fs)
    (tree : RamfsInv A fs kids depth) : PathInv A { s with fs } := by
  refine ⟨inv.files.setFs ⟨kids, depth, tree⟩ ?_ fun {i n} _ at_f => ?_, looks.named inv.named tree⟩
  · obtain ⟨n, at_cwd⟩ := inv.files.cwd
    exact ⟨n, by rw [looks.nodes, looks.cwd, at_cwd]⟩
  · exact ⟨n, by rw [looks.nodes, at_f], rfl, rfl⟩

/-- It shows the same. -/
theorem SysShows.looks {s : FileSys H} {fs : Ramfs H} {m : PathFs} (shown : SysShows s m)
    (looks : Looks s.fs fs) : SysShows { s with fs } m := by
  have keeps : ∀ {n names}, PathTo s.fs n names → PathTo fs n names :=
    (PathTo.iff_of_nodes looks.nodes looks.root).mpr
  refine shown.setFs ⟨looks.treeShows shown.fs.tree, ?_⟩ rfl fun _ path => keeps path
  rw [looks.cwd]
  exact keeps shown.fs.cwd

/-- **`file_init` on a loaded tree.** -/
theorem fileInit_loaded {fs : Ramfs H} {tree : PathTree CString (List UInt8)} (named : Named A fs)
    (shown : TreeShows fs tree) (here : fs.cwd = fs.root) :
    PathInv A (fileInit fs) ∧ SysShows (fileInit fs) ⟨tree, [], fun _ => none⟩ := by
  obtain ⟨r, at_root, -⟩ := named.top
  refine ⟨⟨⟨named.tree, ⟨r, ?_⟩, fun used => ?_⟩, named⟩, ⟨shown, ?_⟩, fun i => .inl ⟨rfl, rfl⟩⟩
  · change fs.nodes fs.cwd = some r
    rw [here, at_root]
  · exact absurd used (by decide : ¬ Fd.closed.used = true)
  · change PathTo fs fs.cwd []
    rw [here]
    exact .root

namespace StorageInv

variable {g : Fat16} {total fuel : Nat} {s t : Storage H} {m : StorageModel} {e : StorageEvent}
  (ok : g.Mounted) (bytes : g.bytesPerSector = 512) (spc : 0 < g.sectorsPerCluster)
  (fits : g.dataStartLba ≤ total) (below : g.partLba + total ≤ persistStartLba)
  (enough : 2 ^ 16 < fuel) (inv : StorageInv A g total s m)
include ok bytes spc fits below enough inv

/-- **A step of the code is one of the model.** -/
theorem step (step : Guarded (StorageEvent.Fit g total) (StorageStep A g fuel) s e t) :
    ∃ m', m.Step e m' ∧ StorageInv A g total t m' := by
  obtain ⟨sys, disk⟩ := s
  obtain ⟨sys', disk'⟩ := t
  obtain ⟨files, shown, plain, volume, sound, saved⟩ := inv
  have healthy := volume.healthy
  have outside : ∀ l, persistStartLba ≤ l → ¬ VolumeSector g total l := by
    intro l behind inside
    obtain ⟨-, high⟩ := inside
    omega
  obtain ⟨fit, ran⟩ := step
  cases e with
  | file e =>
      obtain ⟨ran, rfl⟩ := ran
      obtain ⟨fs, one, files', shown'⟩ := pathStep_agrees files shown ⟨fit.1, ran⟩
      exact ⟨_, ⟨fs, one, rfl⟩, files', shown', one.plain plain fit.2, volume, sound, saved⟩
  | fat call done =>
      obtain ⟨ran, rfl⟩ := ran
      obtain ⟨done', d, ran', volume', sound', others⟩ :=
        volume.call ok fits bytes spc enough sound healthy fit.1 fit.2
      obtain ⟨rfl, rfl⟩ := Prod.mk.inj (Except.ok.inj (ran.symm.trans ran'))
      exact ⟨_, rfl, files, shown, plain, volume', sound',
        saved.congr fun l behind => others l (outside l behind)⟩
  | fatRead name max answer =>
      obtain ⟨ran, rfl⟩ := ran
      obtain ⟨d, ran'⟩ := volume.fileReads ok bytes spc enough name fit fun _ => rfl
      obtain ⟨rfl, rfl⟩ := Prod.mk.inj (Except.ok.inj (ran.symm.trans ran'))
      have same := fat16ReadFile_same ran
      obtain ⟨volume', sound'⟩ := volume.elsewhere ok fits sound (same.healthy healthy)
        fun l _ => congrFun same.sectors l
      exact ⟨_, ⟨rfl, rfl⟩, files, shown, plain, volume', sound',
        saved.congr fun l _ => congrFun same.sectors l⟩
  | sync result =>
      obtain ⟨fs, ran, rfl⟩ := ran
      obtain ⟨r, fs', d, ran', ⟨kids, depth, tree⟩, looks, healthy', front, all⟩ :=
        persistSave_saves files.named shown.fs.tree plain healthy
      obtain ⟨rfl, rfl, rfl⟩ : result = r ∧ fs = fs' ∧ disk' = d := by
        simpa using ran.symm.trans ran'
      obtain ⟨volume', sound'⟩ := volume.elsewhere ok fits sound healthy' fun l inside =>
        front l (Nat.lt_of_lt_of_le inside.2 below)
      rcases all with ⟨rfl, saved'⟩ | ⟨rfl, rfl⟩
      · exact ⟨_, .inl ⟨rfl, rfl⟩, files.looks looks tree, shown.looks looks, plain, volume',
          sound', saved'⟩
      · exact ⟨_, .inr ⟨rfl, rfl⟩, files.looks looks tree, shown.looks looks, plain, volume, sound,
          saved⟩
  | reboot =>
      obtain ⟨h, r, fs, booted, ran, calm, rfl⟩ := ran
      obtain ⟨r', fs', d, ran', loads⟩ := persistLoad_loads booted saved healthy
      obtain ⟨rfl, rfl, rfl⟩ : r = r' ∧ fs = fs' ∧ disk' = d := by
        simpa using ran.symm.trans ran'
      obtain ⟨-, named, tree, here⟩ := loads calm
      obtain ⟨files', shown'⟩ := fileInit_loaded named tree here
      have same := persistLoad_same ran
      obtain ⟨volume', sound'⟩ := volume.elsewhere ok fits sound (same.healthy healthy)
        fun l _ => congrFun same.sectors l
      refine ⟨_, rfl, files', shown', ?_, volume', sound',
        saved.congr fun l _ => congrFun same.sectors l⟩
      rcases saved with ⟨-, -, -, -, -, -, every⟩ | ⟨-, bare⟩
      · exact fun path there name mem => (every path there name mem).plain
      · change m.saved.Over (0 ∉ ·)
        rw [bare]
        exact PathTree.over_bare

omit below in
/-- **Nothing gets stuck.** -/
theorem answers : s.Answers A g total fuel := by
  refine ⟨fun c fit => ?_, fun call valid room => ?_, ?_, fun h booted => ?_⟩
  · obtain ⟨a, t, -, ran, -⟩ := call_agrees inv.files.clearOom inv.shown.clearOom rfl c fit
    exact ⟨a, t, ran⟩
  · obtain ⟨done, d, ran, -⟩ :=
      inv.volume.call ok fits bytes spc enough inv.sound inv.volume.healthy valid room
    exact ⟨_, ran⟩
  · obtain ⟨r, fs, d, ran, -⟩ :=
      persistSave_saves inv.files.named inv.shown.fs.tree inv.plain inv.volume.healthy
    exact ⟨_, ran⟩
  · obtain ⟨r, fs, d, ran, -⟩ := persistLoad_loads booted inv.saved inv.volume.healthy
    exact ⟨_, ran⟩

end StorageInv

/-! ## Runs -/

/-- A freshly formatted volume is sound: it has no entries. -/
theorem FreshVolume.sound {g : Fat16} {m : Nat → Sector} (fresh : FreshVolume g m) (total : Nat) :
    (Vol.ofSectors g m).Sound g total := by
  intro i inside used
  change direntFirst (slotAt g m i) ≠ 0 at used
  rw [fresh.root i inside] at used
  exact absurd rfl used

/-- **What a reboot finds.**  On a disk with a freshly formatted volume in front of the image area
and no image, every run of calls on files, calls on the volume, `persist_save` and reboots is a
run of the model with the same answers, and nothing gets stuck: the volume keeps its files over
saving and reboots, and a reboot finds the tree that was saved last, whatever was done to the
volume and to the files since. -/
theorem storageRun_refines {g : Fat16} {total fuel : Nat} {d : Ata} {h : H} {s : Storage H}
    (ok : g.Mounted) (bytes : g.bytesPerSector = 512) (spc : 0 < g.sectorsPerCluster)
    (fits : g.dataStartLba ≤ total) (below : g.partLba + total ≤ persistStartLba)
    (enough : 2 ^ 16 < fuel) (healthy : d.Healthy) (fresh : FreshVolume g d.sectors)
    (blank : (d.sectors persistStartLba).1.take 8 ≠ magic)
    (root : (ramfsInit A (Ramfs.empty h)).root ≠ 0) {es : List StorageEvent}
    (run : Run (Guarded (StorageEvent.Fit g total) (StorageStep A g fuel))
      ⟨fileInit (ramfsInit A (Ramfs.empty h)), d⟩ es s) :
    (∃ m, Run StorageModel.Step .start es m ∧ SysShows s.sys m.fs ∧ FatInv g s.disk m.files ∧
      SavedOn s.disk.sectors m.saved) ∧ s.Answers A g total fuel := by
  rcases ramfsInit_spec (A := A) h with ⟨depth, tree⟩ | none
  swap
  · exact absurd none.root root
  obtain ⟨files, shown⟩ := fileInit_shows tree rfl
  have start : StorageInv A g total ⟨fileInit (ramfsInit A (Ramfs.empty h)), d⟩ .start :=
    ⟨files, shown, PathTree.over_bare, fresh.inv healthy, fresh.sound total, .inr ⟨blank, rfl⟩⟩
  obtain ⟨m, model, inv⟩ := run.simulates (StorageInv A g total)
    (fun related one => related.step ok bytes spc fits below enough one) start
  exact ⟨⟨m, model, inv.shown, inv.volume, inv.saved⟩,
    inv.answers ok bytes spc fits enough⟩

/-- A file is written to the volume, a directory is made, and the tree is saved. -/
theorem storageRun_refines_a : ∃ (s : Storage CountingHeap) (m : StorageModel),
    Run StorageModel.Step .start
      [.fat smallWrite true, .file ⟨.mkdir [47, 97], (0, []), false⟩, .sync 0] m ∧
      SysShows s.sys m.fs ∧ SavedOn s.disk.sectors m.saved := by
  have room : CallRoom smallFat 257 emptyDisk.untouched smallWrite.volume := by
    refine fun _ => .inl fun c mem => ?_
    obtain ⟨low, high, -⟩ := Vol.mem_freeList.mp (List.mem_of_mem_take mem)
    have below : c < 256 := Nat.lt_of_lt_of_le high (by decide)
    exact ⟨⟨low, by omega⟩, below, show 3 + (c - 2) * 1 + 1 ≤ 257 by omega⟩
  have healthy : ∀ {d : Ata}, Run (FatStep smallFat (2 ^ 16 + 1)) emptyDisk [(smallWrite, true)] d →
      d.Healthy := fun run => ((emptyDisk_fresh.inv emptyDisk_healthy).run smallFat_mounted rfl
    (by decide) (Nat.lt_succ_self _) run).healthy
  obtain ⟨d, wrote⟩ := smallWrite_step
  have ready := healthy wrote
  obtain ⟨valid, ran⟩ : FatStep smallFat (2 ^ 16 + 1) emptyDisk (smallWrite, true) d := by
    cases wrote with
    | cons one rest =>
        cases rest
        exact one
  -- the directory, and memory for the image of the tree
  let start : FileSys CountingHeap :=
    fileInit (ramfsInit countingAllocator (Ramfs.empty CountingHeap.empty))
  have booted : (ramfsInit countingAllocator (Ramfs.empty CountingHeap.empty)).root ≠ 0 := by decide
  obtain ⟨sys, made, n, at_root, shows_, memory⟩ : ∃ sys : FileSys CountingHeap,
      PathEventStep countingAllocator start ⟨.mkdir [47, 97], (0, []), false⟩ sys ∧
      ∃ n, sys.fs.nodes sys.fs.root = some n ∧
        Shows sys.fs n.children (.dir [97] .nil .nil) [2] ∧
        (sys.fs.kmalloc countingAllocator blobMax).1 = 3 :=
    ⟨_, ⟨rfl, rfl⟩, _, rfl, ⟨by decide, _, [], [], rfl, rfl, rfl, rfl, ⟨rfl, rfl⟩, rfl, rfl⟩, rfl⟩
  have fit : PathEvent.Fit start ⟨.mkdir [47, 97], (0, []), false⟩ :=
    StoresFit.of_short rfl (by decide) (by decide)
  obtain ⟨kids, depth, tree⟩ : ∃ kids depth, RamfsInv countingAllocator sys.fs kids depth := by
    rcases ramfsInit_spec (A := countingAllocator) CountingHeap.empty with ⟨depth, tree⟩ | none
    swap
    · exact absurd none.root booted
    obtain ⟨inv, shown⟩ := fileInit_shows tree rfl
    obtain ⟨-, -, inv', -⟩ := pathStep_agrees inv shown ⟨@fit, made⟩
    exact inv'.named.tree
  have well : (Forest.dir [97] .nil .nil).WellNamed := by
    simp [Forest.WellNamed, Forest.names]
  obtain ⟨r, fs, d', saved, -, -, -, succeeds⟩ := persistSave_spec tree at_root shows_ well d
  obtain rfl := succeeds (by rw [memory]; decide) (by decide) ready
  have written : StorageStep countingAllocator smallFat (2 ^ 16 + 1) ⟨start, emptyDisk⟩
      (.fat smallWrite true) ⟨start, d⟩ := ⟨ran, rfl⟩
  have plain : PathCall.Plain (.mkdir [47, 97]) := by
    change (0 : UInt8) ∉ [47, 97]
    decide
  have run : Run (Guarded (StorageEvent.Fit smallFat 257)
      (StorageStep countingAllocator smallFat (2 ^ 16 + 1))) ⟨start, emptyDisk⟩
      [.fat smallWrite true, .file ⟨.mkdir [47, 97], (0, []), false⟩, .sync 0]
      ⟨{ sys with fs }, d'⟩ :=
    .cons ⟨⟨valid, room⟩, written⟩ <|
      .cons (t := ⟨sys, d⟩) ⟨⟨@fit, plain⟩, made, rfl⟩ <|
      .single ⟨trivial, fs, saved, rfl⟩
  have blank : (emptyDisk.sectors persistStartLba).1.take 8 ≠ magic := by decide
  obtain ⟨⟨m, model, shown, -, holds⟩, -⟩ := storageRun_refines smallFat_mounted rfl (by decide)
    (by decide) (by decide) (Nat.lt_succ_self _) emptyDisk_healthy emptyDisk_fresh blank booted run
  exact ⟨_, m, model, shown, holds⟩

end Flyos

import Flyos.Mm.CloneSpec
import Flyos.Mm.Spaces
import Flyos.Mm.User

/-!
# What keeps the identity map

The kernel reads and writes page tables and fresh frames at their own addresses.  The
pages that matter are those the page allocator hands out and the tables there are at
boot (`Protected`); `Identity` says that every address space maps them to themselves,
and that any other address is mapped to a frame that is no table (`Data`), so that a
store through it harms none.

A step of `vmm_map` keeps this when the mapped page is `Clear`, that is, none of the
protected ones (`Identity.step`); a new address space does when it maps what the
current one maps or fresh frames (`Identity.addSpace`).
-/

namespace Flyos

open TableTree

/-! ## The invariant -/

/-- A page the page allocator hands out after `s₀`, or a table of `s₀`. -/
def Protected (s₀ : Vmm) (f : Nat) : Prop :=
  ¬ Taken s₀ f ∨ ∃ p, s₀.table p = some (f / pageSize * pageSize)

/-- An address of none of the protected pages that the identity map covers. -/
def Clear (s₀ : Vmm) (virt : Nat) : Prop :=
  ∀ f, Protected s₀ f → f < 2 ^ 30 → path virt ≠ path f

/-- A frame in use that is no table. -/
def Data (s : Vmm) (roots : List Nat) (a : Nat) : Prop :=
  Taken s a ∧ ∀ R ∈ roots, ∀ q, reach slot s.mem 0 R q ≠ some a

/-- **The identity map is there** in all address spaces, and safe from stores elsewhere. -/
structure Identity (s₀ s : Vmm) (roots : List Nat) : Prop where
  null : ¬ Protected s₀ 0
  total : s.pmm.totalPages = s₀.pmm.totalPages
  taken : ∀ f, Taken s₀ f → Taken s f
  spaces : Spaces s roots
  current : s.cr3 ∈ roots
  tables : ∀ R ∈ roots, ∀ q h, reach slot s.mem 0 R q = some h → Protected s₀ h
  same : ∀ R ∈ roots, ∀ f, Protected s₀ f → f < 2 ^ 30 →
    pageAt (s.inSpace R) (path f) = some (f / pageSize * pageSize)
  data : ∀ R ∈ roots, ∀ v a, Clear s₀ v → pageAt (s.inSpace R) (path v) = some a →
    Data s roots a

/-- A frame that is not protected holds data. -/
theorem Identity.data_of {s₀ s : Vmm} {roots : List Nat} (inv : Identity s₀ s roots) {a : Nat}
    (outside : ¬ Protected s₀ a) : Data s roots a := by
  rw [Protected, not_or, not_not] at outside
  refine ⟨inv.taken a outside.1, fun R member q at_q => ?_⟩
  rcases inv.tables R member q a at_q with free | ⟨p, at_p⟩
  · exact free outside.1
  · exact outside.2 ⟨p, at_p⟩

/-- An address with a different page number from all protected pages. -/
theorem Clear.of_high (s₀ : Vmm) {virt : Nat} (high : 2 ^ 30 ≤ virt % 2 ^ 48) : Clear s₀ virt := by
  intro f _ low same
  rw [path_eq_iff] at same
  simp only [pageNumber, pageSize] at same
  omega

section

variable {s₀ s t : Vmm} {roots : List Nat} {virt frame : Nat}

/-- Data stays data. -/
theorem MapStep.data (step : MapStep roots virt frame s t) {a : Nat} (data : Data s roots a) :
    Data t roots a := by
  refine ⟨step.taken a data.1, fun R member q at_q => ?_⟩
  rcases step.tables R member q a at_q with old | new
  · exact data.2 R member q old
  · exact new data.1

/-- **A step keeps the identity map** when it maps a clear page to a data frame. -/
theorem Identity.step (inv : Identity s₀ s roots) (clear : Clear s₀ virt)
    (data : Data s roots frame) (step : MapStep roots virt frame s t) :
    Identity s₀ t roots where
  null := inv.null
  total := step.total.trans inv.total
  taken := fun f used => step.taken f (inv.taken f used)
  spaces := step.spaces
  current := step.cr3 ▸ inv.current
  tables := fun R member q h at_q => by
    rcases step.tables R member q h at_q with old | new
    · exact inv.tables R member q h old
    · exact .inl fun used => new (inv.taken h used)
  same := fun R member f guarded low => by
    rcases step.pages R member f with kept | ⟨same, -⟩
    · rw [kept]
      exact inv.same R member f guarded low
    · exact absurd same.symm (clear f guarded low)
  data := fun R member v a away found => by
    rcases step.pages R member v with kept | ⟨-, mapped⟩
    · rw [kept] at found
      exact step.data (inv.data R member v a away found)
    · rw [mapped] at found
      exact Option.some.inj found ▸ step.data data

/-- A step that changes no table keeps it, and the data frames. -/
theorem Identity.quiet (inv : Identity s₀ s roots) (cr3 : t.cr3 = s.cr3) (ok : t.pmm.Ok)
    (total : t.pmm.totalPages = s.pmm.totalPages) (taken : ∀ f, Taken s f → Taken t f)
    (kept : ∀ R ∈ roots, ∀ q h, reach slot s.mem 0 R q = some h → t.mem h = s.mem h) :
    Identity s₀ t roots ∧ ∀ a, Data s roots a → Data t roots a := by
  have step : MapStep roots (2 ^ 30) 0 s t := .quiet _ _ inv.spaces cr3 ok total taken kept
  exact ⟨inv.step (.of_high s₀ (by decide)) (inv.data_of inv.null) step, fun a => step.data⟩

/-- **An allocation** answers with a data frame, which may be frame 0. -/
theorem Identity.alloc (inv : Identity s₀ s roots) :
    Identity s₀ s.allocPage.2 roots ∧ Data s.allocPage.2 roots s.allocPage.1 ∧
      ∃ k, s.allocPage.1 = k * pageSize ∧ k < maxPages := by
  have ok : s.pmm.Ok := (inv.spaces.current inv.current).1.pmm
  obtain ⟨grown, found, -⟩ := allocPage_grown ok
  obtain ⟨inv', keeps⟩ := inv.quiet grown.cr3 grown.pmm grown.total grown.taken fun R member q h at_q =>
    grown.kept h (inv.spaces.taken member at_q) (by simp)
  refine ⟨inv', ?_⟩
  by_cases null : s.allocPage.1 = 0
  · rw [null]
    exact ⟨inv'.data_of inv.null, 0, by simp, by decide⟩
  · obtain ⟨k, eq, inRange, fresh⟩ := found null
    exact ⟨⟨fresh.2, fun R member q at_q => fresh.1 (inv.spaces.taken member at_q)⟩, k, eq, inRange⟩

/-- Filling a data frame. -/
theorem Identity.fill (inv : Identity s₀ s roots) {x : Nat} (data : Data s roots x)
    (g : Fin 512 → Nat) :
    Identity s₀ (s.fillPage x g) roots ∧ ∀ a, Data s roots a → Data (s.fillPage x g) roots a := by
  refine inv.quiet rfl (inv.spaces.current inv.current).1.pmm rfl (fun _ used => used)
    fun R member q h at_q => ?_
  have other : h ≠ x := fun same => data.2 R member q (same ▸ at_q)
  funext i
  simp [Vmm.fillPage, other]

/-- **`vmm_map` of a clear page** to a data frame. -/
theorem Identity.map (inv : Identity s₀ s roots) (clear : Clear s₀ virt) {phys : Nat}
    (small : phys < 2 ^ 52) (data : Data s roots (phys / pageSize * pageSize)) (flags : Nat) :
    Identity s₀ (vmmMap s virt phys flags) roots :=
  inv.step clear data (vmmMap_mapStep inv.spaces inv.current small virt flags)

/-- Its use on a frame just taken. -/
theorem Identity.mapTaken (inv : Identity s₀ s roots) (clear : Clear s₀ virt) {k : Nat}
    (inRange : k < maxPages) (data : Data s roots (k * pageSize)) (flags : Nat) :
    Identity s₀ (vmmMap s virt (k * pageSize) flags) roots := by
  refine inv.map clear ?_ ?_ flags
  · simp only [maxPages, pageSize] at *
    omega
  · rwa [Nat.mul_div_cancel _ (by decide)]

/-- **A byte stored at a clear address.** -/
theorem Identity.storeByte (inv : Identity s₀ s roots) (clear : Clear s₀ virt) {b : UInt8}
    (stored : s.storeByte virt b = some t) : Identity s₀ t roots := by
  obtain ⟨frame, found, rfl⟩ := Option.map_eq_some_iff.mp stored
  have data := inv.data s.cr3 inv.current virt frame clear found
  refine (inv.quiet (t := s.set frame _ _) rfl (inv.spaces.current inv.current).1.pmm rfl
    (fun _ used => used) fun R member q h at_q => ?_).1
  have other : h ≠ frame := fun same => data.2 R member q (same ▸ at_q)
  funext i
  simp [Vmm.set, other]

end

/-! ## Loops over pages -/

/-- A loop that wraps around does not end. -/
theorem pageLoop_endless {body : Nat → Vmm → Bool × Vmm} (always : ∀ va s, (body va s).1 = true)
    {last : Nat} {s : Vmm} {va : Nat} (fuel : Nat) (inRange : va < 2 ^ 64)
    (below : ∀ w < 2 ^ 64, w % pageSize = va % pageSize → w < last) :
    pageLoop body fuel va last s = none := by
  induction fuel generalizing va s with
  | zero => rfl
  | succ fuel ih =>
      rw [pageLoop, if_pos (below va inRange rfl)]
      simp only [always, if_true]
      refine ih (Nat.mod_lt _ (by decide)) fun w small same => below w small ?_
      simp only [pageSize] at *
      omega

/-- **What every turn keeps**, the loop keeps; the pages of the turns are between the
bounds, for a loop that wraps around does not end. -/
theorem pageLoop_keeps {P : Vmm → Prop} {body : Nat → Vmm → Bool × Vmm} {first last : Nat}
    (ends : last + pageSize ≤ 2 ^ 64 ∨ last < 2 ^ 64 ∧ ∀ va s, (body va s).1 = true)
    (turn : ∀ va s, first ≤ va → va < last → P s → P (body va s).2) {fuel va : Nat} {s : Vmm}
    {r : Bool × Vmm} (from_first : first ≤ va) (done : pageLoop body fuel va last s = some r)
    (start : P s) : P r.2 := by
  induction fuel generalizing va s with
  | zero => cases done
  | succ fuel ih =>
      rw [pageLoop] at done
      split at done
      case isFalse =>
        obtain rfl := Option.some.inj done
        exact start
      case isTrue more =>
        have kept := turn va s from_first more start
        simp only at done
        split at done
        case isFalse =>
          obtain rfl := Option.some.inj done
          exact kept
        case isTrue =>
          by_cases wraps : va + pageSize < 2 ^ 64
          · rw [Nat.mod_eq_of_lt wraps] at done
            exact ih (from_first.trans (Nat.le_add_right _ _)) done kept
          · rcases ends with room | ⟨inRange, always⟩
            · omega
            · rw [pageLoop_endless always fuel (Nat.mod_lt _ (by decide)) fun w small same => ?_]
                at done
              · cases done
              · simp only [pageSize] at *
                omega

/-- A page bound is not in the last page. -/
theorem pageDown_room (x : Nat) : pageDown (x % 2 ^ 64) + pageSize ≤ 2 ^ 64 := by
  simp only [pageDown, pageSize]
  omega

section

variable {s₀ s t : Vmm} {roots : List Nat}

/-- `heap_init` keeps the identity map: the heap is in the upper half. -/
theorem Identity.heapInit (inv : Identity s₀ s roots) (done : heapInitMap s = some t) :
    Identity s₀ t roots := by
  obtain ⟨r, loop, rfl⟩ := Option.map_eq_some_iff.mp done
  refine pageLoop_keeps (P := fun s => Identity s₀ s roots) (.inl (by decide))
    (fun va s from_first more inv => ?_) le_rfl loop inv
  obtain ⟨inv', data, k, eq, inRange⟩ := inv.alloc
  unfold heapPage
  by_cases null : s.allocPage.1 = 0
  · simpa only [null, if_true] using inv'
  · simp only [null, if_false]
    rw [eq] at data ⊢
    refine inv'.mapTaken (.of_high s₀ ?_) inRange data _
    simp only [heapStart, heapPages, pageSize] at *
    omega

/-- So does the loop over the registers of the network card. -/
theorem Identity.nic (inv : Identity s₀ s roots) {bar : Nat} (small : bar < 2 ^ 32)
    (device : ∀ k < 128 * 1024, ¬ Protected s₀ (pageDown (bar / 16 * 16 + k)))
    (done : mapNic bar s = some t) : Identity s₀ t roots := by
  rw [mapNic] at done
  obtain ⟨r, loop, rfl⟩ := Option.map_eq_some_iff.mp done
  refine pageLoop_keeps (P := fun s => Identity s₀ s roots) (.inl (by decide))
    (fun va s from_first more inv => inv.map (.of_high s₀ ?_) ?_ ?_ _) le_rfl loop inv
  · simp only [mmioVirt] at *
    omega
  · simp only [mmioVirt] at *
    omega
  · refine inv.data_of (device _ ?_)
    omega

/-- A framebuffer that is no memory of the page allocator. -/
def FbInfo.Apart (fb : FbInfo) (s₀ : Vmm) : Prop :=
  fb.addr ≠ 0 → ∀ va, fb.pages.1 ≤ va → va < fb.pages.2 →
    va < 2 ^ 52 ∧ Clear s₀ va ∧ ¬ Protected s₀ (pageDown va)

/-- `fb_init` keeps the identity map too. -/
theorem Identity.fbInit (inv : Identity s₀ s roots) {fb : FbInfo} (apart : fb.Apart s₀)
    (done : fbInitMap fb s = some t) : Identity s₀ t roots := by
  unfold fbInitMap at done
  split at done
  case isTrue => exact Option.some.inj done ▸ inv
  case isFalse some =>
    obtain ⟨r, loop, rfl⟩ := Option.map_eq_some_iff.mp done
    refine pageLoop_keeps (P := fun s => Identity s₀ s roots) (.inl (pageDown_room _))
      (fun va s from_first more inv => ?_) le_rfl loop inv
    obtain ⟨small, clear, outside⟩ := apart some va from_first more
    exact inv.map clear small (inv.data_of outside) _

/-- A range of addresses none of which is a protected page. -/
def ClearRange (s₀ : Vmm) (first last : Nat) : Prop := ∀ va, first ≤ va → va < last → Clear s₀ va

/-- A turn of the loader or of the stack maps a clear page to a fresh frame. -/
theorem Identity.freshPage (inv : Identity s₀ s roots) {va : Nat} (clear : Clear s₀ va)
    (flags : Nat) :
    Identity s₀ (vmmMap (s.allocPage.2.zeroPage s.allocPage.1) va s.allocPage.1 flags) roots := by
  obtain ⟨inv', data, k, eq, inRange⟩ := inv.alloc
  obtain ⟨zeroed, keeps⟩ := inv'.fill data fun _ => 0
  rw [eq] at data zeroed keeps ⊢
  exact zeroed.mapTaken clear inRange (keeps _ data) flags

/-- `user_setup_stack_at` keeps the identity map when the stack is clear. -/
theorem Identity.stack (inv : Identity s₀ s roots) {base size : Nat}
    (clear : ClearRange s₀ base ((base + size) % 2 ^ 64))
    (done : userSetupStackAt base size s = some t) : Identity s₀ t roots := by
  obtain ⟨r, loop, rfl⟩ := Option.map_eq_some_iff.mp done
  exact pageLoop_keeps (P := fun s => Identity s₀ s roots)
    (.inr ⟨Nat.mod_lt _ (by decide), fun _ _ => rfl⟩)
    (fun va s from_first more inv => inv.freshPage (clear va from_first more) _) le_rfl loop inv

/-- The pages of a segment, and the addresses its bytes are copied to, are clear. -/
structure Phdr.Clear (ph : Phdr) (s₀ : Vmm) : Prop where
  pages : ClearRange s₀ ph.pages.1 ph.pages.2
  bytes : ∀ k < ph.pFilesz, Flyos.Clear s₀ ((ph.pVaddr + k) % 2 ^ 64)

/-- The segments the loader would load, if the file starts like a program, are clear. -/
def ElfClear (s₀ : Vmm) (elf : ByteMemory) : Prop :=
  elf 0 = 0x7F ∧ elf 1 = 0x45 ∧ elf 2 = 0x4C ∧ elf 3 = 0x46 →
    ∀ i < ePhnum elf, (phdr elf i).pType = ptLoad → (phdr elf i).Clear s₀

/-- The loop over the bytes of a segment. -/
theorem Identity.copyBytes (inv : Identity s₀ s roots) {elf : ByteMemory} {ph : Phdr}
    (clear : ph.Clear s₀) (done : copyBytes elf ph s = some t) : Identity s₀ t roots := by
  have each : ∀ k ∈ List.range ph.pFilesz, Flyos.Clear s₀ ((ph.pVaddr + k) % 2 ^ 64) :=
    fun k member => clear.bytes k (List.mem_range.mp member)
  rw [Flyos.copyBytes] at done
  generalize List.range ph.pFilesz = ks at each done
  induction ks generalizing s with
  | nil => exact Option.some.inj done ▸ inv
  | cons k ks ih =>
      rw [List.foldlM_cons, Option.bind_eq_bind, Option.bind_eq_some_iff] at done
      obtain ⟨u, stored, rest⟩ := done
      exact ih (inv.storeByte (each k (by simp)) stored) (fun j member => each j (by simp [member]))
        rest

/-- One program header. -/
theorem Identity.loadSegment (inv : Identity s₀ s roots) {elf : ByteMemory} {ph : Phdr}
    {r : Bool × Vmm} (clear : ph.pType = ptLoad → ph.Clear s₀)
    (done : loadSegment elf ph s = some r) : Identity s₀ r.2 roots := by
  unfold Flyos.loadSegment at done
  split at done
  case isTrue => exact Option.some.inj done ▸ inv
  case isFalse load =>
    have clear := clear (not_not.mp load)
    obtain ⟨u, loop, after⟩ := Option.bind_eq_some_iff.mp done
    have mapped : Identity s₀ u.2 roots := by
      refine pageLoop_keeps (P := fun s => Identity s₀ s roots) (.inl (pageDown_room _))
        (fun va s from_first more inv => ?_) le_rfl loop inv
      unfold elfPage
      by_cases null : s.allocPage.1 = 0
      · simpa only [null, if_true] using inv.alloc.1
      · simpa only [null, if_false] using inv.freshPage (clear.pages va from_first more) _
    split at after
    case isTrue =>
      obtain ⟨t, copied, rfl⟩ := Option.map_eq_some_iff.mp after
      exact mapped.copyBytes clear copied
    case isFalse => exact Option.some.inj after ▸ mapped

/-- The loop over the program headers. -/
theorem Identity.loadSegments (inv : Identity s₀ s roots) {elf : ByteMemory} {is : List Nat}
    {r : Bool × Vmm} (clear : ∀ i ∈ is, (phdr elf i).pType = ptLoad → (phdr elf i).Clear s₀)
    (done : loadSegments elf is s = some r) : Identity s₀ r.2 roots := by
  induction is generalizing s with
  | nil => exact Option.some.inj done ▸ inv
  | cons i is ih =>
      obtain ⟨u, one, rest⟩ := Option.bind_eq_some_iff.mp done
      have inv' := inv.loadSegment (clear i (by simp)) one
      split at rest
      case isTrue => exact ih inv' (fun j member => clear j (by simp [member])) rest
      case isFalse => exact Option.some.inj rest ▸ inv'

/-- **`user_load_elf`** keeps the identity map when its segments are clear. -/
theorem Identity.loadElf (inv : Identity s₀ s roots) {elf : ByteMemory} {r : Nat × Vmm}
    (clear : ElfClear s₀ elf) (done : userLoadElf elf s = some r) : Identity s₀ r.2 roots := by
  unfold userLoadElf at done
  split at done
  case isTrue => exact Option.some.inj done ▸ inv
  case isFalse magic =>
    obtain ⟨u, loop, rfl⟩ := Option.map_eq_some_iff.mp done
    simp only [not_or, not_not] at magic
    exact inv.loadSegments (fun i member => clear magic i (List.mem_range.mp member)) loop

/-- `SYS_EXEC` and `kernel_spawn_child`: the stack is above the identity map. -/
theorem Identity.loadProgram (inv : Identity s₀ s roots) {elf : ByteMemory}
    (clear : ElfClear s₀ elf) (done : loadProgram elf s = some t) : Identity s₀ t roots := by
  obtain ⟨r, loaded, after⟩ := Option.bind_eq_some_iff.mp done
  have inv' := inv.loadElf clear loaded
  split at after
  case isTrue => exact Option.some.inj after ▸ inv'
  case isFalse =>
    refine inv'.stack (fun va from_first more => .of_high s₀ ?_) after
    simp only [childStackBase, childStackSize] at *
    omega

end

end Flyos

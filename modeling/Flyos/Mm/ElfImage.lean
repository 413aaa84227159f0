import Flyos.Mm.SelfMapped

/-!
# The image of a program

A program describes an image: the bytes of its segments in the file, and zeros up to their
size in memory.  `user_load_elf` takes fresh pages for one segment after the other, so a page
that two segments share has the frame of the later one, which holds nothing of the earlier.

`loadSegments_puts` says what is at every address of a loaded program, and
`userLoadElf_image` when this is the image: no byte of a segment other than zero is in a page
of a later segment.
-/

namespace Flyos

open TableTree

variable {s t u z : Vmm} {vas : List Nat} {elf : ByteMemory} {ph : Phdr}

/-! ## Bytes at virtual addresses -/

/-- The byte at a virtual address. -/
def Vmm.readByte (s : Vmm) (virt : Nat) : Option Nat :=
  (pageAt s (path virt)).map fun f => byteIn s.mem f virt

/-- Two addresses of one byte: the same page, and the same place in it. -/
def SameByte (v w : Nat) : Prop := path v = path w ∧ v % pageSize = w % pageSize

/-- They agree in the bits that are translated. -/
theorem sameByte_iff (v w : Nat) : SameByte v w ↔ v % 2 ^ 48 = w % 2 ^ 48 := by
  rw [SameByte, path_eq_iff]
  simp only [pageNumber, pageSize]
  omega

/-- The address is in a page that is mapped for the segment. -/
def Phdr.Covers (ph : Phdr) (virt : Nat) : Prop := ∃ va ∈ ph.loadPages, path virt = path va

/-- **What a segment puts** at an address of its pages: the byte of the file that goes there,
or zero. -/
def Phdr.Puts (ph : Phdr) (elf : ByteMemory) (virt b : Nat) : Prop :=
  (∃ k < ph.pFilesz, SameByte virt (ph.address k) ∧ b = (ph.byte elf k).toNat) ∨
    (∀ k < ph.pFilesz, ¬ SameByte virt (ph.address k)) ∧ b = 0

/-- The bytes of a frame after a store of a byte. -/
theorem byteIn_storeByte (s : Vmm) (f g a v : Nat) (b : UInt8) :
    byteIn (s.set f (wordIdx a) (setByte (s.mem f (wordIdx a)) (a % 8) b)).mem g v =
      if g = f ∧ v % pageSize = a % pageSize then b.toNat else byteIn s.mem g v := by
  have place : v % pageSize = a % pageSize ↔ wordIdx v = wordIdx a ∧ v % 8 = a % 8 := by
    simp only [wordIdx, Fin.mk.injEq, pageSize]
    omega
  simp only [byteIn, Vmm.set, place]
  by_cases word : g = f ∧ wordIdx v = wordIdx a
  · obtain ⟨rfl, word⟩ := word
    simp only [word, and_self, if_true, true_and]
    by_cases byte : v % 8 = a % 8
    · rw [if_pos byte, byte, byteOf_setByte]
    · rw [if_neg byte, byteOf_setByte_of_ne byte]
  · have elsewhere : ¬ (g = f ∧ wordIdx v = wordIdx a ∧ v % 8 = a % 8) := fun all =>
      word ⟨all.1, all.2.1⟩
    simp only [if_neg word, if_neg elsewhere]

/-- The byte at an address after a store of a byte to a page of its own. -/
theorem Mapped.readByte_storeByte (mapped : Mapped s t vas) {a v : Nat}
    (dst : ∃ va ∈ vas, path a = path va) (here : ∃ va ∈ vas, path v = path va) (b : UInt8) :
    ∃ t', t.storeByte a b = some t' ∧ Mapped s t' vas ∧
      (SameByte v a → t'.readByte v = some b.toNat) ∧
      (¬ SameByte v a → t'.readByte v = t.readByte v) := by
  obtain ⟨va, member, same⟩ := dst
  obtain ⟨w, member', same'⟩ := here
  obtain ⟨f, found, -, fresh, data⟩ := mapped.frame va member
  obtain ⟨g, found', -⟩ := mapped.frame w member'
  rw [← same] at found
  rw [← same'] at found'
  obtain ⟨⟨-, -, pages⟩, -⟩ := set_data mapped.tree data (wordIdx a)
    (setByte (t.mem f (wordIdx a)) (a % 8) b)
  have frame : g = f ↔ path v = path a := by
    constructor
    · rintro rfl
      rw [same, same']
      refine mapped.own w member' va member ?_
      rw [← same, ← same', found, found']
    · intro eq
      rw [eq, found] at found'
      exact (Option.some.inj found').symm
  refine ⟨_, storeByte_eq found b, mapped.set fresh.1 data _ _, fun byte => ?_, fun byte => ?_⟩
  · rw [Vmm.readByte, pages, found', Option.map_some, byteIn_storeByte,
      if_pos ⟨frame.mpr byte.1, byte.2⟩]
  · rw [Vmm.readByte, pages, found', Option.map_some, byteIn_storeByte,
      if_neg fun both => byte ⟨frame.mp both.1, both.2⟩, Vmm.readByte, found', Option.map_some]

/-- **The bytes of a segment** are there when they were copied, and its pages hold what they
held elsewhere. -/
theorem Mapped.copyBytes_puts (elf : ByteMemory) (mapped : Mapped s t vas)
    (inside : ∀ k < ph.pFilesz, ∃ va ∈ vas, path (ph.address k) = path va)
    {v : Nat} (here : ∃ va ∈ vas, path v = path va) (zero : t.readByte v = some 0) :
    ∃ u, Flyos.copyBytes elf ph t = some u ∧ Mapped s u vas ∧
      ∃ b, u.readByte v = some b ∧ ph.Puts elf v b := by
  suffices upTo : ∀ n ≤ ph.pFilesz, ∃ u, (List.range n).foldlM
      (fun s k => s.storeByte (ph.address k) (ph.byte elf k)) t = some u ∧ Mapped s u vas ∧
        ∃ b, u.readByte v = some b ∧
          ((∃ k < n, SameByte v (ph.address k) ∧ b = (ph.byte elf k).toNat) ∨
            (∀ k < n, ¬ SameByte v (ph.address k)) ∧ b = 0) from
    upTo ph.pFilesz le_rfl
  intro n
  induction n with
  | zero => exact fun _ => ⟨t, rfl, mapped, 0, zero, .inr ⟨fun k none => by omega, rfl⟩⟩
  | succ n ih =>
      intro le
      obtain ⟨u, before, mapped', b, reads, earlier⟩ := ih (by omega)
      obtain ⟨u', stored, mapped'', new, old⟩ :=
        mapped'.readByte_storeByte (inside n (by omega)) here (ph.byte elf n)
      refine ⟨u', ?_, mapped'', ?_⟩
      · rw [List.range_succ, List.foldlM_append, before]
        simp only [List.foldlM_cons, List.foldlM_nil, Option.bind_eq_bind, Option.bind_some, stored]
        rfl
      by_cases same : SameByte v (ph.address n)
      · exact ⟨_, new same, .inl ⟨n, by omega, same, rfl⟩⟩
      refine ⟨b, (old same).trans reads, earlier.imp ?_ ?_⟩
      · rintro ⟨k, less, here, byte⟩
        exact ⟨k, by omega, here, byte⟩
      · rintro ⟨off, none⟩
        refine ⟨fun k less => ?_, none⟩
        rcases Nat.lt_succ_iff_lt_or_eq.mp less with less | rfl
        · exact off k less
        · exact same

/-! ## Pages of zeros -/

/-- **A page is mapped** to the frame that was taken for it, which stays as it is. -/
theorem Fetched.lands {phys : Nat} (got : Fetched s z phys) (tree : PageTree Entry s)
    (null : Taken s 0) {va : Nat} (flags : Nat) (room : mapNeed s [va] ≤ freePages s.pmm) :
    pageAt (vmmMap z va phys flags) (path va) = some phys ∧
      (vmmMap z va phys flags).mem phys = z.mem phys := by
  have data : ∀ q, z.table q ≠ some phys := fun q at_q =>
    got.fresh.1 (tree.inUse ((got.tables q).symm.trans at_q))
  rw [mapNeed, List.length_singleton] at room
  rcases vmmMap_cases got.keeps.tree (got.grown.taken 0 null) va phys flags with
    ⟨t, pt, makes, at_pt, eval⟩ | ⟨some, fewer, makes, empty⟩
  · rw [got.missing] at makes
    obtain ⟨k, eq, inRange⟩ := got.frame
    have clean : phys < 2 ^ 52 := by
      rw [eq]
      simp only [maxPages, pageSize] at *
      omega
    have whole : phys / pageSize * pageSize = phys := by
      rw [eq, Nat.mul_div_cancel k (by decide)]
    obtain ⟨-, -, found⟩ := makes.keeps.tree.write (e := pageEntry phys flags)
      (i := tableIdx va 12) at_pt rfl (entry_mapped flags clean)
    rw [show slot 3 (pageEntry phys flags) = _ from slot_mapped flags clean, whole] at found
    have unlike : phys ≠ pt := fun here => (makes.table at_pt).elim
      (fun old => data _ (here ▸ old)) fun free => free (here ▸ got.fresh.2)
    rw [eval]
    refine ⟨found, ?_⟩
    rw [(Grown.set makes.keeps.tree.pmm pt _ _).kept phys (makes.taken phys got.fresh.2)
      (by simpa using unlike), makes.kept phys got.fresh.2 data]
  · have more := Finset.card_lt_card fewer
    rw [got.missing] at more
    have free := makes.spent.free
    have free' := got.spent.free
    omega

/-- A page that is not mapped again keeps its bytes. -/
theorem Mapped.readByte_kept (mapped : Mapped s t vas) {v f : Nat}
    (off : ∀ va ∈ vas, path v ≠ path va) (found : pageAt s (path v) = some f) (used : Taken s f)
    (data : ∀ q, s.table q ≠ some f) : t.readByte v = s.readByte v := by
  rw [Vmm.readByte, Vmm.readByte, mapped.other v off, found, Option.map_some, Option.map_some,
    byteIn, byteIn, mapped.kept f used data]

/-- A page of zeros. -/
theorem readByte_zero {v f : Nat} (found : pageAt t (path v) = some f)
    (zero : t.mem f = fun _ => 0) : t.readByte v = some 0 := by
  rw [Vmm.readByte, found, Option.map_some, byteIn, zero, byteOf, Nat.zero_div]

/-- **The pages of a segment are zero** when they are mapped. -/
theorem elfPages_zero (tree : PageTree Entry s) (null : Taken s 0)
    (room : mapNeed s vas ≤ freePages s.pmm) {v : Nat} (here : ∃ va ∈ vas, path v = path va) :
    (runPages elfPage vas s).2.readByte v = some 0 := by
  induction vas generalizing s with
  | nil => exact absurd here (by simp)
  | cons va vas ih =>
      have room₁ : mapNeed s [va] ≤ freePages s.pmm := (mapNeed_append_le s [va] vas).trans room
      obtain ⟨goes, mapped⟩ := elfPage_fresh.mapped tree null room₁
      have rest : mapNeed (elfPage va s).2 vas ≤ freePages (elfPage va s).2.pmm := mapped.room room
      obtain ⟨-, more⟩ := runPages_mapped (fun va s => elfPage_fresh.mapped) mapped.tree
        (mapped.taken 0 null) rest
      rw [runPages, goes, if_pos rfl]
      by_cases again : ∃ w ∈ vas, path v = path w
      · exact ih mapped.tree (mapped.taken 0 null) rest again
      -- the page that was mapped first, and not again
      obtain ⟨w, member, same⟩ := here
      have first : w = va := (List.mem_cons.mp member).resolve_right fun mem =>
        again ⟨w, mem, same⟩
      subst first
      obtain ⟨f, found, -, fresh, data⟩ := mapped.frame w (List.mem_singleton_self w)
      rw [← same] at found
      rw [more.readByte_kept (fun x mem eq => again ⟨x, mem, eq⟩) found fresh.2 data]
      have page := page_of_room tree null room₁
      have got := fetched_zeroed tree null page
      obtain ⟨lands, bytes⟩ := got.lands tree null (vmmWritable ||| vmmUser) room₁
      have turn : (elfPage w s).2 = vmmMap (s.allocPage.2.zeroPage s.allocPage.1) w s.allocPage.1
          (vmmWritable ||| vmmUser) := by
        rw [elfPage]
        simp only [page, if_false]
      rw [turn]
      refine readByte_zero (by rw [same]; exact lands) ?_
      rw [bytes, Vmm.zeroPage, Vmm.fillPage]
      funext i
      exact if_pos rfl

/-! ## Segments -/

/-- **A segment is loaded**: every address of its pages holds what it puts there. -/
theorem loadSegment_puts (elf : ByteMemory) (tree : PageTree Entry s) (null : Taken s 0)
    (fits : ph.pType = ptLoad → ph.Fits) (room : mapNeed s ph.loadPages ≤ freePages s.pmm) :
    ∃ u, loadSegment elf ph s = some (true, u) ∧ Mapped s u ph.loadPages ∧
      ∀ v, ph.Covers v → ∃ b, u.readByte v = some b ∧ ph.Puts elf v b := by
  rw [loadSegment]
  by_cases load : ph.pType = ptLoad
  · have fits := fits load
    rw [if_neg (not_not.mpr load)]
    have pages : ph.loadPages = pagesBetween ph.pages.1 ph.pages.2 := if_pos load
    have ends : ph.pages.2 + pageSize ≤ 2 ^ 64 := by
      rw [fits.bounds.1]
      exact fits.bounds.2
    rw [pageLoop_eq ends (allPages_enough ends), ← pages, Option.bind_some]
    obtain ⟨done, mapped⟩ := runPages_mapped (fun va s => elfPage_fresh.mapped) tree null room
    have inside : ∀ k < ph.pFilesz, ∃ va ∈ ph.loadPages, path (ph.address k) = path va :=
      fun k less => fits.bytes load (Nat.lt_of_lt_of_le less fits.filesz)
    obtain ⟨u, copied, mapped'⟩ := mapped.copyBytes elf inside
    rw [if_pos done, copied]
    refine ⟨u, rfl, mapped', fun v here => ?_⟩
    obtain ⟨u', copied', -, puts⟩ := mapped.copyBytes_puts elf inside here
      (elfPages_zero tree null room here)
    obtain rfl := Option.some.inj (copied.symm.trans copied')
    exact puts
  · have none : ph.loadPages = [] := if_neg load
    rw [if_pos load, none]
    refine ⟨s, rfl, .refl tree, ?_⟩
    rintro v ⟨va, member, -⟩
    rw [none] at member
    cases member

/-- **All segments are loaded**: an address holds what the last segment puts there that has its
page. -/
theorem loadSegments_puts {is : List Nat} (tree : PageTree Entry s) (null : Taken s 0)
    (fits : ∀ i ∈ is, (phdr elf i).pType = ptLoad → (phdr elf i).Fits)
    (room : mapNeed s (is.flatMap fun i => (phdr elf i).loadPages) ≤ freePages s.pmm) :
    ∃ u, loadSegments elf is s = some (true, u) ∧
      Mapped s u (is.flatMap fun i => (phdr elf i).loadPages) ∧
      ∀ pre i post v, is = pre ++ i :: post → (phdr elf i).Covers v →
        (∀ j ∈ post, ¬ (phdr elf j).Covers v) →
        ∃ b, u.readByte v = some b ∧ (phdr elf i).Puts elf v b := by
  induction is generalizing s with
  | nil => exact ⟨s, rfl, .refl tree, fun pre i post v split => by simp at split⟩
  | cons i is ih =>
      rw [List.flatMap_cons] at room ⊢
      obtain ⟨t, one, mapped, puts⟩ := loadSegment_puts elf tree null
        (fits i List.mem_cons_self) ((mapNeed_append_le s _ _).trans room)
      obtain ⟨u, rest, more, later⟩ := ih mapped.tree (mapped.taken 0 null)
        (fun j mem => fits j (List.mem_cons_of_mem _ mem)) (mapped.room room)
      refine ⟨u, by rw [loadSegments, one, Option.bind_some, if_pos rfl, rest],
        mapped.trans more, fun pre j post v split covers last => ?_⟩
      cases pre with
      | cons _ pre => exact later pre j post v (List.cons.inj split).2 covers last
      | nil =>
          obtain ⟨rfl, rfl⟩ := List.cons.inj split
          obtain ⟨va, member, same⟩ := id covers
          obtain ⟨f, found, -, fresh, data⟩ := mapped.frame va member
          rw [← same] at found
          rw [more.readByte_kept (fun w mem eq => ?_) found fresh.2 data]
          · exact puts v covers
          · obtain ⟨k, inside, page⟩ := List.mem_flatMap.mp mem
            exact last k inside ⟨w, page, eq⟩

/-! ## The image of a program -/

/-- An address that the processor translates: its upper bits repeat bit 47. -/
def Canonical (virt : Nat) : Prop := virt < 2 ^ 47 ∨ 2 ^ 64 - 2 ^ 47 ≤ virt ∧ virt < 2 ^ 64

/-- Program header `i` is that of a segment to load. -/
def IsSegment (elf : ByteMemory) (i : Nat) : Prop := i < ePhnum elf ∧ (phdr elf i).pType = ptLoad

/-- **A well-formed program** of `size` bytes: its headers and the bytes of its segments are in
the file, and the segments are disjoint ranges of addresses. -/
structure WellFormed (elf : ByteMemory) (size : Nat) : Prop where
  magic : elf 0 = 0x7F ∧ elf 1 = 0x45 ∧ elf 2 = 0x4C ∧ elf 3 = 0x46
  headers : elf.load 32 8 + ePhnum elf * elf.load 54 2 ≤ size
  contents : ∀ i, IsSegment elf i → (phdr elf i).pOffset + (phdr elf i).pFilesz ≤ size
  filesz : ∀ i, IsSegment elf i → (phdr elf i).pFilesz ≤ (phdr elf i).pMemsz
  canonical : ∀ i, IsSegment elf i → ∀ k < (phdr elf i).pMemsz, Canonical ((phdr elf i).pVaddr + k)
  apart : ∀ i j, IsSegment elf i → IsSegment elf j → i ≠ j → ∀ k < (phdr elf i).pMemsz,
    ∀ l < (phdr elf j).pMemsz, (phdr elf i).pVaddr + k ≠ (phdr elf j).pVaddr + l

/-- Byte `k` of segment `i` of the image: a byte of the file, or zero behind them. -/
def imageByte (elf : ByteMemory) (i k : Nat) : Nat :=
  if k < (phdr elf i).pFilesz then ((phdr elf i).byte elf k).toNat else 0

/-- No segment reaches the last page of the addresses. -/
def BelowLastPage (elf : ByteMemory) : Prop :=
  ∀ i, IsSegment elf i → (phdr elf i).pVaddr + (phdr elf i).pMemsz + 0xFFF < 2 ^ 64

/-- Byte `k` of segment `i` is in a page of a later segment. -/
def Hidden (elf : ByteMemory) (i k : Nat) : Prop :=
  ∃ j, i < j ∧ IsSegment elf j ∧ (phdr elf j).Covers ((phdr elf i).address k)

/-- The headers behind header `j`. -/
theorem range_split {n j : Nat} (inside : j < n) :
    List.range n = List.range j ++ j :: List.range' (j + 1) (n - (j + 1)) := by
  have count : n = j + (n - (j + 1) + 1) := by omega
  rw [← List.range'_succ, List.range_eq_range', List.range_eq_range']
  conv_lhs => rw [count]
  rw [← List.range'_append_1, Nat.zero_add]

/-- A page that is mapped for a header is mapped for a segment. -/
theorem Phdr.Covers.load {v : Nat} (covers : ph.Covers v) : ph.pType = ptLoad := by
  by_contra other
  obtain ⟨va, page, -⟩ := covers
  rw [Phdr.loadPages, if_neg other] at page
  cases page

/-- The last segment that has the page of an address. -/
theorem exists_lastCover {i v : Nat} (segment : IsSegment elf i) (covers : (phdr elf i).Covers v) :
    ∃ j, i ≤ j ∧ IsSegment elf j ∧ (phdr elf j).Covers v ∧
      ∀ m, j < m → m < ePhnum elf → ¬ (phdr elf m).Covers v := by
  classical
  have inside := segment.1
  have le : i ≤ ePhnum elf - 1 := by omega
  have last := Nat.findGreatest_le (P := fun j => (phdr elf j).Covers v) (ePhnum elf - 1)
  have there := Nat.findGreatest_spec (P := fun j => (phdr elf j).Covers v) le covers
  refine ⟨_, Nat.le_findGreatest le covers, ⟨by omega, there.load⟩, there, fun m after below => ?_⟩
  exact Nat.findGreatest_is_greatest (P := fun j => (phdr elf j).Covers v) after (by omega)

section Image

variable {size : Nat}

/-- Different bytes of a program have different addresses. -/
theorem WellFormed.distinct (wf : WellFormed elf size) {i j k l : Nat} (segment : IsSegment elf i)
    (segment' : IsSegment elf j) (inside : k < (phdr elf i).pMemsz)
    (inside' : l < (phdr elf j).pMemsz)
    (same : SameByte ((phdr elf i).address k) ((phdr elf j).address l)) : i = j ∧ k = l := by
  have canonical := wf.canonical i segment k inside
  have canonical' := wf.canonical j segment' l inside'
  rw [sameByte_iff] at same
  have eq : (phdr elf i).pVaddr + k = (phdr elf j).pVaddr + l := by
    simp only [Phdr.address, Canonical] at *
    omega
  have one : i = j := by
    by_contra other
    exact wf.apart i j segment segment' other k inside l inside' eq
  subst one
  exact ⟨rfl, Nat.add_left_cancel eq⟩

/-- What a segment puts at an address of its own is the image. -/
theorem WellFormed.puts_own (wf : WellFormed elf size) {i k b : Nat} (segment : IsSegment elf i)
    (inside : k < (phdr elf i).pMemsz)
    (puts : (phdr elf i).Puts elf ((phdr elf i).address k) b) : b = imageByte elf i k := by
  have le := wf.filesz i segment
  rw [imageByte]
  rcases puts with ⟨l, less, same, rfl⟩ | ⟨off, rfl⟩
  · obtain ⟨-, rfl⟩ := wf.distinct segment segment inside (Nat.lt_of_lt_of_le less le) same
    rw [if_pos less]
  · rw [if_neg fun less => off k less ⟨rfl, rfl⟩]

/-- At an address of another segment it puts zero. -/
theorem WellFormed.puts_other (wf : WellFormed elf size) {i j k b : Nat}
    (segment : IsSegment elf i) (segment' : IsSegment elf j) (other : i ≠ j)
    (inside : k < (phdr elf i).pMemsz)
    (puts : (phdr elf j).Puts elf ((phdr elf i).address k) b) : b = 0 := by
  rcases puts with ⟨l, less, same, -⟩ | ⟨-, none⟩
  · have inside' := Nat.lt_of_lt_of_le less (wf.filesz j segment')
    exact absurd (wf.distinct segment segment' inside inside' same).1 other
  · exact none

/-- **What a loaded program leaves in memory**: the bytes of its image, and zeros where a later
segment has the page. -/
theorem WellFormed.load (wf : WellFormed elf size) (below : BelowLastPage elf)
    (tree : PageTree Entry s) (null : Taken s 0) (self : SelfMapped s (loadPages elf))
    (room : mapNeed s (loadPages elf) ≤ freePages s.pmm) :
    ∃ t, Translated.userLoadElf elf s = some (eEntry elf, t) ∧
      ∀ i, IsSegment elf i → ∀ k < (phdr elf i).pMemsz,
        (Hidden elf i k → t.readByte ((phdr elf i).address k) = some 0) ∧
        (¬ Hidden elf i k → t.readByte ((phdr elf i).address k) = some (imageByte elf i k)) := by
  have fits : ∀ i, IsSegment elf i → (phdr elf i).Fits := fun i segment =>
    ⟨wf.filesz i segment, below i segment⟩
  obtain ⟨t, loaded, -, puts⟩ := loadSegments_puts tree null
    (fun i mem load => fits i ⟨List.mem_range.mp mem, load⟩) room
  refine ⟨t, ?_, fun i segment k inside => ?_⟩
  · obtain ⟨m₀, m₁, m₂, m₃⟩ := wf.magic
    rw [self.userLoadElf_eq tree null (fun va member => member)
      (fun i inside load => fits i ⟨inside, load⟩) room, userLoadElf,
      if_neg (by simp [m₀, m₁, m₂, m₃]), loaded]
    rfl
  obtain ⟨j, after, segment', covers, last⟩ :=
    exists_lastCover segment ((fits i segment).bytes segment.2 inside)
  obtain ⟨b, reads, put⟩ := puts _ j _ _ (range_split segment'.1) covers fun m mem => by
    rw [List.mem_range'_1] at mem
    exact last m (by omega) (by omega)
  refine ⟨fun hidden => ?_, fun alone => ?_⟩
  · obtain ⟨m, later, segment'', hides⟩ := hidden
    have other : i ≠ j := fun same => last m (same ▸ later) segment''.1 hides
    rw [← wf.puts_other segment segment' other inside put]
    exact reads
  · rcases Nat.eq_or_lt_of_le after with rfl | before
    · rw [← wf.puts_own segment inside put]
      exact reads
    · exact absurd ⟨j, before, segment', covers⟩ alone

end Image

/-! ## Two programs -/

end Flyos

import Flyos.Drivers.Framebuffer
import Flyos.Lib.StepWalk
import Flyos.Mm.PmmInit

/-!
# The walks over the boot information

`pmm_init` of `kernel/mm/pmm.c` goes twice over the tags that the boot loader left, `fb_init` of
`kernel/drivers/fb.c` once.  Here the three loops run with every read checked against the block
and every divisor against 0.  `bootInfo_safe_iff` says for which blocks nothing goes wrong, and
`pmmInitLoops_eq` that the two passes then do what `pmmInit` does.

The block does not overlap the kernel, so that the bitmap and `fbi`, which the loops write, are
not part of it.  It lies below `2 ^ 33`, and sums of pointers into it do not wrap; the sums and
differences of sizes are 32-bit and do.
-/

namespace Flyos

/-- What a loop over the tags can do wrong. -/
inductive BootFault where
  | outside
  | divByZero
  | endless
  deriving DecidableEq

/-- The memory, and `mb_info_phys`. -/
structure BootInfo where
  mem : ByteMemory
  mbInfo : Nat

/-- `fb_info_t`. -/
structure FbState extends FbMode where
  addr : UInt64

/-- `(tag->size + 7) & ~7U`. -/
def tagStep (size : Nat) : Nat := (size + 7) % 2 ^ 32 / 8 * 8

/-- `(mm->size - 16) / mm->entry_size`. -/
def entryCount (size entrySize : Nat) : Nat := (size + 2 ^ 32 - 16) % 2 ^ 32 / entrySize

namespace BootInfo

variable (b : BootInfo) {σ : Type}

/-- `end`: the block is as long as its first word says. -/
def limit : Nat := b.mbInfo + mbSize b.mem b.mbInfo

/-- A read of `k` bytes. -/
def read (a k : Nat) : Except BootFault Nat :=
  if b.mbInfo ≤ a ∧ a + k ≤ b.limit then .ok (b.mem.load a k) else .error .outside

/-! ## The loop over the tags -/

/-- The body of `while (p < end)`, with `visit` for the tags of type `kind`. -/
def tagTurn (kind : Nat) (visit : Nat → σ → Except BootFault σ) (p : Nat) (s : σ) :
    Except BootFault (σ × Option Nat) := do
  let type ← b.read p 4
  if type = 0 then .ok (s, none)
  else do
    let s ← (if type = kind then visit p s else .ok s)
    let size ← b.read (p + 4) 4
    .ok (s, some (p + tagStep size))

/-- `while (p < end)`. -/
def tagLoop (kind : Nat) (visit : Nat → σ → Except BootFault σ) (fuel : Nat) (s : σ) :
    Except BootFault σ :=
  stepWalk (b.tagTurn kind visit) .endless b.limit fuel (b.mbInfo + 8) s

/-! ## `pmm_init` -/

/-- One entry: `use` if it is available. -/
def visitEntry (use : MmapEntry → σ → Except BootFault σ) (e : Nat) (s : σ) :
    Except BootFault σ := do
  let type ← b.read (e + 16) 4
  if type = 1 then do
    let addr ← b.read e 8
    let len ← b.read (e + 8) 8
    use ⟨addr, len, type⟩ s
  else .ok s

/-- `for (i = 0; i < n; i++)`, from the entry at `e` on. -/
def visitEntries (use : MmapEntry → σ → Except BootFault σ) (entrySize : Nat) :
    Nat → Nat → σ → Except BootFault σ
  | 0, _, s => .ok s
  | n + 1, e, s => do
      let s ← b.visitEntry use e s
      visitEntries use entrySize n (e + entrySize) s

/-- A memory map tag. -/
def visitMmap (use : MmapEntry → σ → Except BootFault σ) (p : Nat) (s : σ) :
    Except BootFault σ := do
  let size ← b.read (p + 4) 4
  let entrySize ← b.read (p + 8) 4
  if entrySize = 0 then .error .divByZero
  else b.visitEntries use entrySize (entryCount size entrySize) (p + 16) s

/-- An entry in the first pass. -/
def useMax (e : MmapEntry) (m : Nat) : Except BootFault Nat := .ok (maxAddr m e)

/-- An entry in the second pass. -/
def useFree (e : MmapEntry) (p : Pmm) : Except BootFault Pmm :=
  match freeEntry p e with
  | none => .error .endless
  | some p => .ok p

/-- The first pass: `max_addr`. -/
def firstPass (fuel : Nat) : Except BootFault Nat := b.tagLoop 6 (b.visitMmap useMax) fuel 0

/-- The second pass. -/
def secondPass (fuel : Nat) (p : Pmm) : Except BootFault Pmm :=
  b.tagLoop 6 (b.visitMmap useFree) fuel p

/-- `pmm_init`, up to the end of the second pass. -/
def pmmInitLoops (fuel : Nat) : Except BootFault Pmm := do
  let m ← b.firstPass fuel
  b.secondPass fuel (allUsed (min m maxMemory / pageSize))

/-! ## `fb_init` -/

/-- A framebuffer tag. -/
def visitFramebuffer (p : Nat) (fb : FbState) : Except BootFault FbState := do
  let addr ← b.read (p + 8) 8
  let pitch ← b.read (p + 16) 4
  let width ← b.read (p + 20) 4
  let height ← b.read (p + 24) 4
  let bpp ← b.read (p + 28) 1
  let fbType ← b.read (p + 29) 1
  let fb := { fb with addr := .ofNat addr, pitch := .ofNat pitch, width := .ofNat width
                      height := .ofNat height, bpp := .ofNat bpp }
  if fbType = 1 then do
    let rPos ← b.read (p + 32) 1
    let rSize ← b.read (p + 33) 1
    let gPos ← b.read (p + 34) 1
    let gSize ← b.read (p + 35) 1
    let bPos ← b.read (p + 36) 1
    let bSize ← b.read (p + 37) 1
    .ok { fb with rPos := .ofNat rPos, rSize := .ofNat rSize, gPos := .ofNat gPos
                  gSize := .ofNat gSize, bPos := .ofNat bPos, bSize := .ofNat bSize }
  else .ok fb

/-- `fb_init`, the loop.  `fbi` is zero before it. -/
def fbInitLoop (fuel : Nat) : Except BootFault FbState :=
  b.tagLoop 8 b.visitFramebuffer fuel ⟨⟨0, 0, 0, 0, 0, 0, 0, 0, 0, 0⟩, 0⟩

/-- **Nothing goes wrong**: the loops end, without a division by 0 and a read outside the
block. -/
def Safe : Prop :=
  (∃ fuel, Completes (b.pmmInitLoops fuel)) ∧ ∃ fuel, Completes (b.fbInitLoop fuel)

/-! ## Blocks that fit -/

/-- `tag->type`. -/
def typeAt (p : Nat) : Nat := b.mem.load p 4

/-- `tag->size`. -/
def sizeAt (p : Nat) : Nat := b.mem.load (p + 4) 4

/-- `mm->entry_size`. -/
def entrySizeAt (p : Nat) : Nat := b.mem.load (p + 8) 4

/-- Where the next tag is. -/
def nextTag (p : Nat) : Option Nat :=
  if b.typeAt p = 0 then none else some (p + tagStep (b.sizeAt p))

/-- A place of a tag: the first one, and those that the sizes of the tags lead to. -/
def Visited (p : Nat) : Prop :=
  Relation.ReflTransGen (Onward b.nextTag b.limit) (b.mbInfo + 8) p ∧ p < b.limit

/-- The entries of a memory map tag are in the block. -/
structure MmapFits (p : Nat) : Prop where
  header : p + 12 ≤ b.limit
  positive : b.entrySizeAt p ≠ 0
  last : entryCount (b.sizeAt p) (b.entrySizeAt p) ≠ 0 →
    p + 16 + (entryCount (b.sizeAt p) (b.entrySizeAt p) - 1) * b.entrySizeAt p + 20 ≤ b.limit

/-- The fields of a framebuffer tag are in the block. -/
structure FramebufferFits (p : Nat) : Prop where
  fields : p + 30 ≤ b.limit
  colors : b.mem.load (p + 29) 1 = 1 → p + 38 ≤ b.limit

/-- A tag is in the block and does not lead back to itself. -/
structure TagFits (p : Nat) : Prop where
  type : p + 4 ≤ b.limit
  size : b.typeAt p ≠ 0 → p + 8 ≤ b.limit ∧ tagStep (b.sizeAt p) ≠ 0
  mmap : b.typeAt p = 6 → b.MmapFits p
  framebuffer : b.typeAt p = 8 → b.FramebufferFits p

/-! ## When the loops give a result -/

variable {b} {r : Except BootFault σ}

/-- What follows a read gives a result when the bytes are in the block and the rest does. -/
theorem read_bind_completes {α : Type} {a k : Nat} {f : Nat → Except BootFault α}
    (low : b.mbInfo ≤ a) :
    Completes (b.read a k >>= f) ↔ a + k ≤ b.limit ∧ Completes (f (b.mem.load a k)) := by
  by_cases inside : a + k ≤ b.limit
  · have read : b.read a k = .ok (b.mem.load a k) := if_pos ⟨low, inside⟩
    rw [bind_of_ok read]
    exact (and_iff_right inside).symm
  · have read : b.read a k = .error .outside := if_neg fun both => inside both.2
    rw [bind_completes_iff, read]
    constructor
    · rintro ⟨a, eq, -⟩
      cases eq
    · exact fun both => absurd both.1 inside

/-- A read that succeeds gives the bytes. -/
theorem eq_of_read_bind {α : Type} {a k : Nat} {f : Nat → Except BootFault α} {v : α}
    (run : b.read a k >>= f = .ok v) : f (b.mem.load a k) = .ok v := by
  obtain ⟨x, read, rest⟩ := bind_eq_ok_iff.mp run
  rw [BootInfo.read] at read
  split at read
  · cases read
    exact rest
  · cases read

/-- **What the body of a loop does with a tag of its type**: its place settles whether it
succeeds. -/
structure VisitSpec (b : BootInfo) (visit : Nat → σ → Except BootFault σ) (Fits : Nat → Prop)
    (Inv : σ → Prop) : Prop where
  completes : ∀ {p s}, b.mbInfo ≤ p → Inv s → (Completes (visit p s) ↔ Fits p)
  keeps : ∀ {p s t}, Inv s → visit p s = .ok t → Inv t

/-- A tag that a loop for the tags of type `kind` gets past. -/
structure KindFits (b : BootInfo) (kind : Nat) (Fits : Nat → Prop) (p : Nat) : Prop where
  type : p + 4 ≤ b.limit
  size : b.typeAt p ≠ 0 → p + 8 ≤ b.limit
  fits : b.typeAt p = kind → Fits p

variable {kind : Nat} {visit : Nat → σ → Except BootFault σ} {Fits : Nat → Prop} {Inv : σ → Prop}

theorem VisitSpec.turn (spec : VisitSpec b visit Fits Inv) (named : kind ≠ 0) :
    TurnSpec (b.tagTurn kind visit) b.limit b.mbInfo b.nextTag (b.KindFits kind Fits) Inv where
  completes := by
    intro p s low _ inv
    rw [tagTurn, read_bind_completes low]
    by_cases last : b.mem.load p 4 = 0
    · rw [if_pos last]
      constructor
      · rintro ⟨type, -⟩
        exact ⟨type, fun more => absurd last more, fun here => absurd (here.symm.trans last) named⟩
      · exact fun fits => ⟨fits.type, completes_ok _⟩
    · have header : ∀ t : σ, Completes (b.read (p + 4) 4 >>= fun size =>
          (.ok (t, some (p + tagStep size)) : Except BootFault (σ × Option Nat))) ↔
          p + 8 ≤ b.limit := fun t => by
        rw [read_bind_completes (Nat.le_add_right_of_le low)]
        exact and_iff_left (completes_ok _)
      rw [if_neg last, bind_completes_iff]
      simp only [header]
      by_cases here : b.mem.load p 4 = kind
      · rw [if_pos here]
        constructor
        · rintro ⟨type, t, visited, size⟩
          exact ⟨type, fun _ => size, fun _ => (spec.completes low inv).mp ⟨t, visited⟩⟩
        · intro fits
          obtain ⟨t, visited⟩ := (spec.completes low inv).mpr (fits.fits here)
          exact ⟨fits.type, t, visited, fits.size last⟩
      · rw [if_neg here]
        constructor
        · rintro ⟨type, -, -, size⟩
          exact ⟨type, fun _ => size, fun other => absurd other here⟩
        · exact fun fits => ⟨fits.type, s, rfl, fits.size last⟩
  keeps := by
    intro p s t q inv one
    rw [tagTurn] at one
    have run := eq_of_read_bind one
    by_cases last : b.mem.load p 4 = 0
    · rw [if_pos last] at run
      cases run
      exact ⟨(if_pos last).symm, inv⟩
    · rw [if_neg last] at run
      obtain ⟨u, visited, rest⟩ := bind_eq_ok_iff.mp run
      have named := eq_of_read_bind rest
      cases named
      refine ⟨(if_neg last).symm, ?_⟩
      split at visited
      · exact spec.keeps inv visited
      · cases visited
        exact inv
  onward := by
    intro p q next
    rw [nextTag] at next
    split at next
    · cases next
    · cases next
      exact Nat.le_add_right _ _

/-- A tag leads to another place unless its step is 0. -/
theorem nextTag_ne_iff {p : Nat} :
    b.nextTag p ≠ some p ↔ (b.typeAt p ≠ 0 → tagStep (b.sizeAt p) ≠ 0) := by
  unfold nextTag
  by_cases last : b.typeAt p = 0
  · simp [last]
  · simp [last]

/-- **When a loop over the tags gives a result.** -/
theorem tagLoop_completes_iff (spec : VisitSpec b visit Fits Inv) (named : kind ≠ 0) {s : σ}
    (inv : Inv s) :
    (∃ fuel, Completes (b.tagLoop kind visit fuel s)) ↔ ∀ p, b.Visited p →
      b.KindFits kind Fits p ∧ (b.typeAt p ≠ 0 → tagStep (b.sizeAt p) ≠ 0) := by
  refine (stepWalk_completes_iff (spec.turn named) (Nat.le_add_right _ _) inv).trans ?_
  simp only [Visited, and_imp, nextTag_ne_iff]

/-- So many turns are enough. -/
theorem tagLoop_ok (spec : VisitSpec b visit Fits Inv) (named : kind ≠ 0) {s : σ} (inv : Inv s)
    {fuel : Nat} (enough : mbSize b.mem b.mbInfo < fuel)
    (fits : ∀ p, b.Visited p →
      b.KindFits kind Fits p ∧ (b.typeAt p ≠ 0 → tagStep (b.sizeAt p) ≠ 0)) :
    ∃ t, b.tagLoop kind visit fuel s = .ok t ∧ Inv t :=
  stepWalk_ok (spec.turn named) (Nat.le_add_right _ _) inv (by simp only [limit]; omega)
    fun p reached inside => (fits p ⟨reached, inside⟩).imp_right nextTag_ne_iff.mpr

/-! ## The memory map -/

/-- What a pass does with an available entry always succeeds. -/
structure UseSpec (use : MmapEntry → σ → Except BootFault σ) (Inv : σ → Prop) : Prop where
  ok : ∀ e {s}, Inv s → ∃ t, use e s = .ok t ∧ Inv t

variable {use : MmapEntry → σ → Except BootFault σ}

theorem visitEntry_completes (spec : UseSpec use Inv) {e : Nat} {s : σ} (low : b.mbInfo ≤ e)
    (inv : Inv s) : Completes (b.visitEntry use e s) ↔ e + 20 ≤ b.limit := by
  rw [visitEntry, read_bind_completes (Nat.le_add_right_of_le low), Nat.add_assoc]
  refine and_iff_left_of_imp fun inside => ?_
  by_cases available : b.mem.load (e + 16) 4 = 1
  · rw [if_pos available, read_bind_completes low,
      read_bind_completes (Nat.le_add_right_of_le low)]
    obtain ⟨t, used, -⟩ := spec.ok ⟨b.mem.load e 8, b.mem.load (e + 8) 8, _⟩ inv
    exact ⟨by omega, by omega, t, used⟩
  · rw [if_neg available]
    exact completes_ok s

theorem visitEntry_keeps (spec : UseSpec use Inv) {e : Nat} {s t : σ} (inv : Inv s)
    (run : b.visitEntry use e s = .ok t) : Inv t := by
  have rest := eq_of_read_bind run
  split at rest
  · obtain ⟨u, used, inv'⟩ := spec.ok _ inv
    cases used.symm.trans (eq_of_read_bind (eq_of_read_bind rest))
    exact inv'
  · cases rest
    exact inv

/-- The loop over the entries. -/
theorem visitEntries_completes (spec : UseSpec use Inv) {entrySize : Nat} (n : Nat) {e : Nat}
    {s : σ} (low : b.mbInfo ≤ e) (inv : Inv s) :
    Completes (b.visitEntries use entrySize n e s) ↔
      ∀ i < n, e + i * entrySize + 20 ≤ b.limit := by
  induction n generalizing e s with
  | zero => simpa [visitEntries] using completes_ok s
  | succ n ih =>
      have place : ∀ i, e + (i + 1) * entrySize + 20 = e + entrySize + i * entrySize + 20 := by
        intro i
        rw [Nat.succ_mul]
        omega
      rw [visitEntries, bind_completes_iff, Nat.forall_lt_succ_left', Nat.zero_mul, Nat.add_zero]
      simp only [place]
      constructor
      · rintro ⟨t, one, rest⟩
        exact ⟨(visitEntry_completes spec low inv).mp ⟨t, one⟩,
          (ih (Nat.le_add_right_of_le low) (visitEntry_keeps spec inv one)).mp rest⟩
      · rintro ⟨first, others⟩
        obtain ⟨t, one⟩ := (visitEntry_completes spec low inv).mpr first
        exact ⟨t, one,
          (ih (Nat.le_add_right_of_le low) (visitEntry_keeps spec inv one)).mpr others⟩

theorem visitEntries_keeps (spec : UseSpec use Inv) {entrySize : Nat} (n : Nat) {e : Nat}
    {s t : σ} (inv : Inv s) (run : b.visitEntries use entrySize n e s = .ok t) : Inv t := by
  induction n generalizing e s with
  | zero =>
      cases run
      exact inv
  | succ n ih =>
      obtain ⟨u, one, rest⟩ := bind_eq_ok_iff.mp run
      exact ih (visitEntry_keeps spec inv one) rest

/-- The entries are in the block when the last one is. -/
theorem forall_entry_iff {n p entrySize limit : Nat} :
    (∀ i < n, p + i * entrySize + 20 ≤ limit) ↔
      (n ≠ 0 → p + (n - 1) * entrySize + 20 ≤ limit) := by
  constructor
  · intro all some_
    exact all (n - 1) (by omega)
  · intro last i lt
    have before : i * entrySize ≤ (n - 1) * entrySize := Nat.mul_le_mul_right _ (by omega)
    have fits := last (by omega)
    omega

theorem visitMmap_spec (spec : UseSpec use Inv) :
    VisitSpec b (b.visitMmap use) b.MmapFits Inv where
  completes := by
    intro p s low inv
    rw [visitMmap, read_bind_completes (Nat.le_add_right_of_le low),
      read_bind_completes (Nat.le_add_right_of_le low)]
    by_cases zero : b.mem.load (p + 8) 4 = 0
    · rw [if_pos zero]
      constructor
      · rintro ⟨-, -, completes⟩
        exact absurd completes (not_completes_error _)
      · exact fun fits => absurd zero fits.positive
    · rw [if_neg zero, visitEntries_completes spec _ (Nat.le_add_right_of_le low) inv,
        forall_entry_iff]
      constructor
      · rintro ⟨-, header, last⟩
        exact ⟨header, zero, last⟩
      · rintro ⟨header, -, last⟩
        exact ⟨by omega, header, last⟩
  keeps := by
    intro p s t inv run
    have rest := eq_of_read_bind (eq_of_read_bind run)
    split at rest
    · cases rest
    · exact visitEntries_keeps spec _ inv rest

/-- The first pass. -/
theorem useMax_spec : UseSpec useMax fun _ => True := ⟨fun e m _ => ⟨maxAddr m e, rfl, trivial⟩⟩

/-- The second pass: the loop over the pages of an entry ends. -/
theorem useFree_spec : UseSpec useFree fun p => p.totalPages ≤ maxPages where
  ok := by
    intro e p total
    obtain ⟨q, ran, marks⟩ := freeEntry_spec p total e
    refine ⟨q, ?_, marks.total ▸ total⟩
    rw [useFree, ran]

/-! ## The framebuffer -/

theorem visitFramebuffer_spec :
    VisitSpec b b.visitFramebuffer b.FramebufferFits fun _ => True where
  completes := by
    intro p fb low _
    have above : ∀ k, b.mbInfo ≤ p + k := fun k => Nat.le_add_right_of_le low
    unfold visitFramebuffer
    simp only [read_bind_completes (above _)]
    by_cases colors : b.mem.load (p + 29) 1 = 1
    · simp only [if_pos colors, read_bind_completes (above _)]
      constructor
      · rintro ⟨-, -, -, -, -, fields, -, -, -, -, -, last, -⟩
        exact ⟨fields, fun _ => last⟩
      · intro fits
        have last := fits.colors colors
        exact ⟨by omega, by omega, by omega, by omega, by omega, by omega, by omega, by omega,
          by omega, by omega, by omega, last, completes_ok _⟩
    · simp only [if_neg colors]
      constructor
      · rintro ⟨-, -, -, -, -, fields, -⟩
        exact ⟨fields, fun one => absurd one colors⟩
      · rintro ⟨fields, -⟩
        exact ⟨by omega, by omega, by omega, by omega, by omega, fields, completes_ok _⟩
  keeps := fun _ _ => trivial

/-! ## Safe blocks -/

/-- The pages that `pmm_init` counts are managed. -/
theorem allUsed_total (m : Nat) :
    (allUsed (min m maxMemory / pageSize)).totalPages ≤ maxPages := by
  change min m maxMemory / pageSize ≤ maxPages
  simp only [maxPages, maxMemory, pageSize]
  omega

/-- With so many turns both passes end. -/
theorem pmmInitLoops_ok {fuel : Nat} (enough : mbSize b.mem b.mbInfo < fuel)
    (fits : ∀ p, b.Visited p →
      b.KindFits 6 b.MmapFits p ∧ (b.typeAt p ≠ 0 → tagStep (b.sizeAt p) ≠ 0)) :
    ∃ m q, b.firstPass fuel = .ok m ∧
      b.secondPass fuel (allUsed (min m maxMemory / pageSize)) = .ok q := by
  obtain ⟨m, first, -⟩ := tagLoop_ok (visitMmap_spec useMax_spec) (by decide) trivial enough fits
  obtain ⟨q, second, -⟩ :=
    tagLoop_ok (visitMmap_spec useFree_spec) (by decide) (allUsed_total m) enough fits
  exact ⟨m, q, first, second⟩

theorem pmmInitLoops_completes_iff : (∃ fuel, Completes (b.pmmInitLoops fuel)) ↔
    ∀ p, b.Visited p →
      b.KindFits 6 b.MmapFits p ∧ (b.typeAt p ≠ 0 → tagStep (b.sizeAt p) ≠ 0) := by
  constructor
  · rintro ⟨fuel, completes⟩
    obtain ⟨m, first, -⟩ := bind_completes_iff.mp completes
    exact (tagLoop_completes_iff (visitMmap_spec useMax_spec) (by decide) trivial).mp
      ⟨fuel, m, first⟩
  · intro fits
    obtain ⟨m, q, first, second⟩ := pmmInitLoops_ok (Nat.lt_succ_self _) fits
    exact ⟨_, bind_completes_iff.mpr ⟨m, first, q, second⟩⟩

theorem fbInitLoop_completes_iff : (∃ fuel, Completes (b.fbInitLoop fuel)) ↔
    ∀ p, b.Visited p →
      b.KindFits 8 b.FramebufferFits p ∧ (b.typeAt p ≠ 0 → tagStep (b.sizeAt p) ≠ 0) :=
  tagLoop_completes_iff visitFramebuffer_spec (by decide) trivial

/-- **When the walks over the boot information are safe**: the tags that the sizes lead to are in
the block, lead on, and what each loop reads of them is in the block.  `pmm_init` and `fb_init`
walk over the same tags with the same loop and differ in the tag they read; the loop is
characterised once, for any such read (`tagLoop_completes_iff`), and the condition is about the
bytes of the block only. -/
theorem bootInfo_safe_iff (b : BootInfo) : b.Safe ↔ ∀ p, b.Visited p → b.TagFits p := by
  rw [Safe, pmmInitLoops_completes_iff, fbInitLoop_completes_iff]
  constructor
  · rintro ⟨pmm, fb⟩ p visited
    obtain ⟨map, moves⟩ := pmm p visited
    obtain ⟨framebuffer, -⟩ := fb p visited
    exact ⟨map.type, fun more => ⟨map.size more, moves more⟩, map.fits, framebuffer.fits⟩
  · intro fits
    constructor
    · intro p visited
      have tag := fits p visited
      exact ⟨⟨tag.type, fun more => (tag.size more).1, tag.mmap⟩, fun more => (tag.size more).2⟩
    · intro p visited
      have tag := fits p visited
      exact ⟨⟨tag.type, fun more => (tag.size more).1, tag.framebuffer⟩,
        fun more => (tag.size more).2⟩

/-- A tag of type 1 and size 0, in a block of 24 bytes. -/
def zeroTag : BootInfo :=
  ⟨fun a => if a = 0x10000 then 24 else if a = 0x10008 then 1 else 0, 0x10000⟩

/-- Every loop stays at this tag. -/
theorem zeroTag_not_safe : ¬ zeroTag.Safe := by
  rintro ⟨-, ends⟩
  have first : zeroTag.Visited (zeroTag.mbInfo + 8) := ⟨.refl, by decide⟩
  have moves := fbInitLoop_completes_iff.mp ends _ first
  exact moves.2 (by decide) (by decide)

/-! ## The passes compute what `pmmInit` does -/

/-- What a pass does with an entry of the memory map. -/
def ifAvailable (use : MmapEntry → σ → Except BootFault σ) (s : σ) (e : MmapEntry) :
    Except BootFault σ :=
  if e.type = 1 then use e s else .ok s

theorem visitEntry_eq {e : Nat} {s t : σ} (run : b.visitEntry use e s = .ok t) :
    ifAvailable use s ⟨b.mem.load e 8, b.mem.load (e + 8) 8, b.mem.load (e + 16) 4⟩ = .ok t := by
  have rest := eq_of_read_bind run
  unfold ifAvailable
  split at rest
  · rename_i available
    rw [if_pos available]
    exact eq_of_read_bind (eq_of_read_bind rest)
  · rename_i other
    rwa [if_neg other]

theorem visitEntries_eq {entrySize : Nat} (n : Nat) {e : Nat} {s t : σ}
    (run : b.visitEntries use entrySize n e s = .ok t) :
    (mmapEntries b.mem entrySize e n).foldlM (ifAvailable use) s = .ok t := by
  induction n generalizing e s with
  | zero => exact run
  | succ n ih =>
      obtain ⟨u, one, rest⟩ := bind_eq_ok_iff.mp run
      rw [mmapEntries, List.foldlM_cons, bind_of_ok (visitEntry_eq one)]
      exact ih rest

theorem visitMmap_eq {p : Nat} {s t : σ} (run : b.visitMmap use p s = .ok t) :
    ∃ entries, mmapTag b.mem p = some entries ∧
      entries.foldlM (ifAvailable use) s = .ok t := by
  have rest := eq_of_read_bind (eq_of_read_bind run)
  unfold mmapTag
  split at rest
  · cases rest
  · rename_i positive
    exact ⟨_, if_neg positive, visitEntries_eq _ rest⟩

/-- A pass that comes to its end performs its step for the entries that `mbTags` lists. -/
theorem passes_mbTags (fuel : Nat) {p : Nat} {s t : σ}
    (run : stepWalk (b.tagTurn 6 (b.visitMmap use)) .endless b.limit fuel p s = .ok t) :
    ∃ entries, mbTags b.mem b.limit fuel p = some entries ∧
      entries.foldlM (ifAvailable use) s = .ok t := by
  induction fuel generalizing p s with
  | zero => cases run
  | succ fuel ih =>
      rw [stepWalk] at run
      rw [mbTags]
      by_cases inside : p < b.limit
      swap
      · rw [if_neg inside] at run ⊢
        exact ⟨[], rfl, run⟩
      rw [if_pos inside] at run ⊢
      obtain ⟨⟨u, q⟩, one, rest⟩ := bind_eq_ok_iff.mp run
      have turn := eq_of_read_bind one
      by_cases last : b.mem.load p 4 = 0
      · rw [if_pos last] at turn ⊢
        cases turn
        exact ⟨[], rfl, rest⟩
      · rw [if_neg last] at turn ⊢
        obtain ⟨v, visited, size⟩ := bind_eq_ok_iff.mp turn
        cases eq_of_read_bind size
        obtain ⟨later, tags, after⟩ := ih rest
        obtain ⟨here, tag, first⟩ : ∃ entries,
            (if b.mem.load p 4 = 6 then mmapTag b.mem p else some []) = some entries ∧
              entries.foldlM (ifAvailable use) s = .ok u := by
          by_cases map : b.mem.load p 4 = 6
          · rw [if_pos map] at visited ⊢
            exact visitMmap_eq visited
          · rw [if_neg map] at visited ⊢
            exact ⟨[], rfl, visited⟩
        refine ⟨here ++ later, ?_, ?_⟩
        · rw [tag, Option.bind_some]
          change Option.map _ (mbTags b.mem b.limit fuel (p + tagStep _)) = _
          rw [tags, Option.map_some]
        · rw [List.foldlM_append, bind_of_ok first]
          exact after

theorem foldlM_useMax (entries : List MmapEntry) (m : Nat) :
    entries.foldlM (ifAvailable useMax) m = .ok (entries.foldl maxAddr m) := by
  induction entries generalizing m with
  | nil => rfl
  | cons e entries ih =>
      have one : ifAvailable useMax m e = .ok (maxAddr m e) := by
        unfold ifAvailable
        split
        · rfl
        · rename_i other
          rw [maxAddr, if_neg fun both => other both.1]
      rw [List.foldlM_cons, bind_of_ok one, ih, List.foldl_cons]

theorem foldlM_useFree (entries : List MmapEntry) {p q : Pmm}
    (run : entries.foldlM (ifAvailable useFree) p = .ok q) :
    entries.foldlM freeEntry p = some q := by
  induction entries generalizing p with
  | nil =>
      cases run
      rfl
  | cons e entries ih =>
      rw [List.foldlM_cons] at run ⊢
      obtain ⟨u, one, rest⟩ := bind_eq_ok_iff.mp run
      have here : freeEntry p e = some u := by
        unfold ifAvailable useFree at one
        split at one
        · split at one
          · cases one
          · rename_i freed
            cases one
            exact freed
        · rename_i other
          cases one
          exact if_neg other
      rw [here]
      exact ih rest

/-- **On a safe block the checked passes do what `pmmInit` does**: they go over the entries of
its memory map. -/
theorem pmmInitLoops_eq (safe : b.Safe) : ∃ entries p,
    memoryMap b.mem b.mbInfo = some entries ∧
      b.pmmInitLoops (mbSize b.mem b.mbInfo + 1) = .ok p ∧
      entries.foldlM freeEntry (allUsed (totalPages entries)) = some p := by
  obtain ⟨m, p, first, second⟩ :=
    pmmInitLoops_ok (Nat.lt_succ_self _) (pmmInitLoops_completes_iff.mp safe.1)
  obtain ⟨entries, tags, folded⟩ := passes_mbTags _ first
  obtain ⟨entries', tags', folded'⟩ := passes_mbTags _ second
  cases tags.symm.trans tags'
  cases (foldlM_useMax entries 0).symm.trans folded
  exact ⟨entries, p, tags, bind_eq_ok_iff.mpr ⟨_, first, second⟩, foldlM_useFree entries folded'⟩

end BootInfo

end Flyos

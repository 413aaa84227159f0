import Flyos.Lib.TableCopy
import Flyos.Mm.Clone
import Flyos.Mm.PageTree
import Flyos.Mm.PmmSpec

/-!
# What the nested loops of the copy do

Everything the copy writes lies in frames it has taken from the page allocator
(`Grown`), so what was in use before is as it was.  A frame taken in one turn of a
loop is in use in the next, so no two turns take the same one.

`Cloned` is what a loop has done after some of its turns, with the same fields at all
four levels: entries that are copies (`TableTree.Copy`), copied pages in frames of
their own, and the number of frames taken.  One turn at each level gives it for one
index (`clonePt_cloned`, `cloneTable_cloned`), and `forEntries_cloned` for a loop.
-/

namespace Flyos

open TableTree

/-! ## Frames in use -/

/-- The page allocator does not hand the frame out. -/
def Taken (s : Vmm) (f : Nat) : Prop :=
  f / pageSize < s.pmm.totalPages → bitmapTest s.pmm.bitmap (f / pageSize) = true

/-- The frame was handed out between two states. -/
def Fresh (s t : Vmm) (f : Nat) : Prop := ¬ Taken s f ∧ Taken t f

/-- The number of free pages. -/
def freePages (p : Pmm) : Nat := p.totalPages - p.used.card

/-- `t` comes from `s` by taking frames and writing to frames taken and those named. -/
structure Grown (s t : Vmm) (written : List Nat) : Prop where
  cr3 : t.cr3 = s.cr3
  pmm : t.pmm.Ok
  total : t.pmm.totalPages = s.pmm.totalPages
  taken : ∀ f, Taken s f → Taken t f
  kept : ∀ f, Taken s f → f ∉ written → t.mem f = s.mem f

theorem Grown.refl {s : Vmm} (ok : s.pmm.Ok) (written : List Nat) : Grown s s written :=
  ⟨rfl, ok, rfl, fun _ used => used, fun _ _ _ => rfl⟩

theorem Grown.trans {s t u : Vmm} {written written' : List Nat} (h : Grown s t written)
    (h' : Grown t u written') : Grown s u (written ++ written') where
  cr3 := h'.cr3.trans h.cr3
  pmm := h'.pmm
  total := h'.total.trans h.total
  taken := fun f used => h'.taken f (h.taken f used)
  kept := fun f used other => by
    rw [List.mem_append, not_or] at other
    rw [h'.kept f (h.taken f used) other.2, h.kept f used other.1]

/-- Frames that were not in use before need no mention. -/
theorem Grown.weaken {s t : Vmm} {written written' : List Nat} (h : Grown s t written)
    (new : ∀ f ∈ written, f ∈ written' ∨ ¬ Taken s f) : Grown s t written' :=
  { h with kept := fun f used other => h.kept f used fun mem =>
      (new f mem).elim other fun unused => unused used }

/-- A store to an entry. -/
theorem Grown.set {s : Vmm} (ok : s.pmm.Ok) (table : Nat) (i : Fin 512) (e : Nat) :
    Grown s (s.set table i e) [table] :=
  ⟨rfl, ok, rfl, fun _ used => used, fun f _ other => by
    funext j
    have unlike : f ≠ table := fun eq => other (by simp [eq])
    simp [Vmm.set, unlike]⟩

/-- A loop that fills a frame. -/
theorem Grown.fillPage {s : Vmm} (ok : s.pmm.Ok) (table : Nat) (e : Fin 512 → Nat) :
    Grown s (s.fillPage table e) [table] :=
  ⟨rfl, ok, rfl, fun _ used => used, fun f _ other => by
    funext j
    have unlike : f ≠ table := fun eq => other (by simp [eq])
    simp [Vmm.fillPage, unlike]⟩

/-- Frames handed out over a part of a time were so over the whole. -/
theorem Fresh.mono {s s' t t' : Vmm} {f : Nat} (fresh : Fresh s' t' f)
    (before : ∀ f, Taken s f → Taken s' f) (after : ∀ f, Taken t' f → Taken t f) :
    Fresh s t f :=
  ⟨fun used => fresh.1 (before f used), after f fresh.2⟩

/-- **An allocation** takes a frame that was free, and does so when there is one. -/
theorem allocPage_grown {s : Vmm} (ok : s.pmm.Ok) :
    Grown s s.allocPage.2 [] ∧
      (s.allocPage.1 ≠ 0 → ∃ k, s.allocPage.1 = k * pageSize ∧ k < maxPages ∧
        Fresh s s.allocPage.2 s.allocPage.1) ∧
      (Taken s 0 → 0 < freePages s.pmm →
        s.allocPage.1 ≠ 0 ∧ freePages s.allocPage.2.pmm + 1 = freePages s.pmm) := by
  obtain ⟨pmm, total, kept, found⟩ := pmmAllocPage_spec ok
  have grown : Grown s s.allocPage.2 [] := ⟨rfl, pmm, total, fun f used inside =>
    kept _ (used (total ▸ inside)), fun _ _ _ => rfl⟩
  refine ⟨grown, fun some => ?_, fun null free => ?_⟩
  · obtain ⟨k, eq, inside, clear, taken⟩ := found some
    have page : s.allocPage.1 / pageSize = k := by
      rw [show s.allocPage.1 = k * pageSize from eq]
      exact Nat.mul_div_cancel k (by decide)
    refine ⟨k, eq, Nat.lt_of_lt_of_le inside ok.total, fun used => ?_, fun _ => ?_⟩
    · rw [Taken, page, clear] at used
      exact absurd (used inside) (by decide)
    · rw [page]
      exact taken
  · rcases pmmAllocPage_cases ok.hint with ⟨-, all⟩ | ⟨i, inside, clear, takes⟩
    · have full : s.pmm.used = Finset.range s.pmm.totalPages := by
        ext k
        rw [Pmm.mem_used, Finset.mem_range]
        exact ⟨fun member => member.1, fun inside => ⟨inside, all k inside⟩⟩
      rw [freePages, full, Finset.card_range] at free
      omega
    · refine ⟨fun zero => ?_, ?_⟩
      · have first : i * pageSize = 0 := by
          have := congrArg Prod.fst takes
          exact this.symm.trans zero
        obtain rfl : i = 0 := (Nat.mul_eq_zero.mp first).resolve_right (by decide)
        have used := null (by simpa using inside)
        rw [Nat.zero_div, clear] at used
        cases used
      · have after : s.allocPage.2.pmm = (s.pmm.take i).2 := congrArg Prod.snd takes
        have new : i ∉ s.pmm.used := by
          rw [Pmm.mem_used, clear]
          simp
        have room : (insert i s.pmm.used).card ≤ s.pmm.totalPages := by
          rw [← Pmm.used_set inside (s.pmm.usedPages + 1) (i + 1)]
          exact (Finset.card_filter_le _ _).trans (Finset.card_range _).le
        rw [Finset.card_insert_of_notMem new] at room
        rw [freePages, freePages, after, Pmm.take, Pmm.used_set inside,
          Finset.card_insert_of_notMem new]
        simp only
        omega

/-- **A frame taken and filled**: nothing in use before is changed. -/
theorem fillPage_grown {s : Vmm} (ok : s.pmm.Ok) (some : s.allocPage.1 ≠ 0) (g : Fin 512 → Nat) :
    Grown s (s.allocPage.2.fillPage s.allocPage.1 g) [] ∧
      Fresh s (s.allocPage.2.fillPage s.allocPage.1 g) s.allocPage.1 ∧
      ∃ k, s.allocPage.1 = k * pageSize ∧ k < maxPages := by
  obtain ⟨grown, found, -⟩ := allocPage_grown ok
  obtain ⟨k, eq, inRange, fresh⟩ := found some
  refine ⟨(grown.trans (.fillPage grown.pmm _ g)).weaken ?_, fresh, k, eq, inRange⟩
  simpa using fresh.1

/-! ## Entries of the copy -/

/-- A copied link or page, part by part. -/
theorem copied_and {k : Nat} (inRange : k < maxPages) (e : Nat) :
    (k * pageSize ||| (e &&& 0xFFF)) &&& addrMask = k * pageSize ∧
      (k * pageSize ||| (e &&& 0xFFF)) &&& 0xFFF = e &&& 0xFFF ∧
      (k * pageSize ||| (e &&& 0xFFF)) &&& vmmPresent = e &&& vmmPresent ∧
      (k * pageSize ||| (e &&& 0xFFF)) &&& vmmHuge = e &&& vmmHuge := by
  obtain ⟨addr, present, huge⟩ := frame_and inRange
  have low : k * pageSize &&& 0xFFF = 0 := by
    rw [and_low12]
    exact Nat.mul_mod_left k _
  simp only [Nat.and_or_distrib_right, addr, present, huge, low, Nat.and_assoc]
  simp [vmmPresent, vmmHuge, addrMask]

/-- A link is copied as a link. -/
theorem slot_copied_table {d e g k : Nat} (inRange : k < maxPages) (link : slot d e = .table g) :
    slot d (k * pageSize ||| (e &&& 0xFFF)) = .table (k * pageSize) := by
  obtain ⟨addr, -, present, huge⟩ := copied_and inRange e
  simp only [slot, addr, present, huge] at link ⊢
  split at link
  case isTrue => cases link
  case isFalse here =>
    rw [if_neg here]
    split at link
    case isTrue two =>
      rw [if_pos two]
      split at link
      case isTrue => cases link
      case isFalse small => rw [if_neg small]
    case isFalse other =>
      rw [if_neg other]
      split at link
      case isTrue upper => rw [if_pos upper]
      case isFalse => cases link

/-- What becomes of a leaf: a page outside the framebuffer is copied to a fresh frame. -/
def PageCopy (fb : FbInfo) (s₀ s t : Vmm) (d a a' : Nat) : Prop :=
  if d = 3 ∧ fb.covers a = false then Fresh s t a' ∧ t.mem a' = s₀.mem a else a' = a

/-- What an entry and its copy have in common. -/
structure Alike (e e' : Nat) : Prop where
  flags : e' &&& 0xFFF = e &&& 0xFFF
  clean : e < 2 ^ 52 → e' < 2 ^ 52

theorem Alike.refl (e : Nat) : Alike e e := ⟨rfl, id⟩

/-- The entry `e'` in state `t` is a copy of the entry `e` in state `s₀`, made since `s`. -/
abbrev EntryCopy (fb : FbInfo) (s₀ s t : Vmm) : Nat → Nat → Nat → Prop :=
  Copy slot 0 Alike (Fresh s t) (PageCopy fb s₀ s t) s₀.mem t.mem

/-- A copied link or page is like its source. -/
theorem copied_alike {k : Nat} (inRange : k < maxPages) (e : Nat) :
    Alike e (k * pageSize ||| (e &&& 0xFFF)) where
  flags := (copied_and inRange e).2.1
  clean := fun _ => by
    refine Nat.or_lt_two_pow ?_ (Nat.lt_of_le_of_lt Nat.and_le_right (by decide))
    simp only [maxPages, pageSize] at *
    omega

/-- The indices lead to the frame of a table or of a small page. -/
def LeadsTo (m : PageTables) (d f : Nat) (is : List (Fin 512)) (a : Nat) : Prop :=
  reach slot m d f is = some a ∨ d + is.length = 4 ∧ walk slot m d f is = some (a, [])

/-- Behind a link, the table decides. -/
theorem leadsTo_link {m : PageTables} {d f g a : Nat} {i : Fin 512} {p : List (Fin 512)}
    (link : slot d (m f i) = .table g) : LeadsTo m d f (i :: p) a ↔ LeadsTo m (d + 1) g p a := by
  simp only [LeadsTo, reach, walk, link, List.length_cons]
  rw [show d + (p.length + 1) = d + 1 + p.length by omega]

/-- The frames it takes to copy an entry that is no link. -/
def leafFrames (fb : FbInfo) (d : Nat) : Slot Nat Nat → Nat
  | .leaf a => if d = 3 ∧ fb.covers a = false then 1 else 0
  | _ => 0

/-- The frames it takes to copy an entry with `n` levels of tables below it. -/
def framesFor (fb : FbInfo) (m : PageTables) : Nat → Nat → Nat → Nat
  | 0, d, e => leafFrames fb d (slot d e)
  | n + 1, d, e =>
      match slot d e with
      | .table g => 1 + ((List.finRange 512).map fun i => framesFor fb m n (d + 1) (m g i)).sum
      | other => leafFrames fb d other

/-- No frames for what lies behind an entry that is no link. -/
theorem framesFor_noLink {fb : FbInfo} {m : PageTables} {d e : Nat} (n : Nat)
    (noLink : ∀ g, slot d e ≠ .table g) : framesFor fb m n d e = leafFrames fb d (slot d e) := by
  cases n with
  | zero => rfl
  | succ n =>
      rw [framesFor]
      split
      case h_1 g link => exact absurd link (noLink g)
      case h_2 => rfl

/-- A copy is not disturbed by later turns. -/
theorem EntryCopy.mono {fb : FbInfo} {s₀ s s' t t' : Vmm} {d e e' : Nat}
    (copy : EntryCopy fb s₀ s' t' d e e') (before : ∀ f, Taken s f → Taken s' f)
    (after : ∀ f, Taken t' f → Taken t f) (kept : ∀ f, Fresh s' t' f → t.mem f = t'.mem f) :
    EntryCopy fb s₀ s t d e e' := by
  refine Copy.mono copy (fun g new => new.mono before after) (fun k a a' content => ?_) kept
  unfold PageCopy at content ⊢
  split
  case isTrue small =>
    rw [if_pos small] at content
    exact ⟨content.1.mono before after, (kept _ content.1).trans content.2⟩
  case isFalse shared => rwa [if_neg shared] at content

/-! ## Loops -/

/-- The tables at and below a frame, and the small pages below the entries that are
copied, are in use. -/
structure SourceOk (s₀ : Vmm) (deep : Fin 512 → Bool) (d src : Nat) : Prop where
  tables : ∀ p g, reach slot s₀.mem d src p = some g → Taken s₀ g
  pages : ∀ i p a, deep i = true → d + 1 + p.length = 4 →
    walk slot s₀.mem d src (i :: p) = some (a, []) → Taken s₀ a

/-- The state of a loop: the copy has begun in `s₀`, and `dst` is one of its tables. -/
structure Ready (s₀ : Vmm) (deep : Fin 512 → Bool) (d src dst : Nat) (s : Vmm) : Prop where
  since : Grown s₀ s []
  source : SourceOk s₀ deep d src
  mine : Taken s dst
  new : ¬ Taken s₀ dst

/-- **What some turns of a loop have done.** -/
structure Cloned (fb : FbInfo) (s₀ : Vmm) (deep : Fin 512 → Bool) (n d src dst : Nat)
    (is : List (Fin 512)) (s : Vmm) (r : Bool × Vmm) : Prop where
  grown : Grown s r.2 [dst]
  others : ∀ i ∉ is, r.2.mem dst i = s.mem dst i
  copied : r.1 = true → ∀ i ∈ is, deep i = true →
    EntryCopy fb s₀ s r.2 d (s₀.mem src i) (r.2.mem dst i)
  shared : r.1 = true → ∀ i ∈ is, deep i = false → r.2.mem dst i = s₀.mem src i
  apart : r.1 = true → ∀ i ∈ is, ∀ j ∈ is, deep i = true → deep j = true → ∀ p q a,
    LeadsTo r.2.mem d dst (i :: p) a → LeadsTo r.2.mem d dst (j :: q) a → ¬ Taken s₀ a →
    i :: p = j :: q
  enough : Taken s 0 →
    (is.map fun i => if deep i then framesFor fb s₀.mem n d (s₀.mem src i) else 0).sum ≤
      freePages s.pmm →
    r.1 = true ∧ freePages r.2.pmm +
      (is.map fun i => if deep i then framesFor fb s₀.mem n d (s₀.mem src i) else 0).sum =
      freePages s.pmm

/-- A frame of the copy is fresh, or is that of a page of the source. -/
theorem EntryCopy.leadsTo {fb : FbInfo} {s₀ s t : Vmm} {d src dst a : Nat} {i : Fin 512}
    {p : List (Fin 512)} {deep : Fin 512 → Bool} (source : SourceOk s₀ deep d src)
    (here : deep i = true) (copy : EntryCopy fb s₀ s t d (s₀.mem src i) (t.mem dst i))
    (found : LeadsTo t.mem d dst (i :: p) a) : Fresh s t a ∨ Taken s₀ a := by
  rcases found with at_p | ⟨full, found⟩
  · exact .inl (Copy.reach copy at_p).1
  · rcases Copy.walk copy p with ⟨-, none⟩ | ⟨k, b, b', rest, before, after, content, -⟩
    · rw [none] at found
      cases found
    · rw [after, Option.some.injEq, Prod.mk.injEq] at found
      obtain ⟨rfl, rfl⟩ := found
      unfold PageCopy at content
      split at content
      case isTrue => exact .inl content.1
      case isFalse =>
        obtain rfl := content
        refine .inr (source.pages i p b' here ?_ before)
        simp only [List.length_cons] at full
        omega

/-- One turn that does not fail, then others. -/
theorem Cloned.cons {fb : FbInfo} {s₀ s : Vmm} {deep : Fin 512 → Bool} {n d src dst : Nat}
    {i : Fin 512} {is : List (Fin 512)} {t : Vmm} {r : Bool × Vmm}
    (ready : Ready s₀ deep d src dst s) (one : Cloned fb s₀ deep n d src dst [i] s (true, t))
    (rest : Cloned fb s₀ deep n d src dst is t r) (once : i ∉ is) :
    Cloned fb s₀ deep n d src dst (i :: is) s r := by
  have mine : Taken t dst := one.grown.taken dst ready.mine
  -- what the first turn has made is as it was
  have same : r.2.mem dst i = t.mem dst i := rest.others i once
  have kept : ∀ f, Fresh s t f → r.2.mem f = t.mem f := fun f fresh =>
    rest.grown.kept f fresh.2 fun mem =>
      fresh.1 (List.mem_singleton.mp mem ▸ ready.mine)
  have first : deep i = true → EntryCopy fb s₀ s r.2 d (s₀.mem src i) (r.2.mem dst i) :=
    fun here => by
      rw [same]
      exact (one.copied rfl i (by simp) here).mono (fun _ used => used) rest.grown.taken kept
  have firstLeads : deep i = true → ∀ p a, LeadsTo r.2.mem d dst (i :: p) a →
      LeadsTo t.mem d dst (i :: p) a := fun here p a found => by
    have copy := one.copied rfl i (by simp) here
    rwa [LeadsTo, Copy.reach_kept copy same kept p, Copy.walk_kept copy same kept p] at found
  have differ : r.1 = true → ∀ j ∈ is, deep i = true → deep j = true → ∀ p q a,
      LeadsTo r.2.mem d dst (i :: p) a → LeadsTo r.2.mem d dst (j :: q) a → Taken s₀ a := by
    intro done j member here here' p q a found found'
    rcases (one.copied rfl i (by simp) here).leadsTo ready.source here
      (firstLeads here p a found) with fresh | old
    · rcases (rest.copied done j member here').leadsTo ready.source here' found' with
        fresh' | old
      · exact absurd fresh.2 fresh'.1
      · exact old
    · exact old
  refine ⟨(one.grown.trans rest.grown).weaken (by simp), fun j other => ?_,
    fun done j member here => ?_, fun done j member here => ?_,
    fun done j member k member' here here' p q a found found' new => ?_,
    fun null room => ?_⟩
  · rw [List.mem_cons, not_or] at other
    exact (rest.others j other.2).trans (one.others j (by simpa using other.1))
  · rcases List.mem_cons.mp member with rfl | member
    · exact first here
    · exact (rest.copied done j member here).mono one.grown.taken (fun _ used => used)
        fun _ _ => rfl
  · rcases List.mem_cons.mp member with rfl | member
    · rw [same]
      exact one.shared rfl j (by simp) here
    · exact rest.shared done j member here
  · rcases List.mem_cons.mp member with rfl | rest_j <;>
      rcases List.mem_cons.mp member' with rfl | rest_k
    · exact one.apart rfl k (by simp) k (by simp) here here p q a (firstLeads here p a found)
        (firstLeads here q a found') new
    · exact absurd (differ done k rest_k here here' p q a found found') new
    · exact absurd (differ done j rest_j here' here q p a found' found) new
    · exact rest.apart done j rest_j k rest_k here here' p q a found found' new
  · rw [List.map_cons, List.sum_cons] at room ⊢
    obtain ⟨-, left⟩ := one.enough null (by simpa using Nat.le_of_add_right_le room)
    simp only [List.map_cons, List.map_nil, List.sum_cons, List.sum_nil, Nat.add_zero] at left
    obtain ⟨done, left'⟩ := rest.enough (one.grown.taken 0 null) (by omega)
    exact ⟨done, by omega⟩

/-- A turn leaves the loop ready for the next. -/
theorem Ready.next {s₀ s t : Vmm} {deep : Fin 512 → Bool} {d src dst : Nat}
    (ready : Ready s₀ deep d src dst s) (grown : Grown s t [dst]) :
    Ready s₀ deep d src dst t where
  since := (ready.since.trans grown).weaken (by simpa using ready.new)
  source := ready.source
  mine := grown.taken dst ready.mine
  new := ready.new

/-- **A loop** does what its turns do. -/
theorem forEntries_cloned {fb : FbInfo} {s₀ : Vmm} {deep : Fin 512 → Bool} {n d src dst : Nat}
    {body : Fin 512 → Vmm → Bool × Vmm}
    (turn : ∀ i s, Ready s₀ deep d src dst s → Cloned fb s₀ deep n d src dst [i] s (body i s))
    {is : List (Fin 512)} (once : is.Nodup) {s : Vmm} (ready : Ready s₀ deep d src dst s) :
    Cloned fb s₀ deep n d src dst is s (forEntries body is s) := by
  induction is generalizing s with
  | nil =>
      exact ⟨.refl ready.since.pmm _, fun _ _ => rfl, by simp, by simp, by simp,
        fun _ _ => ⟨rfl, rfl⟩⟩
  | cons i is ih =>
      obtain ⟨new, once⟩ := List.nodup_cons.mp once
      have one := turn i s ready
      rw [forEntries]
      generalize body i s = r at one
      obtain ⟨done, t⟩ := r
      cases done with
      | true => exact .cons ready one (ih once (ready.next one.grown)) new
      | false =>
          refine ⟨one.grown, fun j other => one.others j ?_, nofun, nofun, nofun,
            fun null room => ?_⟩
          · simpa using fun eq => other (by simp [eq])
          · rw [List.map_cons, List.sum_cons] at room
            have := (one.enough null (by simpa using Nat.le_of_add_right_le room)).1
            cases this

/-! ## Turns -/

/-- The loop reads the source as it was. -/
theorem Ready.read {s₀ s : Vmm} {deep : Fin 512 → Bool} {d src dst : Nat}
    (ready : Ready s₀ deep d src dst s) : s.mem src = s₀.mem src :=
  ready.since.kept src (ready.source.tables [] src rfl) (by simp)

/-- A turn that only stores an entry. -/
theorem Cloned.store {fb : FbInfo} {s₀ s : Vmm} {deep : Fin 512 → Bool} {n d src dst e : Nat}
    {i : Fin 512} (ready : Ready s₀ deep d src dst s)
    (copied : deep i = true → EntryCopy fb s₀ s (s.set dst i e) d (s₀.mem src i) e)
    (shared : deep i = false → e = s₀.mem src i)
    (none : deep i = true → framesFor fb s₀.mem n d (s₀.mem src i) = 0) :
    Cloned fb s₀ deep n d src dst [i] s (true, s.set dst i e) := by
  have here : (s.set dst i e).mem dst i = e := by simp [Vmm.set]
  have free : (if deep i then framesFor fb s₀.mem n d (s₀.mem src i) else 0) = 0 := by
    split
    case isTrue copy => exact none copy
    case isFalse => rfl
  refine ⟨.set ready.since.pmm dst i e, fun j other => ?_, fun _ j member copy => ?_,
    fun _ j member share => ?_, fun _ j member k member' copy _ p q a found _ new => ?_,
    fun _ _ => ⟨rfl, ?_⟩⟩
  · have unlike : j ≠ i := by simpa using other
    simp [Vmm.set, unlike]
  · obtain rfl := List.mem_singleton.mp member
    rw [here]
    exact copied copy
  · obtain rfl := List.mem_singleton.mp member
    rw [here]
    exact shared share
  · obtain rfl := List.mem_singleton.mp member
    have copied' : EntryCopy fb s₀ s (s.set dst j e) d (s₀.mem src j)
        ((s.set dst j e).mem dst j) := by
      rw [here]
      exact copied copy
    rcases copied'.leadsTo ready.source copy found with fresh | old
    · exact absurd fresh.2 fresh.1
    · exact absurd old new
  · simp [free, Vmm.set]

/-- An entry that is not present is copied as 0. -/
theorem Cloned.absent {fb : FbInfo} {s₀ s : Vmm} {deep : Fin 512 → Bool} {n d src dst : Nat}
    {i : Fin 512} (ready : Ready s₀ deep d src dst s) (copy : deep i = true)
    (absent : s₀.mem src i &&& vmmPresent = 0) :
    Cloned fb s₀ deep n d src dst [i] s (true, s.set dst i 0) := by
  refine .store ready (fun _ => .empty (slot_absent absent) (slot_zero d)) (fun shared => ?_)
    fun _ => ?_
  · rw [copy] at shared
    cases shared
  · rw [framesFor_noLink n fun g => by rw [slot_absent absent]; exact nofun, slot_absent absent]
    rfl

/-- A turn that has copied a page to a fresh frame. -/
theorem Cloned.page {fb : FbInfo} {s₀ s t : Vmm} {n src dst k : Nat} {l : Fin 512}
    (ready : Ready s₀ (fun _ => true) 3 src dst s) (present : s₀.mem src l &&& vmmPresent ≠ 0)
    (outside : fb.covers (s₀.mem src l &&& addrMask) = false) (inRange : k < maxPages)
    (grown : Grown s t []) (fresh : Fresh s t (k * pageSize))
    (content : t.mem (k * pageSize) = s.mem (s₀.mem src l &&& addrMask))
    (count : Taken s 0 → 0 < freePages s.pmm → freePages t.pmm + 1 = freePages s.pmm) :
    Cloned fb s₀ (fun _ => true) n 3 src dst [l] s
      (true, t.set dst l (k * pageSize ||| (s₀.mem src l &&& 0xFFF))) := by
  obtain ⟨addr, -, present', -⟩ := copied_and inRange (s₀.mem src l)
  have leaf := slot_pt present
  have leaf' := slot_pt (present'.trans_ne present)
  rw [addr] at leaf'
  have unlike : k * pageSize ≠ dst := fun same => fresh.1 (same ▸ ready.mine)
  have used : Taken s₀ (s₀.mem src l &&& addrMask) :=
    ready.source.pages l [] _ rfl rfl (by simp only [walk, leaf])
  have here : (t.set dst l (k * pageSize ||| (s₀.mem src l &&& 0xFFF))).mem dst l =
      k * pageSize ||| (s₀.mem src l &&& 0xFFF) := by simp [Vmm.set]
  have last : ∀ p a, LeadsTo (t.set dst l (k * pageSize ||| (s₀.mem src l &&& 0xFFF))).mem 3 dst
      (l :: p) a → p = [] := fun p a found => by
    rcases found with at_p | ⟨full, -⟩
    · simp [reach, here, leaf'] at at_p
    · exact List.length_eq_zero_iff.mp (by simp only [List.length_cons] at full; omega)
  refine ⟨(grown.trans (.set grown.pmm dst l _)).weaken (by simp), fun j other => ?_,
    fun _ j member _ => ?_, fun _ _ _ no => (by cases no),
    fun _ i member j member' _ _ p q a found found' _ => ?_, fun null room => ⟨rfl, ?_⟩⟩
  · have off : j ≠ l := by simpa using other
    have kept := congrFun (grown.kept dst ready.mine (by simp)) j
    simpa [Vmm.set, off] using kept
  · obtain rfl := List.mem_singleton.mp member
    rw [here]
    refine .leaf leaf leaf' (copied_alike inRange _) ?_
    rw [PageCopy, if_pos ⟨rfl, outside⟩]
    refine ⟨fresh, ?_⟩
    funext i
    simp only [Vmm.set, unlike, false_and, if_false]
    rw [content, ready.since.kept _ used (by simp)]
  · obtain rfl := List.mem_singleton.mp member
    obtain rfl := List.mem_singleton.mp member'
    rw [last p a found, last q a found']
  · have one : framesFor fb s₀.mem n 3 (s₀.mem src l) = 1 := by
      rw [framesFor_noLink n fun g => by rw [leaf]; rintro ⟨⟩, leaf]
      simp [leafFrames, outside]
    simp only [if_true, List.map_cons, List.map_nil, List.sum_cons, List.sum_nil, one] at room ⊢
    exact count null (by omega)

/-- **One turn over a page table.** -/
theorem clonePt_cloned {fb : FbInfo} {s₀ s : Vmm} {n src dst : Nat} (l : Fin 512)
    (ready : Ready s₀ (fun _ => true) 3 src dst s) :
    Cloned fb s₀ (fun _ => true) n 3 src dst [l] s (clonePt fb src dst l s) := by
  unfold clonePt
  rw [ready.read]
  split
  case isTrue absent => exact .absent ready rfl absent
  case isFalse present =>
    have leaf := slot_pt present
    have frames : framesFor fb s₀.mem n 3 (s₀.mem src l) =
        leafFrames fb 3 (.leaf (s₀.mem src l &&& addrMask)) := by
      rw [framesFor_noLink n fun g => by rw [leaf]; exact nofun, leaf]
    simp only
    split
    case isTrue covered =>
      refine .store ready (fun _ => .leaf leaf leaf (.refl _) ?_) nofun fun _ => ?_
      · simp [PageCopy, covered]
      · rw [frames]
        simp [leafFrames, covered]
    case isFalse outside =>
      have outside : fb.covers (s₀.mem src l &&& addrMask) = false := by simpa using outside
      obtain ⟨grown, -, room⟩ := allocPage_grown ready.since.pmm
      by_cases null : s.allocPage.1 = 0
      · simp only [copyPage, null, if_true]
        refine ⟨grown.weaken (by simp), fun _ _ => rfl, nofun, nofun, nofun, fun zero free => ?_⟩
        have one : 0 < freePages s.pmm := by
          rw [List.map_singleton, List.sum_singleton, if_pos rfl, frames] at free
          simpa [leafFrames, outside, Nat.one_le_iff_ne_zero, Nat.pos_iff_ne_zero] using free
        exact absurd null (room zero one).1
      · let page := s.mem (s₀.mem src l &&& addrMask)
        obtain ⟨fills, fresh, k, eq, inRange⟩ := fillPage_grown ready.since.pmm null page
        have reads : (s.allocPage.2.fillPage s.allocPage.1 page).mem src = s₀.mem src := by
          rw [fills.kept src (ready.since.taken src (ready.source.tables [] src rfl)) (by simp),
            ready.read]
        simp only [copyPage, null, if_false]
        change Cloned fb s₀ _ n 3 src dst [l] s
          (true, (s.allocPage.2.fillPage s.allocPage.1 page).set dst l
            (s.allocPage.1 ||| ((s.allocPage.2.fillPage s.allocPage.1 page).mem src l &&& 0xFFF)))
        rw [congrFun reads l, eq]
        rw [eq] at fills fresh
        refine .page ready present outside inRange fills fresh ?_ fun zero free => (room zero free).2
        funext j
        simp [Vmm.fillPage, page]

/-- The source below a link. -/
theorem SourceOk.below {s₀ : Vmm} {deep : Fin 512 → Bool} {d src g : Nat} {i : Fin 512}
    (source : SourceOk s₀ deep d src) (here : deep i = true)
    (link : slot d (s₀.mem src i) = .table g) : SourceOk s₀ (fun _ => true) (d + 1) g where
  tables := fun p h at_p => source.tables (i :: p) h (by simpa only [reach, link] using at_p)
  pages := fun j p a _ full found => by
    refine source.pages i (j :: p) a here (by simp only [List.length_cons]; omega) ?_
    simpa only [walk, link] using found

/-- At and below a fresh table, different indices lead to different frames. -/
theorem Cloned.apartBelow {fb : FbInfo} {s₀ s t : Vmm} {n d src dst a : Nat}
    (loop : Cloned fb s₀ (fun _ => true) n d src dst (List.finRange 512) s (true, t))
    (ready : Ready s₀ (fun _ => true) d src dst s) {p q : List (Fin 512)}
    (found : LeadsTo t.mem d dst p a) (found' : LeadsTo t.mem d dst q a) (new : ¬ Taken s₀ a) :
    p = q := by
  have table : ∀ {b}, LeadsTo t.mem d dst [] b → b = dst := by
    intro b found
    simpa [LeadsTo, reach, walk, eq_comm] using found
  -- the table itself is none of the frames below it
  have outside : ∀ x p, ¬ LeadsTo t.mem d dst (x :: p) dst := fun x p found => by
    rcases (loop.copied rfl x (List.mem_finRange x) rfl).leadsTo ready.source rfl found with
      fresh | old
    · exact fresh.1 ready.mine
    · exact ready.new old
  cases p with
  | nil =>
      cases q with
      | nil => rfl
      | cons y q => exact absurd (table found ▸ found') (outside y q)
  | cons x p =>
      cases q with
      | nil => exact absurd (table found' ▸ found) (outside x p)
      | cons y q =>
          exact loop.apart rfl x (List.mem_finRange x) y (List.mem_finRange y) rfl rfl p q a
            found found' new

/-- **One turn that copies a table**, when the loop over the table does what it should. -/
theorem cloneTable_cloned {fb : FbInfo} {s₀ s : Vmm} {deep : Fin 512 → Bool}
    {n d src dst g : Nat} {i : Fin 512} {body : Nat → Nat → Fin 512 → Vmm → Bool × Vmm}
    (inner : ∀ src' dst' s', Ready s₀ (fun _ => true) (d + 1) src' dst' s' →
      Cloned fb s₀ (fun _ => true) n (d + 1) src' dst' (List.finRange 512) s'
        (forEntries (body src' dst') (List.finRange 512) s'))
    (ready : Ready s₀ deep d src dst s) (here : deep i = true)
    (link : slot d (s₀.mem src i) = .table g) :
    Cloned fb s₀ deep (n + 1) d src dst [i] s (cloneTable body src dst i s) := by
  obtain ⟨grown, -, room⟩ := allocPage_grown ready.since.pmm
  have frames : framesFor fb s₀.mem (n + 1) d (s₀.mem src i) = 1 +
      ((List.finRange 512).map fun j => framesFor fb s₀.mem n (d + 1) (s₀.mem g j)).sum := by
    rw [framesFor, link]
  unfold cloneTable
  rw [ready.read, ← slot_table_addr link]
  by_cases null : s.allocPage.1 = 0
  · simp only [null, if_true]
    refine ⟨grown.weaken (by simp), fun _ _ => rfl, nofun, nofun, nofun, fun zero free => ?_⟩
    rw [List.map_singleton, List.sum_singleton, if_pos here, frames] at free
    exact absurd null (room zero (by omega)).1
  · obtain ⟨fills, fresh, k, eq, inRange⟩ :=
      fillPage_grown ready.since.pmm null (fun _ => 0)
    have reads : (s.allocPage.2.zeroPage s.allocPage.1).mem src = s₀.mem src := by
      rw [Vmm.zeroPage,
        fills.kept src (ready.since.taken src (ready.source.tables [] src rfl)) (by simp),
        ready.read]
    simp only [null, if_false]
    rw [congrFun reads i, eq]
    rw [eq] at fills fresh
    have linked : Grown s _ [dst] := (fills.trans (.set fills.pmm dst i
      (k * pageSize ||| (s₀.mem src i &&& 0xFFF)))).weaken (by simp)
    have stored : ((s.allocPage.2.zeroPage (k * pageSize)).set dst i
        (k * pageSize ||| (s₀.mem src i &&& 0xFFF))).mem dst i =
          k * pageSize ||| (s₀.mem src i &&& 0xFFF) := by simp [Vmm.set]
    have untouched : ∀ j ≠ i, ((s.allocPage.2.zeroPage (k * pageSize)).set dst i
        (k * pageSize ||| (s₀.mem src i &&& 0xFFF))).mem dst j = s.mem dst j := fun j other => by
      have kept := congrFun (fills.kept dst ready.mine (by simp)) j
      simpa [Vmm.set, Vmm.zeroPage, other] using kept
    have ready' : Ready s₀ (fun _ => true) (d + 1) g (k * pageSize)
        ((s.allocPage.2.zeroPage (k * pageSize)).set dst i
          (k * pageSize ||| (s₀.mem src i &&& 0xFFF))) :=
      ⟨(ready.since.trans linked).weaken (by simpa using ready.new), ready.source.below here link,
        fresh.2, fun used => fresh.1 (ready.since.taken _ used)⟩
    have left : Taken s 0 → 0 < freePages s.pmm →
        freePages ((s.allocPage.2.zeroPage (k * pageSize)).set dst i
          (k * pageSize ||| (s₀.mem src i &&& 0xFFF))).pmm + 1 = freePages s.pmm :=
      fun zero free => (room zero free).2
    have loop := inner g (k * pageSize) _ ready'
    rw [Vmm.zeroPage] at stored ready' left loop ⊢
    simp only [Vmm.zeroPage] at untouched
    generalize (s.allocPage.2.fillPage (k * pageSize) fun _ => 0).set dst i
      (k * pageSize ||| (s₀.mem src i &&& 0xFFF)) = t
      at linked stored untouched ready' left loop ⊢
    generalize forEntries (body g (k * pageSize)) (List.finRange 512) t = r at loop ⊢
    have unlike : dst ≠ k * pageSize := fun same => fresh.1 (same ▸ ready.mine)
    have kept : r.2.mem dst = t.mem dst :=
      loop.grown.kept dst (linked.taken dst ready.mine) (by simpa using unlike)
    have link' := slot_copied_table inRange link
    have below : ∀ p a, LeadsTo r.2.mem d dst (i :: p) a → LeadsTo r.2.mem (d + 1) (k * pageSize) p a :=
      fun p a found => (leadsTo_link (by rw [kept, stored, link'])).mp found
    refine ⟨(linked.trans loop.grown).weaken (by simpa using Or.inr fresh.1), fun j other => ?_,
      fun done j member _ => ?_, fun _ j member share => ?_,
      fun done j member j' member' _ _ p q a found found' new => ?_,
      fun zero free => ?_⟩
    · rw [kept]
      exact untouched j (by simpa using other)
    · obtain rfl := List.mem_singleton.mp member
      rw [kept, stored]
      refine .table link link' (copied_alike inRange _) ⟨fresh.1, loop.grown.taken _ ready'.mine⟩ fun i => ?_
      exact (loop.copied done i (List.mem_finRange i) rfl).mono linked.taken
        (fun _ used => used) fun _ _ => rfl
    · rw [List.mem_singleton.mp member, here] at share
      cases share
    · obtain rfl := List.mem_singleton.mp member
      obtain rfl := List.mem_singleton.mp member'
      obtain ⟨_, v⟩ := r
      obtain rfl : _ = true := done
      rw [loop.apartBelow ready' (below p a found) (below q a found') new]
    · rw [List.map_singleton, List.sum_singleton, if_pos here, frames] at free ⊢
      have one := left zero (by omega)
      obtain ⟨done, rest⟩ := loop.enough (linked.taken 0 zero) (by simpa using by omega)
      exact ⟨done, by simp at rest; omega⟩

/-- **One turn over a page directory.** -/
theorem clonePd_cloned {fb : FbInfo} {s₀ s : Vmm} {src dst : Nat} (k : Fin 512)
    (ready : Ready s₀ (fun _ => true) 2 src dst s) :
    Cloned fb s₀ (fun _ => true) 1 2 src dst [k] s (clonePd fb src dst k s) := by
  unfold clonePd
  rw [ready.read]
  split
  case isTrue absent => exact .absent ready rfl absent
  case isFalse present =>
    split
    case isTrue huge =>
      have leaf := slot_large present huge
      refine .store ready (fun _ => .leaf leaf leaf (.refl _) (by simp [PageCopy])) nofun fun _ => ?_
      rw [framesFor_noLink 1 fun g => by rw [leaf]; exact nofun, leaf]
      rfl
    case isFalse small =>
      exact cloneTable_cloned (fun src' dst' s' inside =>
        forEntries_cloned (fun l _ => clonePt_cloned l) (List.nodup_finRange 512) inside) ready rfl
        (slot_pd present (not_not.mp small))

/-- **One turn over a page directory pointer table.** -/
theorem clonePdpt_cloned {fb : FbInfo} {s₀ s : Vmm} {src dst : Nat} (j : Fin 512)
    (ready : Ready s₀ (fun _ => true) 1 src dst s) :
    Cloned fb s₀ (fun _ => true) 2 1 src dst [j] s (clonePdpt fb src dst j s) := by
  unfold clonePdpt
  rw [ready.read]
  split
  case isTrue absent => exact .absent ready rfl absent
  case isFalse present =>
    exact cloneTable_cloned (fun src' dst' s' inside =>
      forEntries_cloned (fun k _ => clonePd_cloned k) (List.nodup_finRange 512) inside) ready rfl
      (slot_dir (by decide) present)

/-- The entries of the PML4 for the lower half of the address space. -/
def lowerHalf (i : Fin 512) : Bool := decide (i.val < 256)

/-- **One turn over the PML4.** -/
theorem clonePml4_cloned {fb : FbInfo} {s₀ s : Vmm} {src dst : Nat} (i : Fin 512)
    (ready : Ready s₀ lowerHalf 0 src dst s) :
    Cloned fb s₀ lowerHalf 3 0 src dst [i] s (clonePml4 fb src dst i s) := by
  unfold clonePml4
  rw [ready.read]
  split
  case isTrue upper =>
    have share : lowerHalf i = false := by simpa [lowerHalf] using upper
    refine .store ready (fun copy => ?_) (fun _ => rfl) fun copy => ?_
    · rw [share] at copy
      cases copy
    · rw [share] at copy
      cases copy
  case isFalse lower =>
    have copy : lowerHalf i = true := by simpa [lowerHalf] using lower
    split
    case isTrue absent => exact .absent ready copy absent
    case isFalse present =>
      exact cloneTable_cloned (fun src' dst' s' inside =>
        forEntries_cloned (fun j _ => clonePdpt_cloned j) (List.nodup_finRange 512) inside) ready
        copy (slot_dir (by decide) present)

end Flyos

import Flyos.Mm.CloneSpec

/-!
# What a deep copy costs

`vmm_clone_pml4_deep` takes a page for every table and every page that it copies, and
gives none back: where it succeeds it has taken as many pages as the copy needs
(`cloneNeed`), and where it fails it keeps those it has.  So it succeeds exactly when
there are enough, and with fewer it takes all there are.
-/

namespace Flyos

open TableTree

/-- `t` comes from `s` by taking `k` pages. -/
structure Spent (s t : Vmm) (k : Nat) : Prop where
  used : t.pmm.usedPages = s.pmm.usedPages + k
  free : freePages t.pmm + k = freePages s.pmm

/-- A function took pages: `cost` of them, when it succeeded. -/
def Paid (cost : Nat) (s : Vmm) (r : Bool × Vmm) : Prop :=
  ∃ k, Spent s r.2 k ∧ (r.1 = true → k = cost)

variable {fb : FbInfo} {s₀ s t : Vmm} {deep : Fin 512 → Bool} {n d src dst : Nat}

theorem Spent.trans {u : Vmm} {j k : Nat} (h : Spent s t j) (h' : Spent t u k) :
    Spent s u (j + k) :=
  ⟨by rw [h'.used, h.used, Nat.add_assoc], by rw [← h.free, ← h'.free]; omega⟩

/-- A step that takes no page. -/
theorem Paid.nothing (same : t.pmm = s.pmm) (done : Bool) : Paid 0 s (done, t) :=
  ⟨0, ⟨by rw [same]; rfl, by rw [same]; rfl⟩, fun _ => rfl⟩

/-- **An allocation** takes one page, or there is none and nothing happens. -/
theorem allocPage_spent (ok : s.pmm.Ok) (null : Taken s 0) :
    (s.allocPage.1 = 0 ∧ s.allocPage.2.pmm = s.pmm ∧ freePages s.pmm = 0) ∨
      s.allocPage.1 ≠ 0 ∧ Spent s s.allocPage.2 1 := by
  obtain ⟨-, -, room⟩ := allocPage_grown ok
  rcases pmmAllocPage_cases ok.hint with ⟨fails, all⟩ | ⟨i, inside, clear, takes⟩
  · refine .inl ⟨congrArg Prod.fst fails, congrArg Prod.snd fails, ?_⟩
    have full : s.pmm.used = Finset.range s.pmm.totalPages := by
      ext k
      rw [Pmm.mem_used, Finset.mem_range]
      exact ⟨fun member => member.1, fun inside => ⟨inside, all k inside⟩⟩
    rw [freePages, full, Finset.card_range, Nat.sub_self]
  · have some_page : 0 < freePages s.pmm := by
      have proper : s.pmm.used ⊂ Finset.range s.pmm.totalPages := by
        refine Finset.ssubset_iff_subset_ne.mpr ⟨Finset.filter_subset _ _, fun all => ?_⟩
        have member : i ∈ s.pmm.used := by rw [all]; exact Finset.mem_range.mpr inside
        rw [Pmm.mem_used, clear] at member
        exact absurd member.2 (by decide)
      have fewer := Finset.card_lt_card proper
      rw [Finset.card_range] at fewer
      rw [freePages]
      omega
    obtain ⟨nonzero, left⟩ := room null some_page
    have after : s.allocPage.2.pmm = (s.pmm.take i).2 := congrArg Prod.snd takes
    exact .inr ⟨nonzero, by rw [after]; rfl, left⟩

/-! ## Loops and turns -/

/-- **A loop** pays for its turns. -/
theorem forEntries_paid {body : Fin 512 → Vmm → Bool × Vmm} {cost : Fin 512 → Nat}
    (grows : ∀ i s, Ready s₀ deep d src dst s → Grown s (body i s).2 [dst])
    (turn : ∀ i s, Ready s₀ deep d src dst s → Taken s 0 → Paid (cost i) s (body i s))
    (is : List (Fin 512)) (ready : Ready s₀ deep d src dst s) (null : Taken s 0) :
    Paid (is.map cost).sum s (forEntries body is s) := by
  induction is generalizing s with
  | nil => exact .nothing rfl true
  | cons i is ih =>
      have grown := grows i s ready
      obtain ⟨j, spent, exact_cost⟩ := turn i s ready null
      rw [forEntries]
      cases done : (body i s).1 with
      | false => exact ⟨j, spent, fun no => by cases no⟩
      | true =>
          obtain ⟨k, spent', exact_rest⟩ := ih (ready.next grown) (grown.taken 0 null)
          refine ⟨j + k, spent.trans spent', fun whole => ?_⟩
          rw [List.map_cons, List.sum_cons, exact_cost done, exact_rest whole]

/-- A turn that only stores an entry. -/
theorem Paid.store (l : Fin 512) (e : Nat) : Paid 0 s (true, s.set dst l e) :=
  ⟨0, ⟨rfl, rfl⟩, fun _ => rfl⟩

/-- **One turn over a page table.** -/
theorem clonePt_paid (l : Fin 512) (ready : Ready s₀ (fun _ => true) 3 src dst s)
    (null : Taken s 0) : Paid (framesFor fb s₀.mem n 3 (s₀.mem src l)) s
      (clonePt fb src dst l s) := by
  unfold clonePt
  rw [ready.read]
  split
  case isTrue absent =>
    rw [framesFor_noLink n fun g => by rw [slot_absent absent]; rintro ⟨⟩, slot_absent absent]
    exact .store l 0
  case isFalse present =>
    have leaf := slot_pt present
    rw [framesFor_noLink n fun g => by rw [leaf]; rintro ⟨⟩, leaf, leafFrames]
    dsimp only
    cases covered : fb.covers (s₀.mem src l &&& addrMask) with
    | true => exact .store l _
    | false =>
        simp only [Bool.false_eq_true, if_false, and_self, if_true, copyPage]
        rcases allocPage_spent ready.since.pmm null with ⟨none, same, -⟩ | ⟨some, spent⟩
        · simp only [none, if_true]
          exact ⟨0, ⟨by rw [same]; rfl, by rw [same]; rfl⟩, fun no => by cases no⟩
        · simp only [some, if_false]
          exact ⟨1, ⟨spent.used, spent.free⟩, fun _ => rfl⟩

/-- The loop over the copy of a table is ready: the table is fresh and linked. -/
theorem Ready.below {g : Nat} {i : Fin 512} (ready : Ready s₀ deep d src dst s)
    (here : deep i = true) (link : slot d (s₀.mem src i) = .table g) (some : s.allocPage.1 ≠ 0)
    (e : Nat) : Ready s₀ (fun _ => true) (d + 1) g s.allocPage.1
      ((s.allocPage.2.zeroPage s.allocPage.1).set dst i e) := by
  obtain ⟨fills, fresh, -⟩ := fillPage_grown ready.since.pmm some fun _ => 0
  have linked : Grown s _ [dst] := (fills.trans (.set fills.pmm dst i e)).weaken (by simp)
  exact ⟨(ready.since.trans linked).weaken (by simpa using ready.new),
    ready.source.below here link, fresh.2, fun used => fresh.1 (ready.since.taken _ used)⟩

/-- **One turn that copies a table**, when the loop over the table pays for its turns. -/
theorem cloneTable_paid {g : Nat} {i : Fin 512} {body : Nat → Nat → Fin 512 → Vmm → Bool × Vmm}
    (inner : ∀ dst' s', Ready s₀ (fun _ => true) (d + 1) g dst' s' → Taken s' 0 →
      Paid ((List.finRange 512).map fun j => framesFor fb s₀.mem n (d + 1) (s₀.mem g j)).sum s'
        (forEntries (body g dst') (List.finRange 512) s'))
    (ready : Ready s₀ deep d src dst s) (here : deep i = true)
    (link : slot d (s₀.mem src i) = .table g) (null : Taken s 0) :
    Paid (framesFor fb s₀.mem (n + 1) d (s₀.mem src i)) s (cloneTable body src dst i s) := by
  rw [framesFor, link]
  unfold cloneTable
  rw [ready.read, ← slot_table_addr link]
  rcases allocPage_spent ready.since.pmm null with ⟨none, same, -⟩ | ⟨some, spent⟩
  · simp only [none, if_true]
    exact ⟨0, ⟨by rw [same]; rfl, by rw [same]; rfl⟩, fun no => by cases no⟩
  · simp only [some, if_false]
    obtain ⟨fills, -⟩ := fillPage_grown ready.since.pmm some fun _ => 0
    obtain ⟨k, spent', exact_cost⟩ := inner _ _ (ready.below here link some _)
      (fills.taken 0 null)
    have first : ∀ e, Spent s ((s.allocPage.2.zeroPage s.allocPage.1).set dst i e) 1 :=
      fun _ => ⟨spent.used, spent.free⟩
    refine ⟨1 + k, (first _).trans spent', fun done => ?_⟩
    rw [exact_cost done]

/-- **One turn over a page directory.** -/
theorem clonePd_paid (k : Fin 512) (ready : Ready s₀ (fun _ => true) 2 src dst s)
    (null : Taken s 0) : Paid (framesFor fb s₀.mem 1 2 (s₀.mem src k)) s
      (clonePd fb src dst k s) := by
  unfold clonePd
  rw [ready.read]
  split
  case isTrue absent =>
    rw [framesFor_noLink 1 fun g => by rw [slot_absent absent]; rintro ⟨⟩, slot_absent absent]
    exact .store k 0
  case isFalse present =>
    split
    case isTrue huge =>
      have leaf := slot_large present huge
      rw [framesFor_noLink 1 fun g => by rw [leaf]; rintro ⟨⟩, leaf]
      exact .store k _
    case isFalse small =>
      exact cloneTable_paid (fun _ _ inside null => forEntries_paid
        (fun l _ ready => (clonePt_cloned (n := 0) l ready).grown)
        (fun l _ => clonePt_paid l) _ inside null) ready rfl
        (slot_pd present (not_not.mp small)) null

/-- **One turn over a page directory pointer table.** -/
theorem clonePdpt_paid (j : Fin 512) (ready : Ready s₀ (fun _ => true) 1 src dst s)
    (null : Taken s 0) : Paid (framesFor fb s₀.mem 2 1 (s₀.mem src j)) s
      (clonePdpt fb src dst j s) := by
  unfold clonePdpt
  rw [ready.read]
  split
  case isTrue absent =>
    rw [framesFor_noLink 2 fun g => by rw [slot_absent absent]; rintro ⟨⟩, slot_absent absent]
    exact .store j 0
  case isFalse present =>
    exact cloneTable_paid (fun _ _ inside null => forEntries_paid
      (fun k _ ready => (clonePd_cloned k ready).grown) (fun k _ => clonePd_paid k) _ inside null)
      ready rfl (slot_dir (by decide) present) null

/-- **One turn over the PML4.** -/
theorem clonePml4_paid (i : Fin 512) (ready : Ready s₀ lowerHalf 0 src dst s) (null : Taken s 0) :
    Paid (if lowerHalf i then framesFor fb s₀.mem 3 0 (s₀.mem src i) else 0) s
      (clonePml4 fb src dst i s) := by
  unfold clonePml4
  rw [ready.read]
  by_cases upper : 256 ≤ i.val
  · have share : lowerHalf i = false := by simpa [lowerHalf] using upper
    rw [if_pos upper, share]
    exact .store i _
  · have copy : lowerHalf i = true := by simpa [lowerHalf] using upper
    rw [if_neg upper, if_pos copy]
    split
    case isTrue absent =>
      rw [framesFor_noLink 3 fun g => by rw [slot_absent absent]; rintro ⟨⟩, slot_absent absent]
      exact .store i 0
    case isFalse present =>
      exact cloneTable_paid (fun _ _ inside null => forEntries_paid
        (fun j _ ready => (clonePdpt_cloned j ready).grown) (fun j _ => clonePdpt_paid j) _ inside
        null) ready copy (slot_dir (by decide) present) null

/-- **What a deep copy takes**: nothing when no page is free, otherwise at least a page, and
what the copy needs when it succeeds. -/
theorem vmmClonePml4Deep_paid (ok : s.pmm.Ok) (null : Taken s 0) (source : CloneSource s src) :
    (freePages s.pmm = 0 → (vmmClonePml4Deep fb s src).1 = 0 ∧
        (vmmClonePml4Deep fb s src).2.pmm = s.pmm) ∧
      (0 < freePages s.pmm → s.pmm.usedPages < (vmmClonePml4Deep fb s src).2.pmm.usedPages) ∧
      ((vmmClonePml4Deep fb s src).1 ≠ 0 → cloneNeed fb s src ≤ freePages s.pmm) := by
  unfold vmmClonePml4Deep
  rcases allocPage_spent ok null with ⟨none, same, empty⟩ | ⟨some, spent⟩
  · simp only [none, if_true]
    exact ⟨fun _ => ⟨trivial, same⟩, fun free => absurd empty (by omega), fun ne => absurd rfl ne⟩
  · simp only [some, if_false]
    obtain ⟨fills, fresh, -⟩ := fillPage_grown ok some fun _ => 0
    have ready : Ready s lowerHalf 0 src s.allocPage.1 (s.allocPage.2.zeroPage s.allocPage.1) :=
      ⟨fills, source.sourceOk, fresh.2, fresh.1⟩
    obtain ⟨k, spent', exact_cost⟩ := forEntries_paid
      (fun i _ ready => (@clonePml4_cloned fb s _ src _ i ready).grown) (fun i _ => clonePml4_paid i)
      (List.finRange 512) ready (fills.taken 0 null)
    have first : Spent s (s.allocPage.2.zeroPage s.allocPage.1) 1 := ⟨spent.used, spent.free⟩
    have whole := first.trans spent'
    have used := whole.used
    have free := whole.free
    generalize forEntries (clonePml4 fb src s.allocPage.1) (List.finRange 512)
      (s.allocPage.2.zeroPage s.allocPage.1) = r at exact_cost used free ⊢
    obtain ⟨done, t⟩ := r
    cases done with
    | false =>
        refine ⟨fun empty => ?_, fun _ => ?_, fun ne => absurd rfl ne⟩
        · omega
        · exact Nat.lt_of_lt_of_eq (by omega) used.symm
    | true =>
        refine ⟨fun empty => ?_, fun _ => ?_, fun _ => ?_⟩
        · omega
        · exact Nat.lt_of_lt_of_eq (by omega) used.symm
        · rw [cloneNeed, ← exact_cost rfl]
          omega

end Flyos

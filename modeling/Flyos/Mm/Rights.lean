import Flyos.Mm.VmmSpec

/-!
# What `vmm_map` does to the rights on other pages

A page is open to user mode, or writable, when the entry at every level of its walk
has the bit.  `allowed` computes that conjunction; `given` lists edges that count as
having the bit whatever their entries are.

A new link has both bits, so `vmm_map` takes no right away.  It gives none to write.
It does set the user bit in the entries it passes on its way down: user mode could
not reach the page otherwise.  So a page below such an entry is open to user mode
afterwards when its other entries have the bit (`vmmMap_rights`).
-/

namespace Flyos

open TableTree

/-- The check that an entry has one of some bits, or lies at a given edge. -/
def hasBits (bits : Nat) (given : List (List (Fin 512))) (edge : List (Fin 512)) (e : Nat) : Bool :=
  e &&& bits != 0 || decide (edge ∈ given)

/-- A page is mapped and every entry of its walk passes that check. -/
def allowed (bits : Nat) (given : List (List (Fin 512))) (s : Vmm) (virt : Nat) : Bool :=
  passes slot (hasBits bits given) s.mem [] s.root (path virt)

/-- User mode may access the page. -/
def userMay (s : Vmm) (virt : Nat) : Bool := allowed vmmUser [] s virt

/-- The page may be written to. -/
def writeMay (s : Vmm) (virt : Nat) : Bool := allowed vmmWritable [] s virt

/-- The edges above the page table on the walk of an address. -/
def upperEdges (virt : Nat) : List (List (Fin 512)) :=
  [[tableIdx virt 39], [tableIdx virt 39, tableIdx virt 30],
    [tableIdx virt 39, tableIdx virt 30, tableIdx virt 21]]

/-- Both addresses are in one large page. -/
def inLarge (s : Vmm) (virt v : Nat) : Bool :=
  match walk slot s.mem 0 s.root (path virt) with
  | some (_, _ :: _) => decide (virt / 2 ^ 21 % 2 ^ 27 = v / 2 ^ 21 % 2 ^ 27)
  | _ => false

/-- More edges given, more pages allowed. -/
theorem allowed_mono {bits : Nat} {given given' : List (List (Fin 512))} {s : Vmm} {v : Nat}
    (more : ∀ edge ∈ given, edge ∈ given') (may : allowed bits given s v = true) :
    allowed bits given' s v = true := by
  refine passes_mono (fun edge e pass => ?_) may
  simp only [hasBits, Bool.or_eq_true, decide_eq_true_eq] at pass ⊢
  exact pass.imp_right (more edge)

/-- The same edges given, the same pages allowed. -/
theorem allowed_congr {bits : Nat} {given given' : List (List (Fin 512))} (s : Vmm) (v : Nat)
    (same : ∀ edge, edge ∈ given ↔ edge ∈ given') :
    allowed bits given s v = allowed bits given' s v := by
  rw [Bool.eq_iff_iff]
  exact ⟨allowed_mono fun edge => (same edge).mp, allowed_mono fun edge => (same edge).mpr⟩

/-- `t` has the rights of `s`, but for the user bit in the entries at the edges given. -/
structure Opens (s t : Vmm) (edges : List (List (Fin 512))) : Prop where
  writable : ∀ v, writeMay t v = writeMay s v
  user : ∀ given v, allowed vmmUser given t v = allowed vmmUser (edges ++ given) s v

/-- Nothing changed. -/
theorem Opens.refl (s : Vmm) : Opens s s [] := ⟨fun _ => rfl, fun _ _ => rfl⟩

/-- One change after the other. -/
theorem Opens.trans {s t u : Vmm} {edges edges' : List (List (Fin 512))}
    (h : Opens s t edges) (h' : Opens t u edges') : Opens s u (edges ++ edges') where
  writable := fun v => (h'.writable v).trans (h.writable v)
  user := fun given v => by rw [h'.user, h.user, List.append_assoc]

/-- A change of one edge is known by what the checks find behind it. -/
theorem Opens.of_edge {s t : Vmm} {p : List (Fin 512)} {f : Nat} {i : Fin 512}
    (cr3 : t.cr3 = s.cr3) (same : EqOff slot s.mem t.mem s.root p i) (at_p : s.table p = some f)
    (writable : ∀ v rest, path v = p ++ [i] ++ rest →
      passes slot (hasBits vmmWritable []) t.mem p f (i :: rest) =
        passes slot (hasBits vmmWritable []) s.mem p f (i :: rest))
    (user : ∀ given v rest, path v = p ++ [i] ++ rest →
      passes slot (hasBits vmmUser given) t.mem p f (i :: rest) =
        passes slot (hasBits vmmUser ([p ++ [i]] ++ given)) s.mem p f (i :: rest)) :
    Opens s t [p ++ [i]] := by
  have root : t.root = s.root := by rw [Vmm.root, cr3, Vmm.root]
  refine ⟨fun v => ?_, fun given v => ?_⟩
  · rw [writeMay, allowed, root]
    exact same.passes_eq (fun _ _ _ => rfl) at_p fun rest whole =>
      writable v rest (by rw [whole, List.append_assoc]; rfl)
  · rw [allowed, root]
    refine same.passes_eq (fun edge e other => ?_) at_p fun rest whole =>
      user given v rest (by rw [whole, List.append_assoc]; rfl)
    simp [hasBits, other]

/-- **Setting the user bit** of an entry opens that edge. -/
theorem PageTree.or_user_opens {s : Vmm} {p : List (Fin 512)} {f : Nat} {i : Fin 512}
    (tree : PageTree Entry s) (at_p : s.table p = some f) :
    Opens s (s.set f i (s.mem f i ||| vmmUser)) [p ++ [i]] := by
  have same := tree.eqOff (e := s.mem f i ||| vmmUser) (i := i) at_p
  have here : (s.set f i (s.mem f i ||| vmmUser)).mem f i = s.mem f i ||| vmmUser := by
    simp [Vmm.set]
  -- the entry means what it did, and nothing changed below it
  have below : ∀ {ok ok' : List (Fin 512) → Nat → Bool} (rest : List (Fin 512)),
      (∀ edge e, edge ≠ p ++ [i] → ok' edge e = ok edge e) →
      ok' (p ++ [i]) (s.mem f i ||| vmmUser) = ok (p ++ [i]) (s.mem f i) →
      passes slot ok' (s.set f i (s.mem f i ||| vmmUser)).mem p f (i :: rest) =
        passes slot ok s.mem p f (i :: rest) := by
    intro ok ok' rest checks check
    simp only [passes, here, check, slot_or_user]
    cases entry : slot p.length (s.mem f i) with
    | table g =>
        simp only
        rw [same.passes_off checks (reach_link at_p entry) fun r nonempty _ eq =>
          nonempty (by simpa using eq)]
    | _ => rfl
  refine .of_edge rfl same at_p (fun v rest _ => ?_) fun given v rest _ => ?_
  · refine below rest (fun _ _ _ => rfl) ?_
    simp [hasBits, Nat.and_or_distrib_right, vmmUser, vmmWritable]
  · refine below rest (fun edge e other => ?_) ?_
    · simp [hasBits, other]
    · simp [hasBits, Nat.and_or_distrib_right, vmmUser]

/-- A link put in has both bits. -/
theorem link_bits (np : Nat) :
    (np ||| vmmPresent ||| vmmWritable ||| vmmUser) &&& vmmUser ≠ 0 ∧
      (np ||| vmmPresent ||| vmmWritable ||| vmmUser) &&& vmmWritable ≠ 0 := by
  simp [Nat.and_or_distrib_right, vmmPresent, vmmUser, vmmWritable]

/-- A small page has the bit to write of its large page, and the user bit. -/
theorem smallPages_bits (e : Nat) (j : Fin 512) :
    smallPages e j &&& vmmWritable = e &&& vmmWritable ∧ smallPages e j &&& vmmUser ≠ 0 := by
  have aligned : (e &&& hugeMask) + j * pageSize &&& vmmWritable = 0 := by
    rw [show vmmWritable = (2 ^ 1 - 1) <<< 1 from rfl, and_mask, and_hugeMask]
    simp only [pageSize]
    omega
  have low : e &&& 0xFFF &&& vmmWritable = e &&& vmmWritable := by
    rw [Nat.and_assoc]
    rfl
  simp only [smallPages, Nat.and_or_distrib_right, aligned, low]
  simp [vmmPresent, vmmUser, vmmWritable]

/-- **A level of the walk down** opens the edge it passes, or fails and opens none. -/
theorem nextTable_opens {s : Vmm} {p : List (Fin 512)} {f : Nat} {i : Fin 512}
    (tree : PageTree Entry s) (at_p : s.table p = some f) (upper : p.length < 3) :
    ((nextTable s f i).1 = 0 ∧ Opens s (nextTable s f i).2 []) ∨
      Opens s (nextTable s f i).2 [p ++ [i]] := by
  obtain ⟨-, outcome⟩ := allocPage_spec tree
  have frames : s.allocPage.1 ≠ 0 → ∃ k, s.allocPage.1 = k * pageSize ∧ k < maxPages :=
    fun frame => (outcome.resolve_left fun failed => frame failed.1).2.2.1
  rcases nextTable_cases s f i frames with
    ⟨-, null, eval⟩ | ⟨absent, frame, eval⟩ | ⟨present, eval⟩
  · rw [eval]
    exact .inl ⟨rfl, ⟨fun _ => rfl, fun _ _ => rfl⟩⟩
  · obtain ⟨-, -, ⟨k, eq, inRange⟩, fresh, -⟩ :=
      outcome.resolve_left fun failed => frame failed.1
    have unlike : s.allocPage.1 ≠ f := fun eq => fresh p (eq ▸ at_p)
    rw [eval]
    -- no page is mapped behind the entry, before or after
    have before : ∀ ok rest, passes slot ok s.mem p f (i :: rest) = false := by
      intro ok rest
      simp only [passes, slot_absent absent, Bool.and_false]
    have after : ∀ ok rest, passes slot ok ((s.allocPage.2.zeroPage s.allocPage.1).set f i
        (s.allocPage.1 ||| vmmPresent ||| vmmWritable ||| vmmUser)).mem p f (i :: rest) = false := by
      intro ok rest
      have link := slot_link (d := p.length) inRange upper
      rw [← eq] at link
      simp only [passes, Vmm.set, and_self, if_true, link]
      cases rest with
      | nil => simp [passes]
      | cons j rest => simp [passes, unlike, Vmm.zeroPage, Vmm.fillPage]
    refine .inr (.of_edge rfl (tree.eqOff_fill at_p fresh) at_p (fun v rest _ => ?_)
      fun given v rest _ => ?_)
    · rw [before]
      exact after _ rest
    · rw [before]
      exact after _ rest
  · rw [eval]
    exact .inr (tree.or_user_opens at_p)

/-- **The split of a large page** opens its edge, fails and opens none, or has nothing
to split. -/
theorem splitHugePd_opens {s : Vmm} {p : List (Fin 512)} {f : Nat} {i : Fin 512}
    (tree : PageTree Entry s) (at_p : s.table p = some f) (level : p.length = 2) :
    Opens s (splitHugePd s f i).2 [] ∨ Opens s (splitHugePd s f i).2 [p ++ [i]] := by
  obtain ⟨-, outcome⟩ := allocPage_spec tree
  rcases splitHugePd_cases s f i with ⟨small, eval⟩ | ⟨-, null, eval⟩ | ⟨huge, frame, eval⟩
  · rw [eval]
    exact .inl (.refl s)
  · rw [eval]
    exact .inl ⟨fun _ => rfl, fun _ _ => rfl⟩
  · obtain ⟨⟨clean, -⟩, ⟨absent, -⟩⟩ := tree.entries at_p i
    have present : s.mem f i &&& vmmPresent ≠ 0 := fun none => huge (absent level none)
    obtain ⟨-, -, ⟨k, eq, inRange⟩, fresh, -⟩ :=
      outcome.resolve_left fun failed => frame failed.1
    have unlike : s.allocPage.1 ≠ f := fun eq => fresh p (eq ▸ at_p)
    obtain ⟨user, writable⟩ := link_bits s.allocPage.1
    rw [eval]
    have before : ∀ ok j, passes slot ok s.mem p f [i, j] = ok (p ++ [i]) (s.mem f i) := by
      intro ok j
      simp only [passes, level, slot_large present huge, Bool.and_true]
    have after : ∀ ok j, passes slot ok ((s.allocPage.2.fillPage s.allocPage.1
        (smallPages (s.mem f i))).set f i
          (s.allocPage.1 ||| vmmPresent ||| vmmWritable ||| vmmUser)).mem p f [i, j] =
        (ok (p ++ [i]) (s.allocPage.1 ||| vmmPresent ||| vmmWritable ||| vmmUser) &&
          ok (p ++ [i] ++ [j]) (smallPages (s.mem f i) j)) := by
      intro ok j
      have link := slot_link (d := p.length) inRange (by omega)
      rw [← eq] at link
      have leaf : slot (p ++ [i]).length (smallPages (s.mem f i) j) =
          .leaf ((s.mem f i &&& hugeMask) + j * pageSize) := by
        rw [List.length_append, level]
        exact slot_small j clean
      simp only [passes, Vmm.set, and_self, if_true, link, unlike, false_and, if_false,
        Vmm.fillPage, leaf, Bool.and_true]
    refine .inr (.of_edge rfl (tree.eqOff_fill at_p fresh) at_p (fun v rest through => ?_)
      fun given v rest through => ?_)
    · obtain ⟨j, rfl⟩ := path_rest level through
      rw [before]
      refine (after _ j).trans ?_
      simp [hasBits, writable, (smallPages_bits (s.mem f i) j).1]
    · obtain ⟨j, rfl⟩ := path_rest level through
      rw [before]
      refine (after _ j).trans ?_
      simp [hasBits, user, (smallPages_bits (s.mem f i) j).2]

/-- What a call of `vmm_map` may do to other pages: it opens edges above the page
table on the walk of its own page, all of them when it maps. -/
structure MapOpens (s : Vmm) (virt : Nat) (t : Vmm) (edges : List (List (Fin 512))) : Prop where
  others : ∀ v, path v ≠ path virt →
    writeMay t v = writeMay s v ∧ userMay t v = allowed vmmUser edges s v
  upper : ∀ edge ∈ edges, edge ∈ upperEdges virt
  all : t.oom = false → ∀ edge ∈ upperEdges virt, edge ∈ edges

/-- Every early return of `vmm_map`. -/
theorem MapOpens.of_failed {s t : Vmm} {virt : Nat} {edges : List (List (Fin 512))}
    (opens : Opens s t edges) (oom : t.oom = true)
    (upper : ∀ edge ∈ edges, edge ∈ upperEdges virt) : MapOpens s virt t edges where
  others := fun v _ => ⟨opens.writable v, by rw [userMay, opens.user, List.append_nil]⟩
  upper := upper
  all := fun none => absurd (oom.symm.trans none) (by decide)

/-- A store in the page table leaves the rights on every other page. -/
theorem PageTree.write_rights {s : Vmm} {f e : Nat} {virt v : Nat} {bits : Nat}
    (tree : PageTree Entry s)
    (at_p : s.table [tableIdx virt 39, tableIdx virt 30, tableIdx virt 21] = some f)
    (other : path v ≠ path virt) :
    allowed bits [] (s.set f (tableIdx virt 12) e) v = allowed bits [] s v :=
  (tree.eqOff at_p).passes_eq (fun _ _ _ => rfl) at_p fun rest whole => by
    have lengths := congrArg List.length whole
    simp only [path, List.length_append, List.length_cons, List.length_nil] at lengths
    obtain rfl : rest = [] := List.length_eq_zero_iff.mp (by omega)
    exact absurd whole other

/-- **`vmm_map` opens the walk of its page.** -/
theorem vmmMap_opens {s : Vmm} (tree : PageTree Entry s) (virt phys flags : Nat) :
    ∃ edges, MapOpens s virt (vmmMap s virt phys flags) edges := by
  simp only [vmmMap]
  obtain ⟨keeps₁, outcome₁⟩ := nextTable_spec (p := []) (i := tableIdx virt 39) tree rfl
    (by simp) (by simp)
  have opens₁ := nextTable_opens (p := []) (i := tableIdx virt 39) tree rfl (by simp)
  generalize nextTable s s.root (tableIdx virt 39) = r₁ at *
  rcases outcome₁ with ⟨null, oom⟩ | ⟨pdpt, -, at₁⟩
  · rw [if_pos null]
    rcases opens₁ with ⟨-, opens⟩ | opens
    · exact ⟨_, .of_failed opens oom (by simp)⟩
    · exact ⟨_, .of_failed opens oom (by simp [upperEdges])⟩
  rw [if_neg pdpt]
  replace opens₁ := opens₁.resolve_left fun failed => pdpt failed.1
  obtain ⟨keeps₂, outcome₂⟩ := nextTable_spec (i := tableIdx virt 30) keeps₁.tree at₁
    (by simp) (by simp)
  have opens₂ := nextTable_opens (i := tableIdx virt 30) keeps₁.tree at₁ (by simp)
  generalize nextTable r₁.2 r₁.1 (tableIdx virt 30) = r₂ at *
  rcases outcome₂ with ⟨null, oom⟩ | ⟨pd, -, at₂⟩
  · rw [if_pos null]
    rcases opens₂ with ⟨-, opens⟩ | opens
    · exact ⟨_, .of_failed (opens₁.trans opens) oom (by simp [upperEdges])⟩
    · exact ⟨_, .of_failed (opens₁.trans opens) oom (by simp [upperEdges])⟩
  rw [if_neg pd]
  replace opens₂ := opens₁.trans (opens₂.resolve_left fun failed => pd failed.1)
  obtain ⟨keeps₃, outcome₃⟩ := splitHugePd_spec (i := tableIdx virt 21) keeps₂.tree at₂ (by simp)
  have opens₃ := splitHugePd_opens (i := tableIdx virt 21) keeps₂.tree at₂ (by simp)
  -- the edge of the page directory is opened once or twice
  obtain ⟨edges, opens₃, once⟩ : ∃ edges,
      Opens s (splitHugePd r₂.2 r₂.1 (tableIdx virt 21)).2
        ([[tableIdx virt 39], [tableIdx virt 39, tableIdx virt 30]] ++ edges) ∧
      ∀ edge ∈ edges, edge = [tableIdx virt 39, tableIdx virt 30, tableIdx virt 21] := by
    rcases opens₃ with opens | opens
    · exact ⟨_, opens₂.trans opens, by simp⟩
    · exact ⟨_, opens₂.trans opens, by simp⟩
  have upper₃ : ∀ edge ∈ [[tableIdx virt 39], [tableIdx virt 39, tableIdx virt 30]] ++ edges,
      edge ∈ upperEdges virt := by
    intro edge member
    simp only [upperEdges, List.mem_append, List.mem_cons, List.not_mem_nil, or_false] at member ⊢
    rcases member with (first | second) | third
    · exact .inl first
    · exact .inr (.inl second)
    · exact .inr (.inr (once edge third))
  generalize splitHugePd r₂.2 r₂.1 (tableIdx virt 21) = r₃ at *
  rcases outcome₃ with ⟨failed, oom⟩ | ⟨done, -, at₃, small⟩
  · rw [if_pos (show r₃.1 < 0 by omega)]
    exact ⟨_, .of_failed opens₃ oom upper₃⟩
  rw [if_neg (show ¬ r₃.1 < 0 by omega), if_neg (not_not.mpr small)]
  obtain ⟨keeps₄, outcome₄⟩ := nextTable_spec (i := tableIdx virt 21) keeps₃.tree at₃
    (by simp) (fun _ => small)
  have opens₄ := nextTable_opens (i := tableIdx virt 21) keeps₃.tree at₃ (by simp)
  generalize nextTable r₃.2 r₂.1 (tableIdx virt 21) = r₄ at *
  have upper₄ : ∀ edge ∈ [[tableIdx virt 39], [tableIdx virt 39, tableIdx virt 30]] ++ edges ++
      [[tableIdx virt 39, tableIdx virt 30] ++ [tableIdx virt 21]], edge ∈ upperEdges virt := by
    intro edge member
    rcases List.mem_append.mp member with old | new
    · exact upper₃ edge old
    · simpa [upperEdges] using .inr (.inr (List.mem_singleton.mp new))
  rcases outcome₄ with ⟨null, oom⟩ | ⟨pt, -, at₄⟩
  · rw [if_pos null]
    rcases opens₄ with ⟨-, opens⟩ | opens
    · exact ⟨_, .of_failed (opens₃.trans opens) oom (by simpa using upper₃)⟩
    · exact ⟨_, .of_failed (opens₃.trans opens) oom upper₄⟩
  rw [if_neg pt]
  replace opens₄ := opens₃.trans (opens₄.resolve_left fun failed => pt failed.1)
  refine ⟨_, ⟨fun v other => ⟨?_, ?_⟩, upper₄, fun _ edge member => ?_⟩⟩
  · exact (keeps₄.tree.write_rights at₄ other).trans (opens₄.writable v)
  · refine (keeps₄.tree.write_rights at₄ other).trans ?_
    rw [opens₄.user, List.append_nil]
    rfl
  · simp only [upperEdges, List.mem_cons, List.not_mem_nil, or_false] at member
    rcases member with rfl | rfl | rfl <;> simp

/-- **Rights on other pages.**  A call of `vmm_map` changes no right to write another page and
closes none to user mode.  A page it opens passes only entries that have the user bit or are on
the walk of the mapped page above the page table; and a call that maps opens all of these, a
large page it splits apart.  It follows from which entries the call writes and with which flags
(`vmmMap_opens`); the rights of a page are those of all entries on its walk together. -/
theorem vmmMap_rights {s : Vmm} (tree : PageTree Entry s) (virt phys flags v : Nat)
    (other : pageNumber v ≠ pageNumber virt) :
    writeMay (vmmMap s virt phys flags) v = writeMay s v ∧
      (userMay s v = true → userMay (vmmMap s virt phys flags) v = true) ∧
      (userMay (vmmMap s virt phys flags) v = true →
        allowed vmmUser (upperEdges virt) s v = true) ∧
      ((vmmMap s virt phys flags).oom = false → inLarge s virt v = false →
        userMay (vmmMap s virt phys flags) v = allowed vmmUser (upperEdges virt) s v) := by
  obtain ⟨edges, others, upper, all⟩ := vmmMap_opens tree virt phys flags
  obtain ⟨writable, user⟩ := others v fun eq => other ((path_eq_iff v virt).mp eq)
  refine ⟨writable, fun may => ?_, fun may => ?_, fun done _ => ?_⟩
  · rw [user]
    exact allowed_mono (by simp) may
  · rw [user] at may
    exact allowed_mono upper may
  · rw [user]
    exact allowed_congr s v fun edge => ⟨upper edge, all done edge⟩

/-- The page table tree of a large page at 0 that user mode may access but for the entry
of the PML4. -/
def kernelSpine : Vmm := spine (upperEntries 0x2003 0x3007 0x87)

theorem pageTree_kernelSpine : PageTree Entry kernelSpine :=
  pageTree_upper rfl rfl (fun _ => nofun) entry_zero ⟨⟨by decide, by decide⟩,
    ⟨by decide, fun f link => by cases link; decide⟩⟩ ⟨⟨by decide, by decide⟩,
    ⟨by decide, fun f link => by cases link; decide⟩⟩ ⟨⟨by decide, by decide⟩,
    ⟨by decide, fun f link => by cases link⟩⟩

/-- Mapping a page of the next gigabyte leaves page 0 of that tree writable. -/
theorem vmmMap_rights_kernel :
    writeMay (vmmMap kernelSpine 0x40000000 0x9000 0) 0 = writeMay kernelSpine 0 :=
  (vmmMap_rights pageTree_kernelSpine 0x40000000 0x9000 0 0 (by decide)).1

/-- It opens page 0 to user mode, which it was not before. -/
theorem vmmMap_opens_other : PageTree Entry kernelSpine ∧
    pageNumber 0 ≠ pageNumber 0x40000000 ∧ userMay kernelSpine 0 = false ∧
    userMay (vmmMap kernelSpine 0x40000000 0x9000 0) 0 = true :=
  ⟨pageTree_kernelSpine, by decide, by decide +kernel, by decide +kernel⟩

end Flyos

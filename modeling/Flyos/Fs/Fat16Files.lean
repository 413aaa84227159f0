import Flyos.Fs.Fat16Ops

/-!
# The files of a volume

`Vol.Files` is the invariant of a volume that was formatted and then used: the directory
has its end mark behind the entries in use, every live entry leads along a chain of its
own that has as many clusters as the size needs, and no two live entries have the same
name.  A deletion, a write and a write that fails preserve it.
-/

namespace Flyos

/-- Slot `i` holds a live entry. -/
def Vol.Live (V : Vol) (g : Fat16) (i : Nat) : Prop := i < g.slots ∧ LiveEntry (V.slot i)

/-- `cs` is the chain of the entry `e`: it is as long as the size needs, of clusters that can be
allocated, none of them free, and it does not end in a small value. -/
structure Vol.ChainOf (V : Vol) (g : Fat16) (e : List UInt8) (cs : List Nat) : Prop where
  link : LinkChain V.fat (fun c => ¬ InChain c) (direntCluster e) cs
  empty : cs = [] → direntCluster e = 0
  used : ∀ c ∈ cs, c < g.limit ∧ 2 ≤ V.fat c
  length : cs.length = g.clustersFor (direntSize e)

/-- **The files of a volume**: `chain i` is the chain of the live entry `i`. -/
structure Vol.Files (V : Vol) (g : Fat16) (chain : Nat → List Nat) : Prop where
  ended : ∀ i j, i ≤ j → j < g.slots → direntFirst (V.slot i) = 0 → direntFirst (V.slot j) = 0
  kinds : ∀ i < g.slots, direntFirst (V.slot i) = 0 ∨ direntFirst (V.slot i) = 0xE5 ∨
    LiveEntry (V.slot i)
  chains : ∀ i, V.Live g i → V.ChainOf g (V.slot i) (chain i)
  apart : ∀ i j, V.Live g i → V.Live g j → i ≠ j → List.Disjoint (chain i) (chain j)
  names : ∀ i j, V.Live g i → V.Live g j → direntRaw (V.slot i) = direntRaw (V.slot j) → i = j

section Files

variable {g : Fat16} {V V' : Vol} {chain : Nat → List Nat} {want data e : List UInt8} {i j : Nat}
  {cs : List Nat}

/-! ## Chains -/

/-- Only the entries of its clusters matter to a chain. -/
theorem Vol.ChainOf.congr (held : V.ChainOf g e cs) (same : ∀ c ∈ cs, V'.fat c = V.fat c) :
    V'.ChainOf g e cs where
  link := held.link.congr fun c mem => (same c mem).symm
  empty := held.empty
  used c mem := by
    rw [same c mem]
    exact held.used c mem
  length := held.length

/-- A chain of free clusters is disjoint from every chain of a file. -/
theorem Vol.ChainOf.disjoint_free (held : V.ChainOf g e cs) {l : List Nat}
    (free : ∀ c ∈ l, V.fat c = 0) : List.Disjoint cs l := by
  intro c mem mem'
  have used := (held.used c mem).2
  have zero := free c mem'
  omega

/-- The chain of a live entry is what freeing it goes through. -/
theorem Vol.ChainOf.walk (held : V.ChainOf g e cs) : V.walk (direntCluster e) = cs :=
  Vol.walk_eq held.link

/-- The clusters of a chain lie in the table. -/
theorem Vol.ChainOf.inside (held : V.ChainOf g e cs) {c : Nat} (mem : c ∈ cs) : c < g.entries :=
  (Nat.lt_min.mp (held.used c mem).1).1

/-- The first free clusters. -/
theorem Vol.chainFor_free {c : Nat} (mem : c ∈ V.chainFor g data) :
    2 ≤ c ∧ c < g.limit ∧ V.fat c = 0 :=
  Vol.mem_freeList.mp (List.mem_of_mem_take mem)

/-- Filling newly taken clusters leaves the entries of all other clusters. -/
theorem Vol.fill_fat_of_notMem {c : Nat} (other : c ∉ V.chainFor g data) :
    (V.fill g data).fat c = V.fat c :=
  threaded_of_notMem other

/-- The clusters that a write links up are the chain of the entry that records them. -/
theorem Vol.chainOf_fill (small : data.length < 2 ^ 32) (sized : want.length = 11)
    (enough : g.clustersFor data.length ≤ (V.freeList g).length) :
    (V.fill g data).ChainOf g (newDirent want ((V.chainFor g data).head?.getD 0) data.length)
      (V.chainFor g data) := by
  have all : V.freeList g = V.chainFor g data ++
    (V.freeList g).drop (g.clustersFor data.length) := (List.take_append_drop ..).symm
  have cluster : (V.chainFor g data).head?.getD 0 < 2 ^ 16 := by
    cases first : (V.chainFor g data).head? with
    | none => exact Nat.two_pow_pos 16
    | some c =>
        have low := Vol.freeList_low (List.mem_of_mem_take (List.mem_of_mem_head? first))
        show c < 2 ^ 16
        omega
  refine ⟨?_, fun empty => ?_, fun c mem => ?_, ?_⟩
  · rw [direntCluster_newDirent sized cluster]
    cases first : (V.chainFor g data).head? with
    | none =>
        rw [List.head?_eq_none_iff.mp first]
        show ¬ InChain 0
        omega
    | some c => exact Vol.linkChain_link all first
  · rw [direntCluster_newDirent sized cluster, empty]
    rfl
  · obtain ⟨-, high, -⟩ := Vol.chainFor_free mem
    refine ⟨high, ?_⟩
    show 2 ≤ threaded V.fat 0xFFFF (V.chainFor g data) c
    rcases threaded_of_mem V.fat 0xFFFF mem with last | next
    · rw [last]
      decide
    · exact (Vol.chainFor_free next).1
  · rw [direntSize_newDirent sized small]
    exact List.length_take_of_le enough

namespace Vol.Files

/-! ## Deleting -/

/-- An entry that is in use lies before the end mark. -/
theorem before (files : V.Files g chain) (live : V.Live g i) (le : j ≤ i) :
    direntFirst (V.slot j) ≠ 0 :=
  fun ended => live.2.1 (files.ended j i le live.1 ended)

/-- Deletion takes the live entry of the name. -/
theorem target_of_live (files : V.Files g chain) (live : V.Live g i)
    (named : direntRaw (V.slot i) = want) : V.target g want ≠ none := by
  have some : ∃ j, direntRaw (V.slot j) = want := ⟨i, named⟩
  have le : Nat.find some ≤ i := Nat.find_min' some named
  have inside := live.1
  have taken : V.target g want = Nat.find some :=
    deleteSlot_eq_some_iff.mpr ⟨by omega, files.before live le, Nat.find_spec some,
      fun k less => ⟨files.before live (by omega), Nat.find_min some less⟩⟩
  rw [taken]
  exact Option.some_ne_none _

/-- The entry that deletion takes is live, unless the name starts with the deletion mark. -/
theorem target_live (files : V.Files g chain) (ascii : direntFirst want ≠ 0xE5)
    (taken : V.target g want = some i) : V.Live g i := by
  obtain ⟨inside, more, named, -⟩ := deleteSlot_eq_some_iff.mp taken
  refine ⟨inside, ?_⟩
  rcases files.kinds i inside with ended | deleted | live
  · exact absurd ended more
  · rw [direntFirst_eq, named] at deleted
    exact absurd deleted ascii
  · exact live

/-- The entry that a lookup finds is live. -/
theorem found_iff (files : V.Files g chain) :
    V.found g want = some i ↔ V.Live g i ∧ direntRaw (V.slot i) = want := by
  rw [Vol.found, findSlot_eq_some_iff]
  constructor
  · rintro ⟨inside, live, named, -⟩
    exact ⟨⟨inside, live⟩, named⟩
  · rintro ⟨live, named⟩
    refine ⟨live.1, live.2, named, fun k less => ⟨files.before live (Nat.le_of_lt less), ?_⟩⟩
    rintro ⟨live', named'⟩
    have same := files.names k i ⟨Nat.lt_trans less live.1, live'⟩ live (named'.trans named.symm)
    omega

/-- What deleting frees are clusters of the table. -/
theorem target_inside (files : V.Files g chain) (ascii : direntFirst want ≠ 0xE5) :
    ∀ i, V.target g want = some i → ∀ x ∈ V.walk (direntCluster (V.slot i)), x < g.entries := by
  intro i taken x mem
  have held := files.chains i (files.target_live ascii taken)
  rw [held.walk] at mem
  exact held.inside mem

/-- The live entries after a deletion are the ones of other names. -/
theorem live_delete (files : V.Files g chain) (ascii : direntFirst want ≠ 0xE5) :
    (V.delete g want).Live g j ↔ V.Live g j ∧ direntRaw (V.slot j) ≠ want := by
  rw [Vol.delete]
  cases taken : V.target g want with
  | none =>
      exact ⟨fun live => ⟨live, fun named => files.target_of_live live named taken⟩, And.left⟩
  | some i =>
      have live := files.target_live ascii taken
      obtain ⟨-, more, named, -⟩ := deleteSlot_eq_some_iff.mp taken
      dsimp only
      rw [Vol.Live]
      by_cases same : j = i
      · rw [same, Vol.setSlot_self]
        exact ⟨fun live' => absurd (direntFirst_marked more) live'.2.2.1,
          fun other => absurd named other.2⟩
      · rw [Vol.setSlot_of_ne same]
        exact ⟨fun live' => ⟨live', fun named' => same (files.names j i live' live
          (named'.trans named.symm))⟩, And.left⟩

/-- A deletion leaves the other entries. -/
theorem slot_delete (files : V.Files g chain) (ascii : direntFirst want ≠ 0xE5)
    (live : (V.delete g want).Live g j) : (V.delete g want).slot j = V.slot j := by
  obtain ⟨-, other⟩ := (files.live_delete ascii).mp live
  rw [Vol.delete]
  cases taken : V.target g want with
  | none => rfl
  | some i =>
      obtain ⟨-, -, named, -⟩ := deleteSlot_eq_some_iff.mp taken
      exact Vol.setSlot_of_ne fun same => other (same ▸ named)

/-- A deletion leaves the clusters of the other entries. -/
theorem fat_delete (files : V.Files g chain) (ascii : direntFirst want ≠ 0xE5)
    (live : (V.delete g want).Live g j) {c : Nat} (mem : c ∈ chain j) :
    (V.delete g want).fat c = V.fat c := by
  obtain ⟨live', other⟩ := (files.live_delete ascii).mp live
  rw [Vol.delete]
  cases taken : V.target g want with
  | none => rfl
  | some i =>
      have target := files.target_live ascii taken
      obtain ⟨-, -, named, -⟩ := deleteSlot_eq_some_iff.mp taken
      refine cleared_of_notMem ?_
      rw [(files.chains i target).walk]
      exact files.apart j i live' target (fun same => other (same ▸ named)) mem

/-- **A deletion keeps the files that are left.** -/
theorem delete (files : V.Files g chain) (ascii : direntFirst want ≠ 0xE5) :
    (V.delete g want).Files g chain := by
  have marked : ∀ k, direntFirst ((V.delete g want).slot k) = direntFirst (V.slot k) ∨
      (direntFirst ((V.delete g want).slot k) = 0xE5 ∧ direntFirst (V.slot k) ≠ 0) := by
    intro k
    rw [Vol.delete]
    cases taken : V.target g want with
    | none => exact .inl rfl
    | some i =>
        obtain ⟨-, more, -, -⟩ := deleteSlot_eq_some_iff.mp taken
        dsimp only
        by_cases same : k = i
        · rw [same, Vol.setSlot_self]
          exact .inr ⟨direntFirst_marked more, more⟩
        · rw [Vol.setSlot_of_ne same]
          exact .inl rfl
  refine ⟨fun i j le inside ended => ?_, fun k inside => ?_, fun k live => ?_, ?_, ?_⟩
  · have ended' : direntFirst (V.slot i) = 0 := by
      rcases marked i with same | ⟨deleted, -⟩
      · rw [← same, ended]
      · rw [ended] at deleted
        cases deleted
    have last := files.ended i j le inside ended'
    rcases marked j with same | ⟨-, more⟩
    · rw [same, last]
    · exact absurd last more
  · rcases marked k with same | ⟨deleted, -⟩
    · rcases files.kinds k inside with ended | deleted | live
      · exact .inl (same.trans ended)
      · exact .inr (.inl (same.trans deleted))
      · by_cases named : direntRaw (V.slot k) = want
        · -- the entry that was deleted
          refine .inr (.inl ?_)
          cases taken : V.target g want with
          | none => exact absurd taken (files.target_of_live ⟨inside, live⟩ named)
          | some i =>
              obtain ⟨-, more, named', -⟩ := deleteSlot_eq_some_iff.mp taken
              have target := files.target_live ascii taken
              obtain rfl := files.names k i ⟨inside, live⟩ target (named.trans named'.symm)
              rw [Vol.delete, taken]
              dsimp only
              rw [Vol.setSlot_self]
              exact direntFirst_marked more
        · exact .inr (.inr ((files.live_delete ascii).mpr ⟨⟨inside, live⟩, named⟩).2)
    · exact .inr (.inl deleted)
  · have live' := ((files.live_delete ascii).mp live).1
    rw [files.slot_delete ascii live]
    exact (files.chains k live').congr fun c mem => files.fat_delete ascii live mem
  · intro i j liveI liveJ
    exact files.apart i j ((files.live_delete ascii).mp liveI).1 ((files.live_delete ascii).mp liveJ).1
  · intro i j liveI liveJ named
    rw [files.slot_delete ascii liveI, files.slot_delete ascii liveJ] at named
    exact files.names i j ((files.live_delete ascii).mp liveI).1
      ((files.live_delete ascii).mp liveJ).1 named

/-! ## Writing -/

/-- Filling newly taken clusters keeps the files. -/
theorem fill (files : V.Files g chain) (data : List UInt8) : (V.fill g data).Files g chain := by
  refine ⟨files.ended, files.kinds, fun k live => ?_, files.apart, files.names⟩
  have held := files.chains k live
  refine held.congr fun c mem => Vol.fill_fat_of_notMem fun new => ?_
  exact held.disjoint_free (fun c mem => (Vol.chainFor_free mem).2.2) mem new

/-- The live entries after a slot was filled. -/
theorem live_setSlot (inside : i < g.slots) (live : LiveEntry e) :
    (V.setSlot i e).Live g j ↔ j = i ∨ V.Live g j := by
  rw [Vol.Live]
  by_cases same : j = i
  · rw [same, Vol.setSlot_self]
    exact ⟨fun _ => .inl rfl, fun _ => ⟨inside, live⟩⟩
  · rw [Vol.setSlot_of_ne same]
    exact ⟨.inr, fun either => either.resolve_left same⟩

/-- **An unused slot filled with the entry of a new file keeps the files**, and adds it. -/
theorem setSlot (files : V.Files g chain) (slot : writeSlot V.slot g.slots = some i)
    (live : LiveEntry e) (held : V.ChainOf g e cs)
    (apart : ∀ j, V.Live g j → List.Disjoint (chain j) cs)
    (fresh : ∀ j, V.Live g j → direntRaw (V.slot j) ≠ direntRaw e) :
    (V.setSlot i e).Files g (Function.update chain i cs) := by
  obtain ⟨inside, free, before⟩ := writeSlot_eq_some_iff.mp slot
  have unused : ¬ LiveEntry (V.slot i) := fun live => free.elim live.1 live.2.1
  have there : ∀ {j}, (V.setSlot i e).Live g j ↔ j = i ∨ V.Live g j :=
    live_setSlot inside live
  have other : ∀ {j}, V.Live g j → j ≠ i := fun live same => unused (same ▸ live.2)
  refine ⟨fun k j le last ended => ?_, fun k within => ?_, fun k live' => ?_, ?_, ?_⟩
  · -- the end mark lies behind the slot that was filled
    have later : i < k := by
      rcases Nat.lt_trichotomy k i with less | same | less
      · rw [Vol.setSlot_of_ne (Nat.ne_of_lt less)] at ended
        exact absurd ended (before k less).1
      · rw [same, Vol.setSlot_self] at ended
        exact absurd ended live.1
      · exact less
    rw [Vol.setSlot_of_ne (by omega)] at ended ⊢
    exact files.ended k j le last ended
  · by_cases same : k = i
    · rw [same, Vol.setSlot_self]
      exact .inr (.inr live)
    · rw [Vol.setSlot_of_ne same]
      exact files.kinds k within
  · rcases there.mp live' with same | live'
    · rw [same, Vol.setSlot_self, Function.update_self]
      exact held.congr fun _ _ => rfl
    · rw [Vol.setSlot_of_ne (other live'), Function.update_of_ne (other live')]
      exact (files.chains k live').congr fun _ _ => rfl
  · intro k j liveK liveJ differ
    rcases there.mp liveK with rfl | oldK <;> rcases there.mp liveJ with rfl | oldJ
    · exact absurd rfl differ
    · rw [Function.update_self, Function.update_of_ne (other oldJ)]
      exact (apart j oldJ).symm
    · rw [Function.update_self, Function.update_of_ne (other oldK)]
      exact apart k oldK
    · rw [Function.update_of_ne (other oldK), Function.update_of_ne (other oldJ)]
      exact files.apart k j oldK oldJ differ
  · intro k j liveK liveJ named
    rcases there.mp liveK with rfl | oldK <;> rcases there.mp liveJ with rfl | oldJ
    · rfl
    · rw [Vol.setSlot_self, Vol.setSlot_of_ne (other oldJ)] at named
      exact absurd named.symm (fresh j oldJ)
    · rw [Vol.setSlot_self, Vol.setSlot_of_ne (other oldK)] at named
      exact absurd named (fresh k oldK)
    · rw [Vol.setSlot_of_ne (other oldK), Vol.setSlot_of_ne (other oldJ)] at named
      exact files.names k j oldK oldJ named

end Vol.Files

/-- The entry of a new file is live. -/
theorem liveEntry_newDirent (sized : want.length = 11) (more : direntFirst want ≠ 0)
    (ascii : direntFirst want ≠ 0xE5) (c size : Nat) : LiveEntry (newDirent want c size) := by
  have first : direntFirst (newDirent want c size) = direntFirst want := by
    rw [direntFirst_eq, direntRaw_newDirent sized]
  refine ⟨?_, ?_, ?_⟩
  · rw [first]
    exact more
  · rw [first]
    exact ascii
  · rw [direntAttr_newDirent sized]
    decide

/-- The chains after a write. -/
def Vol.chainsAfter (V : Vol) (g : Fat16) (chain : Nat → List Nat) (data : List UInt8) :
    Nat → List Nat :=
  if (V.freeList g).length < g.clustersFor data.length then chain
  else
    match writeSlot V.slot g.slots with
    | none => chain
    | some i => Function.update chain i (V.chainFor g data)

/-- **A creation keeps the files**, and adds one if it succeeds. -/
theorem Vol.Files.create (files : V.Files g chain) (sized : want.length = 11)
    (more : direntFirst want ≠ 0) (ascii : direntFirst want ≠ 0xE5) (small : data.length < 2 ^ 32)
    (fresh : ∀ j, V.Live g j → direntRaw (V.slot j) ≠ want) :
    (V.create g want data).2.Files g (V.chainsAfter g chain data) := by
  rw [Vol.create, Vol.chainsAfter]
  by_cases few : (V.freeList g).length < g.clustersFor data.length
  · rw [if_pos few, if_pos few]
    exact files
  rw [if_neg few, if_neg few]
  cases slot : writeSlot V.slot g.slots with
  | none => exact files.fill data
  | some i =>
      have held := Vol.chainOf_fill (V := V) (g := g) small sized (Nat.le_of_not_lt few)
      refine (files.fill data).setSlot slot (liveEntry_newDirent sized more ascii _ _) held
        (fun j live => ?_) fun j live => ?_
      · exact (files.chains j live).disjoint_free fun c mem => (Vol.chainFor_free mem).2.2
      · rw [direntRaw_newDirent sized]
        exact fresh j live

/-- **A write keeps the files.** -/
theorem Vol.Files.write (files : V.Files g chain) (sized : want.length = 11)
    (more : direntFirst want ≠ 0) (ascii : direntFirst want ≠ 0xE5) (small : data.length < 2 ^ 32) :
    (V.write g want data).2.Files g ((V.delete g want).chainsAfter g chain data) := by
  refine (files.delete ascii).create sized more ascii small fun j live => ?_
  rw [files.slot_delete ascii live]
  exact ((files.live_delete ascii).mp live).2

end Files

end Flyos

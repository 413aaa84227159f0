import Flyos.Gui.Gui

/-!
# What holds of the windows

The windows from the back to the front are a list (`Gui.stack`).  `window_manager` says what
holds of it, of the focus and of the window that is dragged, after any events.
-/

namespace Flyos

variable {H κ : Type} {font : UInt8 → Nat → UInt8} {cb : Callbacks H κ} {g : Gui H κ}
  {p q : WinPtr} {d d' d'' : Desktop H κ}

/-- The windows, from the back to the front. -/
def Gui.stack (g : Gui H κ) : List WinPtr := slots g.windows g.windowCount

/-! ## The places -/

/-- The windows are where they were. -/
def SamePlaces (d d' : Desktop H κ) : Prop :=
  ∀ p, (d'.store p).x = (d.store p).x ∧ (d'.store p).y = (d.store p).y

theorem SamePlaces.refl (d : Desktop H κ) : SamePlaces d d := fun _ => ⟨rfl, rfl⟩

theorem SamePlaces.trans (first : SamePlaces d d') (second : SamePlaces d' d'') :
    SamePlaces d d'' := fun p =>
  ⟨(second p).1.trans (first p).1, (second p).2.trans (first p).2⟩

/-- A window gains or loses the focus where it is. -/
theorem samePlaces_setFocused (p : WinPtr) (focused : Bool) (d : Desktop H κ) :
    SamePlaces d (d.setFocused p focused) := by
  intro q
  unfold Desktop.setFocused Desktop.setWindow
  dsimp only
  rw [Function.update_apply]
  split
  · rename_i same
    rw [same]
    exact ⟨rfl, rfl⟩
  · exact ⟨rfl, rfl⟩

/-- The callbacks leave the windows where they are. -/
structure Callbacks.KeepPlaces (cb : Callbacks H κ) : Prop where
  call : ∀ h p d, SamePlaces d (cb.call h p d)
  click : ∀ h p mx my d, SamePlaces d (cb.click h p mx my d)

namespace Callbacks.KeepPlaces

variable (keep : cb.KeepPlaces)
include keep

theorem callIf (h : Option H) (p : WinPtr) (d : Desktop H κ) : SamePlaces d (cb.callIf h p d) := by
  cases h with
  | none => exact .refl d
  | some h => exact keep.call h p d

theorem clickIf (h : Option H) (p : WinPtr) (mx my : Int32) (d : Desktop H κ) :
    SamePlaces d (cb.clickIf h p mx my d) := by
  cases h with
  | none => exact .refl d
  | some h => exact keep.click h p mx my d

/-- `window_draw` leaves the windows where they are. -/
theorem windowDraw (p : WinPtr) (d : Desktop H κ) : SamePlaces d (windowDraw font cb p d) := by
  unfold Flyos.windowDraw
  dsimp only
  split
  · exact keep.callIf _ p _
  · exact .refl d

/-- `gui_redraw` leaves the windows where they are. -/
theorem guiRedraw (font : UInt8 → Nat → UInt8) (g : Gui H κ) :
    SamePlaces g.desktop (guiRedraw font cb g).desktop := by
  have turns (ps : List WinPtr) (d : Desktop H κ) :
      SamePlaces d (ps.foldl (redrawWindow font cb g.focus) d) := by
    induction ps generalizing d with
    | nil => exact .refl d
    | cons p ps ih =>
        refine SamePlaces.trans ?_ (ih _)
        unfold redrawWindow
        split
        · exact (samePlaces_setFocused p _ d).trans (keep.windowDraw p _)
        · exact .refl d
  exact turns _ (Desktop.draw _ (Desktop.onScreen fbCursorHide g.desktop))

end Callbacks.KeepPlaces

/-! ## The slots -/

theorem length_stack (g : Gui H κ) : g.stack.length = g.windowCount :=
  length_slots g.windows g.windowCount

/-- A window is added in front of the others, if there is room. -/
theorem stack_guiAddWindow (win : WinPtr) (g : Gui H κ) :
    (guiAddWindow win g).stack =
      if g.windowCount < maxWindows then g.stack ++ [win] else g.stack := by
  unfold guiAddWindow
  split
  · rename_i full
    rw [if_neg (Nat.not_lt.mpr full)]
  · rename_i room
    rw [if_pos (Nat.not_le.mp room)]
    exact slots_push g.windows g.windowCount win

/-- **A window is brought to the front.** -/
theorem bringToFront_spec (distinct : g.stack.Nodup) (there : p ∈ g.stack) :
    ∃ ws, bringToFront p g = { g with windows := ws } ∧
      slots ws g.windowCount = g.stack.erase p ++ [p] := by
  obtain ⟨i, inside, holds⟩ := mem_slots.mp there
  obtain ⟨n, count⟩ : ∃ n, g.windowCount = n + 1 := ⟨g.windowCount - 1, by omega⟩
  unfold bringToFront
  rw [if_neg (by omega)]
  split
  · rename_i front
    refine ⟨g.windows, rfl, ?_⟩
    have last : g.stack = slots g.windows n ++ [p] := by
      rw [Gui.stack, count, front, count, Nat.add_sub_cancel, slots, List.range_succ,
        List.map_append]
      rfl
    have behind : p ∉ slots g.windows n := fun mem => by
      rw [last] at distinct
      exact (List.nodup_append.mp distinct).2.2 p mem p (List.mem_singleton_self p) rfl
    rw [← Gui.stack, last, List.erase_append_right _ behind, List.erase_cons_head,
      List.append_nil]
  · cases found : slotOf g.windows g.windowCount p with
    | none => exact absurd there (slotOf_none.mp found)
    | some idx =>
        refine ⟨_, rfl, ?_⟩
        have taken := slots_closeGap_slotOf distinct found
        rw [count, Nat.add_sub_cancel] at taken ⊢
        rw [slots_push, taken]
        rw [Gui.stack, count]

/-- Only the desktop changes. -/
theorem markFocus_eq (focused : Bool) (g : Gui H κ) :
    ∃ d, markFocus focused g = { g with desktop := d } ∧ SamePlaces g.desktop d := by
  unfold markFocus
  split
  · exact ⟨g.desktop, rfl, .refl _⟩
  · exact ⟨_, rfl, samePlaces_setFocused _ focused g.desktop⟩

/-- The focus that is passed on is on a window of the stack, or where it was. -/
theorem passFocus_spec (p : WinPtr) (g : Gui H κ) :
    ∃ f d, passFocus p g = { g with focus := f, desktop := d } ∧
      ∀ v, f = some v → v ∈ g.stack ∨ g.focus = some v ∧ v ≠ p := by
  unfold passFocus
  split
  · rename_i focused
    obtain ⟨d, marked, -⟩ := markFocus_eq true { g with
      focus := if 0 < g.windowCount then some (g.windows (g.windowCount - 1)) else none }
    refine ⟨_, d, marked, fun v last => .inl ?_⟩
    split at last
    · exact mem_slots.mpr ⟨g.windowCount - 1, by omega, Option.some.inj last⟩
    · cases last
  · rename_i other
    exact ⟨g.focus, g.desktop, rfl, fun v same => .inr ⟨same, fun eq => other (eq ▸ same)⟩⟩

/-- **A window is removed**, and is neither in focus nor dragged afterwards. -/
theorem guiRemoveWindow_spec (distinct : g.stack.Nodup) (there : p ∈ g.stack)
    (focused : ∀ v, g.focus = some v → v ∈ g.stack) :
    (guiRemoveWindow p g).stack = g.stack.erase p ∧
      (∀ v, (guiRemoveWindow p g).focus = some v → v ∈ g.stack.erase p) ∧
      (guiRemoveWindow p g).dragWin = if g.dragWin = some p then none else g.dragWin := by
  unfold guiRemoveWindow
  cases found : slotOf g.windows g.windowCount p with
  | none => exact absurd there (slotOf_none.mp found)
  | some idx =>
      have taken : (takeOut idx g).stack = g.stack.erase p := slots_closeGap_slotOf distinct found
      obtain ⟨f, d, passed, focus⟩ := passFocus_spec p (takeOut idx g)
      rw [taken] at focus
      dsimp only
      rw [passed]
      have inFocus (v : WinPtr) (same : f = some v) : v ∈ g.stack.erase p := by
        rcases focus v same with last | ⟨before, other⟩
        · exact last
        · exact (List.mem_erase_of_ne other).mpr (focused v before)
      unfold dropDrag
      split
      · rename_i dragged
        exact ⟨taken, inFocus, (if_pos dragged).symm⟩
      · rename_i other
        exact ⟨taken, inFocus, (if_neg other).symm⟩

/-! ## The topmost window -/

/-- The window is seen at a place of the screen. -/
def Gui.HitAt (g : Gui H κ) (x y : Int32) (p : WinPtr) : Prop :=
  (g.desktop.store p).visible = true ∧ windowHit (g.desktop.store p) x y = true

/-- **The topmost window at a place**: one that is seen there, and none in front of it is. -/
theorem guiTopWindowAt_iff {x y : Int32} : guiTopWindowAt g x y = some p ↔
    g.HitAt x y p ∧ ∃ behind front, g.stack = behind ++ p :: front ∧
      ∀ q ∈ front, ¬ g.HitAt x y q := by
  unfold guiTopWindowAt
  rw [List.find?_eq_some_iff_append, Bool.and_eq_true]
  refine and_congr Iff.rfl ?_
  constructor
  · rintro ⟨front, behind, split, miss⟩
    refine ⟨behind.reverse, front.reverse, ?_, fun q mem hit => ?_⟩
    · have turned := congrArg List.reverse split
      rw [List.reverse_reverse, List.reverse_append, List.reverse_cons, List.append_assoc] at turned
      exact turned
    · have missed := miss q (List.mem_reverse.mp mem)
      rw [hit.1, hit.2] at missed
      cases missed
  · rintro ⟨behind, front, split, miss⟩
    refine ⟨front.reverse, behind.reverse, ?_, fun q mem => ?_⟩
    · rw [← Gui.stack, split, List.reverse_append, List.reverse_cons, List.append_assoc]
      rfl
    · rw [Bool.not_eq_true', ← Bool.not_eq_true, Bool.and_eq_true]
      exact miss q (List.mem_reverse.mp mem)

/-- The topmost window is one of the stack. -/
theorem guiTopWindowAt_mem {x y : Int32} (top : guiTopWindowAt g x y = some p) : p ∈ g.stack := by
  obtain ⟨-, behind, front, split, -⟩ := guiTopWindowAt_iff.mp top
  rw [split]
  exact List.mem_append_right _ List.mem_cons_self

/-! ## One event -/

/-- The windows are distinct and not too many, and `focus` and `drag_win` are null or one of
them. -/
structure Gui.Tidy (g : Gui H κ) : Prop where
  distinct : g.stack.Nodup
  few : g.windowCount ≤ maxWindows
  focus : ∀ v, g.focus = some v → v ∈ g.stack
  drag : ∀ v, g.dragWin = some v → v ∈ g.stack

/-- The dragged window has its offset from the pointer. -/
def Gui.Follows (g : Gui H κ) (mx my : Int32) : Prop :=
  ∀ p, g.dragWin = some p →
    mx - (g.desktop.store p).x = g.dragOffX ∧ my - (g.desktop.store p).y = g.dragOffY

/-- **A window that is raised** is the last one and in focus. -/
theorem raiseWindow_spec (tidy : Gui.Tidy g) (there : p ∈ g.stack) : ∃ ws d,
    raiseWindow p g = { g with windows := ws, focus := some p, desktop := d } ∧
      slots ws g.windowCount = g.stack.erase p ++ [p] := by
  obtain ⟨ws, moved, front⟩ := bringToFront_spec tidy.distinct there
  unfold raiseWindow
  rw [moved]
  obtain ⟨d, unmarked, -⟩ := markFocus_eq false { g with windows := ws }
  rw [unmarked]
  obtain ⟨d', marked, -⟩ := markFocus_eq true { g with
    windows := ws, desktop := d, focus := some p }
  exact ⟨ws, d', marked, front⟩

/-- A title that is pressed starts a drag, with the offset that the pointer has. -/
theorem startDrag_spec (p : WinPtr) (mx my : Int32) (free : g.dragWin = none) :
    ∃ drag x y, startDrag p mx my g = { g with dragWin := drag, dragOffX := x, dragOffY := y } ∧
      (∀ v, drag = some v → v = p) ∧ (startDrag p mx my g).Follows mx my := by
  unfold startDrag
  dsimp only
  split
  · refine ⟨some p, _, _, rfl, fun v same => (Option.some.inj same).symm, fun v same => ?_⟩
    obtain rfl := Option.some.inj same
    exact ⟨rfl, rfl⟩
  · refine ⟨none, g.dragOffX, g.dragOffY, by rw [← free], fun v none => (by cases none),
      fun v some => ?_⟩
    rw [free] at some
    cases some

/-- **A press on a window** raises it; the window that is dragged then is this one. -/
theorem pressWindow_spec (font : UInt8 → Nat → UInt8) (cb : Callbacks H κ)
    (tidy : Gui.Tidy g) (there : p ∈ g.stack) (free : g.dragWin = none)
    (mx my : Int32) :
    (pressWindow font cb p mx my g).stack = g.stack.erase p ++ [p] ∧
      (pressWindow font cb p mx my g).windowCount = g.windowCount ∧
      (pressWindow font cb p mx my g).focus = some p ∧
      (∀ v, (pressWindow font cb p mx my g).dragWin = some v → v = p) ∧
      (cb.KeepPlaces → (pressWindow font cb p mx my g).Follows mx my) := by
  obtain ⟨ws, d, raised, front⟩ := raiseWindow_spec tidy there
  have idle : (raiseWindow p g).dragWin = none := by
    rw [raised]
    exact free
  obtain ⟨drag, x, y, started, one, follows⟩ := startDrag_spec p mx my idle
  unfold pressWindow
  dsimp only
  rw [started, raised] at follows ⊢
  refine ⟨front, rfl, rfl, one, fun keep v same => ?_⟩
  have clicked := keep.clickIf (d.store p).onClick p mx my d
  have redrawn := clicked.trans (keep.guiRedraw font { g with
    windows := ws, focus := some p, dragWin := drag, dragOffX := x, dragOffY := y
    desktop := cb.clickIf (d.store p).onClick p mx my d })
  rw [(redrawn v).1, (redrawn v).2]
  exact follows v same

/-- **A press that closes a window** removes it. -/
theorem closeWindow_spec (font : UInt8 → Nat → UInt8) (cb : Callbacks H κ)
    (tidy : Gui.Tidy g) (there : p ∈ g.stack) (free : g.dragWin = none) :
    (closeWindow font cb p g).stack = g.stack.erase p ∧
      Gui.Tidy (closeWindow font cb p g) ∧ (closeWindow font cb p g).dragWin = none := by
  let g₁ : Gui H κ := { g with desktop := cb.callIf (g.desktop.store p).onClose p g.desktop }
  obtain ⟨stack, focus, drag⟩ := guiRemoveWindow_spec (g := g₁) tidy.distinct there tidy.focus
  have none : (guiRemoveWindow p g₁).dragWin = none := by
    rw [drag]
    split
    · rfl
    · exact free
  have tidied : Gui.Tidy (guiRemoveWindow p g₁) := by
    refine ⟨stack ▸ tidy.distinct.erase p, ?_, fun v same => stack ▸ focus v same, fun v same => ?_⟩
    · rw [← length_stack, stack]
      exact List.length_erase_le.trans ((length_stack g).le.trans tidy.few)
    · rw [none] at same
      cases same
  exact ⟨stack, ⟨tidied.distinct, tidied.few, tidied.focus, tidied.drag⟩, none⟩

/-- **A drag** moves the window with the pointer. -/
theorem dragTo_spec (font : UInt8 → Nat → UInt8) (cb : Callbacks H κ)
    (p : WinPtr) (mx my : Int32) (g : Gui H κ) :
    ∃ d, dragTo font cb p mx my g = { g with desktop := d } ∧ (cb.KeepPlaces →
      mx - (d.store p).x = g.dragOffX ∧ my - (d.store p).y = g.dragOffY) := by
  have back (a b : Int32) : a - (a - b) = b := by grind
  unfold dragTo
  dsimp only
  split
  · let d := g.desktop.moveTo p (mx - g.dragOffX) (my - g.dragOffY)
    let g₁ : Gui H κ := { g with desktop := cb.callIf (d.store p).onMove p d }
    refine ⟨(guiRedraw font cb g₁).desktop, rfl, fun keep => ?_⟩
    have called := keep.callIf (d.store p).onMove p d
    have redrawn := called.trans (keep.guiRedraw font g₁)
    have moved : d.store p =
        { g.desktop.store p with x := mx - g.dragOffX, y := my - g.dragOffY } :=
      Function.update_self ..
    rw [(redrawn p).1, (redrawn p).2, moved]
    exact ⟨back .., back ..⟩
  · rename_i still
    refine ⟨g.desktop, rfl, fun _ => ?_⟩
    obtain ⟨sameX, sameY⟩ := not_or.mp still
    rw [← not_ne_iff.mp sameX, ← not_ne_iff.mp sameY, back, back]
    exact ⟨rfl, rfl⟩

/-! ## Any events -/

/-- The events: a window added, and the mouse with its place and buttons. -/
inductive GuiOp
  | add (win : WinPtr)
  | mouse (mx my : Int32) (buttons : UInt8)

/-- The window that an event closes. -/
def closes (g : Gui H κ) (mx my : Int32) (b : UInt8) : Option WinPtr :=
  if leftDown b && !leftDown g.lastButtons then
    (guiTopWindowAt g mx my).filter fun p => windowCloseHit (g.desktop.store p) mx my
  else none

/-- The gui, with the windows that were added and that were closed so far, and the place where
the pointer was at the last event. -/
structure GuiLog (H κ : Type) where
  gui : Gui H κ
  added : List WinPtr
  closed : List WinPtr
  pointer : Int32 × Int32

/-- What an event does. -/
def GuiLog.event (font : UInt8 → Nat → UInt8) (cb : Callbacks H κ) (L : GuiLog H κ) :
    GuiOp → GuiLog H κ
  | .add win => { L with
      gui := guiAddWindow win L.gui
      added := if L.gui.windowCount < maxWindows then win :: L.added else L.added }
  | .mouse mx my b => { L with
      gui := guiOnMouse font cb mx my b L.gui
      closed := (closes L.gui mx my b).toList ++ L.closed
      pointer := (mx, my) }

/-- After `gui_init`. -/
def GuiLog.start (g : Gui H κ) : GuiLog H κ := ⟨guiInit g, [], [], (0, 0)⟩

/-- After events. -/
def GuiLog.after (font : UInt8 → Nat → UInt8) (cb : Callbacks H κ) (g : Gui H κ)
    (ops : List GuiOp) : GuiLog H κ :=
  ops.foldl (GuiLog.event font cb) (.start g)

/-- The windows that events add. -/
def addedBy : List GuiOp → List WinPtr
  | [] => []
  | .add win :: ops => win :: addedBy ops
  | .mouse _ _ _ :: ops => addedBy ops

/-- **The invariant**: the windows are those that were added and not closed; what is dragged is
dragged with the left button down, at its offset from the pointer. -/
structure GuiInv (cb : Callbacks H κ) (L : GuiLog H κ) : Prop where
  tidy : Gui.Tidy L.gui
  opened : ∀ v, v ∈ L.gui.stack ↔ v ∈ L.added ∧ v ∉ L.closed
  closed : ∀ v ∈ L.closed, v ∈ L.added
  held : L.gui.dragWin ≠ none → leftDown L.gui.lastButtons = true
  follows : cb.KeepPlaces → L.gui.Follows L.pointer.1 L.pointer.2

variable {L : GuiLog H κ}

/-- A window is added. -/
theorem GuiInv.add (inv : GuiInv cb L) {win : WinPtr} (fresh : win ∉ L.added) :
    GuiInv cb (L.event font cb (.add win)) := by
  have stack := stack_guiAddWindow win L.gui
  have tidy := inv.tidy
  by_cases room : L.gui.windowCount < maxWindows
  · have added : guiAddWindow win L.gui = { L.gui with
        windows := Function.update L.gui.windows L.gui.windowCount win
        windowCount := L.gui.windowCount + 1 } := if_neg (Nat.not_le.mpr room)
    have new : win ∉ L.gui.stack := fun mem => fresh ((inv.opened win).mp mem).1
    rw [if_pos room] at stack
    have before (v : WinPtr) (mem : v ∈ L.gui.stack) : v ∈ (guiAddWindow win L.gui).stack :=
      stack ▸ List.mem_append_left _ mem
    have log : L.event font cb (.add win) =
        ⟨guiAddWindow win L.gui, win :: L.added, L.closed, L.pointer⟩ := by
      rw [GuiLog.event, if_pos room]
    rw [log]
    refine ⟨⟨?_, ?_, ?_, ?_⟩, fun v => ?_, ?_, ?_, ?_⟩
    · dsimp only
      rw [stack]
      exact List.nodup_append.mpr ⟨tidy.distinct, List.nodup_singleton win,
        fun v mem w last eq => new (List.mem_singleton.mp last ▸ eq ▸ mem)⟩
    · dsimp only
      rw [added]
      exact room
    · intro v same
      dsimp only at same ⊢
      rw [added] at same
      exact before v (tidy.focus v same)
    · intro v same
      dsimp only at same ⊢
      rw [added] at same
      exact before v (tidy.drag v same)
    · dsimp only
      rw [stack, List.mem_append, List.mem_singleton, List.mem_cons, inv.opened]
      constructor
      · rintro (⟨was, open_⟩ | rfl)
        · exact ⟨.inr was, open_⟩
        · exact ⟨.inl rfl, fun gone => fresh (inv.closed _ gone)⟩
      · rintro ⟨rfl | was, open_⟩
        · exact .inr rfl
        · exact .inl ⟨was, open_⟩
    · exact fun v gone => List.mem_cons_of_mem _ (inv.closed v gone)
    · dsimp only
      rw [added]
      exact inv.held
    · dsimp only
      rw [added]
      exact inv.follows
  · have same : L.event font cb (.add win) = L := by
      rw [GuiLog.event, if_neg room, guiAddWindow, if_pos (Nat.not_lt.mp room)]
    rw [same]
    exact inv

/-- What the mouse can do: the window that it closes, and the gui afterwards. -/
inductive MouseCase (font : UInt8 → Nat → UInt8) (cb : Callbacks H κ) (g : Gui H κ)
    (mx my : Int32) (b : UInt8) : Option WinPtr → Gui H κ → Prop
  | still : leftDown g.lastButtons = false ∨ g.dragWin = none → MouseCase font cb g mx my b none g
  | close {p : WinPtr} : leftDown g.lastButtons = false → guiTopWindowAt g mx my = some p →
      MouseCase font cb g mx my b (some p) (closeWindow font cb p g)
  | press {p : WinPtr} : leftDown b = true → leftDown g.lastButtons = false →
      guiTopWindowAt g mx my = some p →
      MouseCase font cb g mx my b none (pressWindow font cb p mx my g)
  | release : MouseCase font cb g mx my b none { g with dragWin := none }
  | drag {p : WinPtr} : leftDown b = true → g.dragWin = some p →
      MouseCase font cb g mx my b none (dragTo font cb p mx my g)

/-- These are the cases. -/
theorem onMouse_cases (font : UInt8 → Nat → UInt8) (cb : Callbacks H κ) (g : Gui H κ)
    (mx my : Int32) (b : UInt8) :
    MouseCase font cb g mx my b (closes g mx my b) (onMouse font cb mx my b g) := by
  unfold onMouse closes
  cases now : leftDown b with
  | true =>
      cases before : leftDown g.lastButtons with
      | false =>
          rw [if_pos (by rfl), if_pos (by rfl)]
          cases top : guiTopWindowAt g mx my with
          | none => exact .still (.inl before)
          | some p =>
              dsimp only
              split
              · rename_i hit
                rw [Option.filter_some, if_pos hit]
                exact .close before top
              · rename_i miss
                rw [Option.filter_some, if_neg miss]
                exact .press now before top
      | true =>
          rw [if_neg (by decide), if_neg (by decide), if_neg (by decide)]
          cases dragged : g.dragWin with
          | none => exact .still (.inr dragged)
          | some p => exact .drag now dragged
  | false =>
      rw [Bool.false_and, if_neg Bool.false_ne_true, if_neg Bool.false_ne_true]
      split
      · exact .release
      · rename_i up
        exact .still (.inl (by simpa using up))

/-- **The mouse.** -/
theorem GuiInv.mouse (inv : GuiInv cb L) (mx my : Int32) (b : UInt8) :
    GuiInv cb (L.event font cb (.mouse mx my b)) := by
  have tidy := inv.tidy
  have free (up : leftDown L.gui.lastButtons = false) : L.gui.dragWin = none := by
    by_contra dragged
    rw [inv.held dragged] at up
    cases up
  have log : L.event font cb (.mouse mx my b) =
      ⟨{ onMouse font cb mx my b L.gui with lastButtons := b }, L.added,
        (closes L.gui mx my b).toList ++ L.closed, (mx, my)⟩ := rfl
  have step := onMouse_cases font cb L.gui mx my b
  rw [log]
  generalize onMouse font cb mx my b L.gui = after, closes L.gui mx my b = gone at step
  cases step with
  | still idle =>
      have none : L.gui.dragWin = none := idle.elim free id
      refine ⟨⟨tidy.distinct, tidy.few, tidy.focus, tidy.drag⟩, inv.opened, inv.closed,
        fun dragged => absurd none dragged, fun _ v same => ?_⟩
      cases none.symm.trans same
  | @close p up top =>
      obtain ⟨stack, tidied, none⟩ := closeWindow_spec font cb tidy
        (guiTopWindowAt_mem top) (free up)
      have there := (inv.opened p).mp (guiTopWindowAt_mem top)
      refine ⟨⟨tidied.distinct, tidied.few, tidied.focus, tidied.drag⟩, fun v => ?_,
        fun v mem => ?_, fun dragged => absurd none dragged, fun _ v same => ?_⟩
      · show v ∈ (closeWindow font cb p L.gui).stack ↔ v ∈ L.added ∧ v ∉ p :: L.closed
        rw [stack, tidy.distinct.mem_erase_iff, inv.opened, List.mem_cons, not_or]
        tauto
      · rcases List.mem_cons.mp mem with rfl | mem
        · exact there.1
        · exact inv.closed v mem
      · cases none.symm.trans same
  | @press p down up top =>
      have there := guiTopWindowAt_mem top
      obtain ⟨stack, count, focus, one, follows⟩ := pressWindow_spec font cb tidy
        there (free up) mx my
      have members (v : WinPtr) :
          v ∈ (pressWindow font cb p mx my L.gui).stack ↔ v ∈ L.gui.stack := by
        rw [stack, List.mem_append, List.mem_singleton, tidy.distinct.mem_erase_iff]
        by_cases same : v = p
        · rw [same]
          tauto
        · tauto
      refine ⟨⟨?_, ?_, fun v same => ?_, fun v same => ?_⟩,
        fun v => (members v).trans (inv.opened v), inv.closed, fun _ => down, follows⟩
      · show (pressWindow font cb p mx my L.gui).stack.Nodup
        rw [stack]
        exact List.nodup_append.mpr ⟨tidy.distinct.erase p, List.nodup_singleton p,
          fun v mem w last eq =>
            (tidy.distinct.mem_erase_iff.mp mem).1 (eq.trans (List.mem_singleton.mp last))⟩
      · exact count.le.trans tidy.few
      · obtain rfl := Option.some.inj (focus.symm.trans same)
        exact (members p).mpr there
      · rw [one v same]
        exact (members p).mpr there
  | release =>
      refine ⟨⟨tidy.distinct, tidy.few, tidy.focus, fun v same => by cases same⟩, inv.opened,
        inv.closed, fun dragged => absurd rfl dragged, fun _ v same => by cases same⟩
  | @drag p down dragged =>
      obtain ⟨d, moved, follows⟩ := dragTo_spec font cb p mx my L.gui
      rw [moved]
      refine ⟨⟨tidy.distinct, tidy.few, tidy.focus, tidy.drag⟩, inv.opened, inv.closed,
        fun _ => down, fun keep v same => ?_⟩
      obtain rfl := Option.some.inj (dragged.symm.trans same)
      exact follows keep

/-- Before the first event. -/
theorem guiInv_start (cb : Callbacks H κ) (g : Gui H κ) : GuiInv cb (.start g) where
  tidy := ⟨List.nodup_nil, Nat.zero_le _, fun _ same => (by cases same),
    fun _ same => (by cases same)⟩
  opened _ := ⟨fun mem => (by cases mem), fun mem => (by cases mem.1)⟩
  closed _ mem := by cases mem
  held dragged := absurd rfl dragged
  follows _ _ same := by cases same

/-- **Any events** keep the invariant. -/
theorem GuiInv.events {ops : List GuiOp} (inv : GuiInv cb L) (distinct : (addedBy ops).Nodup)
    (fresh : ∀ win ∈ addedBy ops, win ∉ L.added) : GuiInv cb (ops.foldl (.event font cb) L) := by
  induction ops generalizing L with
  | nil => exact inv
  | cons op ops ih =>
      cases op with
      | add win =>
          obtain ⟨new, distinct⟩ := List.nodup_cons.mp distinct
          refine ih (inv.add (fresh win List.mem_cons_self)) distinct fun v mem was => ?_
          have before := fresh v (List.mem_cons_of_mem win mem)
          unfold GuiLog.event at was
          dsimp only at was
          split at was
          · rcases List.mem_cons.mp was with rfl | was
            · exact new mem
            · exact before was
          · exact before was
      | mouse mx my b => exact ih (inv.mouse mx my b) distinct fresh

/-- A press that does not close the topmost window at its place puts this window last, leaves the
others in their order, and sets the focus to it. -/
def PressRaises (font : UInt8 → Nat → UInt8) (cb : Callbacks H κ) (g : Gui H κ) : Prop :=
  ∀ (mx my : Int32) (b : UInt8) (p : WinPtr) (behind front : List WinPtr),
    leftDown b = true → leftDown g.lastButtons = false → g.stack = behind ++ p :: front →
    g.HitAt mx my p → (∀ q ∈ front, ¬ g.HitAt mx my q) →
    windowCloseHit (g.desktop.store p) mx my = false →
    (guiOnMouse font cb mx my b g).stack = behind ++ front ++ [p] ∧
      (guiOnMouse font cb mx my b g).focus = some p

/-- While the left button stays down the same window is dragged, and its place keeps its offset
from the pointer. -/
def DragFollows (font : UInt8 → Nat → UInt8) (cb : Callbacks H κ) (L : GuiLog H κ) : Prop :=
  ∀ (mx my : Int32) (b : UInt8) (p : WinPtr), L.gui.dragWin = some p → leftDown b = true →
    (guiOnMouse font cb mx my b L.gui).dragWin = some p ∧ (cb.KeepPlaces →
      mx - ((guiOnMouse font cb mx my b L.gui).desktop.store p).x =
          L.pointer.1 - (L.gui.desktop.store p).x ∧
        my - ((guiOnMouse font cb mx my b L.gui).desktop.store p).y =
          L.pointer.2 - (L.gui.desktop.store p).y)

/-- **A press.** -/
theorem GuiInv.pressRaises (inv : GuiInv cb L) : PressRaises font cb L.gui := by
  intro mx my b p behind front down up stack hit miss stays
  have tidy := inv.tidy
  have there : p ∈ L.gui.stack := stack ▸ List.mem_append_right _ List.mem_cons_self
  have free : L.gui.dragWin = none := by
    by_contra dragged
    rw [inv.held dragged] at up
    cases up
  have top := guiTopWindowAt_iff.mpr ⟨hit, behind, front, stack, miss⟩
  have pressed : onMouse font cb mx my b L.gui = pressWindow font cb p mx my L.gui := by
    unfold onMouse
    rw [down, up, if_pos (by rfl), top]
    exact if_neg (by rw [stays]; exact Bool.false_ne_true)
  obtain ⟨raised, -, focus, -, -⟩ := pressWindow_spec font cb tidy there free mx my
  have other : p ∉ behind := fun mem => by
    have distinct := tidy.distinct
    rw [stack] at distinct
    exact (List.nodup_append.mp distinct).2.2 p mem p List.mem_cons_self rfl
  rw [stack, List.erase_append_right _ other, List.erase_cons_head] at raised
  unfold guiOnMouse
  rw [pressed]
  exact ⟨raised, focus⟩

/-- **A drag.** -/
theorem GuiInv.dragFollows (inv : GuiInv cb L) : DragFollows font cb L := by
  intro mx my b p dragged down
  have held := inv.held (by rw [dragged]; exact Option.some_ne_none p)
  have moving : onMouse font cb mx my b L.gui = dragTo font cb p mx my L.gui := by
    unfold onMouse
    rw [down, held, if_neg (by decide), if_neg (by decide), dragged]
  obtain ⟨d, moved, follows⟩ := dragTo_spec font cb p mx my L.gui
  unfold guiOnMouse
  rw [moving, moved]
  refine ⟨dragged, fun keep => ?_⟩
  have before := inv.follows keep p dragged
  have after := follows keep
  exact ⟨after.1.trans before.1.symm, after.2.trans before.2.symm⟩

/-- **The window manager**: after any events that add distinct windows, the slots hold the
windows that were added and not closed, `focus` and `drag_win` are null or among them, and a
window is dragged only while the left button is down; a press raises the topmost window, and a
drag keeps its offset.  `GuiInv` is kept by each event, whatever the callbacks do to the places
of their own windows; that a drag keeps the offset needs callbacks which leave the places alone,
as those of the kernel do. -/
theorem window_manager (font : UInt8 → Nat → UInt8) (cb : Callbacks H κ) (g : Gui H κ)
    {ops : List GuiOp} (distinct : (addedBy ops).Nodup) :
    GuiInv cb (.after font cb g ops) ∧ PressRaises font cb (GuiLog.after font cb g ops).gui ∧
      DragFollows font cb (.after font cb g ops) := by
  have inv : GuiInv cb (.after font cb g ops) :=
    (guiInv_start cb g).events distinct fun _ _ mem => by cases mem
  exact ⟨inv, inv.pressRaises, inv.dragFollows⟩

end Flyos

import Flyos.Lib.CInt
import Flyos.Lib.Restore
import Flyos.Lib.Runs

/-!
# The framebuffer and the mouse cursor

`kernel/drivers/fb.c` and `kernel/drivers/fb_cursor.c`.  The memory is that of the
framebuffer, from its address on; the 64-bit sum that gives a pixel's place in it cannot
wrap.  Coordinates are `int`s, and sums of them wrap.

`fb_cursor_show` keeps what it draws over in `saved`, and `fb_cursor_hide` puts it back.
`cursor_no_trace` says that nothing else is left of the cursor.
-/

namespace Flyos

/-- The fields of `fb_info_t` that drawing uses. -/
structure FbMode where
  width : UInt32
  height : UInt32
  pitch : UInt32
  bpp : UInt8
  rPos : UInt8
  rSize : UInt8
  gPos : UInt8
  gSize : UInt8
  bPos : UInt8
  bSize : UInt8

/-! ## Drawing -/

/-- The place of a pixel, if it is on the screen. -/
def FbMode.pixel (fb : FbMode) (x y : Int) : Option Nat :=
  if x < 0 ∨ y < 0 ∨ fb.width.toNat ≤ x ∨ fb.height.toNat ≤ y then none
  else some (y.toNat * fb.pitch.toNat + x.toNat * (fb.bpp.toNat / 8))

/-- One part of `fb_rgb`. -/
def rgbPart (c size pos : UInt8) : UInt32 := (c.toUInt32 >>> (8 - size).toUInt32) <<< pos.toUInt32

/-- `fb_rgb`. -/
def fbRgb (fb : FbMode) (r g b : UInt8) : UInt32 :=
  rgbPart r fb.rSize fb.rPos ||| rgbPart g fb.gSize fb.gPos ||| rgbPart b fb.bSize fb.bPos

/-- `fb_putpixel`. -/
def fbPutpixel (fb : FbMode) (x y : Int) (color : UInt32) (m : ByteMemory) : ByteMemory :=
  match fb.pixel x y with
  | none => m
  | some a => m.store a 4 color.toNat

/-- The cells of a rectangle, row by row. -/
def cellsOf (h w : Nat) : List (Nat × Nat) :=
  (List.range h).flatMap fun j => (List.range w).map fun i => (j, i)

/-- `fb_fill_rect`. -/
def fbFillRect (fb : FbMode) (x y w h : Int) (color : UInt32) (m : ByteMemory) : ByteMemory :=
  (cellsOf h.toNat w.toNat).foldl
    (fun m c => fbPutpixel fb (int32 (x + c.2)) (int32 (y + c.1)) color m) m

/-- `fb_clear`. -/
def fbClear (fb : FbMode) (color : UInt32) (m : ByteMemory) : ByteMemory :=
  fbFillRect fb 0 0 (int32 fb.width.toNat) (int32 fb.height.toNat) color m

/-! ## The cursor -/

/-- `CUR_W`. -/
abbrev curW : Nat := 12

/-- `CUR_H`. -/
abbrev curH : Nat := 19

/-- The rows of `cursor_bmp`: 0 is transparent, 1 the border, 2 the filling. -/
def cursorBmpRows : List (List Nat) :=
  [[1, 0, 0, 0, 0, 0, 0, 0, 0, 0, 0, 0],
   [1, 1, 0, 0, 0, 0, 0, 0, 0, 0, 0, 0],
   [1, 2, 1, 0, 0, 0, 0, 0, 0, 0, 0, 0],
   [1, 2, 2, 1, 0, 0, 0, 0, 0, 0, 0, 0],
   [1, 2, 2, 2, 1, 0, 0, 0, 0, 0, 0, 0],
   [1, 2, 2, 2, 2, 1, 0, 0, 0, 0, 0, 0],
   [1, 2, 2, 2, 2, 2, 1, 0, 0, 0, 0, 0],
   [1, 2, 2, 2, 2, 2, 2, 1, 0, 0, 0, 0],
   [1, 2, 2, 2, 2, 2, 2, 2, 1, 0, 0, 0],
   [1, 2, 2, 2, 2, 2, 2, 2, 2, 1, 0, 0],
   [1, 2, 2, 2, 2, 2, 1, 1, 1, 1, 1, 0],
   [1, 2, 2, 2, 1, 2, 2, 1, 0, 0, 0, 0],
   [1, 2, 2, 1, 1, 2, 2, 1, 0, 0, 0, 0],
   [1, 2, 1, 0, 1, 2, 2, 1, 0, 0, 0, 0],
   [1, 1, 0, 0, 0, 1, 2, 2, 1, 0, 0, 0],
   [1, 0, 0, 0, 0, 1, 2, 2, 1, 0, 0, 0],
   [0, 0, 0, 0, 0, 0, 1, 2, 2, 1, 0, 0],
   [0, 0, 0, 0, 0, 0, 1, 2, 2, 1, 0, 0],
   [0, 0, 0, 0, 0, 0, 0, 1, 1, 0, 0, 0]]

/-- `cursor_bmp[j][i]`. -/
def cursorBmp (j i : Nat) : Nat := (cursorBmpRows.getD j []).getD i 0

/-- The framebuffer and the variables of `fb_cursor.c`; `saved` is an array of `CUR_H` rows of
`CUR_W` values. -/
structure Screen where
  fb : FbMode
  mem : ByteMemory
  curX : Int
  curY : Int
  visible : Bool
  saved : Nat × Nat → Nat

namespace Screen

variable (s : Screen)

/-- The place of the pixel under a cell of the cursor. -/
def under (c : Nat × Nat) : Option Nat := s.fb.pixel (int32 (s.curX + c.2)) (int32 (s.curY + c.1))

/-- `save_under`. -/
def saveUnder : Screen :=
  { s with saved := fun c => match s.under c with
      | none => 0
      | some a => s.mem.load a 4 }

/-- `restore_under`. -/
def restoreUnder : Screen :=
  { s with mem := ByteMemory.storeAll s.under 4 s.saved (cellsOf curH curW) s.mem }

/-- The color of a cell that is not transparent. -/
def cursorColor (c : Nat × Nat) : UInt32 :=
  if cursorBmp c.1 c.2 = 1 then fbRgb s.fb 0 0 0 else fbRgb s.fb 255 255 255

/-- `draw_cursor`; `fb_putpixel` looks again whether a pixel is on the screen. -/
def drawCursor : Screen :=
  { s with
    mem := ByteMemory.storeAll (fun c => if cursorBmp c.1 c.2 = 0 then none else s.under c) 4
      (fun c => (s.cursorColor c).toNat) (cellsOf curH curW) s.mem
    visible := true }

theorem fb_saveUnder : s.saveUnder.fb = s.fb := by
  simp only [saveUnder]

theorem fb_drawCursor : s.drawCursor.fb = s.fb := rfl

theorem mem_saveUnder : s.saveUnder.mem = s.mem := by
  simp only [saveUnder]

theorem under_saveUnder : s.saveUnder.under = s.under := by
  unfold under saveUnder
  rfl

theorem under_drawCursor : s.drawCursor.under = s.under := rfl

theorem saved_drawCursor : s.drawCursor.saved = s.saved := rfl

theorem visible_drawCursor : s.drawCursor.visible = true := rfl

/-- What was saved of a pixel on the screen. -/
theorem saved_saveUnder {c : Nat × Nat} {a : Nat} (place : s.under c = some a) :
    s.saveUnder.saved c = s.mem.load a 4 := by
  simp only [saveUnder, place]

theorem mem_restoreUnder : s.restoreUnder.mem =
    ByteMemory.storeAll s.under 4 s.saved (cellsOf curH curW) s.mem := rfl

theorem mem_drawCursor : s.drawCursor.mem =
    ByteMemory.storeAll (fun c => if cursorBmp c.1 c.2 = 0 then none else s.under c) 4
      (fun c => (s.cursorColor c).toNat) (cellsOf curH curW) s.mem := rfl

end Screen

/-- The cursor placed. -/
def Screen.placed (s : Screen) (x y : Int) : Screen := { s with curX := x, curY := y }

@[simp] theorem Screen.fb_placed (s : Screen) (x y : Int) : (s.placed x y).fb = s.fb := rfl

@[simp] theorem Screen.mem_placed (s : Screen) (x y : Int) : (s.placed x y).mem = s.mem := rfl

/-- The cursor in the middle of the screen. -/
def Screen.centered (s : Screen) : Screen :=
  s.placed ((int32 s.fb.width.toNat).tdiv 2) ((int32 s.fb.height.toNat).tdiv 2)

/-- `fb_cursor_init`. -/
def fbCursorInit (s : Screen) : Screen := s.centered.saveUnder.drawCursor

/-- `fb_cursor_hide`. -/
def fbCursorHide (s : Screen) : Screen :=
  if s.visible then { s.restoreUnder with visible := false } else s

/-- `fb_cursor_show`. -/
def fbCursorShow (s : Screen) : Screen := if s.visible then s else s.saveUnder.drawCursor

/-- A coordinate of the cursor kept on the screen. -/
def clampCursor (x : Int) (size : UInt32) (cur : Nat) : Int :=
  let x := if x < 0 then 0 else x
  let last := int32 (int32 size.toNat - cur)
  if last < x then last else x

/-- The cursor moved, and kept on the screen. -/
def Screen.moved (s : Screen) (dx dy : Int) : Screen :=
  s.placed (clampCursor (int32 (s.curX + dx)) s.fb.width curW)
    (clampCursor (int32 (s.curY + dy)) s.fb.height curH)

/-- `fb_cursor_move`. -/
def fbCursorMove (s : Screen) (dx dy : Int) : Screen :=
  ((fbCursorHide s).moved dx dy).saveUnder.drawCursor

/-! ## No trace -/

/-- The calls: of the cursor, and of drawing. -/
inductive ScreenOp
  | cursorMove (dx dy : Int)
  | cursorHide
  | cursorShow
  | putpixel (x y : Int) (color : UInt32)
  | fillRect (x y w h : Int) (color : UInt32)

/-- What a call draws, without the cursor. -/
def ScreenOp.draw (fb : FbMode) : ScreenOp → ByteMemory → ByteMemory
  | .putpixel x y color, m => fbPutpixel fb x y color m
  | .fillRect x y w h color, m => fbFillRect fb x y w h color m
  | _, m => m

/-- What a call does. -/
def Screen.call (s : Screen) : ScreenOp → Screen
  | .cursorMove dx dy => fbCursorMove s dx dy
  | .cursorHide => fbCursorHide s
  | .cursorShow => fbCursorShow s
  | op => { s with mem := op.draw s.fb s.mem }

/-- A call draws only while the cursor is hidden. -/
def ScreenOp.Allowed (s : Screen) : ScreenOp → Prop
  | .putpixel _ _ _ => s.visible = false
  | .fillRect _ _ _ _ _ => s.visible = false
  | _ => True

/-- A step: a call. -/
def ScreenStep (s : Screen) (op : ScreenOp) (t : Screen) : Prop := op.Allowed s ∧ t = s.call op

/-- What the drawing calls alone make of a framebuffer. -/
def drawnAlone (fb : FbMode) (ops : List ScreenOp) (m : ByteMemory) : ByteMemory :=
  ops.foldl (fun m op => op.draw fb m) m

variable {s t : Screen}

/-- **Drawing over what was saved is undone.** -/
theorem hide_draw_save (s : Screen) : (fbCursorHide s.saveUnder.drawCursor).mem = s.mem := by
  have restored : (fbCursorHide s.saveUnder.drawCursor).mem =
      s.saveUnder.drawCursor.restoreUnder.mem := by
    rw [fbCursorHide, if_pos s.saveUnder.visible_drawCursor]
  rw [restored, Screen.mem_restoreUnder, Screen.under_drawCursor, Screen.saved_drawCursor,
    Screen.under_saveUnder]
  refine ByteMemory.storeAll_restores (fun c _ a place => s.saved_saveUnder place)
    fun x outside => ?_
  rw [Screen.mem_drawCursor, Screen.mem_saveUnder]
  refine ByteMemory.storeAll_of_notMem fun c mem a place => outside c mem a ?_
  split at place
  · cases place
  · exact place

/-- The cursor is hidden after `fb_cursor_hide`. -/
theorem visible_hide (s : Screen) : (fbCursorHide s).visible = false := by
  unfold fbCursorHide
  split
  · rfl
  · rename_i hidden
    exact Bool.not_eq_true _ |>.mp hidden

theorem visible_call_hide (s : Screen) : (s.call .cursorHide).visible = false := visible_hide s

/-- Where the cursor is hidden nothing is to be restored. -/
theorem hide_of_hidden (hidden : s.visible = false) : fbCursorHide s = s := by
  rw [fbCursorHide, if_neg (by rw [hidden]; exact Bool.false_ne_true)]

theorem fb_hide (s : Screen) : (fbCursorHide s).fb = s.fb := by
  unfold fbCursorHide
  split <;> rfl

theorem fb_show (s : Screen) : (fbCursorShow s).fb = s.fb := by
  unfold fbCursorShow
  split <;> rfl

/-- The calls leave the mode alone. -/
theorem fb_call (s : Screen) (op : ScreenOp) : (s.call op).fb = s.fb := by
  cases op with
  | cursorMove dx dy => exact fb_hide s
  | cursorHide => exact fb_hide s
  | cursorShow => exact fb_show s
  | putpixel x y color => rfl
  | fillRect x y w h color => rfl

/-- **One call**: without the cursor the framebuffer is what it was, with what the call draws. -/
theorem hide_call {op : ScreenOp} (allowed : op.Allowed s) :
    (fbCursorHide (s.call op)).mem = op.draw s.fb (fbCursorHide s).mem := by
  cases op with
  | cursorMove dx dy => exact hide_draw_save ((fbCursorHide s).moved dx dy)
  | cursorHide =>
      show (fbCursorHide (fbCursorHide s)).mem = _
      rw [hide_of_hidden (visible_hide s)]
      rfl
  | cursorShow =>
      show (fbCursorHide (fbCursorShow s)).mem = _
      unfold fbCursorShow
      split
      · rfl
      · rename_i hidden
        rw [hide_draw_save, hide_of_hidden (Bool.not_eq_true _ |>.mp hidden)]
        rfl
  | putpixel x y color =>
      have hidden : s.visible = false := allowed
      have still : (s.call (.putpixel x y color)).visible = false := hidden
      rw [hide_of_hidden hidden, hide_of_hidden still]
      rfl
  | fillRect x y w h color =>
      have hidden : s.visible = false := allowed
      have still : (s.call (.fillRect x y w h color)).visible = false := hidden
      rw [hide_of_hidden hidden, hide_of_hidden still]
      rfl

/-- **Any calls**: without the cursor the framebuffer is what it was, with what they draw. -/
theorem hide_run {ops : List ScreenOp} (run : Run ScreenStep s ops t) :
    (fbCursorHide t).mem = drawnAlone s.fb ops (fbCursorHide s).mem := by
  induction run with
  | nil s => rfl
  | @cons s u t op ops one _ ih =>
      obtain ⟨allowed, rfl⟩ := one
      rw [ih, hide_call allowed, fb_call]
      rfl

/-- **The mouse cursor leaves no trace**: after `fb_cursor_init` and any calls of the cursor, and
drawing calls while it is hidden, the framebuffer is what the drawing calls alone make of it
whenever the cursor is hidden.  The invariant is about the picture with the cursor taken away
(`hide_run`): moving, showing and hiding leave it as it is, and drawing while it is hidden draws
on it.  Positions are `int`s that wrap, and every access is clipped to the framebuffer as in the
code. -/
theorem cursor_no_trace {ops : List ScreenOp} (run : Run ScreenStep (fbCursorInit s) ops t)
    (hidden : t.visible = false) : t.mem = drawnAlone s.fb ops s.mem := by
  have start : (fbCursorHide (fbCursorInit s)).mem = s.mem := by
    rw [fbCursorInit, hide_draw_save, Screen.centered, Screen.mem_placed]
  have mode : (fbCursorInit s).fb = s.fb := by
    rw [fbCursorInit, Screen.fb_drawCursor, Screen.fb_saveUnder, Screen.centered,
      Screen.fb_placed]
  have after := hide_run run
  rwa [hide_of_hidden hidden, start, mode] at after

/-- The calls of a list are allowed, one after the other. -/
def CallsAllowed (s : Screen) : List ScreenOp → Prop
  | [] => True
  | op :: ops => op.Allowed s ∧ CallsAllowed (s.call op) ops

/-- Calls that are allowed are a run. -/
theorem screen_run {ops : List ScreenOp} (allowed : CallsAllowed s ops) :
    Run ScreenStep s ops (ops.foldl Screen.call s) := by
  induction ops generalizing s with
  | nil => exact .nil s
  | cons op ops ih => exact .cons ⟨allowed.1, rfl⟩ (ih allowed.2)

/-- A screen of 40 by 30 pixels of 32 bits. -/
def smallScreen : Screen where
  fb := ⟨40, 30, 160, 32, 16, 8, 8, 8, 0, 8⟩
  mem := fun _ => 0
  curX := 0
  curY := 0
  visible := false
  saved := fun _ => 0

/-- The cursor is moved beyond the edge, hidden, drawn around, shown, and hidden again. -/
def smallCalls : List ScreenOp :=
  [.cursorMove 100 (-3), .cursorHide, .fillRect 20 0 15 5 7, .cursorHide, .cursorShow,
    .cursorMove (-1) 2, .cursorHide]

/-- Only the rectangle is left. -/
theorem cursor_no_trace_small :
    (smallCalls.foldl Screen.call (fbCursorInit smallScreen)).mem =
      drawnAlone smallScreen.fb smallCalls smallScreen.mem := by
  have allowed : CallsAllowed (fbCursorInit smallScreen) smallCalls := by
    generalize fbCursorInit smallScreen = s
    refine ⟨trivial, trivial, ?_, trivial, trivial, trivial, trivial, trivial⟩
    exact visible_call_hide _
  have hidden : (smallCalls.foldl Screen.call (fbCursorInit smallScreen)).visible = false := by
    rw [smallCalls, List.foldl_cons, List.foldl_cons, List.foldl_cons, List.foldl_cons,
      List.foldl_cons, List.foldl_cons, List.foldl_cons, List.foldl_nil, visible_call_hide]
  exact cursor_no_trace (screen_run allowed) hidden

end Flyos

import Flyos.Drivers.Terminal
import Mathlib.Logic.Function.Iterate

/-!
# The terminal and its grid

A terminal is a grid of cells and a place in it (`Grid`).  `terminal_matches` says that the text
of `fb_term.c` is that of such a terminal, after any calls from power on in which characters are
put into regions that have a row and a column.
-/

namespace Flyos

/-! ## The grid -/

/-- A grid of characters with a cursor in it. -/
structure Grid where
  rows : Nat
  cols : Nat
  cells : Fin rows → Fin cols → UInt8
  x : Fin cols
  y : Fin rows

namespace Grid

variable (g : Grid)

/-- A grid of blanks. -/
def ofSize (rows cols : Int) : Option Grid :=
  if size : 0 < rows ∧ 0 < cols then
    some ⟨rows.toNat, cols.toNat, fun _ _ => charSpace, ⟨0, Int.pos_iff_toNat_pos.mp size.2⟩,
      ⟨0, Int.pos_iff_toNat_pos.mp size.1⟩⟩
  else none

/-- The cursor at the start of its line. -/
def home : Grid := { g with x := ⟨0, g.x.pos⟩ }

/-- Everything up by a line, the last line blank. -/
def scrolled : Grid :=
  { g with cells := fun i j =>
      if below : i.val + 1 < g.rows then g.cells ⟨i.val + 1, below⟩ j else charSpace }

/-- The cursor one line further down; at the last line everything moves up. -/
def down : Grid :=
  if below : g.y.val + 1 < g.rows then { g with y := ⟨g.y.val + 1, below⟩ } else g.scrolled

/-- A character in the cell at the cursor. -/
def write (c : UInt8) : Grid :=
  { g with cells := Function.update g.cells g.y (Function.update (g.cells g.y) g.x c) }

/-- The cursor one cell further; after the last of a line the next line starts. -/
def right : Grid :=
  if next : g.x.val + 1 < g.cols then { g with x := ⟨g.x.val + 1, next⟩ } else g.home.down

/-- The previous cell of the line blanked, if there is one. -/
def backspace : Grid :=
  if g.x.val = 0 then g
  else { g with x := ⟨g.x.val - 1, (Nat.sub_le _ _).trans_lt g.x.isLt⟩ }.write charSpace

/-- A character in the cell at the cursor, which goes on. -/
def fill (c : UInt8) : Grid := (g.write c).right

/-- **The meaning of a character.** -/
def putc (c : UInt8) : Grid :=
  if c = charNewline then g.home.down
  else if c = charReturn then g.home
  else if c = charBackspace then g.backspace
  else if c = charTab then (fun g => g.fill charSpace)^[4 - g.x.val % 4] g
  else g.fill c

end Grid

/-- A region of another size has a new grid. -/
def regionGrid (rows cols : Int) (grid : Option Grid) : Option Grid :=
  match grid with
  | some g => if cols ≠ g.cols ∨ rows ≠ g.rows then Grid.ofSize rows cols else some g
  | none => Grid.ofSize rows cols

/-- What a call does to the grid of the region, which is `none` where the region has no cell. -/
def TermOp.onGrid (fb : FbMode) (grid : Option Grid) : TermOp → Option Grid
  | .init => Grid.ofSize (min (int32 (fb.height / 16).toNat) maxRows)
      (min (int32 (fb.width / 8).toNat) maxCols)
  | .setRegion _ _ w h => regionGrid (min (h.tdiv charH) maxRows) (min (w.tdiv charW) maxCols) grid
  | .clear => grid.bind fun g => Grid.ofSize g.rows g.cols
  | .putc c => grid.map fun g => g.putc c
  | _ => grid

/-- The grid after calls. -/
def gridAfter (fb : FbMode) (ops : List TermOp) (grid : Option Grid) : Option Grid :=
  ops.foldl (TermOp.onGrid fb) grid

/-- Characters are put into regions that have a cell. -/
def PutsInCells (fb : FbMode) : Option Grid → List TermOp → Prop
  | _, [] => True
  | grid, op :: ops => (∀ c, op = .putc c → grid.isSome) ∧ PutsInCells fb (op.onGrid fb grid) ops

/-- The terminal shows the grid, on a screen of this mode. -/
structure Displays (fb : FbMode) (t : Term) (g : Grid) : Prop where
  mode : t.screen.fb = fb
  rows : t.rows = g.rows
  cols : t.cols = g.cols
  high : g.rows ≤ maxRows
  wide : g.cols ≤ maxCols
  cursorX : t.cursorX = g.x.val
  cursorY : t.cursorY = g.y.val
  cells : ∀ i j, t.screenBuf i.val j.val = g.cells i j

/-- The call succeeds, with a terminal that shows the grid. -/
def EndsIn (fb : FbMode) (r : Except TermFault Term) (g : Grid) : Prop :=
  ∃ t, r = .ok t ∧ Displays fb t g

variable {font : UInt8 → Nat → UInt8} {fb : FbMode} {t : Term} {g g' : Grid}
  {r : Except TermFault Term}

/-- A call after another. -/
theorem EndsIn.bind {next : Term → Except TermFault Term} (first : EndsIn fb r g)
    (second : ∀ t, Displays fb t g → EndsIn fb (next t) g') : EndsIn fb (r >>= next) g' := by
  obtain ⟨t, rfl, shown⟩ := first
  exact second t shown

/-! ## The loops -/

/-- The terminal with other cells. -/
def Term.withBuf (b : Nat → Nat → UInt8) (t : Term) : Term := { t with screenBuf := b }

theorem rows_setCursor (x y : Int) (t : Term) : (t.setCursor x y).rows = t.rows := rfl

theorem cols_setCursor (x y : Int) (t : Term) : (t.setCursor x y).cols = t.cols := rfl

theorem cursorY_setCursor (x y : Int) (t : Term) : (t.setCursor x y).cursorY = y := rfl

theorem rows_withBuf (t : Term) (b : Nat → Nat → UInt8) : (t.withBuf b).rows = t.rows := rfl

/-- A cell of the buffer is read. -/
theorem cell_withBuf (t : Term) (b : Nat → Nat → UInt8) {i j : Nat} (row : i < maxRows)
    (col : j < maxCols) : (t.withBuf b).cell i j = .ok (b i j) :=
  if_pos ⟨by omega, by omega, by omega, by omega⟩

/-- A cell of the buffer is written. -/
theorem setCell_withBuf (t : Term) (b : Nat → Nat → UInt8) (v : UInt8) {i j : Nat}
    (row : i < maxRows) (col : j < maxCols) : (t.withBuf b).setCell i j v =
      .ok (t.withBuf fun i' j' => if i' = i ∧ j' = j then v else b i' j') :=
  if_pos ⟨by omega, by omega, by omega, by omega⟩

/-- **A loop along a row**: its cells up to `n` have the values that the turns give them. -/
theorem row_loop {b : Nat → Nat → UInt8} {f : Nat → Term → Except TermFault Term} {n : Int}
    {i : Nat} {v : Nat → UInt8} (row : i < maxRows) (wide : n ≤ maxCols)
    (turn : ∀ j : Nat, (j : Int) < n → ∀ b', (∀ i' j', i' ≠ i → b' i' j' = b i' j') →
      f j (t.withBuf b') = (t.withBuf b').setCell i j (v j)) :
    countUp n f (t.withBuf b) = .ok (t.withBuf fun i' j' =>
      if i' = i ∧ j' < n.toNat then v j' else b i' j') := by
  refine countUp_eq (g := fun k => t.withBuf fun i' j' =>
    if i' = i ∧ j' < k then v j' else b i' j') ?_ fun j inside => ?_
  · simp only [Nat.not_lt_zero, and_false, if_false]
  · rw [turn j inside _ fun i' j' other => if_neg fun same => other same.1,
      setCell_withBuf t _ _ row (by omega)]
    congr 2
    funext i' j'
    grind

/-- **A loop over rows**: the cells have the values that the turns give them, which may look at
later rows. -/
theorem rows_loop {b : Nat → Nat → UInt8} {f : Nat → Nat → Term → Except TermFault Term}
    {m n : Int} {v : Nat → Nat → UInt8} (high : m ≤ maxRows) (wide : n ≤ maxCols)
    (turn : ∀ i j : Nat, (i : Int) < m → (j : Int) < n →
      ∀ b', (∀ i' j', i < i' → b' i' j' = b i' j') →
        f i j (t.withBuf b') = (t.withBuf b').setCell i j (v i j)) :
    countUp m (fun i => countUp n (f i)) (t.withBuf b) = .ok (t.withBuf fun i' j' =>
      if i' < m.toNat ∧ j' < n.toNat then v i' j' else b i' j') := by
  refine countUp_eq (g := fun k => t.withBuf fun i' j' =>
    if i' < k ∧ j' < n.toNat then v i' j' else b i' j') ?_ fun i inside => ?_
  · simp only [Nat.not_lt_zero, false_and, if_false]
  · rw [row_loop (v := v i) (by omega) wide fun j within b' same => turn i j inside within b'
      fun i' j' later => (same i' j' (by omega)).trans (if_neg (by omega))]
    congr 2
    funext i' j'
    grind

/-- The cells with blanks in the region. -/
def blankedBuf (t : Term) (i j : Nat) : UInt8 :=
  if i < t.rows.toNat ∧ j < t.cols.toNat then charSpace else t.screenBuf i j

/-- The loops that blank the region. -/
theorem blankCells_eq (high : t.rows ≤ maxRows) (wide : t.cols ≤ maxCols) :
    blankCells t = .ok (t.withBuf (blankedBuf t)) :=
  rows_loop (b := t.screenBuf) (v := fun _ _ => charSpace) high wide
    fun _ _ _ _ _ _ => rfl

/-- Redrawing changes only the screen. -/
theorem redraw_spec (font : UInt8 → Nat → UInt8) (high : t.rows ≤ maxRows)
    (wide : t.cols ≤ maxCols) :
    ∃ s : Screen, s.fb = t.screen.fb ∧ fbTermRedraw font t = .ok (t.onScreen fun _ => s) := by
  let Redrawn (u : Term) : Prop := ∃ s : Screen, s.fb = t.screen.fb ∧ u = t.onScreen fun _ => s
  obtain ⟨u, run, s, mode, rfl⟩ := countUp_spec (P := fun _ => Redrawn) (n := t.rows) (s := t)
    (f := fun r => countUp t.cols fun c t => do
      let v ← t.cell r c
      .ok (drawCharAt font v c r t)) ⟨t.screen, rfl, rfl⟩ fun i u row drawn =>
    countUp_spec (P := fun _ => Redrawn) drawn fun j u col drawn => by
      obtain ⟨s, mode, rfl⟩ := drawn
      have there : Term.cell i j (t.onScreen fun _ => s) = .ok (t.screenBuf i j) :=
        cell_withBuf (t.onScreen fun _ => s) t.screenBuf (by omega) (by omega)
      refine ⟨drawCharAt font (t.screenBuf i j) j i (t.onScreen fun _ => s), ?_, _, ?_, rfl⟩
      · rw [there]
        rfl
      · exact mode
  exact ⟨s, mode, run⟩

/-! ## One character -/

namespace Displays

/-- What changes only the screen, and keeps its mode. -/
theorem onScreen {f : Screen → Screen} (shown : Displays fb t g)
    (mode : (f t.screen).fb = t.screen.fb) : Displays fb (t.onScreen f) g :=
  ⟨mode.trans shown.mode, shown.rows, shown.cols, shown.high, shown.wide, shown.cursorX,
    shown.cursorY, shown.cells⟩

/-- The cursor at another place of the grid. -/
theorem setCursor (shown : Displays fb t g) (x : Fin g.cols) (y : Fin g.rows) :
    Displays fb (t.setCursor x.val y.val) { g with x := x, y := y } :=
  ⟨shown.mode, shown.rows, shown.cols, shown.high, shown.wide, rfl, rfl, shown.cells⟩

/-- The cursor at the start of the line. -/
theorem home (shown : Displays fb t g) : Displays fb (t.setCursor 0 t.cursorY) g.home := by
  rw [shown.cursorY]
  exact shown.setCursor ⟨0, g.x.pos⟩ g.y

end Displays

/-- While the cursor is on the grid nothing moves. -/
theorem scrollUp_within (shown : Displays fb t g) : scrollUp font t = .ok t := by
  have onGrid := g.y.isLt
  exact if_neg (by rw [shown.rows, shown.cursorY]; omega)

/-- The cells after the loops of `scrollUp`. -/
def scrolledBuf (t : Term) (i j : Nat) : UInt8 :=
  if i + 1 = t.rows.toNat ∧ j < t.cols.toNat then charSpace
  else if i + 1 < t.rows.toNat ∧ j < t.cols.toNat then t.screenBuf (i + 1) j
  else t.screenBuf i j

/-- Below the last row everything moves up. -/
theorem scrollUp_below (font : UInt8 → Nat → UInt8) (some : 0 < t.rows) (high : t.rows ≤ maxRows)
    (wide : t.cols ≤ maxCols) (below : t.rows ≤ t.cursorY) :
    ∃ s : Screen, s.fb = t.screen.fb ∧ scrollUp font t =
      .ok (((t.withBuf (scrolledBuf t)).onScreen fun _ => s).setCursor t.cursorX (t.rows - 1)) := by
  have moved := rows_loop (t := t) (b := t.screenBuf) (m := t.rows - 1) (n := t.cols)
    (f := fun r c t => do
      let v ← t.cell (r + 1) c
      t.setCell r c v)
    (v := fun i j => t.screenBuf (i + 1) j) (by omega) wide fun i j row col b' later => by
      have read := cell_withBuf t b' (i := i + 1) (j := j) (by omega) (by omega)
      push_cast at read
      rw [read, later (i + 1) j (by omega)]
      rfl
  have cleared := row_loop (t := t) (i := (t.rows - 1).toNat) (n := t.cols)
    (b := fun i j => if i < (t.rows - 1).toNat ∧ j < t.cols.toNat then t.screenBuf (i + 1) j
      else t.screenBuf i j)
    (f := fun c t => t.setCell (t.rows - 1) c charSpace)
    (v := fun _ => charSpace) (by omega) wide fun j col b' _ => by
      rw [Int.toNat_of_nonneg (by omega), rows_withBuf]
  have result : (fun i j => if i = (t.rows - 1).toNat ∧ j < t.cols.toNat then charSpace
      else if i < (t.rows - 1).toNat ∧ j < t.cols.toNat then t.screenBuf (i + 1) j
      else t.screenBuf i j) = scrolledBuf t := by
    funext i j
    unfold scrolledBuf
    grind
  rw [result] at cleared
  obtain ⟨s, mode, drawn⟩ := redraw_spec font (t := t.withBuf (scrolledBuf t)) high wide
  refine ⟨s, mode, ?_⟩
  have start : t.withBuf t.screenBuf = t := rfl
  rw [start] at moved
  rw [scrollUp, if_pos below]
  refine (bind_of_ok moved _).trans ?_
  refine (bind_of_ok cleared _).trans ?_
  exact bind_of_ok drawn _

/-- These are the cells of the grid, moved up. -/
theorem scrolledBuf_eq (shown : Displays fb t g) (i : Fin g.rows) (j : Fin g.cols) :
    scrolledBuf t i.val j.val = g.scrolled.cells i j := by
  have rows := shown.rows
  have cols := shown.cols
  unfold scrolledBuf Grid.scrolled
  dsimp only
  split
  · rename_i last
    rw [dif_neg (by omega)]
  · rename_i other
    have below : i.val + 1 < g.rows := by omega
    rw [if_pos (by omega), dif_pos below]
    exact shown.cells ⟨i.val + 1, below⟩ j

/-- **One line down.** -/
theorem scrollUp_down (shown : Displays fb t g) :
    EndsIn fb (scrollUp font (t.setCursor t.cursorX (int32 (t.cursorY + 1)))) g.down := by
  have high : (g.rows : Int) ≤ maxRows := Int.ofNat_le.mpr shown.high
  have wide : (g.cols : Int) ≤ maxCols := Int.ofNat_le.mpr shown.wide
  have rows := shown.rows
  have cols := shown.cols
  have onGrid := g.y.isLt
  have next : int32 (t.cursorY + 1) = (g.y.val + 1 : Nat) := by
    have few : maxRows = 64 := rfl
    rw [shown.cursorY]
    exact int32_of_range (by omega) (by omega)
  rw [next]
  unfold Grid.down
  split
  · rename_i below
    have moved := shown.setCursor g.x ⟨g.y.val + 1, below⟩
    rw [← shown.cursorX] at moved
    exact ⟨_, scrollUp_within moved, moved⟩
  · rename_i last
    obtain ⟨s, mode, run⟩ := scrollUp_below font
      (t := t.setCursor t.cursorX (g.y.val + 1 : Nat)) (by rw [rows_setCursor]; omega)
      (by rw [rows_setCursor]; omega) (by rw [cols_setCursor]; omega)
      (by rw [rows_setCursor, cursorY_setCursor]; omega)
    refine ⟨_, run, mode.trans shown.mode, rows, cols, shown.high, shown.wide, shown.cursorX, ?_,
      fun i j => scrolledBuf_eq shown i j⟩
    show t.rows - 1 = g.y.val
    omega

/-- What is written is in the cell at the cursor. -/
theorem written_cells (shown : Displays fb t g) (c : UInt8) (i : Fin g.rows) (j : Fin g.cols) :
    (if i.val = g.y.val ∧ j.val = g.x.val then c else t.screenBuf i.val j.val) =
      (g.write c).cells i j := by
  rw [shown.cells]
  unfold Grid.write
  dsimp only
  by_cases row : i = g.y
  · rw [row, Function.update_self]
    by_cases col : j = g.x
    · rw [col, Function.update_self, if_pos ⟨rfl, rfl⟩]
    · rw [Function.update_of_ne col, if_neg fun here => col (Fin.ext here.2)]
  · rw [Function.update_of_ne row, if_neg fun here => row (Fin.ext here.1)]

/-- **The cell at the cursor.** -/
theorem putCell_spec (shown : Displays fb t g) (c : UInt8) :
    EndsIn fb (putCell font c t) (g.write c) := by
  have row := g.y.isLt
  have col := g.x.isLt
  have high := shown.high
  have wide := shown.wide
  have wrote := setCell_withBuf t t.screenBuf c (row.trans_le high) (col.trans_le wide)
  rw [← shown.cursorX, ← shown.cursorY] at wrote
  have run : putCell font c t = _ :=
    (if_pos (by rw [shown.rows, shown.cols, shown.cursorX, shown.cursorY]; omega)).trans
      (bind_of_ok wrote _)
  exact ⟨_, run, shown.mode, shown.rows, shown.cols, high, wide, shown.cursorX, shown.cursorY,
    fun i j => written_cells shown c i j⟩

/-- **The cursor moves on.** -/
theorem stepRight_spec (shown : Displays fb t g) :
    EndsIn fb (scrollUp font (stepRight t)) g.right := by
  have col := g.x.isLt
  have wide := shown.wide
  have few : maxCols = 160 := rfl
  have next : int32 (t.cursorX + 1) = (g.x.val + 1 : Nat) := by
    rw [shown.cursorX]
    exact int32_of_range (by omega) (by omega)
  unfold stepRight Grid.right
  rw [next, shown.cols]
  split
  · rename_i within
    have moved := shown.setCursor ⟨g.x.val + 1, within⟩ g.y
    rw [← shown.cursorY] at moved
    rw [if_neg (by omega)]
    exact ⟨_, scrollUp_within moved, moved⟩
  · rename_i last
    rw [if_pos (by omega)]
    exact scrollUp_down shown.home

/-- **One cell back.** -/
theorem stepBack_spec (shown : Displays fb t g) :
    EndsIn fb (stepBack font t) g.backspace := by
  unfold stepBack Grid.backspace
  rw [shown.cursorX]
  by_cases first : g.x.val = 0
  · rw [if_neg (by omega), if_pos first]
    exact ⟨t, rfl, shown⟩
  · have back := shown.setCursor ⟨g.x.val - 1, (Nat.sub_le _ _).trans_lt g.x.isLt⟩ g.y
    have before : ((g.x.val - 1 : Nat) : Int) = g.x.val - 1 := by omega
    rw [← shown.cursorY, before] at back
    rw [if_pos (by omega), if_neg first]
    exact putCell_spec back charSpace

namespace Displays

/-- The mouse cursor hidden. -/
theorem hidden (shown : Displays fb t g) : Displays fb (t.onScreen fbCursorHide) g :=
  shown.onScreen (fb_hide t.screen)

/-- The mouse cursor shown again. -/
theorem showing (shown : Displays fb t g) : EndsIn fb (.ok (t.onScreen fbCursorShow)) g :=
  ⟨_, rfl, shown.onScreen (fb_show t.screen)⟩

end Displays

/-- **A blank.** -/
theorem putc_space (shown : Displays fb t g) :
    EndsIn fb (fbTermPutc font charSpace t) (g.fill charSpace) := by
  rw [fbTermPutc, if_neg (by decide), if_neg (by decide), if_neg (by decide), if_neg (by decide)]
  exact (putCell_spec shown.hidden charSpace).bind fun _ wrote =>
    (stepRight_spec wrote).bind fun _ => Displays.showing

/-- **A tab is blanks.** -/
theorem tab_spec (shown : Displays fb t g) :
    EndsIn fb (countUp (4 - t.cursorX.tmod 4) (fun _ => fbTermPutc font charSpace) t)
      ((fun g => g.fill charSpace)^[4 - g.x.val % 4] g) := by
  have count : (4 - t.cursorX.tmod 4).toNat = 4 - g.x.val % 4 := by
    rw [shown.cursorX, Int.tmod_eq_emod_of_nonneg (by omega)]
    omega
  obtain ⟨u, run, filled⟩ := countUp_spec (n := 4 - t.cursorX.tmod 4)
    (f := fun _ => fbTermPutc font charSpace)
    (P := fun i u => Displays fb u ((fun g => g.fill charSpace)^[i] g)) shown fun i u _ before => by
      rw [Function.iterate_succ_apply']
      exact putc_space before
  exact ⟨u, run, count ▸ filled⟩

/-- **One character**: the terminal does what the grid does. -/
theorem putc_spec (font : UInt8 → Nat → UInt8) (shown : Displays fb t g)
    (c : UInt8) : EndsIn fb (fbTermPutc font c t) (g.putc c) := by
  have hidden := shown.hidden
  rw [fbTermPutc]
  unfold Grid.putc
  split
  · exact (scrollUp_down hidden.home).bind fun _ => Displays.showing
  split
  · exact EndsIn.bind ⟨_, scrollUp_within hidden.home, hidden.home⟩ fun _ => Displays.showing
  split
  · exact (stepBack_spec hidden).bind fun _ => Displays.showing
  split
  · exact (tab_spec hidden).bind fun _ => Displays.showing
  · exact (putCell_spec hidden c).bind fun _ wrote =>
      (stepRight_spec wrote).bind fun _ => Displays.showing

/-! ## Any calls -/

/-- The terminal has the text of the grid; where there is no grid, its region has no cell. -/
structure Tracks (fb : FbMode) (t : Term) (grid : Option Grid) : Prop where
  mode : t.screen.fb = fb
  high : t.rows ≤ maxRows
  wide : t.cols ≤ maxCols
  shown : ∀ g, grid = some g → Displays fb t g
  empty : grid = none → ¬ (0 < t.rows ∧ 0 < t.cols)

variable {grid : Option Grid}

/-- A terminal that shows a grid. -/
theorem Displays.tracks (shown : Displays fb t g) : Tracks fb t (some g) where
  mode := shown.mode
  high := shown.rows ▸ Int.ofNat_le.mpr shown.high
  wide := shown.cols ▸ Int.ofNat_le.mpr shown.wide
  shown _ same := Option.some.inj same ▸ shown
  empty none := by cases none

/-- A region without a cell. -/
theorem ofSize_none {rows cols : Int} (empty : ¬ (0 < rows ∧ 0 < cols)) :
    Grid.ofSize rows cols = none := dif_neg empty

/-- A region of blanks. -/
theorem tracks_ofSize (mode : t.screen.fb = fb) (high : t.rows ≤ maxRows) (wide : t.cols ≤ maxCols)
    (atX : t.cursorX = 0) (atY : t.cursorY = 0)
    (blank : ∀ i j, i < t.rows.toNat → j < t.cols.toNat → t.screenBuf i j = charSpace) :
    Tracks fb t (Grid.ofSize t.rows t.cols) := by
  unfold Grid.ofSize
  split
  · rename_i size
    refine Displays.tracks ⟨mode, ?_, ?_, ?_, ?_, atX, atY, fun i j => blank i j i.isLt j.isLt⟩
    · exact (Int.toNat_of_nonneg size.1.le).symm
    · exact (Int.toNat_of_nonneg size.2.le).symm
    · exact Int.toNat_le.mpr high
    · exact Int.toNat_le.mpr wide
  · rename_i none
    exact ⟨mode, high, wide, fun _ some => (by cases some), fun _ => none⟩

/-- The region after the loops that blank it. -/
theorem tracks_blanked (mode : t.screen.fb = fb) (high : t.rows ≤ maxRows)
    (wide : t.cols ≤ maxCols) :
    Tracks fb ((t.withBuf (blankedBuf t)).setCursor 0 0) (Grid.ofSize t.rows t.cols) :=
  tracks_ofSize (t := (t.withBuf (blankedBuf t)).setCursor 0 0) mode high wide rfl rfl
    fun _ _ row col => if_pos ⟨row, col⟩

/-- The grid of a region that is blanked. -/
theorem Tracks.cleared (tracks : Tracks fb t grid) :
    (grid.bind fun g => Grid.ofSize g.rows g.cols) = Grid.ofSize t.rows t.cols := by
  cases grid with
  | none => exact (ofSize_none (tracks.empty rfl)).symm
  | some g =>
      have shown := tracks.shown g rfl
      rw [shown.rows, shown.cols]
      rfl

/-- The grid of a region whose size changes, and of one whose size does not. -/
theorem Tracks.region (tracks : Tracks fb t grid) (rows cols : Int) :
    regionGrid rows cols grid =
      if cols ≠ t.cols ∨ rows ≠ t.rows then Grid.ofSize rows cols else grid := by
  cases grid with
  | none =>
      split
      · rfl
      · rename_i same
        have empty := tracks.empty rfl
        exact ofSize_none (by omega)
  | some g =>
      have shown := tracks.shown g rfl
      rw [shown.rows, shown.cols]
      rfl

/-- What changes only the screen, the colors and the place of the region. -/
theorem Tracks.keeps {u : Term} (tracks : Tracks fb t grid) (mode : u.screen.fb = t.screen.fb)
    (rows : u.rows = t.rows) (cols : u.cols = t.cols) (atX : u.cursorX = t.cursorX)
    (atY : u.cursorY = t.cursorY) (cells : u.screenBuf = t.screenBuf) : Tracks fb u grid where
  mode := mode.trans tracks.mode
  high := rows ▸ tracks.high
  wide := cols ▸ tracks.wide
  shown g same := by
    have shown := tracks.shown g same
    exact ⟨mode.trans tracks.mode, rows.trans shown.rows, cols.trans shown.cols, shown.high,
      shown.wide, atX.trans shown.cursorX, atY.trans shown.cursorY,
      fun i j => cells ▸ shown.cells i j⟩
  empty none := by
    rw [rows, cols]
    exact tracks.empty none

/-- After `fb_term_init` the region is the screen, and blank. -/
theorem fbTermInit_tracks (mode : t.screen.fb = fb) : ∃ u, fbTermInit t = .ok u ∧
    Tracks fb u (Grid.ofSize (min (int32 (fb.height / 16).toNat) maxRows)
      (min (int32 (fb.width / 8).toNat) maxCols)) := by
  subst mode
  obtain ⟨u, start, sameMode, rows, cols⟩ : ∃ u : Term,
      fbTermInit t = (do
        let t ← countUp maxRows (fun r => countUp maxCols fun c => Term.setCell r c charSpace) u
        .ok (t.setCursor 0 0)) ∧
      u.screen.fb = t.screen.fb ∧ u.rows = min (int32 (t.screen.fb.height / 16).toNat) maxRows ∧
      u.cols = min (int32 (t.screen.fb.width / 8).toNat) maxCols := ⟨_, rfl, rfl, rfl, rfl⟩
  have filled := rows_loop (t := u) (b := u.screenBuf) (m := maxRows) (n := maxCols)
    (f := fun r c => Term.setCell r c charSpace) (v := fun _ _ => charSpace) le_rfl le_rfl
    fun _ _ _ _ _ _ => rfl
  rw [← rows, ← cols]
  refine ⟨_, start.trans (bind_of_ok filled _), ?_⟩
  have high : u.rows ≤ maxRows := rows ▸ min_le_right _ _
  have wide : u.cols ≤ maxCols := cols ▸ min_le_right _ _
  exact tracks_ofSize (t := (u.withBuf _).setCursor 0 0) sameMode high wide rfl rfl
    fun i j row col => if_pos ⟨row.trans_le (Int.toNat_le_toNat high),
      col.trans_le (Int.toNat_le_toNat wide)⟩

/-- **One call**: it succeeds, and does what it does to the grid. -/
theorem call_tracks (font : UInt8 → Nat → UInt8) (tracks : Tracks fb t grid) {op : TermOp}
    (cells : ∀ c, op = .putc c → grid.isSome) :
    ∃ u, op.call font t = .ok u ∧ Tracks fb u (op.onGrid fb grid) := by
  cases op with
  | init => exact fbTermInit_tracks tracks.mode
  | setRegion x y w h =>
      show ∃ u, fbTermSetRegion x y w h t = .ok u ∧ Tracks fb u (regionGrid _ _ grid)
      rw [tracks.region]
      unfold fbTermSetRegion
      dsimp only
      split
      · have blanked := tracks_blanked (t := { t with
            regionX := x, regionY := y, regionW := w, regionH := h
            cols := min (w.tdiv charW) maxCols, rows := min (h.tdiv charH) maxRows })
          tracks.mode (min_le_right _ _) (min_le_right _ _)
        exact ⟨_, bind_of_ok (blankCells_eq (min_le_right _ _) (min_le_right _ _)) _, blanked⟩
      · exact ⟨_, rfl, tracks.keeps rfl rfl rfl rfl rfl rfl⟩
  | clear =>
      refine ⟨_, bind_of_ok (blankCells_eq tracks.high tracks.wide) _, ?_⟩
      show Tracks fb _ (grid.bind fun g => Grid.ofSize g.rows g.cols)
      rw [tracks.cleared]
      exact (tracks_blanked tracks.mode tracks.high tracks.wide).keeps rfl rfl rfl rfl rfl rfl
  | setColor fg bg => exact ⟨_, rfl, tracks.keeps rfl rfl rfl rfl rfl rfl⟩
  | redraw =>
      obtain ⟨s, mode, run⟩ := redraw_spec font tracks.high tracks.wide
      exact ⟨_, run, tracks.keeps mode rfl rfl rfl rfl rfl⟩
  | putc c =>
      obtain ⟨g, rfl⟩ := Option.isSome_iff_exists.mp (cells c rfl)
      obtain ⟨u, run, shown⟩ := putc_spec font (tracks.shown g rfl) c
      exact ⟨u, run, shown.tracks⟩
  | draw op => exact ⟨_, rfl, tracks.keeps (fb_call t.screen op) rfl rfl rfl rfl rfl⟩

/-- Before the first call the region has no cell. -/
theorem tracks_powerOn (s : Screen) : Tracks s.fb (Term.powerOn s) none where
  mode := rfl
  high := Int.natCast_nonneg maxRows
  wide := Int.natCast_nonneg maxCols
  shown _ some := by cases some
  empty _ some := lt_irrefl 0 some.1

/-- **Any calls**: they succeed, and do what they do to the grid. -/
theorem calls_track (font : UInt8 → Nat → UInt8) {ops : List TermOp} (tracks : Tracks fb t grid)
    (cells : PutsInCells fb grid ops) :
    ∃ u, TermOp.calls font ops t = .ok u ∧ Tracks fb u (gridAfter fb ops grid) := by
  induction ops generalizing t grid with
  | nil => exact ⟨t, rfl, tracks⟩
  | cons op ops ih =>
      obtain ⟨u, one, tracks⟩ := call_tracks font tracks cells.1
      obtain ⟨v, rest, tracks⟩ := ih tracks cells.2
      exact ⟨v, (bind_of_ok one _).trans rest, tracks⟩

/-- The cursor of a region with a cell is in it. -/
theorem Tracks.cursor (tracks : Tracks fb t grid) (some : 0 < t.rows ∧ 0 < t.cols) :
    0 ≤ t.cursorX ∧ t.cursorX < t.cols ∧ 0 ≤ t.cursorY ∧ t.cursorY < t.rows := by
  cases grid with
  | none => exact absurd some (tracks.empty rfl)
  | some g =>
      have shown := tracks.shown g rfl
      have col := g.x.isLt
      have row := g.y.isLt
      rw [shown.rows, shown.cols, shown.cursorX, shown.cursorY]
      omega

/-- **The terminal matches its grid**: after any calls from power on, of which those of
`fb_term_putc` find a region with a row and a column, no access to `screen_buf` has failed, the
cursor is in the region, and cells and cursor are those of the grid.  The step lemma relates one
call of the terminal to one operation of the grid, scrolling included (`calls_track`); cells with
a row and a column are all that `fb_term_putc` needs. -/
theorem terminal_matches (font : UInt8 → Nat → UInt8) (s : Screen) {ops : List TermOp}
    (cells : PutsInCells s.fb none ops) :
    ∃ t, TermOp.calls font ops (Term.powerOn s) = .ok t ∧
      Tracks s.fb t (gridAfter s.fb ops none) ∧
      (0 < t.rows ∧ 0 < t.cols →
        0 ≤ t.cursorX ∧ t.cursorX < t.cols ∧ 0 ≤ t.cursorY ∧ t.cursorY < t.rows) := by
  obtain ⟨t, run, tracks⟩ := calls_track font (tracks_powerOn s) cells
  exact ⟨t, run, tracks, tracks.cursor⟩

/-- A region of two rows and three columns, into which more is put than fits. -/
def smallText : List TermOp :=
  [.setRegion 4 4 24 32, .putc 65, .putc charBackspace, .putc charTab, .putc 66, .putc charNewline,
    .putc 67]

/-- The tab went on to the second row, and the newline moved it up. -/
theorem terminal_matches_small : ∃ t,
    TermOp.calls (fun _ _ => 0) smallText (Term.powerOn smallScreen) = .ok t ∧
      t.cursorX = 1 ∧ t.cursorY = 1 ∧ t.screenBuf 0 1 = 66 ∧ t.screenBuf 1 0 = 67 := by
  have cells : PutsInCells smallScreen.fb none smallText := by
    refine ⟨fun _ same => (by cases same), ?_, ?_, ?_, ?_, ?_, ?_, trivial⟩
    all_goals exact fun _ _ => rfl
  obtain ⟨t, run, tracks, -⟩ := terminal_matches (fun _ _ => 0) smallScreen cells
  have shown := tracks.shown _ rfl
  exact ⟨t, run, shown.cursorX, shown.cursorY,
    (shown.cells ⟨0, by decide⟩ ⟨1, by decide⟩).trans (by decide),
    (shown.cells ⟨1, by decide⟩ ⟨0, by decide⟩).trans (by decide)⟩

end Flyos

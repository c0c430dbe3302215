import Modo.Encoding.Hex
import Modo.Lib.Ascii
import Modo.Lib.F64
import Modo.Lib.Painting
import Modo.Lib.Text

/-!
# QR codes as SVG

`render_svg` paints the background, the three finder patterns and a shape for every other dark
module.  A reader of the code looks at the middle of each module.  `renderSvg_colorAt` says that
it finds the foreground there exactly where the module is dark, whatever the shapes are, with one
exception: where the finder patterns are circles, their corners are not those of the squares.
With square shapes the whole module has its colour.

The coordinates are `f64`s.  `QrStyle.Fits` asks that they are not rounded: a module has a size,
and the code is less than `2 ^ 52` units wide.
-/

namespace Modo.Qrcode

open Painting

/-! ## Colours -/

/-- `QrError::InvalidColor`. -/
structure InvalidColor where
  color : List Char
  deriving DecidableEq

/-- `Color`. -/
inductive Color where
  | hex (text : List Char)
  | rgb (red green blue : UInt8)

/-- `char::is_ascii_hexdigit`. -/
def isHexDigit (c : Char) : Bool := (Hex.hexDigit c).isSome

/-- `Color::to_hex`. -/
def Color.toHex : Color → Except InvalidColor (List Char)
  | .rgb red green blue => .ok ('#' :: Hex.encode [red, green, blue])
  | .hex text =>
      match Text.trim text with
      | '#' :: digits =>
          if digits.all isHexDigit then
            match digits with
            | [a, b, c] => .ok ['#', a, a, b, b, c, c]
            | [_, _, _, _, _, _] => .ok ('#' :: digits.map Char.toLower)
            | _ => .error ⟨'#' :: digits⟩
          else .error ⟨'#' :: digits⟩
      | other => .error ⟨other⟩

/-! ## Styles -/

/-- `ModuleShape`. -/
inductive ModuleShape where
  | square
  | roundedSquare (radius : F32)
  | circle
  | diamond
  deriving DecidableEq

/-- `FinderShape`. -/
inductive FinderShape where
  | square
  | rounded
  | circle
  deriving DecidableEq

/-- `QrStyle`. -/
structure QrStyle where
  moduleShape : ModuleShape
  finderShape : FinderShape
  fgColor : Color
  bgColor : Color
  moduleSize : ℕ
  quietZone : ℕ

/-- `fast_qr::QRCode`: the modules that are dark, by row and column. -/
structure QrMatrix where
  size : ℕ
  dark : ℕ → ℕ → Bool

/-! ## Rendering -/

/-- A shape with its `fill`. -/
structure Filled where
  shape : Shape F64
  fill : List Char
  deriving DecidableEq

/-- The document: the sides of its view box, the fill of the background, the three groups of the
finder patterns, and the modules. -/
structure Svg where
  total : F64
  background : List Char
  groups : List (List Filled)
  modules : List Filled

/-- `is_finder_region`. -/
def isFinderRegion (row col size : ℕ) : Bool :=
  let inTopLeft := row < 7 && col < 7
  let inTopRight := row < 7 && size - 7 ≤ col
  let inBottomLeft := size - 7 ≤ row && col < 7
  inTopLeft || inTopRight || inBottomLeft

/-- `render_module`. -/
def renderModule (shape : ModuleShape) (x y m : F64) (fg : List Char) : Filled :=
  match shape with
  | .square => ⟨.rect x y m m 0, fg⟩
  | .roundedSquare radius => ⟨.rect x y m m ((radius.clamp F32.zero F32.half).toF64 * m), fg⟩
  | .circle => ⟨.circle (x + m.halve) (y + m.halve) m.halve, fg⟩
  | .diamond =>
      let cx := x + m.halve
      ⟨.polygon [⟨cx, y⟩, ⟨x + m, y + m.halve⟩, ⟨cx, y + m⟩, ⟨x, y + m.halve⟩], fg⟩

/-- `render_finder`. -/
def renderFinder (style : QrStyle) (fg bg : List Char) (startRow startCol : ℕ) : List Filled :=
  let m : F64 := style.moduleSize
  let q : F64 := style.quietZone * m
  let x := q + startCol * m
  let y := q + startRow * m
  match style.finderShape with
  | .square =>
      [⟨.rect x y (7 * m) (7 * m) 0, fg⟩, ⟨.rect (x + m) (y + m) (5 * m) (5 * m) 0, bg⟩,
        ⟨.rect (x + 2 * m) (y + 2 * m) (3 * m) (3 * m) 0, fg⟩]
  | .rounded =>
      [⟨.rect x y (7 * m) (7 * m) (m * 0.5), fg⟩,
        ⟨.rect (x + m) (y + m) (5 * m) (5 * m) (m * 0.4), bg⟩,
        ⟨.rect (x + 2 * m) (y + 2 * m) (3 * m) (3 * m) (m * 0.3), fg⟩]
  | .circle =>
      let centerX := x + 3.5 * m
      let centerY := y + 3.5 * m
      [⟨.circle centerX centerY (3.5 * m), fg⟩, ⟨.circle centerX centerY (2.5 * m), bg⟩,
        ⟨.circle centerX centerY (1.5 * m), fg⟩]

/-- The loops over the modules. -/
def renderModules (qr : QrMatrix) (style : QrStyle) (fg : List Char) : List Filled :=
  let m : F64 := style.moduleSize
  let q : F64 := style.quietZone * m
  (List.range qr.size).flatMap fun row => (List.range qr.size).flatMap fun col =>
    if isFinderRegion row col qr.size then []
    else if !qr.dark row col then []
    else [renderModule style.moduleShape (q + col * m) (q + row * m) m fg]

/-- What `render_svg` writes in the two colours. -/
def picture (qr : QrMatrix) (style : QrStyle) (fg bg : List Char) : Svg where
  total := qr.size * (style.moduleSize : F64) + 2 * (style.quietZone * (style.moduleSize : F64))
  background := bg
  groups := [renderFinder style fg bg 0 0, renderFinder style fg bg 0 (qr.size - 7),
    renderFinder style fg bg (qr.size - 7) 0]
  modules := renderModules qr style fg

/-- `render_svg`. -/
def renderSvg (qr : QrMatrix) (style : QrStyle) : Except InvalidColor Svg := do
  let fg ← style.fgColor.toHex
  let bg ← style.bgColor.toHex
  return picture qr style fg bg

/-- What is painted over the background, in its order. -/
def Svg.elements (svg : Svg) : List Filled := svg.groups.flatten ++ svg.modules

def Filled.covers (filled : Filled) (p : Point ℚ) : Bool :=
  decide ((filled.shape.map F64.value).Covers p)

/-- The colour that is seen at a point of the view box. -/
def Svg.colorAt (svg : Svg) (p : Point ℚ) : List Char :=
  (Painting.colorAt Filled.covers Filled.fill svg.elements p).getD svg.background

/-! ## Finder patterns -/

/-- Module `(i, j)` of a finder pattern is within its border of width `k`. -/
def Inset (k i j : ℕ) : Prop := (k ≤ i ∧ i + k ≤ 6) ∧ k ≤ j ∧ j + k ≤ 6

instance (k i j : ℕ) : Decidable (Inset k i j) :=
  inferInstanceAs (Decidable ((k ≤ i ∧ i + k ≤ 6) ∧ k ≤ j ∧ j + k ≤ 6))

/-- The modules of a finder pattern: all are dark but a ring around the inner square. -/
def finderDark (i j : ℕ) : Bool := decide (Inset 2 i j ∨ ¬Inset 1 i j)

/-- The modules of a finder pattern where circles and squares differ. -/
def finderCorner (i j : ℕ) : Bool := decide ((i < 2 ∨ 4 < i) ∧ (j < 2 ∨ 4 < j))

/-- The rows and columns in which the finder patterns begin. -/
def finderStarts (size : ℕ) : List (ℕ × ℕ) := [(0, 0), (0, size - 7), (size - 7, 0)]

theorem le_of_finderStarts {size startRow startCol : ℕ} (hsize : 14 ≤ size)
    (hstart : (startRow, startCol) ∈ finderStarts size) :
    startRow + 7 ≤ size ∧ startCol + 7 ≤ size := by
  simp only [finderStarts, List.mem_cons, Prod.mk.injEq, List.not_mem_nil, or_false] at hstart
  omega

/-- A code has its three finder patterns, and they do not meet. -/
structure QrMatrix.HasFinders (qr : QrMatrix) : Prop where
  size : 14 ≤ qr.size
  dark : ∀ start ∈ finderStarts qr.size, ∀ i < 7, ∀ j < 7,
    qr.dark (start.1 + i) (start.2 + j) = finderDark i j

/-- Where in a finder pattern a row or column is. -/
def finderOffset (k size : ℕ) : ℕ := if k < 7 then k else k - (size - 7)

/-- The module is in a corner of a finder pattern. -/
def isFinderCorner (row col size : ℕ) : Bool :=
  isFinderRegion row col size && finderCorner (finderOffset row size) (finderOffset col size)

/-! ## Places -/

/-- A point of the view box, given in modules. -/
def QrStyle.place (style : QrStyle) (p : Point ℚ) : Point ℚ :=
  p.place style.moduleSize (style.quietZone * style.moduleSize)

/-- The middle of a module. -/
def middle (row col : ℕ) : Point ℚ := ⟨col + 1 / 2, row + 1 / 2⟩

/-- The point is in the module and keeps a distance from its sides. -/
structure InModule (row col : ℕ) (distance : ℚ) (p : Point ℚ) : Prop where
  left : col < p.x
  right : p.x < col + 1
  above : row < p.y
  below : p.y < row + 1
  left_le : col + distance ≤ p.x
  right_le : p.x ≤ col + 1 - distance
  above_le : row + distance ≤ p.y
  below_le : p.y ≤ row + 1 - distance

theorem inModule_middle (row col : ℕ) {distance : ℚ} (hdistance : distance ≤ 1 / 2) :
    InModule row col distance (middle row col) := by
  constructor <;> simp only [middle] <;> linarith

/-- The coordinates are not rounded, and a rounding of the modules is a number. -/
structure QrStyle.Fits (style : QrStyle) (size : ℕ) : Prop where
  moduleSize_pos : 0 < style.moduleSize
  total_lt : (2 * style.quietZone + size) * style.moduleSize < 2 ^ 52
  radius : style.moduleShape ≠ .roundedSquare .nan

/-- The shape of a module, in modules, with a radius for its corners. -/
def moduleShape (shape : ModuleShape) (radius : ℚ) (row col : ℕ) : Shape ℚ :=
  match shape with
  | .square => .rect col row 1 1 0
  | .roundedSquare _ => .rect col row 1 1 radius
  | .circle => .circle (col + 1 / 2) (row + 1 / 2) (1 / 2)
  | .diamond =>
      .polygon [⟨col + 1 / 2, row⟩, ⟨col + 1, row + 1 / 2⟩, ⟨col + 1 / 2, row + 1⟩,
        ⟨col, row + 1 / 2⟩]

/-- What is drawn where nothing is rounded. -/
def drawn (style : QrStyle) (shape : Shape ℚ) (fill : List Char) : Filled :=
  ⟨(shape.place (style.moduleSize : ℚ) (style.quietZone * style.moduleSize)).map F64.number, fill⟩

theorem covers_drawn {style : QrStyle} (hm : 0 < style.moduleSize) (shape : Shape ℚ)
    (fill : List Char) (p : Point ℚ) :
    (drawn style shape fill).covers (style.place p) = decide (shape.Covers p) := by
  have hm : (0 : ℚ) < style.moduleSize := by exact_mod_cast hm
  have hvalue : F64.value ∘ F64.number = id := rfl
  rw [Filled.covers, drawn, Shape.map_map, hvalue, Shape.map_id]
  exact decide_eq_decide.mpr (covers_place hm shape p)

section Numbers

open F64

variable {style : QrStyle} {size k : ℕ}

theorem QrStyle.Fits.bound (hfits : style.Fits size) :
    2 * (2 * style.quietZone + size) * style.moduleSize < 2 ^ 53 := by
  have htotal := hfits.total_lt
  rw [Nat.mul_assoc]
  omega

theorem QrStyle.Fits.lt (hfits : style.Fits size) (hk : k ≤ 2 * (2 * style.quietZone + size)) :
    k < 2 ^ 53 :=
  (hk.trans (Nat.le_mul_of_pos_right _ hfits.moduleSize_pos)).trans_lt hfits.bound

theorem QrStyle.Fits.moduleSize_lt (hfits : style.Fits size) (hsize : 0 < size) :
    style.moduleSize < 2 ^ 53 :=
  (Nat.le_mul_of_pos_left _ (by omega)).trans_lt hfits.bound

theorem moduleSize_eq (hfits : style.Fits size) (hsize : 0 < size) :
    (style.moduleSize : F64) = units style.moduleSize 2 := by
  have hlt : 2 * style.moduleSize < 2 ^ 53 :=
    (Nat.mul_le_mul_right _ (by omega)).trans_lt hfits.bound
  rw [natCast_eq hlt, units, units]
  congr 1
  push_cast
  ring

theorem cast_mul_moduleSize (hfits : style.Fits size) (hsize : 0 < size)
    (hk : k ≤ 2 * style.quietZone + size) :
    (k : F64) * style.moduleSize = units style.moduleSize (2 * k) := by
  rw [moduleSize_eq hfits hsize, natCast_eq (hfits.lt (by omega)),
    units_mul (a := 1) hfits.bound (by omega), Nat.mul_one]

/-- Where row or column `k` begins. -/
theorem origin_eq (hfits : style.Fits size) (hsize : 0 < size) (hk : k ≤ size) :
    (style.quietZone : F64) * style.moduleSize + k * style.moduleSize =
      units style.moduleSize (2 * style.quietZone + 2 * k) := by
  rw [cast_mul_moduleSize hfits hsize (by omega), cast_mul_moduleSize hfits hsize (by omega),
    units_add hfits.bound (by omega)]

/-- A length in halves of a module is not rounded. -/
theorem literal_mul (hfits : style.Fits size) (hsize : 0 < size) {x : F64} (hx : x = units 1 k)
    (hk : k ≤ 2 * size) : x * style.moduleSize = units style.moduleSize k := by
  rw [moduleSize_eq hfits hsize, hx, units_mul (a := 1) hfits.bound (by omega), Nat.mul_one]

/-- What the radius of a rounded module is, in modules. -/
def IsRadius (style : QrStyle) (radius : ℚ) : Prop :=
  ∀ fraction, style.moduleShape = .roundedSquare fraction →
    (fraction.clamp F32.zero F32.half).toF64 * units style.moduleSize 2 =
      number (radius * style.moduleSize)

theorem exists_isRadius (hfits : style.Fits size) (hsize : 0 < size) :
    ∃ radius, IsRadius style radius ∧ 0 ≤ radius ∧ radius ≤ 1 / 2 := by
  by_cases hrounded : ∃ fraction, style.moduleShape = .roundedSquare fraction
  · obtain ⟨fraction, hshape⟩ := hrounded
    have hnan : fraction ≠ .nan := by
      rintro rfl
      exact hfits.radius hshape
    obtain ⟨x, hx, hnonneg, hhalf⟩ := F32.exists_toF64_clamp hnan
    obtain ⟨radius, hradius, hbounds⟩ :=
      exists_mul_units hfits.moduleSize_pos (hfits.moduleSize_lt hsize) hnonneg hhalf
    refine ⟨radius, ?_, hbounds⟩
    intro other hother
    obtain rfl := ModuleShape.roundedSquare.inj (hshape.symm.trans hother)
    rw [hx, hradius]
  · exact ⟨0, fun fraction hshape => absurd ⟨fraction, hshape⟩ hrounded, le_rfl, by norm_num⟩

/-- The modules are drawn where they are. -/
theorem renderModule_eq (hfits : style.Fits size) {radius : ℚ} (hradius : IsRadius style radius)
    {row col : ℕ} (hrow : row < size) (hcol : col < size) (fg : List Char) :
    renderModule style.moduleShape
        ((style.quietZone : F64) * style.moduleSize + col * style.moduleSize)
        ((style.quietZone : F64) * style.moduleSize + row * style.moduleSize)
        style.moduleSize fg =
      drawn style (moduleShape style.moduleShape radius row col) fg := by
  have hsize : 0 < size := Nat.zero_lt_of_lt hrow
  rw [origin_eq hfits hsize hrow.le, origin_eq hfits hsize hcol.le, moduleSize_eq hfits hsize]
  have hhalve : halve (units style.moduleSize 2) = units style.moduleSize 1 :=
    halve_units (a := 1) hfits.bound (by omega)
  have hmiddle : ∀ k < size, units style.moduleSize (2 * style.quietZone + 2 * k) +
      units style.moduleSize 1 = units style.moduleSize (2 * style.quietZone + 2 * k + 1) :=
    fun k hk => units_add hfits.bound (by omega)
  have hend : ∀ k < size, units style.moduleSize (2 * style.quietZone + 2 * k) +
      units style.moduleSize 2 = units style.moduleSize (2 * style.quietZone + 2 * k + 2) :=
    fun k hk => units_add hfits.bound (by omega)
  -- the machine's numbers first, then those of the shape in its place
  cases hshape : style.moduleShape with
  | square =>
      simp only [renderModule, drawn, moduleShape, Shape.place, Shape.map, units, zero_eq]
      push_cast
      ring_nf
  | roundedSquare fraction =>
      simp only [renderModule, hradius fraction hshape]
      simp only [drawn, moduleShape, Shape.place, Shape.map, units]
      push_cast
      ring_nf
  | circle =>
      simp only [renderModule, hhalve, hmiddle row hrow, hmiddle col hcol]
      simp only [drawn, moduleShape, Shape.place, Shape.map, units]
      push_cast
      ring_nf
  | diamond =>
      simp only [renderModule, hhalve, hmiddle row hrow, hmiddle col hcol, hend row hrow,
        hend col hcol]
      simp only [drawn, moduleShape, Shape.place, Point.place, Shape.map, units, List.map_cons,
        List.map_nil]
      push_cast
      ring_nf

end Numbers

/-- A module stays in its place. -/
theorem bounds_of_covers_moduleShape {shape : ModuleShape} {radius : ℚ} (hradius : 0 ≤ radius)
    {row col : ℕ} {p : Point ℚ} (hcovers : (moduleShape shape radius row col).Covers p) :
    (col ≤ p.x ∧ p.x ≤ col + 1) ∧ row ≤ p.y ∧ p.y ≤ row + 1 := by
  cases shape with
  | square => exact bounds_of_covers_rect le_rfl hcovers
  | roundedSquare _ => exact bounds_of_covers_rect hradius hcovers
  | circle =>
      simp only [moduleShape, Shape.Covers] at hcovers
      refine ⟨⟨?_, ?_⟩, ?_, ?_⟩ <;>
        nlinarith [sq_nonneg (p.x - (col + 1 / 2)), sq_nonneg (p.y - (row + 1 / 2))]
  | diamond =>
      obtain ⟨hupper, hright, hlower, hleft⟩ := covers_quadrilateral.mp hcovers
      simp only [RightOf] at hupper hright hlower hleft
      refine ⟨⟨?_, ?_⟩, ?_, ?_⟩ <;> linarith

/-- The middle of the module is covered, and all of it if the shape is a square. -/
theorem covers_moduleShape {shape : ModuleShape} {radius : ℚ} (hradius : radius ≤ 1 / 2)
    {row col : ℕ} {p : Point ℚ} {distance : ℚ} (hin : InModule row col distance p)
    (hshape : shape = .square ∨ p = middle row col) :
    (moduleShape shape radius row col).Covers p := by
  cases shape with
  | square =>
      apply covers_rect_of_excess <;> apply excess_eq_zero <;>
        linarith [hin.left, hin.right, hin.above, hin.below]
  | roundedSquare _ =>
      obtain rfl : p = middle row col := hshape.resolve_left ModuleShape.noConfusion
      apply covers_rect_of_excess <;> apply excess_eq_zero <;> simp only [middle] <;> linarith
  | circle =>
      obtain rfl : p = middle row col := hshape.resolve_left ModuleShape.noConfusion
      simp [moduleShape, Shape.Covers, middle]
  | diamond =>
      obtain rfl : p = middle row col := hshape.resolve_left ModuleShape.noConfusion
      apply covers_quadrilateral.mpr
      refine ⟨?_, ?_, ?_, ?_⟩ <;> simp only [RightOf, middle] <;> linarith

/-- The shape of border `k` of a finder pattern, in modules, with radii for the corners. -/
def finderShape (shape : FinderShape) (radius : ℕ → ℚ) (row col k : ℕ) : Shape ℚ :=
  match shape with
  | .square => .rect (col + k) (row + k) (7 - 2 * k) (7 - 2 * k) 0
  | .rounded => .rect (col + k) (row + k) (7 - 2 * k) (7 - 2 * k) (radius k)
  | .circle => .circle (col + 7 / 2) (row + 7 / 2) (7 / 2 - k)

section Borders

open F64

variable {style : QrStyle} {size : ℕ}

/-- The radii of the rounded finder patterns, in modules. -/
theorem exists_radii (hfits : style.Fits size) (hsize : 0 < size) :
    ∃ radius : ℕ → ℚ, (∀ k, 0 ≤ radius k ∧ radius k ≤ 1 / 2) ∧
      units style.moduleSize 2 * 0.5 = number (radius 0 * style.moduleSize) ∧
      units style.moduleSize 2 * 0.4 = number (radius 1 * style.moduleSize) ∧
      units style.moduleSize 2 * 0.3 = number (radius 2 * style.moduleSize) := by
  have hpart : ∀ {x : ℚ}, 0 ≤ x → x ≤ 1 / 2 → ∃ radius : ℚ,
      units style.moduleSize 2 * ofRat x = number (radius * style.moduleSize) ∧
        0 ≤ radius ∧ radius ≤ 1 / 2 := by
    intro x hx hle
    obtain ⟨y, hy, hnonneg, hhalf⟩ :=
      exists_ofRat hx (n := 1) (by exact_mod_cast hle) (by decide)
    rw [hy, F64.mul_comm]
    exact exists_mul_units hfits.moduleSize_pos (hfits.moduleSize_lt hsize) hnonneg
      (by exact_mod_cast hhalf)
  obtain ⟨outer, houter, houter'⟩ := hpart (show (0 : ℚ) ≤ 0.5 by norm_num) (by norm_num)
  obtain ⟨border, hborder, hborder'⟩ := hpart (show (0 : ℚ) ≤ 0.4 by norm_num) (by norm_num)
  obtain ⟨inner, hinner, hinner'⟩ := hpart (show (0 : ℚ) ≤ 0.3 by norm_num) (by norm_num)
  refine ⟨fun k => if k = 0 then outer else if k = 1 then border else inner, ?_, houter, hborder,
    hinner⟩
  intro k
  dsimp only
  split_ifs
  exacts [houter', hborder', hinner']

/-- The finder patterns are drawn where they are, with three radii. -/
theorem exists_renderFinder (hfits : style.Fits size) (fg bg : List Char) :
    ∃ radius : ℕ → ℚ, (∀ k, 0 ≤ radius k ∧ radius k ≤ 1 / 2) ∧
      ∀ row col, row + 7 ≤ size → col + 7 ≤ size →
        renderFinder style fg bg row col = [(0, fg), (1, bg), (2, fg)].map fun border =>
          drawn style (finderShape style.finderShape radius row col border.1) border.2 := by
  rcases size.eq_zero_or_pos with rfl | hsize
  · exact ⟨0, fun _ => ⟨le_rfl, by norm_num⟩, fun _ _ hrow => absurd hrow (by omega)⟩
  obtain ⟨radius, hradius, houter, hborder, hinner⟩ := exists_radii hfits hsize
  refine ⟨radius, hradius, ?_⟩
  intro row col hrow hcol
  have hlength : ∀ {x : F64} (k : ℕ), x = units 1 k → k ≤ 14 →
      x * style.moduleSize = units style.moduleSize k :=
    fun k hx hk => literal_mul hfits hsize hx (by omega)
  have hadd : ∀ {a b : ℕ}, a + b ≤ 2 * (2 * style.quietZone + size) →
      units style.moduleSize a + units style.moduleSize b = units style.moduleSize (a + b) :=
    units_add hfits.bound
  have htwo : (2 : F64) * style.moduleSize = _ := hlength 4 (by decide +kernel) (by decide)
  have hthree : (3 : F64) * style.moduleSize = _ := hlength 6 (by decide +kernel) (by decide)
  have hfive : (5 : F64) * style.moduleSize = _ := hlength 10 (by decide +kernel) (by decide)
  have hseven : (7 : F64) * style.moduleSize = _ := hlength 14 (by decide +kernel) le_rfl
  dsimp only [renderFinder]
  rw [origin_eq hfits hsize (by omega), origin_eq hfits hsize (by omega)]
  cases hshape : style.finderShape with
  | square =>
      dsimp only
      rw [htwo, hthree, hfive, hseven, moduleSize_eq hfits hsize, hadd (by omega),
        hadd (by omega), hadd (by omega), hadd (by omega)]
      simp only [List.map_cons, List.map_nil, drawn, finderShape, Shape.place, Shape.map, units,
        zero_eq]
      push_cast
      ring_nf
  | rounded =>
      dsimp only
      rw [htwo, hthree, hfive, hseven, moduleSize_eq hfits hsize, hadd (by omega),
        hadd (by omega), hadd (by omega), hadd (by omega), houter, hborder, hinner]
      simp only [List.map_cons, List.map_nil, drawn, finderShape, Shape.place, Shape.map, units]
      push_cast
      ring_nf
  | circle =>
      dsimp only
      rw [hlength 7 (by decide +kernel) (by decide), hlength 5 (by decide +kernel) (by decide),
        hlength 3 (by decide +kernel) (by decide), hadd (by omega), hadd (by omega)]
      simp only [List.map_cons, List.map_nil, drawn, finderShape, Shape.place, Shape.map, units]
      push_cast
      ring_nf

end Borders

/-- Places of whole modules are compared as numbers. -/
theorem le_of_cast_lt {a b : ℕ} (hlt : (a : ℚ) < b + 1) : a ≤ b :=
  Nat.lt_succ_iff.mp (by exact_mod_cast hlt)

/-- Module `(i, j)` of a rounded border. -/
theorem covers_border {row col i j k : ℕ} {radius : ℚ} {p : Point ℚ}
    (hradius : 0 ≤ radius) (hin : InModule (row + i) (col + j) radius p) :
    (Shape.rect (col + k : ℚ) (row + k) (7 - 2 * k) (7 - 2 * k) radius).Covers p ↔
      Inset k i j := by
  obtain ⟨hleft, hright, habove, hbelow, hleftle, hrightle, habovele, hbelowle⟩ := hin
  push_cast at hleft hright habove hbelow hleftle hrightle habovele hbelowle
  constructor
  · intro hcovers
    obtain ⟨⟨hx, hx'⟩, hy, hy'⟩ := bounds_of_covers_rect hradius hcovers
    refine ⟨⟨le_of_cast_lt ?_, le_of_cast_lt ?_⟩, le_of_cast_lt ?_, le_of_cast_lt ?_⟩ <;>
      push_cast <;> linarith
  · rintro ⟨⟨hi, hi'⟩, hj, hj'⟩
    have hi : (k : ℚ) ≤ i := by exact_mod_cast hi
    have hi' : (i : ℚ) + k ≤ 6 := by exact_mod_cast hi'
    have hj : (k : ℚ) ≤ j := by exact_mod_cast hj
    have hj' : (j : ℚ) + k ≤ 6 := by exact_mod_cast hj'
    apply covers_rect_of_excess <;> apply excess_eq_zero <;> linarith

/-- The middle of module `(i, j)` is in the circle of border `k`. -/
def InCircle (k i j : ℕ) : Prop :=
  (2 * (i : ℤ) - 6) ^ 2 + (2 * (j : ℤ) - 6) ^ 2 ≤ (7 - 2 * (k : ℤ)) ^ 2

instance (k i j : ℕ) : Decidable (InCircle k i j) :=
  inferInstanceAs (Decidable ((2 * (i : ℤ) - 6) ^ 2 + (2 * (j : ℤ) - 6) ^ 2 ≤
    (7 - 2 * (k : ℤ)) ^ 2))

theorem covers_circle (radius : ℕ → ℚ) (row col i j k : ℕ) :
    (finderShape .circle radius row col k).Covers (middle (row + i) (col + j)) ↔
      InCircle k i j := by
  have hscale : ∀ x y z : ℚ, x ^ 2 + y ^ 2 ≤ z ^ 2 ↔
      (2 * y) ^ 2 + (2 * x) ^ 2 ≤ (2 * z) ^ 2 := by
    intro x y z
    constructor <;> intro h <;> linarith
  rw [InCircle, finderShape, Shape.Covers, hscale, ← Int.cast_le (R := ℚ)]
  push_cast [middle]
  ring_nf

/-- What is seen of a finder pattern. -/
def finderSeen (shape : FinderShape) (i j : ℕ) : Bool :=
  finderDark i j != (decide (shape = .circle) && finderCorner i j)

/-- The borders that cover a point decide its colour. -/
theorem nested_squares : ∀ i < 7, ∀ j < 7,
    (decide (Inset 2 i j) || !decide (Inset 1 i j) && decide (Inset 0 i j)) = finderDark i j := by
  decide

theorem nested_circles : ∀ i < 7, ∀ j < 7,
    (decide (InCircle 2 i j) || !decide (InCircle 1 i j) && decide (InCircle 0 i j)) =
      (finderDark i j != finderCorner i j) := by
  decide

section Finder

variable {style : QrStyle} {size : ℕ} {fg bg : List Char} {radius : ℕ → ℚ} {row col i j : ℕ}
  {p : Point ℚ}

theorem covers_finderShape (hradius : ∀ k, 0 ≤ radius k ∧ radius k ≤ 1 / 2)
    (hin : InModule (row + i) (col + j) 0 p)
    (hshape : style.finderShape = .square ∨ p = middle (row + i) (col + j)) (hi : i < 7)
    (hj : j < 7) :
    (decide ((finderShape style.finderShape radius row col 2).Covers p) ||
      !decide ((finderShape style.finderShape radius row col 1).Covers p) &&
        decide ((finderShape style.finderShape radius row col 0).Covers p)) =
      finderSeen style.finderShape i j := by
  rw [finderSeen]
  cases hfinder : style.finderShape with
  | square =>
      simp only [finderShape, covers_border le_rfl hin]
      simpa using nested_squares i hi j hj
  | rounded =>
      rw [hfinder] at hshape
      obtain rfl := hshape.resolve_left FinderShape.noConfusion
      have hborder : ∀ k, (finderShape .rounded radius row col k).Covers
          (middle (row + i) (col + j)) ↔ Inset k i j := by
        intro k
        exact covers_border (hradius k).1 (inModule_middle _ _ (hradius k).2)
      simp only [hborder]
      simpa using nested_squares i hi j hj
  | circle =>
      rw [hfinder] at hshape
      obtain rfl := hshape.resolve_left FinderShape.noConfusion
      simp only [covers_circle]
      simpa using nested_circles i hi j hj

/-- The last border that covers the point gives its colour. -/
theorem colorAt_finder (hfits : style.Fits size) (hrow : row + 7 ≤ size) (hcol : col + 7 ≤ size)
    (hin : InModule (row + i) (col + j) 0 p)
    (hshape : style.finderShape = .square ∨ p = middle (row + i) (col + j)) (hi : i < 7)
    (hj : j < 7) :
    (Painting.colorAt Filled.covers Filled.fill (renderFinder style fg bg row col)
      (style.place p)).getD bg = if finderSeen style.finderShape i j then fg else bg := by
  obtain ⟨radius, hradius, hfinder⟩ := exists_renderFinder hfits fg bg
  rw [← covers_finderShape hradius hin hshape hi hj, hfinder row col hrow hcol]
  simp only [List.map_cons, List.map_nil, colorAt_cons, covers_drawn hfits.moduleSize_pos]
  generalize decide ((finderShape style.finderShape radius row col 0).Covers p) = outer
  generalize decide ((finderShape style.finderShape radius row col 1).Covers p) = border
  generalize decide ((finderShape style.finderShape radius row col 2).Covers p) = inner
  cases outer <;> cases border <;> cases inner <;> rfl

theorem bounds_of_covers_finderShape (hradius : ∀ k, 0 ≤ radius k ∧ radius k ≤ 1 / 2) {k : ℕ}
    (hk : k ≤ 2) (hcovers : (finderShape style.finderShape radius row col k).Covers p) :
    (col ≤ p.x ∧ p.x ≤ col + 7) ∧ row ≤ p.y ∧ p.y ≤ row + 7 := by
  have hpos : (0 : ℚ) ≤ k := Nat.cast_nonneg k
  have hk : (k : ℚ) ≤ 2 := by exact_mod_cast hk
  have hrect : ∀ {radius : ℚ}, 0 ≤ radius →
      (Shape.rect (col + k : ℚ) (row + k) (7 - 2 * k) (7 - 2 * k) radius).Covers p →
        (col ≤ p.x ∧ p.x ≤ col + 7) ∧ row ≤ p.y ∧ p.y ≤ row + 7 := by
    intro radius hradius hcovers
    obtain ⟨⟨hx, hx'⟩, hy, hy'⟩ := bounds_of_covers_rect hradius hcovers
    refine ⟨⟨?_, ?_⟩, ?_, ?_⟩ <;> linarith
  cases hfinder : style.finderShape with
  | square =>
      rw [hfinder] at hcovers
      exact hrect le_rfl hcovers
  | rounded =>
      rw [hfinder] at hcovers
      exact hrect (hradius k).1 hcovers
  | circle =>
      rw [hfinder] at hcovers
      have hbound : ∀ {a b : ℚ}, a ^ 2 + b ^ 2 ≤ (7 / 2 - k) ^ 2 → |a| ≤ 7 / 2 := by
        intro a b hle
        apply abs_le_of_sq_le_sq _ (by norm_num)
        nlinarith [sq_nonneg b]
      have hx := abs_le.mp (hbound hcovers)
      have hy := abs_le.mp (hbound ((add_comm _ _).trans_le hcovers))
      refine ⟨⟨?_, ?_⟩, ?_, ?_⟩ <;> linarith [hx.1, hx.2, hy.1, hy.2]

/-- Nothing of a finder pattern is painted outside of it. -/
theorem colorAt_finder_eq_none (hfits : style.Fits size) (hrow : row + 7 ≤ size)
    (hcol : col + 7 ≤ size)
    (hout : ¬((col ≤ p.x ∧ p.x ≤ col + 7) ∧ row ≤ p.y ∧ p.y ≤ row + 7)) :
    Painting.colorAt Filled.covers Filled.fill (renderFinder style fg bg row col)
      (style.place p) = none := by
  obtain ⟨radius, hradius, hfinder⟩ := exists_renderFinder hfits fg bg
  apply colorAt_eq_none
  intro element hmem
  rw [hfinder row col hrow hcol] at hmem
  obtain ⟨border, hborder, rfl⟩ := List.mem_map.mp hmem
  have hk : border.1 ≤ 2 := by
    simp only [List.mem_cons, List.not_mem_nil, or_false] at hborder
    rcases hborder with rfl | rfl | rfl <;> simp
  rw [covers_drawn hfits.moduleSize_pos]
  exact decide_eq_false fun hcovers => hout (bounds_of_covers_finderShape hradius hk hcovers)

end Finder

/-! ## Modules -/

section Modules

variable {qr : QrMatrix} {style : QrStyle} {fg : List Char} {row col : ℕ} {p : Point ℚ}

theorem mem_renderModules (hfits : style.Fits qr.size) {radius : ℚ}
    (hradius : IsRadius style radius) {element : Filled} :
    element ∈ renderModules qr style fg ↔ ∃ row < qr.size, ∃ col < qr.size,
      isFinderRegion row col qr.size = false ∧ qr.dark row col = true ∧
        element = drawn style (moduleShape style.moduleShape radius row col) fg := by
  simp only [renderModules, List.mem_flatMap, List.mem_range]
  refine exists_congr fun row => and_congr_right fun hrow => exists_congr fun col =>
    and_congr_right fun hcol => ?_
  rw [renderModule_eq hfits hradius hrow hcol]
  cases isFinderRegion row col qr.size <;> cases qr.dark row col <;> simp

/-- The modules that are painted. -/
theorem colorAt_renderModules (hfits : style.Fits qr.size) (hrow : row < qr.size)
    (hcol : col < qr.size) (hin : InModule row col 0 p)
    (hshape : style.moduleShape = .square ∨ p = middle row col) :
    Painting.colorAt Filled.covers Filled.fill (renderModules qr style fg) (style.place p) =
      if isFinderRegion row col qr.size = false ∧ qr.dark row col = true then some fg
      else none := by
  obtain ⟨radius, hradius, hnonneg, hhalf⟩ := exists_isRadius hfits (Nat.zero_lt_of_lt hrow)
  have hcovers : ∀ {other otherCol : ℕ},
      (moduleShape style.moduleShape radius other otherCol).Covers p →
        other = row ∧ otherCol = col := by
    intro other otherCol hcovered
    obtain ⟨⟨hx, hx'⟩, hy, hy'⟩ := bounds_of_covers_moduleShape hnonneg hcovered
    exact ⟨(le_of_cast_lt (hy.trans_lt hin.below)).antisymm
        (le_of_cast_lt (hin.above.trans_le hy')),
      (le_of_cast_lt (hx.trans_lt hin.right)).antisymm (le_of_cast_lt (hin.left.trans_le hx'))⟩
  split_ifs with hdark
  · have helement : drawn style (moduleShape style.moduleShape radius row col) fg ∈
        renderModules qr style fg :=
      (mem_renderModules hfits hradius).mpr ⟨row, hrow, col, hcol, hdark.1, hdark.2, rfl⟩
    refine colorAt_eq_some ?_ helement ?_
    · intro element helement
      obtain ⟨_, _, _, _, _, _, rfl⟩ := (mem_renderModules hfits hradius).mp helement
      rfl
    · rw [covers_drawn hfits.moduleSize_pos]
      exact decide_eq_true (covers_moduleShape hhalf hin hshape)
  · apply colorAt_eq_none
    intro element helement
    obtain ⟨other, -, otherCol, -, hregion, hother, rfl⟩ :=
      (mem_renderModules hfits hradius).mp helement
    rw [covers_drawn hfits.moduleSize_pos]
    refine decide_eq_false fun hcovered => ?_
    obtain ⟨rfl, rfl⟩ := hcovers hcovered
    exact hdark ⟨hregion, hother⟩

/-- No module is painted around the code. -/
theorem colorAt_renderModules_eq_none (hfits : style.Fits qr.size) (hsize : 0 < qr.size)
    (hout : ¬((0 ≤ p.x ∧ p.x ≤ qr.size) ∧ 0 ≤ p.y ∧ p.y ≤ qr.size)) :
    Painting.colorAt Filled.covers Filled.fill (renderModules qr style fg) (style.place p) =
      none := by
  obtain ⟨radius, hradius, hnonneg, -⟩ := exists_isRadius hfits hsize
  apply colorAt_eq_none
  intro element helement
  obtain ⟨row, hrow, col, hcol, -, -, rfl⟩ := (mem_renderModules hfits hradius).mp helement
  rw [covers_drawn hfits.moduleSize_pos]
  refine decide_eq_false fun hcovers => ?_
  obtain ⟨⟨hx, hx'⟩, hy, hy'⟩ := bounds_of_covers_moduleShape hnonneg hcovers
  have hrow : (row : ℚ) + 1 ≤ qr.size := by exact_mod_cast hrow
  have hcol : (col : ℚ) + 1 ≤ qr.size := by exact_mod_cast hcol
  exact hout ⟨⟨(Nat.cast_nonneg col).trans hx, hx'.trans hcol⟩,
    (Nat.cast_nonneg row).trans hy, hy'.trans hrow⟩

end Modules

/-! ## What is seen -/

/-- `#` and six digits. -/
def IsHexColor (text : List Char) : Prop :=
  ∃ digits : List Char, text = '#' :: digits ∧ digits.length = 6 ∧ digits.all isHexDigit = true

theorem isHexDigit_toLower {c : Char} (hc : isHexDigit c = true) : isHexDigit c.toLower = true := by
  have hpoints : ∀ n < 128, isHexDigit (Char.ofNat n) = true →
      isHexDigit (Char.ofNat n).toLower = true := by decide
  by_cases hlt : c.toNat < 128
  · exact Ascii.forall_of_lt (p := fun c => isHexDigit c = true → isHexDigit c.toLower = true)
      128 hpoints hlt hc
  · rwa [Ascii.toLower_of_le (Nat.not_lt.mp hlt)]

theorem isHexDigit_encode (bytes : List UInt8) :
    (Hex.encode bytes).all isHexDigit = true := by
  induction bytes with
  | nil => rfl
  | cons byte rest ih =>
      have hbyte : byte.toNat < 256 := byte.toNat_lt
      have hdigit : ∀ n < 16, isHexDigit (Hex.digit n) = true := by decide
      rw [Hex.encode, List.all_cons, List.all_cons, ih, hdigit _ (by omega), hdigit _ (by omega)]
      rfl

/-- A colour that is accepted is written with digits and nothing else. -/
theorem isHexColor_of_toHex {color : Color} {text : List Char} (hok : color.toHex = .ok text) :
    IsHexColor text := by
  unfold Color.toHex at hok
  split at hok
  · rename_i red green blue
    obtain rfl := Except.ok.inj hok
    exact ⟨_, rfl, Hex.length_encode _, isHexDigit_encode _⟩
  · split at hok
    · rename_i digits htrim
      split_ifs at hok with hdigits
      split at hok
      · rename_i a b c
        obtain rfl := Except.ok.inj hok
        refine ⟨_, rfl, rfl, ?_⟩
        simpa using hdigits
      · rename_i d1 d2 d3 d4 d5 d6
        obtain rfl := Except.ok.inj hok
        refine ⟨_, rfl, rfl, ?_⟩
        rw [List.all_map]
        exact List.all_eq_true.mpr fun c hc =>
          isHexDigit_toLower (List.all_eq_true.mp hdigits c hc)
      · cases hok
    · cases hok

section Picture

variable {qr : QrMatrix} {style : QrStyle} {svg : Svg} {fg bg : List Char}
  {row col : ℕ} {p : Point ℚ}

theorem colorAt_finder_outside {size startRow startCol : ℕ} (hfits : style.Fits size)
    (hstart : (startRow, startCol) ∈ finderStarts size) (hsize : 14 ≤ size)
    (hin : InModule row col 0 p)
    (hout : ¬((startRow ≤ row ∧ row < startRow + 7) ∧ startCol ≤ col ∧ col < startCol + 7)) :
    Painting.colorAt Filled.covers Filled.fill (renderFinder style fg bg startRow startCol)
      (style.place p) = none := by
  obtain ⟨hrow, hcol⟩ := le_of_finderStarts hsize hstart
  apply colorAt_finder_eq_none hfits hrow hcol
  rintro ⟨⟨hx, hx'⟩, hy, hy'⟩
  have hcol : (col : ℚ) < startCol + 7 := hin.left.trans_le hx'
  have hrow : (row : ℚ) < startRow + 7 := hin.above.trans_le hy'
  exact hout ⟨⟨le_of_cast_lt (hy.trans_lt hin.below), by exact_mod_cast hrow⟩,
    le_of_cast_lt (hx.trans_lt hin.right), by exact_mod_cast hcol⟩

theorem renderSvg_eq_ok (hsvg : renderSvg qr style = .ok svg) :
    ∃ fg bg, style.fgColor.toHex = .ok fg ∧ style.bgColor.toHex = .ok bg ∧
      svg = picture qr style fg bg := by
  unfold renderSvg at hsvg
  cases hfg : style.fgColor.toHex with
  | error error =>
      rw [hfg] at hsvg
      cases hsvg
  | ok fg =>
      cases hbg : style.bgColor.toHex with
      | error error =>
          rw [hfg, hbg] at hsvg
          cases hsvg
      | ok bg =>
          rw [hfg, hbg] at hsvg
          exact ⟨fg, bg, rfl, rfl, (Except.ok.inj hsvg).symm⟩

/-- Each finder pattern and the modules give a colour or leave that below. -/
theorem colorAt_picture (p : Point ℚ) :
    (picture qr style fg bg).colorAt p =
      ((Painting.colorAt Filled.covers Filled.fill (renderModules qr style fg) p).or
        ((Painting.colorAt Filled.covers Filled.fill
          (renderFinder style fg bg (qr.size - 7) 0) p).or
          ((Painting.colorAt Filled.covers Filled.fill
            (renderFinder style fg bg 0 (qr.size - 7)) p).or
            (Painting.colorAt Filled.covers Filled.fill
              (renderFinder style fg bg 0 0) p)))).getD bg := by
  simp only [Svg.colorAt, Svg.elements, picture, List.flatten_cons, List.flatten_nil,
    List.append_nil, colorAt_append, Option.or_assoc]

theorem isFinderCorner_of_start {size startRow startCol i j : ℕ} (hsize : 14 ≤ size)
    (hstart : (startRow, startCol) ∈ finderStarts size) (hi : i < 7) (hj : j < 7) :
    isFinderCorner (startRow + i) (startCol + j) size = finderCorner i j := by
  have hnear : ∀ {k}, k < 7 → finderOffset (0 + k) size = k := by
    intro k hk
    rw [finderOffset, if_pos (by omega), Nat.zero_add]
  have hfar : ∀ {k}, k < 7 → finderOffset (size - 7 + k) size = k := by
    intro k hk
    rw [finderOffset, if_neg (by omega), Nat.add_sub_cancel_left]
  simp only [finderStarts, List.mem_cons, Prod.mk.injEq, List.not_mem_nil, or_false] at hstart
  rw [isFinderCorner]
  rcases hstart with ⟨rfl, rfl⟩ | ⟨rfl, rfl⟩ | ⟨rfl, rfl⟩
  · rw [hnear hi, hnear hj]
    simp [isFinderRegion, hi, hj]
  · rw [hnear hi, hfar hj]
    simp [isFinderRegion, hi]
  · rw [hfar hi, hnear hj]
    simp [isFinderRegion, hj]

/-- **What is seen of a module** is its colour, but for the corners of finder patterns that are
circles. -/
theorem colorAt_module (hqr : qr.HasFinders) (hfits : style.Fits qr.size) (hrow : row < qr.size)
    (hcol : col < qr.size) (hin : InModule row col 0 p)
    (hshape : p = middle row col ∨ style.moduleShape = .square ∧ style.finderShape = .square) :
    (picture qr style fg bg).colorAt (style.place p) =
      if qr.dark row col != (decide (style.finderShape = .circle) &&
          isFinderCorner row col qr.size) then fg else bg := by
  have hsize := hqr.size
  have hseen : ∀ {startRow startCol i j}, (startRow, startCol) ∈ finderStarts qr.size → i < 7 →
      j < 7 → row = startRow + i → col = startCol + j →
      (Painting.colorAt Filled.covers Filled.fill (renderFinder style fg bg startRow startCol)
        (style.place p)).getD bg = if qr.dark row col != (decide (style.finderShape = .circle) &&
          isFinderCorner row col qr.size) then fg else bg := by
    rintro startRow startCol i j hstart hi hj rfl rfl
    obtain ⟨hstartRow, hstartCol⟩ := le_of_finderStarts hsize hstart
    rw [colorAt_finder hfits hstartRow hstartCol hin (hshape.symm.imp And.right id) hi hj,
      finderSeen, hqr.dark _ hstart i hi j hj, isFinderCorner_of_start hsize hstart hi hj]
  have houtside : ∀ startRow startCol, (startRow, startCol) ∈ finderStarts qr.size →
      ¬((startRow ≤ row ∧ row < startRow + 7) ∧ startCol ≤ col ∧ col < startCol + 7) →
      Painting.colorAt Filled.covers Filled.fill (renderFinder style fg bg startRow startCol)
        (style.place p) = none :=
    fun _ _ hstart hout => colorAt_finder_outside hfits hstart hsize hin hout
  have hupper : (0, 0) ∈ finderStarts qr.size := by simp [finderStarts]
  have hright : (0, qr.size - 7) ∈ finderStarts qr.size := by simp [finderStarts]
  have hlower : (qr.size - 7, 0) ∈ finderStarts qr.size := by simp [finderStarts]
  rw [colorAt_picture,
    colorAt_renderModules hfits hrow hcol hin (hshape.symm.imp And.left fun heq => heq)]
  cases hregion : isFinderRegion row col qr.size with
  | false =>
      have hcorner : isFinderCorner row col qr.size = false := by
        rw [isFinderCorner, hregion, Bool.false_and]
      simp only [isFinderRegion, Bool.or_eq_false_iff, Bool.and_eq_false_iff,
        decide_eq_false_iff_not] at hregion
      rw [houtside _ _ hlower (by omega), houtside _ _ hright (by omega),
        houtside _ _ hupper (by omega), hcorner]
      cases qr.dark row col <;> simp
  | true =>
      rw [if_neg (by simp), Option.none_or]
      simp only [isFinderRegion, Bool.or_eq_true, Bool.and_eq_true, decide_eq_true_eq] at hregion
      rcases hregion with (hregion | hregion) | hregion
      · rw [houtside _ _ hlower (by omega), houtside _ _ hright (by omega), Option.none_or,
          Option.none_or]
        exact hseen hupper hregion.1 hregion.2 (Nat.zero_add row).symm (Nat.zero_add col).symm
      · rw [houtside _ _ hlower (by omega), houtside _ _ hupper (by omega), Option.none_or,
          Option.or_none]
        exact hseen (i := row) (j := col - (qr.size - 7)) hright hregion.1 (by omega)
          (Nat.zero_add row).symm (by omega)
      · rw [houtside _ _ hright (by omega), houtside _ _ hupper (by omega), Option.or_none,
          Option.or_none]
        exact hseen (i := row - (qr.size - 7)) (j := col) hlower (by omega) hregion.2 (by omega)
          (Nat.zero_add col).symm

/-- Around the code is the background. -/
theorem colorAt_outside (hqr : qr.HasFinders) (hfits : style.Fits qr.size)
    (hout : ¬((0 ≤ p.x ∧ p.x ≤ qr.size) ∧ 0 ≤ p.y ∧ p.y ≤ qr.size)) :
    (picture qr style fg bg).colorAt (style.place p) = bg := by
  have hnone : ∀ startRow startCol, (startRow, startCol) ∈ finderStarts qr.size →
      Painting.colorAt Filled.covers Filled.fill (renderFinder style fg bg startRow startCol)
        (style.place p) = none := by
    intro startRow startCol hstart
    obtain ⟨hrow, hcol⟩ := le_of_finderStarts hqr.size hstart
    apply colorAt_finder_eq_none hfits hrow hcol
    rintro ⟨⟨hx, hx'⟩, hy, hy'⟩
    have hrow : (startRow : ℚ) + 7 ≤ qr.size := by exact_mod_cast hrow
    have hcol : (startCol : ℚ) + 7 ≤ qr.size := by exact_mod_cast hcol
    exact hout ⟨⟨(Nat.cast_nonneg startCol).trans hx, hx'.trans hcol⟩,
      (Nat.cast_nonneg startRow).trans hy, hy'.trans hrow⟩
  have hsize : 0 < qr.size := (by decide : 0 < 14).trans_le hqr.size
  rw [colorAt_picture, colorAt_renderModules_eq_none hfits hsize hout,
    hnone _ _ (by simp [finderStarts]), hnone _ _ (by simp [finderStarts]),
    hnone _ _ (by simp [finderStarts])]
  rfl

end Picture

/-- **A code is seen as it is**: the middle of each module has the foreground exactly where it is
dark, but for the corners of finder patterns that are circles, which are the other way round.  Of
square modules all of the inside has their colour, and around the code is the background. -/
theorem renderSvg_colorAt {qr : QrMatrix} {style : QrStyle} {svg : Svg} (hqr : qr.HasFinders)
    (hfits : style.Fits qr.size) (hsvg : renderSvg qr style = .ok svg) :
    ∃ fg bg, style.fgColor.toHex = .ok fg ∧ style.bgColor.toHex = .ok bg ∧ IsHexColor fg ∧
      IsHexColor bg ∧
      (∀ row < qr.size, ∀ col < qr.size, ∀ p, InModule row col 0 p →
        p = middle row col ∨ style.moduleShape = .square ∧ style.finderShape = .square →
          svg.colorAt (style.place p) =
            if qr.dark row col != (decide (style.finderShape = .circle) &&
              isFinderCorner row col qr.size) then fg else bg) ∧
      ∀ p : Point ℚ, ¬((0 ≤ p.x ∧ p.x ≤ qr.size) ∧ 0 ≤ p.y ∧ p.y ≤ qr.size) →
        svg.colorAt (style.place p) = bg := by
  obtain ⟨fg, bg, hfg, hbg, rfl⟩ := renderSvg_eq_ok hsvg
  refine ⟨fg, bg, hfg, hbg, isHexColor_of_toHex hfg, isHexColor_of_toHex hbg, ?_, ?_⟩
  · intro row hrow col hcol p hin hshape
    exact colorAt_module hqr hfits hrow hcol hin hshape
  · intro p hout
    exact colorAt_outside hqr hfits hout

/-- A code of the smallest size, chequered between its finder patterns. -/
def chequered : QrMatrix where
  size := 21
  dark row col :=
    if isFinderRegion row col 21 then finderDark (finderOffset row 21) (finderOffset col 21)
    else decide ((row + col) % 2 = 0)

/-- Dots and rings, black on white. -/
def dotted : QrStyle where
  moduleShape := .circle
  finderShape := .circle
  fgColor := .rgb 0 0 0
  bgColor := .rgb 255 255 255
  moduleSize := 10
  quietZone := 4

/-- Of the upper left finder pattern the side is seen, and its corner is not. -/
theorem renderSvg_colorAt_dotted :
    ∃ svg, renderSvg chequered dotted = .ok svg ∧
      svg.colorAt (dotted.place (middle 0 3)) = ['#', '0', '0', '0', '0', '0', '0'] ∧
      svg.colorAt (dotted.place (middle 0 0)) = ['#', 'f', 'f', 'f', 'f', 'f', 'f'] := by
  have hqr : chequered.HasFinders := ⟨by decide, by decide⟩
  have hin := fun row col => inModule_middle row col (show (0 : ℚ) ≤ 1 / 2 by norm_num)
  have hsvg : renderSvg chequered dotted = .ok _ := rfl
  obtain ⟨fg, bg, hfg, hbg, -, -, hmodules, -⟩ :=
    renderSvg_colorAt hqr ⟨by decide, by decide, by decide⟩ hsvg
  obtain rfl := Except.ok.inj hfg
  obtain rfl := Except.ok.inj hbg
  exact ⟨_, rfl, hmodules 0 (by decide) 3 (by decide) _ (hin 0 3) (.inl rfl),
    hmodules 0 (by decide) 0 (by decide) _ (hin 0 0) (.inl rfl)⟩

end Modo.Qrcode

import Mathlib.Algebra.Order.Field.Basic
import Mathlib.Algebra.Order.Ring.Rat
import Mathlib.Data.List.Rotate
import Mathlib.Tactic.Linarith
import Mathlib.Tactic.Ring

/-!
# Painting

Filled shapes are painted one over the other, and a point has the colour of the last shape that
covers it.  The vertical axis points down.

Shapes may be scaled and moved, and cover the same points then (`covers_place`).
-/

namespace Painting

/-! ## Shapes -/

section Shapes

variable {K : Type*} [Field K] [LinearOrder K] [IsStrictOrderedRing K]

structure Point (K : Type*) where
  x : K
  y : K
  deriving DecidableEq

inductive Shape (K : Type*) where
  /-- A rectangle whose corners are rounded with a radius. -/
  | rect (x y width height radius : K)
  | circle (cx cy r : K)
  /-- A convex polygon, its corners clockwise. -/
  | polygon (points : List (Point K))
  deriving DecidableEq

/-- How far a number is from an interval. -/
def excess (low high t : K) : K := max (max (low - t) (t - high)) 0

/-- The point is not to the left of the line from `a` to `b`. -/
def RightOf (a b p : Point K) : Prop := 0 ≤ (b.x - a.x) * (p.y - a.y) - (b.y - a.y) * (p.x - a.x)

namespace Shape

/-- The points of a shape, its boundary included.  Those of a rounded rectangle have at most the
distance of the radius from the rectangle within. -/
def Covers : Shape K → Point K → Prop
  | rect x y width height radius, p =>
      excess (x + radius) (x + width - radius) p.x ^ 2 +
        excess (y + radius) (y + height - radius) p.y ^ 2 ≤ radius ^ 2
  | circle cx cy r, p => (p.x - cx) ^ 2 + (p.y - cy) ^ 2 ≤ r ^ 2
  | polygon points, p => ∀ edge ∈ points.zip (points.rotate 1), RightOf edge.1 edge.2 p

instance (shape : Shape K) (p : Point K) : Decidable (shape.Covers p) :=
  match shape with
  | rect x y width height radius =>
      inferInstanceAs (Decidable (excess (x + radius) (x + width - radius) p.x ^ 2 +
        excess (y + radius) (y + height - radius) p.y ^ 2 ≤ radius ^ 2))
  | circle cx cy r => inferInstanceAs (Decidable ((p.x - cx) ^ 2 + (p.y - cy) ^ 2 ≤ r ^ 2))
  | polygon _ =>
      haveI : DecidablePred fun edge : Point K × Point K => RightOf edge.1 edge.2 p :=
        fun edge => inferInstanceAs (Decidable (0 ≤ (edge.2.x - edge.1.x) * (p.y - edge.1.y) -
          (edge.2.y - edge.1.y) * (p.x - edge.1.x)))
      List.decidableBAll _ _

end Shape

/-- A shape whose numbers are read in another way. -/
def Shape.map {K L : Type*} (f : K → L) : Shape K → Shape L
  | rect x y width height radius => rect (f x) (f y) (f width) (f height) (f radius)
  | circle cx cy r => circle (f cx) (f cy) (f r)
  | polygon points => polygon (points.map fun p => ⟨f p.x, f p.y⟩)

theorem Shape.map_map {K L M : Type*} (f : K → L) (g : L → M) (shape : Shape K) :
    (shape.map f).map g = shape.map (g ∘ f) := by
  cases shape <;> simp [Shape.map]

@[simp] theorem Shape.map_id {K : Type*} (shape : Shape K) : shape.map id = shape := by
  cases shape <;> simp [Shape.map]

/-! ## Scaling -/

/-- Scale by `m` and move by `q` along both axes. -/
def Point.place (m q : K) (p : Point K) : Point K := ⟨q + p.x * m, q + p.y * m⟩

def Shape.place (m q : K) : Shape K → Shape K
  | rect x y width height radius =>
      rect (q + x * m) (q + y * m) (width * m) (height * m) (radius * m)
  | circle cx cy r => circle (q + cx * m) (q + cy * m) (r * m)
  | polygon points => polygon (points.map (Point.place m q))

variable {m q : K}

theorem excess_place (hm : 0 < m) (low high t : K) :
    excess (q + low * m) (q + high * m) (q + t * m) = excess low high t * m := by
  have hlow : q + low * m - (q + t * m) = (low - t) * m := by ring
  have hhigh : q + t * m - (q + high * m) = (t - high) * m := by ring
  rw [excess, excess, hlow, hhigh, max_mul_of_nonneg _ _ hm.le, max_mul_of_nonneg _ _ hm.le,
    zero_mul]

theorem rightOf_place (hm : 0 < m) (a b p : Point K) :
    RightOf (a.place m q) (b.place m q) (p.place m q) ↔ RightOf a b p := by
  have hside : (q + b.x * m - (q + a.x * m)) * (q + p.y * m - (q + a.y * m)) -
      (q + b.y * m - (q + a.y * m)) * (q + p.x * m - (q + a.x * m)) =
        ((b.x - a.x) * (p.y - a.y) - (b.y - a.y) * (p.x - a.x)) * m ^ 2 := by ring
  unfold RightOf Point.place
  rw [hside, mul_nonneg_iff_left_nonneg_of_pos (pow_pos hm 2)]

/-- **Shapes cover the points** that they cover when both are scaled and moved. -/
theorem covers_place (hm : 0 < m) (shape : Shape K) (p : Point K) :
    (shape.place m q).Covers (p.place m q) ↔ shape.Covers p := by
  have hsquare : (0 : K) < m ^ 2 := pow_pos hm 2
  cases shape with
  | rect x y width height radius =>
      have hx : excess (q + x * m + radius * m) (q + x * m + width * m - radius * m)
          (q + p.x * m) = excess (x + radius) (x + width - radius) p.x * m := by
        rw [← excess_place hm]
        congr 1 <;> ring
      have hy : excess (q + y * m + radius * m) (q + y * m + height * m - radius * m)
          (q + p.y * m) = excess (y + radius) (y + height - radius) p.y * m := by
        rw [← excess_place hm]
        congr 1 <;> ring
      simp only [Shape.place, Shape.Covers, Point.place, hx, hy, mul_pow, ← add_mul,
        mul_le_mul_iff_left₀ hsquare]
  | circle cx cy r =>
      have hx : (q + p.x * m - (q + cx * m)) ^ 2 = (p.x - cx) ^ 2 * m ^ 2 := by ring
      have hy : (q + p.y * m - (q + cy * m)) ^ 2 = (p.y - cy) ^ 2 * m ^ 2 := by ring
      simp only [Shape.place, Shape.Covers, Point.place, hx, hy, mul_pow, ← add_mul,
        mul_le_mul_iff_left₀ hsquare]
  | polygon points =>
      simp only [Shape.place, Shape.Covers, ← List.map_rotate, List.zip_map, List.forall_mem_map,
        Prod.map, rightOf_place hm]

omit [IsStrictOrderedRing K] in
theorem excess_nonneg (low high t : K) : 0 ≤ excess low high t := le_max_right _ _

omit [IsStrictOrderedRing K] in
theorem excess_le_iff {low high t bound : K} (hbound : 0 ≤ bound) :
    excess low high t ≤ bound ↔ low - t ≤ bound ∧ t - high ≤ bound := by
  rw [excess, max_le_iff, max_le_iff]
  exact and_iff_left hbound

/-- A rounded rectangle is a part of the rectangle. -/
theorem bounds_of_covers_rect {x y width height radius : K} {p : Point K} (hradius : 0 ≤ radius)
    (hcovers : (Shape.rect x y width height radius).Covers p) :
    (x ≤ p.x ∧ p.x ≤ x + width) ∧ y ≤ p.y ∧ p.y ≤ y + height := by
  have hbound : ∀ {a b : K}, 0 ≤ a → a ^ 2 + b ^ 2 ≤ radius ^ 2 → a ≤ radius := by
    intro a b ha hsum
    have hle : a ^ 2 ≤ radius ^ 2 := le_trans (le_add_of_nonneg_right (sq_nonneg b)) hsum
    exact (pow_le_pow_iff_left₀ ha hradius two_ne_zero).mp hle
  have hx := (excess_le_iff hradius).mp (hbound (excess_nonneg _ _ _) hcovers)
  have hy := (excess_le_iff hradius).mp (hbound (excess_nonneg _ _ _)
    ((add_comm _ _).trans_le hcovers))
  constructor <;> constructor <;> linarith [hx.1, hx.2, hy.1, hy.2]

/-- Where a point is within the rectangle by the radius, or the corners are not rounded. -/
theorem covers_rect_of_excess {x y width height radius : K} {p : Point K}
    (hx : excess (x + radius) (x + width - radius) p.x = 0)
    (hy : excess (y + radius) (y + height - radius) p.y = 0) :
    (Shape.rect x y width height radius).Covers p := by
  rw [Shape.Covers, hx, hy]
  simpa using sq_nonneg radius

omit [IsStrictOrderedRing K] in
theorem excess_eq_zero {low high t : K} (hlow : low - t ≤ 0) (hhigh : t - high ≤ 0) :
    excess low high t = 0 :=
  max_eq_right (max_le hlow hhigh)

omit [IsStrictOrderedRing K] in
theorem covers_quadrilateral {a b c d p : Point K} :
    (Shape.polygon [a, b, c, d]).Covers p ↔
      RightOf a b p ∧ RightOf b c p ∧ RightOf c d p ∧ RightOf d a p := by
  simp [Shape.Covers, List.rotate]

end Shapes

/-! ## Pictures -/

section Pictures

variable {Element P C : Type*} (covers : Element → P → Bool) (color : Element → C)

/-- The colour of the last element that covers the point. -/
def colorAt (elements : List Element) (p : P) : Option C :=
  ((elements.filter fun element => covers element p).getLast?).map color

variable {covers color} {elements : List Element} {p : P}

theorem colorAt_append (below above : List Element) (p : P) :
    colorAt covers color (below ++ above) p =
      (colorAt covers color above p).or (colorAt covers color below p) := by
  rw [colorAt, List.filter_append, List.getLast?_append, Option.map_or]
  rfl

theorem colorAt_cons (element : Element) (above : List Element) (p : P) :
    colorAt covers color (element :: above) p =
      (colorAt covers color above p).or
        (if covers element p then some (color element) else none) := by
  rw [← List.singleton_append, colorAt_append]
  congr 1
  simp only [colorAt, List.filter_cons, List.filter_nil]
  split_ifs <;> rfl

theorem colorAt_eq_none (hnone : ∀ element ∈ elements, covers element p = false) :
    colorAt covers color elements p = none := by
  rw [colorAt, List.filter_eq_nil_iff.mpr (by simpa using hnone)]
  rfl

/-- Elements of one colour. -/
theorem colorAt_eq_some {element : Element} {c : C}
    (hcolor : ∀ element ∈ elements, color element = c) (hmem : element ∈ elements)
    (hcovers : covers element p = true) :
    colorAt covers color elements p = some c := by
  have hne : (elements.filter fun element => covers element p) ≠ [] :=
    List.ne_nil_of_mem (List.mem_filter.mpr ⟨hmem, hcovers⟩)
  rw [colorAt, List.getLast?_eq_some_getLast hne, Option.map_some]
  exact congrArg some (hcolor _ (List.mem_of_mem_filter (List.getLast_mem hne)))

end Pictures

end Painting

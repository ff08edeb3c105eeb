import Regrid.Proofs.Sparse.Product
import Regrid.Proofs.Outcome
import Regrid.Fitting.Program

/-!
# Least squares

The quadratic program of a matrix `X` and a vector `f` holds twice the lower triangle of `Xᵀ X`,
which was merged from products of entries, the slopes `-2 Xᵀ f` and the constant `fᵀ f`.
`objective_eq` says that its objective is the sum of the squares of `X x - f`, for entries in any
order, however often a coordinate is stored.
-/

namespace Regrid

namespace QuadraticProgram

/-- The program whose objective is the distance of `X x` and `f`, squared. -/
structure IsLeastSquares {α : Type} [Scalar α] (q : QuadraticProgram α) (X : SparseMatrix α)
    (f : Array α) : Prop where
  lower : ∃ square, X.transpose.multiply X = .ok square ∧ square.lowerTriangle.scaleRows
    (Tensor.ofArray (Array.replicate X.cols (Scalar.ofNat 2))) = .ok q.lower
  linear : ∃ slopes, X.transpose.apply (Tensor.ofArray f) false = .ok slopes ∧
    q.linear = slopes.values.map fun v => -Scalar.ofNat 2 * v
  constant : q.constant = Scalar.dot f f

/-- The parts of such a program can be computed. -/
theorem exists_leastSquares {α : Type} [Scalar α] {X : SparseMatrix α} {f : Array α}
    (hf : f.size = X.rows) : ∃ square lower slopes, X.transpose.multiply X = .ok square ∧
      square.lowerTriangle.scaleRows
        (Tensor.ofArray (Array.replicate X.cols (Scalar.ofNat 2))) = .ok lower ∧
      X.transpose.apply (Tensor.ofArray f) false = .ok slopes := by
  obtain ⟨square, hsquare, hrows⟩ : ∃ square, X.transpose.multiply X = .ok square ∧
      square.rows = X.cols := ⟨_, if_pos rfl, rfl⟩
  have hfactors : (Tensor.ofArray (Array.replicate X.cols (Scalar.ofNat 2 : α))).shape =
      [square.lowerTriangle.rows] := by
    rw [Tensor.ofArray, Array.size_replicate, ← hrows]
    rfl
  exact ⟨square, _, _, hsquare, if_pos hfactors, if_pos (congrArg (fun n => [n]) hf)⟩

/-! ## Pairs of entries -/

/-- A sum over the pairs of entries of one row, weighted by their columns. -/
def pairSum (X : SparseMatrix Rat) (g : Nat → Nat → Rat) : Rat :=
  (X.entries.map fun e => e.value *
    (X.entries.map fun f => f.value * if f.row = e.row then g e.col f.col else 0).sum).sum

variable {X : SparseMatrix Rat}

theorem pairSum_eq (X : SparseMatrix Rat) (g : Nat → Nat → Rat) : pairSum X g =
    (X.entries.map fun e => (X.entries.map fun f =>
      e.value * (f.value * if f.row = e.row then g e.col f.col else 0)).sum).sum := by
  simp only [pairSum, List.sum_map_mul_left]

theorem pairSum_add (X : SparseMatrix Rat) (g h : Nat → Nat → Rat) :
    pairSum X g + pairSum X h = pairSum X fun i j => g i j + h i j := by
  rw [pairSum_eq, pairSum_eq, pairSum_eq, ← List.sum_map_add]
  congr 1
  refine List.map_congr_left fun e _ => ?_
  rw [← List.sum_map_add]
  congr 1
  refine List.map_congr_left fun f _ => ?_
  split_ifs <;> ring

/-- The entries of a pair can change places. -/
theorem pairSum_swap (X : SparseMatrix Rat) (g : Nat → Nat → Rat) :
    pairSum X g = pairSum X fun i j => g j i := by
  rw [pairSum_eq, pairSum_eq, sum_map_comm]
  congr 1
  refine List.map_congr_left fun e _ => ?_
  congr 1
  refine List.map_congr_left fun f _ => ?_
  by_cases hrow : e.row = f.row
  · rw [if_pos hrow, if_pos hrow.symm]
    ring
  · rw [if_neg hrow, if_neg fun h => hrow h.symm]
    ring

/-- Weighted with products, the pairs of a row make up the square of its sum. -/
theorem pairSum_mul (hX : X.InBounds) (y : Nat → Rat) :
    pairSum X (fun i j => y i * y j) = ∑ k ∈ Finset.range X.rows, X.mulVec y k ^ 2 := by
  have hrow : ∀ k, X.mulVec y k =
      (X.entries.map fun e => if e.row = k then e.value * y e.col else 0).sum := fun k =>
    (SparseMatrix.sum_row hX k y).symm
  calc
    _ = (X.entries.map fun e => e.value * y e.col * X.mulVec y e.row).sum := by
      rw [pairSum]
      congr 1
      refine List.map_congr_left fun e _ => ?_
      rw [hrow, ← List.sum_map_mul_left, ← List.sum_map_mul_left]
      congr 1
      refine List.map_congr_left fun f _ => ?_
      split_ifs <;> ring
    _ = ∑ k ∈ Finset.range X.rows, X.mulVec y k * X.mulVec y k := by
      rw [← SparseMatrix.sum_rows_mul hX]
      exact Finset.sum_congr rfl fun k _ => congrArg (· * X.mulVec y k) (hrow k).symm
    _ = ∑ k ∈ Finset.range X.rows, X.mulVec y k ^ 2 :=
      Finset.sum_congr rfl fun k _ => (sq _).symm

/-- A weighted sum over the entries of `Xᵀ X` is one over the pairs of entries of `X`. -/
theorem sum_square (hX : X.InBounds) {square : SparseMatrix Rat}
    (h : X.transpose.multiply X = .ok square) (g : Nat → Nat → Rat) :
    (square.entries.map fun e => e.value * g e.row e.col).sum = pairSum X g := by
  rw [SparseMatrix.sum_multiply hX.transpose h g, SparseMatrix.transpose, List.map_map]
  rfl

/-! ## The objective -/

variable {q : QuadraticProgram Rat} {f : Array Rat}

/-- What is held of `Xᵀ X`: its entries on and below the diagonal, doubled. -/
theorem lower_eq (h : q.IsLeastSquares X f) (hX : X.InBounds) :
    ∃ square, X.transpose.multiply X = .ok square ∧ square.InBounds ∧
      q.lower = ⟨X.cols, X.cols, (square.entries.filter fun e => e.col ≤ e.row).map
        fun e => { e with value := e.value * 2 }⟩ := by
  obtain ⟨square, hsquare, hlower⟩ := h.lower
  obtain ⟨hrows, hcols, hbounds⟩ := SparseMatrix.multiply_inBounds hX hsquare
  unfold SparseMatrix.scaleRows at hlower
  split_ifs at hlower with hshape
  refine ⟨square, hsquare, hbounds, ?_⟩
  have htwo : ∀ e ∈ square.entries.filter fun e => e.col ≤ e.row,
      { e with value := e.value * (Array.replicate X.cols (Scalar.ofNat 2 : Rat)).getD e.row 0 } =
        { e with value := e.value * 2 } := by
    intro e he
    have hrow := (hbounds e (List.mem_filter.mp he).1).1
    rw [hrows] at hrow
    have hrow : e.row < X.cols := hrow
    rw [Array.getD_eq_getD_getElem?, Array.getElem?_replicate, if_pos hrow, Option.getD_some]
    rfl
  rw [← Except.ok.inj hlower]
  exact congr (congr (congrArg SparseMatrix.mk hrows) hcols) (List.map_congr_left htwo)

/-- A weighted sum over what is held. -/
theorem sum_lower (h : q.IsLeastSquares X f) (hX : X.InBounds) (g : Nat → Nat → Rat) :
    (q.lower.entries.map fun e => e.value * g e.row e.col).sum =
      pairSum X fun i j => if j ≤ i then 2 * g i j else 0 := by
  obtain ⟨square, hsquare, -, hlower⟩ := lower_eq h hX
  rw [hlower, ← sum_square hX hsquare, List.map_map]
  refine (sum_map_filter _ _ _).trans ?_
  congr 1
  refine List.map_congr_left fun e _ => ?_
  by_cases hle : e.col ≤ e.row
  · simp only [hle, decide_true, if_true, Function.comp]
    ring
  · simp [hle]

/-- **The entries on and below the diagonal, and the mirror images of those below it**, make up all
pairs. -/
theorem sum_hessian (h : q.IsLeastSquares X f) (hX : X.InBounds) (y : Nat → Rat) :
    (q.hessian.entries.map fun e => e.value * (y e.row * y e.col)).sum =
      2 * ∑ k ∈ Finset.range X.rows, X.mulVec y k ^ 2 := by
  have hmirrored : ((q.lower.transpose.entries.filter fun e => e.row < e.col).map
      fun e => e.value * (y e.row * y e.col)).sum =
      (q.lower.entries.map fun e =>
        e.value * if e.col < e.row then y e.row * y e.col else 0).sum := by
    rw [SparseMatrix.transpose, sum_map_filter, List.map_map]
    congr 1
    refine List.map_congr_left fun e _ => ?_
    by_cases hlt : e.col < e.row
    · simp only [hlt, decide_true, if_true, Function.comp]
      ring
    · simp [hlt]
  unfold hessian
  simp only
  rw [List.map_append, List.sum_append, hmirrored, sum_lower h hX fun i j => y i * y j,
    sum_lower h hX fun i j => if j < i then y i * y j else 0,
    pairSum_swap X fun i j => if j ≤ i then 2 * (if j < i then y i * y j else 0) else 0,
    pairSum_add, two_mul, ← pairSum_mul hX y, pairSum_add]
  congr 1
  funext i j
  rcases lt_trichotomy i j with hlt | rfl | hgt
  · rw [if_neg (by omega), if_pos (by omega), if_pos hlt]
    ring
  · rw [if_pos le_rfl, if_pos le_rfl, if_neg (lt_irrefl _)]
    ring
  · rw [if_pos (by omega), if_neg (by omega)]
    ring

theorem hessian_inBounds (h : q.IsLeastSquares X f) (hX : X.InBounds) :
    q.hessian.rows = X.cols ∧ q.hessian.cols = X.cols ∧ q.hessian.InBounds := by
  obtain ⟨square, hsquare, hbounds, hlower⟩ := lower_eq h hX
  obtain ⟨hrows, hcols, -⟩ := SparseMatrix.multiply_inBounds hX hsquare
  have hlow : q.lower.InBounds := by
    intro e he
    rw [hlower] at he ⊢
    obtain ⟨e', he', rfl⟩ := List.mem_map.mp he
    have hin := hbounds e' (List.mem_filter.mp he').1
    rw [hrows, hcols] at hin
    exact hin
  have hr : q.lower.rows = X.cols := by rw [hlower]
  have hc : q.lower.cols = X.cols := by rw [hlower]
  refine ⟨hr, hc, fun e he => ?_⟩
  · rcases List.mem_append.mp he with he | he
    · exact hlow e he
    · have hin := hlow.transpose e (List.mem_filter.mp he).1
      simp only [SparseMatrix.transpose, hr, hc] at hin
      simp only [hessian, hr, hc]
      exact hin

section Objective

variable (h : q.IsLeastSquares X f) (hX : X.InBounds) {x : Tensor Rat} (hx : x.shape = [X.cols])
  (hsize : x.values.size = X.cols)
include h hX hsize

include hx in
/-- The quadratic part of the objective. -/
theorem dot_hessian : ∃ curved, q.hessian.apply x false = .ok curved ∧
    Scalar.dot (x.values.map fun v => Scalar.ofNat 1 / Scalar.ofNat 2 * v) curved.values =
      ∑ k ∈ Finset.range X.rows, X.mulVec (fun j => x.values.getD j 0) k ^ 2 := by
  obtain ⟨hrows, hcols, hbounds⟩ := hessian_inBounds h hX
  obtain ⟨curved, hcurved, hcsize, hvalues⟩ :=
    SparseMatrix.apply_entries (m := q.hessian) (x := x) (by rw [hx, hcols])
  have hhalf : (Scalar.ofNat 1 / Scalar.ofNat 2 : Rat) = 1 / 2 := rfl
  refine ⟨curved, hcurved, ?_⟩
  rw [Scalar.dot_eq (by rw [Array.size_map, hsize]) (hcsize.trans hrows), hhalf, ← hrows]
  calc
    _ = ∑ i ∈ Finset.range q.hessian.rows, (q.hessian.entries.map fun e =>
          if e.row = i then e.value * x.values.getD e.col 0 else 0).sum
            * (1 / 2 * x.values.getD i 0) := by
      refine Finset.sum_congr rfl fun i hi => ?_
      rw [Finset.mem_range] at hi
      rw [hvalues i hi, getD_map (by rw [hsize, ← hrows]; exact hi) _ 0, mul_comm]
    _ = 1 / 2 * (q.hessian.entries.map fun e =>
          e.value * (x.values.getD e.row 0 * x.values.getD e.col 0)).sum := by
      rw [SparseMatrix.sum_rows_mul hbounds, ← List.sum_map_mul_left]
      congr 1
      refine List.map_congr_left fun e _ => ?_
      ring
    _ = ∑ k ∈ Finset.range X.rows, X.mulVec (fun j => x.values.getD j 0) k ^ 2 := by
      rw [sum_hessian h hX fun j => x.values.getD j 0]
      ring

/-- The linear part of the objective. -/
theorem dot_linear (hf : f.size = X.rows) : Scalar.dot q.linear x.values =
    -2 * ∑ k ∈ Finset.range X.rows, f.getD k 0 * X.mulVec (fun j => x.values.getD j 0) k := by
  obtain ⟨slopes, hslopes, hlinear⟩ := h.linear
  obtain ⟨slopes', hslopes', hssize, hvalues⟩ :=
    SparseMatrix.apply_entries (m := X.transpose) (x := Tensor.ofArray f)
      (show [f.size] = [X.rows] by rw [hf])
  obtain rfl : slopes' = slopes := Except.ok.inj (hslopes'.symm.trans hslopes)
  have htwo : (-Scalar.ofNat 2 : Rat) = -2 := rfl
  rw [hlinear, Scalar.dot_eq (by rw [Array.size_map]; exact hssize) hsize, htwo]
  calc
    _ = ∑ j ∈ Finset.range X.transpose.rows, (X.transpose.entries.map fun e =>
          if e.row = j then e.value * f.getD e.col 0 else 0).sum * (-2 * x.values.getD j 0) := by
      refine Finset.sum_congr rfl fun j hj => ?_
      rw [Finset.mem_range] at hj
      rw [getD_map (by rw [hssize]; exact hj) _ 0, hvalues j hj]
      simp only [Tensor.ofArray]
      ring
    _ = -2 * (X.entries.map fun e => e.value * x.values.getD e.col 0 * f.getD e.row 0).sum := by
      rw [SparseMatrix.sum_rows_mul hX.transpose, SparseMatrix.transpose, List.map_map,
        ← List.sum_map_mul_left]
      congr 1
      refine List.map_congr_left fun e _ => ?_
      simp only [Function.comp]
      ring
    _ = -2 * ∑ k ∈ Finset.range X.rows, f.getD k 0 * X.mulVec (fun j => x.values.getD j 0) k := by
      rw [← SparseMatrix.sum_rows_mul hX (fun e => e.value * x.values.getD e.col 0)
        fun k => f.getD k 0]
      congr 1
      refine Finset.sum_congr rfl fun k _ => ?_
      rw [SparseMatrix.sum_row hX k fun j => x.values.getD j 0, mul_comm, SparseMatrix.mulVec]

include hx in
/-- **The objective is the sum of the squares** of what is left. -/
theorem objective_eq (hf : f.size = X.rows) : q.objective x = .ok (∑ k ∈ Finset.range X.rows,
    (X.mulVec (fun j => x.values.getD j 0) k - f.getD k 0) ^ 2) := by
  obtain ⟨curved, hcurved, hquadratic⟩ := dot_hessian h hX hx hsize
  have hconstant : q.constant = ∑ k ∈ Finset.range X.rows, f.getD k 0 ^ 2 := by
    rw [h.constant, Scalar.dot_eq hf hf]
    exact Finset.sum_congr rfl fun k _ => (sq _).symm
  have hshape : x.shape = [q.unknowns] :=
    hx.trans (congrArg (fun n => [n]) (hessian_inBounds h hX).1.symm)
  unfold objective
  rw [if_pos hshape, hcurved, bind_ok]
  simp only [hquadratic, dot_linear h hX hsize hf, hconstant]
  refine congrArg Except.ok ?_
  rw [Finset.mul_sum, ← Finset.sum_add_distrib, ← Finset.sum_add_distrib]
  exact Finset.sum_congr rfl fun k _ => by ring

end Objective

end QuadraticProgram

end Regrid

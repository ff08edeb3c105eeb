import Regrid.Proofs.Field.Weights
import Regrid.Proofs.Tensor

/-!
# Fields of a stack, one by one

A stack of fields (`apply_weights_core`) is averaged in the way that its gaps ask for. If the whole
weights are known, every cell of every field gets the average over what is there of this field, or
no number if that is too little, and a field alone gets the same (`applyWeights_known`). If they are
not known, a field without gaps is summed if it is alone and averaged beside one with gaps, which is
the same only where the whole weight is one or the sum is zero (`applyWeights_unknown`).
-/

namespace Regrid

open Extended (number)

/-! ## Shapes -/

/-- The values of a stack of fields, one field after the other. -/
structure Tensor.IsStack {α : Type} (data : Tensor α) (stack field : List Nat) : Prop where
  shape_eq : data.shape = stack ++ field
  filled : data.values.size = Tensor.extent data.shape

theorem splitShape_append (stack field : List Nat) :
    splitShape (stack ++ field) field.length = (stack, field) := by
  have hplace : boundedPlace (stack ++ field).length ((stack ++ field).length - field.length) =
      stack.length := by
    rw [List.length_append, Nat.cast_add, add_sub_cancel_right]
    exact boundedPlace_natCast (Nat.le_add_right _ _)
  rw [splitShape, hplace, List.splitAt_eq, List.take_left, List.drop_left]

/-- The field at a place of a stack. -/
def fieldAt {α : Type} (values : Array α) (size k : Nat) : Array α :=
  values.extract (k * size) ((k + 1) * size)

section Fields

variable {α : Type} {values : Array α} {size count k : Nat}

theorem forall_mem_fieldsOf {P : Array α → Prop} :
    (∀ x ∈ fieldsOf values count size, P x) ↔ ∀ k, k < count → P (fieldAt values size k) := by
  simp only [fieldsOf, fieldAt, List.forall_mem_map, List.mem_range]

theorem fieldAt_mem_fieldsOf (hk : k < count) :
    fieldAt values size k ∈ fieldsOf values count size :=
  List.mem_map.mpr ⟨k, List.mem_range.mpr hk, rfl⟩

theorem size_fieldAt (hvalues : values.size = count * size) (hk : k < count) :
    (fieldAt values size k).size = size := by
  have hend : (k + 1) * size ≤ values.size := hvalues ▸ Nat.mul_le_mul_right size hk
  rw [fieldAt, Array.size_extract, Nat.min_eq_left hend, Nat.add_mul, Nat.one_mul,
    Nat.add_sub_cancel_left]

theorem HasNumbers.fieldAt {values : Array Extended} (h : HasNumbers values) (size k : Nat) :
    HasNumbers (fieldAt values size k) := by
  intro v hv
  unfold Regrid.fieldAt at hv
  obtain ⟨i, hi, rfl⟩ := Array.getElem_of_mem hv
  rw [Array.getElem_extract]
  exact h _ (Array.getElem_mem _)

theorem getD_fieldAt (hvalues : values.size = count * size) (hk : k < count) {i : Nat}
    (hi : i < size) (d : α) : (fieldAt values size k).getD i d = values.getD (k * size + i) d := by
  have hlocal : i < (fieldAt values size k).size := (size_fieldAt hvalues hk).symm ▸ hi
  have hplace : k * size + i < values.size := by
    rw [hvalues]
    calc k * size + i < k * size + size := Nat.add_lt_add_left hi _
      _ = (k + 1) * size := (Nat.succ_mul k size).symm
      _ ≤ count * size := Nat.mul_le_mul_right size hk
  rw [Array.getD_eq_getD_getElem?, Array.getD_eq_getD_getElem?, Array.getElem?_eq_getElem hlocal,
    Array.getElem?_eq_getElem hplace]
  simp only [fieldAt, Array.getElem_extract]

/-- A field that is not in a stack is at its only place. -/
theorem fieldAt_alone (hvalues : values.size = size) : fieldAt values size 0 = values := by
  rw [fieldAt, Nat.zero_mul, Nat.zero_add, Nat.one_mul, ← hvalues, Array.extract_size]

end Fields

/-! ## Weights applied to a stack -/

section Apply

variable {α : Type} [Scalar α] {m : SparseMatrix α} {o : WeightOptions α} {data : Tensor α}
  {stack field target : List Nat}

/-- The results fill the target shape once for every field of the stack. -/
theorem applyWeights_eq (hshape : data.shape = stack ++ field)
    (hfield : Tensor.extent field = m.cols) {results : List (Array α)}
    (hresults : m.sumDuplicates.applyToStack o
      (fieldsOf data.values (Tensor.extent stack) m.cols) = .ok results)
    (hroom : results.toArray.flatten.size = Tensor.extent (stack ++ target)) :
    applyWeights m o data field.length target = .ok ⟨stack ++ target, results.toArray.flatten⟩ := by
  have hsplit : splitShape data.shape field.length = (stack, field) := by
    rw [hshape, splitShape_append]
  unfold applyWeights
  simp only [hsplit, hfield, hresults, bind_ok, hroom, if_true]
  rfl

/-- The weights applied to a field that is not in a stack. -/
theorem applyWeights_alone (hshape : data.shape = field) (hfield : Tensor.extent field = m.cols)
    (hsize : data.values.size = m.cols) {y : Array α}
    (hy : m.sumDuplicates.applyToStack o [data.values] = .ok [y])
    (htarget : y.size = Tensor.extent target) :
    applyWeights m o data field.length target = .ok ⟨target, y⟩ := by
  have hfields : fieldsOf data.values (Tensor.extent []) m.cols = [data.values] :=
    congrArg (fun x => [x]) (fieldAt_alone hsize)
  have hflat : #[y].flatten = y := by simp
  have hstack : data.shape = [] ++ field := hshape
  have hroom : #[y].flatten.size = Tensor.extent ([] ++ target) := hflat.symm ▸ htarget
  have happly := applyWeights_eq hstack hfield (hfields ▸ hy) hroom
  rwa [hflat] at happly

/-- The weights applied to a single field with two axes. -/
theorem applyWeights_field {rows cols : Nat} (hshape : data.shape = [rows, cols])
    (hcols : rows * cols = m.cols) (hsize : data.values.size = m.cols) {y : Array α}
    (hy : m.sumDuplicates.applyToStack o [data.values] = .ok [y])
    (htarget : y.size = Tensor.extent target) :
    applyWeights m o data 2 target = .ok ⟨target, y⟩ := by
  have hextent : Tensor.extent [rows, cols] = m.cols := by
    rw [← hcols]
    exact congrArg (· * cols) (Nat.one_mul rows)
  exact applyWeights_alone hshape hextent hsize hy htarget

/-- Where nothing is rounded, polar means are all that is done to the results. -/
theorem regridStack_exact {fieldAxes : Int} {out : Tensor α} (polarMean : Bool)
    (h : applyWeights m o data fieldAxes target = .ok out) :
    regridStack m o ⟨id, id⟩ polarMean data fieldAxes target =
      if polarMean then polarMeans ⟨id, id⟩ out else .ok out := by
  have hmap : out.map id = out := by rw [Tensor.map, Array.map_id]
  unfold regridStack
  rw [h, bind_ok]
  simp only [hmap]
  rfl

/-- If every result is a row of as many values as the target has cells, that is the place where it
is found. -/
theorem applyWeights_rows (hshape : data.shape = stack ++ field)
    (hfield : Tensor.extent field = m.cols) (htarget : Tensor.extent target = m.rows)
    {g : Nat → Array α} (hg : ∀ k, (g k).size = m.rows)
    (hresults : m.sumDuplicates.applyToStack o
      (fieldsOf data.values (Tensor.extent stack) m.cols) =
        .ok ((List.range (Tensor.extent stack)).map g)) :
    ∃ y, applyWeights m o data field.length target = .ok ⟨stack ++ target, y⟩ ∧
      y.size = Tensor.extent stack * m.rows ∧
      ∀ k, k < Tensor.extent stack → fieldAt y m.rows k = g k := by
  refine ⟨_, applyWeights_eq hshape hfield hresults ?_, size_flatten_rows hg,
    fun k hk => extract_flatten_rows hg hk⟩
  rw [size_flatten_rows hg, Tensor.extent_append, htarget]

end Apply

/-! ## Averages of a stack -/

section Averages

variable {m : SparseMatrix Rat} (hm : m.InBounds)
include hm

/-- The results for fields if the whole weights are known. -/
theorem applyToStack_fields_known (hnonneg : ∀ row col, 0 ≤ m.dense row col) {threshold : Rat}
    (hthreshold : 0 ≤ threshold) {fields : List (Array Extended)}
    (hnumbers : ∀ x ∈ fields, HasNumbers x) (hcols : ∀ x ∈ fields, x.size = m.cols) :
    m.extended.sumDuplicates.applyToStack
        ⟨true, some m.extended.rowSums.values, number threshold⟩ fields =
      .ok (fields.map fun x => tabulated m.rows (m.meanIfEnough threshold x)) := by
  have hmerged := SparseMatrix.applyToStack_known hm.sumDuplicates hnumbers
    (fun row col => SparseMatrix.dense_sumDuplicates m row col ▸ hnonneg row col) hthreshold hcols
  simp only [SparseMatrix.weight_sumDuplicates, SparseMatrix.meanIfEnough_sumDuplicates] at hmerged
  rw [SparseMatrix.sumDuplicates_extended, SparseMatrix.rowSums_eq_tabulated hm]
  exact hmerged

/-- The results for fields if the whole weights are not known. -/
theorem applyToStack_fields_unknown (threshold : Extended) {fields : List (Array Extended)}
    (hnumbers : ∀ x ∈ fields, HasNumbers x) :
    m.extended.sumDuplicates.applyToStack ⟨true, none, threshold⟩ fields =
      .ok (fields.map fun x => tabulated m.rows
        (if fields.any (fun y => y.any Scalar.isNaN) then m.meanOr .undefined x
          else fun row => number (m.presentSum x row))) := by
  have hmerged := SparseMatrix.applyToStack_unknown hm.sumDuplicates hnumbers threshold
  simp only [SparseMatrix.meanOr_sumDuplicates, SparseMatrix.presentSum_sumDuplicates] at hmerged
  rw [SparseMatrix.sumDuplicates_extended]
  exact hmerged

variable {data : Tensor Extended} {stack field target : List Nat}
  (hdata : data.IsStack stack field) (hfield : Tensor.extent field = m.cols)
  (htarget : Tensor.extent target = m.rows) (hnumbers : HasNumbers data.values)
include hdata hfield

omit hm in
theorem size_stack : data.values.size = Tensor.extent stack * m.cols := by
  rw [hdata.filled, hdata.shape_eq, Tensor.extent_append, hfield]

include htarget

omit hm in
/-- The results for the fields of a stack are found at their places. -/
theorem applyWeights_fields {o : WeightOptions Extended} {f : Array Extended → Nat → Extended}
    (hresults : m.extended.sumDuplicates.applyToStack o
      (fieldsOf data.values (Tensor.extent stack) m.cols) =
        .ok ((fieldsOf data.values (Tensor.extent stack) m.cols).map fun x =>
          tabulated m.rows (f x))) :
    ∃ y, applyWeights m.extended o data field.length target = .ok ⟨stack ++ target, y⟩ ∧
      y.size = Tensor.extent stack * m.rows ∧
      ∀ k, k < Tensor.extent stack →
        fieldAt y m.rows k = tabulated m.rows (f (fieldAt data.values m.cols k)) := by
  refine applyWeights_rows (m := m.extended) hdata.shape_eq hfield htarget
    (g := fun k => tabulated m.rows (f (fieldAt data.values m.cols k)))
    (fun k => size_tabulated m.rows _) ?_
  refine hresults.trans (congrArg Except.ok ?_)
  rw [fieldsOf, List.map_map]
  rfl

include hnumbers

/-- **Whole weights that are known**: every cell of every field of a stack gets the average over
what is there of this field, or no number if that is too little. A field alone gets the same. -/
theorem applyWeights_known (hnonneg : ∀ row col, 0 ≤ m.dense row col) {threshold : Rat}
    (hthreshold : 0 ≤ threshold) :
    let o : WeightOptions Extended := ⟨true, some m.extended.rowSums.values, number threshold⟩
    ∃ y, applyWeights m.extended o data field.length target = .ok ⟨stack ++ target, y⟩ ∧
      y.size = Tensor.extent stack * m.rows ∧
      ∀ k, k < Tensor.extent stack →
        (∀ d, d < m.rows → y.getD (k * m.rows + d) 0 =
          m.meanIfEnough threshold (fieldAt data.values m.cols k) d) ∧
        applyWeights m.extended o ⟨field, fieldAt data.values m.cols k⟩ field.length target =
          .ok ⟨target, fieldAt y m.rows k⟩ := by
  intro o
  have hvalues := size_stack hdata hfield
  obtain ⟨y, hy, hsize, hplace⟩ := applyWeights_fields hdata hfield htarget
    (applyToStack_fields_known hm hnonneg hthreshold
      (forall_mem_fieldsOf.mpr fun k _ => hnumbers.fieldAt m.cols k)
      (forall_mem_fieldsOf.mpr fun k hk => size_fieldAt hvalues hk))
  refine ⟨y, hy, hsize, fun k hk => ⟨fun d hd => ?_, ?_⟩⟩
  · rw [← getD_fieldAt hsize hk hd, hplace k hk]
    exact getD_tabulated _ hd 0
  · have hown := size_fieldAt hvalues hk
    have halone := applyToStack_fields_known hm hnonneg hthreshold
      (List.forall_mem_singleton.mpr (hnumbers.fieldAt m.cols k))
      (List.forall_mem_singleton.mpr hown)
    rw [hplace k hk]
    exact applyWeights_alone (m := m.extended) rfl hfield hown halone
      ((size_tabulated m.rows _).trans htarget.symm)

/-- **Whole weights that are not known**: a cell of a field in a stack gets what it gets of the
field alone just if the field has a gap itself, no field has one, or the whole weight of the cell is
not zero and either one or applied to a sum of zero. -/
theorem applyWeights_unknown (threshold : Extended) :
    let o : WeightOptions Extended := ⟨true, none, threshold⟩
    let x := fieldAt data.values m.cols
    ∃ y, applyWeights m.extended o data field.length target = .ok ⟨stack ++ target, y⟩ ∧
      y.size = Tensor.extent stack * m.rows ∧
      ∀ k, k < Tensor.extent stack →
        ∃ z, applyWeights m.extended o ⟨field, x k⟩ field.length target = .ok ⟨target, z⟩ ∧
          z.size = m.rows ∧
          ∀ d, d < m.rows → (y.getD (k * m.rows + d) 0 = z.getD d 0 ↔
            (x k).any Scalar.isNaN = true ∨
            (∀ j, j < Tensor.extent stack → (x j).any Scalar.isNaN = false) ∨
            m.weight d ≠ 0 ∧ (m.weight d = 1 ∨ m.presentSum (x k) d = 0)) := by
  intro o x
  have hvalues := size_stack hdata hfield
  obtain ⟨y, hy, hsize, hplace⟩ := applyWeights_fields hdata hfield htarget
    (applyToStack_fields_unknown hm threshold
      (forall_mem_fieldsOf.mpr fun k _ => hnumbers.fieldAt m.cols k))
  refine ⟨y, hy, hsize, fun k hk => ?_⟩
  have hown := size_fieldAt hvalues hk
  have halone := applyToStack_fields_unknown hm threshold
    (List.forall_mem_singleton.mpr (hnumbers.fieldAt m.cols k))
  refine ⟨_, applyWeights_alone (m := m.extended) rfl hfield hown halone
    ((size_tabulated m.rows _).trans htarget.symm), size_tabulated m.rows _, fun d hd => ?_⟩
  rw [← getD_fieldAt hsize hk hd, hplace k hk, getD_tabulated _ hd, getD_tabulated _ hd,
    SparseMatrix.beside_eq_alone_iff (fieldAt_mem_fieldsOf hk) hown, forall_mem_fieldsOf]

end Averages

section Examples

/-- Two target cells, one of two halves and one of a whole. -/
def halvesAndWhole : SparseMatrix Rat := ⟨2, 3, [⟨0, 0, 1 / 2⟩, ⟨0, 1, 1 / 2⟩, ⟨1, 2, 1⟩]⟩

/-- Three fields that miss more and more. -/
def decaying : Tensor Extended :=
  ⟨[3, 3], #[number 1, number 3, number 5,
    .undefined, number 3, number 5, .undefined, .undefined, .undefined]⟩

/-- Half of the weight is not enough if two fifths of it may be missing. -/
theorem applyWeights_known_decaying :
    ∃ y, applyWeights halvesAndWhole.extended
        ⟨true, some halvesAndWhole.extended.rowSums.values, number (2 / 5)⟩ decaying 1 [2] =
          .ok ⟨[3, 2], y⟩ ∧
      y.size = 6 ∧
      y.getD 0 0 = number 2 ∧ y.getD 1 0 = number 5 ∧
      y.getD 2 0 = .undefined ∧ y.getD 3 0 = number 5 ∧
      y.getD 4 0 = .undefined ∧ y.getD 5 0 = .undefined ∧
      applyWeights halvesAndWhole.extended
        ⟨true, some halvesAndWhole.extended.rowSums.values, number (2 / 5)⟩
        ⟨[3], #[.undefined, number 3, number 5]⟩ 1 [2] = .ok ⟨[2], fieldAt y 2 1⟩ := by
  have hm : halvesAndWhole.InBounds := by decide
  have hnonneg := SparseMatrix.dense_nonneg_of_entries (m := halvesAndWhole) (by decide +kernel)
  have hnumbers : HasNumbers decaying.values := by
    unfold HasNumbers decaying
    decide +kernel
  have hstack : decaying.IsStack [3] [3] := ⟨rfl, rfl⟩
  have htarget : Tensor.extent [2] = halvesAndWhole.rows := rfl
  have hthreshold : (0 : Rat) ≤ 2 / 5 := by decide +kernel
  obtain ⟨y, hy, hsize, hfields⟩ :=
    applyWeights_known hm hstack rfl htarget hnumbers hnonneg hthreshold
  obtain ⟨hfirst, -⟩ := hfields 0 (by decide)
  obtain ⟨hsecond, halone⟩ := hfields 1 (by decide)
  obtain ⟨hthird, -⟩ := hfields 2 (by decide)
  exact ⟨y, hy, hsize,
    (hfirst 0 (by decide)).trans (by decide +kernel),
    (hfirst 1 (by decide)).trans (by decide +kernel),
    (hsecond 0 (by decide)).trans (by decide +kernel),
    (hsecond 1 (by decide)).trans (by decide +kernel),
    (hthird 0 (by decide)).trans (by decide +kernel),
    (hthird 1 (by decide)).trans (by decide +kernel), halone⟩

/-- Two target cells, one of two wholes and one of two halves. -/
def wholesAndHalves : SparseMatrix Rat :=
  ⟨2, 2, [⟨0, 0, 1⟩, ⟨0, 1, 1⟩, ⟨1, 0, 1 / 2⟩, ⟨1, 1, 1 / 2⟩]⟩

/-- A field without gaps beside one with a gap. -/
def besideGap : Tensor Extended := ⟨[2, 2], #[number 1, number 3, .undefined, number 3]⟩

/-- Beside a gap the cell of weight two differs, and the cell of weight one does not. -/
theorem applyWeights_unknown_besideGap :
    ∃ y z, applyWeights wholesAndHalves.extended ⟨true, none, 1⟩ besideGap 1 [2] =
        .ok ⟨[2, 2], y⟩ ∧
      applyWeights wholesAndHalves.extended ⟨true, none, 1⟩ ⟨[2], #[number 1, number 3]⟩ 1 [2] =
        .ok ⟨[2], z⟩ ∧
      y.getD 0 0 ≠ z.getD 0 0 ∧ y.getD 1 0 = z.getD 1 0 := by
  have hm : wholesAndHalves.InBounds := by decide
  have hnumbers : HasNumbers besideGap.values := by
    unfold HasNumbers besideGap
    decide +kernel
  have hstack : besideGap.IsStack [2] [2] := ⟨rfl, rfl⟩
  have htarget : Tensor.extent [2] = wholesAndHalves.rows := rfl
  obtain ⟨y, hy, -, hfields⟩ := applyWeights_unknown hm hstack rfl htarget hnumbers 1
  obtain ⟨z, hz, -, hcells⟩ := hfields 0 (by decide)
  refine ⟨y, z, hy, hz, mt (hcells 0 (by decide)).mp ?_, (hcells 1 (by decide)).mpr ?_⟩
  · decide +kernel
  · decide +kernel

/-- **A gap in another field changes the result**: two wholes are averaged in the stack, and summed
alone. -/
theorem applyWeights_changed_by_gap :
    (∀ row col, 0 ≤ wholesAndHalves.dense row col) ∧
    applyWeights wholesAndHalves.extended ⟨true, none, 1⟩ besideGap 1 [2] =
      .ok ⟨[2, 2], #[number 2, number 2, number 3, number 3]⟩ ∧
    applyWeights wholesAndHalves.extended ⟨true, none, 1⟩ ⟨[2], #[number 1, number 3]⟩ 1 [2] =
      .ok ⟨[2], #[number 4, number 2]⟩ := by
  have hm : wholesAndHalves.InBounds := by decide
  have hstack : ∀ x ∈ fieldsOf besideGap.values 2 2, HasNumbers x := by
    unfold HasNumbers besideGap
    decide +kernel
  have hfield : HasNumbers #[number 1, number 3] := by
    unfold HasNumbers
    decide +kernel
  have hbeside := applyToStack_fields_unknown hm 1 hstack
  have halone := applyToStack_fields_unknown hm 1 (List.forall_mem_singleton.mpr hfield)
  refine ⟨SparseMatrix.dense_nonneg_of_entries (by decide +kernel),
    (applyWeights_eq (m := wholesAndHalves.extended) (show besideGap.shape = [2] ++ [2] from rfl)
      rfl hbeside ?_).trans ?_,
    (applyWeights_alone (m := wholesAndHalves.extended) rfl rfl rfl halone ?_).trans ?_⟩
  · decide +kernel
  · exact congrArg (fun values => Except.ok (⟨[2, 2], values⟩ : Tensor Extended))
      (by decide +kernel)
  · decide +kernel
  · exact congrArg (fun values => Except.ok (⟨[2], values⟩ : Tensor Extended)) (by decide +kernel)

end Examples

end Regrid

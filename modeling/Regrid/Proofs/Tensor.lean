import Mathlib.Algebra.BigOperators.Group.List.Basic
import Regrid.Proofs.Outcome
import Regrid.Proofs.Range
import Regrid.Tensor

/-!
# Tensors and their slices

A tensor with a value for every place of its shape is its slices along the first axis, one after
the other (`ofSlices_slice`), and of slices of one size each can be taken out again
(`slice_ofSlices`). A function that can fail gives what it gives at each value, up to the first at
which it fails (`mapM_eq_find?`).
-/

namespace Regrid.Tensor

variable {α β : Type} {t : Tensor α} {n k : Nat} {rest : List Nat}

theorem extent_append (stack field : List Nat) :
    extent (stack ++ field) = extent stack * extent field := by
  unfold extent
  rw [← List.prod_eq_foldl, ← List.prod_eq_foldl, ← List.prod_eq_foldl, List.prod_append]

theorem extent_cons (n : Nat) (rest : List Nat) : extent (n :: rest) = n * extent rest :=
  (extent_append [n] rest).trans (congrArg (· * extent rest) (Nat.one_mul n))

/-! ## Slices -/

theorem size_slice (hshape : t.shape = n :: rest) (hfilled : t.values.size = extent t.shape)
    (hk : k < n) : (t.slice k).size = extent rest := by
  have hend : (k + 1) * extent rest ≤ t.values.size := by
    rw [hfilled, hshape, extent_cons]
    exact Nat.mul_le_mul_right _ hk
  simp only [slice, hshape, List.tail_cons]
  rw [Array.size_extract, Nat.min_eq_left hend, Nat.add_mul, Nat.one_mul, Nat.add_sub_cancel_left]

theorem flatten_extract (xs : Array α) (size : Nat) : ∀ n : Nat,
    ((List.range n).map fun k => xs.extract (k * size) ((k + 1) * size)).toArray.flatten =
      xs.extract 0 (n * size)
  | 0 => by simp
  | n + 1 => by
    have hmax : n * size ≤ (n + 1) * size := Nat.mul_le_mul_right _ n.le_succ
    rw [List.range_succ, List.map_append, ← List.append_toArray, Array.flatten_append,
      flatten_extract xs size n]
    simp only [List.map_cons, List.map_nil, Array.flatten_toArray, List.flatten_cons,
      List.flatten_nil, List.append_nil, Array.toArray_toList]
    rw [Array.extract_append_extract, Nat.min_eq_left (Nat.zero_le _), Nat.max_eq_right hmax]

/-- **A tensor is its slices.** -/
theorem ofSlices_slice (hshape : t.shape = n :: rest) (hfilled : t.values.size = extent t.shape) :
    ofSlices rest ((List.range n).map t.slice).toArray = t := by
  obtain ⟨shape, values⟩ := t
  obtain rfl : shape = n :: rest := hshape
  have hvalues : ((List.range n).map (slice ⟨n :: rest, values⟩)).toArray.flatten = values := by
    have hall : values.size = n * extent rest := hfilled.trans (extent_cons n rest)
    refine (flatten_extract values (extent rest) n).trans ?_
    rw [← hall, Array.extract_size]
  simp [ofSlices, hvalues]

section Rows

variable {f : Nat → Array α} (hf : ∀ k, (f k).size = extent rest)
include hf

theorem filled_ofSlices : (ofSlices rest ((List.range n).map f).toArray).values.size =
    extent (ofSlices rest ((List.range n).map f).toArray).shape := by
  simp only [ofSlices, List.size_toArray, List.length_map, List.length_range]
  rw [size_flatten_rows hf, extent_cons]

/-- **Slices of one size** can be taken out again. -/
theorem slice_ofSlices (hk : k < n) :
    (ofSlices rest ((List.range n).map f).toArray).slice k = f k :=
  extract_flatten_rows hf hk

end Rows

/-! ## Functions that can fail -/

theorem mapM_eq_find? {f : α → Except Error β} (bad : α → Bool) (g : α → β) (e : α → Error)
    (h : ∀ x ∈ t.values, f x = if bad x then .error (e x) else .ok (g x)) :
    t.mapM f = (t.values.find? bad).elim (.ok (t.map g)) fun x => .error (e x) := by
  have hlist := Regrid.mapM_eq_find? fun x hx => h x (Array.mem_def.mpr hx)
  rw [mapM, Array.mapM_eq_mapM_toList, hlist, Array.find?_toList]
  cases t.values.find? bad with
  | some x => rfl
  | none =>
    refine congrArg (fun values => Except.ok (⟨t.shape, values⟩ : Tensor β)) ?_
    rw [← Array.toList_map, Array.toArray_toList]

end Regrid.Tensor

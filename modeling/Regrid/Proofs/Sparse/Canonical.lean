import Mathlib.Data.List.Permutation
import Regrid.Proofs.Outcome
import Regrid.Proofs.Sparse.Product

/-!
# Products as compositions

A matrix is `Canonical` if it holds one entry at a coordinate and none that is zero. Then its
entries are those elements of the dense matrix that are not zero (`Canonical.mem_iff`), so two
canonical matrices with the same elements hold the same entries (`Canonical.perm`). A product
(`multiply`) is canonical whatever is merged and dropped on the way (`canonical_multiply`), applying
it is applying the factors one after the other (`apply_multiply`), and it turns around under
transposition (`multiply_laws`).
-/

namespace Regrid

/-! ## Runs of sorted keys -/

section Runs

variable {κ : Type} [LinearOrder κ]

/-- Ascending keys of which no two neighbours are equal do not repeat. -/
theorem pairwise_lt_of_isChain : ∀ {ks : List κ}, ks.Pairwise (· ≤ ·) → ks.IsChain (· ≠ ·) →
    ks.Pairwise (· < ·)
  | [], _, _ => List.Pairwise.nil
  | [k], _, _ => List.pairwise_singleton _ k
  | k :: k' :: ks, hsorted, hchain => by
    obtain ⟨hle, hsorted⟩ := List.pairwise_cons.mp hsorted
    obtain ⟨hne, hchain⟩ := List.isChain_cons_cons.mp hchain
    have hlt : k < k' := lt_of_le_of_ne (hle k' List.mem_cons_self) hne
    refine List.pairwise_cons.mpr ⟨fun x hx => ?_, pairwise_lt_of_isChain hsorted hchain⟩
    rcases List.mem_cons.mp hx with rfl | hx
    · exact hlt
    · exact hlt.trans_le ((List.pairwise_cons.mp hsorted).1 x hx)

/-- Summing the runs of sorted keys leaves every key once. -/
theorem nodup_keys_sumRuns {α : Type} [Scalar α] {l : List (κ × α)}
    (h : l.Pairwise fun s t => s.1 ≤ t.1) : ((sumRuns l).map Prod.fst).Nodup := by
  have hsorted := (List.pairwise_map.mpr h).sublist (keys_sumRuns l)
  exact (pairwise_lt_of_isChain hsorted (isChain_sumRuns l)).imp fun hlt => hlt.ne

end Runs

/-- Pairs sorted by a number. -/
theorem pairwise_mergeSort_fst {α : Type} (l : List (Nat × α)) :
    (l.mergeSort fun s t => s.1 ≤ t.1).Pairwise fun s t => s.1 ≤ t.1 := by
  refine (List.pairwise_mergeSort (fun a b c hab hbc => ?_) (fun a b => ?_) l).imp
    fun h => of_decide_eq_true h
  · exact decide_eq_true ((of_decide_eq_true hab).trans (of_decide_eq_true hbc))
  · rw [Bool.or_eq_true, decide_eq_true_iff, decide_eq_true_iff]
    exact le_total a.1 b.1

namespace SparseMatrix

/-! ## Canonical matrices -/

/-- Where an entry stands. -/
def coordinate {α : Type} (e : Entry α) : Nat × Nat := (e.row, e.col)

/-- One entry at a coordinate, and none that is zero. -/
structure Canonical (m : SparseMatrix Rat) : Prop where
  nodup : (m.entries.map coordinate).Nodup
  ne_zero : ∀ e ∈ m.entries, e.value ≠ 0

variable {m m' : SparseMatrix Rat}

/-- Where no entry stands, the element is zero. -/
theorem dense_eq_zero {row col : Nat} (h : ∀ e ∈ m.entries, coordinate e ≠ (row, col)) :
    m.dense row col = 0 := by
  rw [dense_eq]
  refine List.sum_eq_zero fun v hv => ?_
  obtain ⟨e, he, rfl⟩ := List.mem_map.mp hv
  exact if_neg fun hat => h e he (Prod.ext hat.1 hat.2)

/-- An entry that is alone at its coordinate is the element. -/
theorem dense_of_mem (h : (m.entries.map coordinate).Nodup) {e : Entry Rat} (he : e ∈ m.entries) :
    m.dense e.row e.col = e.value := by
  obtain ⟨before, after, hsplit⟩ := List.append_of_mem he
  -- the entries before it and behind it stand elsewhere
  have hnone : ∀ es : List (Entry Rat), coordinate e ∉ es.map coordinate →
      (es.map fun f => if f.row = e.row ∧ f.col = e.col then f.value else 0).sum = 0 := by
    intro es hes
    rw [← dense_eq ⟨m.rows, m.cols, es⟩]
    exact dense_eq_zero fun f hf hat => hes (List.mem_map.mpr ⟨f, hf, hat⟩)
  rw [hsplit, List.map_append, List.map_cons, List.nodup_append, List.nodup_cons] at h
  obtain ⟨-, ⟨hafter, -⟩, hbefore⟩ := h
  rw [dense_eq, hsplit, List.map_append, List.sum_append, List.map_cons, List.sum_cons,
    hnone before fun hmem => hbefore _ hmem _ List.mem_cons_self rfl, hnone after hafter,
    if_pos ⟨rfl, rfl⟩, zero_add, add_zero]

/-- **The entries of a canonical matrix** are the elements that are not zero. -/
theorem Canonical.mem_iff (h : m.Canonical) {e : Entry Rat} :
    e ∈ m.entries ↔ e.value ≠ 0 ∧ m.dense e.row e.col = e.value := by
  constructor
  · exact fun he => ⟨h.ne_zero e he, dense_of_mem h.nodup he⟩
  · rintro ⟨hne, hdense⟩
    obtain ⟨f, hf, hat⟩ : ∃ f ∈ m.entries, coordinate f = (e.row, e.col) := by
      by_contra hnone
      push Not at hnone
      exact hne (hdense ▸ dense_eq_zero hnone)
    obtain ⟨hrow, hcol⟩ := Prod.mk.inj hat
    have hvalue := dense_of_mem h.nodup hf
    rw [hrow, hcol, hdense] at hvalue
    obtain rfl : f = e := by
      cases f
      cases e
      simp only at hrow hcol hvalue
      rw [hrow, hcol, hvalue]
    exact hf

/-- Canonical matrices with the same elements hold the same entries. -/
theorem Canonical.perm (h : m.Canonical) (h' : m'.Canonical)
    (hdense : ∀ row col, m.dense row col = m'.dense row col) : m.entries.Perm m'.entries := by
  refine (List.perm_ext_iff_of_nodup h.nodup.of_map h'.nodup.of_map).mpr fun e => ?_
  rw [h.mem_iff, h'.mem_iff, hdense]

theorem Canonical.transpose (h : m.Canonical) : m.transpose.Canonical where
  nodup := by
    have hswap : m.transpose.entries.map coordinate =
        (m.entries.map coordinate).map Prod.swap := by
      unfold SparseMatrix.transpose
      rw [List.map_map, List.map_map]
      rfl
    rw [hswap]
    exact h.nodup.map Prod.swap_injective
  ne_zero := by
    intro e he
    obtain ⟨f, hf, rfl⟩ := List.mem_map.mp he
    exact h.ne_zero f hf

theorem dense_transpose (m : SparseMatrix Rat) (row col : Nat) :
    m.transpose.dense row col = m.dense col row := by
  rw [dense_eq, dense_eq, transpose, List.map_map]
  refine congrArg List.sum (List.map_congr_left fun e _ => ?_)
  exact if_congr and_comm rfl rfl

/-! ## Products -/

variable {a b c : SparseMatrix Rat}

/-- **A product** holds one entry at a coordinate and none that is zero, whatever its factors
hold. -/
theorem canonical_multiply (h : a.multiply b = .ok c) : c.Canonical := by
  unfold multiply at h
  split_ifs at h
  obtain rfl := Except.ok.inj h
  -- what is merged and kept of a row
  let kept (i : Nat) := (sumRuns ((rowProducts b.rowLists (a.rowLists.getD i [])).mergeSort
    fun s t => s.1 ≤ t.1)).filter fun t => t.2 != 0
  have hentries : (a.rowLists.toList.zipIdx.flatMap fun t =>
      ((sumRuns ((rowProducts b.rowLists t.1).mergeSort fun x y => x.1 ≤ y.1)).filter
        fun u => u.2 != 0).map fun u => (⟨t.2, u.1, u.2⟩ : Entry Rat)) =
      (List.range a.rows).flatMap fun i => (kept i).map fun u => ⟨i, u.1, u.2⟩ := by
    rw [rowLists_zipIdx, List.flatMap_map]
  refine ⟨?_, fun e he => ?_⟩
  · show ((a.rowLists.toList.zipIdx.flatMap _).map coordinate).Nodup
    rw [hentries, List.map_flatMap, List.nodup_flatMap]
    constructor
    · intro i _
      have hkeys : ((kept i).map Prod.fst).Nodup :=
        (nodup_keys_sumRuns (pairwise_mergeSort_fst _)).sublist (List.filter_sublist.map _)
      have hcoordinates : ((kept i).map fun u => (⟨i, u.1, u.2⟩ : Entry Rat)).map coordinate =
          ((kept i).map Prod.fst).map (Prod.mk i) := by
        rw [List.map_map, List.map_map]
        rfl
      rw [hcoordinates]
      exact hkeys.map (Prod.mk_right_injective i)
    · -- coordinates in different rows are different
      refine List.nodup_range.imp fun {i j} hij => ?_
      rw [Function.onFun, List.disjoint_left]
      intro t hi hj
      rw [List.mem_map] at hi hj
      obtain ⟨e, he, rfl⟩ := hi
      obtain ⟨f, hf, hat⟩ := hj
      obtain ⟨u, -, rfl⟩ := List.mem_map.mp he
      obtain ⟨v, -, rfl⟩ := List.mem_map.mp hf
      exact hij (Prod.mk.inj hat).1.symm
  · have he : e ∈ a.rowLists.toList.zipIdx.flatMap _ := he
    rw [hentries, List.mem_flatMap] at he
    obtain ⟨i, -, he⟩ := he
    obtain ⟨u, hu, rfl⟩ := List.mem_map.mp he
    exact bne_iff_ne.mp (List.mem_filter.mp hu).2

/-- The dense product with a vector, by the factors. -/
theorem mulVec_multiply (ha : a.InBounds) (hb : b.InBounds) (h : a.multiply b = .ok c)
    (v : Nat → Rat) (row : Nat) : c.mulVec v row = a.mulVec (b.mulVec v) row := by
  have hcols := (multiply_inBounds hb h).2.1
  unfold mulVec
  calc ∑ k ∈ Finset.range c.cols, c.dense row k * v k
      = ∑ k ∈ Finset.range b.cols, ∑ j ∈ Finset.range a.cols,
          a.dense row j * (b.dense j k * v k) := by
        rw [hcols]
        refine Finset.sum_congr rfl fun k _ => ?_
        rw [dense_multiply ha h, Finset.sum_mul]
        exact Finset.sum_congr rfl fun j _ => mul_assoc _ _ _
    _ = ∑ j ∈ Finset.range a.cols,
          a.dense row j * ∑ k ∈ Finset.range b.cols, b.dense j k * v k := by
        rw [Finset.sum_comm]
        exact Finset.sum_congr rfl fun j _ => (Finset.mul_sum _ _ _).symm

/-- **Applying a product** is applying its factors one after the other. -/
theorem apply_multiply (ha : a.InBounds) (hb : b.InBounds) (h : a.multiply b = .ok c)
    (x : Tensor Rat) (skipNaN : Bool) : (c.apply x skipNaN).map Totals.values =
      b.apply x skipNaN >>= fun y =>
        (a.apply (Tensor.ofArray y.values) skipNaN).map Totals.values := by
  obtain ⟨hrows, hcols, hc⟩ := multiply_inBounds hb h
  have hinner : a.cols = b.rows := by
    unfold multiply at h
    split_ifs at h with hinner
    exact hinner
  simp only [apply_skipNaN _ _ skipNaN]
  by_cases hx : x.shape = [b.cols]
  · obtain ⟨z, hz, hzsize, hzvalues⟩ := apply_eq hc (hx.trans (by rw [hcols]))
    obtain ⟨y, hy, hysize, hyvalues⟩ := apply_eq hb hx
    obtain ⟨w, hw, hwsize, hwvalues⟩ := apply_eq ha (x := Tensor.ofArray y.values)
      (congrArg (fun n => [n]) (hysize.trans hinner.symm))
    have hvalues : z.values = w.values := by
      refine Array.ext (by rw [hzsize, hrows, hwsize]) fun row hz' hw' => ?_
      have hrow : row < a.rows := by rwa [hwsize] at hw'
      have heq : z.values.getD row 0 = w.values.getD row 0 := by
        rw [hzvalues row (by rwa [hrows]), hwvalues row hrow, mulVec_multiply ha hb h]
        refine Finset.sum_congr rfl fun j hj => congrArg (a.dense row j * ·) ?_
        exact (hyvalues j (hinner ▸ Finset.mem_range.mp hj)).symm
      rwa [Array.getD, dif_pos hz', Array.getD, dif_pos hw'] at heq
    rw [hz, hy, bind_ok, hw]
    exact congrArg Except.ok hvalues
  · have hx' : x.shape ≠ [c.cols] := by rwa [hcols]
    rw [apply, if_neg hx', apply, if_neg hx, hcols]
    rfl

/-- **Products** of matrices with repeated and with zero entries: there is one if the inner extents
agree, with one entry at a coordinate and none that is zero; it composes, and transposing it
exchanges the factors. -/
theorem multiply_laws (ha : a.InBounds) (hb : b.InBounds) :
    (a.cols ≠ b.rows → a.multiply b = .error (.dimensionMismatch
      "Inner dimensions of matrix product differ" (.int a.cols) (.int b.rows))) ∧
    (a.cols = b.rows → ∃ c d, a.multiply b = .ok c ∧
      b.transpose.multiply a.transpose = .ok d ∧
      c.rows = a.rows ∧ c.cols = b.cols ∧ c.Canonical ∧
      (∀ (x : Tensor Rat) (skipNaN : Bool), (c.apply x skipNaN).map Totals.values =
        b.apply x skipNaN >>= fun y =>
          (a.apply (Tensor.ofArray y.values) skipNaN).map Totals.values) ∧
      d.rows = c.transpose.rows ∧ d.cols = c.transpose.cols ∧
      d.entries.Perm c.transpose.entries) := by
  refine ⟨fun hne => if_neg hne, fun hinner => ?_⟩
  obtain ⟨c, hc⟩ : ∃ c, a.multiply b = .ok c := ⟨_, if_pos hinner⟩
  obtain ⟨d, hd⟩ : ∃ d, b.transpose.multiply a.transpose = .ok d := ⟨_, if_pos hinner.symm⟩
  obtain ⟨hrows, hcols, -⟩ := multiply_inBounds hb hc
  obtain ⟨hrows', hcols', -⟩ := multiply_inBounds ha.transpose hd
  refine ⟨c, d, hc, hd, hrows, hcols, canonical_multiply hc, apply_multiply ha hb hc,
    hrows'.trans hcols.symm, hcols'.trans hrows.symm,
    (canonical_multiply hd).perm (canonical_multiply hc).transpose fun row col => ?_⟩
  rw [dense_multiply hb.transpose hd, dense_transpose c, dense_multiply ha hc, hinner]
  refine Finset.sum_congr rfl fun j _ => ?_
  rw [dense_transpose, dense_transpose, mul_comm]

/-- A matrix with a repeated entry and with one that is zero. -/
def withRepeated : SparseMatrix Rat := ⟨2, 2, [⟨0, 0, 1⟩, ⟨0, 1, 3⟩, ⟨0, 0, 2⟩, ⟨1, 1, 0⟩]⟩

/-- A matrix whose first column cancels in the product with it. -/
def withCancelling : SparseMatrix Rat := ⟨2, 2, [⟨1, 1, 2⟩, ⟨0, 0, 1⟩, ⟨1, 0, -1⟩]⟩

/-- Of the products that meet, two cancel and two are zero, so one entry stays. -/
theorem multiply_laws_cancelling : withRepeated.InBounds ∧ withCancelling.InBounds ∧ ∃ c d,
    withRepeated.multiply withCancelling = .ok c ∧ c.entries = [⟨0, 1, 6⟩] ∧ c.Canonical ∧
    withCancelling.transpose.multiply withRepeated.transpose = .ok d ∧ d.entries = [⟨1, 0, 6⟩] ∧
    (withCancelling.apply (Tensor.ofArray #[5, 7]) false >>= fun y =>
      (withRepeated.apply (Tensor.ofArray y.values) false).map Totals.values) = .ok #[42, 0] := by
  have ha : withRepeated.InBounds := by decide
  have hb : withCancelling.InBounds := by decide
  obtain ⟨c, d, hc, hd, -, -, hcanonical, happly, -, -, hperm⟩ := (multiply_laws ha hb).2 rfl
  have hproduct : withRepeated.multiply withCancelling = .ok ⟨2, 2, [⟨0, 1, 6⟩]⟩ :=
    congrArg (fun es => Except.ok (SparseMatrix.mk 2 2 es)) (by cbv)
  obtain rfl := Except.ok.inj (hc.symm.trans hproduct)
  refine ⟨ha, hb, _, d, hc, rfl, hcanonical, hd, List.perm_singleton.mp hperm, ?_⟩
  rw [← happly]
  exact eq_ok_of_toOption (by decide +kernel)

end SparseMatrix

end Regrid

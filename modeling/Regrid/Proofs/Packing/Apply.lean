import Regrid.Proofs.Sparse.Dense
import Regrid.Proofs.Packing.Matrix
import Regrid.Proofs.Packing.Numbers

/-!
# Packed matrices on packed vectors

A packed vector has its values at the positions of their identifiers, and is known from them
(`packed_eq_iff`). Packed entries fall on the position of a row exactly if they come from it
(`sum_packed_row`), so a matrix that is packed with unused entries dropped (`pack_matrix`) takes a
packed vector to the packed result of the matrix on the used part of the vector; not dropping makes
a difference only by refusing a matrix with an unused entry (`pack_commutes`).
-/

namespace Regrid

namespace Packing

variable {α : Type} {space rowSpace colSpace : Option Packing} {extent : Nat}

/-- A packing for an axis, if there is one, is made from some of the indices of the axis. -/
def OfAxis (space : Option Packing) (extent : Nat) : Prop :=
  ∀ p ∈ space, ∃ used, ofUsed extent used p.name = .ok p

/-- The packed vector; without a packing a vector stays as it is. -/
def packed (space : Option Packing) (v : Tensor α) : Except Error (Tensor α) :=
  space.elim (.ok v) fun p => p.pack v

/-- A vector at the used indices of an axis, and zero elsewhere. -/
def restricted (space : Option Packing) (x : Array Rat) : Array Rat :=
  x.mapIdx fun i v => if keeps space i then v else 0

theorem OfAxis.translates (h : OfAxis space extent) : Translates space extent where
  full_eq := fun p hp => (of_ofUsed (h p hp).choose_spec).1
  ordered := fun p hp => (of_ofUsed (h p hp).choose_spec).2.2.1

theorem OfAxis.lt {p : Packing} (h : OfAxis (some p) extent) {i : Nat} (hi : i ∈ p.ids) :
    i < extent := by
  obtain ⟨used, hp⟩ := h p rfl
  obtain ⟨-, -, -, hfit, hids⟩ := of_ofUsed hp
  exact Int.ofNat_lt.mp (hfit i ((hids i).mp hi)).2

theorem keeps_iff_forall {i : Nat} : keeps space i = true ↔ ∀ p ∈ space, i ∈ p.ids := by
  cases space with
  | none => exact iff_of_true rfl fun p hp => absurd hp (Option.not_mem_none p)
  | some p =>
    rw [keeps_iff]
    exact ⟨fun hi q hq => Option.mem_some.mp hq ▸ hi, fun hall => hall p rfl⟩

theorem keepsEntry_iff {e : Entry α} : keepsEntry rowSpace colSpace e = true ↔
    (∀ p ∈ rowSpace, e.row ∈ p.ids) ∧ ∀ p ∈ colSpace, e.col ∈ p.ids := by
  rw [keepsEntry, Bool.and_eq_true, keeps_iff_forall, keeps_iff_forall]

theorem position_inj {i j : Nat} (hi : keeps space i = true) :
    position space i = position space j ↔ i = j := by
  cases space with
  | none => exact Iff.rfl
  | some p => exact index_inj (keeps_iff.mp hi)

theorem position_lt {i : Nat} (hi : i < extent) (hkeep : keeps space i = true) :
    position space i < packedExtent space extent := by
  cases space with
  | none => exact hi
  | some p => exact index_lt (keeps_iff.mp hkeep)

theorem getD_restricted {x : Array Rat} {i : Nat} (hi : i < x.size) :
    (restricted space x).getD i 0 = if keeps space i then x.getD i 0 else 0 := by
  simp [restricted, Array.getD, hi]

/-- **A packed vector** has every used value at its position. -/
theorem exists_packed (h : OfAxis space extent) {x : Array α} (hx : x.size = extent) (d : α) :
    ∃ z, packed space (Tensor.ofArray x) = .ok (Tensor.ofArray z) ∧
      z.size = packedExtent space extent ∧
      ∀ i, keeps space i = true → z.getD (position space i) d = x.getD i d := by
  cases space with
  | none => exact ⟨x, rfl, hx, fun i _ => rfl⟩
  | some p =>
    have hfull : p.full = x.size := (h.translates.full_eq p rfl).trans (by rw [hx])
    have hids : ∀ i ∈ p.ids, i < x.size := fun i hi => (h.lt hi).trans_eq hx.symm
    have hpack : p.pack (Tensor.ofArray x) =
        .ok (Tensor.ofArray (p.ids.map fun i => x.getD i d)) := pack_vector rfl hfull hids d
    exact ⟨_, hpack, Array.size_map, fun i hi => getD_map_index (keeps_iff.mp hi) _ d⟩

/-- The positions of the used indices are all there are. -/
theorem eq_of_positions (h : OfAxis space extent) {y z : Array α} (d : α)
    (hy : y.size = packedExtent space extent) (hz : z.size = packedExtent space extent)
    (heq : ∀ i, i < extent → keeps space i = true →
      y.getD (position space i) d = z.getD (position space i) d) : y = z := by
  have hall : ∀ k, k < packedExtent space extent → y.getD k d = z.getD k d := by
    cases space with
    | none => exact fun k hk => heq k hk rfl
    | some p =>
      refine (forall_index_iff (h.translates.ordered p rfl).nodup).mpr fun i hi => ?_
      exact heq i (h.lt hi) (keeps_iff.mpr hi)
  refine Array.ext (hy.trans hz.symm) fun k hky hkz => ?_
  have hk := hall k (hy ▸ hky)
  rwa [Array.getD_eq_getD_getElem?, Array.getD_eq_getD_getElem?, Array.getElem?_eq_getElem hky,
    Array.getElem?_eq_getElem hkz] at hk

/-! ## Rows -/

/-- The packed entries in the position of a row are the used ones of the row. -/
theorem sum_packed_row {entries : List (Entry Rat)} {x z : Array Rat} {row : Nat}
    (hrow : keeps rowSpace row = true) (hbounds : ∀ e ∈ entries, e.col < x.size)
    (hz : ∀ i, keeps colSpace i = true → z.getD (position colSpace i) 0 = x.getD i 0) :
    (((entries.filter (keepsEntry rowSpace colSpace)).map (relabel rowSpace colSpace)).map
      fun e => if e.row = position rowSpace row then e.value * z.getD e.col 0 else 0).sum =
    (entries.map fun e =>
      if e.row = row then e.value * (restricted colSpace x).getD e.col 0 else 0).sum := by
  have hdropped : ∀ e ∈ entries, keepsEntry rowSpace colSpace e = false →
      (if e.row = row then e.value * (restricted colSpace x).getD e.col 0 else 0) = 0 := by
    intro e he hunused
    split_ifs with heq
    · have hcol : keeps colSpace e.col = false := by
        rw [keepsEntry, heq, hrow, Bool.true_and] at hunused
        exact hunused
      rw [getD_restricted (hbounds e he), hcol, if_neg Bool.false_ne_true, mul_zero]
    · rfl
  rw [← sum_map_filter_of_zero _ hdropped, List.map_map]
  refine congrArg List.sum (List.map_congr_left fun e he => ?_)
  obtain ⟨hmem, hkeep⟩ := List.mem_filter.mp he
  obtain ⟨hkeep, hcol⟩ := Bool.and_eq_true_iff.mp hkeep
  simp only [Function.comp, relabel]
  rw [hz e.col hcol, getD_restricted (hbounds e hmem), hcol, if_pos rfl]
  simp only [position_inj hkeep]

end Packing

namespace SparseMatrix

open Packing

variable {rowSpace colSpace : Option Packing}

/-- Packing the result of a matrix is applying the packed matrix. -/
theorem apply_packed {m : SparseMatrix Rat} (hm : m.InBounds) (hrows : OfAxis rowSpace m.rows)
    {x z : Array Rat} (hx : x.size = m.cols) (hzsize : z.size = packedExtent colSpace m.cols)
    (hz : ∀ i, keeps colSpace i = true → z.getD (position colSpace i) 0 = x.getD i 0) :
    ∃ y result, m.apply (Tensor.ofArray (restricted colSpace x)) false = .ok y ∧
      (⟨packedExtent rowSpace m.rows, packedExtent colSpace m.cols,
        (m.entries.filter (keepsEntry rowSpace colSpace)).map (relabel rowSpace colSpace)⟩ :
          SparseMatrix Rat).apply (Tensor.ofArray z) false = .ok result ∧
      packed rowSpace (Tensor.ofArray y.values) = .ok (Tensor.ofArray result.values) := by
  have hrestricted : (Tensor.ofArray (restricted colSpace x)).shape = [m.cols] := by
    rw [Tensor.ofArray, restricted, Array.size_mapIdx, hx]
  obtain ⟨y, hy, hysize, hyvalues⟩ := apply_entries hrestricted
  obtain ⟨result, hresult, hsize, hvalues⟩ := apply_entries (m := ⟨packedExtent rowSpace m.rows,
    packedExtent colSpace m.cols, (m.entries.filter (keepsEntry rowSpace colSpace)).map
      (relabel rowSpace colSpace)⟩) (x := Tensor.ofArray z) (congrArg (fun n => [n]) hzsize)
  obtain ⟨u, hu, husize, huvalues⟩ := exists_packed hrows hysize 0
  refine ⟨y, result, hy, hresult, ?_⟩
  have heq : u = result.values := by
    refine eq_of_positions hrows 0 husize hsize fun i hi hkeep => ?_
    rw [huvalues i hkeep, hyvalues i hi, hvalues _ (position_lt hi hkeep)]
    exact (sum_packed_row hkeep (fun e he => hx ▸ (hm e he).2) hz).symm
  rw [hu, heq]

/-- **Packing commutes with applying a matrix.** With unused entries dropped, the packed matrix
takes a packed vector to the packed result on the used part of the vector. Without, a matrix with an
unused entry is refused, and any other is packed to the same. -/
theorem pack_commutes {m : SparseMatrix Rat} (hm : m.InBounds) (hrows : OfAxis rowSpace m.rows)
    (hcols : OfAxis colSpace m.cols) :
    (∃ packedMatrix, m.pack rowSpace colSpace true = .ok packedMatrix ∧
      ∀ (x : Array Rat) (skipNaN : Bool), x.size = m.cols → ∃ z y result,
        packed colSpace (Tensor.ofArray x) = .ok z ∧
        m.apply (Tensor.ofArray (restricted colSpace x)) skipNaN = .ok y ∧
        packedMatrix.apply z skipNaN = .ok result ∧
        packed rowSpace (Tensor.ofArray y.values) = .ok (Tensor.ofArray result.values)) ∧
    ((∃ e ∈ m.entries, (∃ p ∈ rowSpace, e.row ∉ p.ids) ∨ ∃ p ∈ colSpace, e.col ∉ p.ids) ↔
      ∃ id name, m.pack rowSpace colSpace false = .error (.notFound id name)) ∧
    ((∀ e ∈ m.entries, (∀ p ∈ rowSpace, e.row ∈ p.ids) ∧ ∀ p ∈ colSpace, e.col ∈ p.ids) →
      m.pack rowSpace colSpace false = m.pack rowSpace colSpace true) := by
  have hdropping := pack_dropping hrows.translates hcols.translates
  have hused : (∀ e ∈ m.entries, keepsEntry rowSpace colSpace e = true) →
      m.pack rowSpace colSpace false = m.pack rowSpace colSpace true := by
    intro hall
    rw [pack_eq hrows.translates hcols.translates hall, hdropping, List.filter_eq_self.mpr hall]
  refine ⟨⟨_, hdropping, fun x skipNaN hx => ?_⟩, ⟨?_, ?_⟩, fun hall => ?_⟩
  · obtain ⟨z, hpacked, hsize, hz⟩ := exists_packed hcols hx 0
    obtain ⟨y, result, hy, hresult, hrow⟩ := apply_packed hm hrows hx hsize hz
    rw [← apply_skipNaN _ _ skipNaN] at hy hresult
    exact ⟨_, y, result, hpacked, hy, hresult, hrow⟩
  · rintro ⟨e, he, hunused⟩
    have hfalse : keepsEntry rowSpace colSpace e = false := by
      rw [← Bool.not_eq_true, keepsEntry_iff]
      rintro ⟨hrow, hcol⟩
      rcases hunused with ⟨p, hp, hout⟩ | ⟨p, hp, hout⟩
      · exact hout (hrow p hp)
      · exact hout (hcol p hp)
    obtain ⟨i, name, herror⟩ := pack_unused hrows.translates hcols.translates he hfalse
    exact ⟨_, name, herror⟩
  · rintro ⟨id, name, herror⟩
    by_contra hnone
    push Not at hnone
    rw [hused fun e he => keepsEntry_iff.mpr (hnone e he), hdropping] at herror
    cases herror
  · exact hused fun e he => keepsEntry_iff.mpr (hall e he)

/-- A matrix of four rows and five columns. -/
def fourByFive : SparseMatrix Rat := ⟨4, 5, [⟨1, 3, 2⟩, ⟨3, 0, 1⟩, ⟨0, 4, 9⟩]⟩

/-- Two of four rows. -/
def twoRows : Packing := ⟨4, #[1, 3], "rows"⟩

/-- Two of five columns. -/
def twoCols : Packing := ⟨5, #[0, 3], "cols"⟩

/-- Four rows and five columns of which two each are used, and an entry that neither uses. -/
theorem pack_commutes_twoByTwo :
    fourByFive.InBounds ∧ OfAxis (some twoRows) 4 ∧ OfAxis (some twoCols) 5 ∧
    (∃ y result : Totals Rat,
      fourByFive.pack (some twoRows) (some twoCols) true =
        .ok ⟨2, 2, [⟨0, 1, 2⟩, ⟨1, 0, 1⟩]⟩ ∧
      packed (some twoCols) (Tensor.ofArray #[10, 11, 12, 13, (14 : Rat)]) =
        .ok (Tensor.ofArray #[10, 13]) ∧
      fourByFive.apply (Tensor.ofArray #[10, 0, 0, 13, 0]) false = .ok y ∧
      y.values = #[0, 26, 0, 10] ∧
      (⟨2, 2, [⟨0, 1, 2⟩, ⟨1, 0, 1⟩]⟩ : SparseMatrix Rat).apply (Tensor.ofArray #[10, 13]) false =
        .ok result ∧
      result.values = #[26, 10] ∧
      packed (some twoRows) (Tensor.ofArray y.values) = .ok (Tensor.ofArray result.values)) ∧
    ∃ id name,
      fourByFive.pack (some twoRows) (some twoCols) false = .error (.notFound id name) := by
  have hm : fourByFive.InBounds := by decide
  have hrows : OfAxis (some twoRows) 4 := fun _ hp => Option.mem_some.mp hp ▸ ⟨[3, 1, 3], rfl⟩
  have hcols : OfAxis (some twoCols) 5 := fun _ hp => Option.mem_some.mp hp ▸ ⟨[0, 3], rfl⟩
  obtain ⟨⟨⟨rows, cols, entries⟩, hpack, hcommutes⟩, hrefused, -⟩ := pack_commutes hm hrows hcols
  have hmatrix : (fourByFive.pack (some twoRows) (some twoCols) true).toOption.map
      (fun m => (m.rows, m.cols, m.entries)) = some (2, 2, [⟨0, 1, 2⟩, ⟨1, 0, 1⟩]) := by
    decide +kernel
  rw [hpack] at hmatrix
  cases hmatrix
  obtain ⟨⟨shape, values⟩, y, result, hz, hy, hresult, hpacked⟩ :=
    hcommutes #[10, 11, 12, 13, 14] false rfl
  have hvector : (packed (some twoCols) (Tensor.ofArray #[10, 11, 12, 13, (14 : Rat)])).toOption.map
      (fun v => (v.shape, v.values)) = some ([2], #[10, 13]) := by decide +kernel
  rw [hz] at hvector
  cases hvector
  have hused : restricted (some twoCols) #[10, 11, 12, 13, 14] = #[10, 0, 0, 13, 0] := by
    decide +kernel
  rw [hused] at hy
  have hproduct : (fourByFive.apply (Tensor.ofArray #[10, 0, 0, 13, 0]) false).toOption.map
      Totals.values = some #[0, 26, 0, 10] := by decide +kernel
  rw [hy] at hproduct
  have hsmall : ((⟨2, 2, [⟨0, 1, 2⟩, ⟨1, 0, 1⟩]⟩ : SparseMatrix Rat).apply ⟨[2], #[10, 13]⟩
      false).toOption.map Totals.values = some #[26, 10] := by decide +kernel
  rw [hresult] at hsmall
  exact ⟨hm, hrows, hcols, ⟨y, result, hpack, hz, hy, Option.some.inj hproduct, hresult,
      Option.some.inj hsmall, hpacked⟩,
    hrefused.mp ⟨⟨0, 4, 9⟩, by decide, Or.inl ⟨_, rfl, by simp [twoRows]⟩⟩⟩

end SparseMatrix

end Regrid

import Mathlib.Data.Prod.Lex
import Regrid.Proofs.Sparse.Calls
import Regrid.Proofs.Sparse.Canonical

/-!
# Merged matrices

Merging (`sum_duplicates`) leaves one entry at every coordinate where one was, in reading order
(`InOrder`), and every element as it is. There is only one list of entries like that
(`InOrder.eq_of_alike`). So a merged matrix is told by coordinates and elements, and neither of them
depends on the order in which entries were added, or on when they were merged in between
(`Filled.alike`). `Filled.canonical` puts this together for matrices in memory, filled in any way.

Reading order goes by row and then by column. The order by column and then by row is not what
merging gives (`merged_not_by_columns`).
-/

namespace Regrid

/-! ## Runs -/

section Runs

variable {α κ : Type} [Scalar α] [DecidableEq κ]

theorem mem_keys_sumRunsFrom (k : κ) : ∀ (rest : List (κ × α)) (key : κ) (total : α),
    k ∈ (sumRunsFrom key total rest).map Prod.fst ↔ k = key ∨ k ∈ rest.map Prod.fst
  | [], key, total => by simp [sumRunsFrom]
  | (k', v) :: rest, key, total => by
    unfold sumRunsFrom
    by_cases hk : k' = key
    · rw [if_pos hk, mem_keys_sumRunsFrom k rest]
      simp [hk]
    · simp [hk, mem_keys_sumRunsFrom k rest]

/-- **Summing runs** loses no key. -/
theorem mem_keys_sumRuns (k : κ) : ∀ l : List (κ × α),
    k ∈ (sumRuns l).map Prod.fst ↔ k ∈ l.map Prod.fst
  | [] => Iff.rfl
  | (k', v) :: rest => by simp [sumRuns, mem_keys_sumRunsFrom]

end Runs

namespace SparseMatrix

/-! ## Merged entries -/

/-- The entries stand in reading order, by row and then by column, one at a coordinate. -/
def InOrder {α : Type} (es : List (Entry α)) : Prop :=
  (es.map fun e => toLex (coordinate e)).Pairwise (· < ·)

section Merging

variable {α : Type} [Scalar α]

/-- The coordinates of merged entries are the keys of the runs. -/
theorem coordinates_mergedEntries (es : List (Entry α)) : (mergedEntries es).map coordinate =
    (sumRuns ((es.map fun e => (coordinate e, e.value)).mergeSort coordinateLE)).map Prod.fst := by
  rw [mergedEntries_eq, List.map_map]
  rfl

/-- **Merging** leaves an entry where one was, and nowhere else. -/
theorem mem_coordinates_mergedEntries (p : Nat × Nat) (es : List (Entry α)) :
    p ∈ (mergedEntries es).map coordinate ↔ p ∈ es.map coordinate := by
  rw [coordinates_mergedEntries, mem_keys_sumRuns]
  simp [List.mem_mergeSort]

omit [Scalar α] in
theorem coordinateLE_iff {s t : (Nat × Nat) × α} :
    coordinateLE s t = true ↔ toLex s.1 ≤ toLex t.1 := by
  simp [coordinateLE, Prod.Lex.le_iff]

/-- **Merged entries** stand in reading order. -/
theorem inOrder_mergedEntries (es : List (Entry α)) : InOrder (mergedEntries es) := by
  unfold InOrder
  rw [← Function.comp_def toLex, ← List.map_map, coordinates_mergedEntries]
  refine pairwise_lt_of_isChain ?_ ?_
  · have hsorted := (pairwise_coordinateLE (es.map fun e => (coordinate e, e.value))).imp
      fun h => coordinateLE_iff.mp h
    exact List.pairwise_map.mpr ((List.pairwise_map.mpr hsorted).sublist (keys_sumRuns _))
  · exact List.isChain_map_of_isChain _ (fun _ _ hne => toLex.injective.ne hne) (isChain_sumRuns _)

end Merging

variable {m m' : SparseMatrix Rat}

theorem InOrder.nodup {es : List (Entry Rat)} (h : InOrder es) : (es.map coordinate).Nodup := by
  unfold InOrder at h
  rw [← Function.comp_def toLex, ← List.map_map] at h
  have hnodup : ((es.map coordinate).map toLex).Nodup := h.imp fun hlt => hlt.ne
  exact hnodup.of_map

/-- Matrices have entries at the same coordinates, and the same elements. -/
structure Alike (m m' : SparseMatrix Rat) : Prop where
  coordinates : ∀ p, p ∈ m.entries.map coordinate ↔ p ∈ m'.entries.map coordinate
  dense : ∀ row col, m.dense row col = m'.dense row col

theorem Alike.trans {m'' : SparseMatrix Rat} (h : Alike m m') (h' : Alike m' m'') : Alike m m'' :=
  ⟨fun p => (h.coordinates p).trans (h'.coordinates p),
    fun row col => (h.dense row col).trans (h'.dense row col)⟩

/-- The entries of a matrix with one at a coordinate are told by coordinates and elements. -/
theorem mem_iff_of_nodup (h : (m.entries.map coordinate).Nodup) {e : Entry Rat} :
    e ∈ m.entries ↔ coordinate e ∈ m.entries.map coordinate ∧ m.dense e.row e.col = e.value := by
  constructor
  · exact fun he => ⟨List.mem_map_of_mem he, dense_of_mem h he⟩
  · rintro ⟨hat, hdense⟩
    obtain ⟨f, hf, hcoordinate⟩ := List.mem_map.mp hat
    obtain ⟨hrow, hcol⟩ := Prod.mk.inj hcoordinate
    have hvalue := dense_of_mem h hf
    rw [hrow, hcol, hdense] at hvalue
    obtain rfl : f = e := by
      cases f
      cases e
      simp_all
    exact hf

/-- **In reading order** there is only one list of entries for given coordinates and elements. -/
theorem InOrder.eq_of_alike (h : InOrder m.entries) (h' : InOrder m'.entries)
    (halike : Alike m m') : m.entries = m'.entries := by
  have hperm : m.entries.Perm m'.entries := by
    refine (List.perm_ext_iff_of_nodup h.nodup.of_map h'.nodup.of_map).mpr fun e => ?_
    rw [mem_iff_of_nodup h.nodup, mem_iff_of_nodup h'.nodup, halike.coordinates, halike.dense]
  refine hperm.eq_of_pairwise (fun e f _ _ hef hfe => ?_) (List.pairwise_map.mp h)
    (List.pairwise_map.mp h')
  exact absurd hfe hef.not_gt

/-- Matrices that are alike are the same when they are merged. -/
theorem Alike.mergedEntries_eq (h : Alike m m') :
    mergedEntries m.entries = mergedEntries m'.entries := by
  have hmerged : Alike m.sumDuplicates m'.sumDuplicates := by
    refine ⟨fun p => ?_, fun row col => ?_⟩
    · exact (mem_coordinates_mergedEntries p _).trans
        ((h.coordinates p).trans (mem_coordinates_mergedEntries p _).symm)
    · rw [dense_sumDuplicates, dense_sumDuplicates, h.dense]
  exact (inOrder_mergedEntries m.entries).eq_of_alike (inOrder_mergedEntries m'.entries) hmerged

end SparseMatrix

/-! ## Triplets -/

namespace Triplet

open SparseMatrix (Alike)

variable {rows cols : Nat} {ts us vs : List (Triplet Rat)}

/-- The row and the column of a triplet. -/
def place {α : Type} (t : Triplet α) : Nat × Nat := (t.1.toNat, t.2.1.toNat)

theorem alike_iff : Alike (matrix rows cols ts) (matrix rows cols us) ↔
    (∀ p, p ∈ ts.map place ↔ p ∈ us.map place) ∧ dense rows cols ts = dense rows cols us := by
  have hplaces : ∀ vs : List (Triplet Rat),
      (matrix rows cols vs).entries.map SparseMatrix.coordinate = vs.map place := fun vs =>
    List.map_map ..
  constructor
  · intro h
    refine ⟨fun p => ?_, DenseMatrix.ext rfl rfl (funext₂ h.dense)⟩
    rw [← hplaces ts, ← hplaces us, h.coordinates]
  · rintro ⟨hcoordinates, hdense⟩
    refine ⟨fun p => ?_, fun row col => congrFun₂ (congrArg DenseMatrix.elem hdense) row col⟩
    rw [hplaces, hplaces, hcoordinates]

/-- The order of triplets does not matter. -/
theorem alike_of_perm (h : ts.Perm us) : Alike (matrix rows cols ts) (matrix rows cols us) := by
  refine alike_iff.mpr ⟨fun p => (h.map place).mem_iff, DenseMatrix.ext rfl rfl (funext₂ ?_)⟩
  intro i j
  rw [elem_dense, elem_dense]
  exact (h.map _).sum_eq

/-- Nor does anything about them matter when more triplets are added, but what they are alike in. -/
theorem alike_append (h : Alike (matrix rows cols ts) (matrix rows cols us)) :
    Alike (matrix rows cols (ts ++ vs)) (matrix rows cols (us ++ vs)) := by
  obtain ⟨hplaces, hdense⟩ := alike_iff.mp h
  refine alike_iff.mpr ⟨fun p => ?_, by rw [dense_append, dense_append, hdense]⟩
  rw [List.map_append, List.map_append, List.mem_append, List.mem_append, hplaces]

/-- **Merged triplets** are alike to those that were merged. -/
theorem alike_merged (rows cols : Nat) (ts : List (Triplet Rat)) :
    Alike (matrix rows cols (merged ts)) (matrix rows cols ts) := by
  rw [matrix_merged]
  exact ⟨fun p => SparseMatrix.mem_coordinates_mergedEntries p _,
    SparseMatrix.dense_sumDuplicates _⟩

theorem merged_congr (h : Alike (matrix rows cols ts) (matrix rows cols us)) :
    merged ts = merged us :=
  congrArg (List.map ofEntry) h.mergedEntries_eq

/-- **Merging again** changes nothing. -/
theorem merged_merged (ts : List (Triplet Rat)) : merged (merged ts) = merged ts :=
  merged_congr (alike_merged 0 0 ts)

theorem merged_inOrder (ts : List (Triplet Rat)) :
    ((merged ts).map fun t => toLex (place t)).Pairwise (· < ·) := by
  have h := SparseMatrix.inOrder_mergedEntries (ts.map entry)
  unfold SparseMatrix.InOrder at h
  unfold merged
  rw [List.map_map]
  exact h

theorem nodup_merged (ts : List (Triplet Rat)) : ((merged ts).map place).Nodup := by
  have h := (SparseMatrix.inOrder_mergedEntries (ts.map entry)).nodup
  unfold merged
  rw [List.map_map]
  exact h

end Triplet

/-! ## Matrices in memory -/

namespace BufferedMatrix

open Attempt
open SparseMatrix (Alike)

variable {rows cols : Nat} {m m' n : BufferedMatrix Rat} {ts us : List (Triplet Rat)}

/-- A matrix that holds triplets, and what one becomes to which triplets are added in any of the
ways there are, and whose entries are merged every now and then. The list has all triplets, in the
order in which they were added. -/
inductive Filled (rows cols : Nat) : BufferedMatrix Rat → List (Triplet Rat) → Prop
  | holds {m : BufferedMatrix Rat} {ts : List (Triplet Rat)} (h : m.Holds rows cols ts) :
      Filled rows cols m ts
  | add {m m' : BufferedMatrix Rat} {ts : List (Triplet Rat)} {row col : Number} {r c : Nat}
      {v : Rat} (h : Filled rows cols m ts) (hrow : row.place? rows = some r)
      (hcol : col.place? cols = some c)
      (hrun : (add row col v).run m = .ok () m') :
      Filled rows cols m' (ts ++ [((r : Int), (c : Int), v)])
  | addEntries {m m' : BufferedMatrix Rat} {ts us : List (Triplet Rat)} {rs cs : List Number}
      {vs : List Rat} (h : Filled rows cols m ts) (hgiven : Triplet.GivenBy rows cols us rs cs vs)
      (hrun : (addEntries rs cs vs).run m = .ok () m') : Filled rows cols m' (ts ++ us)
  | append {m m' o : BufferedMatrix Rat} {ts us : List (Triplet Rat)} (h : Filled rows cols m ts)
      (ho : o.Holds rows cols us) (hrun : (append o).run m = .ok () m') :
      Filled rows cols m' (ts ++ us)
  | merge {m m' : BufferedMatrix Rat} {ts : List (Triplet Rat)} (h : Filled rows cols m ts)
      (hrun : sumDuplicates.run m = .ok () m') : Filled rows cols m' ts

/-- **A matrix that was filled** holds triplets that are alike to all that were added. -/
theorem Filled.alike (h : Filled rows cols m ts) : ∃ us, m.Holds rows cols us ∧
    Alike (Triplet.matrix rows cols us) (Triplet.matrix rows cols ts) := by
  induction h with
  | holds h => exact ⟨_, h, fun _ => Iff.rfl, fun _ _ => rfl⟩
  | add _ hrow hcol hrun ih =>
    obtain ⟨us, hm, halike⟩ := ih
    obtain ⟨m', hrun', hm'⟩ := add_run_ok hm hrow hcol _
    cases hrun.symm.trans hrun'
    exact ⟨_, hm', Triplet.alike_append halike⟩
  | addEntries _ hgiven hrun ih =>
    obtain ⟨us, hm, halike⟩ := ih
    obtain ⟨m', hrun', hm'⟩ := addEntries_run_ok hm hgiven
    cases hrun.symm.trans hrun'
    exact ⟨_, hm', Triplet.alike_append halike⟩
  | append _ ho hrun ih =>
    obtain ⟨us, hm, halike⟩ := ih
    obtain ⟨m', hrun', hm'⟩ := append_run hm ho
    cases hrun.symm.trans hrun'
    exact ⟨_, hm', Triplet.alike_append halike⟩
  | merge _ hrun ih =>
    obtain ⟨us, hm, halike⟩ := ih
    obtain ⟨hrun', hm'⟩ := sumDuplicates_run hm
    cases hrun.symm.trans hrun'
    exact ⟨_, hm', (Triplet.alike_merged rows cols us).trans halike⟩

/-- Merging what was filled leaves the triplets that merging all that were added leaves. -/
theorem Filled.merge_run (h : Filled rows cols m ts) :
    sumDuplicates.run m = .ok () (ofTriplets rows cols (Triplet.merged ts)) ∧
      (ofTriplets rows cols (Triplet.merged ts)).Holds rows cols (Triplet.merged ts) := by
  obtain ⟨us, hm, halike⟩ := h.alike
  rw [← Triplet.merged_congr halike]
  exact sumDuplicates_run hm

/-- **The merged matrix.** Merging a matrix that was filled leaves one triplet at each coordinate
where one was added, in reading order, and the dense matrix as it is. Merging it again changes
nothing. And merging any matrix that was filled with the same triplets, in another order and with
other merges in between, leaves the same matrix. -/
theorem Filled.canonical (h : Filled rows cols m ts) : ∃ m' us,
    sumDuplicates.run m = .ok () m' ∧ m'.Holds rows cols us ∧
    Triplet.dense rows cols us = Triplet.dense rows cols ts ∧
    (us.map Triplet.place).Nodup ∧
    (us.map fun t => toLex (Triplet.place t)).Pairwise (· < ·) ∧
    (∀ p, p ∈ us.map Triplet.place ↔ p ∈ ts.map Triplet.place) ∧
    sumDuplicates.run m' = .ok () m' ∧
    ∀ (n : BufferedMatrix Rat) (vs : List (Triplet Rat)), Filled rows cols n vs → vs.Perm ts →
      sumDuplicates.run n = .ok () m' := by
  obtain ⟨hrun, hholds⟩ := h.merge_run
  obtain ⟨hplaces, hdense⟩ := Triplet.alike_iff.mp (Triplet.alike_merged rows cols ts)
  refine ⟨_, _, hrun, hholds, hdense, Triplet.nodup_merged ts, Triplet.merged_inOrder ts, hplaces,
    ?_, fun n vs hn hperm => ?_⟩
  · have hagain := (sumDuplicates_run hholds).1
    rwa [Triplet.merged_merged] at hagain
  · have halike : Alike (Triplet.matrix rows cols vs) (Triplet.matrix rows cols ts) :=
      Triplet.alike_of_perm hperm
    rw [hn.merge_run.1, Triplet.merged_congr halike]

theorem holds_ofTriplets_two (hts : ∀ t ∈ ts, Triplet.Fits 2 2 t) :
    (ofTriplets 2 2 ts).Holds 2 2 ts :=
  (holds_empty (by simp) (by simp)).ofTriplets hts

/-- Of triplets that cancel a zero stays. That is also so when some are merged before others
come. -/
theorem canonical_cancelling : ∃ m n : BufferedMatrix Rat,
    Filled 2 2 m [(0, 1, 2), (1, 0, 1), (0, 1, -2)] ∧
    Filled 2 2 n [(1, 0, 1), (0, 1, 2), (0, 1, -2)] ∧
    sumDuplicates.run m = .ok () (ofTriplets 2 2 [(0, 1, 0), (1, 0, 1)]) ∧
    sumDuplicates.run n = .ok () (ofTriplets 2 2 [(0, 1, 0), (1, 0, 1)]) := by
  have hfirst : (ofTriplets 2 2 [(0, 1, (2 : Rat)), (1, 0, 1)]).Holds 2 2 _ :=
    holds_ofTriplets_two (by simp [Triplet.Fits])
  have hother : (ofTriplets 2 2 [(1, 0, (1 : Rat)), (0, 1, 2), (0, 1, -2)]).Holds 2 2 _ :=
    holds_ofTriplets_two (by simp [Triplet.Fits])
  obtain ⟨hmerge, hmerged⟩ := sumDuplicates_run hfirst
  have hrow : (Number.whole 0).place? 2 = some 0 := rfl
  have hcol : (Number.whole 1).place? 2 = some 1 := rfl
  obtain ⟨m, hadd, -⟩ := add_run_ok hmerged hrow hcol (-2)
  have hm : Filled 2 2 m [(0, 1, 2), (1, 0, 1), (0, 1, -2)] :=
    ((Filled.holds hfirst).merge hmerge).add hrow hcol hadd
  obtain ⟨m', us, hrun, -, -, -, -, -, -, hothers⟩ := hm.canonical
  have hleft :
      Triplet.merged [(0, 1, (2 : Rat)), (1, 0, 1), (0, 1, -2)] = [(0, 1, 0), (1, 0, 1)] := by
    cbv
  have hrun' := hm.merge_run.1
  rw [hleft] at hrun'
  cases hrun.symm.trans hrun'
  exact ⟨m, _, hm, .holds hother, hrun, hothers _ _ (.holds hother) (List.Perm.swap _ _ _)⟩

/-- Merging goes by row first, and not by column. -/
theorem merged_not_by_columns : ∃ (m : BufferedMatrix Rat) (us : List (Triplet Rat)),
    sumDuplicates.run (ofTriplets 2 2 [(1, 0, 1), (0, 1, 1)]) = .ok () m ∧ m.Holds 2 2 us ∧
    us = [(0, 1, 1), (1, 0, 1)] ∧
    ¬ (us.map fun t => toLex (Triplet.place t).swap).Pairwise (· < ·) := by
  have hholds : (ofTriplets 2 2 [(1, 0, (1 : Rat)), (0, 1, 1)]).Holds 2 2 _ :=
    holds_ofTriplets_two (by simp [Triplet.Fits])
  obtain ⟨hrun, hmerged⟩ := sumDuplicates_run hholds
  have hleft : Triplet.merged [(1, 0, (1 : Rat)), (0, 1, 1)] = [(0, 1, 1), (1, 0, 1)] := by cbv
  rw [hleft] at hrun hmerged
  exact ⟨_, _, hrun, hmerged, rfl, by decide⟩

end BufferedMatrix

end Regrid

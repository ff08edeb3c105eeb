import Mathlib.Data.List.Chain
import Regrid.Proofs.Sparse.Dense
import Regrid.Sparse.Merge

/-!
# Merged entries

Summing runs drops keys but keeps their order (`keys_sumRuns`), and leaves no two equal neighbours
(`isChain_sumRuns`), so there is nothing to sum a second time. The runs were sorted before, so
merging the entries of a matrix twice is merging them once (`sumDuplicates_idem`). Nothing is added
in that, and so it is true of any scalars, rounded ones too.
-/

namespace Regrid

/-! ## Runs -/

section Runs

variable {α κ : Type} [Scalar α] [DecidableEq κ]

theorem keys_sumRunsFrom : ∀ (rest : List (κ × α)) (key : κ) (total : α),
    ((sumRunsFrom key total rest).map Prod.fst).Sublist (key :: rest.map Prod.fst)
  | [], _, _ => List.Sublist.refl _
  | (k, v) :: rest, key, total => by
    unfold sumRunsFrom
    split_ifs with hk
    · exact (keys_sumRunsFrom rest key (total + v)).trans
        ((List.sublist_cons_self k _).cons_cons key)
    · exact (keys_sumRunsFrom rest k v).cons_cons key

/-- **Summing runs** drops keys but keeps their order. -/
theorem keys_sumRuns : ∀ l : List (κ × α), ((sumRuns l).map Prod.fst).Sublist (l.map Prod.fst)
  | [] => List.Sublist.refl _
  | (k, v) :: rest => keys_sumRunsFrom rest k v

/-- Summing runs makes up no keys. -/
theorem mem_sumRuns {l : List (κ × α)} {t : κ × α} (h : t ∈ sumRuns l) : t.1 ∈ l.map Prod.fst :=
  (keys_sumRuns l).subset (List.mem_map_of_mem h)

/-- The run that is open comes first. -/
theorem head_sumRunsFrom : ∀ (rest : List (κ × α)) (key : κ) (total : α),
    ∃ v tail, sumRunsFrom key total rest = (key, v) :: tail
  | [], _, total => ⟨total, [], rfl⟩
  | (k, v) :: rest, key, total => by
    unfold sumRunsFrom
    split_ifs with hk
    · exact head_sumRunsFrom rest key (total + v)
    · exact ⟨total, _, rfl⟩

theorem isChain_sumRunsFrom : ∀ (rest : List (κ × α)) (key : κ) (total : α),
    ((sumRunsFrom key total rest).map Prod.fst).IsChain (· ≠ ·)
  | [], _, _ => List.IsChain.singleton _
  | (k, v) :: rest, key, total => by
    unfold sumRunsFrom
    split_ifs with hk
    · exact isChain_sumRunsFrom rest key (total + v)
    · have hrest := isChain_sumRunsFrom rest k v
      obtain ⟨w, tail, htail⟩ := head_sumRunsFrom rest k v
      rw [htail] at hrest ⊢
      exact hrest.cons_cons (Ne.symm hk)

/-- Nor does it leave two equal neighbours. -/
theorem isChain_sumRuns : ∀ l : List (κ × α), ((sumRuns l).map Prod.fst).IsChain (· ≠ ·)
  | [] => List.IsChain.nil
  | (k, v) :: rest => isChain_sumRunsFrom rest k v

theorem sumRunsFrom_of_isChain : ∀ (rest : List (κ × α)) (key : κ) (total : α),
    (key :: rest.map Prod.fst).IsChain (· ≠ ·) → sumRunsFrom key total rest = (key, total) :: rest
  | [], _, _, _ => rfl
  | (k, v) :: rest, key, total, h => by
    obtain ⟨hne, hrest⟩ := List.isChain_cons_cons.mp h
    rw [sumRunsFrom, if_neg (Ne.symm hne), sumRunsFrom_of_isChain rest k v hrest]

/-- Where no neighbours are equal, there is nothing to sum. -/
theorem sumRuns_of_isChain : ∀ {l : List (κ × α)}, (l.map Prod.fst).IsChain (· ≠ ·) →
    sumRuns l = l
  | [], _ => rfl
  | (k, v) :: rest, h => sumRunsFrom_of_isChain rest k v h

end Runs

namespace SparseMatrix

variable {α : Type} [Scalar α] {m : SparseMatrix α}

/-! ## Entries -/

omit [Scalar α] in
theorem pairwise_coordinateLE (l : List ((Nat × Nat) × α)) :
    (l.mergeSort coordinateLE).Pairwise fun a b => coordinateLE a b = true := by
  refine List.pairwise_mergeSort (fun a b c hab hbc => ?_) (fun a b => ?_) l
  · simp only [coordinateLE, Bool.or_eq_true, Bool.and_eq_true, decide_eq_true_eq,
      beq_iff_eq] at *
    omega
  · simp only [coordinateLE, Bool.or_eq_true, Bool.and_eq_true, decide_eq_true_eq, beq_iff_eq]
    omega

/-- Merging makes up no coordinates. -/
theorem mem_mergedEntries {es : List (Entry α)} {e : Entry α} (h : e ∈ mergedEntries es) :
    ∃ e' ∈ es, e'.row = e.row ∧ e'.col = e.col := by
  simp only [mergedEntries, List.mem_map] at h
  obtain ⟨t, ht, rfl⟩ := h
  obtain ⟨u, hu, heq⟩ := List.mem_map.mp (mem_sumRuns ht)
  obtain ⟨e, he, rfl⟩ := List.mem_map.mp (List.mem_mergeSort.mp hu)
  exact ⟨e, he, congrArg Prod.fst heq, congrArg Prod.snd heq⟩

theorem InBounds.sumDuplicates (h : m.InBounds) : m.sumDuplicates.InBounds := by
  intro e he
  obtain ⟨e', he', hrow, hcol⟩ := mem_mergedEntries he
  exact ⟨hrow ▸ (h e' he').1, hcol ▸ (h e' he').2⟩

omit [Scalar α] in
/-- The entry of a coordinate and a value. -/
def ofKeyed (t : (Nat × Nat) × α) : Entry α := ⟨t.1.1, t.1.2, t.2⟩

theorem mergedEntries_eq (es : List (Entry α)) : mergedEntries es =
    (sumRuns ((es.map fun e => ((e.row, e.col), e.value)).mergeSort coordinateLE)).map ofKeyed :=
  rfl

theorem mergedEntries_idem (es : List (Entry α)) :
    mergedEntries (mergedEntries es) = mergedEntries es := by
  -- the runs of sorted keys are sorted, and no two neighbours are equal
  have hmerged : ∀ runs : List ((Nat × Nat) × α),
      (runs.map Prod.fst).Pairwise (fun a b => coordinateLE (a, 0) (b, (0 : α)) = true) →
      (runs.map Prod.fst).IsChain (· ≠ ·) →
      mergedEntries (runs.map ofKeyed) = runs.map ofKeyed := fun runs hsorted hchain => by
    have hkeyed : (runs.map ofKeyed).map (fun e => ((e.row, e.col), e.value)) = runs := by
      rw [List.map_map]
      exact List.map_id _
    have hsort : runs.mergeSort coordinateLE = runs :=
      List.mergeSort_of_pairwise (List.pairwise_map.mp hsorted)
    rw [mergedEntries_eq, hkeyed, hsort, sumRuns_of_isChain hchain]
  refine hmerged _ (List.Pairwise.sublist (keys_sumRuns _) ?_) (isChain_sumRuns _)
  exact List.pairwise_map.mpr (pairwise_coordinateLE _)

/-- **Merging** the entries of a matrix a second time changes nothing. -/
theorem sumDuplicates_idem (m : SparseMatrix α) : m.sumDuplicates.sumDuplicates = m.sumDuplicates :=
  congrArg (SparseMatrix.mk m.rows m.cols) (mergedEntries_idem m.entries)

end SparseMatrix

end Regrid

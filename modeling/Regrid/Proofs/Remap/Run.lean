import Regrid.Proofs.Remap.Seam
import Regrid.Remap.Basic

/-!
# Runs of seams

A run is a sequence of seams at positions of a ruler, each beginning where or behind where the one
before it ended. The spans between its seams cover the source cells, and `spanOverlaps` lists every
pair of a span and one of its cells. `Overlap.total` adds up what a list says of one pair.

* `Run.total_eq`: the total of a span and a source is what the seam behind the span has passed of
  the cells of that source, less what the seam before the span has.
* `Run.sum_total_sources`: over all sources the total is the way from seam to seam.
* `Run.sum_total_targets`: over all spans the total of a source is what the last seam has passed of
  its cells, less what the first has.
* `Run.total_eq_common`: if the seams lie inside their cells, the total is the common length.
-/

namespace Regrid

/-- How much a target and a source overlap in all. -/
def Overlap.total (os : List (Overlap Rat)) (target source : Nat) : Rat :=
  (os.map fun o => if o.target = target ∧ o.source = source then o.amount else 0).sum

/-- Every pair of a span and one of its cells that count for each other; `fold` says which source a
cell is of, and `whole` what all of it counts. -/
def spanOverlaps (spans : List (Span Rat)) (fold : Int → Nat) (whole : Int → Rat) :
    List (Overlap Rat) :=
  spans.zipIdx.flatMap fun (s, i) =>
    (s.cells.map fun c => ⟨i, fold c, s.share c (whole c)⟩).filter fun o => o.amount != 0

/-- Seams at positions of a ruler, in order. -/
structure Run (x : Int → Rat) (p : Nat → Rat) (n : Nat) (seam : Nat → Seam Rat) : Prop where
  at_pos : ∀ i, i ≤ n → (seam i).At x (p i)
  ordered : ∀ i, i < n → (seam i).right ≤ (seam (i + 1)).left

/-- The spans between the seams of a run. -/
def runSpans (n : Nat) (seam : Nat → Seam Rat) : List (Span Rat) :=
  (List.range n).map fun i => Span.between (seam i) (seam (i + 1))

theorem zipIdx_map_range {α : Type} (n : Nat) (f : Nat → α) :
    ((List.range n).map f).zipIdx = (List.range n).map fun i => (f i, i) := by
  apply List.ext_getElem
  · simp
  · intro i h1 h2
    simp

theorem head?_map_range {α : Type} {n : Nat} (hn : 0 < n) (f : Nat → α) :
    ((List.range n).map f).head? = some (f 0) := by
  rw [List.head?_map, List.head?_range, if_neg hn.ne']
  rfl

theorem getLast?_map_range {α : Type} {n : Nat} (hn : 0 < n) (f : Nat → α) :
    ((List.range n).map f).getLast? = some (f (n - 1)) := by
  rw [List.getLast?_map, List.getLast?_range, if_neg hn.ne']
  rfl

theorem pairwise_zipIdx {α : Type} (xs : List α) : xs.zipIdx.Pairwise fun a b => a.2 < b.2 := by
  rw [← List.pairwise_map (f := Prod.snd), List.zipIdx_map_snd]
  exact List.pairwise_lt_range'

/-- The spans between consecutive seams of a list are those of a run. -/
theorem ofSeams_eq_runSpans (seams : List (Seam Rat)) (s₀ : Seam Rat) :
    Span.ofSeams seams = runSpans (seams.length - 1) fun i => seams.getD i s₀ := by
  apply List.ext_getElem
  · simp [Span.ofSeams, runSpans]
  · intro i h1 h2
    simp only [Span.ofSeams, List.length_zipWith, List.length_tail] at h1
    simp only [Span.ofSeams, runSpans, List.getElem_zipWith, List.getElem_tail, List.getElem_map,
      List.getElem_range]
    rw [← List.getElem_eq_getD, ← List.getElem_eq_getD]

/-! ## Totals of spans -/

theorem mem_spanOverlaps {spans : List (Span Rat)} {fold : Int → Nat} {whole : Int → Rat}
    {o : Overlap Rat} (h : o ∈ spanOverlaps spans fold whole) :
    ∃ s, spans[o.target]? = some s ∧ o.amount ≠ 0 ∧
      ∃ c, s.first ≤ c ∧ c ≤ s.last ∧ o.source = fold c ∧ o.amount = s.part c (whole c) := by
  simp only [spanOverlaps, List.mem_flatMap, List.mem_filter, List.mem_map] at h
  obtain ⟨⟨s, i⟩, hs, ⟨c, hc, rfl⟩, hne⟩ := h
  rw [Span.mem_cells] at hc
  exact ⟨s, List.mem_zipIdx_iff_getElem?.mp hs, by simpa using hne, c, hc.1, hc.2, rfl,
    (Span.part_of_mem hc _).symm⟩

/-- The total of a span and a source is that of its cells of the source. -/
theorem total_spanOverlaps {n : Nat} {seam : Nat → Seam Rat} {fold : Int → Nat}
    {whole : Int → Rat} {t : Nat} (ht : t < n) (a : Nat) :
    Overlap.total (spanOverlaps (runSpans n seam) fold whole) t a =
      ∑ c ∈ Finset.Icc (seam t).right (seam (t + 1)).left,
        if fold c = a then (Span.between (seam t) (seam (t + 1))).part c (whole c) else 0 := by
  unfold Overlap.total spanOverlaps runSpans
  rw [zipIdx_map_range, List.flatMap_map, sum_map_flatMap, sum_map_range, Finset.sum_eq_single t]
  · rw [sum_map_filter_of_zero, List.map_map, Span.sum_cells]
    · refine Finset.sum_congr rfl fun c hc => ?_
      rw [Span.part_of_mem (s := Span.between (seam t) (seam (t + 1))) (Finset.mem_Icc.mp hc)]
      simp only [Function.comp, true_and]
    · intro o _ h
      simp only [bne_eq_false_iff_eq] at h
      rw [h, ite_self]
  · -- the other spans name another target
    intro i _ hi
    apply List.sum_eq_zero
    intro v hv
    simp only [List.mem_map, List.mem_filter] at hv
    obtain ⟨o, ⟨⟨c, -, rfl⟩, -⟩, rfl⟩ := hv
    rw [if_neg fun h => hi h.1]
  · intro h
    exact absurd (Finset.mem_range.mpr ht) h

/-! ## Totals of runs -/

namespace Run

variable {x : Int → Rat} {p : Nat → Rat} {n : Nat} {seam : Nat → Seam Rat} {fold : Int → Nat}
  {whole : Int → Rat}

theorem right_mono (h : Run x p n seam) {i j : Nat} (hij : i ≤ j) (hj : j ≤ n) :
    (seam i).right ≤ (seam j).right := by
  induction j, hij using Nat.le_induction with
  | base => exact le_refl _
  | succ j hij ih =>
    exact (ih (by omega)).trans ((h.ordered j (by omega)).trans (h.at_pos (j + 1) hj).left_le_right)

theorem left_mono (h : Run x p n seam) {i j : Nat} (hij : i ≤ j) (hj : j ≤ n) :
    (seam i).left ≤ (seam j).left := by
  induction j, hij using Nat.le_induction with
  | base => exact le_refl _
  | succ j hij ih =>
    exact (ih (by omega)).trans
      ((h.at_pos j (by omega)).left_le_right.trans (h.ordered j (by omega)))

/-- The cells of a span are cells of the whole run. -/
theorem cells_subset (h : Run x p n seam) {t : Nat} (ht : t < n) :
    Finset.Icc (seam t).right (seam (t + 1)).left ⊆ Finset.Icc (seam 0).right (seam n).left :=
  Finset.Icc_subset_Icc (h.right_mono (Nat.zero_le t) (by omega)) (h.left_mono (by omega) le_rfl)

section Totals

variable (h : Run x p n seam)
  (hw : ∀ c ∈ Finset.Icc (seam 0).right (seam n).left, whole c = x (c + 1) - x c)
include h hw

/-- **The total of a span and a source**, by the cells of the source. -/
theorem total_eq {t : Nat} (ht : t < n) (a : Nat) :
    Overlap.total (spanOverlaps (runSpans n seam) fold whole) t a =
      ∑ c ∈ Finset.Icc (seam 0).right (seam n).left,
        if fold c = a then (seam (t + 1)).passed c (whole c) - (seam t).passed c (whole c)
        else 0 := by
  rw [total_spanOverlaps ht]
  refine Finset.sum_subset_zero_on_sdiff (h.cells_subset ht) (fun c hc => ?_) fun c hc => ?_
  · rw [Finset.mem_sdiff] at hc
    have hout : (Span.between (seam t) (seam (t + 1))).part c (whole c) = 0 :=
      Span.part_of_not_mem (fun hin => hc.2 (Finset.mem_Icc.mpr hin)) _
    rw [hw c hc.1, ← part_between (h.at_pos (t + 1) (by omega)) (h.ordered t ht), ← hw c hc.1, hout,
      ite_self]
  · have hc' := hw c (h.cells_subset ht hc)
    rw [hc', part_between (h.at_pos (t + 1) (by omega)) (h.ordered t ht)]

/-- What an overlap of a run is: a cell of the run, and what it counts for a span. -/
theorem mem_overlaps {o : Overlap Rat} (ho : o ∈ spanOverlaps (runSpans n seam) fold whole) :
    o.target < n ∧ ∃ c ∈ Finset.Icc (seam 0).right (seam n).left, o.source = fold c ∧
      o.amount = (Span.between (seam o.target) (seam (o.target + 1))).part c (x (c + 1) - x c) := by
  obtain ⟨s, hs, -, c, hfirst, hlast, hsource, hamount⟩ := mem_spanOverlaps ho
  rw [runSpans, List.getElem?_map, Option.map_eq_some_iff] at hs
  obtain ⟨t, ht, rfl⟩ := hs
  obtain ⟨hlt, rfl⟩ : o.target < n ∧ o.target = t := by
    simpa [List.getElem?_eq_some_iff] using ht
  have hc := h.cells_subset hlt (Finset.mem_Icc.mpr ⟨hfirst, hlast⟩)
  exact ⟨hlt, c, hc, hsource, by rw [hamount, hw c hc]⟩

/-- **Over all sources** the total of a span is the way between its seams. -/
theorem sum_total_sources {m t : Nat} (ht : t < n)
    (hf : ∀ c ∈ Finset.Icc (seam 0).right (seam n).left, fold c < m) :
    ∑ a ∈ Finset.range m, Overlap.total (spanOverlaps (runSpans n seam) fold whole) t a =
      p (t + 1) - p t := by
  rw [← sum_part_between (h.at_pos t (by omega)) (h.at_pos (t + 1) (by omega)) (h.ordered t ht)]
  simp only [total_spanOverlaps ht]
  rw [Finset.sum_comm]
  refine Finset.sum_congr rfl fun c hc => ?_
  have hc := h.cells_subset ht hc
  rw [Finset.sum_ite_eq, if_pos (Finset.mem_range.mpr (hf c hc)), hw c hc]

/-- **Over all spans** the total of a source is what the run passes of its cells. -/
theorem sum_total_targets (a : Nat) :
    ∑ t ∈ Finset.range n, Overlap.total (spanOverlaps (runSpans n seam) fold whole) t a =
      ∑ c ∈ Finset.Icc (seam 0).right (seam n).left,
        if fold c = a then (seam n).passed c (whole c) - (seam 0).passed c (whole c) else 0 := by
  rw [Finset.sum_congr rfl fun t ht => h.total_eq hw (Finset.mem_range.mp ht) a, Finset.sum_comm]
  refine Finset.sum_congr rfl fun c _ => ?_
  split_ifs
  · exact Finset.sum_range_sub (fun t => (seam t).passed c (whole c)) n
  · exact Finset.sum_const_zero

/-- **The total is the common length**, if the seams lie inside their cells. -/
theorem total_eq_common (hx : Monotone x) {t : Nat} (ht : t < n) (hp : p t ≤ p (t + 1))
    (hin : (seam t).Inside) (hin' : (seam (t + 1)).Inside) (a : Nat) :
    Overlap.total (spanOverlaps (runSpans n seam) fold whole) t a =
      ∑ c ∈ Finset.Icc (seam 0).right (seam n).left,
        if fold c = a then common (p t) (p (t + 1)) (x c) (x (c + 1)) else 0 := by
  rw [h.total_eq hw ht]
  refine Finset.sum_congr rfl fun c hc => ?_
  have hat := h.at_pos t (by omega)
  have hat' := h.at_pos (t + 1) (by omega)
  rw [hw c hc, ← part_between hat' (h.ordered t ht),
    part_between_eq_common hx hat hat' (h.ordered t ht) hp hin hin']

/-- Overlaps are no negative amounts, if the seams lie inside their cells. -/
theorem amount_nonneg (hx : Monotone x) (hp : ∀ i, i < n → p i ≤ p (i + 1))
    (hin : ∀ i, i ≤ n → (seam i).Inside) {o : Overlap Rat}
    (ho : o ∈ spanOverlaps (runSpans n seam) fold whole) : 0 ≤ o.amount := by
  obtain ⟨hlt, c, -, -, hamount⟩ := h.mem_overlaps hw ho
  rw [hamount, part_between_eq_common hx (h.at_pos _ hlt.le) (h.at_pos _ hlt) (h.ordered _ hlt)
    (hp _ hlt) (hin _ hlt.le) (hin _ hlt)]
  exact common_nonneg _ _ _ _

end Totals

/-- Beyond the cells of a run nothing is in common with its spans. -/
theorem common_eq_zero (h : Run x p n seam) (hx : Monotone x) (hp : Monotone p)
    (hin : (seam 0).Inside) (hin' : (seam n).Inside) {i : Nat} (hi : i < n) {c : Int}
    (hc : c ∉ Finset.Icc (seam 0).right (seam n).left) :
    common (p i) (p (i + 1)) (x c) (x (c + 1)) = 0 := by
  have hfirst := (h.at_pos 0 (Nat.zero_le n)).before
  have hlast := (h.at_pos n le_rfl).beyond
  rw [Finset.mem_Icc, not_and_or, not_le, not_le] at hc
  refine common_eq_zero_of_le (hc.imp (fun hc => ?_) fun hc => ?_)
  · have h1 : x (c + 1) ≤ x (seam 0).right := hx (by omega)
    have h2 : p 0 ≤ p i := hp (Nat.zero_le i)
    have h3 := hin.1
    linarith
  · have h1 : x ((seam n).left + 1) ≤ x c := hx (by omega)
    have h2 : p (i + 1) ≤ p n := hp hi
    have h3 := hin'.2
    linarith

end Run

end Regrid

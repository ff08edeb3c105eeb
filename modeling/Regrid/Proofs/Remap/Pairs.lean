import Regrid.Proofs.Remap.Unbounded

/-!
# The list of overlapping bands

The overlaps of a run are listed by span, and for each span by cell (`Hntr.lat_overlaps`). Seams
inside their cells leave no part that is negative, so what is not zero is a common length, and it is
listed once.

* `pairwise_spanOverlaps`: a list of overlaps is in order if the sources of a span are.
* `Run.mem_overlaps_iff`: a list of overlaps has every pair of a span and a cell that have a length
  in common, with that length, and no other.
* `bandOverlaps_exact`: so it is for the bands of two lattices, and the free sweep that finds them
  reads no edge behind the last one.
-/

namespace Regrid

/-! ## The order of a list of overlaps -/

/-- By target, then by source. -/
def Overlap.Before (o o' : Overlap Rat) : Prop :=
  o.target < o'.target ∨ o.target = o'.target ∧ o.source < o'.source

theorem Span.pairwise_cells (s : Span Rat) : s.cells.Pairwise (· < ·) := by
  unfold Span.cells
  rw [List.pairwise_map]
  exact List.pairwise_lt_range.imp fun hab => by omega

/-- **Overlaps are listed in order**, and so each of them once, if the sources of each span are. -/
theorem pairwise_spanOverlaps {spans : List (Span Rat)} {fold : Int → Nat} {whole : Int → Rat}
    (hfold : ∀ s ∈ spans, ∀ c ∈ s.cells, ∀ d ∈ s.cells, c < d → fold c < fold d) :
    (spanOverlaps spans fold whole).Pairwise Overlap.Before := by
  have htarget : ∀ (s : Span Rat) (i : Nat), ∀ o ∈ (s.cells.map fun c =>
      (⟨i, fold c, s.share c (whole c)⟩ : Overlap Rat)).filter (fun o => o.amount != 0),
        o.target = i := by
    intro s i o ho
    obtain ⟨c, -, rfl⟩ := List.mem_map.mp (List.mem_filter.mp ho).1
    rfl
  unfold spanOverlaps
  rw [List.pairwise_flatMap]
  refine ⟨fun ⟨s, i⟩ hs => ?_, (pairwise_zipIdx spans).imp fun {x y} hxy o ho o' ho' => ?_⟩
  · refine List.Pairwise.filter _ (List.pairwise_map.mpr ?_)
    exact s.pairwise_cells.imp_of_mem fun hc hd hcd =>
      Or.inr ⟨rfl, hfold s (List.fst_mem_of_mem_zipIdx hs) _ hc _ hd hcd⟩
  · left
    rw [htarget x.1 x.2 o ho, htarget y.1 y.2 o' ho']
    exact hxy

/-! ## What is in a list of overlaps -/

/-- A cell that counts for a span is listed. -/
theorem mem_spanOverlaps_of_part {spans : List (Span Rat)} {fold : Int → Nat} {whole : Int → Rat}
    {i : Nat} {s : Span Rat} (hs : spans[i]? = some s) {c : Int} (hne : s.part c (whole c) ≠ 0) :
    ⟨i, fold c, s.part c (whole c)⟩ ∈ spanOverlaps spans fold whole := by
  have hc : s.first ≤ c ∧ c ≤ s.last := by
    by_contra hout
    exact hne (Span.part_of_not_mem hout _)
  unfold spanOverlaps
  refine List.mem_flatMap.mpr ⟨(s, i), List.mem_zipIdx_iff_getElem?.mpr hs, ?_⟩
  refine List.mem_filter.mpr ⟨List.mem_map.mpr ⟨c, Span.mem_cells.mpr hc, ?_⟩, by simpa using hne⟩
  rw [Span.part_of_mem hc]

namespace Run

variable {x : Int → Rat} {p : Nat → Rat} {n : Nat} {seam : Nat → Seam Rat} {fold : Int → Nat}
  {whole : Int → Rat}

/-- **The list of a run** has the pairs of a span and a cell with a length in common, and that
length, if the seams lie inside their cells. -/
theorem mem_overlaps_iff (h : Run x p n seam)
    (hw : ∀ c ∈ Finset.Icc (seam 0).right (seam n).left, whole c = x (c + 1) - x c)
    (hx : Monotone x) (hp : ∀ i, i < n → p i ≤ p (i + 1)) (hin : ∀ i, i ≤ n → (seam i).Inside)
    {o : Overlap Rat} : o ∈ spanOverlaps (runSpans n seam) fold whole ↔
      o.target < n ∧ 0 < o.amount ∧ ∃ c ∈ Finset.Icc (seam 0).right (seam n).left,
        o.source = fold c ∧
          o.amount = common (p o.target) (p (o.target + 1)) (x c) (x (c + 1)) := by
  have hpart : ∀ t, t < n → ∀ c,
      (Span.between (seam t) (seam (t + 1))).part c (x (c + 1) - x c) =
        common (p t) (p (t + 1)) (x c) (x (c + 1)) := fun t ht c =>
    part_between_eq_common hx (h.at_pos t ht.le) (h.at_pos (t + 1) ht) (h.ordered t ht) (hp t ht)
      (hin t ht.le) (hin (t + 1) ht) c
  constructor
  · intro ho
    obtain ⟨-, -, hne, -⟩ := mem_spanOverlaps ho
    obtain ⟨hlt, c, hc, hsource, hamount⟩ := h.mem_overlaps hw ho
    exact ⟨hlt, (h.amount_nonneg hw hx hp hin ho).lt_of_ne' hne, c, hc, hsource,
      hamount.trans (hpart _ hlt c)⟩
  · rintro ⟨hlt, hpos, c, hc, hsource, hamount⟩
    have hcell :
        (Span.between (seam o.target) (seam (o.target + 1))).part c (whole c) = o.amount := by
      rw [hw c hc, hpart _ hlt c, hamount]
    have hspan : (runSpans n seam)[o.target]? =
        some (Span.between (seam o.target) (seam (o.target + 1))) := by
      rw [runSpans, List.getElem?_map, List.getElem?_range hlt, Option.map_some]
    have hmem : (⟨o.target, fold c, _⟩ : Overlap Rat) ∈ spanOverlaps (runSpans n seam) fold whole :=
      mem_spanOverlaps_of_part hspan (hcell.trans_ne hpos.ne')
    rwa [hcell, ← hsource] at hmem

end Run

/-! ## Bands -/

/-- Where two intervals have a length in common, it reaches from the later beginning to the earlier
end. -/
theorem common_of_pos {a b c d : Rat} (h : 0 < common a b c d) :
    common a b c d = min b d - max a c := by
  unfold common at h ⊢
  rcases lt_max_iff.mp h with h | h
  · exact absurd h (lt_irrefl _)
  · exact max_eq_right h.le

namespace Remap

variable {r : Remap Rat} (hs : r.source.Partition) (ht : r.target.Partition)
include hs ht

theorem mem_bandOverlaps_iff {o : Overlap Rat} : o ∈ r.bandOverlaps ↔
    o.target < r.target.rows ∧ o.source < r.source.rows ∧ 0 < o.amount ∧
      o.amount = common (r.target.edge o.target) (r.target.edge (o.target + 1))
        (r.source.edge o.source) (r.source.edge (o.source + 1)) := by
  have hruler : ∀ k : Nat, k < r.source.rows → r.source.ruler k = r.source.edge k ∧
      r.source.ruler ((k : Int) + 1) = r.source.edge (k + 1) := fun k hk =>
    ⟨Lattice.ruler_natCast hk.le, by exact_mod_cast Lattice.ruler_natCast (l := r.source) hk⟩
  rw [bandOverlaps_eq, bandSpans_eq hs ht, (bandRun hs ht).mem_overlaps_iff
    (fun c hc => band_eq_ruler hs ht hc) hs.ruler_mono (fun j hj => (ht.increasing j hj).le)
    fun j hj => (bandSeam_at hs ht hj).2, bandRun_cells hs ht]
  constructor
  · rintro ⟨hj, hpos, c, hc, hsource, hamount⟩
    rw [Finset.mem_Icc] at hc
    obtain ⟨k, rfl⟩ := Int.eq_ofNat_of_zero_le hc.1
    obtain rfl : o.source = k := hsource
    obtain ⟨hsouth, hnorth⟩ := hruler o.source (by omega)
    exact ⟨hj, by omega, hpos, by rw [hamount, hsouth, hnorth]⟩
  · rintro ⟨hj, hk, hpos, hamount⟩
    obtain ⟨hsouth, hnorth⟩ := hruler o.source hk
    exact ⟨hj, hpos, o.source, Finset.mem_Icc.mpr (by omega), rfl, by rw [hamount, hsouth, hnorth]⟩

/-- The pairs of bands are listed by target band, then by source band. -/
theorem pairwise_bandOverlaps : r.bandOverlaps.Pairwise Overlap.Before := by
  rw [bandOverlaps_eq, bandSpans_eq hs ht]
  refine pairwise_spanOverlaps fun s hsp c hc d _ hcd => ?_
  obtain ⟨t, hlt, rfl⟩ := List.mem_map.mp hsp
  have hcell := (bandRun hs ht).cells_subset (List.mem_range.mp hlt)
    (Finset.mem_Icc.mpr (Span.mem_cells.mp hc))
  rw [bandRun_cells hs ht, Finset.mem_Icc] at hcell
  omega

/-- **The list of overlapping bands**: the free sweep from pole to pole reads no edge behind the
last one, and the list has exactly the pairs of bands with a length in common, in order, each once,
and with the length from the later southern edge to the earlier northern one. -/
theorem bandOverlaps_exact :
    r.freeBandSeams = Part.some r.bandSeams ∧
    (∀ o, o ∈ r.bandOverlaps ↔ o.target < r.target.rows ∧ o.source < r.source.rows ∧
      0 < common (r.target.edge o.target) (r.target.edge (o.target + 1))
        (r.source.edge o.source) (r.source.edge (o.source + 1)) ∧
      o.amount = min (r.target.edge (o.target + 1)) (r.source.edge (o.source + 1))
        - max (r.target.edge o.target) (r.source.edge o.source)) ∧
    r.bandOverlaps.Pairwise fun o o' =>
      o.target < o'.target ∨ o.target = o'.target ∧ o.source < o'.source := by
  refine ⟨freeBandSeams_eq hs ht, fun o => ?_, pairwise_bandOverlaps hs ht⟩
  rw [mem_bandOverlaps_iff hs ht]
  constructor
  · rintro ⟨hj, hk, hpos, hamount⟩
    rw [hamount] at hpos
    exact ⟨hj, hk, hpos, hamount.trans (common_of_pos hpos)⟩
  · rintro ⟨hj, hk, hpos, hamount⟩
    rw [← common_of_pos hpos] at hamount
    exact ⟨hj, hk, hamount ▸ hpos, hamount⟩

omit hs ht in
/-- Two target bands inside one source band, of which the northern one ends where it ends. -/
theorem bandOverlaps_exact_inside :
    Lattice.Partition ⟨1, 0, #[-1, 0, 1]⟩ ∧ Lattice.Partition ⟨1, 0, #[-1, -1/2, -1/4, 0, 1]⟩ ∧
    let r : Remap Rat := ⟨⟨1, 0, #[-1, 0, 1]⟩, ⟨1, 0, #[-1, -1/2, -1/4, 0, 1]⟩⟩
    r.freeBandSeams = Part.some r.bandSeams ∧
      ⟨1, 0, 1/4⟩ ∈ r.bandOverlaps ∧ ⟨2, 0, 1/4⟩ ∈ r.bandOverlaps ∧
      r.bandOverlaps.map (fun o => (o.target, o.source)) = [(0, 0), (1, 0), (2, 0), (3, 1)] := by
  have hs : Lattice.Partition ⟨1, 0, #[-1, 0, 1]⟩ := by decide +kernel
  have ht : Lattice.Partition ⟨1, 0, #[-1, -1/2, -1/4, 0, 1]⟩ := by decide +kernel
  obtain ⟨hread, hmem, -⟩ := bandOverlaps_exact (r := ⟨_, _⟩) hs ht
  exact ⟨hs, ht, hread, (hmem _).mpr (by decide +kernel), (hmem _).mpr (by decide +kernel),
    by decide +kernel⟩

end Remap

end Regrid

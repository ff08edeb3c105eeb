import Mathlib.Data.List.GetD
import Regrid.Proofs.LatLon.Partition
import Regrid.Proofs.Remap.Run

/-!
# The sweep from pole to pole

The sweep is that of `Hntr._partition_north_south`. Positions are sines of latitude, on the ruler of
the source edges. `bandRun` says that the seams of the target bands form a run from pole to pole,
and that each lies inside the bands it cuts, for all increasing edges.

* `bandTotal_eq_common`: what two bands overlap in all is the length they have in common.
* `sum_bandTotal_sources`, `sum_bandTotal_targets`: over all source bands, or over all target bands,
  that is the extent of the other one.
-/

namespace Regrid

namespace Lattice

variable {l : Lattice Rat} {sine : Rat}

/-! ## Moving north -/

theorem le_bandAt (n j : Nat) : j ≤ l.bandAt sine n j := by
  induction n generalizing j with
  | zero => exact le_refl _
  | succ n ih =>
    unfold bandAt
    split
    · exact (Nat.le_succ j).trans (ih (j + 1))
    · exact le_refl _

/-- A sweep that moves has the position north of the southern edge of its band. -/
theorem bandAt_eq_or (n j : Nat) :
    l.bandAt sine n j = j ∨ l.edge (l.bandAt sine n j) < sine := by
  induction n generalizing j with
  | zero => exact Or.inl rfl
  | succ n ih =>
    unfold bandAt
    split
    · rename_i hlt
      right
      rcases ih (j + 1) with h | h
      · rw [h]
        exact hlt
      · exact h
    · exact Or.inl rfl

/-- South of the northern pole the sweep finds a band. -/
theorem bandAt_spec (hp : sine ≤ l.edge l.rows) : ∀ (n : Nat) {j : Nat}, j < l.rows →
    j + n = l.rows → l.bandAt sine n j < l.rows ∧ sine ≤ l.edge (l.bandAt sine n j + 1)
  | 0, _, hj, hn => absurd hj (by omega)
  | n + 1, j, hj, hn => by
    unfold bandAt
    split
    · rename_i hlt
      have hne : j + 1 ≠ l.rows := fun he => absurd hp (not_le.mpr (he ▸ hlt))
      exact bandAt_spec hp n (by omega) (by omega)
    · exact ⟨hj, not_lt.mp ‹_›⟩

/-! ## One seam -/

/-- The seam at a sine, and the band behind it, from a band before it. -/
structure BandLands (l : Lattice Rat) (sine : Rat) (j : Nat) (s : Seam Rat) (j' : Nat) : Prop where
  at_pos : s.At l.ruler sine
  inside : s.Inside
  le_left : (j : Int) ≤ s.left
  right : s.right = j'
  lt_rows : j' < l.rows
  edge_le : l.edge j' ≤ sine

theorem bandSeam_lands (hl : l.Partition) {j : Nat} (hj : j < l.rows) (hedge : l.edge j ≤ sine)
    (hp : sine < 1) : BandLands l sine j (l.bandSeam sine j).1 (l.bandSeam sine j).2 := by
  have hpole : sine ≤ l.edge l.rows := by
    rw [hl.north]
    exact hp.le
  obtain ⟨k, hk⟩ : ∃ k, l.bandAt sine (l.rows - j) j = k := ⟨_, rfl⟩
  have hle : j ≤ k := hk ▸ le_bandAt _ _
  have hmove : k = j ∨ l.edge k < sine := hk ▸ bandAt_eq_or _ _
  obtain ⟨hlt, hnorth⟩ : k < l.rows ∧ sine ≤ l.edge (k + 1) :=
    hk ▸ bandAt_spec hpole (l.rows - j) hj (by omega)
  unfold bandSeam
  rw [hk]
  have hsouth : l.edge k ≤ sine := by
    rcases hmove with rfl | h
    · exact hedge
    · exact h.le
  have hk0 : l.ruler k = l.edge k := ruler_natCast hlt.le
  have hk1 : l.ruler ((k : Int) + 1) = l.edge (k + 1) := by
    exact_mod_cast ruler_natCast (l := l) (j := k + 1) (by omega)
  simp only [beq_iff_eq]
  split
  · rename_i heq
    have hne : k + 1 ≠ l.rows := by
      intro he
      rw [he, hl.north] at heq
      exact absurd hp (by rw [heq]; exact lt_irrefl _)
    refine ⟨⟨Or.inr ⟨rfl, rfl⟩, ?_, ?_⟩, ⟨le_refl _, le_refl _⟩, Int.ofNat_le.mpr hle,
      by push_cast; rfl, by simp only; omega, heq.le⟩
    · simp only
      rw [hk1, heq, sub_zero]
    · simp only
      rw [hk1, heq, add_zero]
  · refine ⟨⟨Or.inl rfl, ?_, ?_⟩, ⟨sub_nonneg.mpr hsouth, sub_nonneg.mpr hnorth⟩,
      Int.ofNat_le.mpr hle, rfl, hlt, hsouth⟩
    · simp only
      rw [hk1, sub_sub_cancel]
    · simp only
      rw [hk0, add_sub_cancel]

/-! ## All seams -/

theorem bandSweep_cons (l : Lattice Rat) (j : Nat) (p : Rat) (ps : List Rat) :
    l.bandSweep j (p :: ps) = (l.bandSeam p j).1 :: l.bandSweep (l.bandSeam p j).2 ps :=
  rfl

/-- Every seam of a sweep to increasing sines lies at its sine, inside its bands, behind the seam
before it and before the northernmost band. -/
theorem bandSweep_spec (hl : l.Partition) : ∀ (ps : List Rat) {j : Nat}, j < l.rows →
    ps.Pairwise (· ≤ ·) → (∀ p ∈ ps, l.edge j ≤ p ∧ p < 1) →
    List.Forall₂ (fun s p => s.At l.ruler p ∧ s.Inside) (l.bandSweep j ps) ps ∧
      (∀ s ∈ l.bandSweep j ps, (j : Int) ≤ s.left ∧ s.right < l.rows) ∧
      (l.bandSweep j ps).Pairwise fun w e => w.right ≤ e.left
  | [], _, _, _, _ => ⟨List.Forall₂.nil, fun _ h => absurd h List.not_mem_nil, List.Pairwise.nil⟩
  | p :: ps, j, hj, hps, hbound => by
    obtain ⟨hp, hps⟩ := List.pairwise_cons.mp hps
    obtain ⟨hjp, hp1⟩ := hbound p List.mem_cons_self
    have h := bandSeam_lands hl hj hjp hp1
    obtain ⟨hat, hmem, hord⟩ := bandSweep_spec hl ps h.lt_rows hps fun q hq =>
      ⟨h.edge_le.trans (hp q hq), (hbound q (List.mem_cons_of_mem p hq)).2⟩
    have hlr := h.at_pos.left_le_right
    have hleft := h.le_left
    have hright := h.right
    have hlt := h.lt_rows
    rw [bandSweep_cons]
    refine ⟨List.Forall₂.cons ⟨h.at_pos, h.inside⟩ hat, fun s hs => ?_,
      List.pairwise_cons.mpr ⟨fun e he => ?_, hord⟩⟩
    · rcases List.mem_cons.mp hs with rfl | hs
      · exact ⟨hleft, by omega⟩
      · have := hmem s hs
        exact ⟨by omega, this.2⟩
    · have := (hmem e he).1
      omega

end Lattice

namespace Remap

variable {r : Remap Rat}

/-- The seam at the southern edge of a target band, and that at the northern pole. -/
def bandSeam (r : Remap Rat) (j : Nat) : Seam Rat := r.bandSeams.getD j ⟨0, 0, 0, 0⟩

/-- The total overlap of a target and a source band, in sine of latitude. -/
def bandTotal (r : Remap Rat) (j k : Nat) : Rat := Overlap.total r.bandOverlaps j k

/-! ## The seams of the bands are a run -/

/-- The sines between the target bands. -/
def innerEdges (r : Remap Rat) : List Rat :=
  (List.range (r.target.rows - 1)).map fun j => r.target.edge (j + 1)

theorem bandSeams_eq (r : Remap Rat) : r.bandSeams =
    ⟨-1, 0, 0, 0⟩ :: (r.source.bandSweep 0 r.innerEdges
      ++ [⟨r.source.rows - 1, 0, r.source.rows, 0⟩]) :=
  rfl

theorem edges_eq (ht : r.target.Partition) :
    (-1 : Rat) :: (r.innerEdges ++ [1]) = (List.range (r.target.rows + 1)).map r.target.edge := by
  obtain ⟨m, hm⟩ : ∃ m, r.target.rows = m + 1 := ⟨r.target.rows - 1, by have := ht.rows_pos; omega⟩
  have hn := ht.north
  rw [hm] at hn
  unfold innerEdges
  rw [hm, Nat.add_sub_cancel, List.range_succ, List.map_append, List.range_succ_eq_map,
    List.map_cons, List.map_map, ht.south, List.map_singleton, hn]
  rfl

variable (hs : r.source.Partition) (ht : r.target.Partition)
include hs ht

/-- The sines between the target bands increase, from the southern pole to below the northern. -/
theorem innerEdges_increasing : r.innerEdges.Pairwise (· ≤ ·) ∧
    ∀ p ∈ r.innerEdges, r.source.edge 0 ≤ p ∧ p < 1 := by
  refine ⟨?_, fun p hp => ?_⟩
  · rw [innerEdges, List.pairwise_map]
    refine List.pairwise_lt_range.imp_of_mem fun {a b} ha hb hab => ?_
    rw [List.mem_range] at hb
    exact ht.edge_le (by omega) (by omega)
  · simp only [innerEdges, List.mem_map, List.mem_range] at hp
    obtain ⟨j, hj, rfl⟩ := hp
    rw [hs.south, ← ht.south, ← ht.north]
    exact ⟨ht.edge_le (Nat.zero_le _) (by omega), ht.edge_lt (by omega) le_rfl⟩

theorem innerEdges_spec : List.Forall₂ (fun s p => s.At r.source.ruler p ∧ s.Inside)
      (r.source.bandSweep 0 r.innerEdges) r.innerEdges ∧
    (∀ s ∈ r.source.bandSweep 0 r.innerEdges, (0 : Int) ≤ s.left ∧ s.right < r.source.rows) ∧
    (r.source.bandSweep 0 r.innerEdges).Pairwise fun w e => w.right ≤ e.left := by
  obtain ⟨hsorted, hbound⟩ := innerEdges_increasing hs ht
  exact Lattice.bandSweep_spec hs r.innerEdges hs.rows_pos hsorted hbound

theorem bandSeams_at : List.Forall₂ (fun s p => s.At r.source.ruler p ∧ s.Inside) r.bandSeams
    ((List.range (r.target.rows + 1)).map r.target.edge) := by
  have h0 : r.source.ruler 0 = -1 := by
    exact_mod_cast (Lattice.ruler_natCast (Nat.zero_le _)).trans hs.south
  have h1 : r.source.ruler r.source.rows = 1 := (Lattice.ruler_natCast le_rfl).trans hs.north
  rw [bandSeams_eq, ← edges_eq ht]
  refine List.Forall₂.cons ⟨⟨Or.inr ⟨rfl, rfl⟩, ?_, ?_⟩, le_refl _, le_refl _⟩
    (List.rel_append (innerEdges_spec hs ht).1
      (List.Forall₂.cons ⟨⟨Or.inr ⟨?_, rfl⟩, ?_, ?_⟩, le_refl _, le_refl _⟩ List.Forall₂.nil))
  · simp only
    rw [neg_add_cancel, h0, sub_zero]
  · simp only
    rw [h0, add_zero]
  · simp only
    omega
  · simp only
    rw [sub_add_cancel, h1, sub_zero]
  · simp only
    rw [h1, add_zero]

theorem bandSeams_ordered : r.bandSeams.Pairwise fun w e => w.right ≤ e.left := by
  obtain ⟨-, hmem, hord⟩ := innerEdges_spec hs ht
  have hpos := hs.rows_pos
  rw [bandSeams_eq, List.pairwise_cons, List.pairwise_append]
  refine ⟨fun e he => ?_, hord, List.pairwise_singleton _ _, fun w hw e he => ?_⟩
  · rcases List.mem_append.mp he with he | he
    · exact (hmem e he).1
    · rw [List.mem_singleton.mp he]
      simp only
      omega
  · rw [List.mem_singleton.mp he]
    have := (hmem w hw).2
    simp only
    omega

theorem length_bandSeams : r.bandSeams.length = r.target.rows + 1 := by
  rw [(bandSeams_at hs ht).length_eq, List.length_map, List.length_range]

theorem lt_length_bandSeams {j : Nat} (hj : j ≤ r.target.rows) : j < r.bandSeams.length := by
  rw [length_bandSeams hs ht]
  omega

omit hs ht in
theorem bandSeam_eq_getElem {j : Nat} (h : j < r.bandSeams.length) :
    r.bandSeam j = r.bandSeams[j] := by
  rw [bandSeam, ← List.getElem_eq_getD]

theorem bandSeam_at {j : Nat} (hj : j ≤ r.target.rows) :
    (r.bandSeam j).At r.source.ruler (r.target.edge j) ∧ (r.bandSeam j).Inside := by
  have h := (List.forall₂_iff_get.mp (bandSeams_at hs ht)).2 j
    (lt_length_bandSeams hs ht hj) (by simp; omega)
  rw [bandSeam_eq_getElem (lt_length_bandSeams hs ht hj)]
  simpa using h

/-- **The seams of the target bands form a run** from pole to pole. -/
theorem bandRun : Run r.source.ruler r.target.edge r.target.rows r.bandSeam := by
  refine ⟨fun j hj => (bandSeam_at hs ht hj).1, fun j hj => ?_⟩
  rw [bandSeam_eq_getElem (lt_length_bandSeams hs ht hj.le),
    bandSeam_eq_getElem (lt_length_bandSeams hs ht hj)]
  exact List.pairwise_iff_getElem.mp (bandSeams_ordered hs ht) j (j + 1) _ _ (Nat.lt_succ_self j)

/-! ## Totals -/

omit hs ht in
theorem bandOverlaps_eq (r : Remap Rat) : r.bandOverlaps =
    spanOverlaps r.bandSpans Int.toNat fun k => r.source.band k.toNat :=
  rfl

theorem bandSpans_eq : r.bandSpans = runSpans r.target.rows r.bandSeam := by
  rw [bandSpans, ofSeams_eq_runSpans _ ⟨0, 0, 0, 0⟩, length_bandSeams hs ht, Nat.add_sub_cancel]
  rfl

omit hs ht in
theorem bandSeam_zero (r : Remap Rat) : r.bandSeam 0 = ⟨-1, 0, 0, 0⟩ :=
  rfl

theorem bandSeam_last :
    r.bandSeam r.target.rows = ⟨r.source.rows - 1, 0, r.source.rows, 0⟩ := by
  have hlen := length_bandSeams hs ht
  rw [bandSeams_eq, List.length_cons, List.length_append, List.length_singleton,
    Nat.add_right_cancel_iff] at hlen
  rw [bandSeam, bandSeams_eq, ← hlen, List.getD_cons_succ,
    List.getD_append_right _ _ _ _ le_rfl, Nat.sub_self]
  rfl

/-- The run covers the source bands. -/
theorem bandRun_cells : Finset.Icc (r.bandSeam 0).right (r.bandSeam r.target.rows).left =
    Finset.Icc 0 ((r.source.rows : Int) - 1) := by
  rw [bandSeam_zero, bandSeam_last hs ht]

theorem band_eq_ruler {c : Int}
    (hc : c ∈ Finset.Icc (r.bandSeam 0).right (r.bandSeam r.target.rows).left) :
    r.source.band c.toNat = r.source.ruler (c + 1) - r.source.ruler c := by
  rw [bandRun_cells hs ht, Finset.mem_Icc] at hc
  have h1 : min (c + 1).toNat r.source.rows = c.toNat + 1 := by omega
  have h2 : min c.toNat r.source.rows = c.toNat := by omega
  unfold Lattice.ruler Lattice.band
  rw [h1, h2]

/-- A source band is one cell of the run. -/
theorem sum_cells_band {k : Nat} (hk : k < r.source.rows) (f : Int → Rat) :
    (∑ c ∈ Finset.Icc (r.bandSeam 0).right (r.bandSeam r.target.rows).left,
      if c.toNat = k then f c else 0) = f k := by
  rw [bandRun_cells hs ht, Finset.sum_eq_single (k : Int)]
  · rw [if_pos (Int.toNat_natCast k)]
  · intro c hc hne
    rw [Finset.mem_Icc] at hc
    exact if_neg (by omega)
  · intro h
    exact absurd (Finset.mem_Icc.mpr (by omega)) h

/-- **A target band meets as much of the source as its own extent.** -/
theorem sum_bandTotal_sources {j : Nat} (hj : j < r.target.rows) :
    ∑ k ∈ Finset.range r.source.rows, r.bandTotal j k = r.target.band j := by
  unfold bandTotal
  rw [bandOverlaps_eq, bandSpans_eq hs ht, (bandRun hs ht).sum_total_sources
    (fun c hc => band_eq_ruler hs ht hc) hj fun c hc => ?_]
  · rfl
  · rw [bandRun_cells hs ht, Finset.mem_Icc] at hc
    omega

/-- **A source band is met in its whole extent.** -/
theorem sum_bandTotal_targets {k : Nat} (hk : k < r.source.rows) :
    ∑ j ∈ Finset.range r.target.rows, r.bandTotal j k = r.source.band k := by
  unfold bandTotal
  rw [bandOverlaps_eq, bandSpans_eq hs ht, (bandRun hs ht).sum_total_targets
    (fun c hc => band_eq_ruler hs ht hc), sum_cells_band hs ht hk, bandSeam_last hs ht,
    bandSeam_zero]
  unfold Seam.passed
  simp only
  rw [if_pos (by omega), if_neg (by omega), ite_self, sub_zero, Int.toNat_natCast]

/-- **Two bands overlap in the length they have in common.** -/
theorem bandTotal_eq_common {j k : Nat} (hj : j < r.target.rows) (hk : k < r.source.rows) :
    r.bandTotal j k =
      common (r.target.edge j) (r.target.edge (j + 1))
        (r.source.edge k) (r.source.edge (k + 1)) := by
  unfold bandTotal
  rw [bandOverlaps_eq, bandSpans_eq hs ht, (bandRun hs ht).total_eq_common
    (fun c hc => band_eq_ruler hs ht hc) hs.ruler_mono hj (ht.increasing j hj).le
    (bandSeam_at hs ht hj.le).2 (bandSeam_at hs ht hj).2, sum_cells_band hs ht hk,
    Lattice.ruler_natCast hk.le]
  congr 1
  exact_mod_cast Lattice.ruler_natCast hk

end Remap

end Regrid

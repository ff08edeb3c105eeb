import Mathlib.Data.PFun
import Regrid.Proofs.Outcome
import Regrid.Proofs.Remap.Bands
import Regrid.Proofs.Remap.Columns

/-!
# Sweeps without a bound

A sweep moves its cursor at most as often as was reckoned beforehand, and reads a zero where there
is no edge. A free sweep, like the loops of `Hntr`, moves it for as long as it has to, perhaps for
ever, and reads only edges that are there. It is a partial function (`Part`), without a value where
it does not come to an end or looks for an edge behind the last one.

* `freeColumnSeams_eq`: the free sweep around the circle ends for all offsets, with the seams of the
  bounded one. It would not with columns of no width (`freeAdvance_eq_none`).
* `freeBandSeams_eq`: the free sweep from pole to pole ends and finds every edge it reads, with the
  seams of the bounded one. It would not for a sine north of all edges (`freeBandAt_eq_none`).
-/

namespace Regrid

/-! ## Around the circle -/

namespace ColumnCursor

variable {α : Type} [Scalar α]

/-- Move east by columns of a width for as long as the eastern edge is west of a position. -/
def freeAdvance (width position : α) : ColumnCursor α →. ColumnCursor α :=
  PFun.fix fun c =>
    pure (if c.edge < position then .inr ⟨c.cell + 1, c.edge + width⟩ else .inl c)

/-- The seam at a position, and the cursor behind it. -/
def freeSeam (width position : α) (c : ColumnCursor α) : Part (Seam α × ColumnCursor α) := do
  let c ← freeAdvance width position c
  if c.edge == position then
    return (⟨c.cell, 0, c.cell + 1, 0⟩, ⟨c.cell + 1, c.edge + width⟩)
  else
    let beyond := (c.edge - position) / width
    return (⟨c.cell, beyond, c.cell, 1 - beyond⟩, c)

/-- The seams at positions from west to east. -/
def freeSweep (width : α) : ColumnCursor α → List α → Part (List (Seam α))
  | _, [] => return []
  | c, p :: ps => do
    let (s, c') ← c.freeSeam width p
    return s :: (← freeSweep width c' ps)

section

variable {width position : α} {c : ColumnCursor α}

theorem freeAdvance_stop (h : ¬ c.edge < position) : freeAdvance width position c = Part.some c :=
  Part.eq_some_iff.mpr <| PFun.fix_stop <| Part.mem_some_iff.mpr (if_neg h).symm

theorem freeAdvance_move (h : c.edge < position) :
    freeAdvance width position c = freeAdvance width position ⟨c.cell + 1, c.edge + width⟩ :=
  PFun.fix_fwd_eq <| Part.mem_some_iff.mpr (if_pos h).symm

/-- A bounded move that reaches the position is the whole move. -/
theorem freeAdvance_of_reached {n : Nat} (h : ¬ (c.advance width position n).edge < position) :
    freeAdvance width position c = Part.some (c.advance width position n) := by
  induction n generalizing c with
  | zero => exact freeAdvance_stop h
  | succ n ih =>
    unfold advance at h ⊢
    split at h
    · rename_i hlt
      rw [freeAdvance_move hlt, if_pos hlt]
      exact ih h
    · rename_i hreached
      rw [freeAdvance_stop hreached, if_neg hreached]

end

/-- Over columns of no width a cursor west of the position never reaches it. -/
theorem freeAdvance_eq_none {position : Rat} {c : ColumnCursor Rat} (h : c.edge < position) :
    freeAdvance 0 position c = Part.none := by
  refine Part.eq_none_iff.mpr fun d hd => ?_
  -- a cursor from which the move ends is at the position already
  refine PFun.fixInduction' (C := fun c => ¬ c.edge < position) hd (fun c hc hlt => ?_)
    (fun c c' _ hc hreached hlt => ?_) h
  · rw [if_pos hlt] at hc
    cases Part.mem_some_iff.mp hc
  · rw [if_pos hlt] at hc
    cases Part.mem_some_iff.mp hc
    exact hreached (by simpa using hlt)

variable {width : Rat}

theorem freeSeam_eq (hw : 0 < width) (position : Rat) (c : ColumnCursor Rat) :
    c.freeSeam width position = Part.some (c.seam width position) := by
  unfold freeSeam seam
  rw [freeAdvance_of_reached (not_lt.mpr (le_edge_advance_stepsTo hw))]
  generalize c.advance width position (c.stepsTo width position) = d
  rw [Part.bind_eq_bind, Part.bind_some]
  dsimp only
  split <;> rfl

/-- **A free sweep eastward ends**, whatever the positions are. -/
theorem freeSweep_eq (hw : 0 < width) : ∀ (ps : List Rat) (c : ColumnCursor Rat),
    c.freeSweep width ps = Part.some (c.sweep width ps)
  | [], _ => rfl
  | p :: ps, c => by
    have hrest := freeSweep_eq hw ps (c.seam width p).2
    simp only [freeSweep, freeSeam_eq hw, Part.bind_eq_bind, Part.bind_some, hrest]
    rfl

end ColumnCursor

/-! ## From pole to pole -/

namespace Lattice

section

variable {α : Type} [Scalar α]

/-- The first band at or after a band whose northern edge is not south of a sine of latitude. -/
def freeBandAt (l : Lattice α) (sine : α) : Nat →. Nat :=
  PFun.fix fun j => do
    let north ← Part.ofOption l.edges[j + 1]?
    return if north < sine then .inr (j + 1) else .inl j

/-- The seam at a sine of latitude, looked for from band `j` on, and the band behind it. -/
def freeBandSeam (l : Lattice α) (sine : α) (j : Nat) : Part (Seam α × Nat) := do
  let j ← l.freeBandAt sine j
  let north ← Part.ofOption l.edges[j + 1]?
  if north == sine then
    return (⟨j, 0, j + 1, 0⟩, j + 1)
  else
    let south ← Part.ofOption l.edges[j]?
    return (⟨j, north - sine, j, sine - south⟩, j)

/-- The seams at sines of latitude from south to north, looked for from band `j` on. -/
def freeBandSweep (l : Lattice α) : Nat → List α → Part (List (Seam α))
  | _, [] => return []
  | j, p :: ps => do
    let (s, j') ← l.freeBandSeam p j
    return s :: (← freeBandSweep l j' ps)

variable {l : Lattice α} {sine north : α} {j : Nat}

theorem freeBandAt_stop (hnorth : l.edges[j + 1]? = some north) (h : ¬ north < sine) :
    l.freeBandAt sine j = Part.some j :=
  Part.eq_some_iff.mpr <| PFun.fix_stop <| by simp [hnorth, h]

theorem freeBandAt_move (hnorth : l.edges[j + 1]? = some north) (h : north < sine) :
    l.freeBandAt sine j = l.freeBandAt sine (j + 1) :=
  PFun.fix_fwd_eq <| by simp [hnorth, h]

/-- North of all edges a search runs past the last one. -/
theorem freeBandAt_eq_none (h : ∀ north ∈ l.edges, north < sine) (j : Nat) :
    l.freeBandAt sine j = Part.none := by
  refine Part.eq_none_iff.mpr fun k hk => ?_
  refine PFun.fixInduction' (C := fun _ => False) hk (fun j hj => ?_) (fun _ _ _ _ hfalse => hfalse)
  obtain ⟨north, hnorth, hj⟩ := Part.mem_bind_iff.mp hj
  rw [if_pos (h north (Array.mem_of_getElem? (Part.mem_ofOption.mp hnorth)))] at hj
  cases Part.mem_some_iff.mp hj

end

variable {l : Lattice Rat} {sine : Rat}

theorem getElem?_edges {j : Nat} (hpos : 0 < l.rows) (hj : j ≤ l.rows) :
    l.edges[j]? = some (l.edge j) := by
  have hlt : j < l.edges.size := by
    unfold rows at hpos hj
    omega
  unfold edge
  simp [Array.getD, hlt]

/-- South of the northern pole a search ends before the last edge. -/
theorem freeBandAt_eq (hp : sine ≤ l.edge l.rows) : ∀ (n : Nat) {j : Nat}, j < l.rows →
    j + n = l.rows → l.freeBandAt sine j = Part.some (l.bandAt sine n j)
  | 0, _, hj, hn => absurd hj (by omega)
  | n + 1, j, hj, hn => by
    have hnorth : l.edges[j + 1]? = some (l.edge (j + 1)) := getElem?_edges (by omega) hj
    unfold bandAt
    split
    · rename_i hlt
      have hne : j + 1 ≠ l.rows := fun he => absurd hp (not_le.mpr (he ▸ hlt))
      rw [freeBandAt_move hnorth hlt]
      exact freeBandAt_eq hp n (by omega) (by omega)
    · rename_i hge
      exact freeBandAt_stop hnorth hge

theorem freeBandSeam_eq {j : Nat} (hj : j < l.rows) (hp : sine ≤ l.edge l.rows) :
    l.freeBandSeam sine j = Part.some (l.bandSeam sine j) := by
  have hsteps : j + (l.rows - j) = l.rows := by omega
  obtain ⟨hlt, -⟩ := bandAt_spec hp (l.rows - j) hj hsteps
  unfold freeBandSeam bandSeam
  rw [freeBandAt_eq hp (l.rows - j) hj hsteps]
  generalize l.bandAt sine (l.rows - j) j = k at hlt
  simp only [Part.bind_eq_bind, Part.bind_some, Part.coe_some, getElem?_edges (by omega) hlt,
    getElem?_edges (by omega) hlt.le]
  split <;> rfl

/-- **A free sweep northward finds every edge it reads**, if its sines increase and lie south of the
pole. -/
theorem freeBandSweep_eq (hl : l.Partition) : ∀ (ps : List Rat) {j : Nat}, j < l.rows →
    ps.Pairwise (· ≤ ·) → (∀ p ∈ ps, l.edge j ≤ p ∧ p < 1) →
    l.freeBandSweep j ps = Part.some (l.bandSweep j ps)
  | [], _, _, _, _ => rfl
  | p :: ps, j, hj, hps, hbound => by
    obtain ⟨hp, hps⟩ := List.pairwise_cons.mp hps
    obtain ⟨hjp, hp1⟩ := hbound p List.mem_cons_self
    have hpole : p ≤ l.edge l.rows := hl.north ▸ hp1.le
    have h := bandSeam_lands hl hj hjp hp1
    have hrest := freeBandSweep_eq hl ps h.lt_rows hps fun q hq =>
      ⟨h.edge_le.trans (hp q hq), (hbound q (List.mem_cons_of_mem p hq)).2⟩
    simp only [freeBandSweep, freeBandSeam_eq hj hpole, Part.bind_eq_bind, Part.bind_some, hrest]
    rfl

end Lattice

/-! ## Both sweeps of a remap -/

namespace Remap

/-- The seams at the western edges of the target columns. -/
def freeColumnSeams (r : Remap Rat) : Part (List (Seam Rat)) :=
  r.startCursor.freeSweep r.target.columns r.columnEdges

/-- The seams between the target bands, and those at the poles. -/
def freeBandSeams (r : Remap Rat) : Part (List (Seam Rat)) := do
  let inner ← Part.ofOption <|
    (List.range (r.target.rows - 1)).mapM fun j => r.target.edges[j + 1]?
  let seams ← r.source.freeBandSweep 0 inner
  return ⟨-1, 0, 0, 0⟩ :: seams ++ [⟨r.source.rows - 1, 0, r.source.rows, 0⟩]

variable {r : Remap Rat}

theorem freeColumnSeams_eq (hn : 0 < r.target.columns) :
    r.freeColumnSeams = Part.some r.columnSeams :=
  ColumnCursor.freeSweep_eq (by exact_mod_cast hn) r.columnEdges r.startCursor

theorem freeBandSeams_eq (hs : r.source.Partition) (ht : r.target.Partition) :
    r.freeBandSeams = Part.some r.bandSeams := by
  obtain ⟨hsorted, hbound⟩ := innerEdges_increasing hs ht
  have hinner : (List.range (r.target.rows - 1)).mapM (fun j => r.target.edges[j + 1]?) =
      some r.innerEdges :=
    mapM_some fun j hj => Lattice.getElem?_edges ht.rows_pos (by
      rw [List.mem_range] at hj
      omega)
  unfold freeBandSeams
  rw [hinner, Part.coe_some, Part.bind_eq_bind, Part.bind_some,
    Lattice.freeBandSweep_eq hs r.innerEdges hs.rows_pos hsorted hbound, Part.bind_eq_bind,
    Part.bind_some]
  rfl

end Remap

end Regrid

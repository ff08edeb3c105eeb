import Mathlib.Data.List.Rotate
import Regrid.Proofs.Real
import Regrid.Proofs.Mesh.Roster
import Regrid.Mesh.Area

/-!
# Areas of polygons in exact arithmetic

Twice the area of a polygon (`Grid.proj_area`) is what is swept on a walk around it that ends where
it began (`polygonArea_concat`), and what is swept adds up along a walk (`swept_append`). So the
area does not depend on where the walk begins (`polygonArea_append_comm`), changes its sign with the
direction (`polygonArea_reverse`), is the same after a shift of the plane (`polygonArea_shift`), and
a diagonal, which is walked in both directions, cuts it into two (`polygonArea_cut`). `area_laws`
says this of the cells of a mesh.
-/

namespace Regrid

/-! ## Walks -/

/-- The sum of the cross products along a walk from point to point. -/
noncomputable def swept : List (ℝ × ℝ) → ℝ
  | [] => 0
  | [_] => 0
  | p :: q :: rest => crossProduct p q + swept (q :: rest)

theorem crossProduct_real (p q : ℝ × ℝ) : crossProduct p q = p.1 * q.2 - q.1 * p.2 := rfl

theorem crossProduct_self (p : ℝ × ℝ) : crossProduct p p = 0 := sub_self _

theorem crossProduct_comm (p q : ℝ × ℝ) : crossProduct q p = -crossProduct p q := (neg_sub _ _).symm

theorem swept_cons_cons (p q : ℝ × ℝ) (rest : List (ℝ × ℝ)) :
    swept (p :: q :: rest) = crossProduct p q + swept (q :: rest) := rfl

/-- **What is swept adds up**: a walk can be cut at any of its points. -/
theorem swept_append (p : ℝ × ℝ) (ys : List (ℝ × ℝ)) : ∀ xs : List (ℝ × ℝ),
    swept (xs ++ p :: ys) = swept (xs ++ [p]) + swept (p :: ys)
  | [] => (zero_add _).symm
  | [x] => by
    show crossProduct x p + swept (p :: ys) = crossProduct x p + 0 + swept (p :: ys)
    rw [add_zero]
  | x :: x' :: xs => by
    have ih := swept_append p ys (x' :: xs)
    rw [List.cons_append, List.cons_append] at ih ⊢
    rw [List.cons_append, List.cons_append, swept_cons_cons, ih, swept_cons_cons, add_assoc]

/-- The same walk backwards. -/
theorem swept_reverse : ∀ ps : List (ℝ × ℝ), swept ps.reverse = -swept ps
  | [] => neg_zero.symm
  | [_] => neg_zero.symm
  | p :: q :: rest => by
    have ih := swept_reverse (q :: rest)
    rw [List.reverse_cons] at ih
    rw [List.reverse_cons, List.reverse_cons, List.append_assoc, List.singleton_append,
      swept_append, ih, swept_cons_cons, swept_cons_cons, crossProduct_comm p q]
    show -swept (q :: rest) + (-crossProduct p q + 0) = _
    ring

/-- A walk in a shifted plane: only the ends of the walk tell it. -/
theorem swept_shift (d q : ℝ × ℝ) : ∀ (p : ℝ × ℝ) (xs : List (ℝ × ℝ)),
    swept ((p :: (xs ++ [q])).map (· + d)) =
      swept (p :: (xs ++ [q])) + (crossProduct p d - crossProduct q d)
  | p, [] => by
    show crossProduct (p + d) (q + d) + 0 = crossProduct p q + 0 + _
    simp only [crossProduct_real, Prod.fst_add, Prod.snd_add]
    ring
  | p, x :: xs => by
    have ih := swept_shift d q x xs
    rw [List.map_cons] at ih
    rw [List.cons_append, List.map_cons, List.map_cons, swept_cons_cons, ih, swept_cons_cons]
    simp only [crossProduct_real, Prod.fst_add, Prod.snd_add]
    ring

/-! ## Polygons -/

theorem sum_crossProduct_zip (y : ℝ × ℝ) : ∀ (x : ℝ × ℝ) (xs : List (ℝ × ℝ)),
    (((x :: xs).zip (xs ++ [y])).map fun t => crossProduct t.1 t.2).sum =
      swept (x :: (xs ++ [y]))
  | _, [] => rfl
  | x, x' :: xs => by
    rw [List.cons_append, List.zip_cons_cons, List.map_cons, List.sum_cons,
      sum_crossProduct_zip y x' xs, swept_cons_cons]

/-- The area of a polygon is half of what is swept on the walk from its last point around it. -/
theorem polygonArea_concat (xs : List (ℝ × ℝ)) (p : ℝ × ℝ) :
    polygonArea (xs ++ [p]) = swept (p :: (xs ++ [p])) / 2 := by
  have hedges : closedEdges (xs ++ [p]) = (p :: xs).zip (xs ++ [p]) := by
    rw [closedEdges, List.getLast?_concat, List.dropLast_concat]
  have hsum : Scalar.sum ((closedEdges (xs ++ [p])).map fun t => crossProduct t.1 t.2) =
      swept (p :: (xs ++ [p])) := by
    rw [hedges, ← sum_crossProduct_zip p p xs]
    exact List.sum_eq_foldl.symm
  have htwo : (Scalar.ofNat 2 : ℝ) = 2 := by
    rw [Scalar.ofNat_real]
    norm_num
  rw [polygonArea, hsum, htwo]

theorem polygonArea_nil : polygonArea ([] : List (ℝ × ℝ)) = 0 := zero_div _

/-- **Where the walk begins** does not matter. -/
theorem polygonArea_append_comm (xs ys : List (ℝ × ℝ)) :
    polygonArea (xs ++ ys) = polygonArea (ys ++ xs) := by
  rcases List.eq_nil_or_concat xs with rfl | ⟨xs, p, rfl⟩
  · rw [List.nil_append, List.append_nil]
  rcases List.eq_nil_or_concat ys with rfl | ⟨ys, q, rfl⟩
  · rw [List.nil_append, List.append_nil]
  -- both walks consist of the one from `q` to `p` and the one from `p` to `q`
  have hsplit : ∀ (us vs : List (ℝ × ℝ)) (a b : ℝ × ℝ),
      polygonArea ((us ++ [a]) ++ (vs ++ [b])) =
        (swept (b :: (us ++ [a])) + swept (a :: (vs ++ [b]))) / 2 := by
    intro us vs a b
    rw [← List.append_assoc, polygonArea_concat, List.append_assoc, List.append_assoc,
      List.singleton_append, ← List.cons_append, swept_append, List.cons_append]
  rw [List.concat_eq_append, List.concat_eq_append, hsplit, hsplit, add_comm]

/-- A polygon can be started at any of its points. -/
theorem polygonArea_rotate (ps : List (ℝ × ℝ)) (k : Nat) :
    polygonArea (ps.rotate k) = polygonArea ps := by
  rw [List.rotate_eq_drop_append_take_mod, polygonArea_append_comm, List.take_append_drop]

/-- **The other direction** changes the sign. -/
theorem polygonArea_reverse (ps : List (ℝ × ℝ)) : polygonArea ps.reverse = -polygonArea ps := by
  rcases List.eq_nil_or_concat ps with rfl | ⟨xs, p, rfl⟩
  · rw [List.reverse_nil, polygonArea_nil, neg_zero]
  have hwalk : p :: (xs.reverse ++ [p]) = (p :: (xs ++ [p])).reverse := by simp
  rw [List.concat_eq_append, List.reverse_append, List.reverse_singleton, polygonArea_append_comm,
    polygonArea_concat, hwalk, swept_reverse, polygonArea_concat, neg_div]

/-- **A shift** of the plane changes nothing. -/
theorem polygonArea_shift (ps : List (ℝ × ℝ)) (d : ℝ × ℝ) :
    polygonArea (ps.map (· + d)) = polygonArea ps := by
  rcases List.eq_nil_or_concat ps with rfl | ⟨xs, p, rfl⟩
  · rfl
  have hwalk := swept_shift d p p xs
  rw [sub_self, add_zero, List.map_cons, List.map_append] at hwalk
  rw [List.concat_eq_append, List.map_append, List.map_singleton, polygonArea_concat,
    polygonArea_concat]
  exact congrArg (· / 2) hwalk

/-- Two points enclose nothing, nor does one. -/
theorem polygonArea_of_short {ps : List (ℝ × ℝ)} (h : ps.length < 3) : polygonArea ps = 0 := by
  match ps, h with
  | [], _ => exact polygonArea_nil
  | [p], _ =>
    have hp := polygonArea_concat [] p
    rw [List.nil_append, swept_cons_cons, crossProduct_self] at hp
    exact hp.trans (by norm_num [swept])
  | [p, q], _ =>
    have hpq := polygonArea_concat [p] q
    rw [List.singleton_append, swept_cons_cons, swept_cons_cons, crossProduct_comm p q] at hpq
    exact hpq.trans (by norm_num [swept])

/-- **A diagonal** from `p` to `q` cuts a polygon into two. -/
theorem polygonArea_cut (p q : ℝ × ℝ) (ys zs : List (ℝ × ℝ)) :
    polygonArea ((p :: ys) ++ (q :: zs)) =
      polygonArea (p :: (ys ++ [q])) + polygonArea (q :: (zs ++ [p])) := by
  -- the way along `us` and back along the diagonal
  have hpart : ∀ (a b : ℝ × ℝ) (us : List (ℝ × ℝ)), polygonArea (a :: (us ++ [b])) =
      (crossProduct b a + swept (a :: (us ++ [b]))) / 2 := fun a b us =>
    polygonArea_concat (a :: us) b
  have hwhole : polygonArea ((p :: ys) ++ (q :: zs)) =
      (swept (p :: (ys ++ [q])) + swept (q :: (zs ++ [p]))) / 2 := by
    have hrotated : polygonArea ((p :: ys) ++ (q :: zs)) =
        polygonArea ((ys ++ (q :: zs)) ++ [p]) := by
      rw [List.cons_append, ← polygonArea_append_comm [p]]
      rfl
    rw [hrotated, polygonArea_concat, List.append_assoc, List.cons_append, ← List.cons_append,
      swept_append, List.cons_append]
  rw [hwhole, hpart, hpart, crossProduct_comm p q]
  ring

/-- The two parts into which the diagonal between two places cuts a polygon. -/
theorem polygonArea_diagonal (ps : List (ℝ × ℝ)) {i j : Nat} (hij : i < j) (hj : j < ps.length) :
    polygonArea ps = polygonArea ((ps.drop i).take (j - i + 1)) +
      polygonArea (ps.drop j ++ ps.take (i + 1)) := by
  have hi : i < ps.length := hij.trans hj
  obtain ⟨n, rfl⟩ : ∃ n, j = i + 1 + n := ⟨j - (i + 1), by omega⟩
  have hdrop : ps.drop i = ps[i] :: ((ps.drop (i + 1)).take n ++ ps.drop (i + 1 + n)) := by
    rw [List.drop_eq_getElem_cons hi, ← List.drop_drop (j := i + 1), List.take_append_drop]
  have hfirst : (ps.drop i).take (i + 1 + n - i + 1) =
      ps[i] :: ((ps.drop (i + 1)).take n ++ [ps[i + 1 + n]]) := by
    have hlen : n < (ps.drop (i + 1)).length := by rw [List.length_drop]; omega
    rw [show i + 1 + n - i + 1 = n + 1 + 1 by omega, List.drop_eq_getElem_cons hi,
      List.take_succ_cons, List.take_succ_eq_append_getElem hlen, List.getElem_drop]
  have hlast : ps.drop (i + 1 + n) = ps[i + 1 + n] :: ps.drop (i + 1 + n + 1) :=
    List.drop_eq_getElem_cons hj
  have htake : ps.take (i + 1) = ps.take i ++ [ps[i]] := List.take_succ_eq_append_getElem hi
  have hstart : polygonArea ps = polygonArea (ps.drop i ++ ps.take i) := by
    rw [polygonArea_append_comm, List.take_append_drop]
  rw [hstart, hfirst, hdrop, hlast, htake]
  have hcut := polygonArea_cut ps[i] ps[i + 1 + n] ((ps.drop (i + 1)).take n)
    (ps.drop (i + 1 + n + 1) ++ ps.take i)
  simp only [List.cons_append, List.append_assoc] at hcut ⊢
  exact hcut

namespace Mesh

/-! ## Cells -/

/-- The mesh in a shifted plane. -/
def shift {α : Type} [Add α] (m : Mesh α) (d : α × α) : Mesh α :=
  let items := m.vertices.items.map fun v => { v with x := v.x + d.1, y := v.y + d.2 }
  { m with vertices := { m.vertices with items } }

variable {m : Mesh ℝ}

/-- The point of a vertex; one that is not there is at the origin. -/
noncomputable def point (m : Mesh ℝ) (ref : Int) : ℝ × ℝ :=
  (m.vertices.get? ref).elim 0 fun v => (v.x, v.y)

theorem corners_eq {c : Cell ℝ} (h : ∀ v ∈ c.refs, v ∈ m.vertices.keys) :
    m.corners c = .ok (c.refs.map m.point) := by
  refine mapM_ok fun ref href => ?_
  obtain ⟨v, hv⟩ := Option.isSome_iff_exists.mp (Roster.contains_iff.mpr (h ref href))
  unfold Roster.get point
  rw [hv]
  rfl

/-- **The area of a cell** in the coordinates of the mesh is that of its polygon. -/
theorem area_eq {c : Cell ℝ} (h : ∀ v ∈ c.refs, v ∈ m.vertices.keys) (signed : Bool) :
    m.area c none signed = .ok (if signed then polygonArea (c.refs.map m.point)
      else |polygonArea (c.refs.map m.point)|) := by
  unfold area
  cases hrefs : c.refs with
  | nil =>
    simp only [List.isEmpty_nil, if_true, List.map_nil, polygonArea_nil, abs_zero, ite_self]
    rfl
  | cons ref refs =>
    have hsome : ¬c.refs.isEmpty := by rw [hrefs]; exact Bool.false_ne_true
    rw [← hrefs, if_neg hsome, corners_eq h, ← Scalar.abs_real]
    rfl

theorem keys_shift (m : Mesh ℝ) (d : ℝ × ℝ) : (m.shift d).vertices.keys = m.vertices.keys := by
  unfold shift Roster.keys
  rw [List.map_map]
  rfl

theorem point_shift (d : ℝ × ℝ) {ref : Int} (h : ref ∈ m.vertices.keys) :
    (m.shift d).point ref = m.point ref + d := by
  obtain ⟨v, hv⟩ := Option.isSome_iff_exists.mp (Roster.contains_iff.mpr h)
  have hshift : (m.shift d).vertices.get? ref =
      some { v with x := v.x + d.1, y := v.y + d.2 } := by
    unfold Roster.get? shift at *
    rw [List.find?_map]
    exact (congrArg (Option.map _) hv :)
  unfold point
  rw [hshift, hv]
  rfl

/-- **The areas of cells**: where a cell begins and where the plane lies does not matter, the other
direction changes the sign, fewer than three vertices enclose nothing, and a diagonal cuts a cell
into two. Without its sign an area is the absolute value. -/
theorem area_laws (m : Mesh ℝ) (c : Cell ℝ) (h : ∀ v ∈ c.refs, v ∈ m.vertices.keys) :
    ∃ a, m.area c none true = .ok a ∧ m.area c none false = .ok |a| ∧
      (∀ k, m.area { c with refs := c.refs.rotate k } none true = .ok a) ∧
      (∀ d, (m.shift d).area c none true = .ok a) ∧
      m.area { c with refs := c.refs.reverse } none true = .ok (-a) ∧
      (c.refs.length < 3 → a = 0) ∧
      ∀ i j, i < j → j < c.refs.length → ∃ b b',
        m.area { c with refs := (c.refs.drop i).take (j - i + 1) } none true = .ok b ∧
        m.area { c with refs := c.refs.drop j ++ c.refs.take (i + 1) } none true = .ok b' ∧
        a = b + b' := by
  -- every list of vertices of the cell has the area of its polygon
  have hsub : ∀ refs : List Int, (∀ v ∈ refs, v ∈ c.refs) →
      m.area { c with refs } none true = .ok (polygonArea (refs.map m.point)) := fun refs hrefs =>
    area_eq (fun v hv => h v (hrefs v hv)) true
  refine ⟨polygonArea (c.refs.map m.point), area_eq h true, area_eq h false, fun k => ?_,
    fun d => ?_, ?_, fun hshort => ?_, fun i j hij hj => ⟨_, _, hsub _ fun v hv => ?_,
      hsub _ fun v hv => ?_, ?_⟩⟩
  · rw [hsub _ fun v hv => List.mem_rotate.mp hv, List.map_rotate, polygonArea_rotate]
  · rw [area_eq (by rwa [keys_shift])]
    have hpoints : c.refs.map (m.shift d).point = (c.refs.map m.point).map (· + d) := by
      rw [List.map_map]
      exact List.map_congr_left fun v hv => point_shift d (h v hv)
    rw [hpoints, polygonArea_shift]
    rfl
  · rw [hsub _ fun v hv => List.mem_reverse.mp hv, List.map_reverse, polygonArea_reverse]
  · exact polygonArea_of_short (by rwa [List.length_map])
  · exact List.mem_of_mem_drop (List.mem_of_mem_take hv)
  · exact (List.mem_append.mp hv).elim List.mem_of_mem_drop List.mem_of_mem_take
  · rw [polygonArea_diagonal _ hij (by rwa [List.length_map]), List.map_append, List.map_take,
      List.map_drop, List.map_drop, List.map_take]

/-- Four vertices around a dart, whose tip is at the origin. -/
noncomputable def dart : Mesh ℝ where
  vertices :=
    { what := "vertex", items := [⟨0, 0, 0⟩, ⟨6, 0, 1⟩, ⟨1, 1, 2⟩, ⟨0, 6, 3⟩], top := 3 }

/-- The cell between them. -/
noncomputable def dartCell : Cell ℝ := { refs := [0, 1, 2, 3], index := 0, nativeArea := 6 }

/-- The diagonal between the wings of the dart lies outside, so one of the parts is negative. -/
theorem area_laws_dart : (∀ v ∈ dartCell.refs, v ∈ dart.vertices.keys) ∧
    dart.area dartCell none true = .ok 6 ∧
    (dart.shift (7, -3)).area dartCell none true = .ok 6 ∧
    dart.area { dartCell with refs := [2, 3, 0, 1] } none true = .ok 6 ∧
    dart.area { dartCell with refs := [3, 2, 1, 0] } none true = .ok (-6) ∧
    dart.area { dartCell with refs := [1, 2, 3] } none true = .ok (-12) ∧
    dart.area { dartCell with refs := [3, 0, 1] } none true = .ok 18 := by
  have hrefs : ∀ v ∈ dartCell.refs, v ∈ dart.vertices.keys := by decide
  obtain ⟨a, ha, -, hrotate, hshift, hreverse, -, hcut⟩ := area_laws dart dartCell hrefs
  obtain ⟨b, b', hb, hb', hsum⟩ := hcut 1 3 (by decide) (by decide)
  have hall : dart.area dartCell none true = .ok 6 := by
    have hpoints : dartCell.refs.map dart.point = [(0, 0), (6, 0), (1, 1)] ++ [(0, 6)] := by
      simp [dartCell, dart, point, Roster.get?, Numbered.index]
    rw [area_eq hrefs, if_pos rfl, hpoints, polygonArea_concat]
    norm_num [swept, crossProduct_real]
  have hwings : dart.area { dartCell with refs := [1, 2, 3] } none true = .ok (-12) := by
    have hpoints : [1, 2, 3].map dart.point = [(6, 0), (1, 1)] ++ [(0, 6)] := by
      simp [dart, point, Roster.get?, Numbered.index]
    rw [area_eq (by decide), if_pos rfl, hpoints, polygonArea_concat]
    norm_num [swept, crossProduct_real]
  obtain rfl : a = 6 := Except.ok.inj (ha.symm.trans hall)
  obtain rfl : b = -12 := Except.ok.inj (hb.symm.trans hwings)
  obtain rfl : b' = 18 := by linarith
  exact ⟨hrefs, hall, hshift _, hrotate 2, hreverse, hwings, hb'⟩

end Mesh

end Regrid

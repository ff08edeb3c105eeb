import Mathlib.Data.List.Chain
import Mathlib.Tactic.GCongr
import Regrid.Proofs.Binary
import Regrid.Proofs.Remap.Request
import Regrid.Proofs.Remap.Run
import Regrid.Remap.Blocks

/-!
# Blocks of rows

An operator put together from blocks (`build_matrix_dask`) has the entries of the whole one because
each entry is made from its own pair of cells, whatever the numbers are. Two facts carry the proof.

* `Tiles`: the blocks follow one another from the first row to the last. This is where the numbers
  matter, as the bounds are multiples of a quotient, rounded (`tiles_rowBlocks`,
  `tiles_rowBlocks_binary`).
* `eq_flatMap_blocks`: a list in the order of its rows is cut into consecutive pieces by them.
-/

namespace Regrid

/-! ## Blocks -/

/-- Blocks that follow one another from a first row to a last, none of them empty. -/
inductive Tiles : Nat → Nat → List (Nat × Nat) → Prop
  | nil (row : Nat) : Tiles row row []
  | cons {start stop last : Nat} {blocks : List (Nat × Nat)} (h : start < stop)
      (rest : Tiles stop last blocks) : Tiles start last ((start, stop) :: blocks)

/-- No block begins before the first row. -/
theorem Tiles.le_of_mem {start last : Nat} {blocks : List (Nat × Nat)}
    (h : Tiles start last blocks) {b : Nat × Nat} (hb : b ∈ blocks) : start ≤ b.1 := by
  induction h with
  | nil => exact absurd hb List.not_mem_nil
  | cons h _ ih =>
    rcases List.mem_cons.mp hb with rfl | hb
    · exact le_rfl
    · exact h.le.trans (ih hb)

/-- Bounds in ascending order give blocks from the first to the last of them. -/
theorem tiles_of_ascending {last : Nat} : ∀ {start : Nat} {bounds : List Nat},
    (start :: bounds).Pairwise (· ≤ ·) → (start :: bounds).getLast? = some last →
    Tiles start last (((start :: bounds).zip bounds).filter fun b => b.1 < b.2)
  | start, [], _, hlast => by
    obtain rfl : start = last := by simpa using hlast
    exact Tiles.nil start
  | start, next :: bounds, hsorted, hlast => by
    obtain ⟨hfirst, hsorted⟩ := List.pairwise_cons.mp hsorted
    have hrest := tiles_of_ascending hsorted (by rwa [List.getLast?_cons_cons] at hlast)
    rw [List.zip_cons_cons, List.filter_cons]
    rcases (hfirst next List.mem_cons_self).lt_or_eq with hlt | rfl
    · rw [if_pos (by simpa using hlt)]
      exact Tiles.cons hlt hrest
    · rw [if_neg (by simp)]
      exact hrest

/-- The place of a bound, before the last one. -/
def blockBound (α : Type) [Scalar α] (rows count k : Nat) : Nat :=
  (Scalar.round (Scalar.ofNat k * (Scalar.ofNat rows / Scalar.ofNat count : α))).toNat

theorem blockCount_pos (rows : Nat) (wish : Int) : 0 < blockCount rows wish := by
  unfold blockCount
  omega

/-- **The blocks follow one another**, if the places of their bounds ascend from the first row and
stay among the rows. -/
theorem tiles_of_bounds {α : Type} [Scalar α] {rows : Nat} {wish : Int}
    (hzero : blockBound α rows (blockCount rows wish) 0 = 0)
    (hmono : ∀ i j, i < j → j < blockCount rows wish →
      blockBound α rows (blockCount rows wish) i ≤ blockBound α rows (blockCount rows wish) j)
    (hlast : ∀ k, k < blockCount rows wish → blockBound α rows (blockCount rows wish) k ≤ rows) :
    Tiles 0 rows (rowBlocks α rows wish) := by
  obtain ⟨n, hn⟩ : ∃ n, blockCount rows wish = n + 1 :=
    ⟨blockCount rows wish - 1, by have := blockCount_pos rows wish; omega⟩
  have hbounds : blockBounds α rows (n + 1) =
      (List.range (n + 1)).map (blockBound α rows (n + 1)) ++ [rows] := rfl
  have hsorted : (blockBounds α rows (n + 1)).Pairwise (· ≤ ·) := by
    rw [hbounds, List.pairwise_append, List.pairwise_map]
    refine ⟨List.pairwise_lt_range.imp_of_mem fun {i j} _ hj hij => ?_, List.pairwise_singleton _ _,
      fun x hx y hy => ?_⟩
    · rw [← hn]
      exact hmono i j hij (by rw [hn]; exact List.mem_range.mp hj)
    · obtain ⟨k, hk, rfl⟩ := List.mem_map.mp hx
      rw [List.mem_singleton.mp hy, ← hn]
      exact hlast k (by rw [hn]; exact List.mem_range.mp hk)
  rw [hn] at hzero
  have hlastBound : (blockBounds α rows (n + 1)).getLast? = some rows := by
    rw [hbounds, List.getLast?_concat]
  have hcons : blockBounds α rows (n + 1) = 0 :: (blockBounds α rows (n + 1)).tail := by
    rw [hbounds, List.range_succ_eq_map, List.map_cons, hzero]
    rfl
  unfold rowBlocks
  simp only
  rw [hn]
  rw [hcons] at hsorted hlastBound ⊢
  exact tiles_of_ascending hsorted hlastBound

/-- Over exact scalars they always do. -/
theorem tiles_rowBlocks (rows : Nat) (wish : Int) : Tiles 0 rows (rowBlocks Rat rows wish) := by
  have hpos : (0 : Rat) < blockCount rows wish := by exact_mod_cast blockCount_pos rows wish
  have hstep : (0 : Rat) ≤ rows / blockCount rows wish := div_nonneg rows.cast_nonneg hpos.le
  have hbound : ∀ k, blockBound Rat rows (blockCount rows wish) k =
      (Scalar.round ((k : Rat) * (rows / blockCount rows wish))).toNat := fun _ => rfl
  refine tiles_of_bounds ?_ (fun i j hij _ => ?_) fun k hk => ?_
  · rw [hbound, Nat.cast_zero, zero_mul]
    exact toNat_round_natCast 0
  · rw [hbound, hbound]
    have hle : (i : Rat) ≤ j := by exact_mod_cast hij.le
    exact toNat_round_mono (mul_nonneg i.cast_nonneg hstep) (mul_le_mul_of_nonneg_right hle hstep)
  · have hle : (k : Rat) * (rows / blockCount rows wish) ≤ rows := by
      have hk' : (k : Rat) ≤ blockCount rows wish := by exact_mod_cast hk.le
      calc
        _ ≤ (blockCount rows wish : Rat) * (rows / blockCount rows wish) :=
          mul_le_mul_of_nonneg_right hk' hstep
        _ = rows := mul_div_cancel₀ _ hpos.ne'
    rw [hbound]
    exact (toNat_round_mono (mul_nonneg k.cast_nonneg hstep) hle).trans_eq
      (toNat_round_natCast rows)

theorem blockCount_le {rows : Nat} (hrows : 0 < rows) (wish : Int) :
    blockCount rows wish ≤ rows := by
  unfold blockCount
  omega

/-- A number of 53 bits between a quotient of counts and that of the next count. -/
theorem exists_binary_above {rows count : Nat} (hcount : 0 < count) (hrows : rows ≤ 2 ^ 52) :
    ∃ (n : Nat) (k : Int), n ≤ 2 ^ 53 ∧ (rows / count : Rat) ≤ n * 2 ^ k ∧
      (n * 2 ^ k : Rat) ≤ (rows + 1) / count := by
  have hpos : (0 : Rat) < count := by exact_mod_cast hcount
  -- the quotient is rounded up to a multiple of a power of two that is not above `1 / count`
  obtain ⟨shift, hlow, hhigh⟩ : ∃ shift, count ≤ 2 ^ shift ∧ 2 ^ shift ≤ 2 * count := by
    refine ⟨count.log2 + 1, Nat.lt_log2_self.le, ?_⟩
    rw [Nat.pow_succ, mul_comm]
    exact Nat.mul_le_mul_left 2 (Nat.log2_self_le hcount.ne')
  have hunit : (0 : Rat) < 2 ^ shift := by positivity
  refine ⟨⌈(rows * 2 ^ shift / count : Rat)⌉₊, -shift, Nat.ceil_le.mpr ?_, ?_, ?_⟩
  · have hhigh' : (2 ^ shift : Rat) ≤ 2 * count := by exact_mod_cast hhigh
    have hrows' : (rows : Rat) ≤ 2 ^ 52 := by exact_mod_cast hrows
    rw [div_le_iff₀ hpos]
    push_cast
    nlinarith [(rows.cast_nonneg : (0 : Rat) ≤ rows)]
  · rw [zpow_neg, zpow_natCast, ← div_eq_mul_inv, le_div_iff₀ hunit, div_mul_eq_mul_div]
    exact Nat.le_ceil _
  · have hlow' : (count : Rat) ≤ 2 ^ shift := by exact_mod_cast hlow
    have hceil := Nat.ceil_lt_add_one (a := (rows * 2 ^ shift / count : Rat)) (by positivity)
    rw [zpow_neg, zpow_natCast, ← div_eq_mul_inv, div_le_iff₀ hunit]
    calc (⌈(rows * 2 ^ shift / count : Rat)⌉₊ : Rat)
      _ ≤ rows * 2 ^ shift / count + 1 := hceil.le
      _ ≤ rows * 2 ^ shift / count + 2 ^ shift / count := by
        gcongr
        exact (one_le_div hpos).mpr hlow'
      _ = (rows + 1) / count * 2 ^ shift := by ring

/-- Steps that are rounded do not lead beyond the last row, before the last one. -/
theorem mul_step_le {rows count : Nat} (hcount : 0 < count) (hcountRows : count ≤ rows)
    (hrows : rows ≤ 2 ^ 52) {step : Rat} (hstep : Faithful (rows / count) step) {k : Nat}
    (hk : k < count) : k * step ≤ rows := by
  have hcount' : (0 : Rat) < count := by exact_mod_cast hcount
  have hcountRows' : (count : Rat) ≤ rows := by exact_mod_cast hcountRows
  have hratio : (1 : Rat) ≤ rows / count := (one_le_div hcount').mpr hcountRows'
  have hone : (1 : Rat) ≤ step := by
    have := hstep.natCast_le (n := 1) (by norm_num) (by rwa [Nat.cast_one])
    rwa [Nat.cast_one] at this
  have hk' : (k : Rat) + 1 ≤ count := by exact_mod_cast hk
  obtain ⟨n, e, hn, hlow, hhigh⟩ := exists_binary_above hcount hrows
  calc (k * step : Rat)
    _ ≤ (count - 1) * ((rows + 1) / count) :=
      mul_le_mul (by linarith) (((hstep n e hn).2 hlow).trans hhigh) (by linarith) (by linarith)
    _ ≤ rows := by
      rw [← mul_div_assoc, div_le_iff₀ hcount']
      linarith

/-- **Over binary scalars** they do as well, although the step between bounds is rounded, and so is
each of its multiples: the step is at least one, and one bit too much in every step does not lead
beyond the last row. -/
theorem tiles_rowBlocks_binary {rows : Nat} (hpos : 0 < rows) (hrows : rows ≤ 2 ^ 52) (wish : Int) :
    Tiles 0 rows (rowBlocks Float rows wish) := by
  have hcount := blockCount_pos rows wish
  have hcountRows := blockCount_le hpos wish
  generalize hn : blockCount rows wish = count at hcount hcountRows
  have hcount' : (0 : Rat) < count := by exact_mod_cast hcount
  have hratio : (1 : Rat) ≤ rows / count := (one_le_div hcount').mpr (by exact_mod_cast hcountRows)
  have hrows' : (rows : Rat) ≤ 2 ^ 53 := by exact_mod_cast hrows.trans (by norm_num)
  have hratio' : (rows / count : Rat) ≤ 2 ^ 53 :=
    (div_le_self rows.cast_nonneg (by exact_mod_cast hcount)).trans hrows'
  obtain ⟨step, hstep, hfaithful⟩ := (StandsFor.ofNat hpos (by omega)).div
    (StandsFor.ofNat hcount (by omega)) hratio hratio'
  have hone : (1 : Rat) ≤ step := hstep.one_le
  have hbelow : ∀ k : Nat, k < count → k * step ≤ rows := fun _ =>
    mul_step_le hcount hcountRows hrows hfaithful
  -- the product of a number of steps, and its place
  have hproduct : ∀ k : Nat, 0 < k → k < count → ∃ w : Rat, Faithful (k * step) w ∧ 0 ≤ w ∧
      blockBound Float rows count k = (Scalar.round w).toNat := by
    intro k hk hkc
    obtain ⟨w, hw, hfaithful⟩ := (StandsFor.ofNat hk (by omega)).mul hstep
      ((hbelow k hkc).trans hrows')
    exact ⟨w, hfaithful, zero_le_one.trans hw.one_le, hw.toNat_round⟩
  have hzero : blockBound Float rows count 0 = 0 := hstep.toNat_round_zero_mul
  refine tiles_of_bounds (hn.symm ▸ hzero) (fun i j hij hj => ?_) fun k hk => ?_
  all_goals rw [hn] at *
  · rcases Nat.eq_zero_or_pos i with rfl | hi
    · rw [hzero]
      exact Nat.zero_le _
    obtain ⟨v, hv, hv₀, hboundv⟩ := hproduct i hi (by omega)
    obtain ⟨w, hw, -, hboundw⟩ := hproduct j (by omega) hj
    have hij' : (i : Rat) + 1 ≤ j := by exact_mod_cast hij
    rw [hboundv, hboundw]
    exact toNat_round_mono hv₀ (hv.le_of_add_one_le hw (by positivity) (by nlinarith)
      ((hbelow j hj).trans hrows'))
  · rcases Nat.eq_zero_or_pos k with rfl | hk₀
    · rw [hzero]
      exact Nat.zero_le _
    obtain ⟨w, hw, hw₀, hbound⟩ := hproduct k hk₀ hk
    rw [hbound]
    exact (toNat_round_mono hw₀ (hw.le_natCast (by omega) (hbelow k hk))).trans_eq
      (toNat_round_natCast rows)

/-! ## Cutting a list -/

section Cutting

variable {β : Type} {key : β → Nat}

/-- A list in the order of a key is what lies before a place and what does not. -/
theorem filter_append_of_sorted {xs : List β} (hsorted : (xs.map key).Pairwise (· ≤ ·))
    (place : Nat) :
    (xs.filter fun x => key x < place) ++ (xs.filter fun x => place ≤ key x) = xs := by
  induction xs with
  | nil => rfl
  | cons x xs ih =>
    rw [List.map_cons, List.pairwise_cons] at hsorted
    have ih := ih hsorted.2
    rw [List.filter_cons, List.filter_cons]
    rcases Nat.lt_or_ge (key x) place with hlt | hge
    · rw [if_pos (by simpa using hlt), if_neg (by simpa using hlt), List.cons_append, ih]
    · have hnone : (xs.filter fun x => key x < place) = [] := by
        refine List.filter_eq_nil_iff.mpr fun y hy => ?_
        have := hsorted.1 (key y) (List.mem_map_of_mem hy)
        simpa using hge.trans this
      rw [hnone, List.nil_append] at ih
      rw [if_neg (by simpa using hge), if_pos (by simpa using hge), hnone, ih, List.nil_append]

/-- **Blocks that follow one another cut a list** in the order of its rows into its pieces. -/
theorem eq_flatMap_blocks {start last : Nat} {blocks : List (Nat × Nat)}
    (htiles : Tiles start last blocks) {xs : List β} (hsorted : (xs.map key).Pairwise (· ≤ ·))
    (hkeys : ∀ x ∈ xs, start ≤ key x ∧ key x < last) :
    xs = blocks.flatMap fun b => xs.filter fun x => b.1 ≤ key x && key x < b.2 := by
  induction htiles generalizing xs with
  | nil row =>
    refine List.eq_nil_iff_forall_not_mem.mpr fun x hx => ?_
    have := hkeys x hx
    omega
  | @cons start stop last blocks h rest ih =>
    have hbehind : ∀ x ∈ xs.filter (fun x => stop ≤ key x), stop ≤ key x ∧ key x < last := by
      intro x hx
      obtain ⟨hx, hstop⟩ := List.mem_filter.mp hx
      exact ⟨by simpa using hstop, (hkeys x hx).2⟩
    have hrest := ih (hsorted.sublist (List.filter_sublist.map key)) hbehind
    have hpiece : ∀ b ∈ blocks, ((xs.filter fun x => stop ≤ key x).filter fun x =>
        b.1 ≤ key x && key x < b.2) = xs.filter fun x => b.1 ≤ key x && key x < b.2 := by
      intro b hb
      have := rest.le_of_mem hb
      rw [List.filter_filter]
      refine List.filter_congr fun x _ => ?_
      grind
    have hfirst : (xs.filter fun x => start ≤ key x && key x < stop) =
        xs.filter fun x => key x < stop := by
      refine List.filter_congr fun x hx => ?_
      simp [(hkeys x hx).1]
    rw [List.flatMap_cons, hfirst, ← List.flatMap_congr hpiece, ← hrest,
      filter_append_of_sorted hsorted]

end Cutting

/-! ## Building in blocks -/

namespace Remap

variable {α : Type} [Scalar α] {r : Remap α}

/-- The overlaps of the bands come in the order of the target bands. -/
theorem bandOverlaps_sorted (r : Remap α) :
    (r.bandOverlaps.map Overlap.target).Pairwise (· ≤ ·) := by
  have htarget : ∀ (s : Span α) (j : Nat), ∀ o ∈ (s.cells.map fun i =>
      (⟨j, i.toNat, s.share i (r.source.band i.toNat)⟩ : Overlap α)).filter
        (fun o => o.amount != 0), o.target = j := by
    intro s j o ho
    obtain ⟨k, -, rfl⟩ := List.mem_map.mp (List.mem_filter.mp ho).1
    rfl
  unfold bandOverlaps
  rw [List.pairwise_map, List.pairwise_flatMap]
  refine ⟨fun ⟨s, j⟩ _ => List.pairwise_iff_forall_sublist.mpr fun {a b} hab => ?_,
    (pairwise_zipIdx _).imp fun {x y} hxy a ha b hb => ?_⟩
  · rw [htarget s j a (hab.subset (by simp)), htarget s j b (hab.subset (by simp))]
  · rw [htarget x.1 x.2 a ha, htarget y.1 y.2 b hb]
    exact hxy.le

/-- The entries of an operator that pairs of bands make, in their order. -/
def entriesOf (r : Remap α) (weights : Option (Array α)) (bands : List (Overlap α)) :
    List (Entry α) :=
  (r.cellOverlaps bands).map (r.entryOf (weights.getD r.unitWeights))

/-- The entries of many pairs of bands are those of each, one after the other. -/
theorem entriesOf_flatMap (weights : Option (Array α)) {β : Type} (xs : List β)
    (f : β → List (Overlap α)) :
    r.entriesOf weights (xs.flatMap f) = xs.flatMap fun x => r.entriesOf weights (f x) := by
  unfold entriesOf cellOverlaps
  simp only [List.flatMap_assoc, List.map_flatMap]

omit [Scalar α] in
/-- Matrices of one shape, put together in order. -/
theorem foldlM_append (rows cols : Nat) (parts : List (List (Entry α))) (entries : List (Entry α)) :
    (parts.map fun part => (⟨rows, cols, part⟩ : SparseMatrix α)).foldlM SparseMatrix.append
        ⟨rows, cols, entries⟩ = .ok ⟨rows, cols, entries ++ parts.flatten⟩ := by
  induction parts generalizing entries with
  | nil => simp [pure, Except.pure]
  | cons part parts ih =>
    rw [List.map_cons, List.foldlM_cons, SparseMatrix.append, if_pos ⟨rfl, rfl⟩, bind_ok, ih,
      List.flatten_cons, List.append_assoc]

/-- **An operator put together from blocks** is the operator, if the blocks follow one another. -/
theorem blockwiseOperator_of_tiles (hrows : 0 < r.target.rows) {weights : Option (Array α)}
    (hw : ∀ w ∈ weights, w.size = r.target.size) {wish : Int}
    (htiles : Tiles 0 r.target.rows (rowBlocks α r.target.rows wish)) :
    ∃ m, r.blockwiseOperator weights wish = .ok m ∧
      r.build { weights := weights } = .ok (m, []) := by
  refine ⟨_, ?_, build_rows hrows hw none⟩
  have hcut := eq_flatMap_blocks htiles (bandOverlaps_sorted r)
    fun o ho => ⟨Nat.zero_le _, target_of_mem_bandOverlaps hrows ho⟩
  have hblock : ∀ b ∈ rowBlocks α r.target.rows wish,
      (do return (← r.build { weights := weights, rows := some (b.1, b.2) }).1) =
        Except.ok (⟨r.target.size, r.source.size, r.entriesOf weights
          (r.bandOverlaps.filter fun o => b.1 ≤ o.target && o.target < b.2)⟩ : SparseMatrix α) := by
    intro b _
    rw [build_rows hrows hw, bind_ok]
    simp [operator, overlaps, entriesOf, inRows, pure, Except.pure]
  unfold blockwiseOperator
  simp only
  rw [mapM_ok hblock, bind_ok]
  have hfold := foldlM_append r.target.size r.source.size
    ((rowBlocks α r.target.rows wish).map fun b => r.entriesOf weights
          (r.bandOverlaps.filter fun o => b.1 ≤ o.target && o.target < b.2)) []
  rw [List.map_map] at hfold
  refine hfold.trans ?_
  rw [List.nil_append, ← List.flatMap_def, ← entriesOf_flatMap, ← hcut, operator, overlaps_none]
  rfl

/-- **The operator put together from blocks is the operator**, entry by entry and in the same order,
for every wish for a number of blocks: over binary scalars, for as many rows as can be counted in
them, and over exact ones. -/
theorem blockwiseOperator_eq_build :
    (∀ (r : Remap Float), 0 < r.target.rows → r.target.rows ≤ 2 ^ 52 →
      ∀ weights, (∀ w ∈ weights, w.size = r.target.size) → ∀ wish,
        ∃ m, r.blockwiseOperator weights wish = .ok m ∧
          r.build { weights := weights } = .ok (m, [])) ∧
    (∀ (r : Remap Rat), 0 < r.target.rows →
      ∀ weights, (∀ w ∈ weights, w.size = r.target.size) → ∀ wish,
        ∃ m, r.blockwiseOperator weights wish = .ok m ∧
          r.build { weights := weights } = .ok (m, [])) :=
  ⟨fun _ hrows hmany _ hw wish =>
      blockwiseOperator_of_tiles hrows hw (tiles_rowBlocks_binary hrows hmany wish),
    fun _ hrows _ hw wish => blockwiseOperator_of_tiles hrows hw (tiles_rowBlocks _ wish)⟩

/-- Four rows in three blocks, and in one for a wish for less than none. -/
theorem blockwiseOperator_eq_build_fourRows :
    let r : Remap Float := ⟨⟨2, 0, #[-1, 0, 1]⟩, ⟨3, 0, #[-1, -0.5, 0, 0.5, 1]⟩⟩
    let q : Remap Rat := ⟨⟨2, 0, #[-1, 0, 1]⟩, ⟨3, 0, #[-1, -1/2, 0, 1/2, 1]⟩⟩
    (∃ m, r.blockwiseOperator none 3 = .ok m ∧ r.build {} = .ok (m, [])) ∧
    (∃ m, q.blockwiseOperator none 3 = .ok m ∧ q.build {} = .ok (m, []) ∧
      m.entries.length = 16 ∧ m.entries.take 8 =
        [⟨0, 0, 1⟩, ⟨1, 0, 1/2⟩, ⟨1, 1, 1/2⟩, ⟨2, 1, 1⟩,
          ⟨3, 0, 1⟩, ⟨4, 0, 1/2⟩, ⟨4, 1, 1/2⟩, ⟨5, 1, 1⟩]) ∧
    (∃ m, q.blockwiseOperator (some (Array.replicate 12 2)) (-1) = .ok m ∧
      q.build { weights := some (Array.replicate 12 2) } = .ok (m, []) ∧
      m.entries.getLast? = some ⟨11, 3, 2⟩) ∧
    rowBlocks Rat 4 3 = [(0, 1), (1, 3), (3, 4)] ∧ rowBlocks Rat 4 (-1) = [(0, 4)] := by
  intro r q
  have hweights : ∀ w ∈ some (Array.replicate 12 (2 : Rat)), w.size = q.target.size := by
    rintro w ⟨⟩
    decide
  obtain ⟨m, hm, hbuilt⟩ := blockwiseOperator_eq_build.2 q (by decide) none (by simp) 3
  obtain ⟨m', hm', hbuilt'⟩ := blockwiseOperator_eq_build.2 q (by decide) _ hweights (-1)
  have hentries : (q.build {}).toOption.map (fun x => (x.1.entries.length, x.1.entries.take 8)) =
      some (16, [⟨0, 0, 1⟩, ⟨1, 0, 1/2⟩, ⟨1, 1, 1/2⟩, ⟨2, 1, 1⟩,
        ⟨3, 0, 1⟩, ⟨4, 0, 1/2⟩, ⟨4, 1, 1/2⟩, ⟨5, 1, 1⟩]) := by decide +kernel
  have hlast : (q.build { weights := some (Array.replicate 12 2) }).toOption.map
      (fun x => x.1.entries.getLast?) = some (some ⟨11, 3, 2⟩) := by decide +kernel
  rw [hbuilt] at hentries
  rw [hbuilt'] at hlast
  obtain ⟨hlength, hfirst⟩ := Prod.mk.inj (Option.some.inj hentries)
  exact ⟨blockwiseOperator_eq_build.1 r (by decide) (by decide) none (by simp) 3,
    ⟨m, hm, hbuilt, hlength, hfirst⟩, ⟨m', hm', hbuilt', Option.some.inj hlast⟩,
    by decide +kernel, by decide +kernel⟩

end Remap

end Regrid

import Mathlib.Algebra.Order.Floor.Semifield
import Mathlib.Data.List.Range
import Regrid.Proofs.Remap.Blocks

/-!
# Blocks of nearly equal size

The bounds of the blocks (`_row_chunks`) are multiples of a step, rounded, and ties may go either
way. All the same neighbouring bounds differ by the step, rounded down or up (`blockBound_succ`),
and the step is at least one row. So no block is empty, and no two of them differ by more than a row
(`rowBlocks_balanced`).
-/

namespace Regrid

/-! ## Bounds -/

variable {rows count : Nat}

theorem blockBound_eq (hcount : 0 < count) (k : Nat) :
    blockBound Rat rows count k = Decimal.roundHalfEven (k * rows) count := by
  have hproduct : (k : Rat) * (rows / count) = (k * rows : Nat) / count := by
    push_cast
    exact (mul_div_assoc _ _ _).symm
  rw [← toNat_round_div _ hcount, ← hproduct]
  rfl

/-- The place of the last bound, if it were reckoned like the others, is the last one. -/
theorem blockBound_count (hcount : 0 < count) : blockBound Rat rows count count = rows := by
  rw [blockBound_eq hcount, Nat.mul_comm, Decimal.roundHalfEven_mul hcount]

theorem blockBounds_eq (hcount : 0 < count) :
    blockBounds Rat rows count = (List.range (count + 1)).map (blockBound Rat rows count) := by
  rw [List.range_succ, List.map_append, List.map_singleton, blockBound_count hcount]
  rfl

/-- **Neighbouring bounds** differ by the step, rounded down or up. -/
theorem blockBound_succ (rows : Nat) (hcount : 0 < count) (k : Nat) :
    blockBound Rat rows count (k + 1) = blockBound Rat rows count k + ⌊(rows / count : Rat)⌋₊ ∨
      blockBound Rat rows count (k + 1) =
        blockBound Rat rows count k + ⌈(rows / count : Rat)⌉₊ := by
  have hpos : (0 : Rat) < count := by exact_mod_cast hcount
  rw [blockBound_eq hcount, blockBound_eq hcount, Nat.floor_div_eq_div]
  refine (Decimal.roundHalfEven_succ_mul hcount k).imp id fun ⟨hdvd, h⟩ => ?_
  have hceil : ⌈(rows / count : Rat)⌉₊ = rows / count + 1 := by
    have hrest := Nat.mod_lt rows hcount
    have hdivision := Nat.div_add_mod rows count
    have hne : rows % count ≠ 0 := fun h => hdvd (Nat.dvd_of_mod_eq_zero h)
    rw [Nat.ceil_eq_iff (Nat.add_one_ne_zero _), Nat.add_sub_cancel, lt_div_iff₀ hpos,
      div_le_iff₀ hpos]
    constructor
    · exact_mod_cast (by rw [Nat.mul_comm]; omega : rows / count * count < rows)
    · exact_mod_cast (by rw [Nat.mul_comm, Nat.mul_succ]; omega : rows ≤ (rows / count + 1) * count)
  rw [hceil]
  exact h

/-- With at least a row for each block the bounds ascend. -/
theorem blockBound_lt_succ (hcount : 0 < count) (hrows : count ≤ rows) (k : Nat) :
    blockBound Rat rows count k < blockBound Rat rows count (k + 1) := by
  have hfloor : 0 < ⌊(rows / count : Rat)⌋₊ := by
    rw [Nat.floor_div_eq_div]
    exact Nat.div_pos hrows hcount
  have hceil := Nat.floor_le_ceil (rows / count : Rat)
  rcases blockBound_succ rows hcount k with h | h <;> omega

/-! ## Blocks -/

theorem zip_tail_map_range {β : Type} (n : Nat) (f : Nat → β) :
    ((List.range (n + 1)).map f).zip ((List.range (n + 1)).map f).tail =
      (List.range n).map fun k => (f k, f (k + 1)) := by
  apply List.ext_getElem
  · simp
  · intro k h1 h2
    simp

/-- **No block is left out as empty**: the blocks are all those between neighbouring bounds. -/
theorem rowBlocks_eq (hrows : 0 < rows) (wish : Int) :
    rowBlocks Rat rows wish = (List.range (blockCount rows wish)).map fun k =>
      (blockBound Rat rows (blockCount rows wish) k,
        blockBound Rat rows (blockCount rows wish) (k + 1)) := by
  have hcount := blockCount_pos rows wish
  unfold rowBlocks
  simp only
  rw [blockBounds_eq hcount, zip_tail_map_range, List.filter_eq_self]
  intro b hb
  obtain ⟨k, -, rfl⟩ := List.mem_map.mp hb
  exact decide_eq_true (blockBound_lt_succ hcount (blockCount_le hrows wish) k)

/-- **The blocks of rows are of nearly equal size**: there are as many as wished for, but at least
one and at most one for every row. They follow one another from the first row to the last, every
two neighbouring bounds make one, and each has the equal share of the rows, rounded down or up. -/
theorem rowBlocks_balanced (hrows : 0 < rows) (wish : Int) :
    let blocks := rowBlocks Rat rows wish
    let bounds := blockBounds Rat rows (blockCount rows wish)
    (blocks.length : Int) = max 1 (min wish rows) ∧
    blocks.head?.map Prod.fst = some 0 ∧
    blocks.getLast?.map Prod.snd = some rows ∧
    blocks.IsChain (fun b c => c.1 = b.2) ∧
    blocks = bounds.zip bounds.tail ∧
    ∀ b ∈ blocks, b.1 < b.2 ∧ (b.2 - b.1 = ⌊(rows / blocks.length : Rat)⌋₊ ∨
      b.2 - b.1 = ⌈(rows / blocks.length : Rat)⌉₊) := by
  intro blocks bounds
  have hcount := blockCount_pos rows wish
  have hblocks : blocks = _ := rowBlocks_eq hrows wish
  have hlength : blocks.length = blockCount rows wish := by
    rw [hblocks, List.length_map, List.length_range]
  have hbounds : bounds = _ := blockBounds_eq hcount
  refine ⟨?_, ?_, ?_, ?_, ?_, fun b hb => ?_⟩
  · rw [hlength, blockCount]
    omega
  · rw [hblocks, head?_map_range hcount, Option.map_some, blockBound_eq hcount, Nat.zero_mul,
      Decimal.roundHalfEven_zero hcount]
  · rw [hblocks, getLast?_map_range hcount, Option.map_some, Nat.sub_add_cancel hcount,
      blockBound_count hcount]
  · rw [hblocks, List.isChain_map, List.isChain_range]
    exact fun _ _ => rfl
  · rw [hblocks, hbounds, zip_tail_map_range]
  · rw [hlength]
    rw [hblocks] at hb
    obtain ⟨k, -, rfl⟩ := List.mem_map.mp hb
    refine ⟨blockBound_lt_succ hcount (blockCount_le hrows wish) k, ?_⟩
    exact (blockBound_succ rows hcount k).imp Nat.sub_eq_of_eq_add' Nat.sub_eq_of_eq_add'

/-- Ten rows in four blocks: two of the bounds are ties, and one is rounded down, the other up. -/
theorem rowBlocks_balanced_ties :
    0 < 10 ∧ rowBlocks Rat 10 4 = [(0, 2), (2, 5), (5, 8), (8, 10)] ∧
    ((rowBlocks Rat 10 4).length : Int) = max 1 (min 4 10) ∧
    ∀ b ∈ rowBlocks Rat 10 4, b.1 < b.2 ∧ (b.2 - b.1 = 2 ∨ b.2 - b.1 = 3) := by
  obtain ⟨hlength, -, -, -, -, hsize⟩ := rowBlocks_balanced (by decide : 0 < 10) 4
  have hblocks : rowBlocks Rat 10 4 = [(0, 2), (2, 5), (5, 8), (8, 10)] := by decide +kernel
  have hfour : (rowBlocks Rat 10 4).length = 4 := by rw [hblocks]; rfl
  have hfloor : ⌊((10 : Nat) / (4 : Nat) : Rat)⌋₊ = 2 := by rw [Nat.floor_div_eq_div]
  have hceil : ⌈((10 : Nat) / (4 : Nat) : Rat)⌉₊ = 3 := by
    rw [Nat.ceil_eq_iff (by decide)]
    norm_num
  rw [hfour, hfloor, hceil] at hsize
  exact ⟨by decide, hblocks, hlength, hsize⟩

end Regrid

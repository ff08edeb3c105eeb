import Regrid.Proofs.Number
import Regrid.Proofs.Packing.Basic
import Regrid.Proofs.Tensor

/-!
# Searching among the used identifiers

Many identifiers are looked up at once by binary search. The search keeps two bounds, with smaller
identifiers before the lower one and no smaller ones from the upper one on (`Splits`); where they
meet, an identifier stands if it is used at all (`place_eq_index`, `stands_iff`).

So looking up many identifiers is looking up one after the other, also where one of them is not
used (`toPackedAll_eq`), and the same holds of packed indices (`toFullAll_eq`).
-/

namespace Regrid

namespace Packing

variable {p : Packing} {id : Int} {low high : Nat}

/-! ## One identifier -/

/-- The used identifiers before `low` are smaller than the given one, and those from `high` on are
not. -/
structure Splits (p : Packing) (id : Int) (low high : Nat) : Prop where
  below : ∀ i, i < low → (p.ids.getD i 0 : Int) < id
  above : ∀ i, high ≤ i → i < p.size → id ≤ p.ids.getD i 0

theorem splits_all : Splits p id 0 p.size :=
  ⟨fun _ hi => absurd hi (Nat.not_lt_zero _), fun _ hi hsize => absurd hsize (not_lt.mpr hi)⟩

variable (h : p.Ordered)
include h

theorem getD_lt_getD {i j : Nat} (hij : i < j) (hj : j < p.size) :
    p.ids.getD i 0 < p.ids.getD j 0 := by
  have hsize : p.ids.toList.length = p.size := Array.length_toList
  have hlt := List.pairwise_iff_getElem.mp h i j (by omega) (by omega) hij
  rw [Array.getElem_toList, Array.getElem_toList] at hlt
  rwa [Array.getD_eq_getD_getElem?, Array.getD_eq_getD_getElem?,
    Array.getElem?_eq_getElem (show i < p.ids.size from hij.trans hj),
    Array.getElem?_eq_getElem (show j < p.ids.size from hj)]

theorem getD_le_getD {i j : Nat} (hij : i ≤ j) (hj : j < p.size) :
    p.ids.getD i 0 ≤ p.ids.getD j 0 := by
  rcases hij.lt_or_eq with hlt | rfl
  · exact (getD_lt_getD h hlt hj).le
  · exact le_rfl

/-- A step that moves the lower bound behind a smaller identifier. -/
theorem Splits.raise {middle : Nat} (hs : Splits p id low high) (hmiddle : middle < p.size)
    (hlt : (p.ids.getD middle 0 : Int) < id) : Splits p id (middle + 1) high := by
  refine ⟨fun i hi => ?_, hs.above⟩
  have := getD_le_getD h (Nat.le_of_lt_succ hi) hmiddle
  omega

/-- A step that moves the upper bound to an identifier that is not smaller. -/
theorem Splits.reduce {middle : Nat} (hs : Splits p id low high)
    (hle : ¬(p.ids.getD middle 0 : Int) < id) : Splits p id low middle := by
  refine ⟨hs.below, fun i hi hsize => ?_⟩
  have := getD_le_getD h hi hsize
  omega

/-- Where the search ends, the bounds have met. -/
theorem placeBetween_splits (hle : low ≤ high) (hsize : high ≤ p.size)
    (hs : Splits p id low high) :
    p.placeBetween id low high ≤ p.size ∧
      Splits p id (p.placeBetween id low high) (p.placeBetween id low high) := by
  fun_induction placeBetween p id low high with
  | case1 low high hlt middle hbelow ih =>
    exact ih (by omega) hsize (hs.raise h (by omega) hbelow)
  | case2 low high hlt middle hbelow ih =>
    exact ih (by omega) (by omega) (hs.reduce h hbelow)
  | case3 low high hlt =>
    obtain rfl : low = high := by omega
    exact ⟨hsize, hs⟩

theorem place_splits : p.place id ≤ p.size ∧ Splits p id (p.place id) (p.place id) :=
  placeBetween_splits h (Nat.zero_le _) le_rfl splits_all

omit h in
theorem getD_index {n : Nat} (hn : n ∈ p.ids) : p.ids.getD (p.index n) 0 = n := by
  have hmap := getD_map_index hn (fun id => id) 0
  rwa [Array.map_id'] at hmap

/-- A used identifier has its position for its place. -/
theorem place_eq_index {n : Nat} (hn : n ∈ p.ids) : p.place n = p.index n := by
  obtain ⟨-, hbelow, habove⟩ : _ ∧ Splits p n (p.place n) (p.place n) := place_splits h
  have hget := getD_index hn
  rcases Nat.lt_trichotomy (p.place n) (p.index n) with hlt | heq | hgt
  · have hge := habove _ le_rfl (hlt.trans (index_lt hn))
    have := getD_lt_getD h hlt (index_lt hn)
    omega
  · exact heq
  · have := hbelow _ hgt
    omega

/-- An identifier stands at its place if it is used, and only then. -/
theorem stands_iff (hsize : p.size ≠ 0) : p.stands id = true ↔ ∃ n ∈ p.ids, (n : Int) = id := by
  rw [stands, beq_iff_eq]
  constructor
  · intro hid
    have hlt : min (p.place id) (p.size - 1) < p.ids.size := by
      have : p.ids.size = p.size := rfl
      omega
    refine ⟨p.ids.getD (min (p.place id) (p.size - 1)) 0, ?_, hid⟩
    rw [Array.getD_eq_getD_getElem?, Array.getElem?_eq_getElem hlt]
    exact Array.getElem_mem hlt
  · rintro ⟨n, hn, rfl⟩
    have hlt := index_lt hn
    rw [place_eq_index h hn, min_eq_left (by omega), getD_index hn]

/-! ## Many identifiers -/

/-- **Looking up many identifiers** is looking up one after the other: the result holds what each
lookup gives, and the first identifier that is not used is named as its own lookup names it. -/
theorem toPackedAll_eq (ids : Tensor Int) :
    p.toPackedAll ids = ids.mapM fun id => p.toPacked (.whole id) := by
  by_cases hsize : p.size = 0
  · have hnone (n : Nat) : n ∉ p.ids := fun hn => by
      have := index_lt hn
      omega
    rw [Tensor.mapM_eq_find? (fun _ => true) p.place (fun id => .notFound (.int id) p.name)
      fun id _ => toPacked_unused fun n hn => absurd hn (hnone n)]
    obtain ⟨shape, ⟨values⟩⟩ := ids
    cases values with
    | nil => simp [toPackedAll]
    | cons first rest => simp [toPackedAll, hsize]
  · rw [Tensor.mapM_eq_find? (fun id => !p.stands id) p.place
      (fun id => .notFound (.int id) p.name) fun id _ => ?_]
    · obtain ⟨shape, ⟨values⟩⟩ := ids
      cases values with
      | nil => simp [toPackedAll]
      | cons first rest =>
        simp only [toPackedAll, if_neg hsize, List.getElem?_toArray, List.getElem?_cons_zero]
        cases Array.find? _ _ <;> rfl
    · cases hid : p.stands id with
      | true =>
        obtain ⟨n, hn, rfl⟩ := (stands_iff h hsize).mp hid
        rw [toPacked_used hn, place_eq_index h hn]
        rfl
      | false =>
        refine toPacked_unused fun n hn heq => ?_
        rw [(stands_iff h hsize).mpr ⟨n, hn, heq⟩] at hid
        cases hid

omit h

theorem toFull_inside {i : Int} (hi : 0 ≤ i ∧ i < p.size) :
    p.toFull (.whole i) = .ok (p.ids.getD i.toNat 0) := by
  have hlow := (Number.atLeast_iff (x := .whole i) (q := i) rfl 0).mpr (Int.cast_le.mpr hi.1)
  have hhigh := (Number.below_iff (x := .whole i) (q := i) rfl p.size).mpr (Int.cast_lt.mpr hi.2)
  rw [toFull, hlow, hhigh]
  rfl

theorem toFull_outside {i : Int} (hi : ¬(0 ≤ i ∧ i < p.size)) :
    p.toFull (.whole i) = .error (.outOfRange (.int i) (.int p.size) p.name) := by
  refine if_neg fun hin => hi ?_
  rw [Bool.and_eq_true, Number.atLeast_iff (q := i) rfl, Number.below_iff (q := i) rfl] at hin
  exact ⟨Int.cast_le.mp hin.1, Int.cast_lt.mp hin.2⟩

/-- **The identifiers at many packed indices** are those at one after the other. -/
theorem toFullAll_eq (indices : Tensor Int) :
    p.toFullAll indices = indices.mapM fun i => p.toFull (.whole i) := by
  have hstep (i : Int) : p.toFull (.whole i) = if i < 0 || p.size ≤ i then
      .error (.outOfRange (.int i) (.int p.size) p.name) else .ok (p.ids.getD i.toNat 0) := by
    split_ifs with hi
    · exact toFull_outside fun hin => by simp at hi; omega
    · exact toFull_inside (by simp at hi; omega)
  rw [Tensor.mapM_eq_find? _ _ _ fun i _ => hstep i]
  unfold toFullAll
  cases Array.find? _ _ <;> rfl

end Packing

end Regrid

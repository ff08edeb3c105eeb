import Mathlib.Data.List.Basic
import Mathlib.Data.List.Nodup
import Regrid.Proofs.Exact
import Regrid.Proofs.Outcome
import Regrid.Packing.Basic

/-!
# Packings

The packing of identifiers of a full space numbers each of them once, in ascending order
(`ofUsed_eq`). `index` is the position of an identifier: `toPacked_used` says that the packing finds
it, and `forall_index_iff` that the positions run through all of `[0, size)`.

* `pack_vector`: packing a vector takes its values at the used identifiers.
* `unpack_eq`: unpacking puts slices back at them, and the filling elsewhere; the slices of a vector
  are values (`unpack_vector`).
-/

namespace Regrid

/-! ## Ascending lists -/

theorem mem_insertDistinct {n m : Nat} : ∀ {l : List Nat}, m ∈ insertDistinct n l ↔ m = n ∨ m ∈ l
  | [] => by simp [insertDistinct]
  | k :: l => by
    unfold insertDistinct
    split_ifs with hlt heq
    · exact List.mem_cons
    · rw [heq, List.mem_cons, or_self_left]
    · rw [List.mem_cons, mem_insertDistinct, List.mem_cons, or_left_comm]

theorem sorted_insertDistinct (n : Nat) : ∀ {l : List Nat}, l.Pairwise (· < ·) →
    (insertDistinct n l).Pairwise (· < ·)
  | [], _ => List.pairwise_singleton _ _
  | k :: l, h => by
    obtain ⟨hk, hl⟩ := List.pairwise_cons.mp h
    unfold insertDistinct
    split_ifs with hlt heq
    · refine List.pairwise_cons.mpr ⟨fun m hm => ?_, h⟩
      rcases List.mem_cons.mp hm with rfl | hm
      · exact hlt
      · exact hlt.trans (hk m hm)
    · exact h
    · refine List.pairwise_cons.mpr ⟨fun m hm => ?_, sorted_insertDistinct n hl⟩
      rcases mem_insertDistinct.mp hm with rfl | hm
      · omega
      · exact hk m hm

theorem mem_ascending {n : Nat} {ns : List Nat} : n ∈ ascending ns ↔ n ∈ ns := by
  induction ns with
  | nil => rfl
  | cons m ns ih =>
    show n ∈ insertDistinct m (ascending ns) ↔ _
    rw [mem_insertDistinct, ih, List.mem_cons]

theorem sorted_ascending (ns : List Nat) : (ascending ns).Pairwise (· < ·) := by
  induction ns with
  | nil => exact List.Pairwise.nil
  | cons m ns ih => exact sorted_insertDistinct m ih

theorem nodup_ascending (ns : List Nat) : (ascending ns).Nodup :=
  (sorted_ascending ns).imp fun h => h.ne

theorem ascending_eq_self {ns : List Nat} (h : ns.Pairwise (· < ·)) : ascending ns = ns := by
  induction ns with
  | nil => rfl
  | cons m ns ih =>
    obtain ⟨hm, h⟩ := List.pairwise_cons.mp h
    show insertDistinct m (ascending ns) = m :: ns
    rw [ih h]
    cases ns with
    | nil => rfl
    | cons k ns => exact if_pos (hm k List.mem_cons_self)

/-- A sum over the distinct numbers of a list. -/
theorem sum_ascending (ns : List Nat) (f : Nat → Rat) :
    ((ascending ns).map f).sum = ∑ n ∈ ns.toFinset, f n := by
  rw [← List.sum_toFinset f (nodup_ascending ns)]
  refine Finset.sum_congr (Finset.ext fun n => ?_) fun _ _ => rfl
  rw [List.mem_toFinset, List.mem_toFinset, mem_ascending]

/-! ## Positions -/

/-- The elements of a list without duplicates stand at all its positions. -/
theorem map_idxOf {α : Type} [BEq α] [LawfulBEq α] {l : List α} (h : l.Nodup) :
    (l.map fun a => l.idxOf a) = List.range l.length := by
  apply List.ext_getElem
  · rw [List.length_map, List.length_range]
  · intro i h1 h2
    rw [List.getElem_map, List.getElem_range, h.idxOf_getElem]

theorem sum_range_idxOf {α : Type} [BEq α] [LawfulBEq α] {l : List α} (h : l.Nodup)
    (f : Nat → Rat) :
    ∑ k ∈ Finset.range l.length, f k = (l.map fun a => f (l.idxOf a)).sum := by
  rw [← sum_map_range, ← map_idxOf h, List.map_map]
  rfl

theorem zipIdx_eq_map {α : Type} [BEq α] [LawfulBEq α] {l : List α} (h : l.Nodup) :
    l.zipIdx = l.map fun a => (a, l.idxOf a) := by
  apply List.ext_getElem
  · simp
  · intro i h1 h2
    simp [h.idxOf_getElem]

theorem idxOf?_eq_idxOf {α : Type} [BEq α] [LawfulBEq α] {l : List α} {a : α} (h : a ∈ l) :
    l.idxOf? a = some (l.idxOf a) := by
  induction l with
  | nil => cases h
  | cons b l ih =>
    rw [List.idxOf?_cons, List.idxOf_cons]
    by_cases hb : b = a
    · simp [hb]
    · have hmem : a ∈ l := (List.mem_cons.mp h).resolve_left fun he => hb he.symm
      have hbeq : (b == a) = false := beq_eq_false_iff_ne.mpr hb
      simp [hbeq, ih hmem]

/-- The place of an element of a list without duplicates. -/
theorem idxOf?_eq_some_iff {α : Type} [BEq α] [LawfulBEq α] {l : List α} (h : l.Nodup) {a : α}
    {n : Nat} : l.idxOf? a = some n ↔ l[n]? = some a := by
  constructor
  · intro hn
    by_cases hmem : a ∈ l
    · rw [idxOf?_eq_idxOf hmem] at hn
      obtain rfl := Option.some.inj hn
      exact List.getElem?_idxOf hmem
    · rw [List.idxOf?_eq_none_iff.mpr hmem] at hn
      cases hn
  · intro hn
    obtain ⟨hlt, rfl⟩ := List.getElem?_eq_some_iff.mp hn
    rw [idxOf?_eq_idxOf (List.getElem_mem hlt), h.idxOf_getElem]

namespace Packing

/-- The packing of the used identifiers among `[0, full)`. -/
def used (full : Nat) (ids : List Nat) (name : String) : Packing :=
  ⟨full, (ascending ids).toArray, name⟩

/-- Identifiers that fit into the full space are packed, and without any every space will do. -/
theorem ofUsed_of_fits {full : Int} {ids : List Nat} (h : ∀ id ∈ ids, (id : Int) < full)
    (name : String) : ofUsed full (ids.map fun id : Nat => (id : Int)) name =
      .ok ⟨full, (ascending ids).toArray, name⟩ := by
  have hfit : misfit? full (ids.map fun id : Nat => (id : Int)) = none := by
    unfold misfit?
    split
    · rename_i low high hlow hhigh
      obtain ⟨i, -, rfl⟩ := List.mem_map.mp (List.min?_mem hlow)
      obtain ⟨j, hj, rfl⟩ := List.mem_map.mp (List.max?_mem hhigh)
      have := h j hj
      rw [if_neg (by omega), if_neg (by omega)]
    · rfl
  have hids : (ids.map fun id : Nat => (id : Int)).map Int.toNat = ids := by
    rw [List.map_map]
    exact List.map_id ids
  rw [ofUsed, hfit, hids]

theorem ofUsed_eq {full : Nat} {ids : List Nat} (h : ∀ id ∈ ids, id < full) (name : String) :
    ofUsed full (ids.map fun id : Nat => (id : Int)) name = .ok (used full ids name) :=
  ofUsed_of_fits (fun id hid => Int.ofNat_lt.mpr (h id hid)) name

/-- The position of an identifier. -/
def index (p : Packing) (id : Nat) : Nat := p.ids.toList.idxOf id

/-- The used identifiers stand in ascending order, each of them once. -/
def Ordered (p : Packing) : Prop := p.ids.toList.Pairwise (· < ·)

variable {p : Packing} {id : Nat}

theorem Ordered.nodup (h : p.Ordered) : p.ids.toList.Nodup := h.imp fun hlt => hlt.ne

theorem ordered_used {full : Nat} {ids : List Nat} {name : String} :
    (used full ids name).Ordered := sorted_ascending ids

theorem mem_used {full : Nat} {ids : List Nat} {name : String} :
    id ∈ (used full ids name).ids ↔ id ∈ ids := by
  rw [used, List.mem_toArray, mem_ascending]

theorem index_lt (h : id ∈ p.ids) : p.index id < p.size := by
  have := List.idxOf_lt_length_of_mem (Array.mem_def.mp h)
  rwa [Array.length_toList] at this

theorem index_inj {id' : Nat} (h : id ∈ p.ids) : p.index id = p.index id' ↔ id = id' :=
  List.idxOf_inj (Array.mem_def.mp h)

/-- Every packed index is the one of a used identifier. -/
theorem forall_index_iff (h : p.ids.toList.Nodup) {P : Nat → Prop} :
    (∀ k, k < p.size → P k) ↔ ∀ id ∈ p.ids, P (p.index id) := by
  refine ⟨fun hP id hid => hP _ (index_lt hid), fun hP k hk => ?_⟩
  have hindex : p.index p.ids[k] = k := h.idxOf_getElem k hk
  rw [← hindex]
  exact hP _ (Array.getElem_mem hk)

theorem position?_eq (h : id ∈ p.ids) : p.position? id = some (p.index id) := by
  unfold position? index
  rw [if_neg (by omega), Int.toNat_natCast, ← idxOf?_eq_idxOf (Array.mem_def.mp h),
    ← List.idxOf?_toArray, Array.toArray_toList]

theorem position?_eq_none {id : Int} (h : ∀ n ∈ p.ids, (n : Int) ≠ id) :
    p.position? id = none := by
  unfold position?
  split_ifs with hneg
  · rfl
  · have hid : id.toNat ∉ p.ids := fun hmem => h _ hmem (Int.toNat_of_nonneg (not_lt.mp hneg))
    have hlist : p.ids.toList.toArray = p.ids := Array.toArray_toList
    rw [← hlist, List.idxOf?_toArray, List.idxOf?_eq_none_iff]
    exact fun hmem => hid (Array.mem_def.mpr hmem)

/-- **A used identifier is found** at its position. -/
theorem toPacked_used (h : id ∈ p.ids) : p.toPacked (.whole id) = .ok (p.index id) := by
  rw [toPacked, show (Number.whole id).toInt = .ok (id : Int) from rfl, bind_ok, position?_eq h]
  rfl

/-- Any other identifier is named. -/
theorem toPacked_unused {id : Int} (h : ∀ n ∈ p.ids, (n : Int) ≠ id) :
    p.toPacked (.whole id) = .error (.notFound (.int id) p.name) := by
  rw [toPacked, show (Number.whole id).toInt = .ok id from rfl, bind_ok, position?_eq_none h]
  rfl

theorem toPacked_eq_ok (h : p.ids.toList.Nodup) {k : Nat} :
    p.toPacked (.whole id) = .ok k ↔ p.ids.toList[k]? = some id := by
  have hposition : p.position? id = p.ids.idxOf? id := by
    rw [position?, if_neg (by omega), Int.toNat_natCast]
  have hid : (Number.whole id).toInt = .ok (id : Int) := rfl
  rw [← idxOf?_eq_some_iff h, ← List.idxOf?_toArray, Array.toArray_toList, toPacked, hid, bind_ok,
    hposition]
  cases p.ids.idxOf? id with
  | none => exact iff_of_false error_ne_ok (Option.some_ne_none k).symm
  | some i => exact ok_eq_ok

/-- What stands at the position of an identifier. -/
theorem getD_map_index {α : Type} (h : id ∈ p.ids) (f : Nat → α) (d : α) :
    (p.ids.map f).getD (p.index id) d = f id := by
  have hget : p.ids[p.index id]? = some id := by
    rw [← Array.getElem?_toList]
    exact List.getElem?_idxOf (Array.mem_def.mp h)
  rw [Array.getD_eq_getD_getElem?, Array.getElem?_map, hget, Option.map_some, Option.getD_some]

/-! ## Vectors -/

section Vectors

variable {α : Type}

theorem slice_vector {v : Tensor α} {n i : Nat} (hv : v.shape = [n]) (hi : i < v.values.size)
    (d : α) : v.slice i = #[v.values.getD i d] := by
  have hextent : Tensor.extent v.shape.tail = 1 := by
    rw [hv]
    rfl
  simp only [Tensor.slice, hextent, Nat.mul_one]
  apply Array.ext
  · simp
    omega
  · intro k h1 h2
    have hk : k = 0 := by simpa using h2
    subst hk
    simp [Array.getD, hi]

theorem flatten_singletons (xs : Array α) : (xs.map fun x => #[x]).flatten = xs := by
  rw [← Array.flatMap_def, Array.flatMap_singleton']

/-- **Packing a vector** takes its values at the used identifiers. -/
theorem pack_vector {v : Tensor α} (hv : v.shape = [v.values.size])
    (hfull : p.full = v.values.size) (hids : ∀ id ∈ p.ids, id < v.values.size) (d : α) :
    p.pack v = .ok (Tensor.ofArray (p.ids.map fun id => v.values.getD id d)) := by
  have hslices : p.ids.map v.slice =
      (p.ids.map fun id => v.values.getD id d).map fun x => #[x] := by
    rw [Array.map_map]
    exact Array.map_congr_left fun id hid => slice_vector hv (hids id hid) d
  unfold pack
  rw [hv]
  simp only
  rw [if_pos hfull.symm, hslices, Tensor.ofSlices, flatten_singletons, Array.size_map]
  rfl

/-- What a vector is after values have been put at some of its places. -/
theorem getD_foldl_set (target : Nat → α) (d : α) : ∀ (puts : List (Nat × α)),
    (∀ t ∈ puts, t.2 = target t.1) → ∀ {xs : Array α} {i : Nat}, i < xs.size →
    (puts.foldl (fun acc t => acc.set! t.1 t.2) xs).getD i d =
      if i ∈ puts.map Prod.fst then target i else xs.getD i d
  | [], _, xs, i, _ => by simp
  | t :: puts, h, xs, i, hi => by
    rw [List.foldl_cons, getD_foldl_set target d puts (fun u hu => h u (List.mem_cons_of_mem t hu))
      (by simpa using hi)]
    by_cases hlater : i ∈ puts.map Prod.fst
    · simp [hlater]
    · by_cases hsame : t.1 = i
      · have hvalue := h t List.mem_cons_self
        subst hsame
        simp [hlater, hi, hvalue]
      · have hne : i ≠ t.1 := fun he => hsame he.symm
        simp [hlater, hne, hsame, Array.getD_eq_getD_getElem?]

theorem size_foldl_set (puts : List (Nat × α)) (xs : Array α) :
    (puts.foldl (fun acc t => acc.set! t.1 t.2) xs).size = xs.size := by
  induction puts generalizing xs with
  | nil => rfl
  | cons t puts ih =>
    rw [List.foldl_cons, ih, Array.set!_eq_setIfInBounds, Array.size_setIfInBounds]

/-- The vector with values at some of its places, in the order in which the places are listed. -/
def scatter (ids : List Nat) (f : Nat → α) (xs : Array α) : Array α :=
  ids.zipIdx.foldl (fun acc t => acc.set! t.1 (f t.2)) xs

theorem scatter_eq_foldl (ids : List Nat) (f : Nat → α) (xs : Array α) : scatter ids f xs =
    (ids.zipIdx.map fun t => (t.1, f t.2)).foldl (fun acc t => acc.set! t.1 t.2) xs := by
  rw [scatter, List.foldl_map]

theorem size_scatter (ids : List Nat) (f : Nat → α) (xs : Array α) :
    (scatter ids f xs).size = xs.size := by
  rw [scatter_eq_foldl, size_foldl_set]

theorem getD_scatter {ids : List Nat} (h : ids.Nodup) (f : Nat → α) {xs : Array α} {i : Nat}
    (hi : i < xs.size) (d : α) : (scatter ids f xs).getD i d =
      if i ∈ ids then f (ids.idxOf i) else xs.getD i d := by
  have hputs : (ids.zipIdx.map fun t => (t.1, f t.2)) =
      ids.map fun id => (id, f (ids.idxOf id)) := by
    rw [zipIdx_eq_map h, List.map_map]
    rfl
  have hkeys : (ids.map fun id => (id, f (ids.idxOf id))).map Prod.fst = ids := by
    rw [List.map_map]
    exact List.map_id ids
  rw [scatter_eq_foldl, hputs, getD_foldl_set (fun id => f (ids.idxOf id)) d _ ?_ hi, hkeys]
  intro t ht
  obtain ⟨id, -, rfl⟩ := List.mem_map.mp ht
  rfl

/-- The slices of the full space: packed ones at the used identifiers, the filling elsewhere. -/
def spreadSlice (p : Packing) (v : Tensor α) (blank : Array α) (id : Nat) : Array α :=
  if id ∈ p.ids then v.slice (p.index id) else blank

theorem scatter_eq_spread {v : Tensor α} {full : Nat} (hids : p.ids.toList.Nodup)
    (blank : Array α) : scatter p.ids.toList v.slice (Array.replicate full blank) =
      ((List.range full).map (p.spreadSlice v blank)).toArray := by
  refine Array.ext (by rw [size_scatter]; simp) fun id hid hid' => ?_
  have hlt : id < full := by rwa [size_scatter, Array.size_replicate] at hid
  have hbounds : id < (Array.replicate full blank).size := by rwa [Array.size_replicate]
  have hget := getD_scatter hids v.slice hbounds blank
  rw [Array.getD_eq_getD_getElem?, Array.getElem?_eq_getElem hid, Option.getD_some] at hget
  rw [hget]
  simp [spreadSlice, index, hlt]

/-- **Unpacking** puts the packed slices at the used identifiers, and the filling elsewhere. -/
theorem unpack_eq {v : Tensor α} {rest : List Nat} {full : Nat} (hids : p.ids.toList.Nodup)
    (hfull : p.full = full) (hshape : v.shape = p.size :: rest) (fill : α) : p.unpack v fill =
      .ok (Tensor.ofSlices rest ((List.range full).map
        (p.spreadSlice v (Array.replicate (Tensor.extent rest) fill))).toArray) := by
  unfold unpack
  rw [hshape]
  dsimp only
  rw [if_neg (not_not.mpr rfl), if_neg (by omega), hfull, Int.toNat_natCast,
    ← scatter_eq_spread hids]
  rfl

/-- **Unpacking a vector** puts its values at the used identifiers and the filling elsewhere. -/
theorem unpack_vector {v : Tensor α} (hv : v.shape = [p.size])
    (hsize : v.values.size = p.size) (hids : p.ids.toList.Nodup) {full : Nat}
    (hfull : p.full = full) (fill d : α) :
    ∃ ys : Array α, p.unpack v fill = .ok (Tensor.ofArray ys) ∧ ys.size = full ∧
      ∀ id, id < full →
        ys.getD id d = if id ∈ p.ids then v.values.getD (p.index id) d else fill := by
  obtain ⟨value, hvalue⟩ : ∃ value : Nat → α, ∀ id, value id =
    if id ∈ p.ids then v.values.getD (p.index id) d else fill := ⟨_, fun _ => rfl⟩
  have hslice (id : Nat) : p.spreadSlice v (Array.replicate (Tensor.extent []) fill) id =
      #[value id] := by
    rw [hvalue, spreadSlice]
    split_ifs with hid
    · exact slice_vector hv (hsize ▸ index_lt hid) d
    · rfl
  have hslices : ((List.range full).map
      (p.spreadSlice v (Array.replicate (Tensor.extent []) fill))).toArray =
        ((List.range full).map value).toArray.map fun x => #[x] := by
    rw [List.map_toArray, List.map_map, funext hslice]
    rfl
  refine ⟨((List.range full).map value).toArray, ?_, by simp, fun id hid => ?_⟩
  · rw [unpack_eq hids hfull hv fill, hslices, Tensor.ofSlices, flatten_singletons, Array.size_map]
    rfl
  · simp [hvalue, hid]

end Vectors

end Packing

end Regrid

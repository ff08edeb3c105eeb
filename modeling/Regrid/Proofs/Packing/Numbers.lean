import Regrid.Proofs.Packing.Search

/-!
# The numbering of the used identifiers

A packing (`IndexSpace`) is refused exactly if an identifier lies outside the full space
(`ofUsed_cases`), and depends on nothing but which identifiers are used (`ofUsed_congr`).
`ofUsed_numbering` puts together what it is to them.

A full space of negative size has no identifiers and can be packed, but not unpacked
(`unpack_negative`).
-/

namespace Regrid

/-- The distinct numbers of a list depend on its members only. -/
theorem ascending_congr {ns ms : List Nat} (h : ∀ n, n ∈ ns ↔ n ∈ ms) :
    ascending ns = ascending ms := by
  have hperm : (ascending ns).Perm (ascending ms) :=
    (List.perm_ext_iff_of_nodup (nodup_ascending ns) (nodup_ascending ms)).mpr fun n => by
      rw [mem_ascending, mem_ascending, h]
  exact hperm.eq_of_pairwise' (sorted_ascending ns) (sorted_ascending ms)

namespace Packing

variable {p : Packing} {full : Int} {used : List Int} {name : String}

/-! ## What is accepted -/

theorem ofUsed_cases (full : Int) (used : List Int) (name : String) :
    (∀ id ∈ used, 0 ≤ id ∧ id < full) ∧ ofUsed full used name =
        .ok ⟨full, (ascending (used.map Int.toNat)).toArray, name⟩ ∨
      ∃ id ∈ used, ¬(0 ≤ id ∧ id < full) ∧ ofUsed full used name =
        .error (.outOfRange (.int id) (.int full) ("full space of " ++ name)) := by
  cases hlow : used.min? with
  | none =>
    obtain rfl := List.min?_eq_none_iff.mp hlow
    exact Or.inl ⟨fun _ h => absurd h List.not_mem_nil, rfl⟩
  | some low =>
    cases hhigh : used.max? with
    | none =>
      obtain rfl := List.max?_eq_none_iff.mp hhigh
      cases hlow
    | some high =>
      obtain ⟨hmem, hleast⟩ := List.min?_eq_some_iff.mp hlow
      obtain ⟨hmem', hgreatest⟩ := List.max?_eq_some_iff.mp hhigh
      unfold ofUsed misfit?
      rw [hlow, hhigh]
      dsimp only
      split_ifs with hneg hlarge
      · exact Or.inr ⟨low, hmem, by omega, rfl⟩
      · exact Or.inr ⟨high, hmem', by omega, rfl⟩
      · refine Or.inl ⟨fun id hid => ?_, rfl⟩
        have := hleast id hid
        have := hgreatest id hid
        omega

/-- **The order and the number of mentions** of the used identifiers do not matter. -/
theorem ofUsed_congr {used' : List Int} (h : ∀ id, id ∈ used' ↔ id ∈ used)
    (hp : ofUsed full used name = .ok p) : ofUsed full used' name = .ok p := by
  rcases ofUsed_cases full used name with ⟨hfit, hok⟩ | ⟨id, -, -, herror⟩
  · rcases ofUsed_cases full used' name with ⟨-, hok'⟩ | ⟨id, hid, hout, -⟩
    · have hids : ascending (used'.map Int.toNat) = ascending (used.map Int.toNat) :=
        ascending_congr fun n => by simp only [List.mem_map, h]
      rw [hok', hids, ← hok, hp]
    · exact absurd (hfit id ((h id).mp hid)) hout
  · rw [herror] at hp
    cases hp

/-- A packing that is accepted is made from identifiers of the full space. -/
theorem of_ofUsed (hp : ofUsed full used name = .ok p) :
    p.full = full ∧ p.name = name ∧ p.Ordered ∧ (∀ id ∈ used, 0 ≤ id ∧ id < full) ∧
      ∀ n : Nat, n ∈ p.ids ↔ (n : Int) ∈ used := by
  rcases ofUsed_cases full used name with ⟨hfit, hok⟩ | ⟨id, -, -, herror⟩
  · obtain rfl := Except.ok.inj (hok.symm.trans hp)
    refine ⟨rfl, rfl, sorted_ascending _, hfit, fun n => ?_⟩
    rw [List.mem_toArray, mem_ascending, List.mem_map]
    constructor
    · rintro ⟨id, hid, rfl⟩
      rwa [Int.toNat_of_nonneg (hfit id hid).1]
    · exact fun hn => ⟨n, hn, Int.toNat_natCast n⟩
  · rw [herror] at hp
    cases hp

/-! ## Vectors -/

section Vectors

variable {α : Type} {v : Tensor α} {rest : List Nat}

theorem size_spreadSlice (hshape : v.shape = p.size :: rest)
    (hfilled : v.values.size = Tensor.extent v.shape) {blank : Array α}
    (hblank : blank.size = Tensor.extent rest) (id : Nat) :
    (p.spreadSlice v blank id).size = Tensor.extent rest := by
  unfold spreadSlice
  split_ifs with hid
  · exact Tensor.size_slice hshape hfilled (index_lt hid)
  · exact hblank

/-- **Packing takes unpacked values back.** -/
theorem pack_unpacked {size : Nat} (h : p.Ordered) (hfull : p.full = size)
    (hids : ∀ id ∈ p.ids, id < size) (hshape : v.shape = p.size :: rest)
    (hfilled : v.values.size = Tensor.extent v.shape) {blank : Array α}
    (hblank : blank.size = Tensor.extent rest) :
    p.pack (Tensor.ofSlices rest ((List.range size).map (p.spreadSlice v blank)).toArray) =
      .ok v := by
  have hslice := size_spreadSlice hshape hfilled hblank
  have hback : p.ids.map (Tensor.ofSlices rest ((List.range size).map
      (p.spreadSlice v blank)).toArray).slice = ((List.range p.size).map v.slice).toArray := by
    have hlength : p.ids.toList.length = p.size := Array.length_toList
    have hlist : p.ids.toList.toArray = p.ids := Array.toArray_toList
    rw [← hlength, ← map_idxOf h.nodup, List.map_map, ← hlist, List.map_toArray, hlist]
    refine congrArg List.toArray (List.map_congr_left fun id hid => ?_)
    have hused := Array.mem_def.mpr hid
    rw [Tensor.slice_ofSlices hslice (hids id hused)]
    exact if_pos hused
  have hextent : (size : Int) = p.full := hfull.symm
  unfold pack
  simp only [Tensor.ofSlices, List.size_toArray, List.length_map, List.length_range]
  rw [if_pos hextent]
  refine congrArg Except.ok ((congrArg (Tensor.ofSlices rest) ?_).trans
    (Tensor.ofSlices_slice hshape hfilled))
  simpa only [Tensor.ofSlices, List.size_toArray, List.length_map, List.length_range] using hback

end Vectors

/-! ## The numbering -/

section Lookups

/-- An identifier with an index is a used one at its position. -/
theorem exists_of_toPacked {id : Int} {k : Nat} (hid : p.toPacked (.whole id) = .ok k) :
    ∃ n ∈ p.ids, (n : Int) = id ∧ p.index n = k := by
  by_cases hused : ∃ n ∈ p.ids, (n : Int) = id
  · obtain ⟨n, hn, rfl⟩ := hused
    rw [toPacked_used hn] at hid
    exact ⟨n, hn, rfl, Except.ok.inj hid⟩
  · rw [toPacked_unused fun n hn heq => hused ⟨n, hn, heq⟩] at hid
    cases hid

theorem index_lt_index (h : p.Ordered) {a b : Nat} (ha : a ∈ p.ids) (hb : b ∈ p.ids) :
    p.index a < p.index b ↔ a < b := by
  have hstrict {c d : Nat} (hc : c ∈ p.ids) (hd : d ∈ p.ids) (hlt : p.index c < p.index d) :
      c < d := by
    have := getD_lt_getD h hlt (index_lt hd)
    rwa [getD_index hc, getD_index hd] at this
  refine ⟨hstrict ha hb, fun hlt => ?_⟩
  rcases Nat.lt_trichotomy (p.index a) (p.index b) with hindex | hindex | hindex
  · exact hindex
  · exact absurd ((index_inj ha).mp hindex) hlt.ne
  · exact absurd (hstrict hb ha hindex) hlt.asymm

theorem toFull_eq_ok {n id : Nat} :
    p.toFull (.whole n) = .ok id ↔ p.ids.toList[n]? = some id := by
  have hsize : p.ids.size = p.size := rfl
  rw [Array.getElem?_toList]
  by_cases hn : n < p.ids.size
  · rw [toFull_inside (by omega), Int.toNat_natCast, Array.getD_eq_getD_getElem?,
      Array.getElem?_eq_getElem hn, Option.getD_some]
    exact ok_eq_ok
  · rw [toFull_outside (by omega), Array.getElem?_eq_none (not_lt.mp hn)]
    exact iff_of_false error_ne_ok (Option.some_ne_none id).symm

end Lookups

/-- **What a packing is to the identifiers** it is made from. -/
structure Numbers (p : Packing) (full : Int) (used : List Int) : Prop where
  /-- An identifier has an index exactly if it is used; another one is named. -/
  toPacked_used : ∀ id : Int, (∃ n, p.toPacked (.whole id) = .ok n) ↔ id ∈ used
  toPacked_unused : ∀ id : Int, id ∉ used →
    p.toPacked (.whole id) = .error (.notFound (.int id) p.name)
  /-- An index has an identifier exactly if it is in `[0, size)`; another one is named. -/
  toFull_below : ∀ i : Int, (∃ n, p.toFull (.whole i) = .ok n) ↔ 0 ≤ i ∧ i < p.size
  toFull_beyond : ∀ i : Int, ¬(0 ≤ i ∧ i < p.size) →
    p.toFull (.whole i) = .error (.outOfRange (.int i) (.int p.size) p.name)
  /-- The index of an identifier and the identifier at an index are inverse to each other. -/
  inverse : ∀ id n : Nat, p.toPacked (.whole id) = .ok n ↔ p.toFull (.whole n) = .ok id
  /-- Of two used identifiers the larger one has the larger index. -/
  increasing : ∀ (a b : Int) (m n : Nat), p.toPacked (.whole a) = .ok m →
    p.toPacked (.whole b) = .ok n → (a < b ↔ m < n)
  /-- Many identifiers are looked up as one after the other is. -/
  toPackedAll_eq : ∀ ids : Tensor Int,
    p.toPackedAll ids = ids.mapM fun id => p.toPacked (.whole id)
  /-- Many indices are looked up as one after the other is. -/
  toFullAll_eq : ∀ indices : Tensor Int,
    p.toFullAll indices = indices.mapM fun i => p.toFull (.whole i)
  /-- Unpacked values stand at the used identifiers and the filling elsewhere, and packing takes
  them back, unless the size of the full space is negative. -/
  unpacks : 0 ≤ full → ∀ {α : Type} (v : Tensor α) (rest : List Nat) (fill : α),
    v.shape = p.size :: rest → v.values.size = Tensor.extent v.shape →
    ∃ y, p.unpack v fill = .ok y ∧ y.shape = full.toNat :: rest ∧
      y.values.size = Tensor.extent y.shape ∧
      (∀ (id : Int) (n : Nat), p.toPacked (.whole id) = .ok n →
        y.slice id.toNat = v.slice n) ∧
      (∀ id : Nat, id < full → (id : Int) ∉ used →
        y.slice id = Array.replicate (Tensor.extent rest) fill) ∧
      p.pack y = .ok v

theorem numbers_of_ofUsed (hp : ofUsed full used name = .ok p) : p.Numbers full used := by
  obtain ⟨hfull, -, h, hfit, hids⟩ := of_ofUsed hp
  have hused (id : Int) : (∃ n ∈ p.ids, (n : Int) = id) ↔ id ∈ used := by
    constructor
    · rintro ⟨n, hn, rfl⟩
      exact (hids n).mp hn
    · intro hid
      have hnat := Int.toNat_of_nonneg (hfit id hid).1
      exact ⟨id.toNat, (hids _).mpr (hnat.symm ▸ hid), hnat⟩
  constructor
  case toPacked_used =>
    intro id
    rw [← hused]
    constructor
    · rintro ⟨n, hn⟩
      obtain ⟨m, hm, hid, -⟩ := exists_of_toPacked hn
      exact ⟨m, hm, hid⟩
    · rintro ⟨n, hn, rfl⟩
      exact ⟨_, Packing.toPacked_used hn⟩
  case toPacked_unused =>
    exact fun id hid => Packing.toPacked_unused fun n hn heq => hid ((hused id).mp ⟨n, hn, heq⟩)
  case toFull_below =>
    intro i
    by_cases hi : 0 ≤ i ∧ i < p.size
    · exact iff_of_true ⟨_, toFull_inside hi⟩ hi
    · rw [toFull_outside hi]
      exact iff_of_false (fun ⟨_, h⟩ => error_ne_ok h) hi
  case toFull_beyond => exact fun i hi => toFull_outside hi
  case inverse =>
    intro id n
    rw [toPacked_eq_ok h.nodup, toFull_eq_ok]
  case increasing =>
    intro a b m n ha hb
    obtain ⟨a, hmem, rfl, rfl⟩ := exists_of_toPacked ha
    obtain ⟨b, hmem', rfl, rfl⟩ := exists_of_toPacked hb
    rw [index_lt_index h hmem hmem', Int.ofNat_lt]
  case toPackedAll_eq => exact Packing.toPackedAll_eq h
  case toFullAll_eq => exact Packing.toFullAll_eq
  case unpacks =>
    intro hnonneg α v rest fill hshape hfilled
    have hsize : p.full = (full.toNat : Int) := hfull.trans (Int.toNat_of_nonneg hnonneg).symm
    have hbound : ∀ id ∈ p.ids, id < full.toNat := fun id hid => by
      have := hfit id ((hids id).mp hid)
      omega
    have hblank : (Array.replicate (Tensor.extent rest) fill).size = Tensor.extent rest :=
      Array.size_replicate
    have hslice := size_spreadSlice hshape hfilled hblank
    refine ⟨_, unpack_eq h.nodup hsize hshape fill, ?_, Tensor.filled_ofSlices hslice, ?_, ?_,
      pack_unpacked h hsize hbound hshape hfilled hblank⟩
    · simp [Tensor.ofSlices]
    · intro id n hn
      obtain ⟨m, hm, rfl, rfl⟩ := exists_of_toPacked hn
      rw [Int.toNat_natCast, Tensor.slice_ofSlices hslice (hbound m hm)]
      exact if_pos hm
    · intro id hid hunused
      rw [Tensor.slice_ofSlices hslice (by omega)]
      exact if_neg fun hmem => hunused ((hids id).mp hmem)

/-- **Used identifiers are refused** exactly if one of them is outside the full space. Otherwise
they are numbered, and whoever mentions the same ones numbers them the same. -/
theorem ofUsed_numbering (full : Int) (used : List Int) (name : String) :
    ((∃ id ∈ used, ¬(0 ≤ id ∧ id < full)) ↔ ∃ id ∈ used, ofUsed full used name =
      .error (.outOfRange (.int id) (.int full) ("full space of " ++ name))) ∧
    ((∀ id ∈ used, 0 ≤ id ∧ id < full) ↔ ∃ p, ofUsed full used name = .ok p ∧
      p.full = full ∧ p.name = name ∧ p.Numbers full used ∧
      ∀ used', (∀ id, id ∈ used' ↔ id ∈ used) → ofUsed full used' name = .ok p) := by
  rcases ofUsed_cases full used name with ⟨hfit, hok⟩ | ⟨bad, hbad, hout, herror⟩
  · refine ⟨iff_of_false ?_ ?_, iff_of_true hfit
      ⟨_, hok, rfl, rfl, numbers_of_ofUsed hok, fun used' h => ofUsed_congr h hok⟩⟩
    · exact fun ⟨id, hid, hout⟩ => hout (hfit id hid)
    · rintro ⟨id, -, herror⟩
      rw [hok] at herror
      cases herror
  · refine ⟨iff_of_true ⟨bad, hbad, hout⟩ ⟨bad, hbad, herror⟩, iff_of_false ?_ ?_⟩
    · exact fun hfit => hout (hfit bad hbad)
    · rintro ⟨p, hp, -⟩
      rw [herror] at hp
      cases hp

/-- A full space of negative size is packed without identifiers, but a vector cannot be unpacked
into it. -/
theorem unpack_negative : ∃ p, ofUsed (-1) [] "index space" = .ok p ∧ p.size = 0 ∧
    p.unpack (Tensor.ofArray (#[] : Array Rat)) 0 = .error .invalidValue :=
  ⟨⟨-1, #[], "index space"⟩, rfl, rfl, rfl⟩

end Packing

end Regrid

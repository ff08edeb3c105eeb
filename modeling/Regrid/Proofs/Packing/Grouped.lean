import Regrid.Proofs.Packing.Pairs

/-!
# Packings of groups

A family of groups, each with a full space and used identifiers, is packed group by group
(`ofUsed_eq`). `members` lists what is packed, in packed order, and `index` is the place of a used
identifier there.

* `range_eq`: inside a group the packed indices are the positions in its own packing, from the
  beginning of its range on.
* `sum_packed`: the packed indices run through the used identifiers of all groups.
* `pack_eq`: packing one vector per group takes their values in this order.
-/

namespace Regrid

namespace GroupPacking

variable {β : Type}

/-- The packing of a family of groups. -/
def used (groups : List (GroupId × β)) (full : β → Nat) (cells : β → List Nat) (name : String) :
    GroupPacking :=
  ⟨name, groups.map fun g => ⟨g.1, full g.2, ascending (cells g.2)⟩⟩

/-- The used identifiers in packed order, each with its group. -/
def members (groups : List (GroupId × β)) (cells : β → List Nat) :
    List ((GroupId × β) × Nat) :=
  groups.flatMap fun g => (ascending (cells g.2)).map fun c => (g, c)

/-- The packed index of an identifier of a group. -/
def index (p : GroupPacking) (id : GroupId) (c : Nat) : Nat := p.pairs.idxOf (id, c)

theorem pairs_used (groups : List (GroupId × β)) (full : β → Nat) (cells : β → List Nat)
    (name : String) : (used groups full cells name).pairs =
      (members groups cells).map fun m => (m.1.1, m.2) := by
  unfold pairs used members
  rw [List.flatMap_map, List.map_flatMap]
  simp only [List.map_map, Function.comp_def]

theorem mem_members {groups : List (GroupId × β)} {cells : β → List Nat} {g : GroupId × β}
    {c : Nat} : (g, c) ∈ members groups cells ↔ g ∈ groups ∧ c ∈ cells g.2 := by
  unfold members
  simp only [List.mem_flatMap, List.mem_map, Prod.mk.injEq]
  constructor
  · rintro ⟨g', hg, c', hc, rfl, rfl⟩
    exact ⟨hg, mem_ascending.mp hc⟩
  · rintro ⟨hg, hc⟩
    exact ⟨g, hg, c, mem_ascending.mpr hc, rfl, rfl⟩

variable {groups : List (GroupId × β)} {full : β → Nat} {cells : β → List Nat} {name : String}
  {g : GroupId × β} {c : Nat}

section Construction

theorem checkLocal_eq {sizes : List (GroupId × Int)} (h : Keyed sizes) {id : GroupId} {n : Nat}
    (hid : (id, (n : Int)) ∈ sizes) (hc : c < n) :
    checkLocal sizes name id (.whole c) = .ok (id, c) :=
  (checkLocal_eq_ok h).mpr ⟨rfl, rfl, n, hid, Int.ofNat_lt.mpr hc⟩

/-- The identifiers that a list of pairs has for a group. -/
theorem filterMap_pairs (hkeys : Keyed groups) (hg : g ∈ groups) :
    ((groups.flatMap fun g => (cells g.2).map fun c => (g.1, c)).filterMap fun t =>
      if t.1 = g.1 then some t.2 else none) = cells g.2 := by
  induction groups with
  | nil => cases hg
  | cons k groups ih =>
    obtain ⟨hk, hkeys⟩ := List.nodup_cons.mp hkeys
    have hsame : ((cells k.2).map fun c => (k.1, c)).filterMap
        (fun t => if t.1 = k.1 then some t.2 else none) = cells k.2 := by
      rw [List.filterMap_map]
      simp
    rw [List.flatMap_cons, List.filterMap_append]
    rcases List.mem_cons.mp hg with rfl | hg
    · have hother : (groups.flatMap fun g => (cells g.2).map fun c => (g.1, c)).filterMap
          (fun t => if t.1 = g.1 then some t.2 else none) = [] := by
        refine List.filterMap_eq_nil_iff.mpr fun t ht => if_neg fun he => hk ?_
        simp only [List.mem_flatMap, List.mem_map] at ht
        obtain ⟨k, hmem, c, -, rfl⟩ := ht
        exact List.mem_map.mpr ⟨k, hmem, he⟩
      rw [hsame, hother, List.append_nil]
    · have hne : k.1 ≠ g.1 := fun he => hk (List.mem_map.mpr ⟨g, hg, he.symm⟩)
      have hnone : ((cells k.2).map fun c => (k.1, c)).filterMap
          (fun t => if t.1 = g.1 then some t.2 else none) = [] := by
        rw [List.filterMap_map]
        simp [hne]
      rw [hnone, List.nil_append, ih hkeys hg]

/-- **A family of groups is packed** if the identifiers fit into their full spaces. -/
theorem ofUsed_eq (hkeys : Keyed groups)
    (hfit : ∀ g ∈ groups, ∀ c ∈ cells g.2, c < full g.2) (name : String) :
    ofUsed (groups.map fun g => (g.1, (full g.2 : Int)))
        (groups.flatMap fun g => (cells g.2).map fun c : Nat => (g.1, Number.whole c)) name =
      .ok (used groups full cells name) := by
  have hsizes : Keyed (groups.map fun g => (g.1, (full g.2 : Int))) := by
    unfold Keyed
    rw [List.map_map]
    exact hkeys
  have hraw : (groups.flatMap fun g => (cells g.2).map fun c : Nat => (g.1, Number.whole c)) =
      (groups.flatMap fun g => (cells g.2).map fun c => (g.1, c)).map
        fun t => (t.1, Number.whole t.2) := by
    rw [List.map_flatMap]
    simp only [List.map_map, Function.comp_def]
  have hpairs : ((groups.flatMap fun g => (cells g.2).map fun c => (g.1, c)).map
      fun t => (t.1, Number.whole t.2)).mapM
      (fun t => checkLocal (groups.map fun g => (g.1, (full g.2 : Int))) name t.1 t.2) =
      .ok ((groups.flatMap fun g => (cells g.2).map fun c => (g.1, c)).map
        fun t => (t.1, t.2)) := by
    refine mapM_map_ok fun t ht => ?_
    simp only [List.mem_flatMap, List.mem_map] at ht
    obtain ⟨g, hg, c, hc, rfl⟩ := ht
    exact checkLocal_eq hsizes (List.mem_map.mpr ⟨g, hg, rfl⟩) (hfit g hg c hc)
  unfold ofUsed
  rw [lastValues_eq_self hsizes, hraw]
  refine (bind_of_ok hpairs _).trans ?_
  unfold used
  rw [List.map_id', List.map_map]
  refine congrArg (fun gs => Except.ok (GroupPacking.mk name gs)) ?_
  refine List.map_congr_left fun g hg => ?_
  exact congrArg (fun ls => PackedGroup.mk g.1 (full g.2) (ascending ls)) (filterMap_pairs hkeys hg)

end Construction

/-! ## Indices -/

section Indices

variable (hkeys : Keyed groups)
include hkeys

theorem ordered_used : (used groups full cells name).Ordered where
  keyed := by
    rw [used, List.map_map]
    exact hkeys
  ascending := by
    intro x hx
    obtain ⟨g, -, rfl⟩ := List.mem_map.mp hx
    exact sorted_ascending _

/-- A pair has one member. -/
theorem members_inj {m m' : (GroupId × β) × Nat} (hm : m ∈ members groups cells)
    (hm' : m' ∈ members groups cells) (h : (m.1.1, m.2) = (m'.1.1, m'.2)) : m = m' := by
  obtain ⟨⟨id, b⟩, c⟩ := m
  obtain ⟨⟨id', b'⟩, c'⟩ := m'
  obtain ⟨rfl, rfl⟩ := Prod.mk.inj h
  have hb := find?_key hkeys (mem_members.mp hm).1
  have hb' := find?_key hkeys (mem_members.mp hm').1
  rw [hb] at hb'
  rw [Option.some.inj hb']

omit hkeys in
theorem mem_pairs (hg : g ∈ groups) (hc : c ∈ cells g.2) :
    (g.1, c) ∈ (used groups full cells name).pairs := by
  rw [pairs_used]
  exact List.mem_map.mpr ⟨(g, c), mem_members.mpr ⟨hg, hc⟩, rfl⟩

omit hkeys in
theorem size_used : (used groups full cells name).size = (members groups cells).length := by
  rw [size, pairs_used, List.length_map]

omit hkeys in
theorem index_lt (hg : g ∈ groups) (hc : c ∈ cells g.2) :
    (used groups full cells name).index g.1 c < (used groups full cells name).size :=
  List.idxOf_lt_length_of_mem (mem_pairs hg hc)

omit hkeys in
theorem index_inj (hg : g ∈ groups) (hc : c ∈ cells g.2) {id : GroupId} {c' : Nat} :
    (used groups full cells name).index g.1 c = (used groups full cells name).index id c' ↔
      g.1 = id ∧ c = c' := by
  unfold index
  rw [List.idxOf_inj (mem_pairs hg hc), Prod.mk.injEq]

/-- **A member stands at its index.** -/
theorem getElem?_index (hg : g ∈ groups) (hc : c ∈ cells g.2) :
    (members groups cells)[(used groups full cells name).index g.1 c]? = some (g, c) := by
  have hget : (used groups full cells name).pairs[(used groups full cells name).index g.1 c]? =
      some (g.1, c) := List.getElem?_idxOf (mem_pairs hg hc)
  rw [pairs_used, List.getElem?_map, Option.map_eq_some_iff] at hget
  obtain ⟨m, hm, hpair⟩ := hget
  rw [hm, members_inj hkeys (List.mem_of_getElem? hm) (mem_members.mpr ⟨hg, hc⟩) hpair]

/-- **A sum over the packed indices** is one over the used identifiers of all groups. -/
theorem sum_packed (f : Nat → Rat) :
    ∑ k ∈ Finset.range (used groups full cells name).size, f k =
      (groups.map fun g => ∑ c ∈ (cells g.2).toFinset,
        f ((used groups full cells name).index g.1 c)).sum := by
  have hnodup : (used groups full cells name).pairs.Nodup := (ordered_used hkeys).nodup_pairs
  rw [size, sum_range_idxOf hnodup]
  simp only [index, pairs_used]
  rw [List.map_map, members, sum_map_flatMap]
  congr 1
  refine List.map_congr_left fun g _ => ?_
  rw [List.map_map, ← sum_ascending]
  rfl

/-! ## Ranges -/

omit hkeys in
theorem mem_groups (hg : g ∈ groups) :
    ⟨g.1, full g.2, ascending (cells g.2)⟩ ∈ (used groups full cells name).groups :=
  List.mem_map_of_mem hg

/-- **The range of a group** begins where the groups before it end, and holds its positions. -/
theorem range_eq (hg : g ∈ groups) : ∃ first, (used groups full cells name).range g.1 =
      .ok (first, first + (ascending (cells g.2)).length) ∧
    ∀ c ∈ cells g.2, (ascending (cells g.2)).idxOf c + first =
      (used groups full cells name).index g.1 c := by
  have hordered : (used groups full cells name).Ordered := ordered_used hkeys
  obtain ⟨before, after, hsplit⟩ := List.append_of_mem (mem_groups hg)
  refine ⟨(before.flatMap PackedGroup.locals).length, hordered.range_eq hsplit, fun c hc => ?_⟩
  have hplace := (hordered.getElem?_pairs hsplit).mpr
    ⟨_, List.getElem?_idxOf (mem_ascending.mpr hc), rfl⟩
  have hindex := (idxOf?_eq_some_iff hordered.nodup_pairs).mpr hplace
  rw [idxOf?_eq_idxOf (mem_pairs hg hc)] at hindex
  rw [index, Option.some.inj hindex, Nat.add_comm]

/-- The packing of one group of the family. -/
theorem groupPacking_eq (hg : g ∈ groups) (hfit : ∀ c ∈ cells g.2, c < full g.2) :
    (used groups full cells name).groupPacking g.1 = .ok (Packing.used (full g.2)
      (ascending (cells g.2)) (name ++ "[" ++ g.1.datum.plain ++ "]")) := by
  have hgroup : (used groups full cells name).group g.1 =
      .ok ⟨g.1, full g.2, ascending (cells g.2)⟩ := by
    rw [group, (ordered_used hkeys).group?_eq (mem_groups hg)]
  refine (bind_of_ok hgroup _).trans ?_
  exact Packing.ofUsed_eq (fun c hc => hfit c (mem_ascending.mp hc)) _

/-! ## Vectors -/

section Vectors

variable {α : Type} {vector : β → Tensor α}

omit hkeys in
/-- The values of one group. -/
theorem packGroup_eq {vectors : List (GroupId × Tensor α)} (hvectors : Keyed vectors)
    (hg : (g.1, vector g.2) ∈ vectors) (hshape : (vector g.2).shape = [full g.2])
    (hsize : (vector g.2).values.size = full g.2) (hfit : ∀ c ∈ cells g.2, c < full g.2) (d : α) :
    packGroup ⟨g.1, full g.2, ascending (cells g.2)⟩ vectors =
      .ok ((ascending (cells g.2)).map fun c => (vector g.2).values.getD c d) := by
  have hfind : (vectors.find? fun k => k.1 == g.1) = some (g.1, vector g.2) :=
    find?_key hvectors hg
  have hpicked : (ascending (cells g.2)).flatMap (fun l => ((vector g.2).slice l).toList) =
      (ascending (cells g.2)).map fun c => (vector g.2).values.getD c d := by
    rw [List.map_eq_flatMap]
    refine List.flatMap_congr fun c hc => ?_
    have hlt : c < (vector g.2).values.size := by
      rw [hsize]
      exact hfit c (mem_ascending.mp hc)
    rw [Packing.slice_vector hshape hlt d]
  unfold packGroup
  simp only [hfind, hshape, hpicked]
  split_ifs with hempty hfull hrest
  · rw [List.isEmpty_iff.mp hempty]
    rfl
  · exact absurd rfl hfull
  · rfl
  · exact absurd rfl hrest

variable (vector) in
/-- **Packing one vector per group** takes their values in packed order. -/
theorem pack_eq (hshape : ∀ g ∈ groups, (vector g.2).shape = [full g.2])
    (hsize : ∀ g ∈ groups, (vector g.2).values.size = full g.2)
    (hfit : ∀ g ∈ groups, ∀ c ∈ cells g.2, c < full g.2) (d : α) :
    (used groups full cells name).pack (groups.map fun g => (g.1, vector g.2)) =
      .ok ((members groups cells).map fun m => (vector m.1.2).values.getD m.2 d).toArray := by
  have hvectors : Keyed (groups.map fun g => (g.1, vector g.2)) := by
    unfold Keyed
    rw [List.map_map]
    exact hkeys
  have hgroups : (used groups full cells name).groups.mapM
      (fun x => packGroup x (groups.map fun g => (g.1, vector g.2))) =
      .ok (groups.map fun g => (ascending (cells g.2)).map fun c =>
        (vector g.2).values.getD c d) := by
    refine mapM_map_ok fun g hg => ?_
    exact packGroup_eq hvectors (List.mem_map_of_mem hg) (hshape g hg) (hsize g hg) (hfit g hg) d
  unfold pack
  rw [lastValues_eq_self hvectors]
  refine (bind_of_ok hgroups _).trans ?_
  rw [members, List.map_flatMap, List.flatMap_def]
  simp only [List.map_map]
  rfl

end Vectors

end Indices

end GroupPacking

end Regrid

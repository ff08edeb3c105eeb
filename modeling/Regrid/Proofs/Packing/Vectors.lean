import Regrid.Proofs.Packing.Pairs
import Regrid.Proofs.Range

/-!
# Vectors of groups

Packing takes one vector for each group with pairs, and what it gives is what the packings of these
groups give, one behind the other (`Sound.pack_iff`). Unpacking spreads a packed vector over the
groups; the values of a group are those in its range, so packing them gives the vector again
(`Sound.pack_unpack`). `ofUsed_numbers` puts together what a packing is to the pairs that it is made
from.
-/

namespace Regrid

variable {α : Type}

theorem Packing.pack_eq_ok {space : Packing} {v t : Tensor α} {n : Nat} (hv : v.shape = [n]) :
    space.pack v = .ok t ↔
      (n : Int) = space.full ∧ Tensor.ofSlices [] (space.ids.map v.slice) = t := by
  unfold Packing.pack
  rw [hv]
  simp only
  split_ifs with hfull <;> simp [hfull]

theorem Tensor.toList_ofSlices (ids : List Nat) (v : Tensor α) :
    (Tensor.ofSlices [] (ids.toArray.map v.slice)).values.toList =
      ids.flatMap fun l => (v.slice l).toList := by
  simp [Tensor.ofSlices, List.flatMap_def, Function.comp_def]

namespace GroupPacking

variable {p : GroupPacking} {x : PackedGroup}

/-! ## Packing -/

/-- Vectors by group. -/
def tensors (vectors : List (GroupId × Array α)) : List (GroupId × Tensor α) :=
  vectors.map fun v => (v.1, Tensor.ofArray v.2)

/-- The groups that have pairs, in their order. -/
def occupied (p : GroupPacking) : List GroupId :=
  (p.groups.filter fun x => !x.locals.isEmpty).map PackedGroup.id

theorem mem_occupied {g : GroupId} : g ∈ p.occupied ↔ ∃ l, (g, l) ∈ p.pairs := by
  simp only [occupied, List.mem_map, List.mem_filter, Bool.not_eq_true', List.isEmpty_eq_false_iff,
    mem_pairs_iff]
  constructor
  · rintro ⟨x, ⟨hx, hne⟩, rfl⟩
    obtain ⟨l, hl⟩ := List.exists_mem_of_ne_nil _ hne
    exact ⟨l, x, hx, rfl, hl⟩
  · rintro ⟨l, x, hx, rfl, hl⟩
    exact ⟨x, ⟨hx, List.ne_nil_of_mem hl⟩, rfl⟩

theorem occupied_sublist : p.occupied.Sublist (p.groups.map PackedGroup.id) :=
  List.filter_sublist.map _

section Pack

variable {vectors : List (GroupId × Tensor α)}

/-- What the packing of a group takes from the vector of the group. -/
def packLocal (p : GroupPacking) (vectors : List (GroupId × Tensor α)) (g : GroupId) :
    Except Error (Tensor α) := do
  let space ← p.groupPacking g
  match valueAt? g (lastValues vectors) with
  | some v => space.pack v
  | none => .error .missingKey

/-- The values of a group with pairs, where its vector is one. -/
theorem packGroup_eq_ok {v : Tensor α} {n : Nat} {ys : List α} (hne : x.locals.isEmpty = false)
    (hfind : (vectors.find? fun t => t.1 == x.id) = some (x.id, v)) (hv : v.shape = [n]) :
    packGroup x vectors = .ok ys ↔
      (n : Int) = x.full ∧ (x.locals.flatMap fun l => (v.slice l).toList) = ys := by
  unfold packGroup
  rw [hne, if_neg Bool.false_ne_true, hfind]
  simp only [hv]
  split_ifs with hfull
  · simp [hfull]
  · simp [not_not.mp hfull]
  · rename_i hrest
    exact absurd rfl hrest

/-- **The values of a group** are those that its own packing takes from its vector. -/
theorem Sound.packGroup_iff (h : p.Sound) (hx : x ∈ p.groups) (hne : x.locals.isEmpty = false)
    (hrank : ∀ t ∈ lastValues vectors, t.2.rank = 1) (ys : List α) :
    packGroup x (lastValues vectors) = .ok ys ↔
      ∃ t, p.packLocal vectors x.id = .ok t ∧ t.values.toList = ys := by
  have hlocal : p.packLocal vectors x.id = match valueAt? x.id (lastValues vectors) with
      | some v => (Packing.mk x.full x.locals.toArray
          (p.name ++ "[" ++ x.id.datum.plain ++ "]")).pack v
      | none => .error .missingKey := bind_of_ok (h.groupPacking_eq hx) _
  have hvalue : valueAt? x.id (lastValues vectors) =
      ((lastValues vectors).find? fun t => t.1 == x.id).map Prod.snd := rfl
  rw [hlocal, hvalue]
  cases hfind : (lastValues vectors).find? fun t => t.1 == x.id with
  | none =>
    have hnone : packGroup x (lastValues vectors) = .error .missingKey := by
      rw [packGroup, hne, if_neg Bool.false_ne_true, hfind]
    rw [hnone]
    exact iff_of_false nofun nofun
  | some t =>
    obtain ⟨g, v⟩ := t
    obtain rfl : g = x.id := by simpa using List.find?_some hfind
    obtain ⟨n, hv⟩ := List.length_eq_one_iff.mp (hrank _ (List.mem_of_find?_eq_some hfind))
    rw [packGroup_eq_ok hne hfind hv, Option.map_some]
    simp only [Packing.pack_eq_ok hv]
    constructor
    · rintro ⟨hfull, rfl⟩
      exact ⟨_, ⟨hfull, rfl⟩, Tensor.toList_ofSlices x.locals v⟩
    · rintro ⟨_, ⟨hfull, rfl⟩, rfl⟩
      exact ⟨hfull, (Tensor.toList_ofSlices x.locals v).symm⟩

theorem pack_eq_flatten {out : Array α} : p.pack vectors = .ok out ↔
    ((p.groups.mapM fun x => packGroup x (lastValues vectors)).map List.flatten) =
      .ok out.toList := by
  rw [map_eq_ok]
  refine bind_eq_ok.trans (exists_congr fun yss => and_congr_right fun _ => ?_)
  constructor
  · intro h
    rw [← Except.ok.inj h, List.toList_toArray]
  · intro h
    rw [h, Array.toArray_toList]
    rfl

/-- **Packing** puts the values of the groups with pairs one behind the other, in their order. -/
theorem Sound.pack_iff (h : p.Sound) (hrank : ∀ t ∈ lastValues vectors, t.2.rank = 1)
    (out : Array α) : p.pack vectors = .ok out ↔
      ∃ parts, p.occupied.mapM (p.packLocal vectors) = .ok parts ∧
        (parts.flatMap fun t => t.values.toList) = out.toList := by
  have hempty : ∀ x ∈ p.groups, (!x.locals.isEmpty) = false →
      packGroup x (lastValues vectors) = .ok [] := by
    intro x _ hx
    rw [packGroup, if_pos (by simpa using hx)]
  rw [pack_eq_flatten, mapM_flatten_filter hempty, map_eq_ok]
  have hstep : ∀ x ∈ p.groups.filter fun x => !x.locals.isEmpty, ∀ ys,
      packGroup x (lastValues vectors) = .ok ys ↔
        ∃ t, p.packLocal vectors x.id = .ok t ∧ t.values.toList = ys := by
    intro x hx ys
    obtain ⟨hx, hne⟩ := List.mem_filter.mp hx
    exact h.packGroup_iff hx (by simpa using hne) hrank ys
  simp only [mapM_eq_ok_of_step hstep]
  constructor
  · rintro ⟨_, ⟨parts, hparts, rfl⟩, hout⟩
    exact ⟨parts, hparts, hout⟩
  · rintro ⟨parts, hparts, hout⟩
    exact ⟨_, ⟨parts, hparts, rfl⟩, hout⟩

end Pack

/-! ## Unpacking -/

section Unpack

variable {xs : Array α} {fill : α} {start l : Nat}

/-- The vector of a group whose packed values begin at a place. -/
def unpackLocal (x : PackedGroup) (start : Nat) (xs : Array α) (fill : α) : Array α :=
  Packing.scatter x.locals (fun i => xs.getD (start + i) fill) (Array.replicate x.full.toNat fill)

theorem size_unpackLocal : (unpackLocal x start xs fill).size = x.full.toNat := by
  rw [unpackLocal, Packing.size_scatter, Array.size_replicate]

/-- The used identifiers get the packed values of the group. -/
theorem getD_unpackLocal (hx : x.locals.Nodup) (hl : l ∈ x.locals) (hfit : (l : Int) < x.full) :
    (unpackLocal x start xs fill).getD l fill = xs.getD (start + x.locals.idxOf l) fill := by
  have hlt : l < (Array.replicate x.full.toNat fill).size := by
    rw [Array.size_replicate]
    omega
  rw [unpackLocal, Packing.getD_scatter hx _ hlt, if_pos hl]

/-- The vectors of all groups. -/
def unpacked (p : GroupPacking) (xs : Array α) (fill : α) : List (GroupId × Array α) :=
  p.groups.map fun x => (x.id, unpackLocal x ((p.offset? x.id).getD 0) xs fill)

theorem unpack_ok (hsize : xs.size = p.size) (hfull : ∀ x ∈ p.groups, 0 ≤ x.full) :
    p.unpack (Tensor.ofArray xs) fill = .ok (p.unpacked xs fill) := by
  unfold unpack
  rw [Tensor.ofArray, hsize, if_neg (by simp)]
  exact mapM_ok fun x hx => if_neg (not_lt.mpr (hfull x hx))

/-- A space of a negative size has no vector. -/
theorem full_nonneg_of_unpack {v : Tensor α} {ys : List (GroupId × Array α)}
    (h : p.unpack v fill = .ok ys) : ∀ x ∈ p.groups, 0 ≤ x.full := by
  intro x hx
  unfold unpack at h
  split_ifs at h
  obtain ⟨y, hy⟩ := (mapM_eq_ok h).1 x hx
  split_ifs at hy with hneg
  exact not_lt.mp hneg

/-- The packed values of a group are those in its range. -/
theorem Sound.map_unpackLocal (h : p.Sound) (hx : x ∈ p.groups) :
    (x.locals.map fun l => (unpackLocal x start xs fill).getD l fill) =
      (List.range' start x.locals.length).map fun n => xs.getD n fill := by
  have hnodup := h.nodup_locals hx
  calc (x.locals.map fun l => (unpackLocal x start xs fill).getD l fill)
      = x.locals.map fun l => xs.getD (start + x.locals.idxOf l) fill :=
        List.map_congr_left fun l hl => getD_unpackLocal hnodup hl (h.fits x hx l hl)
    _ = (x.locals.map fun l => x.locals.idxOf l).map fun i => xs.getD (start + i) fill := by
        rw [List.map_map]
        rfl
    _ = (List.range' start x.locals.length).map fun n => xs.getD n fill := by
        rw [map_idxOf hnodup, List.range'_eq_map_range, List.map_map]
        rfl

/-- What is packed of the unpacked vectors of a group. -/
theorem Sound.packGroup_unpackLocal (h : p.Sound) (hx : x ∈ p.groups) (hfull : 0 ≤ x.full)
    {vectors : List (GroupId × Tensor α)} (hfind : (vectors.find? fun t => t.1 == x.id) =
      some (x.id, Tensor.ofArray (unpackLocal x start xs fill))) :
    packGroup x vectors =
      .ok ((List.range' start x.locals.length).map fun n => xs.getD n fill) := by
  cases hempty : x.locals.isEmpty with
  | true => rw [packGroup, if_pos hempty, List.isEmpty_iff.mp hempty]; rfl
  | false =>
    have hsize : (unpackLocal x start xs fill).size = x.full.toNat :=
      size_unpackLocal
    refine (packGroup_eq_ok hempty hfind rfl).mpr ⟨?_, ?_⟩
    · rw [hsize, Int.toNat_of_nonneg hfull]
    · rw [← h.map_unpackLocal hx, List.map_eq_flatMap]
      refine List.flatMap_congr fun l hl => ?_
      have hl := h.fits x hx l hl
      rw [Packing.slice_vector rfl (by show l < (unpackLocal x start xs fill).size; omega) fill]
      rfl

theorem Sound.keyed_unpacked (h : p.Sound) : Keyed (tensors (p.unpacked xs fill)) := by
  unfold Keyed tensors unpacked
  rw [List.map_map, List.map_map]
  exact h.keyed

/-- What is packed of an unpacked vector for one group: the values in the range of the group. -/
theorem Sound.packGroup_unpacked (h : p.Sound) (hfull : ∀ x ∈ p.groups, 0 ≤ x.full)
    (hx : x ∈ p.groups) (vs : List α) : packGroup x (tensors (p.unpacked xs fill)) = .ok vs ↔
      ∃ r, p.range x.id = .ok r ∧
        ((List.range' r.1 (r.2 - r.1)).map fun n => xs.getD n fill) = vs := by
  obtain ⟨before, after, hsplit⟩ := List.append_of_mem hx
  have hmem : (x.id, Tensor.ofArray (unpackLocal x (before.flatMap PackedGroup.locals).length
      xs fill)) ∈ tensors (p.unpacked xs fill) := by
    refine List.mem_map.mpr ⟨_, List.mem_map_of_mem hx, ?_⟩
    rw [h.offset?_eq hsplit, Option.getD_some]
  rw [h.packGroup_unpackLocal hx (hfull x hx) (find?_key h.keyed_unpacked hmem),
    h.range_eq hsplit]
  simp

/-- **Packing what has been unpacked** gives the vector again. -/
theorem Sound.pack_unpack (h : p.Sound) (hsize : xs.size = p.size) {ys : List (GroupId × Array α)}
    (hys : p.unpack (Tensor.ofArray xs) fill = .ok ys) : p.pack (tensors ys) = .ok xs := by
  have hfull := full_nonneg_of_unpack hys
  obtain rfl := Except.ok.inj ((unpack_ok hsize hfull).symm.trans hys)
  obtain ⟨ranges, hranges, hadjoining⟩ := h.ranges
  have hall := hadjoining.flatMap_range'.2
  rw [Nat.sub_zero, ← List.range_eq_range', ← hsize] at hall
  rw [pack_eq_flatten, lastValues_eq_self h.keyed_unpacked, map_eq_ok]
  refine ⟨_, (mapM_eq_ok_of_step fun x hx => h.packGroup_unpacked hfull hx).mpr
    ⟨ranges, hranges, rfl⟩, ?_⟩
  rw [← List.flatMap_def, ← List.map_flatMap, hall, map_range_getD]

end Unpack

/-! ## The numbering of the used pairs -/

/-- **What a packing is to the used pairs** of groups with the given sizes. -/
structure Numbers (p : GroupPacking) (sizes : List (GroupId × Int)) (Used : GroupId → Nat → Prop) :
    Prop where
  /-- The index of a pair and the pair at an index are inverse to each other. -/
  inverse : ∀ (g : GroupId) (l n : Nat),
    p.toPacked g (.whole l) = .ok n ↔ p.toFull (.whole n) = .ok (g, l)
  /-- The pairs that have an index are the used ones. -/
  used : ∀ (g : GroupId) (l : Nat), (∃ n, p.toPacked g (.whole l) = .ok n) ↔ Used g l
  /-- The indices that have a pair are those below the size. -/
  below : ∀ n : Nat, (∃ t, p.toFull (.whole n) = .ok t) ↔ n < p.size
  /-- The ranges of the groups, in their order, cover all indices. -/
  ranges : ∃ ranges, (sizes.map Prod.fst).mapM p.range = .ok ranges ∧ Adjoining 0 p.size ranges
  /-- An index is one in the packing of the group, counted from where its range begins. -/
  locals : ∀ s ∈ sizes, ∃ space start, p.groupPacking s.1 = .ok space ∧ space.full = s.2 ∧
    p.range s.1 = .ok (start, start + space.size) ∧
    ∀ l n : Nat, p.toPacked s.1 (.whole l) = .ok n ↔
      ∃ k, space.toPacked (.whole l) = .ok k ∧ n = start + k
  /-- The groups with pairs are those with used pairs, in their order. -/
  occupied : p.occupied.Sublist (sizes.map Prod.fst) ∧ ∀ g, g ∈ p.occupied ↔ ∃ l, Used g l
  /-- Vectors are packed group by group, each by the packing of its group. -/
  packs : ∀ {α : Type} (vectors : List (GroupId × Array α)) (out : Array α),
    p.pack (tensors vectors) = .ok out ↔
      ∃ parts, p.occupied.mapM (p.packLocal (tensors vectors)) = .ok parts ∧
        (parts.flatMap fun t => t.values.toList) = out.toList
  /-- Every packed vector can be unpacked, unless the size of a group is negative. -/
  unpacks : ∀ {α : Type} (xs : Array α) (fill : α), xs.size = p.size →
    ((∃ ys, p.unpack (Tensor.ofArray xs) fill = .ok ys) ↔ ∀ s ∈ sizes, 0 ≤ s.2)
  /-- Packing takes the unpacked values back. -/
  restores : ∀ {α : Type} (xs : Array α) (fill : α), xs.size = p.size →
    ∀ ys, p.unpack (Tensor.ofArray xs) fill = .ok ys → p.pack (tensors ys) = .ok xs

/-- **Every packing that is accepted** numbers the pairs that are named, in whatever order and how
often. -/
theorem ofUsed_numbers {sizes : List (GroupId × Int)} {used : List (GroupId × Number)}
    {name : String} (h : ofUsed sizes used name = .ok p) :
    p.Numbers (lastValues sizes) (Named used) := by
  have hsound := ofUsed_sound h
  have hids : p.groups.map PackedGroup.id = (lastValues sizes).map Prod.fst := by
    rw [← ofUsed_groups h, List.map_map]
    rfl
  have hgroup {s : GroupId × Int} : s ∈ lastValues sizes ↔ ∃ x ∈ p.groups, (x.id, x.full) = s := by
    rw [← ofUsed_groups h, List.mem_map]
  constructor
  case inverse =>
    intro g l n
    rw [toPacked_eq_ok hsound.nodup_pairs, toFull_eq_ok]
  case used =>
    intro g l
    simp only [toPacked_eq_ok hsound.nodup_pairs]
    rw [← ofUsed_pairs h, List.mem_iff_getElem?]
  case below =>
    intro n
    simp only [toFull_eq_ok]
    exact ⟨fun ⟨t, ht⟩ => (List.getElem?_eq_some_iff.mp ht).1,
      fun hn => ⟨_, List.getElem?_eq_getElem hn⟩⟩
  case ranges => exact hids ▸ hsound.ranges
  case locals =>
    intro s hs
    obtain ⟨x, hx, rfl⟩ := hgroup.mp hs
    obtain ⟨space, start, hspace, hrange, hindex⟩ := hsound.toPacked_iff hx
    refine ⟨space, start, hspace, ?_, hrange, hindex⟩
    rw [hsound.groupPacking_eq hx] at hspace
    exact (Except.ok.inj hspace) ▸ rfl
  case occupied =>
    refine ⟨hids ▸ occupied_sublist, fun g => ?_⟩
    simp only [mem_occupied, ofUsed_pairs h]
  case packs =>
    intro α vectors out
    refine hsound.pack_iff (fun t ht => ?_) out
    obtain ⟨v, -, rfl⟩ := List.mem_map.mp (mem_lastValues ht)
    rfl
  case unpacks =>
    intro α xs fill hsize
    constructor
    · rintro ⟨ys, hys⟩ s hs
      obtain ⟨x, hx, rfl⟩ := hgroup.mp hs
      exact full_nonneg_of_unpack hys x hx
    · intro hall
      exact ⟨_, unpack_ok hsize fun x hx => hall _ (hgroup.mpr ⟨x, hx, rfl⟩)⟩
  case restores => exact fun xs fill hsize ys => hsound.pack_unpack hsize

/-- Three groups, of which one has no used pair, and a pair that is named twice. -/
theorem ofUsed_numbers_threeGroups : ∃ p,
    ofUsed [(.text "north", 3), (.number 7, 2), (.text "south", 2)] [(.text "south", .whole 1),
      (.text "north", .whole 2), (.text "north", .whole 0), (.text "north", .whole 2)] "cells" =
        .ok p ∧
    p.Numbers [(.text "north", 3), (.number 7, 2), (.text "south", 2)] (Named
      [(.text "south", .whole 1), (.text "north", .whole 2), (.text "north", .whole 0),
        (.text "north", .whole 2)]) ∧
    p.pairs = [(.text "north", 0), (.text "north", 2), (.text "south", 1)] :=
  have h : ofUsed _ _ _ = .ok ⟨"cells", [⟨.text "north", 3, [0, 2]⟩, ⟨.number 7, 2, []⟩,
    ⟨.text "south", 2, [1]⟩]⟩ := by rfl
  ⟨_, h, ofUsed_numbers h, rfl⟩

end GroupPacking

end Regrid

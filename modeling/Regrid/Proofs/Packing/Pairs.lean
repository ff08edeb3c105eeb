import Mathlib.Data.List.Nodup
import Regrid.Proofs.Keyed
import Regrid.Proofs.Number
import Regrid.Proofs.Packing.Basic
import Regrid.Packing.Grouped

/-!
# Pairs of a group and an identifier

The packed index of a pair (`IndexSpace2`) is its place in the list of all pairs (`toPacked_eq_ok`),
and the pair at an index is the one that stands there (`toFull_eq_ok`). Where no group is there
twice, the pairs of a group stand together, in a range that begins where the groups before it end.

* `Ordered.ranges`: the ranges of the groups adjoin each other and cover all indices.
* `Sound.toPacked_iff`: an index is one in the packing of the group, counted from the range on.
* `exists_ofUsed_iff`: pairs are accepted where they fit into the spaces of their groups.
* `ofUsed_sound`, `ofUsed_pairs`: a packing that is accepted is of this kind, and has the pairs that
  are named.
-/

namespace Regrid

namespace GroupPacking

variable {p : GroupPacking} {x : PackedGroup} {g : GroupId} {l n : Nat}

/-- No group is there twice, and the identifiers of each ascend. -/
structure Ordered (p : GroupPacking) : Prop where
  keyed : (p.groups.map PackedGroup.id).Nodup
  ascending : ∀ x ∈ p.groups, x.locals.Pairwise (· < ·)

/-- **What a grouped packing keeps to**: it is ordered, and its identifiers fit into the spaces of
their groups. -/
structure Sound (p : GroupPacking) : Prop extends Ordered p where
  fits : ∀ x ∈ p.groups, ∀ l ∈ x.locals, (l : Int) < x.full

/-! ## Pairs -/

theorem mem_pairs_iff : (g, l) ∈ p.pairs ↔ ∃ x ∈ p.groups, x.id = g ∧ l ∈ x.locals := by
  unfold pairs
  simp only [List.mem_flatMap, List.mem_map, Prod.mk.injEq]
  refine exists_congr fun x => and_congr_right fun _ => ?_
  constructor
  · rintro ⟨_, hl, hid, rfl⟩
    exact ⟨hid, hl⟩
  · rintro ⟨hid, hl⟩
    exact ⟨l, hl, hid, rfl⟩

theorem Ordered.group?_eq (h : p.Ordered) (hx : x ∈ p.groups) : p.group? x.id = some x :=
  find?_of_nodup PackedGroup.id h.keyed hx

theorem Ordered.group_unique (h : p.Ordered) {y : PackedGroup} (hx : x ∈ p.groups)
    (hy : y ∈ p.groups) (hid : x.id = y.id) : x = y := by
  have hfind := h.group?_eq hx
  rw [hid, h.group?_eq hy] at hfind
  exact (Option.some.inj hfind).symm

theorem Ordered.nodup_locals (h : p.Ordered) (hx : x ∈ p.groups) : x.locals.Nodup :=
  (h.ascending x hx).imp fun hlt => hlt.ne

theorem Ordered.nodup_pairs (h : p.Ordered) : p.pairs.Nodup := by
  refine List.nodup_flatMap.mpr ⟨fun x hx => ?_, ?_⟩
  · exact (h.nodup_locals hx).map fun l l' he => (Prod.mk.inj he).2
  · refine (List.pairwise_map.mp h.keyed).imp fun {x y} hne t hx hy => hne ?_
    obtain ⟨l, -, rfl⟩ := List.mem_map.mp hx
    obtain ⟨l', -, he⟩ := List.mem_map.mp hy
    exact (Prod.mk.inj he).1.symm

theorem toPacked_eq_ok (h : p.pairs.Nodup) :
    p.toPacked g (.whole l) = .ok n ↔ p.pairs[n]? = some (g, l) := by
  have hid : (Number.whole l).toInt = .ok (l : Int) := rfl
  rw [← idxOf?_eq_some_iff h, toPacked, hid, bind_ok, if_pos (Int.natCast_nonneg l),
    Int.toNat_natCast]
  cases p.pairs.idxOf? (g, l) with
  | none => exact iff_of_false error_ne_ok (Option.some_ne_none n).symm
  | some i => exact ok_eq_ok

theorem toFull_eq_ok {t : GroupId × Nat} : p.toFull (.whole n) = .ok t ↔ p.pairs[n]? = some t := by
  have hlow : (Number.whole n).atLeast 0 = true := by
    rw [Number.atLeast_iff (x := .whole n) rfl]
    simp
  have hhigh : (Number.whole n).below p.size = true ↔ n < p.pairs.length := by
    rw [Number.below_iff (x := .whole n) rfl, size]
    norm_cast
  unfold toFull
  simp only [hlow, Bool.true_and, hhigh, Int.toNat_natCast]
  split_ifs with hn
  · rw [List.getElem?_eq_getElem hn]
    simp
  · rw [List.getElem?_eq_none (not_lt.mp hn)]
    exact iff_of_false nofun nofun

/-! ## Ranges -/

section Split

variable {before after : List PackedGroup}

theorem Ordered.ne_of_before (h : p.Ordered) (hsplit : p.groups = before ++ x :: after) :
    ∀ y ∈ before, y.id ≠ x.id := by
  intro y hy he
  have hkeyed := h.keyed
  rw [hsplit, List.map_append, List.map_cons] at hkeyed
  exact List.disjoint_of_nodup_append hkeyed (List.mem_map_of_mem hy)
    (he ▸ List.mem_cons_self)

/-- Where the pairs of a group begin, behind those of the groups before it. -/
theorem Ordered.offset?_eq (h : p.Ordered) (hsplit : p.groups = before ++ x :: after) :
    p.offset? x.id = some (before.flatMap PackedGroup.locals).length := by
  have hx : x ∈ p.groups := hsplit ▸ List.mem_append_right _ List.mem_cons_self
  have htake : p.groups.takeWhile (fun y => y.id != x.id) = before := by
    rw [hsplit, List.takeWhile_append_of_pos fun y hy => by simpa using h.ne_of_before hsplit y hy,
      List.takeWhile_cons_of_neg (by simp), List.append_nil]
  rw [offset?, h.group?_eq hx, Option.isSome_some, if_pos rfl, htake]

/-- **A pair of a group** stands at its place inside the group, counted from where the pairs of the
group begin. -/
theorem Ordered.getElem?_pairs (h : p.Ordered) (hsplit : p.groups = before ++ x :: after) :
    p.pairs[n]? = some (x.id, l) ↔
      ∃ k, x.locals[k]? = some l ∧ n = (before.flatMap PackedGroup.locals).length + k := by
  have hx : x ∈ p.groups := hsplit ▸ List.mem_append_right _ List.mem_cons_self
  have hlength : (before.flatMap fun y => y.locals.map fun l => (y.id, l)).length =
      (before.flatMap PackedGroup.locals).length := by
    rw [List.length_flatMap, List.length_flatMap]
    simp only [List.length_map]
  have hplace {k : Nat} (hk : x.locals[k]? = some l) :
      p.pairs[(before.flatMap PackedGroup.locals).length + k]? = some (x.id, l) := by
    have hlt : k < (x.locals.map fun l => (x.id, l)).length := by
      rw [List.length_map]
      exact (List.getElem?_eq_some_iff.mp hk).1
    rw [pairs, hsplit, List.flatMap_append, List.flatMap_cons,
      List.getElem?_append_right (by omega), hlength, Nat.add_sub_cancel_left,
      List.getElem?_append_left hlt, List.getElem?_map, hk, Option.map_some]
  refine ⟨fun hn => ?_, fun ⟨k, hk, he⟩ => he ▸ hplace hk⟩
  obtain ⟨y, hy, hid, hl⟩ := mem_pairs_iff.mp (List.mem_of_getElem? hn)
  obtain rfl := h.group_unique hy hx hid
  obtain ⟨k, hk⟩ := List.mem_iff_getElem?.mp hl
  have hunique := (idxOf?_eq_some_iff h.nodup_pairs).mpr hn
  rw [(idxOf?_eq_some_iff h.nodup_pairs).mpr (hplace hk)] at hunique
  exact ⟨k, hk, (Option.some.inj hunique).symm⟩

end Split

theorem size_eq : p.size = (p.groups.flatMap PackedGroup.locals).length := by
  rw [size, pairs, List.length_flatMap, List.length_flatMap]
  simp only [List.length_map]

theorem Ordered.range_eq (h : p.Ordered) {before after : List PackedGroup}
    (hsplit : p.groups = before ++ x :: after) :
    p.range x.id = .ok ((before.flatMap PackedGroup.locals).length,
      (before.flatMap PackedGroup.locals).length + x.locals.length) := by
  have hx : x ∈ p.groups := hsplit ▸ List.mem_append_right _ List.mem_cons_self
  rw [range, h.group?_eq hx, h.offset?_eq hsplit]

/-- Ranges that follow one another from a first number to a last; some of them may be empty. -/
inductive Adjoining : Nat → Nat → List (Nat × Nat) → Prop
  | nil (n : Nat) : Adjoining n n []
  | cons {start stop last : Nat} {ranges : List (Nat × Nat)} (h : start ≤ stop)
      (rest : Adjoining stop last ranges) : Adjoining start last ((start, stop) :: ranges)

/-- Ranges that follow one another list all numbers from the first to the last. -/
theorem Adjoining.flatMap_range' {first last : Nat} {ranges : List (Nat × Nat)}
    (h : Adjoining first last ranges) : first ≤ last ∧
      (ranges.flatMap fun r => List.range' r.1 (r.2 - r.1)) = List.range' first (last - first) := by
  induction h with
  | nil n => simp
  | @cons start stop last ranges hstart rest ih =>
    refine ⟨hstart.trans ih.1, ?_⟩
    have hnext : start + (stop - start) = stop := Nat.add_sub_cancel' hstart
    have hlength : stop - start + (last - stop) = last - start := by omega
    have happend := List.range'_append_1 (s := start) (m := stop - start) (n := last - stop)
    rwa [hnext, hlength, ← ih.2] at happend

theorem Ordered.ranges_from (h : p.Ordered) : ∀ (rest before : List PackedGroup),
    p.groups = before ++ rest → ∃ ranges, (rest.map PackedGroup.id).mapM p.range = .ok ranges ∧
      Adjoining (before.flatMap PackedGroup.locals).length p.size ranges
  | [], before, hsplit => by
    rw [List.append_nil] at hsplit
    refine ⟨[], rfl, ?_⟩
    rw [size_eq, hsplit]
    exact Adjoining.nil _
  | x :: rest, before, hsplit => by
    have hnext : p.groups = (before ++ [x]) ++ rest := by rw [hsplit, List.append_assoc]; rfl
    obtain ⟨ranges, hranges, hadjoining⟩ := h.ranges_from rest (before ++ [x]) hnext
    have hstop : ((before ++ [x]).flatMap PackedGroup.locals).length =
        (before.flatMap PackedGroup.locals).length + x.locals.length := by
      rw [List.flatMap_append, List.length_append, List.flatMap_singleton]
    rw [hstop] at hadjoining
    refine ⟨_, ?_, Adjoining.cons (Nat.le_add_right _ _) hadjoining⟩
    rw [List.map_cons, List.mapM_cons, h.range_eq hsplit, bind_ok, hranges]
    rfl

/-- **The ranges of the groups**, in their order, cover all packed indices. -/
theorem Ordered.ranges (h : p.Ordered) : ∃ ranges,
    (p.groups.map PackedGroup.id).mapM p.range = .ok ranges ∧ Adjoining 0 p.size ranges :=
  h.ranges_from p.groups [] rfl

/-! ## The packings of the groups -/

theorem Sound.groupPacking_eq (h : p.Sound) (hx : x ∈ p.groups) : p.groupPacking x.id =
    .ok ⟨x.full, x.locals.toArray, p.name ++ "[" ++ x.id.datum.plain ++ "]"⟩ := by
  have hgroup : p.group x.id = .ok x := by rw [group, h.group?_eq hx]
  have hids := Packing.ofUsed_of_fits (h.fits x hx) (p.name ++ "[" ++ x.id.datum.plain ++ "]")
  rw [ascending_eq_self (h.ascending x hx)] at hids
  exact (bind_of_ok hgroup _).trans hids

/-- **A packed index of a group** is one of its own packing, counted from where the group begins. -/
theorem Sound.toPacked_iff (h : p.Sound) (hx : x ∈ p.groups) : ∃ space start,
    p.groupPacking x.id = .ok space ∧ p.range x.id = .ok (start, start + space.size) ∧
      ∀ l n : Nat, p.toPacked x.id (.whole l) = .ok n ↔
        ∃ k, space.toPacked (.whole l) = .ok k ∧ n = start + k := by
  obtain ⟨before, after, hsplit⟩ := List.append_of_mem hx
  refine ⟨_, (before.flatMap PackedGroup.locals).length, h.groupPacking_eq hx, ?_, fun l n => ?_⟩
  · rw [h.range_eq hsplit, Packing.size, List.size_toArray]
  · rw [toPacked_eq_ok h.nodup_pairs, h.getElem?_pairs hsplit]
    refine exists_congr fun k => and_congr_left fun _ => ?_
    exact (Packing.toPacked_eq_ok (p := ⟨x.full, x.locals.toArray, _⟩) (h.nodup_locals hx)).symm

/-! ## Used pairs -/

/-- Whether a pair is named by a list of them, as it is or by a number that is truncated to it. -/
def Named (used : List (GroupId × Number)) (g : GroupId) (l : Nat) : Prop :=
  ∃ id, (g, id) ∈ used ∧ id.toInt = .ok (l : Int)

/-- A pair is accepted if its group is there and its identifier fits into the space of the group. -/
theorem checkLocal_eq_ok {sizes : List (GroupId × Int)} (h : Keyed sizes) {name : String}
    {id : Number} {t : GroupId × Nat} : checkLocal sizes name g id = .ok t ↔
      t.1 = g ∧ id.toInt = .ok (t.2 : Int) ∧ ∃ n, (g, n) ∈ sizes ∧ (t.2 : Int) < n := by
  unfold checkLocal
  constructor
  · intro h
    split at h
    · cases h
    · rename_i g' n hfind
      obtain ⟨i, hi, h⟩ := bind_eq_ok.mp h
      split_ifs at h with hbounds
      · cases h
        have hmem := List.mem_of_find?_eq_some hfind
        have hkey : g' = g := by simpa using List.find?_some hfind
        subst hkey
        refine ⟨rfl, ?_, n, hmem, ?_⟩ <;> rw [Int.toNat_of_nonneg hbounds.1]
        · exact hi
        · exact hbounds.2
  · obtain ⟨g', l⟩ := t
    rintro ⟨rfl, hid, n, hn, hlt⟩
    have hfind : (sizes.find? fun t => t.1 == g') = some (g', n) := find?_key h hn
    rw [hfind]
    refine (bind_of_ok hid _).trans ?_
    rw [if_pos ⟨Int.natCast_nonneg l, hlt⟩, Int.toNat_natCast]
    rfl

theorem mem_filterMap_pairs {pairs : List (GroupId × Nat)} :
    l ∈ pairs.filterMap (fun t => if t.1 = g then some t.2 else none) ↔ (g, l) ∈ pairs := by
  rw [List.mem_filterMap]
  constructor
  · rintro ⟨⟨g', l'⟩, hmem, hsome⟩
    split_ifs at hsome with hg
    cases hsome
    exact hg ▸ hmem
  · exact fun hmem => ⟨(g, l), hmem, if_pos rfl⟩

section Accepted

variable {sizes : List (GroupId × Int)} {used : List (GroupId × Number)} {name : String}

/-- **Pairs are accepted** if each of them has its group and fits into the space of the group. -/
theorem exists_ofUsed_iff : (∃ p, ofUsed sizes used name = .ok p) ↔ ∀ t ∈ used,
    ∃ l : Nat, t.2.toInt = .ok (l : Int) ∧ ∃ n, (t.1, n) ∈ lastValues sizes ∧ (l : Int) < n := by
  have hcheck (t : GroupId × Number) :
      (∃ u, checkLocal (lastValues sizes) name t.1 t.2 = .ok u) ↔ ∃ l : Nat,
        t.2.toInt = .ok (l : Int) ∧ ∃ n, (t.1, n) ∈ lastValues sizes ∧ (l : Int) < n := by
    simp only [checkLocal_eq_ok (keyed_lastValues sizes)]
    exact ⟨fun ⟨u, _, hu⟩ => ⟨u.2, hu⟩, fun ⟨l, hl⟩ => ⟨(t.1, l), rfl, hl⟩⟩
  simp only [← hcheck]
  constructor
  · rintro ⟨p, hp⟩
    obtain ⟨pairs, hpairs, -⟩ := bind_eq_ok.mp hp
    exact (mapM_eq_ok hpairs).1
  · intro hall
    obtain ⟨pairs, hpairs⟩ := exists_mapM hall
    exact ⟨_, bind_of_ok hpairs _⟩

/-- **A packing that is accepted** has the groups in their order, with the identifiers that are
named. -/
theorem exists_groups (h : ofUsed sizes used name = .ok p) : ∃ pairs : List (GroupId × Nat),
    (∀ g l, (g, l) ∈ pairs ↔ Named used g l) ∧
    (∀ g l, (g, l) ∈ pairs → ∃ n, (g, n) ∈ lastValues sizes ∧ (l : Int) < n) ∧
    p.groups = (lastValues sizes).map fun s => PackedGroup.mk s.1 s.2
      (ascending (pairs.filterMap fun t => if t.1 = s.1 then some t.2 else none)) := by
  obtain ⟨pairs, hpairs, h⟩ := bind_eq_ok.mp h
  cases h
  obtain ⟨hall, hmem⟩ := mapM_eq_ok hpairs
  have hsizes := keyed_lastValues sizes
  refine ⟨pairs, fun g l => (hmem (g, l)).trans ?_, fun g l hgl => ?_, rfl⟩
  · constructor
    · rintro ⟨⟨g', id⟩, hused, hcheck⟩
      obtain ⟨rfl, hid, -⟩ := (checkLocal_eq_ok hsizes).mp hcheck
      exact ⟨id, hused, hid⟩
    · rintro ⟨id, hused, hid⟩
      obtain ⟨⟨g', l'⟩, hcheck⟩ := hall _ hused
      obtain ⟨rfl, hid', -⟩ := (checkLocal_eq_ok hsizes).mp hcheck
      rw [hid] at hid'
      exact ⟨_, hused, Int.ofNat_inj.mp (Except.ok.inj hid') ▸ hcheck⟩
  · obtain ⟨⟨g', id⟩, -, hcheck⟩ := (hmem (g, l)).mp hgl
    obtain ⟨rfl, -, hfits⟩ := (checkLocal_eq_ok hsizes).mp hcheck
    exact hfits

theorem ofUsed_sound (h : ofUsed sizes used name = .ok p) : p.Sound := by
  obtain ⟨pairs, -, hfits, hgroups⟩ := exists_groups h
  have hkeyed : p.groups.map PackedGroup.id = (lastValues sizes).map Prod.fst := by
    rw [hgroups, List.map_map]
    rfl
  refine ⟨⟨hkeyed ▸ keyed_lastValues sizes, fun x hx => ?_⟩, fun x hx l hl => ?_⟩
  · obtain ⟨s, -, rfl⟩ := List.mem_map.mp (hgroups ▸ hx)
    exact sorted_ascending _
  · obtain ⟨s, hs, rfl⟩ := List.mem_map.mp (hgroups ▸ hx)
    obtain ⟨n, hn, hlt⟩ := hfits s.1 l (mem_filterMap_pairs.mp (mem_ascending.mp hl))
    rwa [(keyed_lastValues sizes).value_unique hn hs] at hlt

/-- The groups and the sizes of their spaces. -/
theorem ofUsed_groups (h : ofUsed sizes used name = .ok p) :
    (p.groups.map fun x => (x.id, x.full)) = lastValues sizes := by
  obtain ⟨pairs, -, -, hgroups⟩ := exists_groups h
  rw [hgroups, List.map_map]
  exact List.map_id _

/-- **The pairs of a packing** are those that are named, in whatever order and how often. -/
theorem ofUsed_pairs (h : ofUsed sizes used name = .ok p) :
    (g, l) ∈ p.pairs ↔ Named used g l := by
  obtain ⟨pairs, hnamed, hfits, hgroups⟩ := exists_groups h
  rw [mem_pairs_iff, ← hnamed, hgroups]
  constructor
  · rintro ⟨x, hx, rfl, hl⟩
    obtain ⟨s, -, rfl⟩ := List.mem_map.mp hx
    exact mem_filterMap_pairs.mp (mem_ascending.mp hl)
  · intro hgl
    obtain ⟨n, hn, -⟩ := hfits g l hgl
    exact ⟨_, List.mem_map_of_mem hn, rfl, mem_ascending.mpr (mem_filterMap_pairs.mpr hgl)⟩

end Accepted

end GroupPacking

end Regrid

import Mathlib.Data.List.Nodup
import Mathlib.Data.List.Sort
import Regrid.Mesh.Basic
import Regrid.Proofs.Outcome

/-!
# Identifiers in a roster

`Roster.Sound` says what a roster keeps to: identifiers are not negative, occur once, and are not
above the greatest one given. Every operation preserves it. A new identifier is appended (`add_eq`),
so entities with distinct new ones give the roster with all of them at the end (`extend`), and
entities in order are sorted already (`sorted_eq_items`).
-/

namespace Regrid

/-- Entities that have the identifier they were given. -/
class LawfulNumbered (ε : Type) [Numbered ε] : Prop where
  index_renumber : ∀ (x : ε) (n : Int), Numbered.index (Numbered.renumber x n) = n

instance {α : Type} : LawfulNumbered (Vertex α) := ⟨fun _ _ => rfl⟩

instance {α : Type} : LawfulNumbered (Cell α) := ⟨fun _ _ => rfl⟩

namespace Roster

variable {ε : Type} [Numbered ε] {r r' : Roster ε} {x y : ε}

/-- The identifiers of a roster are those it gave or took. -/
structure Sound (r : Roster ε) : Prop where
  nodup : r.keys.Nodup
  nonneg : ∀ x ∈ r.items, 0 ≤ Numbered.index x
  le_top : ∀ x ∈ r.items, Numbered.index x ≤ r.top
  top : -1 ≤ r.top

theorem contains_iff {index : Int} : r.contains index = true ↔ index ∈ r.keys := by
  unfold contains get? keys
  rw [List.find?_isSome, List.mem_map]
  simp only [beq_iff_eq]

/-! ## Operations -/

/-- A new identifier is taken. -/
theorem add_eq (hx : 0 ≤ Numbered.index x) (hnew : Numbered.index x ∉ r.keys) : r.add x =
    .ok ({ r with items := r.items ++ [x], top := max r.top (Numbered.index x) }, x) := by
  have hnumbered : r.numbered x = x := if_neg (not_lt.mpr hx)
  unfold add
  simp only [hnumbered]
  rw [if_neg (by rwa [contains_iff])]

/-- **What is added** is the entity as the roster numbers it. Its identifier is new. -/
theorem add_eq_ok (h : r.add x = .ok (r', y)) : Numbered.index y ∉ r.keys ∧ y = r.numbered x ∧
    r' = { r with items := r.items ++ [y], top := max r.top (Numbered.index y) } := by
  unfold add at h
  simp only at h
  split at h
  · cases h
  · rename_i hnew
    cases h
    exact ⟨mt contains_iff.mpr hnew, rfl, rfl⟩

/-- **What is removed** is the entity of the identifier, and the others stay. -/
theorem erase_eq_ok {index : Int} (h : r.erase index = .ok (r', y)) : r.get index = .ok y ∧
    r' = { r with items := r.items.filter fun x => Numbered.index x != index } := by
  obtain ⟨z, hz, hr'⟩ := bind_eq_ok.mp h
  cases hr'
  exact ⟨hz, rfl⟩

/-- Adding an entity keeps the name of the entities and the fixed size. -/
theorem labels_add (h : r.add x = .ok (r', y)) : r'.what = r.what ∧ r'.fixed = r.fixed := by
  obtain ⟨-, -, rfl⟩ := add_eq_ok h
  exact ⟨rfl, rfl⟩

/-- So does removing one. -/
theorem labels_erase {index : Int} (h : r.erase index = .ok (r', y)) :
    r'.what = r.what ∧ r'.fixed = r.fixed := by
  obtain ⟨-, rfl⟩ := erase_eq_ok h
  exact ⟨rfl, rfl⟩

theorem sound_empty (what : String) (fixed : Int) :
    Sound (ε := ε) { what := what, fixed := fixed } :=
  ⟨List.nodup_nil, fun _ h => absurd h List.not_mem_nil, fun _ h => absurd h List.not_mem_nil,
    le_rfl⟩

theorem Sound.add [LawfulNumbered ε] (h : r.Sound) (hadd : r.add x = .ok (r', y)) : r'.Sound := by
  obtain ⟨hnew, rfl, rfl⟩ := add_eq_ok hadd
  have hnonneg : 0 ≤ Numbered.index (r.numbered x) := by
    have := h.top
    unfold numbered
    split
    · rw [LawfulNumbered.index_renumber]
      omega
    · exact not_lt.mp ‹_›
  refine ⟨?_, fun y hy => ?_, fun y hy => ?_, h.top.trans (le_max_left _ _)⟩
  · unfold keys
    rw [List.map_append, List.map_singleton]
    rw [← List.concat_eq_append]
    exact h.nodup.concat hnew
  all_goals rcases List.mem_append.mp hy with hy | hy
  · exact h.nonneg y hy
  · rwa [List.mem_singleton.mp hy]
  · exact (h.le_top y hy).trans (le_max_left _ _)
  · rw [List.mem_singleton.mp hy]
    exact le_max_right _ _

theorem Sound.erase (h : r.Sound) {index : Int} (herase : r.erase index = .ok (r', y)) :
    r'.Sound := by
  obtain ⟨-, rfl⟩ := erase_eq_ok herase
  exact ⟨h.nodup.sublist (List.filter_sublist.map _),
    fun x hx => h.nonneg x (List.mem_of_mem_filter hx),
    fun x hx => h.le_top x (List.mem_of_mem_filter hx), h.top⟩

theorem Sound.clear (r : Roster ε) : r.clear.Sound := sound_empty r.what r.fixed

theorem Sound.setFull (h : r.Sound) (n : Int) : (r.setFull n).Sound :=
  ⟨h.nodup, h.nonneg, h.le_top, h.top⟩

theorem Sound.freeze (h : r.Sound) : r.freeze.Sound := h.setFull r.full

/-- The greatest identifier of a list, and `top` if that is greater. -/
theorem le_foldl_max (xs : List ε) (top : Int) :
    top ≤ xs.foldl (fun n x => max n (Numbered.index x)) top ∧
      ∀ x ∈ xs, Numbered.index x ≤ xs.foldl (fun n x => max n (Numbered.index x)) top := by
  induction xs generalizing top with
  | nil => exact ⟨le_rfl, fun _ h => absurd h List.not_mem_nil⟩
  | cons y ys ih =>
    obtain ⟨htop, hys⟩ := ih (max top (Numbered.index y))
    refine ⟨(le_max_left _ _).trans htop, fun x hx => ?_⟩
    rcases List.mem_cons.mp hx with rfl | hx
    · exact (le_max_right _ _).trans htop
    · exact hys x hx

theorem Sound.recount (h : r.Sound) : r.recount.Sound :=
  ⟨h.nodup, h.nonneg, (le_foldl_max r.items (-1)).2, (le_foldl_max r.items (-1)).1⟩

theorem Sound.full_nonneg (h : r.Sound) : 0 ≤ r.full := by
  have := h.top
  unfold full
  split <;> omega

omit [Numbered ε] in
theorem full_setFull {n : Int} (hn : 0 ≤ n) : (r.setFull n).full = n := if_pos hn

/-! ## Many entities -/

/-- The roster with further entities at the end. -/
def extend (r : Roster ε) (xs : List ε) : Roster ε :=
  { r with items := r.items ++ xs, top := xs.foldl (fun n x => max n (Numbered.index x)) r.top }

theorem extend_nil (r : Roster ε) : r.extend [] = r := by
  unfold extend
  rw [List.append_nil]
  rfl

theorem extend_cons (r : Roster ε) (x : ε) (xs : List ε) : r.extend (x :: xs) =
    ({ r with items := r.items ++ [x], top := max r.top (Numbered.index x) } : Roster ε).extend
      xs := by
  unfold extend
  rw [List.append_assoc]
  rfl

/-! ## By identifier -/

theorem sorted_perm (r : Roster ε) : r.sorted.Perm r.items := List.mergeSort_perm _ _

theorem mem_sorted : x ∈ r.sorted ↔ x ∈ r.items := (sorted_perm r).mem_iff

theorem sorted_ascending (r : Roster ε) :
    r.sorted.Pairwise fun x y => Numbered.index x ≤ Numbered.index y := by
  have h : r.sorted.Pairwise fun x y => decide (Numbered.index x ≤ Numbered.index y) = true := by
    refine List.pairwise_mergeSort (fun x y z hxy hyz => ?_) (fun x y => ?_) r.items
    · simp only [decide_eq_true_eq] at *
      omega
    · simp only [Bool.or_eq_true, decide_eq_true_eq]
      omega
  exact h.imp fun hxy => by simpa using hxy

/-- Entities that stand in order are sorted already. -/
theorem sorted_eq_items (h : r.items.Pairwise fun x y => Numbered.index x ≤ Numbered.index y) :
    r.sorted = r.items :=
  List.mergeSort_of_pairwise (h.imp fun hxy => by simpa using hxy)

theorem keys_sorted_nodup (h : r.Sound) : (r.sorted.map Numbered.index).Nodup :=
  ((sorted_perm r).map _).nodup_iff.mpr h.nodup

end Roster

/-! ## Meshes -/

namespace Mesh

variable {α : Type}

/-- The identifiers of a mesh are sound. -/
structure Sound (m : Mesh α) : Prop where
  vertices : m.vertices.Sound
  cells : m.cells.Sound

/-- Every reference of a cell names a vertex. -/
def Resolved (m : Mesh α) : Prop := ∀ c ∈ m.cells.items, ∀ v ∈ c.refs, v ∈ m.vertices.keys

end Mesh

end Regrid

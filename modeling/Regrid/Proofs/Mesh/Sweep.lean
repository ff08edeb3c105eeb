import Regrid.Mesh.Sweep
import Regrid.Proofs.Mesh.Reachable

/-!
# Keeping parts of a mesh

Going through the cells and removing them one by one leaves what applying the test to the list of
them does, whether it fails or not (`sweep_eq_retain`). With a test that never fails what remains is
`Mesh.part`: keeping a part of a part keeps the cells that pass both tests (`part_part`). The sizes
of the numberings are those of the whole mesh from then on, until they are set again
(`runAll_full`). `keep_cells` says so of every mesh that can be reached.
-/

namespace Regrid

open Attempt

variable {α : Type} {m m' : Mesh α}

/-! ## Removing one by one -/

namespace Roster

variable {ε : Type} [Numbered ε] {r : Roster ε}

/-- An entity is removed from between the others. -/
theorem remove_between {before after : List ε} {x : ε} (hitems : r.items = before ++ x :: after)
    (hr : r.keys.Nodup) :
    (remove (Numbered.index x)).run r = .ok x { r with items := before ++ after } := by
  have hx : x ∈ r.items := hitems ▸ List.mem_append_right _ List.mem_cons_self
  have hget : r.get (Numbered.index x) = .ok x := by
    rw [get, get?, find?_of_nodup Numbered.index hr hx]
  have hothers : r.items.filter (fun y => Numbered.index y != Numbered.index x) =
      before ++ after := by
    rw [keys, hitems, List.map_append, List.map_cons, List.nodup_middle, List.nodup_cons,
      ← List.map_append] at hr
    have hne : ∀ y ∈ before ++ after, (Numbered.index y != Numbered.index x) = true :=
      fun y hy => bne_iff_ne.mpr fun he => hr.1 (he ▸ List.mem_map_of_mem hy)
    rw [hitems, List.filter_append, List.filter_cons_of_neg (by simp), ← List.filter_append,
      List.filter_eq_self.mpr hne]
  have herase : r.erase (Numbered.index x) = .ok ({ r with items := before ++ after }, x) := by
    rw [erase, hget, bind_ok, hothers]
    rfl
  rw [remove, run_bind_ok (run_getThe r), run_bind_ok (run_liftM_ok herase r)]
  rfl

/-- The others still differ from one another. -/
theorem nodup_between {before after : List ε} {x : ε} (hitems : r.items = before ++ x :: after)
    (hr : r.keys.Nodup) : ((before ++ after).map Numbered.index).Nodup := by
  have hothers : (before ++ after).Sublist r.items :=
    hitems ▸ (List.sublist_cons_self x after).append_left before
  exact hr.sublist (hothers.map _)

end Roster

theorem survivors_of_error {test : Cell α → Except Error Bool} {c : Cell α} {e : Error}
    (h : test c = .error e) (cs : List (Cell α)) :
    survivors test (c :: cs) = (c :: cs, some e) := by
  rw [survivors, h]

theorem survivors_of_ok {test : Cell α → Except Error Bool} {c : Cell α} {keep : Bool}
    (h : test c = .ok keep) (cs : List (Cell α)) : survivors test (c :: cs) =
      (if keep then c :: (survivors test cs).1 else (survivors test cs).1,
        (survivors test cs).2) := by
  rw [survivors, h]

namespace Mesh

/-- The mesh with other vertices. -/
def withVertices (m : Mesh α) (vertices : List (Vertex α)) : Mesh α :=
  { m with vertices := { m.vertices with items := vertices } }

/-- **Going through the cells** leaves those that remain of the list, and collects their
vertices. -/
theorem sweepCells_run (test : Cell α → Except Error Bool) : ∀ (cs before : List (Cell α))
    (named : List Int) {m : Mesh α}, m.cells.items = before ++ cs → m.cells.keys.Nodup →
    (sweepCells test named cs).run m =
      match (survivors test cs).2 with
      | some e => .error e (m.withCells (before ++ (survivors test cs).1))
      | none => .ok (named ++ (survivors test cs).1.flatMap Cell.refs)
          (m.withCells (before ++ (survivors test cs).1))
  -- the cells to come stand at the end of the roster, behind those that were kept
  | [], before, named, m, hitems, _ => by
    have hsame : m.withCells (before ++ []) = m := by
      rw [withCells, ← hitems]
    show EStateM.Result.ok named m = .ok (named ++ []) (m.withCells (before ++ []))
    rw [hsame, List.append_nil]
  | c :: cs, before, named, m, hitems, hm => by
    rw [sweepCells]
    cases htest : test c with
    | error e =>
      rw [run_bind_error (run_liftM_error rfl m), survivors_of_error htest, ← hitems]
      rfl
    | ok keep =>
      rw [run_bind_ok (run_liftM_ok rfl m), survivors_of_ok htest]
      cases keep with
      | true =>
        have hnext := sweepCells_run test cs (before ++ [c]) (named ++ c.refs)
          (hitems.trans (List.append_cons ..)) hm
        rw [if_pos rfl, hnext, if_pos rfl, List.flatMap_cons, List.append_assoc, List.append_assoc]
        rfl
      | false =>
        have hremoved : (discard (onCells (Roster.remove c.index))).run m =
            .ok () (m.withCells (before ++ cs)) :=
          run_discard_ok (run_within_ok (Roster.remove_between hitems hm))
        have hothers : (m.withCells (before ++ cs)).cells.keys.Nodup :=
          Roster.nodup_between hitems hm
        rw [if_neg Bool.false_ne_true, run_bind_ok hremoved,
          sweepCells_run test cs before named rfl hothers, if_neg Bool.false_ne_true]
        rfl

/-- **Going through the vertices** leaves those that are named. -/
theorem sweepVertices_run (named : List Int) : ∀ (vs before : List (Vertex α)) {m : Mesh α},
    m.vertices.items = before ++ vs → m.vertices.keys.Nodup →
    (sweepVertices named vs).run m =
      .ok () (m.withVertices (before ++ vs.filter fun v => named.contains v.index))
  | [], before, m, hitems, _ => by
    have hsame : m.withVertices (before ++ []) = m := by
      rw [withVertices, ← hitems]
    exact congrArg (EStateM.Result.ok ()) hsame.symm
  | v :: vs, before, m, hitems, hm => by
    rw [sweepVertices]
    by_cases hv : named.contains v.index = true
    · have hnext := sweepVertices_run named vs (before ++ [v])
        (hitems.trans (List.append_cons ..)) hm
      rw [List.filter_cons, if_pos hv, List.append_cons, hv]
      exact hnext
    · have hremoved : (discard (onVertices (Roster.remove v.index))).run m =
          .ok () (m.withVertices (before ++ vs)) :=
        run_discard_ok (run_within_ok (Roster.remove_between hitems hm))
      have hothers : (m.withVertices (before ++ vs)).vertices.keys.Nodup :=
        Roster.nodup_between hitems hm
      rw [List.filter_cons, if_neg hv, Bool.eq_false_iff.mpr hv]
      exact (run_bind_ok hremoved _).trans (sweepVertices_run named vs before rfl hothers)

theorem retain_run (m : Mesh α) (test : Cell α → Except Error Bool) : (retain test).run m =
    match (survivors test m.cells.items).2 with
    | some e => .error e (m.freeze.withCells (survivors test m.cells.items).1)
    | none => .ok () (m.freeze.withCells (survivors test m.cells.items).1).pruneVertices := by
  have hrun : (retain test).run m = (Attempt.ofExcept (m.filterCells test).2).run
      (m.filterCells test).1 := rfl
  have hitems : m.freeze.cells.items = m.cells.items := rfl
  rw [hrun, filterCells]
  simp only [hitems]
  rcases survivors test m.cells.items with ⟨cs, _ | e⟩ <;> rfl

/-- **Removing what a test refuses one by one** leaves what applying the test to the list of the
cells does, also if the test fails. -/
theorem sweep_eq_retain (h : m.Sound) (test : Cell α → Except Error Bool) :
    (sweep test).run m = (retain test).run m := by
  have hcells := sweepCells_run test m.cells.items [] [] (m := m.freeze) rfl h.cells.nodup
  have hstart : (sweep test).run m = (do
      let named ← sweepCells test [] m.cells.items
      onCells (modify Roster.recount)
      sweepVertices named (← get).vertices.items
      onVertices (modify Roster.recount)).run m.freeze := rfl
  rw [hstart, retain_run]
  generalize survivors test m.cells.items = result at hcells ⊢
  obtain ⟨kept, failure⟩ := result
  cases failure with
  | some e => exact run_bind_error hcells _
  | none =>
    let swept : Mesh α :=
      { m.freeze.withCells kept with cells := (m.freeze.withCells kept).cells.recount }
    have hvertices := sweepVertices_run (kept.flatMap Cell.refs) swept.vertices.items [] rfl
      h.vertices.nodup
    exact (run_bind_ok hcells _).trans (run_bind_ok hvertices _)

/-! ## Tests that never fail -/

/-- What is kept of a mesh if no test fails. -/
def part (m : Mesh α) (p : Cell α → Bool) : Mesh α :=
  (m.freeze.withCells (m.cells.items.filter p)).pruneVertices

theorem survivors_total (p : Cell α → Bool) : ∀ cs : List (Cell α),
    survivors (fun c => .ok (p c)) cs = (cs.filter p, none)
  | [] => rfl
  | c :: cs => by
    rw [survivors_of_ok rfl, survivors_total p cs, List.filter_cons]

theorem keep_run (m : Mesh α) (p : Cell α → Bool) : (keep p).run m = .ok () (m.part p) := by
  rw [keep, retain_run, survivors_total]
  rfl

section Part

variable {p q : Cell α → Bool}

theorem items_vertices_part (m : Mesh α) (p : Cell α → Bool) : (m.part p).vertices.items =
    m.vertices.items.filter fun v => decide (∃ c ∈ (m.part p).cells.items, v.index ∈ c.refs) := by
  refine List.filter_congr fun v _ => ?_
  rw [Bool.eq_iff_iff, decide_eq_true_eq]
  exact List.contains_iff_mem.trans List.mem_flatMap

theorem full_cells_part (h : m.Sound) : (m.part p).cells.full = m.cells.full :=
  if_pos h.cells.full_nonneg

theorem full_vertices_part (h : m.Sound) : (m.part p).vertices.full = m.vertices.full :=
  if_pos h.vertices.full_nonneg

/-- The sizes of a part are fixed already. -/
theorem freeze_part (h : m.Sound) : (m.part p).freeze = m.part p := by
  have hcells : (m.part p).cells.freeze = (m.part p).cells := by
    rw [Roster.freeze, full_cells_part h]
    rfl
  have hvertices : (m.part p).vertices.freeze = (m.part p).vertices := by
    rw [Roster.freeze, full_vertices_part h]
    rfl
  rw [freeze, hcells, hvertices]

/-- **A part of a part** has the cells that pass both tests. -/
theorem part_part (h : m.Sound) : (m.part p).part q = m.part fun c => p c && q c := by
  have hcells : (m.cells.items.filter p).filter q = m.cells.items.filter fun c => p c && q c := by
    rw [List.filter_filter]
    exact List.filter_congr fun c _ => Bool.and_comm ..
  let both := m.cells.items.filter fun c => p c && q c
  let isNamed := fun v : Vertex α => (both.flatMap Cell.refs).contains v.index
  -- the vertices of the cells that pass both tests are among those that the first test leaves
  have hvertices : (m.part p).vertices.items.filter isNamed = m.vertices.items.filter isNamed := by
    rw [items_vertices_part, List.filter_filter]
    refine List.filter_congr fun v _ => ?_
    rw [Bool.and_eq_left_iff_imp]
    intro hnamed
    obtain ⟨c, hc, hv⟩ := List.mem_flatMap.mp (List.contains_iff_mem.mp hnamed)
    obtain ⟨hc, hpq⟩ := List.mem_filter.mp hc
    exact decide_eq_true ⟨c, List.mem_filter.mpr ⟨hc, (Bool.and_eq_true_iff.mp hpq).1⟩, hv⟩
  calc (m.part p).part q
      = ((m.part p).withCells ((m.cells.items.filter p).filter q)).pruneVertices := by
        rw [part, freeze_part h]
        rfl
    _ = ((m.part p).withCells both).pruneVertices := by rw [hcells]
    _ = m.part fun c => p c && q c :=
        congrArg (fun vertices => ({ m with
          cells := (m.part fun c => p c && q c).cells
          vertices := Roster.recount { m.vertices.freeze with items := vertices } } : Mesh α))
          hvertices

end Part

end Mesh

/-! ## Sizes that stay fixed -/

namespace Roster

theorem fixed_freeze {ε : Type} {r : Roster ε} (h : 0 ≤ r.fixed) : r.freeze.fixed = r.fixed :=
  if_pos h

end Roster

namespace MeshCall

open Mesh

/-- **No call** but those that set them changes sizes that are fixed. -/
theorem Leaves.fixed {call : MeshCall α} (hcells : 0 ≤ m.cells.fixed)
    (hvertices : 0 ≤ m.vertices.fixed)
    (hcall : (∀ size, call ≠ .fixCells size) ∧ ∀ size, call ≠ .fixVertices size) :
    Leaves m call m' → m'.cells.fixed = m.cells.fixed ∧ m'.vertices.fixed = m.vertices.fixed
  | failed _ => ⟨rfl, rfl⟩
  | insertVertex hadd => ⟨rfl, (Roster.labels_add hadd).2⟩
  | insertCell _ hadd => ⟨(Roster.labels_add hadd).2, rfl⟩
  | removeVertex _ herase => ⟨rfl, (Roster.labels_erase herase).2⟩
  | removeCell _ herase => ⟨(Roster.labels_erase herase).2, rfl⟩
  | fixVertices size _ => absurd rfl (hcall.2 size)
  | fixCells size _ => absurd rfl (hcall.1 size)
  | retain test => by
    have hfrozen := And.intro (Roster.fixed_freeze hcells) (Roster.fixed_freeze hvertices)
    obtain ⟨cs, -, heq | heq⟩ := m.filterCells_cases test
    · rw [heq]
      exact hfrozen
    · rw [heq]
      exact hfrozen
  | clear => ⟨rfl, rfl⟩
  | assign setting => by cases setting <;> exact ⟨rfl, rfl⟩

/-- **After a run** without such calls the sizes are those of before. -/
theorem runAll_full {calls : List (MeshCall α)} (hcells : 0 ≤ m.cells.fixed)
    (hvertices : 0 ≤ m.vertices.fixed)
    (hcalls : ∀ call ∈ calls,
      (∀ size, call ≠ .fixCells size) ∧ ∀ size, call ≠ .fixVertices size) :
    (runAll calls m).cells.full = m.cells.full ∧
      (runAll calls m).vertices.full = m.vertices.full := by
  have hfixed : (runAll calls m).cells.fixed = m.cells.fixed ∧
      (runAll calls m).vertices.fixed = m.vertices.fixed := by
    refine runAll_induction (P := fun m' => m'.cells.fixed = m.cells.fixed ∧
      m'.vertices.fixed = m.vertices.fixed) (fun call hcall m' h => ?_) ⟨rfl, rfl⟩
    have hleaves := (after_leaves m' call).fixed (h.1.symm ▸ hcells) (h.2.symm ▸ hvertices)
      (hcalls call hcall)
    exact ⟨hleaves.1.trans h.1, hleaves.2.trans h.2⟩
  constructor
  · rw [Roster.full, Roster.full, hfixed.1, if_pos hcells, if_pos hcells]
  · rw [Roster.full, Roster.full, hfixed.2, if_pos hvertices, if_pos hvertices]

end MeshCall

/-! ## Meshes that can be reached -/

namespace Mesh

open MeshCall

/-- **Keeping the cells that pass a test** of a mesh that can be reached, whichever way it was made.
The cells and the vertices that they name remain as and where they were, and nothing else. The sizes
of both numberings are those of before, and stay so whatever is added or removed later. Two tests
one after the other, in either order, keep what passes both. -/
theorem keep_cells {m : Mesh Float} (h : m.Reachable) (p q : Cell Float → Bool) :
    ∃ m', (keep p).run m = .ok () m' ∧ (sweep fun c => .ok (p c)).run m = .ok () m' ∧
      m' = { m with cells := m'.cells, vertices := m'.vertices } ∧
      m'.cells.items = m.cells.items.filter p ∧
      m'.vertices.items =
        m.vertices.items.filter (fun v => decide (∃ c ∈ m'.cells.items, v.index ∈ c.refs)) ∧
      m'.cells.full = m.cells.full ∧ m'.vertices.full = m.vertices.full ∧
      (∀ later : List (MeshCall Float), (∀ call ∈ later,
          (∀ size, call ≠ .fixCells size) ∧ ∀ size, call ≠ .fixVertices size) →
        (runAll later m').cells.full = m.cells.full ∧
          (runAll later m').vertices.full = m.vertices.full) ∧
      (do keep p; keep q).run m = (keep fun c => p c && q c).run m ∧
      (do keep q; keep p).run m = (keep fun c => p c && q c).run m := by
  have hm := h.sound
  have hcells := full_cells_part (p := p) hm
  have hvertices := full_vertices_part (p := p) hm
  have hboth : ∀ p q : Cell Float → Bool,
      (do keep p; keep q).run m = (keep fun c => p c && q c).run m := fun p q => by
    rw [run_bind_ok (keep_run m p), keep_run, part_part hm, keep_run]
  refine ⟨m.part p, keep_run m p, (sweep_eq_retain hm _).trans (keep_run m p), rfl, rfl,
    items_vertices_part m p, hcells, hvertices, fun later hlater => ?_, hboth p q, ?_⟩
  · obtain ⟨hlaterCells, hlaterVertices⟩ := runAll_full (m := m.part p) hm.cells.full_nonneg
      hm.vertices.full_nonneg hlater
    exact ⟨hlaterCells.trans hcells, hlaterVertices.trans hvertices⟩
  · rw [hboth q p]
    simp only [Bool.and_comm]

/-- A strip of three triangles. -/
def triangleStrip : List (MeshCall Float) :=
  [.insertVertex 0 0 (.whole (-1)), .insertVertex 1 0 (.whole (-1)),
    .insertVertex 0 1 (.whole (-1)), .insertVertex 1 1 (.whole (-1)),
    .insertVertex 0 2 (.whole (-1)),
    .insertCell [0, 1, 2] (.whole (-1)) 0 0 (-1) 0.5,
    .insertCell [1, 3, 2] (.whole (-1)) 1 0 (-1) 0.5,
    .insertCell [2, 3, 4] (.whole (-1)) 2 0 (-1) 0.5]

theorem keep_cells_strip :
    let m := runAll triangleStrip {}
    let p := fun c : Cell Float => c.index != 2
    let q := fun c : Cell Float => c.index != 0
    m.Reachable ∧ ∃ m' m'', (keep p).run m = .ok () m' ∧
      m'.cells.keys = [0, 1] ∧ m'.vertices.keys = [0, 1, 2, 3] ∧ m'.vertices.full = 5 ∧
      (runAll [.insertVertex 2 2 8] m').vertices.full = 5 ∧
      (do keep q; keep p).run m = .ok () m'' ∧
      m''.cells.keys = [1] ∧ m''.vertices.keys = [1, 2, 3] := by
  intro m p q
  have hm : m.Reachable := (Reachable.new rfl rfl).runAll triangleStrip
  obtain ⟨m', hkeep, -, -, hcells, hvertices, -, hfull, hlater, -, hboth⟩ := keep_cells hm p q
  refine ⟨hm, m', m.part fun c => p c && q c, hkeep, ?_, ?_, hfull.trans (by decide), ?_,
    hboth.trans (keep_run m _), by decide, by decide⟩
  · rw [Roster.keys, hcells]
    decide
  · rw [Roster.keys, hvertices, hcells]
    decide
  · exact (hlater _ (by simp)).2.trans (by decide)

end Mesh

end Regrid

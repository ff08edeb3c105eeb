import Regrid.Mesh.Call
import Regrid.Proofs.Attempt
import Regrid.Proofs.Mesh.Roster
import Regrid.Proofs.Number

/-!
# Meshes in a run of calls

What each call leaves of a mesh is told once (`MeshCall.Leaves`). From that, no call loses the
soundness of the identifiers (`Leaves.sound`), and as long as no vertex is removed by itself, every
reference of every cell names a vertex (`Leaves.resolved`). By induction both hold after every run
of calls.
-/

namespace Regrid

open Attempt

/-! ## Rosters -/

namespace Roster

variable {ε : Type} [Numbered ε]

/-- An entity is taken as the roster would add it, or nothing changes. -/
theorem insert_run (r : Roster ε) (x : ε) : (insert x).run r =
    match r.add x with
    | .ok (r', y) => .ok y r'
    | .error e => .error e r := by
  unfold insert add
  rw [run_bind_ok (run_getThe r)]
  simp only
  by_cases hused : r.contains (Numbered.index (r.numbered x)) = true
  · rw [if_pos hused, if_pos hused]
    rfl
  · rw [if_neg hused, if_neg hused]
    rfl

theorem insert_cases (r : Roster ε) (x : ε) : (∃ e, (insert x).run r = .error e r) ∨
    ∃ r' y, r.add x = .ok (r', y) ∧ (insert x).run r = .ok y r' := by
  rw [insert_run]
  cases r.add x with
  | error e => exact Or.inl ⟨e, rfl⟩
  | ok p => exact Or.inr ⟨p.1, p.2, rfl, rfl⟩

/-- So is one removed as the roster would remove it. -/
theorem remove_run (r : Roster ε) (index : Int) : (remove index).run r =
    match r.erase index with
    | .ok (r', y) => .ok y r'
    | .error e => .error e r := by
  unfold remove
  rw [run_bind_ok (run_getThe r)]
  cases r.erase index with
  | error e => rfl
  | ok p => rfl

theorem remove_cases (r : Roster ε) (index : Int) : (∃ e, (remove index).run r = .error e r) ∨
    ∃ r' y, r.erase index = .ok (r', y) ∧ (remove index).run r = .ok y r' := by
  rw [remove_run]
  cases r.erase index with
  | error e => exact Or.inl ⟨e, rfl⟩
  | ok p => exact Or.inr ⟨p.1, p.2, rfl, rfl⟩

omit [Numbered ε] in
theorem fix_cases (r : Roster ε) (size : Number) : (∃ e, (fix size).run r = .error e r) ∨
    ∃ r' u, (∃ n, r' = r.setFull n) ∧ (fix size).run r = .ok u r' := by
  unfold fix
  cases hn : size.toInt with
  | error e => exact Or.inl ⟨e, rfl⟩
  | ok n => exact Or.inr ⟨_, (), ⟨n, rfl⟩, rfl⟩

/-- What was added stands at the end. -/
theorem items_add {r r' : Roster ε} {x y : ε} (h : r.add x = .ok (r', y)) :
    r'.items = r.items ++ [y] ∧ y = r.numbered x := by
  obtain ⟨-, hy, rfl⟩ := add_eq_ok h
  exact ⟨rfl, hy⟩

theorem items_erase {r r' : Roster ε} {index : Int} {y : ε} (h : r.erase index = .ok (r', y)) :
    r'.items = r.items.filter fun x => Numbered.index x != index := by
  rw [(erase_eq_ok h).2]

/-- A part of a sound roster is sound. -/
theorem Sound.sublist {r : Roster ε} (h : r.Sound) {items : List ε}
    (hitems : items.Sublist r.items) : Sound { r with items } :=
  ⟨h.nodup.sublist (hitems.map _), fun x hx => h.nonneg x (hitems.subset hx),
    fun x hx => h.le_top x (hitems.subset hx), h.top⟩

end Roster

namespace Mesh

variable {α : Type} {m : Mesh α}

/-! ## References -/

/-- A number that names a vertex is truncated to its identifier. -/
theorem toInt_of_hasVertex {r : Number} (h : m.hasVertex r = true) :
    ∃ v, r.toInt = .ok v ∧ v ∈ m.vertices.keys := by
  unfold hasVertex at h
  split at h
  · rename_i q hq
    rw [Bool.and_eq_true, beq_iff_eq] at h
    exact ⟨q.num, Number.toInt_of_den hq h.1, Roster.contains_iff.mp h.2⟩
  · cases h

theorem mapM_toInt_of_hasVertex : ∀ {refs : List Number}, (∀ r ∈ refs, m.hasVertex r = true) →
    ∃ ids, refs.mapM Number.toInt = .ok ids ∧ ∀ v ∈ ids, v ∈ m.vertices.keys
  | [], _ => ⟨[], rfl, fun _ h => absurd h List.not_mem_nil⟩
  | r :: refs, h => by
    obtain ⟨hr, hrefs⟩ := List.forall_mem_cons.mp h
    obtain ⟨v, hv, hkey⟩ := toInt_of_hasVertex hr
    obtain ⟨ids, hids, hkeys⟩ := mapM_toInt_of_hasVertex hrefs
    refine ⟨v :: ids, ?_, List.forall_mem_cons.mpr ⟨hkey, hkeys⟩⟩
    rw [List.mapM_cons, bind_of_ok hv, bind_of_ok hids]
    rfl

theorem checkVertices_cases (m : Mesh α) (refs : List Number) :
    (∃ e, m.checkVertices refs = .error e) ∨
      m.checkVertices refs = .ok () ∧ ∀ r ∈ refs, m.hasVertex r = true := by
  unfold checkVertices missingVertex?
  split
  · exact Or.inl ⟨_, rfl⟩
  · rename_i hnone
    rw [List.find?_eq_none] at hnone
    exact Or.inr ⟨rfl, fun r hr => by simpa using hnone r hr⟩

/-! ## Calls -/

section Cases

variable {β : Type}

/-- A change of the vertices that fails without one leaves the mesh. -/
theorem onVertices_cases (m : Mesh α) {x : Attempt (Roster (Vertex α)) β}
    {P : Roster (Vertex α) → β → Prop}
    (hx : (∃ e, x.run m.vertices = .error e m.vertices) ∨
      ∃ vertices b, P vertices b ∧ x.run m.vertices = .ok b vertices) :
    (∃ e, (onVertices x).run m = .error e m) ∨
      ∃ vertices b, P vertices b ∧ (onVertices x).run m = .ok b { m with vertices } := by
  rcases hx with ⟨e, hx⟩ | ⟨vertices, b, hb, hx⟩
  · exact Or.inl ⟨e, run_within_error hx⟩
  · exact Or.inr ⟨vertices, b, hb, run_within_ok hx⟩

/-- Nor does a change of the cells. -/
theorem onCells_cases (m : Mesh α) {x : Attempt (Roster (Cell α)) β}
    {P : Roster (Cell α) → β → Prop}
    (hx : (∃ e, x.run m.cells = .error e m.cells) ∨
      ∃ cells b, P cells b ∧ x.run m.cells = .ok b cells) :
    (∃ e, (onCells x).run m = .error e m) ∨
      ∃ cells b, P cells b ∧ (onCells x).run m = .ok b { m with cells } := by
  rcases hx with ⟨e, hx⟩ | ⟨cells, b, hb, hx⟩
  · exact Or.inl ⟨e, run_within_error hx⟩
  · exact Or.inr ⟨cells, b, hb, run_within_ok hx⟩

end Cases

/-- **Adding a vertex** changes the vertices only, and nothing if it fails. -/
theorem insertVertex_cases (m : Mesh α) (x y : α) (index : Number) :
    (∃ e, (insertVertex x y index).run m = .error e m) ∨ ∃ vertices v,
      (∃ i, m.vertices.add ⟨x, y, i⟩ = .ok (vertices, v)) ∧
      (insertVertex x y index).run m = .ok v { m with vertices } := by
  unfold insertVertex
  cases hi : index.toInt with
  | error e => exact Or.inl ⟨e, run_bind_error (run_liftM_error rfl m) _⟩
  | ok i =>
    rw [run_bind_ok (run_liftM_ok rfl m)]
    refine onVertices_cases m ((Roster.insert_cases m.vertices _).imp id ?_)
    rintro ⟨vertices, v, hadd, hrun⟩
    exact ⟨vertices, v, ⟨i, hadd⟩, hrun⟩

/-- **Adding a cell** changes the cells only, and nothing if it fails. The references of a cell that
was added name vertices. -/
theorem insertCell_cases (m : Mesh α) (refs : List Number) (index : Number) (i j k : Int)
    (nativeArea : α) :
    (∃ e, (insertCell refs index i j k nativeArea).run m = .error e m) ∨ ∃ cells c,
      (∃ ids n, (∀ v ∈ ids, v ∈ m.vertices.keys) ∧
        m.cells.add ⟨ids, n, i, j, k, nativeArea⟩ = .ok (cells, c)) ∧
      (insertCell refs index i j k nativeArea).run m = .ok c { m with cells } := by
  unfold insertCell
  rw [run_bind_ok (EStateM.run_get m)]
  rcases m.checkVertices_cases refs with ⟨e, he⟩ | ⟨hok, hrefs⟩
  · exact Or.inl ⟨e, run_bind_error (run_liftM_error he m) _⟩
  rw [run_bind_ok (run_liftM_ok hok m)]
  cases hn : index.toInt with
  | error e => exact Or.inl ⟨e, run_bind_error (run_liftM_error rfl m) _⟩
  | ok n =>
    obtain ⟨ids, hids, hkeys⟩ := mapM_toInt_of_hasVertex hrefs
    rw [run_bind_ok (run_liftM_ok rfl m), run_bind_ok (run_liftM_ok hids m)]
    refine onCells_cases m ((Roster.insert_cases m.cells _).imp id ?_)
    rintro ⟨cells, c, hadd, hrun⟩
    exact ⟨cells, c, ⟨ids, n, hkeys, hadd⟩, hrun⟩

/-! ## What calls preserve -/

/-- A cell keeps its references when it gets a number. -/
theorem refs_numbered (r : Roster (Cell α)) (c : Cell α) : (r.numbered c).refs = c.refs := by
  unfold Roster.numbered
  split_ifs <;> rfl

theorem survivors_sublist (test : Cell α → Except Error Bool) : ∀ cs : List (Cell α),
    (survivors test cs).1.Sublist cs
  | [] => List.Sublist.refl []
  | c :: cs => by
    unfold survivors
    cases test c with
    | error e => exact List.Sublist.refl _
    | ok keep =>
      cases keep with
      | false => exact (survivors_sublist test cs).cons c
      | true => exact (survivors_sublist test cs).cons_cons c

theorem Sound.withCells (h : m.Sound) {cs : List (Cell α)} (hcs : cs.Sublist m.cells.items) :
    (m.withCells cs).Sound :=
  ⟨h.vertices, h.cells.sublist hcs⟩

theorem Resolved.withCells (h : m.Resolved) {cs : List (Cell α)}
    (hcs : cs.Sublist m.cells.items) : (m.withCells cs).Resolved :=
  fun c hc => h c (hcs.subset hc)

theorem Sound.pruneVertices (h : m.Sound) : m.pruneVertices.Sound :=
  ⟨(h.vertices.sublist List.filter_sublist).recount, h.cells.recount⟩

/-- The vertices that remain are those that the cells name. -/
theorem Resolved.pruneVertices (h : m.Resolved) : m.pruneVertices.Resolved := by
  intro c hc v hv
  obtain ⟨x, hx, rfl⟩ := List.mem_map.mp (h c hc v hv)
  refine List.mem_map_of_mem (List.mem_filter.mpr ⟨hx, ?_⟩)
  exact List.contains_iff_mem.mpr (List.mem_flatMap.mpr ⟨c, hc, hv⟩)

/-- **Keeping a part of a mesh** fixes the sizes and removes cells. If no test failed, the vertices
that no cell names go too. -/
theorem filterCells_cases (m : Mesh α) (test : Cell α → Except Error Bool) :
    ∃ cs : List (Cell α), cs.Sublist m.cells.items ∧
      ((m.filterCells test).1 = m.freeze.withCells cs ∨
        (m.filterCells test).1 = (m.freeze.withCells cs).pruneVertices) := by
  refine ⟨(survivors test m.freeze.cells.items).1, survivors_sublist test m.cells.items, ?_⟩
  unfold filterCells
  simp only
  split
  · rename_i heq
    rw [heq]
    exact Or.inl rfl
  · rename_i heq
    rw [heq]
    exact Or.inr rfl

theorem Sound.filterCells (h : m.Sound) (test : Cell α → Except Error Bool) :
    (m.filterCells test).1.Sound := by
  have hfrozen : m.freeze.Sound := ⟨h.vertices.freeze, h.cells.freeze⟩
  obtain ⟨cs, hcs, heq | heq⟩ := m.filterCells_cases test
  · rw [heq]
    exact hfrozen.withCells hcs
  · rw [heq]
    exact (hfrozen.withCells hcs).pruneVertices

theorem Resolved.filterCells (h : m.Resolved) (test : Cell α → Except Error Bool) :
    (m.filterCells test).1.Resolved := by
  have hfrozen : m.freeze.Resolved := h
  obtain ⟨cs, hcs, heq | heq⟩ := m.filterCells_cases test
  · rw [heq]
    exact hfrozen.withCells hcs
  · rw [heq]
    exact (hfrozen.withCells hcs).pruneVertices

theorem after_retain (m : Mesh α) (test : Cell α → Except Error Bool) :
    (retain test).after m = (m.filterCells test).1 := by
  have hrun : (retain test).run m = (Attempt.ofExcept (m.filterCells test).2).run
      (m.filterCells test).1 := rfl
  unfold after
  rw [hrun]
  cases (m.filterCells test).2 <;> rfl

end Mesh

namespace MeshCall

open Mesh

variable {α : Type} {m m' : Mesh α} {call : MeshCall α}

/-- **What a call can leave** of a mesh. One that fails leaves it as it is, apart from a selection
whose test fails on the way. -/
inductive Leaves (m : Mesh α) : MeshCall α → Mesh α → Prop
  | failed (call : MeshCall α) : Leaves m call m
  | insertVertex {x y : α} {index : Number} {i : Int} {vertices : Roster (Vertex α)} {v : Vertex α}
      (hadd : m.vertices.add ⟨x, y, i⟩ = .ok (vertices, v)) :
      Leaves m (insertVertex x y index) { m with vertices }
  | insertCell {refs : List Number} {index : Number} {i j k n : Int} {nativeArea : α}
      {ids : List Int} {cells : Roster (Cell α)} {c : Cell α}
      (hids : ∀ v ∈ ids, v ∈ m.vertices.keys)
      (hadd : m.cells.add ⟨ids, n, i, j, k, nativeArea⟩ = .ok (cells, c)) :
      Leaves m (insertCell refs index i j k nativeArea) { m with cells }
  | removeVertex (index : Int) {vertices : Roster (Vertex α)} {v : Vertex α}
      (herase : m.vertices.erase index = .ok (vertices, v)) :
      Leaves m (removeVertex index) { m with vertices }
  | removeCell (index : Int) {cells : Roster (Cell α)} {c : Cell α}
      (herase : m.cells.erase index = .ok (cells, c)) :
      Leaves m (removeCell index) { m with cells }
  | fixVertices (size : Number) (n : Int) :
      Leaves m (fixVertices size) { m with vertices := m.vertices.setFull n }
  | fixCells (size : Number) (n : Int) :
      Leaves m (fixCells size) { m with cells := m.cells.setFull n }
  | retain (test : Cell α → Except Error Bool) : Leaves m (retain test) (m.filterCells test).1
  | clear : Leaves m clear m.clear
  | assign (setting : MeshSetting) : Leaves m (assign setting) (m.assign setting)

theorem after_leaves (m : Mesh α) : ∀ call : MeshCall α, Leaves m call (call.run.after m)
  | insertVertex x y index => by
    rw [run, after_discard]
    rcases insertVertex_cases m x y index with ⟨e, hrun⟩ | ⟨vertices, v, ⟨i, hadd⟩, hrun⟩
    · rw [after_of_error hrun]
      exact .failed _
    · rw [after_of_ok hrun]
      exact .insertVertex hadd
  | insertCell refs index i j k nativeArea => by
    rw [run, after_discard]
    rcases insertCell_cases m refs index i j k nativeArea with
      ⟨e, hrun⟩ | ⟨cells, c, ⟨ids, n, hids, hadd⟩, hrun⟩
    · rw [after_of_error hrun]
      exact .failed _
    · rw [after_of_ok hrun]
      exact .insertCell hids hadd
  | removeVertex index => by
    rw [run, after_discard]
    rcases onVertices_cases m (m.vertices.remove_cases index) with
      ⟨e, hrun⟩ | ⟨vertices, v, herase, hrun⟩
    · rw [after_of_error hrun]
      exact .failed _
    · rw [after_of_ok hrun]
      exact .removeVertex index herase
  | removeCell index => by
    rw [run, after_discard]
    rcases onCells_cases m (m.cells.remove_cases index) with ⟨e, hrun⟩ | ⟨cells, c, herase, hrun⟩
    · rw [after_of_error hrun]
      exact .failed _
    · rw [after_of_ok hrun]
      exact .removeCell index herase
  | fixVertices size => by
    rcases onVertices_cases m (m.vertices.fix_cases size) with
      ⟨e, hrun⟩ | ⟨_, _, ⟨n, rfl⟩, hrun⟩
    · rw [run, after_of_error hrun]
      exact .failed _
    · rw [run, after_of_ok hrun]
      exact .fixVertices size n
  | fixCells size => by
    rcases onCells_cases m (m.cells.fix_cases size) with ⟨e, hrun⟩ | ⟨_, _, ⟨n, rfl⟩, hrun⟩
    · rw [run, after_of_error hrun]
      exact .failed _
    · rw [run, after_of_ok hrun]
      exact .fixCells size n
  | retain test => by
    rw [run, after_retain]
    exact .retain test
  | clear => .clear
  | assign setting => .assign setting

/-- **No call** makes identifiers unsound. -/
theorem Leaves.sound (h : m.Sound) : Leaves m call m' → m'.Sound
  | failed _ => h
  | insertVertex hadd => ⟨h.vertices.add hadd, h.cells⟩
  | insertCell _ hadd => ⟨h.vertices, h.cells.add hadd⟩
  | removeVertex _ herase => ⟨h.vertices.erase herase, h.cells⟩
  | removeCell _ herase => ⟨h.vertices, h.cells.erase herase⟩
  | fixVertices _ n => ⟨h.vertices.setFull n, h.cells⟩
  | fixCells _ n => ⟨h.vertices, h.cells.setFull n⟩
  | retain test => h.filterCells test
  | clear => ⟨Roster.Sound.clear m.vertices, Roster.Sound.clear m.cells⟩
  | assign setting => by cases setting <;> exact ⟨h.vertices, h.cells⟩

/-- **No call** but the removal of a vertex leaves a reference without its vertex. -/
theorem Leaves.resolved (h : m.Resolved) (hcall : ∀ index, call ≠ .removeVertex index) :
    Leaves m call m' → m'.Resolved
  | failed _ => h
  | insertVertex hadd => by
    intro c hc w hw
    rw [Roster.keys, (Roster.items_add hadd).1, List.map_append]
    exact List.mem_append_left _ (h c hc w hw)
  | insertCell hids hadd => by
    obtain ⟨hitems, rfl⟩ := Roster.items_add hadd
    intro d hd
    rcases List.mem_append.mp (hitems ▸ hd) with hd | hd
    · exact h d hd
    · rw [List.mem_singleton.mp hd, refs_numbered]
      exact hids
  | removeVertex index _ => absurd rfl (hcall index)
  | removeCell _ herase => fun d hd =>
    h d (List.mem_of_mem_filter (Roster.items_erase herase ▸ hd))
  | fixVertices _ _ => h
  | fixCells _ _ => h
  | retain test => h.filterCells test
  | clear => fun c hc => absurd hc List.not_mem_nil
  | assign setting => by cases setting <;> exact h

/-! ## Runs -/

/-- What every call of a run preserves holds after the run. -/
theorem runAll_induction {P : Mesh α → Prop} {calls : List (MeshCall α)}
    (hstep : ∀ call ∈ calls, ∀ m, P m → P (call.run.after m)) (h : P m) : P (runAll calls m) := by
  induction calls generalizing m with
  | nil => exact h
  | cons call calls ih =>
    obtain ⟨hcall, hcalls⟩ := List.forall_mem_cons.mp hstep
    exact ih hcalls (hcall m h)

theorem runAll_sound (h : m.Sound) (calls : List (MeshCall α)) : (runAll calls m).Sound :=
  runAll_induction (fun call _ m h => (after_leaves m call).sound h) h

theorem runAll_resolved (h : m.Resolved) {calls : List (MeshCall α)}
    (hcalls : ∀ call ∈ calls, ∀ index, call ≠ removeVertex index) : (runAll calls m).Resolved :=
  runAll_induction (fun call hcall m h => (after_leaves m call).resolved h (hcalls call hcall)) h

end MeshCall

end Regrid

import Regrid.Mesh.History
import Regrid.Proofs.Keyed
import Regrid.Proofs.Mesh.Calls

/-!
# Rosters and their histories

What a call on a roster (`GridMap`) leaves and tells is said once (`RosterCall.Leaves`). From that,
every call keeps the identifiers sound (`Leaves.sound`), and its event says what became of the
entities (`Leaves.items_kept`). By induction over a run, the entities that are there in the end are
those that its history lets remain, in the order in which they were taken (`items_runAll`).
`runAll_history` is what a roster keeps to after every run.
-/

namespace Regrid

open Attempt

variable {ε : Type} [Numbered ε] {r r' : Roster ε} {x y : ε}

namespace Roster

/-! ## Identifiers -/

/-- An entity is found under its identifier. -/
theorem get?_of_mem (h : r.Sound) (hx : x ∈ r.items) : r.get? (Numbered.index x) = some x :=
  find?_of_nodup Numbered.index h.nodup hx

theorem index_of_erase {index : Int} (h : r.erase index = .ok (r', y)) :
    Numbered.index y = index := by
  have hget := (erase_eq_ok h).1
  unfold get at hget
  split at hget
  · rename_i z hz
    cases hget
    simpa using List.find?_some hz
  · cases hget

theorem sorted_increasing (h : r.Sound) : (r.sorted.map Numbered.index).Pairwise (· < ·) := by
  have hle : (r.sorted.map Numbered.index).Pairwise (· ≤ ·) :=
    List.pairwise_map.mpr (sorted_ascending r)
  exact hle.imp₂ (fun _ _ hle hne => lt_of_le_of_ne hle hne) (keys_sorted_nodup h)

/-- Without a fixed size the numbering goes beyond every entity. -/
theorem lt_full (h : r.Sound) (hfixed : r.fixed < 0) (hx : x ∈ r.items) :
    Numbered.index x < r.full := by
  have := h.le_top x hx
  rw [full, if_neg (by omega)]
  omega

/-- **An entity without an identifier** is always taken, and gets one above all others. -/
theorem insert_next [LawfulNumbered ε] (h : r.Sound) (hx : Numbered.index x < 0) :
    ∃ n r', (insert x).run r = .ok (Numbered.renumber x n) r' ∧
      Numbered.index (Numbered.renumber x n) = n ∧ 0 ≤ n ∧ ∀ y ∈ r.items, Numbered.index y < n := by
  have hnumbered : r.numbered x = Numbered.renumber x (r.top + 1) := if_pos hx
  have hindex : Numbered.index (Numbered.renumber x (r.top + 1)) = r.top + 1 :=
    LawfulNumbered.index_renumber x (r.top + 1)
  have hbelow : ∀ y ∈ r.items, Numbered.index y < r.top + 1 := fun y hy =>
    Int.lt_add_one_of_le (h.le_top y hy)
  have hnew : ¬ r.contains (Numbered.index (r.numbered x)) = true := by
    rw [contains_iff, hnumbered, hindex, keys, List.mem_map]
    rintro ⟨y, hy, he⟩
    exact (hbelow y hy).ne he
  obtain ⟨r', hadd⟩ : ∃ r', r.add x = .ok (r', r.numbered x) := ⟨_, if_neg hnew⟩
  have htop := h.top
  refine ⟨r.top + 1, r', ?_, hindex, by omega, hbelow⟩
  rw [insert_run, hadd, hnumbered]

end Roster

/-! ## Calls -/

namespace RosterCall

variable {call : RosterCall ε} {event : RosterEvent ε}

/-- **What a call leaves** of a roster that does not fail, and what it tells. -/
inductive Leaves (r : Roster ε) : RosterCall ε → Roster ε → RosterEvent ε → Prop
  | insert {x y : ε} {r' : Roster ε} (hadd : r.add x = .ok (r', y)) :
      Leaves r (insert x) r' (.taken y)
  | remove {index : Int} {y : ε} {r' : Roster ε} (herase : r.erase index = .ok (r', y)) :
      Leaves r (remove index) r' (.removed y)
  | fix (size : Number) (n : Int) : Leaves r (fix size) (r.setFull n) .kept
  | clear : Leaves r clear r.clear .cleared
  | recount : Leaves r recount r.recount .kept

/-- A call that fails leaves the roster as it is. -/
theorem run_cases (r : Roster ε) : ∀ call : RosterCall ε, (∃ e, call.run.run r = .error e r) ∨
    ∃ r' event, Leaves r call r' event ∧ call.run.run r = .ok event r'
  | insert x => by
    rcases r.insert_cases x with ⟨e, hrun⟩ | ⟨r', y, hadd, hrun⟩
    · exact Or.inl ⟨e, run_bind_error hrun _⟩
    · exact Or.inr ⟨r', _, .insert hadd, run_bind_ok hrun _⟩
  | remove index => by
    rcases r.remove_cases index with ⟨e, hrun⟩ | ⟨r', y, herase, hrun⟩
    · exact Or.inl ⟨e, run_bind_error hrun _⟩
    · exact Or.inr ⟨r', _, .remove herase, run_bind_ok hrun _⟩
  | fix size => by
    rcases r.fix_cases size with ⟨e, hrun⟩ | ⟨_, _, ⟨n, rfl⟩, hrun⟩
    · exact Or.inl ⟨e, run_bind_error hrun _⟩
    · exact Or.inr ⟨_, _, .fix size n, run_bind_ok hrun _⟩
  | clear => Or.inr ⟨_, _, .clear, rfl⟩
  | recount => Or.inr ⟨_, _, .recount, rfl⟩

theorem Leaves.sound [LawfulNumbered ε] (h : r.Sound) : Leaves r call r' event → r'.Sound
  | insert hadd => h.add hadd
  | remove herase => h.erase herase
  | fix _ n => h.setFull n
  | clear => Roster.Sound.clear r
  | recount => h.recount

theorem after_sound [LawfulNumbered ε] (h : r.Sound) (call : RosterCall ε) :
    (call.run.after r).Sound := by
  rcases run_cases r call with ⟨e, hrun⟩ | ⟨r', event, hleaves, hrun⟩
  · rw [after_of_error hrun]
    exact h
  · rw [after_of_ok hrun]
    exact hleaves.sound h

/-- **An event says what became of the entities**: those that a later history lets stay are those
that the history lets stay that begins with the event. -/
theorem Leaves.items_kept (h : Leaves r call r' event) (later : List (RosterEvent ε)) :
    r'.items.filter (fun x => !later.any (RosterEvent.ends x)) ++ RosterEvent.remaining later =
      r.items.filter (fun x => !(event :: later).any (RosterEvent.ends x)) ++
        RosterEvent.remaining (event :: later) := by
  cases h with
  | @insert _ y _ hadd =>
    rw [(Roster.items_add hadd).1, List.filter_append, List.append_assoc]
    have hlast : [y].filter (fun x => !later.any (RosterEvent.ends x)) ++
        RosterEvent.remaining later = RosterEvent.remaining (.taken y :: later) := by
      rw [RosterEvent.remaining]
      cases hy : later.any (RosterEvent.ends y) <;> simp [hy]
    rw [hlast]
    rfl
  | @remove index y _ herase =>
    have hends : ∀ x, (!later.any (RosterEvent.ends x) && Numbered.index x != index) =
        !(RosterEvent.removed y :: later).any (RosterEvent.ends x) := fun x => by
      rw [List.any_cons, RosterEvent.ends, Roster.index_of_erase herase, Bool.beq_comm,
        Bool.not_or, Bool.and_comm]
      rfl
    rw [Roster.items_erase herase, List.filter_filter, funext hends]
    rfl
  | fix size n => rfl
  | clear =>
    have hgone : ∀ x ∈ r.items,
        ¬ (!(RosterEvent.cleared :: later).any (RosterEvent.ends x)) = true :=
      fun x _ => by simp [RosterEvent.ends]
    rw [List.filter_eq_nil_iff.mpr hgone]
    rfl
  | recount => rfl

/-! ## Runs -/

theorem runAll_error {calls : List (RosterCall ε)} {e : Error} (h : call.run.run r = .error e r') :
    runAll (call :: calls) r = runAll calls r' := by
  rw [runAll, h]

theorem runAll_ok {calls : List (RosterCall ε)} (h : call.run.run r = .ok event r') :
    runAll (call :: calls) r = ((runAll calls r').1, event :: (runAll calls r').2) := by
  rw [runAll, h]

/-- Every run keeps the identifiers sound. -/
theorem runAll_sound [LawfulNumbered ε] : ∀ (calls : List (RosterCall ε)) {r : Roster ε},
    r.Sound → (runAll calls r).1.Sound
  | [], _, h => h
  | call :: calls, r, h => by
    rcases run_cases r call with ⟨e, hrun⟩ | ⟨r', event, hleaves, hrun⟩
    · rw [runAll_error hrun]
      exact runAll_sound calls h
    · rw [runAll_ok hrun]
      exact runAll_sound calls (hleaves.sound h)

/-- **The entities after a run**: those from before that no event ended, and behind them those that
the history lets remain. -/
theorem items_runAll (calls : List (RosterCall ε)) (r : Roster ε) :
    (runAll calls r).1.items =
      r.items.filter (fun x => !(runAll calls r).2.any (RosterEvent.ends x)) ++
        RosterEvent.remaining (runAll calls r).2 := by
  induction calls generalizing r with
  | nil => simp [runAll, RosterEvent.remaining]
  | cons call calls ih =>
    rcases run_cases r call with ⟨e, hrun⟩ | ⟨r', event, hleaves, hrun⟩
    · rw [runAll_error hrun]
      exact ih r
    · rw [runAll_ok hrun]
      exact (ih r').trans (hleaves.items_kept _)

/-- **Every roster that comes of a run of calls**, whatever fails in it. Its entities are found
under their own identifiers, which are not negative and differ. A call that fails leaves it as it
is, and an entity without an identifier is taken under one above all others. Without a fixed size
the numbering goes beyond every entity. Sorted, the entities are the same by strictly increasing
identifier, and otherwise they stand in the order in which they were taken. -/
theorem runAll_history [LawfulNumbered ε] {calls : List (RosterCall ε)} {what : String}
    {events : List (RosterEvent ε)} (h : runAll calls { what } = (r, events)) :
    (∀ x ∈ r.items, 0 ≤ Numbered.index x ∧ r.get? (Numbered.index x) = some x) ∧ r.keys.Nodup ∧
      (∀ (call : RosterCall ε) (e : Error) (r' : Roster ε),
        call.run.run r = .error e r' → r' = r) ∧
      (∀ x, Numbered.index x < 0 → ∃ n r',
        (Roster.insert x).run r = .ok (Numbered.renumber x n) r' ∧
          Numbered.index (Numbered.renumber x n) = n ∧ 0 ≤ n ∧
          ∀ y ∈ r.items, Numbered.index y < n) ∧
      (r.fixed < 0 → ∀ x ∈ r.items, Numbered.index x < r.full) ∧
      r.sorted.Perm r.items ∧ (r.sorted.map Numbered.index).Pairwise (· < ·) ∧
      r.items = RosterEvent.remaining events := by
  have hsound : r.Sound := by
    have := runAll_sound calls (Roster.sound_empty (ε := ε) what (-1))
    rwa [h] at this
  have hitems := items_runAll calls ({ what } : Roster ε)
  rw [h] at hitems
  refine ⟨fun x hx => ⟨hsound.nonneg x hx, Roster.get?_of_mem hsound hx⟩, hsound.nodup, ?_,
    fun x hx => Roster.insert_next hsound hx, fun hfixed x hx => Roster.lt_full hsound hfixed hx,
    Roster.sorted_perm r, Roster.sorted_increasing hsound, hitems⟩
  intro call e r' hrun
  rcases run_cases r call with ⟨_, hr⟩ | ⟨_, _, -, hr⟩
  · rw [hr] at hrun
    cases hrun
    rfl
  · rw [hr] at hrun
    cases hrun

/-- The greatest identifier is removed and given again, but only after it was counted anew. -/
theorem runAll_history_renumbered :
    let vertex (index : Int) : Vertex Rat := ⟨0, 0, index⟩
    let calls := [insert (vertex 5), insert (vertex 5), insert (vertex (-1)), remove 6, remove 6,
      insert (vertex (-1)), remove 7, recount, insert (vertex 2), insert (vertex (-1))]
    let run := runAll calls ({ what := "vertex" } : Roster (Vertex Rat))
    let r := run.1
    r.keys = [5, 2, 6] ∧ (r.sorted.map Numbered.index).Pairwise (· < ·) ∧
      (∀ x ∈ r.items, Numbered.index x < r.full) := by
  intro vertex calls run r
  have hrun : run = (r, run.2) := rfl
  obtain ⟨-, -, -, -, hfull, -, hsorted, -⟩ := runAll_history hrun
  exact ⟨by decide +kernel, hsorted, hfull (by decide +kernel)⟩

end RosterCall

end Regrid

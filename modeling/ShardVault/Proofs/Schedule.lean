import ShardVault.Schedule

/-!
Visits without delay and duration.  Every visitor is done in the first turn, whatever the room and
the limit, so all are done, in their order (`done_brief`).
-/

namespace ShardVault.Schedule

namespace Hall

variable {limit : Nat}

/-- The first turn of a visitor who takes no time and finds room ends the visit. -/
theorem act_brief {hall : Hall} {room visitor : Nat} (hroom : hall.room = room + 1)
    (hqueue : hall.queue = []) (hplan : hall.stage visitor = .planning (.visit 0 0)) :
    hall.act limit ⟨0, visitor⟩ = hall.finish visitor := by
  have hproceed : hall.proceed 0 visitor = hall.finish visitor := by
    simp only [proceed, hplan, start, arrive, hroom, enter, if_true]
    simp only [vacate, finish, become, hqueue]
    rw [hroom]
  have hgone : (hall.finish visitor).stage visitor = .gone := by
    simp only [finish, become, stage, List.getD_eq_getElem?_getD, List.getElem?_set_self']
    cases hall.stages[visitor]? <;> rfl
  simp only [act, hproceed, hgone, if_true]

theorem stage_finish_of_ne (hall : Hall) {visitor other : Nat} (h : other ≠ visitor) :
    (hall.finish visitor).stage other = hall.stage other := by
  simp [finish, become, stage, List.getD_eq_getElem?_getD, List.getElem?_set_ne h.symm]

/-- Visitors who take no time are done one after the other. -/
theorem run_brief {visitors : List Nat} (hnodup : visitors.Nodup) (hall : Hall) (room : Nat)
    {count : Nat} (hroom : hall.room = room + 1) (hqueue : hall.queue = [])
    (hturns : hall.turns = visitors.map (⟨0, ·⟩))
    (hplan : ∀ visitor ∈ visitors, hall.stage visitor = .planning (.visit 0 0))
    (hcount : visitors.length ≤ count) :
    (hall.run limit count).done = hall.done ++ visitors := by
  induction visitors generalizing hall count with
  | nil =>
    cases count with
    | zero => rw [run, List.append_nil]
    | succ count => rw [run, hturns, List.map_nil, List.append_nil]
  | cons visitor rest ih =>
    obtain ⟨count, rfl⟩ : ∃ less, count = less + 1 :=
      Nat.exists_eq_add_one.mpr (Nat.lt_of_lt_of_le (Nat.succ_pos _) hcount)
    rw [List.nodup_cons] at hnodup
    let next : Hall := { hall with turns := rest.map (⟨0, ·⟩) }
    have hact : next.act limit ⟨0, visitor⟩ = next.finish visitor :=
      act_brief hroom hqueue (hplan visitor List.mem_cons_self)
    have hrest : ∀ other ∈ rest, (next.finish visitor).stage other = .planning (.visit 0 0) := by
      intro other hother
      have hne : other ≠ visitor := by
        rintro rfl
        exact hnodup.1 hother
      rw [stage_finish_of_ne next hne]
      exact hplan other (List.mem_cons_of_mem _ hother)
    have hdone := ih hnodup.2 (next.finish visitor) hroom hqueue rfl hrest
      (Nat.le_of_succ_le_succ hcount)
    simp only [run, hturns, List.map_cons]
    change (run limit count (next.act limit ⟨0, visitor⟩)).done = _
    rw [hact, hdone]
    simp only [finish, become, next, List.append_assoc, List.singleton_append]

end Hall

/-- If nobody takes any time, everybody is done. -/
theorem done_brief (room limit : Nat) {plans : List Plan} (h : ∀ plan ∈ plans, plan = .visit 0 0) :
    done room limit plans = List.range plans.length := by
  have hstage : ∀ visitor ∈ List.range plans.length,
      (Hall.opening room plans).stage visitor = .planning (.visit 0 0) := by
    intro visitor hvisitor
    have hlt := List.mem_range.mp hvisitor
    simp only [Hall.opening, Hall.stage, List.getD_eq_getElem?_getD, List.getElem?_map,
      List.getElem?_eq_getElem hlt, Option.map_some, Option.getD_some,
      h _ (List.getElem_mem hlt)]
  rw [done, Hall.run_brief List.nodup_range _ (max room 1 - 1) _ rfl rfl hstage]
  · rfl
  · rw [List.length_range]
    omega
  · simp only [Hall.opening]
    omega

end ShardVault.Schedule

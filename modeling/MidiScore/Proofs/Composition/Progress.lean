import MidiScore.Proofs.Composition.Build

/-!
# Built compositions do not lock up

In a composition that was built by adding blocks, statements and meetings, all blocks go through
their links in the order in which these were added. If all have the same number of passes, this
order, once for each pass, is a plan.
-/

namespace MidiScore.Composition

/-- All links in order, once for each pass. -/
def rounds (links passes : Nat) : List Nat :=
  (List.replicate passes (List.range links)).flatten

theorem filter_flatten_replicate (passes : Nat) (stops : List Nat) (p : Nat → Bool) :
    (List.replicate passes stops).flatten.filter p =
      (List.replicate passes (stops.filter p)).flatten := by
  rw [List.filter_flatten, List.map_replicate]

theorem ahead_start {b : Block} {passes : Nat} (h : b.passes? = some passes) (output number : Nat)
    (timing : Timing) :
    (Worker.start b output number timing).ahead =
      (List.replicate passes (meetingsOf b.statements)).flatten := by
  have hready : (Worker.start b output number timing).phase = .ready := by
    simp [Worker.start, h]
  rw [Worker.ahead_of_not_isWaiting (Worker.isWaiting_of_ready hready)]
  simp [Worker.start, h, meetingsOf]

theorem plan_rounds {c : Composition} {timing : Timing} {e : Ensemble} {passes : Nat}
    (start : c.ensemble timing = .ok e) (ordered : c.Ordered)
    (same : ∀ b ∈ c.blocks, b.passes? = some passes) :
    e.Plan (rounds c.links.length passes) := by
  have hlinks := links_ensemble start
  refine ⟨?_, ?_, ?_⟩
  · intro i w hi
    obtain ⟨b, number, hb, -, rfl⟩ := exists_block_of_ensemble start hi
    rw [ahead_start (same b (List.mem_of_getElem? hb)), ordered.meetings i b hb, hlinks, rounds,
      filter_flatten_replicate, filter_flatten_replicate, linksOf, List.filter_filter]
    simp
  · intro w hw l hl
    obtain ⟨i, hi⟩ := List.mem_iff_getElem?.1 hw
    obtain ⟨b, number, hb, -, rfl⟩ := exists_block_of_ensemble start hi
    rw [ahead_start (same b (List.mem_of_getElem? hb)), ordered.meetings i b hb] at hl
    obtain ⟨stops, hstops, hin⟩ := List.mem_flatten.1 hl
    rw [(List.mem_replicate.1 hstops).2] at hin
    obtain ⟨r, found, -⟩ := mem_linksOf.1 hin
    rw [hlinks]
    exact (List.getElem?_eq_some_iff.1 found).1
  · intro l _ j hj
    rw [hlinks] at hj
    obtain ⟨r, found, hmem⟩ := Ensemble.isMemberAt_iff.1 hj
    rw [length_workers_ensemble start]
    exact ordered.members r (List.mem_of_getElem? found) j hmem

/-- **No deadlock.** Take a composition that was built by adding blocks, statements and meetings,
all blocks of which go through the same number of passes. In every state that its workers reach
without a failure, in any order of their steps, all have finished or some worker can take a step; so
it never happens that some have not finished and all of these are held at links. -/
theorem not_deadlocked {c : Composition} {timing : Timing} {passes : Nat} {e₀ e : Ensemble}
    (built : c.Built) (same : ∀ b ∈ c.blocks, b.passes? = some passes)
    (start : c.ensemble timing = .ok e₀) (reached : Ensemble.Steps e₀ e)
    (unfailed : ∀ w ∈ e.workers, ¬ w.HasFailed) :
    ((∀ w ∈ e.workers, w.phase = .finished) ∨ ∃ i e', e.step? i = some e') ∧
      ¬ ((∃ w ∈ e.workers, w.phase ≠ .finished) ∧
        ∀ i w, e.workers[i]? = some w → w.phase ≠ .finished → ∃ l, e.HeldAt i l) := by
  have ordered := built.ordered
  obtain ⟨journal, run⟩ := Ensemble.exists_run reached
  have course : Ensemble.Course e₀ journal e :=
    ⟨atRest_ensemble start ordered.idle, run, unfailed⟩
  have hnext := (plan_rounds start ordered same).finished_or_step course
  refine ⟨hnext, ?_⟩
  rintro ⟨⟨w, hw, hunfinished⟩, hheld⟩
  rcases hnext with hall | ⟨i, e', hstep⟩
  · exact hunfinished (hall w hw)
  · obtain ⟨v, hi, hv⟩ := Option.bind_eq_some_iff.1 hstep
    have active : v.phase ≠ .finished := by
      intro hf
      unfold Ensemble.stepWorker? at hv
      rw [hf] at hv
      cases hv
    obtain ⟨l, held⟩ := hheld i v hi active
    rw [held.step?_eq_none] at hstep
    cases hstep

/-- The composition after `sync`, or as it was where that is refused. -/
def synced (c : Composition) (outputs : List Nat) : Composition :=
  ((c.sync outputs ⟨1, 1⟩).toOption).getD c

theorem Built.synced {c : Composition} (built : c.Built) (outputs : List Nat) :
    (c.synced outputs).Built := by
  unfold Composition.synced
  cases h : c.sync outputs ⟨1, 1⟩ with
  | ok c' => exact built.sync h
  | error cause => exact built

/-- Three blocks of two passes with links that overlap. -/
def triangle : Composition :=
  let twice : Directive := { passes := some 2 }
  let c := (({} : Composition).addBlock { name := "a", directive := twice }).2
  let c := (c.addBlock { name := "b", directive := twice }).2
  let c := (c.addBlock { name := "c", directive := twice }).2
  ((c.synced [0, 1]).synced [1, 2]).synced [2, 0]

/-- The first block rests after its meetings. -/
def relay : Composition :=
  triangle.setBlock 0 (((triangle.block? 0).getD { name := "a" }).pushAt ⟨2, 1⟩ (.rest .quarter))

theorem built_relay : relay.Built := by
  have linked : triangle.Built := by
    refine .synced (.synced (.synced ?_ [0, 1]) [1, 2]) [2, 0]
    exact .addBlock (.addBlock (.addBlock .empty rfl) rfl) rfl
  have found : triangle.block? 0 = some ((triangle.block? 0).getD { name := "a" }) := rfl
  have plain : meetingsOf [⟨⟨2, 1⟩, .rest .quarter⟩] = [] := rfl
  exact linked.edit found plain rfl

/-- The first two blocks have met, and each waits for the third, which has not begun. -/
theorem not_deadlocked_relay :
    ∃ e₀ e, relay.Built ∧ (∀ b ∈ relay.blocks, b.passes? = some 2) ∧
      relay.ensemble .standard = .ok e₀ ∧ Ensemble.Steps e₀ e ∧ (∀ w ∈ e.workers, ¬ w.HasFailed) ∧
      ((∀ w ∈ e.workers, w.phase = .finished) ∨ ∃ i e', e.step? i = some e') := by
  have same : ∀ b ∈ relay.blocks, b.passes? = some 2 := by decide +kernel
  have hphases : (relay.ensemble .standard).toOption.map (fun e =>
      (e.takeTurns [0, 0, 1, 1, 0, 0, 1]).workers.map (·.phase)) =
        some [.waiting 2 0, .waiting 1 0, .ready] := by
    decide +kernel
  cases start : relay.ensemble .standard with
  | error cause =>
    rw [start] at hphases
    cases hphases
  | ok e₀ =>
    rw [start] at hphases
    have hmap : (e₀.takeTurns [0, 0, 1, 1, 0, 0, 1]).workers.map (·.phase) = _ :=
      Option.some.inj hphases
    have reached := e₀.steps_takeTurns [0, 0, 1, 1, 0, 0, 1]
    have unfailed : ∀ w ∈ (e₀.takeTurns [0, 0, 1, 1, 0, 0, 1]).workers, ¬ w.HasFailed := by
      rintro w hw ⟨cause, hf⟩
      have hmem := List.mem_map_of_mem (f := (·.phase)) hw
      rw [hmap, hf] at hmem
      simp at hmem
    exact ⟨e₀, _, built_relay, same, rfl, reached, unfailed,
      (not_deadlocked built_relay same start reached unfailed).1⟩

end MidiScore.Composition

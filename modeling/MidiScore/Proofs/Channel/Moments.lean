import Mathlib.Logic.Relation
import MidiScore.Proofs.Channel.Clocked

/-!
# An advance, step by step

An advance takes bucket after bucket out of the agenda and runs the actions of each, one after the
other. A `Moment` is a channel with the actions that it still has to run at its tick, and
`Moment.Step` leads from one to the next; an advance that succeeds is a way from where nothing is
left to run to where nothing more falls due (`Moment.of_drain`). A way can be followed while an
invariant lasts, up to the first moment that ends it (`Moment.Way.exists_first`).
-/

namespace MidiScore

namespace Agenda

variable {α : Type} {q rest : Agenda α} {t tick limit : Nat} {x : α} {xs : List α}

/-- The items that are due on a tick, in the order in which they fall due. -/
def on (q : Agenda α) (tick : Nat) : List α :=
  (q.toList.filter (·.1 = tick)).map (·.2)

theorem mem_on : x ∈ q.on tick ↔ (tick, x) ∈ q.toList := by
  unfold on
  simp only [List.mem_map, List.mem_filter, decide_eq_true_eq]
  constructor
  · rintro ⟨⟨t, y⟩, ⟨h, rfl⟩, rfl⟩
    exact h
  · exact fun h => ⟨(tick, x), ⟨h, rfl⟩, rfl⟩

theorem on_push : (q.push t x).on tick = q.on tick ++ if t = tick then [x] else [] := by
  unfold on
  rw [filter_toList_push, List.map_append]
  by_cases h : t = tick
  · rw [if_pos h, List.filter_cons_of_pos (by simpa using h)]
    rfl
  · rw [if_neg h, List.filter_cons_of_neg (by simpa using h)]
    rfl

theorem byTick_toList_pushAll (q : Agenda α) (l : List (Nat × α)) :
    ByTick (q.toList ++ l) (q.pushAll l).toList := by
  have h : ByTick q.toList ([] ++ q.toList) := .of_sorted q.pairwise_toList
  exact byTick_pushAll h nofun

theorem on_pushAll (q : Agenda α) (tick : Nat) (xs : List α) :
    (q.pushAll (xs.map (tick, ·))).on tick = q.on tick ++ xs := by
  unfold on
  rw [(byTick_toList_pushAll q _).ties, List.filter_append, filter_map_tick, if_pos rfl,
    List.map_append, List.map_map]
  exact congrArg (_ ++ ·) (List.map_id xs)

/-- What is taken out was all that was due on its tick. -/
theorem on_of_popDue? (h : q.popDue? limit = some (t, xs, rest)) :
    q.on t = xs ∧ ∀ tick, tick ≠ t → rest.on tick = q.on tick := by
  have hfst : (fun p : Nat × α => p.2) ∘ (t, ·) = id := rfl
  constructor
  · have hrest : rest.toList.filter (·.1 = t) = [] :=
      List.filter_eq_nil_iff.2 fun p hp => by simpa using Nat.ne_of_gt (lt_of_popDue? h p hp)
    unfold on
    rw [toList_of_popDue? h, List.filter_append, filter_map_tick, if_pos rfl, hrest,
      List.append_nil, List.map_map, hfst, List.map_id]
  · intro tick hne
    unfold on
    rw [toList_of_popDue? h, List.filter_append, filter_map_tick, if_neg (Ne.symm hne),
      List.nil_append]

end Agenda

open ChannelM

/-- A channel and the actions that it still has to run at its tick. -/
structure Moment where
  due : List Action
  now : Channel

namespace Moment

/-- A step of an advance to `target`. -/
inductive Step (target : Nat) : Moment → Moment → Prop where
  | take {c : Channel} {tick : Nat} {actions : List Action} {rest : Agenda Action}
    (due : c.pending.popDue? target = some (tick, actions, rest)) :
    Step target ⟨[], c⟩ ⟨actions, { c with pending := rest, clock := max c.clock tick }⟩
  | run {a : Action} {due : List Action} {c c' : Channel} (run : run a c = .ok () c') :
    Step target ⟨a :: due, c⟩ ⟨due, c'⟩

/-- Steps of an advance, all to channels with `P`. -/
abbrev Way (target : Nat) (P : Channel → Prop) : Moment → Moment → Prop :=
  Relation.ReflTransGen fun m m' => Step target m m' ∧ P m'.now

variable {target t : Nat} {P : Channel → Prop} {m e : Moment} {c c' : Channel}
  {as back : List Action}

theorem Way.weaken {Q : Channel → Prop} (hPQ : ∀ c, P c → Q c) (h : Way target P m e) :
    Way target Q m e :=
  h.lift id fun _ _ hstep => ⟨hstep.1, hPQ _ hstep.2⟩

/-- Actions that are run one after the other are steps. -/
theorem way_of_runAll (hP : ∀ a ∈ as, Keeps P (run a)) (hc : P c)
    (h : runAll as c = .ok () c') : Way target P ⟨as ++ back, c⟩ ⟨back, c'⟩ ∧ P c' := by
  induction as generalizing c with
  | nil =>
    cases h
    exact ⟨.refl, hc⟩
  | cons a rest ih =>
    obtain ⟨ha, hrest⟩ := List.forall_mem_cons.1 hP
    obtain ⟨_, c₁, h₁, h₂⟩ := bind_eq_ok h
    have hc₁ := ha c () c₁ hc h₁
    obtain ⟨hway, hc'⟩ := ih hrest hc₁ h₂
    exact ⟨.head ⟨.run h₁, hc₁⟩ hway, hc'⟩

/-- Steps from where some actions are to be run first run these. -/
theorem exists_runAll (he : e.due = []) (h : Way target P ⟨as ++ back, c⟩ e) :
    ∃ c', runAll as c = .ok () c' ∧ Way target P ⟨back, c'⟩ e := by
  induction as generalizing c with
  | nil => exact ⟨c, rfl, h⟩
  | cons a rest ih =>
    rcases h.cases_head with rfl | ⟨_, ⟨hstep, -⟩, hway⟩
    · cases he
    · cases hstep with
      | run hrun =>
        obtain ⟨c', hrest, hway'⟩ := ih hway
        exact ⟨c', (bind_of_ok hrun).trans hrest, hway'⟩

/-- An advance that succeeds goes on by steps until nothing is due any more. -/
theorem of_drain (h : Channel.drain target c = .ok t c') :
    ∃ d, Way target (fun _ => True) ⟨[], c⟩ ⟨[], d⟩ ∧ d.pending.popDue? target = none ∧
      c' = { d with clock := target } := by
  fun_induction Channel.drain target c with
  | case1 c hpop =>
    cases h
    exact ⟨c, .refl, hpop, rfl⟩
  | case2 c tick actions rest hpop _ c₁ hrun ih =>
    obtain ⟨d, hway, hidle, hd⟩ := ih h
    have hbucket : Way target (fun _ => True)
        ⟨actions ++ [], { c with pending := rest, clock := max c.clock tick }⟩ ⟨[], c₁⟩ :=
      (way_of_runAll (fun _ _ _ _ _ _ _ => trivial) trivial hrun).1
    rw [List.append_nil] at hbucket
    exact ⟨d, .head ⟨.take hpop, trivial⟩ (hbucket.trans hway), hidle, hd⟩
  | case3 => cases h

/-- An invariant of the clock is kept by each step. -/
theorem Step.keeps {D : List Action → Channel → Prop} (hD : Clocked D) {m' : Moment}
    (h : Step target m m') (hm : D m.due m.now) : D m'.due m'.now := by
  cases h with
  | take due => exact hD.pop due hm
  | run hrun => exact hD.run _ _ _ _ _ hm hrun

/-- An invariant is true all the way. -/
theorem Way.of_invariant {I : Moment → Prop} (step : ∀ m m', Step target m m' → I m → I m')
    (hP : ∀ m, I m → P m.now) (hm : I m) (h : Way target (fun _ => True) m e) :
    Way target P m e ∧ I e := by
  induction h with
  | refl => exact ⟨.refl, hm⟩
  | tail _ hstep ih =>
    have hI := step _ _ hstep.1 ih.2
    exact ⟨ih.1.tail ⟨hstep.1, hP _ hI⟩, hI⟩

/-- An invariant that is true until some moment, but not at the end, is true up to such a moment. -/
theorem Way.exists_first {I A : Moment → Prop}
    (step : ∀ m m', Step target m m' → I m → ¬ A m → I m') (hP : ∀ m, I m → P m.now) (hm : I m)
    (he : ¬ I e) (h : Way target (fun _ => True) m e) :
    ∃ m₁, Way target P m m₁ ∧ I m₁ ∧ A m₁ ∧ Way target (fun _ => True) m₁ e := by
  induction h using Relation.ReflTransGen.head_induction_on with
  | refl => exact absurd hm he
  | @head m m' hstep hway ih =>
    by_cases hA : A m
    · exact ⟨m, .refl, hm, hA, .head hstep hway⟩
    · have hm' := step m m' hstep.1 hm hA
      obtain ⟨m₁, hto, hrest⟩ := ih hm'
      exact ⟨m₁, .head ⟨hstep.1, hP m' hm'⟩ hto, hrest⟩

end Moment

end MidiScore

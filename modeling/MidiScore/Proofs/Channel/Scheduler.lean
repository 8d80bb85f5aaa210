import MidiScore.Proofs.Channel.Ignores
import MidiScore.Proofs.Channel.Reachable

/-!
# The clock runs one action at a time

`serve` is a scheduler that keeps what is promised as a list in the order of promising. It takes out
the first of those due earliest, sets the clock to its tick, runs it, puts what it promised behind
all others, and starts over until nothing is due by its target. Advancing the clock of a channel
does what `serve` does (`advance_eq_serve`), although it takes out whole buckets and what it runs
promises more in the meantime: what is left of a bucket stands ahead of the agenda, and together
they list by tick what `serve` has in its list.
-/

namespace MidiScore

variable {α : Type}

/-! ## The first of those due earliest -/

/-- Takes out the item of the least tick, of several such the first. -/
def takeFirst? : List (Nat × α) → Option ((Nat × α) × List (Nat × α))
  | [] => none
  | p :: rest =>
    match takeFirst? rest with
    | none => some (p, [])
    | some (first, others) => if p.1 ≤ first.1 then some (p, rest) else some (first, p :: others)

/-- Takes out the first of those due earliest, if it is due by `target`. -/
def takeDue? (target : Nat) (l : List (Nat × α)) : Option ((Nat × α) × List (Nat × α)) :=
  (takeFirst? l).filter fun r => r.1.1 ≤ target

theorem takeFirst?_eq_none {l : List (Nat × α)} (h : takeFirst? l = none) : l = [] := by
  cases l with
  | nil => rfl
  | cons p rest =>
    unfold takeFirst? at h
    split at h
    · cases h
    · split at h <;> cases h

/-- What is taken out stood before all others of its tick, and no item is due before it. -/
theorem of_takeFirst? {l others : List (Nat × α)} {p : Nat × α}
    (h : takeFirst? l = some (p, others)) :
    ∃ before after, l = before ++ p :: after ∧ others = before ++ after ∧
      (∀ b ∈ before, p.1 < b.1) ∧ ∀ a ∈ after, p.1 ≤ a.1 := by
  induction l generalizing p others with
  | nil => cases h
  | cons q rest ih =>
    unfold takeFirst? at h
    split at h
    · next hnone =>
      cases h
      rw [takeFirst?_eq_none hnone]
      exact ⟨[], [], rfl, rfl, fun _ hb => absurd hb List.not_mem_nil,
        fun _ ha => absurd ha List.not_mem_nil⟩
    · next first others' hsome =>
      obtain ⟨before, after, rfl, rfl, hbefore, hafter⟩ := ih hsome
      split at h
      · next hle =>
        cases h
        refine ⟨[], _, rfl, rfl, fun _ hb => absurd hb List.not_mem_nil, fun a ha => ?_⟩
        rcases List.mem_append.1 ha with ha | ha
        · have := hbefore a ha
          omega
        · rcases List.mem_cons.1 ha with rfl | ha
          · exact hle
          · exact Nat.le_trans hle (hafter a ha)
      · next hlt =>
        cases h
        exact ⟨q :: before, after, rfl, rfl, List.forall_mem_cons.2 ⟨by omega, hbefore⟩, hafter⟩

theorem of_takeDue? {target : Nat} {l others : List (Nat × α)} {p : Nat × α}
    (h : takeDue? target l = some (p, others)) :
    p.1 ≤ target ∧ ∃ before after, l = before ++ p :: after ∧ others = before ++ after ∧
      (∀ b ∈ before, p.1 < b.1) ∧ ∀ a ∈ after, p.1 ≤ a.1 := by
  obtain ⟨hfirst, hle⟩ := Option.filter_eq_some_iff.1 h
  exact ⟨by simpa using hle, of_takeFirst? hfirst⟩

theorem takeDue?_eq_none {target : Nat} {l : List (Nat × α)} (h : ∀ p ∈ l, target < p.1) :
    takeDue? target l = none := by
  cases hdue : takeDue? target l with
  | none => rfl
  | some r =>
    obtain ⟨hle, before, after, rfl, -⟩ := of_takeDue? hdue
    have := h r.1 (by simp)
    omega

theorem lt_of_takeDue?_eq_none {target : Nat} {l : List (Nat × α)}
    (h : takeDue? target l = none) : ∀ p ∈ l, target < p.1 := by
  cases hfirst : takeFirst? l with
  | none =>
    rw [takeFirst?_eq_none hfirst]
    exact fun _ hp => absurd hp List.not_mem_nil
  | some r =>
    obtain ⟨first, others⟩ := r
    have hlt : target < first.1 := by simpa [takeDue?, hfirst] using h
    obtain ⟨before, after, rfl, -, hbefore, hafter⟩ := of_takeFirst? hfirst
    intro p hp
    rcases List.mem_append.1 hp with hp | hp
    · exact Nat.lt_trans hlt (hbefore p hp)
    · rcases List.mem_cons.1 hp with rfl | hp
      · exact hlt
      · exact Nat.lt_of_lt_of_le hlt (hafter p hp)

/-- The first of a list by tick is what is taken out. -/
theorem ByTick.takeFirst?_eq {made l : List (Nat × α)} {p : Nat × α} (h : ByTick made (p :: l)) :
    ∃ others, takeFirst? made = some (p, others) ∧ ByTick others l := by
  cases hfirst : takeFirst? made with
  | none =>
    have hp : p ∈ made := h.mem_iff.1 List.mem_cons_self
    rw [takeFirst?_eq_none hfirst] at hp
    cases hp
  | some r =>
    obtain ⟨q, others⟩ := r
    obtain ⟨before, after, rfl, rfl, hbefore, hafter⟩ := of_takeFirst? hfirst
    have hq : ByTick (before ++ q :: after) (q :: (Agenda.ofList (before ++ after)).toList) :=
      (Agenda.byTick_ofList _).cons hbefore hafter
    cases h.eq hq
    exact ⟨_, rfl, Agenda.byTick_ofList _⟩

/-! ## The scheduler -/

/-- What the scheduler did at once: it ran an action at its tick, which made promises. -/
structure Turn where
  tick : Nat
  action : Action
  made : List (Nat × Action)

/-- The weights of the actions that are promised. -/
def workOf (promises : List (Nat × Action)) : Nat :=
  total (promises.map fun p => p.2.weight)

namespace ChannelM

/-- A result without the channel that a failure leaves. -/
def outcome (r : EStateM.Result Failure Channel α) : Except Failure (α × Channel) :=
  match r with
  | .ok a c => .ok (a, c)
  | .error e _ => .error e

theorem workOf_lt {target tick : Nat} {action : Action} {c c' : Channel}
    {promises others : List (Nat × Action)}
    (hdue : takeDue? target promises = some ((tick, action), others))
    (hrun : run action { c with clock := tick, pending := .empty } = .ok () c') :
    workOf (others ++ c'.pending.toList) < workOf promises := by
  obtain ⟨-, before, after, rfl, rfl, -, -⟩ := of_takeDue? hdue
  have hadds := adds_run action { c with clock := tick, pending := .empty }
  rw [leaves_of_ok hrun] at hadds
  have hpos := action.weight_pos
  have hempty : (Agenda.empty : Agenda Action).toList = [] := rfl
  simp only [Channel.workload, Agenda.weigh_eq, hempty, List.map_nil, total_nil] at hadds
  unfold workOf
  simp only [List.map_append, List.map_cons, total_append, total_cons]
  omega

/-- Runs what is due by `target`, one action at a time, and then sets the clock to `target`. The
agenda of the channel is not looked at: `promises` lists what is promised in the order of promising.
Answers the turns and the channel. -/
def serve (target : Nat) (c : Channel) (promises : List (Nat × Action)) :
    Except Failure (List Turn × Channel) :=
  match _ : takeDue? target promises with
  | none => .ok ([], { c with clock := target, pending := .ofList promises })
  | some ((tick, action), others) =>
    match _ : run action { c with clock := tick, pending := .empty } with
    | .error cause _ => .error cause
    | .ok _ c' =>
      match serve target c' (others ++ c'.pending.toList) with
      | .error cause => .error cause
      | .ok (turns, c'') => .ok (⟨tick, action, c'.pending.toList⟩ :: turns, c'')
termination_by workOf promises
decreasing_by exact workOf_lt (by assumption) (by assumption)

/-! ## Advancing the clock -/

section Serve

variable {target tick : Nat} {action : Action} {c c' : Channel}
  {promises others made : List (Nat × Action)}

/-- The new tick and the channel that the scheduler leaves, or why it failed. -/
def served (target : Nat) (c : Channel) (promises : List (Nat × Action)) :
    Except Failure (Nat × Channel) :=
  (serve target c promises).map fun r => (target, r.2)

theorem served_of_none (h : takeDue? target promises = none) :
    served target c promises =
      .ok (target, { c with clock := target, pending := .ofList promises }) := by
  unfold served
  rw [serve]
  split
  · rfl
  · next hsome =>
    rw [h] at hsome
    cases hsome

theorem served_of_some (h : takeDue? target promises = some ((tick, action), others)) :
    served target c promises =
      match run action { c with clock := tick, pending := .empty } with
      | .error cause _ => .error cause
      | .ok _ c' => served target c' (others ++ c'.pending.toList) := by
  unfold served
  rw [serve]
  split
  · next hnone =>
    rw [h] at hnone
    cases hnone
  · next hsome =>
    rw [h] at hsome
    cases hsome
    split
    · next hrun => rw [hrun]; rfl
    · next c' hrun =>
      rw [hrun]
      dsimp only
      cases serve target c' (others ++ c'.pending.toList) <;> rfl

/-- The scheduler looks neither at the clock nor at the agenda of the channel. -/
theorem served_congr (now : Nat) (q : Agenda Action) :
    served target { c with clock := now, pending := q } promises = served target c promises := by
  cases h : takeDue? target promises with
  | none => rw [served_of_none h, served_of_none h]
  | some r =>
    obtain ⟨⟨tick, action⟩, others⟩ := r
    rw [served_of_some h, served_of_some h]

/-- What is left of a bucket stands ahead of the agenda. Running it is running what the scheduler
has first in its list. -/
theorem served_of_runAll {due : List Action} (htarget : tick ≤ target) (hc : c.clock = tick)
    (h : ByTick promises (due.map (tick, ·) ++ c.pending.toList)) :
    match runAll due c with
    | .error cause _ => served target c promises = .error cause
    | .ok _ c' => ∃ promises', ByTick promises' c'.pending.toList ∧
        served target c promises = served target c' promises' := by
  induction due generalizing c promises with
  | nil => exact ⟨promises, h, rfl⟩
  | cons a rest ih =>
    obtain ⟨others, hfirst, hothers⟩ := h.takeFirst?_eq
    have hdue : takeDue? target promises = some ((tick, a), others) := by
      unfold takeDue?
      rw [hfirst]
      exact Option.filter_some_pos (by simpa using htarget)
    have hstart : { c with clock := tick, pending := .empty } = c.withAgenda .empty := by
      rw [← hc]
      rfl
    have hself : run a c = run a (c.withAgenda c.pending) := rfl
    cases files_run a c with
    | failed cause c₁ hrun =>
      have hfail : runAll (a :: rest) c = .error cause (c₁.withAgenda c.pending) :=
        bind_of_error (hrun c.pending)
      rw [hfail]
      dsimp only
      rw [served_of_some hdue, hstart, hrun]
    | done c₁ made hlength htimely hrun =>
      have hgo : runAll (a :: rest) c = runAll rest (c₁.withAgenda (c.pending.pushAll made)) :=
        bind_of_ok (hrun c.pending)
      have hclock : c₁.clock = tick := ((fixes_clock_run a).of_ok (hrun c.pending)).trans hc
      have hrest : ByTick (others ++ made)
          (rest.map (tick, ·) ++ (c.pending.pushAll made).toList) := by
        refine Agenda.byTick_pushAll hothers fun p hp p' hp' => ?_
        rw [(Agenda.mem_map_tick.1 hp).1, ← hc]
        exact htimely p' hp'
      have hserved : served target c promises =
          served target (c₁.withAgenda (c.pending.pushAll made)) (others ++ made) := by
        rw [served_of_some hdue, hstart, hrun]
        show served target (c₁.withAgenda _) (others ++ (Agenda.ofList made).toList) = _
        rw [Agenda.toList_ofList hlength]
        exact (served_congr c₁.clock _).trans (served_congr c₁.clock _).symm
      rw [hgo, hserved]
      exact ih hclock hrest

theorem outcome_drain (hc : c.Consistent) (hle : c.clock ≤ target)
    (h : ByTick promises c.pending.toList) :
    outcome (Channel.drain target c) = served target c promises := by
  fun_induction Channel.drain target c generalizing promises with
  | case1 c hpop =>
    have hlater := Agenda.lt_of_popDue?_eq_none hpop
    rw [served_of_none (takeDue?_eq_none fun p hp => hlater p (h.mem_iff.2 hp)),
      ← Agenda.eq_ofList h]
    rfl
  | case2 c tick actions rest hpop _ c₁ hrun ih =>
    obtain ⟨hmax, hcons⟩ := hc.pop hpop
    rw [Agenda.toList_of_popDue? hpop] at h
    have hstep := served_of_runAll (c := { c with pending := rest, clock := max c.clock tick })
      (Agenda.le_of_popDue? hpop) hmax h
    rw [hrun] at hstep
    obtain ⟨promises', h', hserved⟩ := hstep
    have hcons₁ := Channel.consistent_runAll actions hcons
    rw [leaves_of_ok hrun] at hcons₁
    have hclock : c₁.clock = tick := ((fixes_clock_runAll actions).of_ok hrun).trans hmax
    rw [ih hcons₁ (hclock ▸ Agenda.le_of_popDue? hpop) h', ← hserved]
    exact served_congr _ _
  | case3 c tick actions rest hpop e c₁ hrun =>
    obtain ⟨hmax, -⟩ := hc.pop hpop
    rw [Agenda.toList_of_popDue? hpop] at h
    have hstep := served_of_runAll (c := { c with pending := rest, clock := max c.clock tick })
      (Agenda.le_of_popDue? hpop) hmax h
    rw [hrun] at hstep
    exact (hstep.symm.trans (served_congr _ _)).symm ▸ rfl

end Serve

/-! ## The turns of the scheduler -/

/-- All that was promised, in the order of promising: before the turns and by them. -/
def promisedBy (promises : List (Nat × Action)) (turns : List Turn) : List (Nat × Action) :=
  promises ++ turns.flatMap (·.made)

/-- Everything that was promised for a tick up to `target` had its turn, once, at this tick and in
the order of the ticks, those of one tick in the order of promising; everything else is pending. -/
structure Complete (target : Nat) (promises : List (Nat × Action)) (turns : List Turn)
    (pending : Agenda Action) : Prop where
  ran : ByTick ((promisedBy promises turns).filter (·.1 ≤ target))
    (turns.map fun turn => (turn.tick, turn.action))
  kept : pending = .ofList ((promisedBy promises turns).filter (target < ·.1))

section Turns

variable {target tick : Nat} {action : Action} {c c' : Channel} {promises : List (Nat × Action)}
  {turns : List Turn}

theorem le_of_run (h : run action { c with clock := tick, pending := .empty } = .ok () c') :
    ∀ p ∈ c'.pending.toList, tick ≤ p.1 := by
  cases files_run action { c with clock := tick } with
  | done c₁ made _ htimely hrun =>
    have hc' := (hrun .empty).symm.trans h
    cases hc'
    exact fun p hp => htimely p ((Agenda.byTick_ofList made).mem_iff.1 hp)
  | failed cause c₁ hrun =>
    have hfail := (hrun .empty).symm.trans h
    cases hfail

/-- No turn promises anything for a tick before its own. -/
theorem le_of_mem_made {low : Nat} (h : serve target c promises = .ok (turns, c'))
    (hlow : ∀ p ∈ promises, low ≤ p.1) : ∀ p ∈ turns.flatMap (·.made), low ≤ p.1 := by
  fun_induction serve target c promises generalizing turns c' with
  | case1 =>
    cases h
    exact fun _ hp => absurd hp List.not_mem_nil
  | case2 => cases h
  | case3 => cases h
  | case4 c promises tick action others hdue _ c₁ hrun turns₁ c₂ hserve ih =>
    cases h
    obtain ⟨-, before, after, rfl, rfl, -, -⟩ := of_takeDue? hdue
    have htick : low ≤ tick := hlow (tick, action) (by simp)
    have hmade : ∀ p ∈ c₁.pending.toList, low ≤ p.1 :=
      fun p hp => Nat.le_trans htick (le_of_run hrun p hp)
    rw [List.flatMap_cons]
    refine List.forall_mem_append.2 ⟨hmade, ih hserve (List.forall_mem_append.2 ⟨?_, hmade⟩)⟩
    exact fun p hp => hlow p (by simp at hp ⊢; tauto)

theorem complete_of_serve (h : serve target c promises = .ok (turns, c')) :
    c'.clock = target ∧ Complete target promises turns c'.pending := by
  fun_induction serve target c promises generalizing turns c' with
  | case1 c promises hdue =>
    cases h
    have hlater := lt_of_takeDue?_eq_none hdue
    have hall : promisedBy promises [] = promises := List.append_nil promises
    have hnone : promises.filter (·.1 ≤ target) = [] := by
      refine List.filter_eq_nil_iff.2 fun p hp => ?_
      have := hlater p hp
      simp only [decide_eq_true_eq]
      omega
    have hkept : promises.filter (target < ·.1) = promises :=
      List.filter_eq_self.2 fun p hp => by simpa using hlater p hp
    refine ⟨rfl, ?_, ?_⟩
    · rw [hall, hnone]
      exact .of_sorted .nil
    · rw [hall, hkept]
  | case2 => cases h
  | case3 => cases h
  | case4 c promises tick action others hdue _ c₁ hrun turns₁ c₂ hserve ih =>
    cases h
    obtain ⟨hle, before, after, rfl, rfl, hbefore, hafter⟩ := of_takeDue? hdue
    obtain ⟨hclock, hran, hkept⟩ := ih hserve
    have hmade := le_of_run hrun
    have hrest : ∀ p ∈ after ++ c₁.pending.toList ++ turns₁.flatMap (·.made), tick ≤ p.1 := by
      refine List.forall_mem_append.2 ⟨List.forall_mem_append.2 ⟨hafter, hmade⟩, ?_⟩
      refine le_of_mem_made hserve (List.forall_mem_append.2 ⟨List.forall_mem_append.2 ⟨?_, hafter⟩,
        hmade⟩)
      exact fun p hp => Nat.le_of_lt (hbefore p hp)
    have hall : promisedBy (before ++ (tick, action) :: after)
          (⟨tick, action, c₁.pending.toList⟩ :: turns₁) =
        before ++ (tick, action) :: (after ++ c₁.pending.toList ++ turns₁.flatMap (·.made)) := by
      simp [promisedBy]
    have hothers : promisedBy (before ++ after ++ c₁.pending.toList) turns₁ =
        before ++ (after ++ c₁.pending.toList ++ turns₁.flatMap (·.made)) := by
      simp [promisedBy]
    rw [hothers, List.filter_append] at hran hkept
    refine ⟨hclock, ?_, ?_⟩
    · rw [hall, List.filter_append, List.filter_cons_of_pos (by simpa using hle)]
      exact hran.cons (fun p hp => hbefore p ((List.mem_filter.1 hp).1))
        fun p hp => hrest p ((List.mem_filter.1 hp).1)
    · rw [hall, List.filter_append, List.filter_cons_of_neg (by simpa using hle)]
      exact hkept

end Turns

theorem outcome_advance {c : Channel} {promises : List (Nat × Action)} {ticks : Nat}
    (hc : c.Consistent) (h : ByTick promises c.pending.toList) (hn : c.clock + ticks < 1 <<< 64) :
    outcome (advance ticks c) = served (c.clock + ticks) c promises := by
  rw [Channel.advance_eq_bind, Bounded.nat?_of_lt hn]
  exact outcome_drain hc (Nat.le_add_right ..) h

/-- To advance the clock of a reachable channel is to serve what it has promised, one action at a
time: the first of those due earliest, each at its own tick. If an action fails, so does the
advance, and otherwise everything due by the new tick has had its turn and all that is left is due
later. -/
theorem advance_eq_serve {c : Channel} (hc : c.Reachable) {promises : List (Nat × Action)}
    (hp : c.pending = .ofList promises) {ticks : Nat} (hn : c.clock + ticks < 1 <<< 64) :
    match serve (c.clock + ticks) c promises with
    | .ok (turns, c') =>
      advance ticks c = .ok (c.clock + ticks) c' ∧ c'.clock = c.clock + ticks ∧
        Complete (c.clock + ticks) promises turns c'.pending ∧
        ∀ p ∈ c'.pending.toList, c'.clock < p.1
    | .error cause => ∃ c', advance ticks c = .error cause c' := by
  have h : ByTick promises c.pending.toList := hp ▸ Agenda.byTick_ofList promises
  have houtcome := outcome_advance (Channel.consistent_of_reachable hc) h hn
  unfold served at houtcome
  cases hserve : serve (c.clock + ticks) c promises with
  | ok r =>
    obtain ⟨turns, c'⟩ := r
    obtain ⟨hclock, hcomplete⟩ := complete_of_serve hserve
    rw [hserve] at houtcome
    refine ⟨?_, hclock, hcomplete, fun p hpending => ?_⟩
    · cases hadvance : advance ticks c with
      | ok t c₁ =>
        rw [hadvance] at houtcome
        cases houtcome
        rfl
      | error e c₁ =>
        rw [hadvance] at houtcome
        cases houtcome
    · rw [hcomplete.kept] at hpending
      have hlate := (Agenda.byTick_ofList _).mem_iff.1 hpending
      rw [hclock]
      simpa using (List.mem_filter.1 hlate).2
  | error cause =>
    rw [hserve] at houtcome
    cases hadvance : advance ticks c with
    | ok t c₁ =>
      rw [hadvance] at houtcome
      cases houtcome
    | error e c₁ =>
      rw [hadvance] at houtcome
      cases houtcome
      exact ⟨c₁, rfl⟩

/-- A knob that cannot be turned, a strum, and a strike of no length between a release and a bend on
the same tick. -/
def crowdedRun : List Operation :=
  [.advance 10, .setController 200 1,
   .playSound ⟨.chord ⟨[.c, .e, .g]⟩, .gliscando⟩ .quarter,
   .later 40 (.noteOff 62 96), .later 40 (.play 62 0 0 96), .later 40 (.bend 9000),
   .later 900 .resetBend]

/-- The channel after `crowdedRun`. -/
def crowded : Channel :=
  ({ track := { channel := 0 } } : Channel).performAll crowdedRun

theorem advance_eq_serve_crowded :
    crowded.Reachable ∧ crowded.pending = .ofList crowded.pending.toList ∧
      crowded.clock + 480 < 1 <<< 64 ∧
      ∃ turns c', serve (crowded.clock + 480) crowded crowded.pending.toList = .ok (turns, c') ∧
        advance 480 crowded = .ok (crowded.clock + 480) c' ∧ c'.clock = crowded.clock + 480 ∧
        Complete (crowded.clock + 480) crowded.pending.toList turns c'.pending ∧
        ∀ p ∈ c'.pending.toList, c'.clock < p.1 := by
  have hreach : crowded.Reachable :=
    ⟨{ channel := 0 }, false, .standard, _, crowdedRun, rfl, rfl⟩
  have hlist : crowded.pending = .ofList crowded.pending.toList := (Agenda.ofList_toList _).symm
  have hclock : crowded.clock + 480 < 1 <<< 64 := by decide +kernel
  have hserve := advance_eq_serve hreach hlist hclock
  have hok : (serve (crowded.clock + 480) crowded crowded.pending.toList).isOk := by decide +kernel
  refine ⟨hreach, hlist, hclock, ?_⟩
  cases hs : serve (crowded.clock + 480) crowded crowded.pending.toList with
  | ok r =>
    rw [hs] at hserve
    exact ⟨r.1, r.2, rfl, hserve⟩
  | error cause =>
    rw [hs] at hok
    cases hok

end ChannelM

end MidiScore

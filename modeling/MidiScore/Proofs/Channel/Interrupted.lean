import MidiScore.Proofs.Channel.Scheduler

/-!
# An advance that fails

An advance takes a whole bucket out of the agenda before it runs it. If an action fails, what stands
behind it in its bucket is neither run nor put back (`not_released_after_interruption`). That is all
that is lost (`interrupted_of_advance_error`): of all that was ever promised, everything else has
had its turn or is still pending, and the clock stands at the tick of the action that failed.

What had its turn, what is left of the bucket and what is pending list together all promises by tick
(`Serving`). Each turn keeps that.
-/

namespace MidiScore

/-- What was due at a turn. -/
def Turn.due (turn : Turn) : Nat × Action :=
  (turn.tick, turn.action)

open ChannelM

theorem promisedBy_concat (promises : List (Nat × Action)) (past : List Turn) (turn : Turn) :
    promisedBy promises (past ++ [turn]) = promisedBy promises past ++ turn.made := by
  simp [promisedBy]

namespace Channel

/-- The turns lead from `c` to a channel, one after the other and each at its tick. They look
neither at the clock nor at the agenda that the one before left. -/
inductive Turns (c : Channel) : List Turn → Channel → Prop where
  | nil : Turns c [] c
  | tail {past : List Turn} {mid c' : Channel} {tick : Nat} {action : Action} (h : Turns c past mid)
    (run : ChannelM.run action { mid with clock := tick, pending := .empty } = .ok () c') :
    Turns c (past ++ [⟨tick, action, c'.pending.toList⟩]) c'

/-- `c` is on its way from `c₀`: the turns `past` led to it, and the actions `due` are to be run
next, ahead of the agenda. -/
structure Serving (c₀ : Channel) (promises : List (Nat × Action)) (past : List Turn)
    (due : List Action) (c : Channel) : Prop where
  turns : ∃ mid, Turns c₀ past mid ∧ c = { mid with clock := c.clock, pending := c.pending }
  listed : ByTick (promisedBy promises past)
    (past.map Turn.due ++ due.map (c.clock, ·) ++ c.pending.toList)

/-- Behind the turns `past` an action failed, which left `c'` but for its agenda. -/
def Fails (c : Channel) (past : List Turn) (action : Action) (cause : Failure) (c' : Channel) :
    Prop :=
  ∃ mid failed, Turns c past mid ∧
    ChannelM.run action { mid with clock := c'.clock, pending := .empty } = .error cause failed ∧
    c' = { failed with pending := c'.pending }

variable {c₀ c c' : Channel} {promises : List (Nat × Action)} {past : List Turn}
  {due : List Action} {a : Action} {cause : Failure}

namespace Serving

theorem start (h : ByTick promises c.pending.toList) : Serving c promises [] [] c := by
  refine ⟨⟨c, .nil, rfl⟩, ?_⟩
  simpa [promisedBy] using h

/-- The first bucket is taken out of the agenda, to be run next. -/
theorem take {target tick : Nat} {actions : List Action} {rest : Agenda Action}
    (h : Serving c₀ promises past [] c) (hc : c.Consistent)
    (hpop : c.pending.popDue? target = some (tick, actions, rest)) :
    Serving c₀ promises past actions { c with pending := rest, clock := max c.clock tick } := by
  obtain ⟨mid, hturns, hmid⟩ := h.turns
  refine ⟨⟨mid, hturns, by rw [hmid]⟩, ?_⟩
  have hlisted := h.listed
  rw [Agenda.toList_of_popDue? hpop, List.map_nil, List.append_nil, ← List.append_assoc] at hlisted
  rwa [(hc.pop hpop).1]

/-- What has had its turn and what is run next was due by now. -/
theorem le_clock (h : Serving c₀ promises past (a :: due) c) :
    ∀ p ∈ past.map Turn.due ++ (a :: due).map (c.clock, ·), p.1 ≤ c.clock := by
  obtain ⟨hsorted, -, -⟩ := List.pairwise_append.1 h.listed.sorted
  obtain ⟨-, -, hcross⟩ := List.pairwise_append.1 hsorted
  refine List.forall_mem_append.2 ⟨fun p hp => ?_, fun p hp => ?_⟩
  · exact hcross p hp (c.clock, a) (by simp)
  · exact Nat.le_of_eq (Agenda.mem_map_tick.1 hp).1

/-- The turn that comes next is made of what is there, whatever stands on the agenda. -/
theorem next (h : Serving c₀ promises past due c) :
    ∃ mid, Turns c₀ past mid ∧
      { mid with clock := c.clock, pending := .empty } = c.withAgenda .empty := by
  obtain ⟨mid, hturns, hmid⟩ := h.turns
  refine ⟨mid, hturns, ?_⟩
  rw [hmid]
  rfl

/-- An action that succeeds has had its turn, and what it promised stands on the agenda. -/
theorem run (h : Serving c₀ promises past (a :: due) c) (hrun : ChannelM.run a c = .ok () c') :
    ∃ made, Serving c₀ promises (past ++ [⟨c.clock, a, made⟩]) due c' ∧
      c'.pending = c.pending.pushAll made ∧ c'.clock = c.clock := by
  cases files_run a c with
  | failed cause c₁ hfail =>
    cases hrun.symm.trans (hfail c.pending)
  | done c₁ made hlength htimely hdone =>
    have hclock : c'.clock = c.clock := (fixes_clock_run a).of_ok hrun
    cases hrun.symm.trans (hdone c.pending)
    obtain ⟨mid, hturns, hmid⟩ := h.next
    have hturn : ChannelM.run a { mid with clock := c.clock, pending := .empty } =
        .ok () (c₁.withAgenda (.ofList made)) := by
      rw [hmid]
      exact hdone .empty
    have hnext := hturns.tail hturn
    have hmade : (c₁.withAgenda (.ofList made)).pending.toList = made :=
      Agenda.toList_ofList hlength
    rw [hmade] at hnext
    refine ⟨made, ⟨⟨_, hnext, rfl⟩, ?_⟩, rfl, hclock⟩
    have hall := Agenda.byTick_pushAll h.listed fun p hp p' hp' =>
      Nat.le_trans (h.le_clock p hp) (htimely p' hp')
    rw [promisedBy_concat, hclock, pending_withAgenda]
    simpa [Turn.due] using hall

/-- An action that fails leaves the agenda and the clock as they are. -/
theorem fail (h : Serving c₀ promises past (a :: due) c)
    (hrun : ChannelM.run a c = .error cause c') :
    Fails c₀ past a cause c' ∧ c'.pending = c.pending ∧ c'.clock = c.clock := by
  have hclock : c'.clock = c.clock := by
    rw [← leaves_of_error hrun]
    exact fixes_clock_run a c
  cases files_run a c with
  | done c₁ made hlength htimely hdone =>
    cases hrun.symm.trans (hdone c.pending)
  | failed cause' c₁ hfail =>
    cases hrun.symm.trans (hfail c.pending)
    obtain ⟨mid, hturns, hmid⟩ := h.next
    refine ⟨⟨mid, c₁.withAgenda .empty, hturns, ?_, rfl⟩, rfl, hclock⟩
    rw [hclock, hmid]
    exact hfail .empty

theorem runAll (h : Serving c₀ promises past due c) (hrun : ChannelM.runAll due c = .ok () c') :
    ∃ bucket, Serving c₀ promises (past ++ bucket) [] c' := by
  induction due generalizing past c with
  | nil =>
    cases hrun
    exact ⟨[], by rwa [List.append_nil]⟩
  | cons a rest ih =>
    obtain ⟨_, c₁, ha, hrest⟩ := bind_eq_ok hrun
    obtain ⟨made, hnext, -, -⟩ := h.run ha
    obtain ⟨bucket, hserving⟩ := ih hnext hrest
    exact ⟨_ :: bucket, by rwa [List.append_cons]⟩

/-- Of a bucket in which an action fails, what stands ahead of it has had its turn and what stands
behind it is still to be run. -/
theorem runAll_error (h : Serving c₀ promises past due c)
    (hrun : ChannelM.runAll due c = .error cause c') :
    ∃ bucket action lost, due = bucket.map Turn.action ++ action :: lost ∧
      (∀ turn ∈ bucket, turn.tick = c.clock) ∧ c'.clock = c.clock ∧
      c'.pending = c.pending.pushAll (bucket.flatMap Turn.made) ∧
      Fails c₀ (past ++ bucket) action cause c' ∧
      ByTick (promisedBy promises (past ++ bucket))
        ((past ++ bucket).map Turn.due ++ (action :: lost).map (c.clock, ·) ++
          c'.pending.toList) := by
  induction due generalizing past c with
  | nil => cases hrun
  | cons a rest ih =>
    cases ha : ChannelM.run a c with
    | error e c₁ =>
      cases (bind_of_error ha).symm.trans hrun
      obtain ⟨hfails, hpending, hclock⟩ := h.fail ha
      refine ⟨[], a, rest, rfl, nofun, hclock, hpending, ?_, ?_⟩
      · rwa [List.append_nil]
      · rw [List.append_nil, hpending]
        exact h.listed
    | ok u c₁ =>
      have hrest := (bind_of_ok ha).symm.trans hrun
      obtain ⟨made, hnext, hpending, hclock⟩ := h.run ha
      obtain ⟨bucket, action, lost, hdue, hticks, hclock', hpending', hfails, hlisted⟩ :=
        ih hnext hrest
      rw [hclock] at hticks hclock' hlisted
      rw [hpending] at hpending'
      refine ⟨⟨c.clock, a, made⟩ :: bucket, action, lost, ?_, ?_, hclock', ?_, ?_, ?_⟩
      · rw [hdue]
        rfl
      · exact List.forall_mem_cons.2 ⟨rfl, hticks⟩
      · rw [hpending', List.flatMap_cons, Agenda.pushAll_append]
      · rwa [List.append_cons]
      · rwa [List.append_cons]

end Serving

/-- How an advance of `c` came to a stop at `c'`. It ran the turns `before`, took a bucket out of
the agenda, and ran the turns `bucket`. Then `action` failed, and `lost` stood behind it in the
bucket. -/
structure Interrupted (c : Channel) (promises : List (Nat × Action)) (before bucket : List Turn)
    (action : Action) (lost : List Action) (cause : Failure) (c' : Channel) : Prop where
  fails : Fails c (before ++ bucket) action cause c'
  /-- All that was promised has had its turn, or failed, or is lost, or is pending. In this order it
  is listed by tick, and what is due at one tick in the order of promising. -/
  listed : ByTick (promisedBy promises (before ++ bucket))
    ((before ++ bucket).map Turn.due ++ (action :: lost).map (c'.clock, ·) ++ c'.pending.toList)
  ticks : ∀ turn ∈ bucket, turn.tick = c'.clock
  /-- When the bucket was taken out, it held all that was promised for its tick. What its turns
  promised stands behind what is due later. -/
  taken : ∃ later : Agenda Action,
    ByTick (promisedBy promises before) (before.map Turn.due ++
      (bucket.map Turn.action ++ action :: lost).map (c'.clock, ·) ++ later.toList) ∧
    (∀ p ∈ later.toList, c'.clock < p.1) ∧
    c'.pending = later.pushAll (bucket.flatMap Turn.made)

theorem Serving.drain_error {target : Nat} (h : Serving c₀ promises past [] c) (hc : c.Consistent)
    (hle : c.clock ≤ target) (herror : drain target c = .error cause c') :
    c.clock ≤ c'.clock ∧ c'.clock ≤ target ∧ ∃ before bucket action lost,
      Interrupted c₀ promises before bucket action lost cause c' := by
  fun_induction drain target c generalizing past with
  | case1 => cases herror
  | case2 c tick actions rest hpop _ c₁ hrun ih =>
    obtain ⟨hmax, hcons⟩ := hc.pop hpop
    have hcons₁ := consistent_runAll actions hcons
    rw [leaves_of_ok hrun] at hcons₁
    have hclock : c₁.clock = tick := ((fixes_clock_runAll actions).of_ok hrun).trans hmax
    obtain ⟨bucket, hnext⟩ := (h.take hc hpop).runAll hrun
    obtain ⟨hge, hstop⟩ := ih hnext hcons₁ (hclock ▸ Agenda.le_of_popDue? hpop) herror
    exact ⟨by omega, hstop⟩
  | case3 c tick actions rest hpop e c₁ hrun =>
    cases herror
    obtain ⟨hmax, -⟩ := hc.pop hpop
    have htaken := h.take hc hpop
    obtain ⟨bucket, action, lost, rfl, hticks, hclock, hpending, hfails, hlisted⟩ :=
      htaken.runAll_error hrun
    have hlist := htaken.listed
    rw [← hclock] at hticks hlist hlisted
    have htick : c'.clock = tick := hclock.trans hmax
    refine ⟨by omega, htick ▸ Agenda.le_of_popDue? hpop, past, bucket, action, lost, hfails,
      hlisted, hticks, rest, hlist, ?_, hpending⟩
    rw [htick]
    exact Agenda.lt_of_popDue? hpop

end Channel

open Channel

namespace ChannelM

variable {c c' : Channel}

/-- An advance that fails loses nothing but the action that failed and what stood behind it in its
bucket. The clock stands at the tick of that bucket. Everything else that was promised, before the
advance or in its course, has had its turn, once, at its tick and in order, or is still pending at
its tick and in order. -/
theorem interrupted_of_advance_error (hc : c.Reachable) {promises : List (Nat × Action)}
    (hp : c.pending = .ofList promises) {ticks : Nat} (hn : c.clock + ticks < 1 <<< 64)
    {cause : Failure} (h : advance ticks c = .error cause c') :
    c.clock ≤ c'.clock ∧ c'.clock ≤ c.clock + ticks ∧ ∃ before bucket action lost,
      Interrupted c promises before bucket action lost cause c' := by
  have hlist : ByTick promises c.pending.toList := hp ▸ Agenda.byTick_ofList promises
  rw [Channel.advance_eq_bind, Bounded.nat?_of_lt hn] at h
  exact (Serving.start hlist).drain_error (consistent_of_reachable hc) (Nat.le_add_right ..) h

/-- A bend, and then at one tick a strike of no length, a knob that cannot be turned and the release
of a key. -/
def cloggedRun : List Operation :=
  [.later 5 (.bend 9000), .later 10 (.play 64 0 0 96), .later 10 (.turnKnob 200 1),
   .playNote .c 0 10 96, .later 30 .resetBend]

/-- The channel after `cloggedRun`. -/
def clogged : Channel :=
  ({ track := { channel := 0 } } : Channel).performAll cloggedRun

theorem reachable_clogged : clogged.Reachable :=
  ⟨{ channel := 0 }, false, .standard, _, cloggedRun, rfl, rfl⟩

theorem interrupted_of_advance_error_clogged :
    clogged.Reachable ∧ clogged.pending = .ofList clogged.pending.toList ∧
      clogged.clock + 20 < 1 <<< 64 ∧
      ∃ cause c', advance 20 clogged = .error cause c' ∧ c'.clock = 10 ∧
        c'.pending.toList = [(10, .noteOff 64 96), (30, .resetBend)] ∧
        ∃ before bucket action lost,
          Interrupted clogged clogged.pending.toList before bucket action lost cause c' := by
  have hlist : clogged.pending = .ofList clogged.pending.toList := (Agenda.ofList_toList _).symm
  have hclock : clogged.clock + 20 < 1 <<< 64 := by decide +kernel
  obtain ⟨cause, h⟩ :=
    eq_error_of_not_succeeds (m := advance 20) (c := clogged) (by decide +kernel)
  obtain ⟨-, -, hstop⟩ := interrupted_of_advance_error reachable_clogged hlist hclock h
  exact ⟨reachable_clogged, hlist, hclock, cause, _, h, by decide +kernel, by decide +kernel, hstop⟩

/-- The release of a key that is held is lost with an action ahead of it in its bucket. The key is
never released, although the clock stands at the tick of the release and is advanced again. -/
theorem not_released_after_interruption :
    clogged.Reachable ∧ (10, .noteOff 60 96) ∈ clogged.pending.toList ∧
      ∃ cause c', advance 20 clogged = .error cause c' ∧ c'.clock = 10 ∧
        (10, .noteOff 60 96) ∉ c'.pending.toList ∧
        (∀ e ∈ c'.track.written, ¬ e.message.isNoteOff) ∧
        ∃ t c'', advance 20 c' = .ok t c'' ∧ c''.pending.toList = [] ∧
          c''.track.written.filter (·.message.isNoteOff) = [⟨10, .noteOff 0 64 96⟩] := by
  obtain ⟨cause, h⟩ :=
    eq_error_of_not_succeeds (m := advance 20) (c := clogged) (by decide +kernel)
  obtain ⟨t, h'⟩ := eq_ok_of_succeeds (m := advance 20) (c := (advance 20).leaves clogged)
    (by decide +kernel)
  exact ⟨reachable_clogged, by decide +kernel, cause, _, h, by decide +kernel, by decide +kernel,
    by decide +kernel, t, _, h', by decide +kernel, by decide +kernel⟩

end ChannelM

end MidiScore

import MidiScore.Proofs.Channel.Alignment
import MidiScore.Proofs.Channel.Confined
import MidiScore.Proofs.Channel.Ignores
import MidiScore.Proofs.Channel.Moments
import MidiScore.Proofs.Music.Ramp

/-!
# Ramps on a channel

A ramp promises its steps, and no action promises another change of the dynamic. So the dynamics
that a channel still has to come to (`Channel.dynamics`) are those that it had to come to before,
less some at the front: an action takes away the first or none (`ChannelM.dynamics_run_suffix`), and
one that fails may lose some on the way. What the channel is then found to stand at is a part of the
ramp in its order.
-/

namespace MidiScore

/-- The dynamic that an action sets. -/
def Action.dynamic? : Action → Option Dynamic
  | setDynamic dynamic => some dynamic
  | _ => none

namespace Agenda

variable {α : Type} {q : Agenda α} {l : List (Nat × α)} {p : Nat × α → Bool}

/-- Of the items with a property those that are pushed are listed behind those that are there, if
none of them is due earlier. -/
theorem filter_toList_pushAll
    (h : (q.toList.filter p ++ l.filter p).Pairwise fun a b => a.1 ≤ b.1) :
    (q.pushAll l).toList.filter p = q.toList.filter p ++ l.filter p := by
  have hfilter := (byTick_toList_pushAll q l).filter p
  rw [List.filter_append] at hfilter
  exact hfilter.eq_of_sorted h

theorem filter_toList_push_of_not {t : Nat} {x : α} (h : p (t, x) = false) :
    (q.push t x).toList.filter p = q.toList.filter p := by
  have hnone : [(t, x)].filter p = [] := by simp [h]
  have hpush := filter_toList_pushAll (q := q) (l := [(t, x)]) (p := p)
  rw [hnone, List.append_nil] at hpush
  exact hpush (q.pairwise_toList.filter p)

end Agenda

namespace Dynamic

/-- The dynamic of a velocity, or the greatest one. -/
def nearest (velocity : Nat) : Dynamic where
  velocity := min velocity 127
  velocity_le := Nat.min_le_right ..

theorem velocity_nearest {velocity : Nat} (h : velocity ≤ 127) :
    (nearest velocity).velocity = velocity :=
  Nat.min_eq_left h

theorem ofVelocity_of_le {velocity : Nat} (h : velocity ≤ 127) :
    ofVelocity velocity = .ok (nearest velocity) := by
  have hmin : min velocity 127 = velocity := Nat.min_eq_left h
  unfold ofVelocity nearest
  rw [dif_pos h]
  simp only [hmin]

theorem nearest_velocity (d : Dynamic) : nearest d.velocity = d := by
  have hmin : min d.velocity 127 = d.velocity := Nat.min_eq_left d.velocity_le
  unfold nearest
  simp only [hmin]

end Dynamic

namespace Channel

/-- The promised changes of the dynamic. -/
def dynamicChanges (c : Channel) : List (Nat × Action) :=
  c.pending.toList.filter (·.2.dynamic?.isSome)

/-- The dynamics that the channel comes to while it runs what is still due and what is promised,
from its own on. -/
def dynamics (due : List Action) (c : Channel) : List Dynamic :=
  c.dynamic :: (due ++ c.pending.toList.map Prod.snd).filterMap Action.dynamic?

/-- Only the promised changes of the dynamic matter. -/
theorem dynamics_eq (due : List Action) (c : Channel) : c.dynamics due =
    c.dynamic :: (due.filterMap Action.dynamic? ++ c.dynamicChanges.filterMap (·.2.dynamic?)) := by
  have hchanges : c.dynamicChanges.filterMap (·.2.dynamic?) =
      c.pending.toList.filterMap (·.2.dynamic?) := by
    unfold dynamicChanges
    rw [List.filterMap_filter]
    refine congrArg (List.filterMap · _) (funext fun p => ?_)
    cases p.2.dynamic? <;> rfl
  unfold dynamics
  rw [hchanges, List.filterMap_append, List.filterMap_map]
  rfl

theorem dynamicChanges_eq_nil_iff {c : Channel} :
    c.dynamicChanges = [] ↔ ∀ p ∈ c.pending.toList, p.2.dynamic? = none := by
  unfold dynamicChanges
  rw [List.filter_eq_nil_iff]
  simp only [Bool.not_eq_true, Option.isSome_eq_false_iff, Option.isNone_iff_eq_none]

end Channel

namespace ChannelM

/-! ## Actions -/

theorem aloof_dynamic : Aloof Channel.dynamic where
  write _ _ := rfl
  erase _ _ := rfl
  notes _ _ := rfl
  releases _ _ := rfl
  pending _ _ := rfl

theorem fixes_dynamic_setController (number value : Nat) :
    Fixes Channel.dynamic (setController number value) :=
  fixes_get.bind fun _ => (aloof_dynamic.fixes_send _).bind fun _ => fixes_modify fun _ => rfl

theorem fixes_dynamic_setBend (value : Nat) : Fixes Channel.dynamic (setBend value) :=
  fixes_get.bind fun _ => (aloof_dynamic.fixes_send _).bind fun _ => fixes_modify fun _ => rfl

theorem fixes_dynamic_run {a : Action} (h : a.dynamic? = none) : Fixes Channel.dynamic (run a) := by
  cases a with
  | noteOff key velocity => exact aloof_dynamic.fixes_noteOff key velocity
  | play key delta duration off => exact aloof_dynamic.fixes_strike key delta duration off
  | setDynamic dynamic => cases h
  | turnKnob number value => exact fixes_dynamic_setController number value
  | pressPedal number => exact fixes_dynamic_setController number _
  | releasePedal number => exact fixes_dynamic_setController number _
  | bend value => exact fixes_dynamic_setBend value
  | resetBend => exact fixes_dynamic_setBend _

theorem Ignores.fixes_dynamicChanges {α : Type} {m : ChannelM α} (hm : Ignores m) :
    Fixes Channel.dynamicChanges m :=
  fun c => by
    have hpending : (m.leaves c).pending = c.pending := hm.fixes_pending c
    unfold Channel.dynamicChanges
    rw [hpending]

theorem fixes_dynamicChanges_later (delta : Int) {action : Action} (h : action.dynamic? = none) :
    Fixes Channel.dynamicChanges (later delta action) :=
  fixes_get.bind fun _ => (fixes_ofOption _).bind fun _ =>
    fixes_modify fun _ => Agenda.filter_toList_push_of_not (by rw [h]; rfl)

/-- No action promises a change of the dynamic, or takes one back. -/
theorem fixes_dynamicChanges_run (a : Action) : Fixes Channel.dynamicChanges (run a) := by
  cases a with
  | noteOff key velocity => exact (ignores_noteOff key velocity).fixes_dynamicChanges
  | play key delta duration off =>
    refine (ignores_attackVelocity key delta).fixes_dynamicChanges.bind fun velocity => ?_
    refine (ignores_noteOn key velocity).fixes_dynamicChanges.bind fun _ => ?_
    exact fixes_dynamicChanges_later _ rfl
  | setDynamic dynamic => exact fixes_modify fun _ => rfl
  | turnKnob number value => exact (ignores_setController number value).fixes_dynamicChanges
  | pressPedal number => exact (ignores_setController number _).fixes_dynamicChanges
  | releasePedal number => exact (ignores_setController number _).fixes_dynamicChanges
  | bend value => exact (ignores_setBend value).fixes_dynamicChanges
  | resetBend => exact (ignores_setBend _).fixes_dynamicChanges

/-- An action takes the first of the dynamics away, or none. -/
theorem dynamics_run_suffix (a : Action) (due : List Action) (c : Channel) :
    ((run a).leaves c).dynamics due <:+ c.dynamics (a :: due) := by
  have hchanges := fixes_dynamicChanges_run a c
  cases ha : a.dynamic? with
  | some dynamic =>
    obtain rfl : a = .setDynamic dynamic := by cases a <;> cases ha; rfl
    exact ⟨[c.dynamic], rfl⟩
  | none =>
    rw [Channel.dynamics_eq, Channel.dynamics_eq, hchanges, fixes_dynamic_run ha c,
      List.filterMap_cons_none ha]

/-! ## An advance -/

section Advance

variable {c : Channel} {target tick : Nat} {actions : List Action} {rest : Agenda Action}

theorem dynamicChanges_of_popDue? (h : c.pending.popDue? target = some (tick, actions, rest)) :
    c.dynamicChanges = ((actions.map (tick, ·)).filter (·.2.dynamic?.isSome)) ++
      { c with pending := rest, clock := max c.clock tick }.dynamicChanges := by
  unfold Channel.dynamicChanges
  rw [Agenda.toList_of_popDue? h, List.filter_append]

/-- What is taken out to be run comes first. -/
theorem dynamics_of_popDue? (h : c.pending.popDue? target = some (tick, actions, rest)) :
    { c with pending := rest, clock := max c.clock tick }.dynamics actions = c.dynamics [] := by
  have hsnd : Prod.snd ∘ (tick, ·) = (id : Action → Action) := rfl
  unfold Channel.dynamics
  rw [Agenda.toList_of_popDue? h, List.map_append, List.map_map, hsnd, List.map_id]
  rfl

/-- An advance, whether or not it fails, leaves a part of the dynamics in their order. -/
theorem surviving_dynamics (l : List Dynamic) :
    Surviving fun due c => (c.dynamics due).Sublist l where
  pop hpop hc := by rwa [dynamics_of_popDue? hpop]
  run hc := (dynamics_run_suffix _ _ _).sublist.trans hc
  lose hc := by
    refine List.Sublist.trans (.cons_cons _ (.filterMap _ ?_)) hc
    exact List.sublist_append_right ..
  rest _ _ hc := hc

/-- An advance that succeeds leaves the last of the dynamics. -/
theorem clocked_getLast? (dynamic : Dynamic) :
    Clocked fun due c => (c.dynamics due).getLast? = some dynamic where
  pop hpop hc := by rwa [dynamics_of_popDue? hpop]
  run a due := by
    intro c u c' hc hrun
    obtain ⟨before, hsuffix⟩ := dynamics_run_suffix a due c
    have hne : c'.dynamics due ≠ [] := List.cons_ne_nil _ _
    rw [leaves_of_ok hrun] at hsuffix
    rwa [← hsuffix, List.getLast?_append_of_ne_nil _ hne] at hc
  rest _ _ hc := hc

/-- No change of the dynamic is put off. -/
theorem ticking_dynamicChanges (limit : Nat) :
    Ticking fun c => ∀ p ∈ c.dynamicChanges, p.1 ≤ limit where
  run a c hc := by
    dsimp only
    rwa [fixes_dynamicChanges_run a c]
  pop hpop hc := by
    rw [dynamicChanges_of_popDue? hpop] at hc
    exact (List.forall_mem_append.1 hc).2
  rest _ _ hc := hc

theorem dynamics_advance_sublist (ticks : Nat) (c : Channel) :
    (((advance ticks).leaves c).dynamics []).Sublist (c.dynamics []) :=
  (surviving_dynamics _).advance ticks c (.refl _)

/-- The channels that are left by one advance after the other, whether or not they fail. -/
def observed (steps : List Nat) (c : Channel) : List Channel :=
  steps.scanl (fun c ticks => (advance ticks).leaves c) c

theorem observed_cons (ticks : Nat) (steps : List Nat) (c : Channel) :
    observed (ticks :: steps) c = c :: observed steps ((advance ticks).leaves c) :=
  List.scanl_cons

/-- What is observed is what the channel had to come to. -/
theorem dynamic_mem_of_mem_observed {steps : List Nat} {c c' : Channel}
    (h : c' ∈ observed steps c) : c'.dynamic ∈ c.dynamics [] := by
  induction steps generalizing c with
  | nil =>
    obtain rfl := List.mem_singleton.1 h
    exact List.mem_cons_self
  | cons ticks rest ih =>
    rw [observed_cons] at h
    obtain rfl | h := List.mem_cons.1 h
    · exact List.mem_cons_self
    · exact (dynamics_advance_sublist ticks c).subset (ih h)

theorem pairwise_observed {R : Dynamic → Dynamic → Prop} (refl : ∀ d, R d d) {c : Channel}
    (h : (c.dynamics []).Pairwise R) (steps : List Nat) :
    (observed steps c).Pairwise fun c c' => R c.dynamic c'.dynamic := by
  induction steps generalizing c with
  | nil => exact List.pairwise_singleton _ _
  | cons ticks rest ih =>
    have hsublist := dynamics_advance_sublist ticks c
    rw [observed_cons]
    refine List.pairwise_cons.2 ⟨fun c' hc' => ?_, ih (h.sublist hsublist)⟩
    have hmem := hsublist.subset (dynamic_mem_of_mem_observed hc')
    obtain heq | hmem := List.mem_cons.1 hmem
    · rw [heq]
      exact refl _
    · exact (List.pairwise_cons.1 h).1 _ hmem

/-- Advances that succeed move the clock by all their ticks, and leave nothing that is due. -/
theorem of_mapM_advance {steps ticks : List Nat} {c c' : Channel}
    (h : steps.mapM advance c = .ok ticks c') : c'.clock = c.clock + steps.sum ∧
      (steps ≠ [] → ∀ p ∈ c'.pending.toList, c'.clock < p.1) := by
  induction steps generalizing c ticks with
  | nil =>
    cases h
    exact ⟨rfl, fun hne => absurd rfl hne⟩
  | cons step rest ih =>
    rw [List.mapM_cons] at h
    obtain ⟨t, c₁, hstep, h⟩ := bind_eq_ok h
    obtain ⟨ts, c₂, hrest, h⟩ := bind_eq_ok h
    cases h
    have hdrain := drain_of_advance hstep
    have hclock := Channel.clock_of_drain hdrain
    obtain ⟨hsum, hidle⟩ := ih hrest
    refine ⟨by rw [hsum, hclock, List.sum_cons, Nat.add_assoc], fun _ => ?_⟩
    by_cases hnil : rest = []
    · subst hnil
      cases hrest
      rw [hclock]
      exact Channel.lt_of_drain hdrain
    · exact hidle hnil

/-- Where nothing is due any more, no change of the dynamic that was to come by then is left, and
the channel stands at the last of its dynamics. -/
theorem dynamic_of_idle {limit : Nat} {c : Channel} {dynamic : Dynamic}
    (hlast : (c.dynamics []).getLast? = some dynamic) (hlimit : ∀ p ∈ c.dynamicChanges, p.1 ≤ limit)
    (hidle : ∀ p ∈ c.pending.toList, c.clock < p.1) (hle : limit ≤ c.clock) :
    c.dynamic = dynamic ∧ c.dynamicChanges = [] := by
  have hnil : c.dynamicChanges = [] := by
    refine List.eq_nil_iff_forall_not_mem.2 fun p hp => ?_
    have hlt := hidle p (List.mem_of_mem_filter hp)
    have hsoon := hlimit p hp
    omega
  rw [Channel.dynamics_eq, hnil] at hlast
  exact ⟨Option.some.inj hlast, hnil⟩

theorem dynamic_of_mapM_advance {limit : Nat} {steps ticks : List Nat} {c c' : Channel}
    {dynamic : Dynamic} (hlast : (c.dynamics []).getLast? = some dynamic)
    (hlimit : ∀ p ∈ c.dynamicChanges, p.1 ≤ limit) (hrun : steps.mapM advance c = .ok ticks c')
    (hne : steps ≠ []) (hle : limit ≤ c.clock + steps.sum) :
    c'.dynamic = dynamic ∧ c'.dynamicChanges = [] := by
  obtain ⟨hclock, hidle⟩ := of_mapM_advance hrun
  have hlimits : Lasts (fun c => ∀ p ∈ c.dynamicChanges, p.1 ≤ limit) (steps.mapM advance) :=
    compositional_lasts.mapM fun n _ => (ticking_dynamicChanges limit).advance n
  have hlimit := hlimits c hlimit
  rw [leaves_of_ok hrun] at hlimit
  refine dynamic_of_idle ?_ hlimit (hidle hne) (hclock ▸ hle)
  exact compositional_keeps.mapM (fun n _ => (clocked_getLast? dynamic).advance n) c ticks c'
    hlast hrun

end Advance

/-! ## Ramps -/

section Ramps

variable {r : Ramp} {c : Channel} {steps : List (Nat × Nat)} {total : Nat}

/-- The promises of a ramp's steps from tick `now` on. -/
def promises (now : Nat) (steps : List (Nat × Nat)) : List (Nat × Action) :=
  steps.map fun step => (now + step.1, .setDynamic (.nearest step.2))

/-- A step is promised if its tick fits a word. -/
theorem promiseDynamic_eq {step : Nat × Nat} (hvelocity : step.2 ≤ 127)
    (hdelay : step.1 < 1 <<< 63) (hclock : c.clock < 1 <<< 64) :
    promiseDynamic step c = match Bounded.nat? 64 (c.clock + step.1) with
      | some tick => .ok () (c.withAgenda (c.pending.push tick (.setDynamic (.nearest step.2))))
      | none => .error .overflow c := by
  have hdue : (if (step.1 : Int) ≤ 0 then some c.clock
      else Bounded.nat? 64 (c.clock + (step.1 : Int).toNat)) =
      Bounded.nat? 64 (c.clock + step.1) := by
    split
    · next hle =>
      obtain hzero : step.1 = 0 := by omega
      rw [hzero, Nat.add_zero, Bounded.nat?_of_lt hclock]
    · rw [Int.toNat_natCast]
  unfold promiseDynamic after later
  rw [Dynamic.ofVelocity_of_le hvelocity, signed_of_lt hdelay]
  dsimp only
  rw [get_bind, hdue]
  cases Bounded.nat? 64 (c.clock + step.1) <;> rfl

theorem forM_promiseDynamic_eq (hvelocity : ∀ step ∈ steps, step.2 ≤ 127)
    (htick : ∀ step ∈ steps, step.1 ≤ total) (htotal : total < 1 <<< 63)
    (hlt : c.clock + total < 1 <<< 64) :
    steps.forM promiseDynamic c =
      .ok () (c.withAgenda (c.pending.pushAll (promises c.clock steps))) := by
  induction steps generalizing c with
  | nil => rfl
  | cons step rest ih =>
    obtain ⟨hv, hvelocity⟩ := List.forall_mem_cons.1 hvelocity
    obtain ⟨ht, htick⟩ := List.forall_mem_cons.1 htick
    have hstep := promiseDynamic_eq (c := c) hv (Nat.lt_of_le_of_lt ht htotal) (by omega)
    rw [Bounded.nat?_of_lt (by omega)] at hstep
    exact (bind_of_ok hstep).trans (ih hvelocity htick hlt)

/-- A step whose tick does not fit a word ends the ramp. -/
theorem forM_promiseDynamic_eq_error (hvelocity : ∀ step ∈ steps, step.2 ≤ 127)
    (htick : ∀ step ∈ steps, step.1 < 1 <<< 63) (hclock : c.clock < 1 <<< 64)
    (hlt : ∃ step ∈ steps, 1 <<< 64 ≤ c.clock + step.1) :
    ∃ c', steps.forM promiseDynamic c = .error .overflow c' := by
  induction steps generalizing c with
  | nil =>
    obtain ⟨step, hstep, -⟩ := hlt
    cases hstep
  | cons step rest ih =>
    obtain ⟨hv, hvelocity⟩ := List.forall_mem_cons.1 hvelocity
    obtain ⟨ht, htick⟩ := List.forall_mem_cons.1 htick
    have hstep := promiseDynamic_eq (c := c) hv ht hclock
    by_cases hfits : c.clock + step.1 < 1 <<< 64
    · rw [Bounded.nat?_of_lt hfits] at hstep
      have hrest : ∃ step ∈ rest, 1 <<< 64 ≤ c.clock + step.1 := by
        obtain ⟨step', hmem, hgreat⟩ := hlt
        rcases List.mem_cons.1 hmem with rfl | hmem
        · exact absurd hfits (Nat.not_lt.2 hgreat)
        · exact ⟨step', hmem, hgreat⟩
      obtain ⟨c', herror⟩ := @ih (c.withAgenda (c.pending.push (c.clock + step.1)
        (.setDynamic (.nearest step.2)))) hvelocity htick hclock hrest
      exact ⟨c', (bind_of_ok hstep).trans herror⟩
    · rw [Bounded.nat?_eq_none_iff.2 (Nat.not_lt.1 hfits)] at hstep
      exact ⟨c, bind_of_error hstep⟩

/-- The channel that a ramp leaves. -/
def ramped (r : Ramp) (c : Channel) : Channel :=
  { c with
    dynamic := r.start
    pending := c.pending.pushAll (promises c.clock (r.steps (c.timing.ticksInBeat r.duration))) }

/-- A ramp is promised if its last tick fits a word. -/
theorem playRamp_eq (hr : r.kind.Toward r.start.velocity r.stop.velocity)
    (htotal : c.timing.ticksInBeat r.duration < 2 ^ 53)
    (hlt : c.clock + c.timing.ticksInBeat r.duration < 1 <<< 64) :
    playRamp r c = .ok () (ramped r c) := by
  have hstairs := Ramp.staircase_steps hr htotal
  exact forM_promiseDynamic_eq (c := { c with dynamic := r.start })
    (fun _ => Ramp.velocity_le_of_mem_steps) hstairs.tick_le (Nat.lt_trans htotal (by decide)) hlt

/-- It fails if its last tick does not fit a word. -/
theorem playRamp_eq_error (hr : r.kind.Toward r.start.velocity r.stop.velocity)
    (htotal : c.timing.ticksInBeat r.duration < 2 ^ 53) (hclock : c.clock < 1 <<< 64)
    (hlt : 1 <<< 64 ≤ c.clock + c.timing.ticksInBeat r.duration) :
    ∃ c', playRamp r c = .error .overflow c' := by
  have hstairs := Ramp.staircase_steps hr htotal
  have hword : 2 ^ 53 < 1 <<< 63 := by decide
  exact forM_promiseDynamic_eq_error (c := { c with dynamic := r.start })
    (fun _ => Ramp.velocity_le_of_mem_steps)
    (fun step hstep => by have := hstairs.tick_le step hstep; omega) hclock
    ⟨_, List.mem_of_getLast? hstairs.last, hlt⟩

theorem filter_promises (now : Nat) (steps : List (Nat × Nat)) :
    (promises now steps).filter (·.2.dynamic?.isSome) = promises now steps := by
  refine List.filter_eq_self.2 fun p hp => ?_
  obtain ⟨step, -, rfl⟩ := List.mem_map.1 hp
  rfl

/-- If no change of the dynamic was promised before, the steps are all. -/
theorem dynamicChanges_ramped (hc : c.dynamicChanges = [])
    (hstairs : Ramp.Staircase r total (r.steps (c.timing.ticksInBeat r.duration))) :
    (ramped r c).dynamicChanges =
      promises c.clock (r.steps (c.timing.ticksInBeat r.duration)) := by
  have hpushed := Agenda.filter_toList_pushAll (q := c.pending)
    (l := promises c.clock (r.steps (c.timing.ticksInBeat r.duration)))
    (p := (·.2.dynamic?.isSome))
  unfold Channel.dynamicChanges at hc
  rw [hc, List.nil_append, filter_promises] at hpushed
  refine hpushed (List.pairwise_map.2 (hstairs.ticks.imp fun h => ?_))
  exact Nat.add_le_add_left h _

theorem dynamics_ramped (hc : c.dynamicChanges = [])
    (hstairs : Ramp.Staircase r total (r.steps (c.timing.ticksInBeat r.duration))) :
    (ramped r c).dynamics [] =
      r.start :: (r.steps (c.timing.ticksInBeat r.duration)).map (.nearest ·.2) := by
  rw [Channel.dynamics_eq, dynamicChanges_ramped hc hstairs]
  unfold promises
  rw [List.filterMap_map, List.filterMap_nil, List.nil_append, ← List.filterMap_eq_map]
  rfl

/-- The dynamics that a channel comes to after a ramp keep to its direction. -/
theorem pairwise_dynamics_ramped (hc : c.dynamicChanges = [])
    (hstairs : Ramp.Staircase r total (r.steps (c.timing.ticksInBeat r.duration))) :
    ((ramped r c).dynamics []).Pairwise fun d e => r.kind.Toward d.velocity e.velocity := by
  have hvelocity : ∀ step ∈ r.steps (c.timing.ticksInBeat r.duration),
      (Dynamic.nearest step.2).velocity = step.2 :=
    fun step hstep => Dynamic.velocity_nearest (Ramp.velocity_le_of_mem_steps hstep)
  rw [dynamics_ramped hc hstairs]
  refine List.pairwise_cons.2 ⟨List.forall_mem_map.2 fun step hstep => ?_, List.pairwise_map.2 ?_⟩
  · rw [hvelocity step hstep]
    exact (hstairs.between step hstep).1
  · refine hstairs.velocities.imp_of_mem fun {step step'} hstep hstep' htoward => ?_
    rwa [hvelocity step hstep, hvelocity step' hstep']

/-- The last dynamic that it comes to is the end of the ramp, and no change is due later. -/
theorem getLast?_dynamics_ramped (hc : c.dynamicChanges = [])
    (hstairs : Ramp.Staircase r total (r.steps (c.timing.ticksInBeat r.duration))) :
    ((ramped r c).dynamics []).getLast? = some r.stop ∧
      ∀ p ∈ (ramped r c).dynamicChanges, p.1 ≤ c.clock + total := by
  constructor
  · rw [dynamics_ramped hc hstairs, List.getLast?_cons, List.getLast?_map, hstairs.last]
    exact congrArg some (Dynamic.nearest_velocity r.stop)
  · rw [dynamicChanges_ramped hc hstairs]
    exact List.forall_mem_map.2 fun step hstep =>
      Nat.add_le_add_left (hstairs.tick_le step hstep) _

/-- The loop that draws a ramp ends, and its steps lead from the start to the end like a staircase.
On a channel for which no change of the dynamic is promised, and whose clock can come to the end of
the ramp, the ramp is promised, and the clock stays where it is. While the clock goes on, the
dynamic keeps to the direction of the ramp, and when all its ticks are over it is the end, with
nothing left of the ramp. -/
theorem playRamp_lands {kind : RampKind} {start stop : Dynamic} {duration : Beat}
    (h : Ramp.between kind start stop duration = .ok r) :
    (∀ total < 2 ^ 53, ∃ drawn, r.LoopEnds total drawn ∧
      r.steps total = drawn ++ [(total, stop.velocity)] ∧ r.Staircase total (r.steps total)) ∧
    ∀ c : Channel, c.timing.ticksInBeat duration < 2 ^ 53 →
      (∀ p ∈ c.pending.toList, p.2.dynamic? = none) →
      c.clock + c.timing.ticksInBeat duration < 1 <<< 64 →
      ∃ c', playRamp r c = .ok () c' ∧ c'.clock = c.clock ∧ c'.dynamic = start ∧
        ∀ steps : List Nat,
          ((observed steps c').Pairwise fun d e =>
            kind.Toward d.dynamic.velocity e.dynamic.velocity) ∧
          ∀ ticks e, steps.mapM advance c' = .ok ticks e → steps ≠ [] →
            c.timing.ticksInBeat duration ≤ steps.sum →
            e.dynamic = stop ∧ ∀ p ∈ e.pending.toList, p.2.dynamic? = none := by
  obtain ⟨rfl, hr⟩ := Ramp.toward_of_between h
  refine ⟨fun total hlt => ⟨_, Ramp.loopEnds_drawn _ hlt, Ramp.steps_eq _ _,
    Ramp.staircase_steps hr hlt⟩, fun c htotal hpending hlt => ?_⟩
  have hnone : c.dynamicChanges = [] := Channel.dynamicChanges_eq_nil_iff.2 hpending
  have hstairs := Ramp.staircase_steps (r := { kind, start, stop, duration }) hr htotal
  obtain ⟨hlast, hlimit⟩ := getLast?_dynamics_ramped hnone hstairs
  refine ⟨_, playRamp_eq hr htotal hlt, rfl, rfl, fun steps => ⟨?_, ?_⟩⟩
  · exact pairwise_observed (fun d => .refl kind d.velocity)
      (pairwise_dynamics_ramped hnone hstairs) steps
  · intro ticks e hrun hne hsum
    obtain ⟨hdynamic, hnil⟩ := dynamic_of_mapM_advance hlast hlimit hrun hne
      (Nat.add_le_add_left hsum c.clock)
    exact ⟨hdynamic, Channel.dynamicChanges_eq_nil_iff.1 hnil⟩

/-- A crescendo that a quarter note takes. -/
def swell : Ramp where
  kind := .crescendo
  start := { velocity := 40 }
  stop := { velocity := 44 }
  duration := .quarter

theorem playRamp_lands_swell :
    let c : Channel := { track := { channel := 0 } }
    Ramp.between .crescendo swell.start swell.stop .quarter = .ok swell ∧
      c.timing.ticksInBeat .quarter = 960 ∧
      ∃ c', playRamp swell c = .ok () c' ∧ c'.dynamic = swell.start ∧
        ∃ ticks e, [100, 860].mapM advance c' = .ok ticks e ∧ e.dynamic = swell.stop ∧
          ∀ p ∈ e.pending.toList, p.2.dynamic? = none := by
  intro c
  have hticks : c.timing.ticksInBeat .quarter = 960 := by decide
  have hruns : (playRamp swell >>= fun _ => [100, 860].mapM advance).succeeds c := by
    decide +kernel
  obtain ⟨ticks, hruns⟩ := eq_ok_of_succeeds hruns
  obtain ⟨_, _, hplay, hadvance⟩ := bind_eq_ok hruns
  have hbetween : Ramp.between .crescendo swell.start swell.stop .quarter = .ok swell := rfl
  obtain ⟨-, hlands⟩ := playRamp_lands hbetween
  obtain ⟨c', hplay', -, hstart, hsteps⟩ := hlands c (by rw [hticks]; decide) nofun
    (by rw [hticks]; decide)
  rw [hplay'] at hplay
  cases hplay
  exact ⟨hbetween, hticks, _, hplay', hstart, ticks, _, hadvance,
    (hsteps [100, 860]).2 ticks _ hadvance nofun hticks.le⟩

/-- The clock can be too late for a ramp, and an action that fails on its last tick can keep it from
its end. -/
theorem playRamp_late_and_interrupted :
    let late : Channel := { track := { channel := 0 }, clock := 1 <<< 64 - 1 }
    let broken : Channel :=
      { track := { channel := 0 }, pending := Agenda.empty.push 960 (.turnKnob 200 1) }
    Ramp.between .crescendo swell.start swell.stop .quarter = .ok swell ∧
      (leapTo (1 <<< 64 - 1) { track := { channel := 0 } } = .ok (1 <<< 64 - 1) late ∧
        (∀ p ∈ late.pending.toList, p.2.dynamic? = none) ∧
        late.timing.ticksInBeat swell.duration = 960 ∧
        ∃ c', playRamp swell late = .error .overflow c') ∧
      (∀ p ∈ broken.pending.toList, p.2.dynamic? = none) ∧
        broken.timing.ticksInBeat swell.duration = 960 ∧
        ∃ c', playRamp swell broken = .ok () c' ∧
          ((advance 960).leaves c').clock = 960 ∧
          ((advance 960).leaves c').dynamic ≠ swell.stop := by
  intro late broken
  have hticks : Timing.standard.ticksInBeat swell.duration = 960 := by decide
  have hbroken : ((playRamp swell).succeeds broken ∧
      ((playRamp swell >>= fun _ => advance 960).leaves broken).clock = 960 ∧
      ((playRamp swell >>= fun _ => advance 960).leaves broken).dynamic ≠ swell.stop) := by
    decide +kernel
  obtain ⟨hruns, hclock, hdynamic⟩ := hbroken
  obtain ⟨_, hplay⟩ := eq_ok_of_succeeds hruns
  rw [leaves_bind_of_ok _ hplay] at hclock hdynamic
  refine ⟨rfl, ⟨?_, nofun, hticks, ?_⟩, ?_, hticks, _, hplay, hclock, hdynamic⟩
  · exact (leapTo_eq_drain_of_le (Nat.zero_le _) (by decide)).trans (Channel.drain_of_not_due rfl)
  · exact playRamp_eq_error (show 40 ≤ 44 by decide) (hticks.trans_lt (by decide)) (by decide)
      (hticks ▸ by decide)
  · decide

end Ramps

end ChannelM

end MidiScore

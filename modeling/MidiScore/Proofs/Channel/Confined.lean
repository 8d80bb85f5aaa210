import MidiScore.Proofs.Channel.Clocked
import MidiScore.Proofs.Channel.Keys

/-!
# Controllers that are left alone

An action that is run sets at most its own controller (`fixes_controller_run`) and promises nothing
but the release of a key (`pending_of_run`). So while only some controllers are set by what is
promised and by what is played, it stays so (`Confined`), and the others stand where they stood.
-/

namespace MidiScore

namespace ChannelM

/-! ## What is left as it is -/

section Fixed

variable {γ : Type} {f : Channel → γ}

theorem Fixes.keeps {α : Type} {m : ChannelM α} (h : Fixes f m) (x : γ) : Keeps (f · = x) m :=
  fun _ _ _ hc hm => (h.of_ok hm).trans hc

/-- A view in which neither notes nor promises can be seen, nor the controllers with `N`, is left
as it is by a sound that turns only these. -/
theorem soundableOn_of_aloof {N : Nat → Prop} (hf : Aloof f)
    (hset : ∀ {number}, N number → ∀ value, Fixes f (setController number value)) (x : γ) :
    SoundableOn N (Keeps (f · = x)) where
  toCompositional := compositional_keeps
  strike key delta duration off := (hf.fixes_strike key delta duration off).keeps x
  later delta action _ := (hf.fixes_later delta action).keeps x
  setController value hnumber := (hset hnumber value).keeps x

/-- An action is seen by the controller that it sets, by the dynamic or by the bend. -/
theorem Aloof.fixes_run {a : Action} (hf : Aloof f)
    (hdynamic : ∀ c dynamic, f { c with dynamic } = f c) (hbend : ∀ c bend, f { c with bend } = f c)
    (hset : ∀ number ∈ a.controller?, ∀ value, Fixes f (setController number value)) :
    Fixes f (run a) := by
  have hsetBend : ∀ value, Fixes f (setBend value) := fun _ =>
    fixes_get.bind fun _ => (hf.fixes_send _).bind fun _ => fixes_modify fun c => hbend c _
  cases a with
  | noteOff key velocity => exact hf.fixes_noteOff key velocity
  | play key delta duration offVelocity => exact hf.fixes_strike key delta duration offVelocity
  | setDynamic dynamic => exact fixes_modify fun c => hdynamic c dynamic
  | turnKnob number value => exact hset number rfl value
  | pressPedal number => exact hset number rfl _
  | releasePedal number => exact hset number rfl _
  | bend value => exact hsetBend value
  | resetBend => exact hsetBend _

end Fixed

theorem aloof_controller (number : Nat) : Aloof (Channel.controller · number) where
  write _ _ := rfl
  erase _ _ := rfl
  notes _ _ := rfl
  releases _ _ := rfl
  pending _ _ := rfl

theorem fixes_controller_setController {n number : Nat} (h : n ≠ number) (value : Nat) :
    Fixes (Channel.controller · number) (setController n value) :=
  fixes_get.bind fun _ => ((aloof_controller number).fixes_send _).bind fun _ =>
    fixes_modify fun _ => Channel.controller_setController.trans (if_neg fun hn => h hn.1)

/-- An action sets no controller but its own. -/
theorem fixes_controller_run {a : Action} {number : Nat} (h : ∀ n ∈ a.controller?, n ≠ number) :
    Fixes (Channel.controller · number) (run a) :=
  (aloof_controller number).fixes_run (fun _ _ => rfl) (fun _ _ => rfl) fun n hn =>
    fixes_controller_setController (h n hn)

/-! ## What is promised -/

/-- An action that is run promises nothing but the release of a key. -/
theorem pending_of_run {a : Action} {c c' : Channel} {u : Unit} (h : run a c = .ok u c') :
    c'.pending = c.pending ∨ ∃ tick key velocity, c.clock ≤ tick ∧
      c'.pending = c.pending.push tick (.noteOff key velocity) := by
  have haside : a.noteKey? = none → c'.pending = c.pending := by
    intro ha
    obtain ⟨track, controllers, dynamic, bend, rfl, -⟩ := aside_of_run ha h
    rfl
  cases a with
  | noteOff key velocity =>
    obtain ⟨-, rfl⟩ := eq_of_noteOff h
    exact .inl rfl
  | play key delta duration offVelocity =>
    obtain ⟨velocity, c₁, tick, hcases, -, hge, -, rfl⟩ := of_strike h
    have hpending : c₁.pending = c.pending := by
      rcases hcases with ⟨handle, -, rfl, -⟩ | ⟨-, rfl, -⟩ <;> rfl
    refine .inr ⟨tick, key, offVelocity, hge, ?_⟩
    rw [← hpending]
  | _ => exact .inl (haside rfl)

end ChannelM

open ChannelM

/-- Actions that are due or pending set no controllers but those with `N`. -/
structure Confined (N : Nat → Prop) (due : List Action) (c : Channel) : Prop where
  due : ∀ a ∈ due, ∀ number ∈ a.controller?, N number
  pending : ∀ q ∈ c.pending.toList, ∀ number ∈ q.2.controller?, N number

namespace Confined

variable {N : Nat → Prop} {due : List Action} {c c' : Channel} {a : Action}

theorem congr (h : Confined N due c) (hp : c'.pending = c.pending) : Confined N due c' :=
  ⟨h.due, hp ▸ h.pending⟩

theorem push {tick : Nat} (h : Confined N due c) (ha : ∀ number ∈ a.controller?, N number)
    (hp : c'.pending = c.pending.push tick a) : Confined N due c' := by
  refine ⟨h.due, fun ⟨t, b⟩ hq => ?_⟩
  rw [hp] at hq
  rcases Agenda.mem_toList_push.1 hq with ⟨-, rfl⟩ | hq
  · exact ha
  · exact h.pending _ hq

theorem run {u : Unit} (h : Confined N (a :: due) c) (hrun : run a c = .ok u c') :
    Confined N due c' := by
  have htail : Confined N due c := ⟨(List.forall_mem_cons.1 h.due).2, h.pending⟩
  rcases pending_of_run hrun with hp | ⟨tick, key, velocity, -, hp⟩
  · exact htail.congr hp
  · exact htail.push (a := .noteOff key velocity) nofun hp

theorem pop {target tick : Nat} {actions : List Action} {rest : Agenda Action}
    (h : Confined N [] c) (hpop : c.pending.popDue? target = some (tick, actions, rest)) :
    Confined N actions { c with pending := rest, clock := max c.clock tick } := by
  have hp := h.pending
  rw [Agenda.toList_of_popDue? hpop] at hp
  obtain ⟨hactions, hrest⟩ := List.forall_mem_append.1 hp
  exact ⟨fun a ha => hactions _ (List.mem_map_of_mem ha), hrest⟩

theorem soundableOn : SoundableOn N (Keeps (Confined N [])) where
  toCompositional := compositional_keeps
  strike key delta duration offVelocity := by
    intro c u c' h hstrike
    have hdue : Confined N [.play key delta duration offVelocity] c :=
      ⟨List.forall_mem_singleton.2 nofun, h.pending⟩
    exact hdue.run hstrike
  later delta action ha := by
    intro c u c' h hlater
    obtain ⟨tick, -, -, rfl⟩ := of_later hlater
    exact h.push ha rfl
  setController value _ := by
    intro c u c' h hset
    rw [eq_of_setController hset]
    exact h.congr rfl

end Confined

end MidiScore

import MidiScore.Channel.Clock

/-!
# What an operation leaves as it is

`Fixes f m` says that `m` leaves the view `f` of the channel as it is, whether or not it fails. A
view that does not show notes and promises is fixed by strikes and releases (`Aloof`). No action
moves the clock (`fixes_clock_runAll`); only an advance does.
-/

namespace MidiScore

namespace ChannelM

variable {α β γ : Type} {f : Channel → γ}

/-- Whether or not `m` fails, it leaves the view `f` of the channel as it is. -/
def Fixes (f : Channel → γ) (m : ChannelM α) : Prop :=
  ∀ c, f (m.leaves c) = f c

theorem Fixes.of_ok {m : ChannelM α} {c c' : Channel} {a : α} (hm : Fixes f m)
    (h : m c = .ok a c') : f c' = f c := by
  rw [← leaves_of_ok h]
  exact hm c

theorem Fixes.bind {m : ChannelM α} {k : α → ChannelM β} (hm : Fixes f m)
    (hk : ∀ a, Fixes f (k a)) : Fixes f (m >>= k) := by
  intro c
  have h := hm c
  cases hc : m c with
  | ok a c₁ =>
    rw [leaves_bind_of_ok k hc, hk a c₁, ← h, leaves_of_ok hc]
  | error e c₁ =>
    rw [leaves_bind_of_error k hc, ← h, leaves_of_error hc]

/-- What comes last leaves the view as what came before left it. -/
theorem leaves_bind_of_fixes {m : ChannelM α} {k : α → ChannelM β} (hk : ∀ a, Fixes f (k a))
    (c : Channel) : f ((m >>= k).leaves c) = f (m.leaves c) := by
  cases hc : m c with
  | ok a c₁ => rw [leaves_bind_of_ok k hc, hk a c₁, leaves_of_ok hc]
  | error e c₁ => rw [leaves_bind_of_error k hc, leaves_of_error hc]

theorem fixes_pure (a : α) : Fixes f (pure a : ChannelM α) := fun _ => rfl

theorem fixes_get : Fixes f (get : ChannelM Channel) := fun _ => rfl

theorem fixes_modify {g : Channel → Channel} (h : ∀ c, f (g c) = f c) : Fixes f (modify g) := h

theorem fixes_ofOption (o : Option α) : Fixes f (ofOption o) := by
  cases o <;> exact fun _ => rfl

theorem fixes_ofExcept (r : Except Failure α) : Fixes f (ofExcept r) := by
  cases r <;> exact fun _ => rfl

theorem fixes_check (msg : Message) : Fixes f (check msg) := by
  intro c
  rw [leaves_check]

/-! ## Notes and promises -/

/-- A view of the channel in which neither what is written, struck and released nor what is promised
can be seen. -/
structure Aloof (f : Channel → γ) : Prop where
  write : ∀ c msg, f (c.write msg) = f c
  erase : ∀ c handle, f { c with track := c.track.erase handle } = f c
  notes : ∀ c notes, f { c with notes } = f c
  releases : ∀ c releases, f { c with releases } = f c
  pending : ∀ c pending, f { c with pending } = f c

namespace Aloof

variable (hf : Aloof f)

include hf

theorem emit (c : Channel) (msg : Message) : f (c.emit msg) = f c := by
  unfold Channel.emit
  split
  · rfl
  · exact hf.write c msg

theorem fixes_send (msg : Message) : Fixes f (send msg) :=
  (fixes_check msg).bind fun _ => fixes_modify fun c => hf.emit c msg

theorem fixes_noteOn (key velocity : Nat) : Fixes f (noteOn key velocity) :=
  fixes_get.bind fun _ => (hf.fixes_send _).bind fun _ => fixes_modify fun c => hf.notes c _

theorem fixes_noteOff (key velocity : Nat) : Fixes f (noteOff key velocity) := by
  refine fixes_get.bind fun _ => (fixes_check _).bind fun _ => ?_
  refine (fixes_modify fun c => ?_).bind fun _ => fixes_modify fun c => hf.notes c _
  exact (hf.releases _ _).trans (hf.emit c _)

theorem fixes_attackVelocity (key : Nat) (delta : Int) : Fixes f (attackVelocity key delta) := by
  refine Fixes.bind ?_ fun joined => ?_
  · refine fixes_get.bind fun c => (fixes_ofExcept _).bind fun release => ?_
    split
    · refine Fixes.bind (fixes_modify fun c => ?_) fun _ => fixes_pure _
      exact (hf.releases { c with track := _ } _).trans (hf.erase c _)
    · exact fixes_pure _
  · split <;> exact fixes_get.bind fun _ => fixes_ofOption _

theorem fixes_later (delta : Int) (action : Action) : Fixes f (later delta action) :=
  fixes_get.bind fun _ => (fixes_ofOption _).bind fun _ => fixes_modify fun c => hf.pending c _

theorem fixes_strike (key : Nat) (delta : Int) (duration offVelocity : Nat) :
    Fixes f (strike key delta duration offVelocity) :=
  (hf.fixes_attackVelocity key delta).bind fun _ => (hf.fixes_noteOn key _).bind fun _ =>
    hf.fixes_later _ _

end Aloof

/-! ## The clock -/

theorem aloof_clock : Aloof Channel.clock where
  write _ _ := rfl
  erase _ _ := rfl
  notes _ _ := rfl
  releases _ _ := rfl
  pending _ _ := rfl

theorem aloof_number : Aloof Channel.number where
  write _ _ := rfl
  erase _ _ := rfl
  notes _ _ := rfl
  releases _ _ := rfl
  pending _ _ := rfl

theorem fixes_clock_send (msg : Message) : Fixes Channel.clock (send msg) :=
  aloof_clock.fixes_send msg

theorem fixes_clock_setController (number value : Nat) :
    Fixes Channel.clock (setController number value) :=
  fixes_get.bind fun _ => (fixes_clock_send _).bind fun _ => fixes_modify fun _ => rfl

theorem fixes_clock_setBend (value : Nat) : Fixes Channel.clock (setBend value) :=
  fixes_get.bind fun _ => (fixes_clock_send _).bind fun _ => fixes_modify fun _ => rfl

theorem fixes_clock_run (a : Action) : Fixes Channel.clock (run a) := by
  cases a with
  | noteOff key velocity => exact aloof_clock.fixes_noteOff key velocity
  | play key delta duration offVelocity =>
    exact aloof_clock.fixes_strike key delta duration offVelocity
  | setDynamic d => exact fixes_modify fun _ => rfl
  | turnKnob controller value => exact fixes_clock_setController controller value
  | pressPedal controller => exact fixes_clock_setController controller _
  | releasePedal controller => exact fixes_clock_setController controller _
  | bend value => exact fixes_clock_setBend value
  | resetBend => exact fixes_clock_setBend _

theorem fixes_clock_runAll (as : List Action) : Fixes Channel.clock (runAll as) := by
  induction as with
  | nil => exact fixes_pure _
  | cons a rest ih => exact (fixes_clock_run a).bind fun _ => ih

end ChannelM

theorem Channel.clock_of_drain {target t : Nat} {c c' : Channel} (h : drain target c = .ok t c') :
    c'.clock = target := by
  fun_induction drain target c with
  | case1 => cases h; rfl
  | case2 _ _ _ _ _ _ _ _ ih => exact ih h
  | case3 => cases h

end MidiScore

import MidiScore.Proofs.Agenda
import MidiScore.Proofs.Channel.Fixes
import MidiScore.Proofs.Channel.Keys

/-!
# What an action does whatever else is promised

No action reads the agenda. All but a strike leave it as it is (`Ignores`), and a strike pushes the
release of its key when everything else is done. So an action does the same to every agenda: it
fails, or it pushes the same promises behind what is there (`files_run`).
-/

namespace MidiScore

/-- The channel with another agenda. -/
def Channel.withAgenda (q : Agenda Action) (c : Channel) : Channel :=
  { c with pending := q }

theorem Channel.clock_withAgenda (q : Agenda Action) (c : Channel) :
    (c.withAgenda q).clock = c.clock := rfl

theorem Channel.pending_withAgenda (q : Agenda Action) (c : Channel) :
    (c.withAgenda q).pending = q := rfl

namespace ChannelM

variable {α β : Type}

/-- The result with another agenda on the channel that is left. -/
def resultWithAgenda (q : Agenda Action) :
    EStateM.Result Failure Channel α → EStateM.Result Failure Channel α
  | .ok a c => .ok a (c.withAgenda q)
  | .error e c => .error e (c.withAgenda q)

/-- `m` neither reads nor changes the agenda. -/
def Ignores (m : ChannelM α) : Prop :=
  ∀ q c, m (c.withAgenda q) = resultWithAgenda q (m c)

section Rules

variable {m : ChannelM α}

theorem Ignores.bind {f : α → ChannelM β} (hm : Ignores m) (hf : ∀ a, Ignores (f a)) :
    Ignores (m >>= f) := by
  intro q c
  have h := hm q c
  cases hr : m c with
  | ok a c₁ =>
    rw [hr] at h
    rw [bind_of_ok h, bind_of_ok hr]
    exact hf a q c₁
  | error e c₁ =>
    rw [hr] at h
    rw [bind_of_error h, bind_of_error hr]
    rfl

theorem ignores_pure (a : α) : Ignores (pure a) := fun _ _ => rfl

/-- The channel may be read, but not its agenda. -/
theorem ignores_get_bind {f : Channel → ChannelM α} (hread : ∀ q c, f (c.withAgenda q) = f c)
    (hf : ∀ c, Ignores (f c)) : Ignores (get >>= f) := by
  intro q c
  rw [get_bind, get_bind, hread]
  exact hf c q c

theorem ignores_modify {f : Channel → Channel}
    (h : ∀ q c, f (c.withAgenda q) = (f c).withAgenda q) : Ignores (modify f) := by
  intro q c
  show EStateM.Result.ok _ (f (c.withAgenda q)) = _
  rw [h]
  rfl

theorem ignores_ofOption (o : Option α) : Ignores (ofOption o) := by
  cases o <;> exact fun _ _ => rfl

theorem ignores_ofExcept (r : Except Failure α) : Ignores (ofExcept r) := by
  cases r <;> exact fun _ _ => rfl

theorem ignores_check (msg : Message) : Ignores (check msg) := by
  intro q c
  unfold check
  split <;> rfl

theorem Ignores.fixes_pending (hm : Ignores m) : Fixes Channel.pending m := by
  intro c
  have h := hm c.pending c
  unfold leaves
  cases hr : m c with
  | ok a c₁ =>
    replace h : m c = .ok a (c₁.withAgenda c.pending) := h.trans (congrArg _ hr)
    rw [hr] at h
    rw [(EStateM.Result.ok.inj h).2, Channel.pending_withAgenda]
  | error e c₁ =>
    replace h : m c = .error e (c₁.withAgenda c.pending) := h.trans (congrArg _ hr)
    rw [hr] at h
    rw [(EStateM.Result.error.inj h).2, Channel.pending_withAgenda]

end Rules

theorem emit_withAgenda (msg : Message) (q : Agenda Action) (c : Channel) :
    (c.withAgenda q).emit msg = (c.emit msg).withAgenda q := by
  show (if c.muted then _ else _) = _
  unfold Channel.emit
  split <;> rfl

theorem ignores_send (msg : Message) : Ignores (send msg) :=
  (ignores_check msg).bind fun _ => ignores_modify (emit_withAgenda msg)

theorem ignores_noteOn (key velocity : Nat) : Ignores (noteOn key velocity) :=
  ignores_get_bind (fun _ _ => rfl) fun _ => (ignores_send _).bind fun _ =>
    ignores_modify fun _ _ => rfl

theorem ignores_noteOff (key velocity : Nat) : Ignores (noteOff key velocity) := by
  refine ignores_get_bind (fun _ _ => rfl) fun c => (ignores_check _).bind fun _ => ?_
  refine (ignores_modify fun q c' => ?_).bind fun _ => ignores_modify fun _ _ => rfl
  rw [emit_withAgenda]
  rfl

theorem ignores_retractRelease (key : Nat) : Ignores (retractRelease key) := by
  refine ignores_get_bind (fun _ _ => rfl) fun c => (ignores_ofExcept _).bind fun found => ?_
  split
  · exact (ignores_modify fun _ _ => rfl).bind fun _ => ignores_pure _
  · exact ignores_pure _

theorem ignores_attackVelocity (key : Nat) (delta : Int) : Ignores (attackVelocity key delta) := by
  refine (ignores_retractRelease key).bind fun joined => ?_
  split <;> exact ignores_get_bind (fun _ _ => rfl) fun _ => ignores_ofOption _

theorem ignores_setController (number value : Nat) : Ignores (setController number value) :=
  ignores_get_bind (fun _ _ => rfl) fun _ => (ignores_send _).bind fun _ =>
    ignores_modify fun _ _ => rfl

theorem ignores_setBend (value : Nat) : Ignores (setBend value) :=
  ignores_get_bind (fun _ _ => rfl) fun _ => (ignores_send _).bind fun _ =>
    ignores_modify fun _ _ => rfl

/-! ## Promises -/

/-- Whatever stands on the agenda of `c`, `m` does the same: it pushes at most one promise, not due
before now, and leaves `c₁` otherwise, or it fails. -/
inductive Files (m : ChannelM Unit) (c : Channel) : Prop where
  | done (c₁ : Channel) (made : List (Nat × Action)) (length : made.length ≤ 1)
      (timely : ∀ p ∈ made, c.clock ≤ p.1)
      (run : ∀ q, m (c.withAgenda q) = .ok () (c₁.withAgenda (q.pushAll made)))
  | failed (cause : Failure) (c₁ : Channel)
      (run : ∀ q, m (c.withAgenda q) = .error cause (c₁.withAgenda q))

theorem Ignores.files {m : ChannelM Unit} (hm : Ignores m) (c : Channel) : Files m c := by
  cases hr : m c with
  | ok u c₁ =>
    refine .done c₁ [] (Nat.zero_le _) (fun _ hp => absurd hp List.not_mem_nil) fun q => ?_
    rw [hm, hr]
    rfl
  | error e c₁ =>
    refine .failed e c₁ fun q => ?_
    rw [hm, hr]
    rfl

/-- A promise follows what ignores the agenda. -/
theorem Ignores.files_bind {m : ChannelM α} {f : α → ChannelM Unit} {c : Channel} (hm : Ignores m)
    (hclock : Fixes Channel.clock m) (hf : ∀ a c₁, Files (f a) c₁) : Files (m >>= f) c := by
  cases hr : m c with
  | ok a c₁ =>
    have hstart : ∀ q, m (c.withAgenda q) = .ok a (c₁.withAgenda q) := fun q => by rw [hm, hr]; rfl
    cases hf a c₁ with
    | done c₂ made length timely run =>
      refine .done c₂ made length (fun p hp => ?_) fun q => ?_
      · rw [← hclock.of_ok hr]
        exact timely p hp
      · rw [bind_of_ok (hstart q), run]
    | failed cause c₂ run =>
      refine .failed cause c₂ fun q => ?_
      rw [bind_of_ok (hstart q), run]
  | error e c₁ =>
    refine .failed e c₁ fun q => ?_
    have hstart : m (c.withAgenda q) = .error e (c₁.withAgenda q) := by rw [hm, hr]; rfl
    rw [bind_of_error hstart]

theorem files_later (delta : Int) (action : Action) (c : Channel) :
    Files (later delta action) c := by
  cases htick : (if delta ≤ 0 then some c.clock else Bounded.nat? 64 (c.clock + delta.toNat)) with
  | none =>
    refine .failed .overflow c fun q => ?_
    unfold later
    rw [get_bind, Channel.clock_withAgenda, htick]
    rfl
  | some tick =>
    refine .done c [(tick, action)] (Nat.le_refl _) (fun p hp => ?_) fun q => ?_
    · obtain rfl := List.mem_singleton.1 hp
      split at htick
      · cases htick
        exact Nat.le_refl _
      · obtain ⟨-, rfl⟩ := Bounded.nat?_eq_some_iff.1 htick
        exact Nat.le_add_right ..
    · unfold later
      rw [get_bind, Channel.clock_withAgenda, htick]
      rfl

theorem files_strike (key : Nat) (delta : Int) (duration offVelocity : Nat) (c : Channel) :
    Files (strike key delta duration offVelocity) c := by
  refine (ignores_attackVelocity key delta).files_bind (aloof_clock.fixes_attackVelocity key delta)
    fun velocity c₁ => ?_
  exact (ignores_noteOn key velocity).files_bind (aloof_clock.fixes_noteOn key velocity)
    fun _ c₂ => files_later _ _ c₂

/-- An action does the same whatever is on the agenda. -/
theorem files_run (a : Action) (c : Channel) : Files (run a) c := by
  cases a with
  | noteOff key velocity => exact (ignores_noteOff key velocity).files c
  | play key delta duration offVelocity => exact files_strike key delta duration offVelocity c
  | setDynamic d => exact Ignores.files (ignores_modify fun _ _ => rfl) c
  | turnKnob controller value => exact (ignores_setController controller value).files c
  | pressPedal controller => exact (ignores_setController controller _).files c
  | releasePedal controller => exact (ignores_setController controller _).files c
  | bend value => exact (ignores_setBend value).files c
  | resetBend => exact (ignores_setBend _).files c

end ChannelM

end MidiScore

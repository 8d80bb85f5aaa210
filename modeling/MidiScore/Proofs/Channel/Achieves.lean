import MidiScore.Proofs.Channel.Ensures

/-!
# What an operation achieves

`Achieves P m Q` says that from a channel with `P` the operation `m` does not fail, and that its
answer and the channel that it leaves have `Q`. There is a rule for each way in which operations are
put together. An operation `Refuses` a channel if it fails there because of a message that it cannot
send.
-/

namespace MidiScore.ChannelM

variable {α β : Type} {P : Channel → Prop} {Q : α → Channel → Prop} {S : β → Channel → Prop}

/-- From a channel with `P`, `m` succeeds, with an answer and a channel that have `Q`. -/
def Achieves (P : Channel → Prop) (m : ChannelM α) (Q : α → Channel → Prop) : Prop :=
  ∀ c, P c → ∃ a c', m c = .ok a c' ∧ Q a c'

namespace Achieves

variable {m : ChannelM α}

theorem bind {f : α → ChannelM β} (hm : Achieves P m Q) (hf : ∀ a, Achieves (Q a) (f a) S) :
    Achieves P (m >>= f) S := by
  intro c hc
  obtain ⟨a, c₁, hrun, h₁⟩ := hm c hc
  rw [bind_of_ok hrun]
  exact hf a c₁ h₁

theorem weaken {Q' : α → Channel → Prop} (h : Achieves P m Q) (hQ : ∀ a c, Q a c → Q' a c) :
    Achieves P m Q' := by
  intro c hc
  obtain ⟨a, c', hrun, hc'⟩ := h c hc
  exact ⟨a, c', hrun, hQ a c' hc'⟩

/-- A fact that is not about the channel may be assumed. -/
theorem of_fact {fact : Prop} (h : fact → Achieves P m Q) :
    Achieves (fun c => fact ∧ P c) m Q :=
  fun c hc => h hc.1 c hc.2

end Achieves

theorem achieves_pure {a : α} (h : ∀ c, P c → Q a c) : Achieves P (pure a) Q :=
  fun c hc => ⟨a, c, rfl, h c hc⟩

/-- What is read comes from a channel with `P`. -/
theorem achieves_get_bind {f : Channel → ChannelM α} (h : ∀ c, P c → Achieves P (f c) Q) :
    Achieves P (get >>= f) Q :=
  fun c hc => h c hc c hc

theorem achieves_modify {f : Channel → Channel} {Q : PUnit → Channel → Prop}
    (h : ∀ c, P c → Q ⟨⟩ (f c)) : Achieves P (modify f) Q :=
  fun c hc => ⟨⟨⟩, f c, rfl, h c hc⟩

theorem achieves_ofOption_bind {o : Option β} {b : β} {f : β → ChannelM α} (hb : o = some b)
    (h : Achieves P (f b) Q) : Achieves P (ofOption o >>= f) Q := by
  rw [hb]
  exact h

theorem achieves_forM {f : α → ChannelM PUnit} {l : List α}
    (h : ∀ a ∈ l, Achieves P (f a) fun _ => P) : Achieves P (l.forM f) fun _ => P := by
  induction l with
  | nil => exact achieves_pure fun _ => id
  | cons a rest ih =>
    obtain ⟨ha, hrest⟩ := List.forall_mem_cons.1 h
    exact ha.bind fun _ => ih hrest

theorem achieves_mapM {f : α → ChannelM β} {W : β → Prop} {l : List α}
    (h : ∀ a ∈ l, Achieves P (f a) fun b c => W b ∧ P c) :
    Achieves P (l.mapM f) fun answers c => (∀ b ∈ answers, W b) ∧ P c := by
  induction l with
  | nil => exact achieves_pure fun c hc => ⟨nofun, hc⟩
  | cons a rest ih =>
    obtain ⟨ha, hrest⟩ := List.forall_mem_cons.1 h
    rw [List.mapM_cons]
    refine ha.bind fun b => .of_fact fun hb => (ih hrest).bind fun answers => ?_
    exact .of_fact fun hanswers => achieves_pure fun c hc =>
      ⟨List.forall_mem_cons.2 ⟨hb, hanswers⟩, hc⟩

/-- On the channel, `m` fails because of a message that cannot be sent. -/
def Refuses (m : ChannelM α) (c : Channel) : Prop :=
  ∃ message cause c', m c = .error (.refused message cause) c'

theorem refuses_check {m : Message} (hm : m.validate ≠ .ok ()) (c : Channel) :
    Refuses (check m) c := by
  cases hv : m.validate with
  | ok u => exact absurd hv hm
  | error cause => exact ⟨m, cause, c, check_of_invalid hv c⟩

theorem refuses_get_bind {f : Channel → ChannelM α} {c : Channel} (h : Refuses (f c) c) :
    Refuses (get >>= f) c :=
  h

/-- What comes first is refused. -/
theorem Refuses.bind {m : ChannelM α} {c : Channel} (h : Refuses m c) (f : α → ChannelM β) :
    Refuses (m >>= f) c := by
  obtain ⟨message, cause, c', hrun⟩ := h
  exact ⟨message, cause, c', bind_of_error hrun⟩

end MidiScore.ChannelM

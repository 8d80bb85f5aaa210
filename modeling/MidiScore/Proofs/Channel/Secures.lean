import MidiScore.Proofs.Channel.Ensures

/-!
# What an operation secures

`Secures P m Q` says more than that `m` ensures `Q`: from a channel with `P` it also cannot fail
unless a number overflows. Messages that can be sent, arithmetic and reading are secure, and what is
put together from secure operations is secure.
-/

namespace MidiScore.ChannelM

variable {α β : Type} {P : Channel → Prop} {Q : α → Channel → Prop} {S : β → Channel → Prop}

/-- From a channel with `P`, `m` leaves a channel with `Q` or fails because a number overflows. -/
structure Secures (P : Channel → Prop) (m : ChannelM α) (Q : α → Channel → Prop) : Prop where
  ensures : Ensures P m Q
  overflow : ∀ {c c' : Channel} {e : Failure}, P c → m c = .error e c' → e = .overflow

namespace Secures

variable {m : ChannelM α}

/-- The two outcomes of a secure operation. -/
theorem cases_run (h : Secures P m Q) {c : Channel} (hc : P c) :
    (∃ a c', m c = .ok a c' ∧ Q a c') ∨ ∃ c', m c = .error .overflow c' := by
  cases hm : m c with
  | ok a c' => exact .inl ⟨a, c', rfl, h.ensures c a c' hc hm⟩
  | error e c' =>
    obtain rfl := h.overflow hc hm
    exact .inr ⟨c', rfl⟩

theorem bind {f : α → ChannelM β} (hm : Secures P m Q) (hf : ∀ a, Secures (Q a) (f a) S) :
    Secures P (m >>= f) S := by
  refine ⟨hm.ensures.bind fun a => (hf a).ensures, fun {c c' e} hc h => ?_⟩
  cases hr : m c with
  | ok a c₁ =>
    rw [bind_of_ok hr] at h
    exact (hf a).overflow (hm.ensures c a c₁ hc hr) h
  | error e₁ c₁ =>
    rw [bind_of_error hr] at h
    cases h
    exact hm.overflow hc hr

theorem weaken {P' : Channel → Prop} {Q' : α → Channel → Prop} (h : Secures P m Q)
    (hP : ∀ c, P' c → P c) (hQ : ∀ a c, Q a c → Q' a c) : Secures P' m Q' :=
  ⟨h.ensures.weaken hP hQ, fun hc => h.overflow (hP _ hc)⟩

theorem of_pre {P' : Channel → Prop} (h : Secures P m Q) (hP : ∀ c, P' c → P c) :
    Secures P' m Q :=
  h.weaken hP fun _ _ => id

/-- A fact that is not about the channel may be assumed. -/
theorem of_fact {fact : Prop} (h : fact → Secures P m Q) : Secures (fun c => fact ∧ P c) m Q :=
  ⟨fun c a c' hc hm => (h hc.1).ensures c a c' hc.2 hm, fun hc hm => (h hc.1).overflow hc.2 hm⟩

end Secures

theorem secures_pure {a : α} (h : ∀ c, P c → Q a c) : Secures P (pure a) Q :=
  ⟨ensures_pure h, fun _ h => by cases h⟩

/-- What is read is the channel itself. -/
theorem secures_get_bind {f : Channel → ChannelM α}
    (h : ∀ c₀, P c₀ → Secures (· = c₀) (f c₀) Q) : Secures P (get >>= f) Q :=
  ⟨fun c a c' hc hrun => (h c hc).ensures c a c' rfl hrun,
    fun {c} _ _ hc hrun => (h c hc).overflow rfl hrun⟩

theorem secures_modify {f : Channel → Channel} {Q : PUnit → Channel → Prop}
    (h : ∀ c, P c → Q ⟨⟩ (f c)) : Secures P (modify f) Q := by
  refine ⟨fun c _ c' hc hrun => ?_, fun _ hrun => ?_⟩
  · cases hrun
    exact h c hc
  · cases hrun

theorem secures_ofOption (o : Option α) :
    Secures P (ofOption o) fun a c => o = some a ∧ P c := by
  refine ⟨ensures_ofOption, fun _ h => ?_⟩
  cases o with
  | none =>
    cases h
    rfl
  | some a => cases h

theorem secures_ofExcept {r : Except Failure α} (hr : ∀ e, r = .error e → e = .overflow) :
    Secures P (ofExcept r) fun a c => r = .ok a ∧ P c := by
  refine ⟨ensures_ofExcept, fun _ h => ?_⟩
  cases r with
  | ok a => cases h
  | error e =>
    cases h
    exact hr _ rfl

end MidiScore.ChannelM

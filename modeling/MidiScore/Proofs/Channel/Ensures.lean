import MidiScore.Proofs.Channel.Performable

/-!
# What an operation ensures

`Ensures P m Q` says that `m`, if it succeeds from a channel with `P`, leaves a channel with `Q`;
`Keeps P m` that it keeps `P`. There is a rule for each way in which operations are put together. To
keep a property is `Compositional`, so what strikes, promises and settings keep is kept by
everything that is performed with them.
-/

namespace MidiScore.ChannelM

variable {α β : Type} {P R : Channel → Prop}

theorem bind_eq_ok {m : ChannelM α} {f : α → ChannelM β} {c c' : Channel} {b : β}
    (h : (m >>= f) c = .ok b c') : ∃ a c₁, m c = .ok a c₁ ∧ f a c₁ = .ok b c' := by
  cases hm : m c with
  | ok a c₁ =>
    refine ⟨a, c₁, rfl, ?_⟩
    simpa [Bind.bind, EStateM.bind, hm] using h
  | error e c₁ => simp [Bind.bind, EStateM.bind, hm] at h

theorem bind_of_ok {m : ChannelM α} {f : α → ChannelM β} {c c₁ : Channel} {a : α}
    (h : m c = .ok a c₁) : (m >>= f) c = f a c₁ := by
  simp [Bind.bind, EStateM.bind, h]

theorem bind_of_error {m : ChannelM α} {f : α → ChannelM β} {c c₁ : Channel} {cause : Failure}
    (h : m c = .error cause c₁) : (m >>= f) c = .error cause c₁ := by
  simp [Bind.bind, EStateM.bind, h]

theorem forM_cons_eq_ok {f : α → ChannelM PUnit} {a : α} {rest : List α} {c c' : Channel}
    {u : PUnit} (h : (a :: rest).forM f c = .ok u c') :
    ∃ c₁, f a c = .ok () c₁ ∧ rest.forM f c₁ = .ok () c' := by
  obtain ⟨_, c₁, h₁, h₂⟩ := bind_eq_ok h
  exact ⟨c₁, h₁, h₂⟩

/-- A message that is valid is sent. -/
theorem check_of_valid {msg : Message} (h : msg.validate = .ok ()) (c : Channel) :
    check msg c = .ok () c := by
  unfold check
  rw [h]

theorem check_of_invalid {msg : Message} {cause : ValueError} (h : msg.validate = .error cause)
    (c : Channel) : check msg c = .error (.refused msg cause) c := by
  unfold check
  rw [h]

theorem send_of_valid {msg : Message} (h : msg.validate = .ok ()) (c : Channel) :
    send msg c = .ok () (c.emit msg) :=
  bind_of_ok (check_of_valid h c)

/-- Whether an operation succeeds. -/
def succeeds (m : ChannelM α) (c : Channel) : Bool :=
  match m c with
  | .ok .. => true
  | .error .. => false

theorem eq_ok_of_succeeds {m : ChannelM α} {c : Channel} (h : succeeds m c) :
    ∃ a, m c = .ok a (m.leaves c) := by
  unfold succeeds at h
  unfold leaves
  cases hm : m c with
  | ok a c' => exact ⟨a, rfl⟩
  | error e c' =>
    rw [hm] at h
    cases h

theorem eq_error_of_not_succeeds {m : ChannelM α} {c : Channel} (h : succeeds m c = false) :
    ∃ e, m c = .error e (m.leaves c) := by
  unfold succeeds at h
  unfold leaves
  cases hm : m c with
  | error e c' => exact ⟨e, rfl⟩
  | ok a c' =>
    rw [hm] at h
    cases h

/-- If `m` succeeds from a channel with `P`, its answer and the channel it leaves have `Q`. -/
def Ensures (P : Channel → Prop) (m : ChannelM α) (Q : α → Channel → Prop) : Prop :=
  ∀ c a c', P c → m c = .ok a c' → Q a c'

/-- If `m` succeeds it keeps `P`. -/
abbrev Keeps (P : Channel → Prop) (m : ChannelM α) : Prop :=
  Ensures P m fun _ => P

section Rules

variable {Q : α → Channel → Prop} {S : β → Channel → Prop} {m : ChannelM α}

theorem Ensures.bind {f : α → ChannelM β} (hm : Ensures P m Q) (hf : ∀ a, Ensures (Q a) (f a) S) :
    Ensures P (m >>= f) S := by
  intro c b c' hc h
  obtain ⟨a, c₁, h₁, h₂⟩ := bind_eq_ok h
  exact hf a c₁ b c' (hm c a c₁ hc h₁) h₂

theorem Ensures.weaken {P' : Channel → Prop} {Q' : α → Channel → Prop} (h : Ensures P m Q)
    (hP : ∀ c, P' c → P c) (hQ : ∀ a c, Q a c → Q' a c) : Ensures P' m Q' := by
  intro c a c' hc hm
  exact hQ a c' (h c a c' (hP c hc) hm)

theorem Ensures.of_pre {P' : Channel → Prop} (h : Ensures P m Q) (hP : ∀ c, P' c → P c) :
    Ensures P' m Q :=
  h.weaken hP fun _ _ => id

theorem ensures_pure {a : α} (h : ∀ c, P c → Q a c) : Ensures P (pure a) Q := by
  intro c b c' hc hm
  cases hm
  exact h c hc

theorem ensures_throw (e : Failure) : Ensures P (throw e : ChannelM α) Q := by
  intro c a c' _ h
  cases h

theorem ensures_get : Ensures P get fun a c => a = c ∧ P c := by
  intro c a c' hc h
  cases h
  exact ⟨rfl, hc⟩

/-- Reading the channel first is harmless. -/
theorem Ensures.get_bind {f : Channel → ChannelM α} (h : ∀ c, Ensures P (f c) Q) :
    Ensures P (get >>= f) Q :=
  ensures_get.bind fun c => (h c).of_pre fun _ => And.right

theorem ensures_modify {f : Channel → Channel} {S : Channel → Prop} (h : ∀ c, P c → S (f c)) :
    Ensures P (modify f) fun _ => S := by
  intro c a c' hc hm
  cases hm
  exact h c hc

theorem ensures_set {c : Channel} {S : Channel → Prop} (h : ∀ c₀, P c₀ → S c) :
    Ensures P (set c) fun _ => S := by
  intro c₀ a c' hc hm
  cases hm
  exact h c₀ hc

theorem ensures_ofOption {o : Option α} : Ensures P (ofOption o) fun a c => o = some a ∧ P c := by
  intro c a c' hc h
  cases o with
  | none => cases h
  | some b =>
    cases h
    exact ⟨rfl, hc⟩

theorem ensures_ofExcept {r : Except Failure α} :
    Ensures P (ofExcept r) fun a c => r = .ok a ∧ P c := by
  intro c a c' hc h
  cases r with
  | error e => cases h
  | ok b =>
    cases h
    exact ⟨rfl, hc⟩

theorem keeps_pure (a : α) : Keeps P (pure a) :=
  ensures_pure fun _ => id

theorem keeps_ofOption (o : Option α) : Keeps P (ofOption o) :=
  ensures_ofOption.weaken (fun _ => id) fun _ _ => And.right

theorem keeps_check (msg : Message) : Keeps P (check msg) := by
  intro c a c' hc h
  unfold check at h
  split at h
  · cases h
    exact hc
  · cases h

/-- What is done only under a condition. -/
theorem Keeps.ite_bind {b : Prop} [Decidable b] {m : ChannelM PUnit} {k : PUnit → ChannelM β}
    (hm : Keeps P m) (hk : ∀ u, Ensures P (k u) S) :
    Ensures P (if b then m >>= k else k ⟨⟩) S := by
  by_cases hb : b
  · rw [if_pos hb]
    exact hm.bind hk
  · rw [if_neg hb]
    exact hk _

theorem keeps_forM {f : α → ChannelM PUnit} {l : List α} (h : ∀ a ∈ l, Keeps P (f a)) :
    Keeps P (l.forM f) := by
  induction l with
  | nil => exact keeps_pure _
  | cons a rest ih =>
    refine (h a (by simp)).bind fun _ => ih fun b hb => h b (by simp [hb])

theorem Ensures.of_fact {fact : Prop} (h : fact → Ensures P m Q) :
    Ensures (fun c => fact ∧ P c) m Q :=
  fun c a c' hc => h hc.1 c a c' hc.2

theorem ensures_mapM {f : α → ChannelM β} {W : β → Prop} {l : List α}
    (h : ∀ a ∈ l, Ensures P (f a) fun b c => W b ∧ P c) :
    Ensures P (l.mapM f) fun answers c => (∀ b ∈ answers, W b) ∧ P c := by
  induction l with
  | nil => exact ensures_pure fun c hc => ⟨nofun, hc⟩
  | cons a rest ih =>
    obtain ⟨ha, hrest⟩ := List.forall_mem_cons.1 h
    rw [List.mapM_cons]
    refine ha.bind fun b => .of_fact fun hb => (ih hrest).bind fun answers => ?_
    exact .of_fact fun hanswers => ensures_pure fun c hc =>
      ⟨List.forall_mem_cons.2 ⟨hb, hanswers⟩, hc⟩

end Rules

/-- What the parts of an operation keep, it keeps. -/
theorem compositional_keeps : Compositional (Keeps P) where
  pure := keeps_pure
  throw e := ensures_throw e
  get := ensures_get.weaken (fun _ => id) fun _ _ => And.right
  bind := Ensures.bind
  flush_of_leapTo hleap := by
    intro c t c' hc h
    replace h : Channel.flush c = .ok t c' := h
    fun_induction Channel.flush c with
    | case1 c _ =>
      cases h
      exact hc
    | case2 c last _ t₁ c₁ hrun ih => exact ih (hleap last c t₁ c₁ hc hrun) h
    | case3 => cases h

/-- What is kept where some controllers are left alone is kept by a sound that turns others. -/
theorem SoundableOn.keeps_playSound {N : Nat → Prop} (hP : SoundableOn N (Keeps P)) (s : Sound)
    (beat : Beat) (hknobs : ∀ knob ∈ s.articulation.knobs, N knob.1) :
    Keeps P (playSound s beat) := by
  have hturn : Ensures P (turnKnobs s.articulation.knobs)
      fun restores c => (∀ knob ∈ restores, N knob.1) ∧ P c := by
    refine ensures_mapM fun knob hknob => .get_bind fun c => ?_
    exact (hP.setController _ (hknobs knob hknob)).bind fun _ =>
      ensures_pure fun _ hc => ⟨hknobs knob hknob, hc⟩
  unfold playSound
  split
  · exact keeps_pure _
  · refine .get_bind fun c => hturn.bind fun restores => .of_fact fun hrestores => ?_
    exact (hP.strikePlayable _ _ _).bind fun _ => hP.promiseKnobs _ hrestores

end MidiScore.ChannelM

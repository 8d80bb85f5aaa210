import MidiScore.Proofs.Channel.Timeline
import MidiScore.Proofs.Channel.Told

/-!
# What a listener knows of a channel

A channel remembers its instrument and its bend. On a muted channel they are changed without being
told, so a listener is left with the old ones when the channel sounds again
(`not_heard_eq_remembered`).

Each operation either leaves alone what is heard and what is remembered, or makes them the same on a
channel that sounds, or does on a muted channel what a listener does not hear (`outcome_perform`).
So they agree as long as nothing of the last kind concerns the setting, and they agree again once a
channel that sounds tells it (`heard_eq_remembered`).
-/

namespace MidiScore

/-- Whether an operation that succeeds tells a listener of the setting, unless the channel is
muted. -/
def Operation.tells : Setting → Operation → Bool
  | .program, setInstrument _ | .program, setBank _ => true
  | .bend, setBend _ | .bend, resetBend => true
  | _, replaceTrack _ => true
  | _, _ => false

/-- Whether an operation moves the channel to another track. -/
def Operation.moves (c : Channel) : Operation → Bool
  | replaceTrack track => track.channel = c.number
  | _ => false

namespace Channel

variable {op : Operation} {s : Setting} {c c' : Channel}

/-- What a listener of the track goes by. -/
def heard (c : Channel) (s : Setting) : Option Nat :=
  s.heard c.track.events

theorem heard_eq (h : c.ReachableFresh) (s : Setting) : c.heard s = s.heard c.track.written := by
  unfold heard
  rw [(paced_of_reachableFresh h).events_eq]

/-! ## Every operation -/

/-- What an operation does to what is heard and what is remembered of a setting. -/
inductive Outcome (s : Setting) (op : Operation) (c c' : Channel) : Prop where
  | unchanged (heard : c'.heard s = c.heard s) (remembered : c'.remembered s = c.remembered s)
  | agreed (sounds : c.muted = false) (agrees : c'.heard s = c'.remembered s)
  | missed (muted : c.muted) (heard : c'.heard s = c.heard s)
  /-- On the track to which a muted channel moves, nothing is told. -/
  | moved (muted : c.muted) (moves : op.moves c) (heard : c'.heard s = s.untold)
    (remembered : c'.remembered s = c.remembered s)

theorem outcome_replaceTrack {track : Track} (h : c.ReachableFresh) (hw : track.written = [])
    (s : Setting) :
    Outcome s (.replaceTrack track) c ((Operation.replaceTrack track).perform.leaves c) := by
  have hheard := heard_eq (h.perform (.replaceTrack track) fun t ht => by cases ht; exact hw) s
  have hleaves : (Operation.replaceTrack track).perform.leaves c =
      (ChannelM.replaceTrack track).leaves c := ChannelM.leaves_map ..
  rw [hleaves] at hheard ⊢
  by_cases hn : track.channel = c.number
  · obtain ⟨hnew, hsame⟩ := heard_replaceTrack (sendable_of_reachable h.reachable) hn hw s
    rw [hnew] at hheard
    cases hm : c.muted with
    | true =>
      rw [hm, if_pos rfl] at hheard
      exact .moved hm (by simpa [Operation.moves] using hn) hheard hsame
    | false =>
      rw [hm, if_neg Bool.false_ne_true] at hheard
      exact .agreed hm (hheard.trans hsame.symm)
  · rw [ChannelM.leaves_of_error (ChannelM.replaceTrack_of_ne hn)]
    exact .unchanged rfl rfl

/-- Whatever is done, and whether or not it fails, a setting of a channel that sounds is told when
it changes. -/
theorem outcome_perform (h : c.ReachableFresh) (op : Operation)
    (hfresh : ∀ t, op = .replaceTrack t → t.written = []) (s : Setting) :
    Outcome s op c (op.perform.leaves c) := by
  have hheard := heard_eq h s
  have hheard' := heard_eq (h.perform op hfresh) s
  cases hop : op.resets with
  | false =>
    have htells := tells_perform (consistent_of_reachable h.reachable) hop s
    unfold Tells at htells
    rw [← hheard, ← hheard'] at htells
    rcases htells with ⟨hkept, hsame | hmuted⟩ | ⟨hsounds, hagrees⟩
    · exact .unchanged hkept hsame
    · exact .missed hmuted hkept
    · exact .agreed hsounds hagrees
  | true =>
    cases op with
    | setMuted muted =>
      obtain ⟨hkept, hsame⟩ := heard_setMuted (sendable_of_reachable h.reachable) muted s
      have hleaves : (Operation.setMuted muted).perform.leaves c =
          (ChannelM.setMuted muted).leaves c := ChannelM.leaves_acknowledge ..
      rw [hleaves] at hheard' ⊢
      exact .unchanged (hheard'.trans (hkept.trans hheard.symm)) hsame
    | replaceTrack track => exact outcome_replaceTrack h (hfresh track rfl) s
    | _ => cases hop

/-! ## Settings that are told -/

theorem heard_of_setInstrument {program : Nat} {u : Unit} (hn : c.number ≤ 15)
    (hb : ∀ bank, c.bank = some bank → bank ≤ 127) (hsounds : c.muted = false)
    (h : ChannelM.setInstrument program c = .ok u c') :
    Setting.program.heard c'.track.written = c'.remembered .program := by
  have hp : program ≤ 127 := by
    unfold ChannelM.setInstrument at h
    rw [ChannelM.get_bind] at h
    obtain ⟨_, _, hcheck, -⟩ := ChannelM.bind_eq_ok h
    exact (Message.validate_programChange.1 (ChannelM.eq_of_check hcheck).1).2
  rw [ChannelM.setInstrument_eq hn hp hb] at h
  cases h
  exact heard_of_told hsounds rfl rfl

theorem heard_of_setBank {bank : Nat} {u : Unit} (hn : c.number ≤ 15) (hsounds : c.muted = false)
    (h : ChannelM.setBank bank c = .ok u c') :
    Setting.program.heard c'.track.written = c'.remembered .program := by
  unfold ChannelM.setBank at h
  rw [ChannelM.get_bind] at h
  obtain ⟨_, c₁, hcheck, hrest⟩ := ChannelM.bind_eq_ok h
  obtain ⟨hvalid, rfl⟩ := ChannelM.eq_of_check hcheck
  obtain ⟨_, c₂, hset, hsend⟩ := ChannelM.bind_eq_ok hrest
  cases hset
  refine heard_of_setInstrument (c := { c₁ with bank := some bank }) hn ?_ hsounds hsend
  rintro _ ⟨⟩
  exact (Message.validate_controlChange.1 hvalid).2.2

theorem heard_of_setBend {bend : Nat} {u : Unit} (hsounds : c.muted = false)
    (h : ChannelM.setBend bend c = .ok u c') :
    Setting.bend.heard c'.track.written = c'.remembered .bend := by
  rw [ChannelM.eq_of_setBend h]
  exact heard_of_told (l := []) (m := .pitchBend c.number bend) hsounds rfl rfl

/-- On a channel that sounds, a setting that was told is heard. -/
theorem heard_of_tells {reply : Reply} (h : c.ReachableFresh) (hsounds : c.muted = false)
    (hop : op.tells s) (hfresh : ∀ t, op = .replaceTrack t → t.written = [])
    (hrun : op.perform c = .ok reply c') : c'.heard s = c'.remembered s := by
  have hsend := sendable_of_reachable h.reachable
  have hreach : c'.ReachableFresh := by
    rw [← ChannelM.leaves_of_ok hrun]
    exact h.perform op hfresh
  have hack : ∀ {m : ChannelM Unit}, acknowledge m c = .ok reply c' → m c = .ok () c' := by
    intro m hm
    obtain ⟨_, c₁, hm, hpure⟩ := ChannelM.bind_eq_ok hm
    cases hpure
    exact hm
  rw [heard_eq hreach]
  cases op with
  | setInstrument program =>
    cases s with
    | program => exact heard_of_setInstrument hsend.number_le hsend.bank_le hsounds (hack hrun)
    | bend => cases hop
  | setBank bank =>
    cases s with
    | program => exact heard_of_setBank hsend.number_le hsounds (hack hrun)
    | bend => cases hop
  | setBend bend =>
    cases s with
    | program => cases hop
    | bend => exact heard_of_setBend hsounds (hack hrun)
  | resetBend =>
    cases s with
    | program => cases hop
    | bend => exact heard_of_setBend hsounds (hack hrun)
  | replaceTrack track =>
    obtain ⟨t, c₁, hreplace, hpure⟩ := ChannelM.bind_eq_ok hrun
    cases hpure
    by_cases hn : track.channel = c.number
    · obtain ⟨hnew, hsame⟩ := heard_replaceTrack hsend hn (hfresh track rfl) s
      rw [ChannelM.leaves_of_ok hreplace, hsounds, if_neg Bool.false_ne_true] at hnew
      rw [ChannelM.leaves_of_ok hreplace] at hsame
      exact hnew.trans hsame.symm
    · rw [ChannelM.replaceTrack_of_ne hn] at hreplace
      cases hreplace
  | _ => cases s <;> cases hop

/-! ## Runs -/

/-- If the channel is muted, the operation does not change the setting, nor does it move the channel
to another track unless the setting is what a listener goes by who was told none. -/
def Spares (s : Setting) (op : Operation) (c : Channel) : Prop :=
  c.muted → (op.perform.leaves c).remembered s = c.remembered s ∧
    (op.moves c → c.remembered s = s.untold)

/-- Each operation spares the setting when it is performed. -/
def SparedBy (s : Setting) : List Operation → Channel → Prop
  | [], _ => True
  | op :: ops, c => Spares s op c ∧ SparedBy s ops (op.perform.leaves c)

instance : Decidable (Spares s op c) :=
  inferInstanceAs (Decidable (c.muted → (op.perform.leaves c).remembered s = c.remembered s ∧
    (op.moves c → c.remembered s = s.untold)))

instance decidableSparedBy : ∀ (ops : List Operation) (c : Channel), Decidable (SparedBy s ops c)
  | [], _ => .isTrue trivial
  | _ :: ops, _ => @instDecidableAnd _ _ inferInstance (decidableSparedBy ops _)

theorem Outcome.agrees (h : Outcome s op c (op.perform.leaves c)) (hspares : Spares s op c)
    (hc : c.heard s = c.remembered s) :
    (op.perform.leaves c).heard s = (op.perform.leaves c).remembered s := by
  cases h with
  | unchanged hheard hsame => rw [hheard, hsame, hc]
  | agreed sounds hagrees => exact hagrees
  | missed hmuted hheard => rw [hheard, (hspares hmuted).1, hc]
  | moved hmuted hmoves hheard hsame => rw [hheard, hsame, (hspares hmuted).2 hmoves]

theorem heard_performAll {ops : List Operation} (h : c.ReachableFresh)
    (hfresh : ∀ t, .replaceTrack t ∈ ops → t.written = []) (hspared : SparedBy s ops c)
    (hc : c.heard s = c.remembered s) :
    (c.performAll ops).heard s = (c.performAll ops).remembered s := by
  induction ops generalizing c with
  | nil => exact hc
  | cons op rest ih =>
    obtain ⟨hspares, hrest⟩ := hspared
    have hop : ∀ t, op = .replaceTrack t → t.written = [] := by
      rintro t rfl
      exact hfresh t List.mem_cons_self
    refine ih (h.perform op hop) (fun t ht => hfresh t (List.mem_cons_of_mem op ht)) hrest ?_
    exact (outcome_perform h op hop s).agrees hspares hc

/-- A listener goes by what the channel remembers, muted or not, in every run on fresh tracks in
which each operation that is performed on the muted channel spares the setting. Whatever was done
before, they agree again once a channel that sounds tells the setting or changes it, and for as long
as the setting is spared then. What is done to a muted channel, but for replacing its track, parts
them only if it changes the setting. -/
theorem heard_eq_remembered (s : Setting) :
    (∀ (track : Track) percussion timing c₀ (ops : List Operation), track.written = [] →
      (∀ t, .replaceTrack t ∈ ops → t.written = []) →
      onTrack track percussion timing = .ok c₀ → SparedBy s ops c₀ →
        (c₀.performAll ops).heard s = (c₀.performAll ops).remembered s) ∧
    (∀ (c : Channel) (op : Operation) (ops : List Operation), c.ReachableFresh →
      (∀ t, .replaceTrack t ∈ op :: ops → t.written = []) → c.muted = false →
      ((op.tells s ∧ ∃ reply c', op.perform c = .ok reply c') ∨
        (op.perform.leaves c).remembered s ≠ c.remembered s) →
      SparedBy s ops (op.perform.leaves c) →
        (c.performAll (op :: ops)).heard s = (c.performAll (op :: ops)).remembered s) ∧
    (∀ (c : Channel) (op : Operation), c.ReachableFresh → c.muted →
      (∀ t, op ≠ .replaceTrack t) → c.heard s = c.remembered s →
        ((op.perform.leaves c).heard s = (op.perform.leaves c).remembered s ↔
          (op.perform.leaves c).remembered s = c.remembered s)) := by
  refine ⟨fun track percussion timing c₀ ops hw hfresh hc₀ hspared => ?_,
    fun c op ops h hfresh hsounds htold hspared => ?_, fun c op h hmuted hop hc => ?_⟩
  · have h : c₀.ReachableFresh := ⟨track, percussion, timing, c₀, [], hw, nofun, hc₀, rfl⟩
    refine heard_performAll h hfresh hspared ?_
    obtain ⟨-, rfl⟩ := eq_of_onTrack hc₀
    rw [heard_eq h, hw]
    cases s <;> rfl
  · have hop : ∀ t, op = .replaceTrack t → t.written = [] := by
      rintro t rfl
      exact hfresh t List.mem_cons_self
    have hagrees : (op.perform.leaves c).heard s = (op.perform.leaves c).remembered s := by
      rcases htold with ⟨htells, reply, c', hrun⟩ | hchanged
      · rw [ChannelM.leaves_of_ok hrun]
        exact heard_of_tells h hsounds htells hop hrun
      · cases outcome_perform h op hop s with
        | unchanged hheard hsame => exact absurd hsame hchanged
        | agreed sounds hagrees => exact hagrees
        | missed hmuted | moved hmuted =>
          rw [hsounds] at hmuted
          cases hmuted
    have hrest : ∀ t, .replaceTrack t ∈ ops → t.written = [] :=
      fun t ht => hfresh t (List.mem_cons_of_mem op ht)
    have hall := heard_performAll (h.perform op hop) hrest hspared hagrees
    exact hall
  · have hkept : (op.perform.leaves c).heard s = c.heard s := by
      cases outcome_perform h op (fun t ht => absurd ht (hop t)) s with
      | unchanged hheard => exact hheard
      | agreed hsounds =>
        rw [hsounds] at hmuted
        cases hmuted
      | missed _ hheard => exact hheard
      | moved _ hmoves =>
        cases op with
        | replaceTrack t => exact absurd rfl (hop t)
        | _ => cases hmoves
    rw [hkept, hc]
    exact eq_comm

/-- An instrument that is set while the channel is muted. -/
def misheardRun : List Operation :=
  [.setMuted true, .setInstrument 5, .setMuted false]

/-- The channel after `misheardRun`. -/
def misheard : Channel :=
  ({ track := { channel := 0 } } : Channel).performAll misheardRun

theorem reachableFresh_misheard : misheard.ReachableFresh := by
  refine ⟨{ channel := 0 }, false, .standard, _, misheardRun, rfl, fun t ht => ?_, rfl, rfl⟩
  simp [misheardRun] at ht

/-- The channel sounds again, but its listener was never told the instrument. -/
theorem not_heard_eq_remembered :
    misheard.ReachableFresh ∧ misheard.muted = false ∧ misheard.instrument = some 5 ∧
      misheard.track.events.filterMap (fun e => Setting.program.told? e.message) = [] ∧
      misheard.heard .program ≠ misheard.remembered .program := by
  have hevents := (paced_of_reachableFresh reachableFresh_misheard).events_eq
  refine ⟨reachableFresh_misheard, by decide +kernel, by decide +kernel, ?_, ?_⟩
  · rw [hevents]
    decide +kernel
  · rw [heard_eq reachableFresh_misheard]
    decide +kernel

/-- An instrument that is set before the channel is muted, a bend that is promised for when it is,
and a replacement when it sounds again. -/
def sparingRun : List Operation :=
  [.setInstrument 40, .later 10 (.bend 9000), .setMuted true, .advance 20, .playNote .c 0 480 96,
   .setMuted false, .replaceTrack { channel := 0 }, .setMuted true, .setInstrument 40]

/-- The channel after `sparingRun`. It is muted. -/
def sparing : Channel :=
  ({ track := { channel := 0 } } : Channel).performAll sparingRun

theorem written_of_mem_sparingRun {t : Track} (h : .replaceTrack t ∈ sparingRun) :
    t.written = [] := by
  obtain rfl : t = { channel := 0 } := by simpa [sparingRun] using h
  rfl

theorem heard_eq_remembered_sparing :
    SparedBy .program sparingRun { track := { channel := 0 } } ∧
      sparing.heard .program = sparing.remembered .program ∧
      misheard.ReachableFresh ∧ misheard.muted = false ∧
      (misheard.performAll [.replaceTrack { channel := 0 }, .setMuted true]).heard .program =
        (misheard.performAll [.replaceTrack { channel := 0 }, .setMuted true]).remembered
          .program ∧
      sparing.ReachableFresh ∧ sparing.muted ∧
      (((Operation.setInstrument 41).perform.leaves sparing).heard .program =
          ((Operation.setInstrument 41).perform.leaves sparing).remembered .program ↔
        ((Operation.setInstrument 41).perform.leaves sparing).remembered .program =
          sparing.remembered .program) := by
  obtain ⟨hrun, htold, hparts⟩ := heard_eq_remembered .program
  have hspared : SparedBy .program sparingRun { track := { channel := 0 } } := by decide +kernel
  have hagrees : sparing.heard .program = sparing.remembered .program :=
    hrun { channel := 0 } false .standard _ sparingRun rfl (fun _ => written_of_mem_sparingRun) rfl
      hspared
  have hsparing : sparing.ReachableFresh :=
    ⟨{ channel := 0 }, false, .standard, _, sparingRun, rfl, fun _ => written_of_mem_sparingRun,
      rfl, rfl⟩
  have hmuted : sparing.muted := by decide +kernel
  have hsounds : misheard.muted = false := by decide +kernel
  have hfresh : ∀ t, .replaceTrack t ∈ [.replaceTrack { channel := 0 }, Operation.setMuted true] →
      t.written = [] := by
    intro t ht
    obtain rfl : t = { channel := 0 } := by simpa using ht
    rfl
  obtain ⟨reply, hreplace⟩ := ChannelM.eq_ok_of_succeeds
    (m := (Operation.replaceTrack { channel := 0 }).perform) (c := misheard) (by decide +kernel)
  have hafter := htold misheard _ [.setMuted true] reachableFresh_misheard hfresh hsounds
    (.inl ⟨rfl, reply, _, hreplace⟩) (by decide +kernel)
  exact ⟨hspared, hagrees, reachableFresh_misheard, hsounds, hafter, hsparing, hmuted,
    hparts sparing (.setInstrument 41) hsparing hmuted nofun hagrees⟩

end Channel

end MidiScore

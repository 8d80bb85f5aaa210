import MidiScore.Proofs.Channel.Alignment
import MidiScore.Proofs.Composition.Meetings

/-!
# Where passes start

A worker begins each pass through its block by following the directive of the block, in the timing
of the compile (`Ensemble.Attended`). So each pass, of however many, starts on the least tick that
the directive allows from the end of the last one on.
-/

namespace MidiScore

open Channel ChannelM

/-- No operation changes the timing. -/
theorem Channel.Change.timing_eq {op : Operation} {c c' : Channel} (h : Change op c c') :
    c'.timing = c.timing := by
  cases h <;> rfl

theorem ChannelM.timing_of_perform {op : Operation} {reply : Reply} {c c' : Channel}
    (h : op.perform c = .ok reply c') : c'.timing = c.timing := by
  rw [← leaves_of_ok h]
  exact (changes_perform op c).preserve (P := (·.timing = c.timing))
    (fun hchange hc => hchange.timing_eq.trans hc) rfl

/-- Nor does what an operation does without its reply. -/
theorem ChannelM.timing_of_map {α : Type} (op : Operation) {m : ChannelM α} {f : α → Reply}
    (hop : op.perform = f <$> m) {a : α} {c c' : Channel} (h : m c = .ok a c') :
    c'.timing = c.timing := by
  have hperform : op.perform c = .ok (f a) c' := by
    rw [hop]
    exact bind_of_ok h
  exact timing_of_perform hperform

theorem Block.timing_of_enter {b : Block} {c c' : Channel} (h : b.enter c = .ok ⟨⟩ c') :
    c'.timing = c.timing := by
  unfold enter at h
  cases hd : b.directive with
  | none =>
    rw [hd] at h
    cases h
    rfl
  | some d =>
    rw [hd] at h
    obtain ⟨t, c₁, hfollow, hpure⟩ := bind_eq_ok h
    cases hpure
    exact timing_of_map (.follow d) rfl hfollow

namespace Ensemble

variable {e e' e₀ : Ensemble} {i : Nat} {w w' : Worker} {blocks : List Block} {timing : Timing}

/-- A worker that has not failed plays its block in the timing of the compile. -/
def Attended (blocks : List Block) (timing : Timing) (e : Ensemble) : Prop :=
  ∀ (i : Nat) (w : Worker), e.workers[i]? = some w → ¬w.HasFailed →
    blocks[i]? = some w.block ∧ w.channel.timing = timing

theorem Attended.of_set (h : Attended blocks timing e) (hi : e.workers[i]? = some w)
    (workers : e'.workers = e.workers.set i w') (active : ¬w.HasFailed)
    (block : w'.block = w.block) (same : w'.channel.timing = w.channel.timing) :
    Attended blocks timing e' := by
  intro j v hj hv
  rw [workers] at hj
  rcases getElem?_set_cases hj with ⟨rfl, rfl⟩ | ⟨-, hj⟩
  · rw [block, same]
    exact h j w hi active
  · exact h j v hj hv

theorem Attended.move {arrival : Option (Nat × Nat)} (h : Attended blocks timing e)
    (hi : e.workers[i]? = some w) (hm : Move e i w arrival e') : Attended blocks timing e' := by
  cases hm with
  | beginPass ready done passes entered =>
    exact h.of_set hi rfl (Worker.not_hasFailed_of_ready ready) rfl (Block.timing_of_enter entered)
  | finish ready done passes flushed submitted =>
    exact h.of_set hi rfl (Worker.not_hasFailed_of_ready ready) rfl
      (timing_of_map .flush rfl flushed)
  | operate ready todo operation performed =>
    exact h.of_set hi rfl (Worker.not_hasFailed_of_ready ready) rfl (timing_of_perform performed)
  | pass ready | wait ready =>
    exact h.of_set hi rfl (Worker.not_hasFailed_of_ready ready) rfl rfl
  | @release _ _ _ joinTime _ _ _ _ ready todo meet found arrival leapt =>
    exact h.of_set hi rfl (Worker.not_hasFailed_of_ready ready) rfl
      (timing_of_map (.leapTo joinTime) rfl leapt)
  | @wake _ _ _ _ joinTime _ _ _ waiting todo found woken leapt =>
    exact h.of_set hi rfl (Worker.not_hasFailed_of_waiting waiting) rfl
      (timing_of_map (.leapTo joinTime) rfl leapt)
  | fail _ failed =>
    intro j v hj hv
    rcases getElem?_set_cases hj with ⟨rfl, rfl⟩ | ⟨-, hj⟩
    · exact absurd failed hv
    · exact h j v hj hv

theorem Attended.steps (h : Attended blocks timing e₀) (steps : Steps e₀ e) :
    Attended blocks timing e := by
  induction steps with
  | refl => exact h
  | tail _ step ih =>
    obtain ⟨i, hi⟩ := step
    obtain ⟨w, hw, hm⟩ := move_of_step? hi
    exact ih.move hw hm

/-- Only at the start of a pass is there one pass less to begin, and then the worker has entered its
block. -/
theorem of_passesLeft_ne (hstep : e.step? i = some e') (hi : e.workers[i]? = some w)
    (hi' : e'.workers[i]? = some w') (begun : w'.passesLeft ≠ w.passesLeft)
    (unfailed : ¬w'.HasFailed) :
    w.phase = .ready ∧ w.todo = [] ∧ w'.todo = w.block.statements ∧
      w.passesLeft = w'.passesLeft + 1 ∧ w.block.enter w.channel = .ok ⟨⟩ w'.channel := by
  have hlt := (List.getElem?_eq_some_iff.1 hi).1
  obtain ⟨v, hv, hm⟩ := move_of_step? hstep
  obtain rfl : w = v := Option.some.inj (hi.symm.trans hv)
  have hset : ∀ v, e'.workers = e.workers.set i v → w' = v := by
    intro v he
    rw [he, List.getElem?_set_self hlt] at hi'
    exact (Option.some.inj hi').symm
  generalize e.arrival? i = arrival at hm
  cases hm with
  | beginPass ready done passes entered =>
    cases hset _ rfl
    exact ⟨ready, done, rfl, passes, entered⟩
  | fail _ failed =>
    cases hset _ rfl
    exact absurd failed unfailed
  | _ =>
    cases hset _ rfl
    exact absurd rfl begun

end Ensemble

/-- The worker `w` of block `b` has become `w'` by beginning a pass: the one before is done, and
unless the block has no directive, the pass starts on the least tick that it allows, with nothing
due any more. -/
structure Worker.Begins (timing : Timing) (b : Block) (w w' : Worker) : Prop where
  done : w.todo = []
  todo : w'.todo = b.statements
  passes : w.passesLeft = w'.passesLeft + 1
  start : ∀ d, b.directive = some d →
    IsLeast {tick | w.channel.clock ≤ tick ∧ d.Allows timing tick} w'.channel.clock
  settled : ∀ d, b.directive = some d → ∀ p ∈ w'.channel.pending.toList, w'.channel.clock < p.1

namespace Composition

open Ensemble (Steps)

theorem attended_ensemble {c : Composition} {timing : Timing} {e : Ensemble}
    (start : c.ensemble timing = .ok e) : e.Attended c.blocks timing := by
  intro i w hi _
  obtain ⟨b, number, hb, -, rfl⟩ := exists_block_of_ensemble start hi
  exact ⟨hb, rfl⟩

/-- In every run each pass begins where the directive of its block allows it. -/
theorem begins_of_steps {c : Composition} {timing : Timing} {e₀ e e' : Ensemble} {i : Nat}
    {w w' : Worker} (start : c.ensemble timing = .ok e₀) (steps : Steps e₀ e)
    (hstep : e.step? i = some e') (hi : e.workers[i]? = some w) (hi' : e'.workers[i]? = some w')
    (begun : w'.passesLeft ≠ w.passesLeft) (unfailed : ¬w'.HasFailed) :
    ∃ b, c.blocks[i]? = some b ∧ w.Begins timing b w' := by
  obtain ⟨ready, done, todo, passes, entered⟩ :=
    Ensemble.of_passesLeft_ne hstep hi hi' begun unfailed
  obtain ⟨hblock, htiming⟩ := (attended_ensemble start).steps steps i w hi
    (Worker.not_hasFailed_of_ready ready)
  have hfollow : ∀ d, w.block.directive = some d → ∃ t, follow d w.channel = .ok t w'.channel := by
    intro d hd
    unfold Block.enter at entered
    rw [hd] at entered
    obtain ⟨t, c₁, hfollow, hpure⟩ := bind_eq_ok entered
    cases hpure
    exact ⟨t, hfollow⟩
  refine ⟨w.block, hblock, done, todo, passes, fun d hd => ?_, fun d hd => ?_⟩
  · obtain ⟨t, hfollow⟩ := hfollow d hd
    obtain ⟨haligned, hclock, -⟩ := of_follow hfollow
    rw [hclock, ← htiming]
    exact Directive.isLeast_of_alignedTick? haligned
  · obtain ⟨t, hfollow⟩ := hfollow d hd
    obtain ⟨-, hclock, hlater, -⟩ := of_follow hfollow
    rw [hclock]
    exact hlater

/-- **Directives lead to the least common tick.** The tick to which a directive leads is the least
one from now on that is a multiple of its grid and of its alignment. There is none only if that
tick, or the least common multiple of the two, outgrows a word of 64 bits; the multiple is worked
out by Euclid's algorithm, and no other number on the way to it can outgrow one. The tick never
falls as the clock goes on, and a tick to which a directive leads is led to itself. If no action
fails, a channel that follows a directive has served all that is due by that tick, where following
it again does nothing; and each pass of a block with a directive starts on the least tick that it
allows. -/
theorem starts_on_grid :
    (∀ (d : Directive) (timing : Timing) (now : Nat), now < 1 <<< 64 → ∃ grid tick,
      IsLeast {tick | 0 < tick ∧ d.Allows timing tick} grid ∧
      IsLeast {tick | now ≤ tick ∧ d.Allows timing tick} tick ∧
      d.alignedTick? now timing =
        if grid < 1 <<< 64 ∧ tick < 1 <<< 64 then some tick else none) ∧
    (∀ a b : Nat, Directive.commonGrid? a b =
      if a = 0 then some b else if b = 0 then some a
      else Bounded.nat? 64 (a / Directive.euclid a b * b)) ∧
    (∀ (d : Directive) (timing : Timing) (now now' tick' : Nat), now ≤ now' →
      d.alignedTick? now' timing = some tick' →
        ∃ tick ≤ tick', d.alignedTick? now timing = some tick) ∧
    (∀ (d : Directive) (timing : Timing) (now tick : Nat),
      d.alignedTick? now timing = some tick → d.alignedTick? tick timing = some tick) ∧
    (∀ (d : Directive) (c : Channel), c.Reachable → c.clock < 1 <<< 64 →
      (d.alignedTick? c.clock c.timing = none → follow d c = .error .overflow c) ∧
      ∀ tick, d.alignedTick? c.clock c.timing = some tick →
        match serve tick c c.pending.toList with
        | .ok (turns, c') =>
          follow d c = .ok tick c' ∧ c'.clock = tick ∧
            Complete tick c.pending.toList turns c'.pending ∧
            (∀ p ∈ c'.pending.toList, tick < p.1) ∧ follow d c' = .ok tick c'
        | .error cause => ∃ c', follow d c = .error cause c') ∧
    (∀ (c : Composition) (timing : Timing) (e₀ e e' : Ensemble) (i : Nat) (w w' : Worker),
      c.ensemble timing = .ok e₀ → Steps e₀ e → e.step? i = some e' →
      e.workers[i]? = some w → e'.workers[i]? = some w' →
      w'.passesLeft ≠ w.passesLeft → ¬w'.HasFailed →
        ∃ b, c.blocks[i]? = some b ∧ w.Begins timing b w') := by
  refine ⟨fun d timing now hnow => ?_, Directive.commonGrid?_eq_euclid,
    fun d timing now now' tick' hle h => Directive.exists_le_of_alignedTick? hle h,
    fun d timing now tick h => Directive.alignedTick?_idem h, fun d c hc hnow => ?_,
    fun c timing e₀ e e' i w w' start steps hstep hi hi' begun unfailed =>
    begins_of_steps start steps hstep hi hi' begun unfailed⟩
  · refine ⟨_, _, d.isLeast_grid timing, d.isLeast_aligned timing now, ?_⟩
    rw [Directive.alignedTick?_eq hnow]
    have hgrid : max 1 (d.grid timing) < 1 <<< 64 ↔ d.grid timing < 1 <<< 64 := by
      rw [Nat.max_lt, and_iff_right (by decide)]
    simp only [hgrid]
  · refine ⟨follow_of_none, fun tick haligned => ?_⟩
    have hserve := follow_eq_serve (consistent_of_reachable hc) hnow haligned
    cases hturns : serve tick c c.pending.toList with
    | error cause =>
      rw [hturns] at hserve
      exact hserve
    | ok r =>
      obtain ⟨turns, c'⟩ := r
      rw [hturns] at hserve
      obtain ⟨hfollow, hcomplete⟩ := hserve
      obtain ⟨-, hclock, hlater, hagain⟩ := of_follow hfollow
      exact ⟨hfollow, hclock, hcomplete, hlater, hagain⟩

/-- Triplets of quarters that start on beats: grids of 640 and of 960 ticks. -/
def triplets : Directive where
  quantize := some ⟨2 / 3, false⟩
  align := .beat
  passes := some 2

/-- A chord that is strummed from tick 700 on. -/
def strumming : Channel :=
  ({ track := { channel := 0 } } : Channel).performAll
    [.advance 700, .playSound ⟨.chord ⟨[.c, .e, .g]⟩, .gliscando⟩ .quarter]

/-- A note that is played twice. -/
def refrain : Composition where
  blocks := [{
    name := "riff"
    directive := some triplets
    statements := [⟨⟨1, 1⟩, .playPhrase {
      melody := ⟨[⟨.pitch .c, .plain⟩]⟩
      rhythm := ⟨[.quarter]⟩ }⟩] }]

theorem starts_on_grid_refrain :
    (∃ grid tick, IsLeast {tick | 0 < tick ∧ triplets.Allows .standard tick} grid ∧
      IsLeast {tick | 700 ≤ tick ∧ triplets.Allows .standard tick} tick ∧
      triplets.alignedTick? 700 .standard =
        if grid < 1 <<< 64 ∧ tick < 1 <<< 64 then some tick else none) ∧
    Directive.commonGrid? 640 960 = Bounded.nat? 64 (640 / Directive.euclid 640 960 * 960) ∧
    (∃ tick ≤ 1920, triplets.alignedTick? 640 .standard = some tick) ∧
    triplets.alignedTick? 1920 .standard = some 1920 ∧
    (∃ c', follow triplets strumming = .ok 1920 c' ∧ c'.clock = 1920 ∧
      follow triplets c' = .ok 1920 c') ∧
    ∃ (e e' : Ensemble) (w w' : Worker) (b : Block), e.step? 0 = some e' ∧
      e.workers[0]? = some w ∧ e'.workers[0]? = some w' ∧ refrain.blocks[0]? = some b ∧
      w.channel.clock = 960 ∧ w'.channel.clock = 1920 ∧ w.Begins .standard b w' := by
  obtain ⟨hleast, heuclid, hmono, hidem, hfollow, hpasses⟩ := starts_on_grid
  have haligned : triplets.alignedTick? 700 .standard = some 1920 := by decide +kernel
  refine ⟨hleast triplets .standard 700 (by decide), ?_, ?_, ?_, ?_, ?_⟩
  · rw [heuclid, if_neg (by decide), if_neg (by decide)]
  · exact hmono triplets .standard 640 700 1920 (by omega) haligned
  · exact hidem triplets .standard 700 1920 haligned
  · have hreach : strumming.Reachable := ⟨{ channel := 0 }, false, .standard, _, _, rfl, rfl⟩
    have htick : triplets.alignedTick? strumming.clock strumming.timing = some 1920 := by
      decide +kernel
    have hserve := (hfollow triplets strumming hreach (by decide +kernel)).2 1920 htick
    have hok : (serve 1920 strumming strumming.pending.toList).isOk := by decide +kernel
    cases hturns : serve 1920 strumming strumming.pending.toList with
    | ok r =>
      rw [hturns] at hserve
      obtain ⟨hfollowed, hclock, -, -, hagain⟩ := hserve
      exact ⟨r.2, hfollowed, hclock, hagain⟩
    | error cause =>
      rw [hturns] at hok
      cases hok
  · have hrun : (refrain.ensemble .standard).toOption.bind (fun e₀ => do
        let e := e₀.takeTurns [0, 0]
        let e' ← e.step? 0
        let w ← e.workers[0]?
        let w' ← e'.workers[0]?
        some (w.channel.clock, w'.channel.clock, w.passesLeft, w'.passesLeft, w'.failure?)) =
          some (960, 1920, 1, 0, none) := by
      decide +kernel
    cases start : refrain.ensemble .standard with
    | error cause =>
      rw [start] at hrun
      cases hrun
    | ok e₀ =>
      rw [start] at hrun
      obtain ⟨_, ⟨⟩, hrun⟩ := Option.bind_eq_some_iff.1 hrun
      obtain ⟨e', hstep, hrun⟩ := Option.bind_eq_some_iff.1 hrun
      obtain ⟨w, hi, hrun⟩ := Option.bind_eq_some_iff.1 hrun
      obtain ⟨w', hi', hrun⟩ := Option.bind_eq_some_iff.1 hrun
      replace hrun := Option.some.inj hrun
      simp only [Prod.mk.injEq] at hrun
      obtain ⟨hclock, hclock', hleft, hleft', hfailure⟩ := hrun
      have unfailed : ¬w'.HasFailed := by
        rintro ⟨cause, hfailed⟩
        unfold Worker.failure? at hfailure
        rw [hfailed] at hfailure
        cases hfailure
      obtain ⟨b, hb, hbegins⟩ := hpasses refrain .standard e₀ (e₀.takeTurns [0, 0]) e' 0 w w' start
        (e₀.steps_takeTurns _) hstep hi hi' (by omega) unfailed
      exact ⟨_, e', w, w', b, hstep, hi, hi', hb, hclock, hclock', hbegins⟩

end Composition

end MidiScore

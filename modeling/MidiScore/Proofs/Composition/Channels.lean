import MidiScore.Proofs.Composition.Schedule

/-!
# The channels of blocks

Channels are handed out before any block is played: a block gets the channel whose place in the
supply of its kind is the number of the blocks of that kind before it (`Composition.Left`,
`Composition.number_of_enlist`). If the supply does not reach, the first block that finds none is
named and nothing is played (`Composition.surplus_of_enlist`). Otherwise no run can fail for want of
a channel, whatever order its steps have (`Worker.IsSeated`), and a complete one leaves a track for
each block on the channel of the block (`Composition.Assigned`).
-/

namespace MidiScore

namespace ChannelPool

/-- The channels for percussion blocks or melodic ones, in the order in which they are handed
out. -/
def supply : Bool → List Nat
  | true => [9]
  | false => [0, 1, 2, 3, 4, 5, 6, 7, 8, 10, 11, 12, 13, 14, 15]

/-- The channels of a kind that are still free. -/
def free (pool : ChannelPool) : Bool → List Nat
  | true => pool.percussion
  | false => pool.melodic

variable {pool pool' : ChannelPool} {percussion : Bool} {n : Nat}

theorem free_full (percussion : Bool) : ({} : ChannelPool).free percussion = supply percussion := by
  cases percussion <;> decide

theorem take?_eq_none_iff : pool.take? percussion = none ↔ pool.free percussion = [] := by
  cases percussion with
  | true => cases h : pool.percussion <;> simp [take?, free, h]
  | false => cases h : pool.melodic <;> simp [take?, free, h]

/-- The first free channel of the kind is taken, and the other kind keeps all of its own. -/
theorem free_of_take? (h : pool.take? percussion = some (n, pool')) :
    pool.free percussion = n :: pool'.free percussion ∧
      pool'.free (!percussion) = pool.free (!percussion) := by
  cases percussion with
  | true =>
    cases hfree : pool.percussion with
    | nil => simp [take?, hfree] at h
    | cons first rest =>
      simp only [take?, hfree, ↓reduceIte, Option.some.injEq, Prod.mk.injEq] at h
      obtain ⟨rfl, rfl⟩ := h
      exact ⟨hfree, rfl⟩
  | false =>
    cases hfree : pool.melodic with
    | nil => simp [take?, hfree] at h
    | cons first rest =>
      simp only [take?, hfree, Bool.false_eq_true, ↓reduceIte, Option.some.injEq,
        Prod.mk.injEq] at h
      obtain ⟨rfl, rfl⟩ := h
      exact ⟨hfree, rfl⟩

/-- No channel is supplied twice. -/
theorem nodup_supply (percussion : Bool) : (supply percussion).Nodup := by
  cases percussion <;> decide

theorem disjoint_supply : ∀ n ∈ supply true, n ∉ supply false := by
  decide

end ChannelPool

open ChannelPool (supply)

namespace Composition

/-! ## Handing out -/

section Supply

variable {blocks before rest : List Block} {pool pool' : ChannelPool} {b : Block} {i n : Nat}
  {percussion : Bool}

/-- How many of the blocks are of a kind. -/
def countOf (percussion : Bool) (blocks : List Block) : Nat :=
  blocks.countP (·.percussion = percussion)

/-- Block `i`, which is `b`, is the first for which no channel of its kind is left. -/
structure Surplus (blocks : List Block) (i : Nat) (b : Block) : Prop where
  found : blocks[i]? = some b
  exhausted : countOf b.percussion (blocks.take i) = (supply b.percussion).length
  first : ∀ j < i, ∀ b', blocks[j]? = some b' →
    countOf b'.percussion (blocks.take j) < (supply b'.percussion).length

/-- What a pool has left behind some blocks. -/
structure Left (before : List Block) (pool : ChannelPool) : Prop where
  free : ∀ percussion, pool.free percussion = (supply percussion).drop (countOf percussion before)
  within : ∀ percussion, countOf percussion before ≤ (supply percussion).length

theorem left_full : Left [] {} :=
  ⟨ChannelPool.free_full, fun _ => Nat.zero_le _⟩

@[simp]
theorem countOf_concat (percussion : Bool) (before : List Block) (b : Block) :
    countOf percussion (before ++ [b]) =
      countOf percussion before + if b.percussion = percussion then 1 else 0 := by
  simp [countOf, List.countP_append, List.countP_cons]

/-- A channel is at hand exactly if there are fewer blocks of the kind than the supply has
channels. -/
theorem Left.exhausted (h : Left before pool) (htake : pool.take? percussion = none) :
    countOf percussion before = (supply percussion).length := by
  rw [ChannelPool.take?_eq_none_iff, h.free, List.drop_eq_nil_iff] at htake
  exact Nat.le_antisymm (h.within percussion) htake

theorem Left.take? (h : Left before pool) (htake : pool.take? b.percussion = some (n, pool')) :
    (supply b.percussion)[countOf b.percussion before]? = some n ∧ Left (before ++ [b]) pool' := by
  obtain ⟨hsame, hother⟩ := ChannelPool.free_of_take? htake
  rw [h.free] at hsame
  have hget : (supply b.percussion)[countOf b.percussion before]? = some n := by
    rw [← List.head?_drop, hsame]
    rfl
  have hlt := (List.getElem?_eq_some_iff.1 hget).1
  -- the blocks of the kind are one more, and those of the other kind are as many as before
  have hkinds : ∀ percussion, percussion = b.percussion ∨ percussion = !b.percussion := by
    intro percussion
    cases percussion <;> cases b.percussion <;> simp
  refine ⟨hget, fun percussion => ?_, fun percussion => ?_⟩
  · rw [countOf_concat]
    rcases hkinds percussion with rfl | rfl
    · rw [if_pos rfl, ← List.drop_drop, hsame]
      rfl
    · rw [if_neg (by simp), hother, h.free, Nat.add_zero]
  · rw [countOf_concat]
    rcases hkinds percussion with rfl | rfl
    · rw [if_pos rfl]
      exact hlt
    · rw [if_neg (by simp)]
      exact h.within _

theorem countOf_take_lt (h : blocks[i]? = some b) :
    countOf b.percussion (blocks.take i) < countOf b.percussion (blocks.take (i + 1)) := by
  rw [List.take_add_one, h]
  simp

theorem countOf_take_le (percussion : Bool) {i j : Nat} (h : i ≤ j) :
    countOf percussion (blocks.take i) ≤ countOf percussion (blocks.take j) :=
  (List.take_sublist_take_left h).countP_le

theorem Surplus.lt_countOf (h : Surplus blocks i b) :
    (supply b.percussion).length < countOf b.percussion blocks := by
  rw [← h.exhausted]
  exact Nat.lt_of_lt_of_le (countOf_take_lt h.found) (List.take_sublist _ _).countP_le

variable {timing : Timing} {sequence sequence' : Sequence} {workers : List Worker}

/-- Each block that is enlisted gets the channel of its kind behind those of the blocks before
it. -/
theorem number_of_enlist (h : Left before pool)
    (henlist : enlist timing pool sequence rest = .ok (workers, sequence')) :
    (∀ percussion, countOf percussion (before ++ rest) ≤ (supply percussion).length) ∧
      ∀ i b w, rest[i]? = some b → workers[i]? = some w →
        (supply b.percussion)[countOf b.percussion (before ++ rest.take i)]? =
          some w.channel.number := by
  induction rest generalizing before pool sequence workers with
  | nil =>
    rw [List.append_nil]
    exact ⟨h.within, fun _ _ _ hi => absurd hi (by simp)⟩
  | cons b rest ih =>
    unfold enlist at henlist
    cases htake : pool.take? b.percussion with
    | none =>
      rw [htake] at henlist
      cases henlist
    | some taken =>
      obtain ⟨number, pool'⟩ := taken
      rw [htake] at henlist
      dsimp only at henlist
      obtain ⟨hnumber, h'⟩ := h.take? htake
      cases hrest : enlist timing pool' (sequence.reserve number).2 rest with
      | error cause =>
        rw [hrest] at henlist
        cases henlist
      | ok found =>
        rw [hrest] at henlist
        cases henlist
        obtain ⟨hwithin, hnumbers⟩ := ih h' hrest
        rw [List.append_assoc, List.singleton_append] at hwithin
        refine ⟨hwithin, fun i b' w hi hw => ?_⟩
        cases i with
        | zero =>
          cases hi
          cases hw
          rw [List.take_zero, List.append_nil]
          exact hnumber
        | succ i =>
          have hlater := hnumbers i b' w hi hw
          rwa [List.append_assoc, List.singleton_append] at hlater

/-- Enlisting stops at the first block for which no channel is left. -/
theorem surplus_of_enlist {cause : CompileError} (h : Left before pool)
    (henlist : enlist timing pool sequence rest = .error cause) :
    ∃ i b, rest[i]? = some b ∧ cause = .noChannel b.name b.percussion ∧
      countOf b.percussion (before ++ rest.take i) = (supply b.percussion).length ∧
      ∀ j < i, ∀ b', rest[j]? = some b' →
        countOf b'.percussion (before ++ rest.take j) < (supply b'.percussion).length := by
  induction rest generalizing before pool sequence with
  | nil => cases henlist
  | cons b rest ih =>
    unfold enlist at henlist
    cases htake : pool.take? b.percussion with
    | none =>
      rw [htake] at henlist
      cases henlist
      refine ⟨0, b, rfl, rfl, ?_, fun j hj => absurd hj (Nat.not_lt_zero j)⟩
      rw [List.take_zero, List.append_nil]
      exact h.exhausted htake
    | some taken =>
      obtain ⟨number, pool'⟩ := taken
      rw [htake] at henlist
      dsimp only at henlist
      obtain ⟨hnumber, h'⟩ := h.take? htake
      cases hrest : enlist timing pool' (sequence.reserve number).2 rest with
      | ok found =>
        rw [hrest] at henlist
        cases henlist
      | error cause' =>
        rw [hrest] at henlist
        cases henlist
        obtain ⟨i, b', hi, rfl, hexhausted, hfirst⟩ := ih h' hrest
        rw [List.append_assoc, List.singleton_append] at hexhausted
        refine ⟨i + 1, b', hi, rfl, hexhausted, fun j hj b'' hb'' => ?_⟩
        cases j with
        | zero =>
          cases hb''
          rw [List.take_zero, List.append_nil]
          exact (List.getElem?_eq_some_iff.1 hnumber).1
        | succ j =>
          have hearlier := hfirst j (Nat.lt_of_succ_lt_succ hj) b'' hb''
          rwa [List.append_assoc, List.singleton_append] at hearlier

/-! ## The ensemble -/

variable {c : Composition} {e : Ensemble}

theorem enlist_of_ensemble (h : c.ensemble timing = .ok e) :
    ∃ sequence, enlist timing {} { timing } c.blocks = .ok (e.workers, sequence) := by
  unfold ensemble at h
  cases hr : enlist timing {} { timing } c.blocks with
  | error cause =>
    rw [hr] at h
    cases h
  | ok found =>
    rw [hr] at h
    dsimp only [bind, Except.bind] at h
    split at h
    · cases h
    · cases h
      exact ⟨_, rfl⟩

/-- There is an ensemble only if the supply reaches, and its workers are on the channels of their
blocks. -/
theorem number_of_ensemble (h : c.ensemble timing = .ok e) :
    (∀ percussion, countOf percussion c.blocks ≤ (supply percussion).length) ∧
      ∀ i b w, c.blocks[i]? = some b → e.workers[i]? = some w →
        (supply b.percussion)[countOf b.percussion (c.blocks.take i)]? =
          some w.channel.number := by
  obtain ⟨sequence, henlist⟩ := enlist_of_ensemble h
  exact number_of_enlist left_full henlist

/-- There is no ensemble if no channel is left for a block or the name of one is unusable. -/
theorem cause_of_ensemble {cause : CompileError} (h : c.ensemble timing = .error cause) :
    (∃ i b, Surplus c.blocks i b ∧ cause = .noChannel b.name b.percussion) ∨
      (∀ percussion, countOf percussion c.blocks ≤ (supply percussion).length) ∧
        ∃ b ∈ c.blocks, cause = .unusableName b.name := by
  unfold ensemble at h
  cases hr : enlist timing {} { timing } c.blocks with
  | error cause' =>
    rw [hr] at h
    cases h
    obtain ⟨i, b, hi, rfl, hexhausted, hfirst⟩ := surplus_of_enlist left_full hr
    exact .inl ⟨i, b, ⟨hi, hexhausted, hfirst⟩, rfl⟩
  | ok found =>
    rw [hr] at h
    dsimp only [bind, Except.bind] at h
    split at h
    · next b hb =>
      cases h
      exact .inr ⟨(number_of_enlist left_full hr).1, b, List.mem_of_find?_eq_some hb, rfl⟩
    · cases h

end Supply

end Composition

/-! ## What a run can fail with -/

namespace Worker

/-- The worker has not failed for want of a channel. -/
def IsSeated (w : Worker) : Prop :=
  ∀ name percussion, w.phase ≠ .failed (.noChannel name percussion)

theorem isSeated_start (b : Block) (output number : Nat) (timing : Timing) :
    (Worker.start b output number timing).IsSeated := by
  intro name percussion
  unfold start
  dsimp only
  split <;> nofun

/-- What is done to a channel fails for other reasons. -/
theorem isSeated_act {α : Type} {w : Worker} {m : ChannelM α} {other : Failure → CompileError}
    {next : Worker → Worker} (hother : ∀ cause name percussion,
      other cause ≠ .noChannel name percussion)
    (hnext : ∀ channel, (next { w with channel }).IsSeated) : (w.act m other next).IsSeated := by
  unfold act
  split
  · exact hnext _
  · next cause channel hm =>
    intro name percussion hphase
    have hcause : w.explain other cause = .noChannel name percussion := Phase.failed.inj hphase
    unfold explain at hcause
    split at hcause
    · cases hcause
    · exact hother _ _ _ hcause

theorem isSeated_runStatement {α : Type} (w : Worker) (s : Located) (rest : List Located)
    (m : ChannelM α) : (w.runStatement s rest m).IsSeated :=
  isSeated_act (fun _ _ _ => nofun) fun _ _ _ => nofun

theorem isSeated_beginPass {w : Worker} (h : w.IsSeated) (left : Nat) :
    (w.beginPass left).IsSeated := by
  unfold beginPass
  split
  · exact isSeated_act (fun _ _ _ => nofun) fun _ => h
  · exact h

end Worker

namespace Ensemble

variable {e e' e₀ : Ensemble} {i : Nat} {w : Worker}

/-- A step is taken by a worker that does not fail in it for want of a channel. -/
theorem exists_isSeated_of_stepWorker? (h : w.IsSeated) (hstep : e.stepWorker? i w = some e') :
    ∃ w', e'.workers = e.workers.set i w' ∧ w'.IsSeated := by
  unfold stepWorker? at hstep
  split at hstep
  · split at hstep
    · cases hstep
      exact ⟨_, rfl, Worker.isSeated_beginPass h _⟩
    · cases hstep
      have hflush :
          (w.act ChannelM.flush .channel fun w => { w with phase := .finished }).IsSeated :=
        Worker.isSeated_act (fun _ _ _ => nofun) fun _ _ _ => nofun
      unfold finish
      dsimp only
      split
      · split
        · exact ⟨_, rfl, hflush⟩
        · exact ⟨_, rfl, fun _ _ => nofun⟩
      · exact ⟨_, rfl, hflush⟩
  · next s rest ready todo =>
    split at hstep
    · obtain ⟨r, found, rfl⟩ := Option.map_eq_some_iff.1 hstep
      refine ⟨_, rfl, ?_⟩
      dsimp only
      split
      · exact h
      · exact fun _ _ => nofun
      · exact Worker.isSeated_runStatement _ _ _ _
    · obtain ⟨op, operation, rfl⟩ := Option.map_eq_some_iff.1 hstep
      exact ⟨_, rfl, Worker.isSeated_runStatement _ _ _ _⟩
  · obtain ⟨r, found, hstep⟩ := Option.bind_eq_some_iff.1 hstep
    obtain ⟨joinTime, woken, hstep⟩ := Option.bind_eq_some_iff.1 hstep
    cases hstep
    exact ⟨_, rfl, Worker.isSeated_runStatement _ _ _ _⟩
  all_goals cases hstep

/-- In no run does a worker fail for want of a channel. -/
theorem isSeated_of_steps (h : ∀ w ∈ e₀.workers, w.IsSeated) (steps : Steps e₀ e) :
    ∀ w ∈ e.workers, w.IsSeated := by
  induction steps with
  | refl => exact h
  | @tail e e' _ step ih =>
    obtain ⟨i, hstep⟩ := step
    obtain ⟨w, hi, hstep⟩ := Option.bind_eq_some_iff.1 hstep
    obtain ⟨w', hworkers, hw'⟩ :=
      exists_isSeated_of_stepWorker? (ih w (List.mem_of_getElem? hi)) hstep
    intro v hv
    rw [hworkers] at hv
    rcases List.mem_or_eq_of_mem_set hv with hmem | rfl
    · exact ih v hmem
    · exact hw'

theorem outcome_ne_noChannel (h : ∀ w ∈ e.workers, w.IsSeated) (patience : Nat) (name : String)
    (percussion : Bool) : e.outcome patience ≠ .error (.noChannel name percussion) := by
  intro houtcome
  unfold outcome at houtcome
  split at houtcome
  · next cause hfailure =>
    cases houtcome
    obtain ⟨w, hw, hcause⟩ := List.exists_of_findSome?_eq_some hfailure
    refine h w hw name percussion ?_
    unfold Worker.failure? at hcause
    split at hcause
    · next hphase =>
      cases hcause
      exact hphase
    · cases hcause
  · split at houtcome <;> cases houtcome

theorem finished_of_outcome {patience : Nat} {s : Sequence} (h : e.outcome patience = .ok s) :
    ∀ w ∈ e.workers, w.phase = .finished := by
  unfold outcome at h
  split at h
  · cases h
  · split at h
    · next hstuck =>
      intro w hw
      simpa [Worker.isFinished] using List.filter_eq_nil_iff.1 hstuck w hw
    · cases h

/-! ## What a complete run leaves -/

/-- Without a failure, worker `i` goes on to play its block and to fill its slot. -/
structure Playing (e₀ e : Ensemble) : Prop where
  numbered : e.Numbered
  submitted : Submitted e₀ e
  blocks : e.workers.map (·.block) = e₀.workers.map (·.block)

theorem Playing.steps (h : Playing e₀ e₀) (steps : Steps e₀ e) (unfailed : e.Unfailed) :
    Playing e₀ e := by
  induction steps with
  | refl => exact h
  | @tail e e' _ step ih =>
    obtain ⟨i, hstep⟩ := step
    obtain ⟨w, hi, hm⟩ := move_of_step? hstep
    obtain ⟨numbered, submitted, blocks⟩ := ih (unfailed.of_move hi hm)
    refine ⟨numbered.move unfailed hi hm, submitted.move numbered unfailed hi hm, ?_⟩
    obtain ⟨w', hworkers, -, hblock⟩ := hm.exists_set unfailed hi
    rw [hworkers, List.map_set, hblock, ← blocks]
    have hlt := (List.getElem?_eq_some_iff.1 hi).1
    have hget : (e.workers.map (·.block))[i]? = some w.block := by
      rw [List.getElem?_map, hi]
      rfl
    refine List.ext_getElem? fun j => ?_
    by_cases hj : i = j
    · subst hj
      rw [List.getElem?_set_self (by rwa [List.length_map]), hget]
    · rw [List.getElem?_set_ne hj]

/-- When all have finished, each slot holds the track of its worker. -/
theorem Submitted.tracks_eq (h : Submitted e₀ e) (finished : ∀ w ∈ e.workers, w.phase = .finished)
    (all : e₀.sequence.slots.length = e.workers.length) :
    e.sequence.tracks.length = e.workers.length ∧
      ∀ (i : Nat) (w : Worker) (slot : Slot), e.workers[i]? = some w →
        e₀.sequence.slots[i]? = some slot → e.sequence.tracks[i]? =
          some { id := i, channel := slot.channel, events := w.channel.track.events } := by
  have hlength := h.length_slots.trans all
  have hslot : ∀ (i : Nat) (w : Worker) (slot : Slot), e.workers[i]? = some w →
      e₀.sequence.slots[i]? = some slot →
        e.sequence.slots[i]? = some { slot with track := some w.channel.track } := by
    intro i w slot hi hslot
    have hhanded : e.handedIn? i = some w.channel.track := by
      unfold handedIn?
      rw [hi]
      exact Worker.handedIn?_of_finished (finished w (List.mem_of_getElem? hi))
    rw [h.slots, hslot, hhanded]
    rfl
  have filled : ∀ slot ∈ e.sequence.slots, slot.track.isSome := by
    intro slot hmem
    obtain ⟨i, hi⟩ := List.mem_iff_getElem?.1 hmem
    have hlt := (List.getElem?_eq_some_iff.1 hi).1
    have hworker := List.getElem?_eq_getElem (hlength ▸ hlt)
    have hempty := List.getElem?_eq_getElem (h.length_slots ▸ hlt)
    rw [hslot i _ _ hworker hempty] at hi
    cases hi
    rfl
  rw [Sequence.tracks_eq_map filled]
  refine ⟨by rw [List.length_map, List.length_zipIdx, hlength], fun i w slot hi hempty => ?_⟩
  rw [List.getElem?_map, List.getElem?_zipIdx, hslot i w slot hi hempty]
  simp

end Ensemble

namespace Composition

open Ensemble (Steps Playing)

/-- The tracks are those of the blocks in order, each played by its worker, on different channels.
The channel of a block is that of its kind behind those of the blocks before it. -/
structure Assigned (blocks : List Block) (workers : List Worker) (tracks : List TrackEvents) :
    Prop where
  length : tracks.length = blocks.length
  distinct : (tracks.map (·.channel)).Nodup
  entry : ∀ i b, blocks[i]? = some b → ∃ w channel,
    workers[i]? = some w ∧ w.block = b ∧
      (supply b.percussion)[countOf b.percussion (blocks.take i)]? = some channel ∧
      tracks[i]? = some { id := i, channel, events := w.channel.track.events }

section Law

variable {c : Composition} {timing : Timing} {e₀ e : Ensemble} {blocks : List Block}

/-- Blocks of different kinds are supplied from different channels, and of two blocks of a kind the
later one has more before it. -/
theorem channel_ne {i j m n : Nat} {b b' : Block} (hij : i < j) (hi : blocks[i]? = some b)
    (hm : (supply b.percussion)[countOf b.percussion (blocks.take i)]? = some m)
    (hn : (supply b'.percussion)[countOf b'.percussion (blocks.take j)]? = some n) : m ≠ n := by
  rintro rfl
  have hmem := List.mem_of_getElem? hm
  have hmem' := List.mem_of_getElem? hn
  by_cases hkind : b.percussion = b'.percussion
  · rw [← hkind] at hn
    have hlt : countOf b.percussion (blocks.take i) < countOf b.percussion (blocks.take j) :=
      Nat.lt_of_lt_of_le (countOf_take_lt hi) (countOf_take_le _ hij)
    exact List.nodup_iff_getElem?_ne_getElem?.1 (ChannelPool.nodup_supply b.percussion) _ _ hlt
      (List.getElem?_eq_some_iff.1 hn).1 (hm.trans hn.symm)
  · cases hb : b.percussion <;> cases hb' : b'.percussion
    all_goals rw [hb] at hmem hkind; rw [hb'] at hmem' hkind
    · exact hkind rfl
    · exact ChannelPool.disjoint_supply m hmem' hmem
    · exact ChannelPool.disjoint_supply m hmem hmem'
    · exact hkind rfl

theorem playing_ensemble (start : c.ensemble timing = .ok e₀) : Playing e₀ e₀ := by
  refine ⟨fun i w hi => ?_, Ensemble.submitted_of_unfinished fun w hw => ?_, rfl⟩
  · obtain ⟨b, number, -, -, rfl⟩ := exists_block_of_ensemble start hi
    rfl
  · obtain ⟨i, hi⟩ := List.mem_iff_getElem?.1 hw
    obtain ⟨b, number, -, -, rfl⟩ := exists_block_of_ensemble start hi
    unfold Worker.start
    dsimp only
    split <;> nofun

/-- A complete run leaves a track for each block, on its channel. -/
theorem assigned_of_steps (start : c.ensemble timing = .ok e₀) (steps : Steps e₀ e)
    (finished : ∀ w ∈ e.workers, w.phase = .finished) :
    Assigned c.blocks e.workers e.sequence.tracks := by
  have unfailed : e.Unfailed := fun w hw => Worker.not_hasFailed_of_finished (finished w hw)
  obtain ⟨-, submitted, hblocks⟩ := (playing_ensemble start).steps steps unfailed
  have hlength : e.workers.length = c.blocks.length := by
    have hsame := congrArg List.length hblocks
    rwa [List.length_map, List.length_map, length_workers_ensemble start] at hsame
  have hslots : e₀.sequence.slots.length = e.workers.length := by
    rw [length_slots_ensemble start, hlength]
  obtain ⟨htracks, hentries⟩ := submitted.tracks_eq finished hslots
  have hentry : ∀ i b, c.blocks[i]? = some b → ∃ w channel,
      e.workers[i]? = some w ∧ w.block = b ∧
        (supply b.percussion)[countOf b.percussion (c.blocks.take i)]? = some channel ∧
        e.sequence.tracks[i]? = some { id := i, channel, events := w.channel.track.events } := by
    intro i b hb
    have hlt := (List.getElem?_eq_some_iff.1 hb).1
    obtain ⟨w, hi⟩ : ∃ w, e.workers[i]? = some w :=
      ⟨_, List.getElem?_eq_getElem (hlength ▸ hlt)⟩
    obtain ⟨w₀, hi₀⟩ : ∃ w₀, e₀.workers[i]? = some w₀ :=
      ⟨_, List.getElem?_eq_getElem (length_workers_ensemble start ▸ hlt)⟩
    obtain ⟨b', number, hb', hslot, hw₀⟩ := exists_block_of_ensemble start hi₀
    obtain rfl : b = b' := Option.some.inj (hb.symm.trans hb')
    have hblock : w.block = w₀.block := by
      have hsame := congrArg (·[i]?) hblocks
      simpa [hi, hi₀] using hsame
    have hnumber := (number_of_ensemble start).2 i b w₀ hb hi₀
    rw [hw₀] at hblock hnumber
    exact ⟨w, number, hi, hblock, hnumber, hentries i w _ hi hslot⟩
  refine ⟨htracks.trans hlength, ?_, hentry⟩
  refine List.nodup_iff_getElem?_ne_getElem?.2 fun i j hij hj => ?_
  rw [List.length_map, htracks, hlength] at hj
  obtain ⟨_, m, -, -, hm, hi⟩ := hentry i _ (List.getElem?_eq_getElem (Nat.lt_trans hij hj))
  obtain ⟨_, n, -, -, hn, hj'⟩ := hentry j _ (List.getElem?_eq_getElem hj)
  rw [List.getElem?_map, List.getElem?_map, hi, hj']
  simp only [Option.map_some, ne_eq, Option.some.injEq]
  exact channel_ne hij (List.getElem?_eq_getElem _) hm hn

theorem isSeated_ensemble (start : c.ensemble timing = .ok e₀) : ∀ w ∈ e₀.workers, w.IsSeated := by
  intro w hw
  obtain ⟨i, hi⟩ := List.mem_iff_getElem?.1 hw
  obtain ⟨b, number, -, -, rfl⟩ := exists_block_of_ensemble start hi
  exact Worker.isSeated_start b i number timing

/-- There are no more blocks of each kind than channels. -/
def HasRoom (blocks : List Block) : Prop :=
  countOf false blocks ≤ 15 ∧ countOf true blocks ≤ 1

theorem hasRoom_iff :
    HasRoom blocks ↔ ∀ percussion, countOf percussion blocks ≤ (supply percussion).length := by
  rw [Bool.forall_bool]
  exact Iff.rfl

theorem HasRoom.not_surplus (h : HasRoom blocks) {i : Nat} {b : Block} : ¬Surplus blocks i b := by
  intro surplus
  exact Nat.not_lt.2 (hasRoom_iff.1 h b.percussion) surplus.lt_countOf

theorem ensemble_ne_noChannel (h : HasRoom c.blocks) (name : String) (percussion : Bool) :
    c.ensemble timing ≠ .error (.noChannel name percussion) := by
  intro herror
  rcases cause_of_ensemble herror with ⟨i, b, surplus, -⟩ | ⟨-, b, -, hcause⟩
  · exact h.not_surplus surplus
  · cases hcause

theorem exists_surplus (h : ¬HasRoom c.blocks) (timing : Timing) :
    ∃ i b, Surplus c.blocks i b ∧
      c.ensemble timing = .error (.noChannel b.name b.percussion) := by
  rw [hasRoom_iff] at h
  cases he : c.ensemble timing with
  | ok e => exact absurd (number_of_ensemble he).1 h
  | error cause =>
    rcases cause_of_ensemble he with ⟨i, b, surplus, rfl⟩ | ⟨hwithin, -⟩
    · exact ⟨i, b, surplus, rfl⟩
    · exact absurd hwithin h

/-- **The channels of a compile.** Let there be fifteen melodic blocks at most, and one percussion
block. Then a compile never fails for want of a channel, in whatever order the workers take their
steps, and if it succeeds, the sequence has a track for each block in order. The channels of the
tracks differ: the percussion block plays on channel 9, and the melodic blocks on the others in
order. With more blocks the compile fails before any block is played, and names the sixteenth
melodic block or the second percussion block, whichever comes first. -/
theorem channels_of_compile (c : Composition) (options : CompileOptions) :
    (HasRoom c.blocks →
      (∀ name percussion, c.compile options ≠ .error (.noChannel name percussion)) ∧
      (∀ s, c.compile options = .ok s → ∃ e₀, c.ensemble options.timing = .ok e₀ ∧
        Assigned c.blocks e₀.settle.workers s.tracks) ∧
      ∀ e₀ e, c.ensemble options.timing = .ok e₀ → Steps e₀ e →
        (∀ name percussion,
          e.outcome options.patience ≠ .error (.noChannel name percussion)) ∧
        ∀ s, e.outcome options.patience = .ok s → Assigned c.blocks e.workers s.tracks) ∧
    (¬HasRoom c.blocks → ∃ i b, Surplus c.blocks i b ∧
      c.ensemble options.timing = .error (.noChannel b.name b.percussion) ∧
      c.compile options = .error (.noChannel b.name b.percussion)) := by
  have hruns : ∀ e₀ e, c.ensemble options.timing = .ok e₀ → Steps e₀ e →
      (∀ name percussion, e.outcome options.patience ≠ .error (.noChannel name percussion)) ∧
        ∀ s, e.outcome options.patience = .ok s → Assigned c.blocks e.workers s.tracks := by
    intro e₀ e start steps
    have hseated := Ensemble.isSeated_of_steps (isSeated_ensemble start) steps
    refine ⟨Ensemble.outcome_ne_noChannel hseated options.patience, fun s houtcome => ?_⟩
    have finished := Ensemble.finished_of_outcome houtcome
    rw [Ensemble.outcome_of_finished finished] at houtcome
    cases houtcome
    exact assigned_of_steps start steps finished
  have hcompile : ∀ e₀, c.ensemble options.timing = .ok e₀ →
      c.compile options = e₀.settle.outcome options.patience := by
    intro e₀ start
    unfold compile
    rw [start]
    rfl
  refine ⟨fun room => ⟨fun name percussion herror => ?_, fun s hs => ?_, hruns⟩, fun crowded => ?_⟩
  · cases start : c.ensemble options.timing with
    | ok e₀ =>
      rw [hcompile e₀ start] at herror
      exact (hruns e₀ _ start e₀.steps_settle).1 name percussion herror
    | error cause =>
      unfold compile at herror
      rw [start] at herror
      cases herror
      exact ensemble_ne_noChannel room name percussion start
  · cases start : c.ensemble options.timing with
    | ok e₀ =>
      rw [hcompile e₀ start] at hs
      exact ⟨e₀, rfl, (hruns e₀ _ start e₀.steps_settle).2 s hs⟩
    | error cause =>
      unfold compile at hs
      rw [start] at hs
      cases hs
  · obtain ⟨i, b, surplus, he⟩ := exists_surplus crowded options.timing
    refine ⟨i, b, surplus, he, ?_⟩
    unfold compile
    rw [he]
    rfl

/-- Two melodic blocks with a percussion block between them. -/
def trio : Composition where
  blocks := [{ name := "lead" }, { name := "drums", percussion := true }, { name := "bass" }]

/-- Two percussion blocks. -/
def drummers : Composition where
  blocks := [{ name := "lead" }, { name := "drums", percussion := true },
    { name := "kit", percussion := true }]

theorem channels_of_compile_trio :
    (∃ s, trio.compile {} = .ok s ∧ s.tracks.map (·.channel) = [0, 9, 1] ∧
      ∃ e₀ : Ensemble, Assigned trio.blocks e₀.settle.workers s.tracks) ∧
    ∃ i b, Surplus drummers.blocks i b ∧
      drummers.compile {} = .error (.noChannel b.name b.percussion) := by
  have hchannels : (trio.compile {}).toOption.map (·.tracks.map (·.channel)) = some [0, 9, 1] := by
    decide +kernel
  constructor
  · cases hs : trio.compile {} with
    | error cause =>
      rw [hs] at hchannels
      cases hchannels
    | ok s =>
      rw [hs] at hchannels
      obtain ⟨e₀, -, assigned⟩ := ((channels_of_compile trio {}).1 ⟨by decide, by decide⟩).2.1 s hs
      exact ⟨s, rfl, Option.some.inj hchannels, e₀, assigned⟩
  · obtain ⟨i, b, surplus, -, herror⟩ :=
      (channels_of_compile drummers {}).2 fun room => absurd room.2 (by decide)
    exact ⟨i, b, surplus, herror⟩

end Law

end Composition

end MidiScore

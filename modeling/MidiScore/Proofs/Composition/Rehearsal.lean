import MidiScore.Proofs.Composition.Plan

/-!
# Rehearsals

In a rehearsal a block is played alone. It is told at which links it is a member and when each
meeting there ends, and it notes with which clock it comes to them. What is left to do of a worker
is a rehearsal too, and each step of the worker is a step of that rehearsal, if the meetings end
when it was told (`Ensemble.Rehearsed.move`).
-/

namespace MidiScore

open Assembly (note note_self note_of_ne)

/-- When the `k`-th meeting at each link ends. -/
abbrev Timetable := Nat → Nat → Nat

/-! ## Playing alone -/

/-- One that has come to a link, and has noted it, goes on when the meeting ends. -/
def Timetable.goOn (joins : Timetable) (link : Nat) (noted : List (Nat × Nat)) : ChannelM Nat :=
  ChannelM.leapTo (joins link (noted.countP (·.1 = link) - 1))

section Rehearse

variable (joins : Timetable) (member : Nat → Bool)

/-- What a statement does to its block alone. -/
def Statement.rehearse (s : Statement) (noted : List (Nat × Nat)) :
    ChannelM (List (Nat × Nat)) :=
  match s with
  | .meet link =>
    if member link then do
      let noted := noted ++ [(link, (← get).clock)]
      let _ ← joins.goOn link noted
      return noted
    else return noted
  | s =>
    match s.operation? with
    | some op => do
      let _ ← op.perform
      return noted
    | none => return noted

/-- What several statements do to their block alone. -/
def rehearseAll : List Located → List (Nat × Nat) → ChannelM (List (Nat × Nat))
  | [], noted => return noted
  | s :: rest, noted => do rehearseAll rest (← s.statement.rehearse joins member noted)

/-- The passes of a block that have not begun, and what is settled after the last. -/
def Block.rehearse (b : Block) : Nat → List (Nat × Nat) → ChannelM (List (Nat × Nat))
  | 0, noted => do
    let _ ← ChannelM.flush
    return noted
  | left + 1, noted => do
    b.enter
    b.rehearse left (← rehearseAll joins member b.statements noted)

namespace Worker

/-- What is left to do of a worker, alone. -/
def rehearse (w : Worker) (noted : List (Nat × Nat)) : ChannelM (List (Nat × Nat)) :=
  match w.phase with
  | .ready => do
    w.block.rehearse joins member w.passesLeft (← rehearseAll joins member w.todo noted)
  | .waiting link _ => do
    let _ ← joins.goOn link noted
    w.block.rehearse joins member w.passesLeft (← rehearseAll joins member w.todo.tail noted)
  | .finished | .failed _ => return noted

end Worker

end Rehearse

/-! ## The steps of a rehearsal -/

section Steps

variable {joins : Timetable} {member : Nat → Bool} {noted : List (Nat × Nat)}

theorem Statement.rehearse_of_meet {s : Statement} {link : Nat} (meet : s = .meet link)
    (hmember : member link = true) :
    s.rehearse joins member noted = (get >>= fun c =>
      joins.goOn link (noted ++ [(link, c.clock)]) >>= fun _ =>
        pure (noted ++ [(link, c.clock)])) := by
  subst meet
  exact if_pos hmember

theorem Statement.rehearse_of_pass {s : Statement} {link : Nat} (meet : s = .meet link)
    (hmember : member link = false) : s.rehearse joins member noted = pure noted := by
  subst meet
  exact if_neg (by simp [hmember])

theorem Statement.rehearse_of_operation {s : Statement} {op : Operation}
    (operation : s.operation? = some op) :
    s.rehearse joins member noted = (op.perform >>= fun _ => pure noted) := by
  cases s with
  | meet link => cases operation
  | _ =>
    cases operation
    rfl

namespace Worker

variable {w : Worker} {s : Located} {rest : List Located}

theorem rehearse_of_ready (ready : w.phase = .ready) :
    w.rehearse joins member noted =
      (rehearseAll joins member w.todo noted >>= w.block.rehearse joins member w.passesLeft) := by
  unfold rehearse
  rw [ready]

theorem rehearse_of_waiting {link generation : Nat}
    (waiting : w.phase = .waiting link generation) :
    w.rehearse joins member noted = (joins.goOn link noted >>= fun _ =>
      rehearseAll joins member w.todo.tail noted >>=
        w.block.rehearse joins member w.passesLeft) := by
  unfold rehearse
  rw [waiting]

theorem rehearse_of_finished (finished : w.phase = .finished) :
    w.rehearse joins member noted = pure noted := by
  unfold rehearse
  rw [finished]

/-- A worker between two passes begins the next one. -/
theorem rehearse_of_passes {left : Nat} (ready : w.phase = .ready) (done : w.todo = [])
    (passes : w.passesLeft = left + 1) :
    w.rehearse joins member noted = (w.block.enter >>= fun _ =>
      ({ w with passesLeft := left, todo := w.block.statements } : Worker).rehearse joins member
        noted) := by
  rw [rehearse_of_ready ready, rehearse_of_ready (by exact ready), done, passes]
  rfl

/-- After the last pass a worker settles its channel. -/
theorem rehearse_of_done (ready : w.phase = .ready) (done : w.todo = [])
    (passes : w.passesLeft = 0) :
    w.rehearse joins member noted = (ChannelM.flush >>= fun _ => pure noted) := by
  rw [rehearse_of_ready ready, done, passes]
  rfl

theorem rehearse_of_operation {op : Operation} (ready : w.phase = .ready)
    (todo : w.todo = s :: rest) (operation : s.statement.operation? = some op) :
    w.rehearse joins member noted = (op.perform >>= fun _ =>
      ({ w with todo := rest, phase := .ready } : Worker).rehearse joins member noted) := by
  rw [rehearse_of_ready ready, rehearse_of_ready rfl, todo, rehearseAll,
    Statement.rehearse_of_operation operation]
  simp only [bind_assoc, pure_bind]

theorem rehearse_of_pass {link : Nat} (ready : w.phase = .ready) (todo : w.todo = s :: rest)
    (meet : s.statement = .meet link) (stranger : member link = false) :
    w.rehearse joins member noted =
      ({ w with todo := rest } : Worker).rehearse joins member noted := by
  rw [rehearse_of_ready ready, rehearse_of_ready (by exact ready), todo, rehearseAll,
    Statement.rehearse_of_pass meet stranger, pure_bind]

/-- A worker that waits goes on when the meeting ends. -/
theorem rehearse_goOn {link generation : Nat} (waiting : w.phase = .waiting link generation)
    (todo : w.todo = s :: rest) :
    w.rehearse joins member noted = (joins.goOn link noted >>= fun _ =>
      ({ w with todo := rest, phase := .ready } : Worker).rehearse joins member noted) := by
  rw [rehearse_of_waiting waiting, todo]
  rfl

/-- A worker that comes to a link notes it and waits for the end of the meeting. -/
theorem rehearse_of_meet {link : Nat} (generation : Nat) (ready : w.phase = .ready)
    (todo : w.todo = s :: rest) (meet : s.statement = .meet link) (hmember : member link = true)
    (c : Channel) :
    w.rehearse joins member noted c =
      ({ w with phase := .waiting link generation } : Worker).rehearse joins member
        (noted ++ [(link, c.clock)]) c := by
  rw [rehearse_of_ready ready, todo, rehearseAll, Statement.rehearse_of_meet meet hmember]
  simp only [bind_assoc, pure_bind]
  rw [rehearse_of_waiting rfl]
  rfl

end Worker

/-! ## What was noted stays noted -/

theorem Statement.prefix_of_rehearse {s : Statement} {noted' : List (Nat × Nat)} {c c' : Channel}
    (h : s.rehearse joins member noted c = .ok noted' c') : noted <+: noted' := by
  have hpure : ∀ {c : Channel}, (pure noted : ChannelM _) c = .ok noted' c' → noted <+: noted' := by
    intro c h
    cases h
    exact List.prefix_rfl
  cases hop : s.operation? with
  | some op =>
    rw [rehearse_of_operation hop] at h
    obtain ⟨-, c₁, -, h⟩ := ChannelM.bind_eq_ok h
    exact hpure h
  | none =>
    cases s with
    | meet link =>
      cases hmember : member link with
      | true =>
        rw [rehearse_of_meet rfl hmember] at h
        obtain ⟨c₀, c₁, -, h⟩ := ChannelM.bind_eq_ok h
        obtain ⟨-, c₂, -, h⟩ := ChannelM.bind_eq_ok h
        cases h
        exact List.prefix_append ..
      | false =>
        rw [rehearse_of_pass rfl hmember] at h
        exact hpure h
    | _ => cases hop

theorem prefix_of_rehearseAll {l : List Located} {noted' : List (Nat × Nat)} {c c' : Channel}
    (h : rehearseAll joins member l noted c = .ok noted' c') : noted <+: noted' := by
  induction l generalizing noted c with
  | nil =>
    cases h
    exact List.prefix_rfl
  | cons s rest ih =>
    obtain ⟨noted₁, c₁, h₁, h⟩ := ChannelM.bind_eq_ok h
    exact (Statement.prefix_of_rehearse h₁).trans (ih h)

theorem Block.prefix_of_rehearse {b : Block} {left : Nat} {noted' : List (Nat × Nat)}
    {c c' : Channel} (h : b.rehearse joins member left noted c = .ok noted' c') :
    noted <+: noted' := by
  induction left generalizing noted c with
  | zero =>
    obtain ⟨-, c₁, -, h⟩ := ChannelM.bind_eq_ok h
    cases h
    exact List.prefix_rfl
  | succ left ih =>
    obtain ⟨-, c₁, -, h⟩ := ChannelM.bind_eq_ok h
    obtain ⟨noted₂, c₂, h₂, h⟩ := ChannelM.bind_eq_ok h
    exact (prefix_of_rehearseAll h₂).trans (ih h)

theorem Worker.prefix_of_rehearse {w : Worker} {noted' : List (Nat × Nat)} {c c' : Channel}
    (h : w.rehearse joins member noted c = .ok noted' c') : noted <+: noted' := by
  cases hphase : w.phase with
  | ready =>
    rw [rehearse_of_ready hphase] at h
    obtain ⟨noted₁, c₁, h₁, h⟩ := ChannelM.bind_eq_ok h
    exact (prefix_of_rehearseAll h₁).trans (Block.prefix_of_rehearse h)
  | waiting link generation =>
    rw [rehearse_of_waiting hphase] at h
    obtain ⟨-, c₁, -, h⟩ := ChannelM.bind_eq_ok h
    obtain ⟨noted₂, c₂, h₂, h⟩ := ChannelM.bind_eq_ok h
    exact (prefix_of_rehearseAll h₂).trans (Block.prefix_of_rehearse h)
  | finished | failed =>
    unfold rehearse at h
    rw [hphase] at h
    cases h
    exact List.prefix_rfl

end Steps

/-! ## When meetings end -/

/-- The clocks with which the members of a link came to it for the `k`-th time. -/
def Journal.timesAt (journal : Journal) (members : List Nat) (l k : Nat) : Set Nat :=
  {t | ∃ m ∈ members, (journal.callsAt l m)[k]? = some t}

/-- Every meeting to which all members came ended with the latest of their clocks. -/
def Timetable.Agrees (joins : Timetable) (links : List Rendezvous) (journal : Journal) : Prop :=
  ∀ (l k : Nat) (r : Rendezvous), links[l]? = some r →
    (∀ m ∈ r.members, k < (journal.callsAt l m).length) →
    IsGreatest (journal.timesAt r.members l k) (joins l k)

section Agrees

variable {joins : Timetable} {links : List Rendezvous} {journal journal' : Journal}

theorem Journal.callsAt_prefix {i : Nat} (h : journal i <+: journal' i) (l : Nat) :
    journal.callsAt l i <+: journal'.callsAt l i :=
  (h.filter _).map _

/-- A timetable that agrees with a journal agrees with all that came before. -/
theorem Timetable.Agrees.of_prefix (h : joins.Agrees links journal')
    (before : ∀ i, journal i <+: journal' i) : joins.Agrees links journal := by
  intro l k r found came
  have hlonger := fun m => Journal.callsAt_prefix (before m) l
  have htimes : journal.timesAt r.members l k = journal'.timesAt r.members l k := by
    ext t
    apply exists_congr
    intro m
    apply and_congr_right
    intro hm
    rw [List.getElem?_eq_getElem (came m hm),
      List.prefix_iff_getElem?.1 (hlonger m) k (came m hm)]
  rw [htimes]
  exact h l k r found fun m hm => Nat.lt_of_lt_of_le (came m hm) (hlonger m).length_le

/-- The last meeting of one that is outside ended when the timetable says. -/
theorem Timetable.Agrees.eq_joinTime (h : joins.Agrees links journal) {a : Assembly}
    {n l k i : Nat} {r : Rendezvous} (round : a.InRound n) (found : links[l]? = some r)
    (members : a.link.members = r.members) (calls : a.calls = journal.callsAt l)
    (hi : i ∈ a.link.members) (outside : a.inside i = none)
    (came : (journal.callsAt l i).length = k + 1) : joins l k = a.link.joinTime := by
  have hn : n = k + 1 := by
    rw [← came, ← calls]
    exact (round.length_calls hi outside).symm
  refine (h l k r found fun m hm => ?_).unique ?_
  · rw [← calls]
    rw [← members] at hm
    have := round.le_length_calls hm
    omega
  · have hgreat := round.joinTime k hn
    unfold Assembly.times at hgreat
    rw [members, calls] at hgreat
    exact hgreat

end Agrees

namespace Ensemble

variable {e e' e₀ : Ensemble} {i l : Nat} {w w' : Worker} {journal : Journal} {joins : Timetable}

/-- One that comes last to a meeting goes on when the timetable says. -/
theorem Course.joins_of_released (course : Course e₀ journal e) {clock joinTime : Nat}
    {r r' : Rendezvous} (hi : e.workers[i]? = some w) (ready : w.phase = .ready)
    (found : e.links[l]? = some r) (arrival : r.arrive i clock = (.released joinTime, r'))
    (agrees : joins.Agrees e₀.links (note journal i (l, clock))) :
    joins l (journal.callsAt l i).length = joinTime := by
  obtain ⟨a, n, r₀, found₀, round, seen, rfl, members⟩ := course.exists_round_at found
  have outside : a.inside i = none := by
    rw [seen.inside, inside_eq hi]
    exact Worker.waitsAt_of_phase (Worker.not_waiting_of_ready ready)
  obtain ⟨hid, -, rfl, hr'⟩ := Rendezvous.of_arrive_released arrival
  have released := Assembly.Step.release outside arrival
  have members' := Assembly.members_step released
  have calls : note a.calls i clock = Journal.callsAt (note journal i (l, clock)) l := by
    rw [Journal.callsAt_note, if_pos rfl, seen.calls]
  have came : (Journal.callsAt (note journal i (l, clock)) l i).length =
      (journal.callsAt l i).length + 1 := by
    rw [← calls, note_self, List.length_append, seen.calls]
    rfl
  obtain ⟨n', round'⟩ := round.steps (.single released)
  have hjoin := agrees.eq_joinTime round' found₀ (members'.trans members) calls
    (members'.symm ▸ hid) outside came
  rw [hjoin, hr']

/-- One that wakes goes on when the timetable says. -/
theorem Course.joins_of_woken (course : Course e₀ journal e) {generation joinTime : Nat}
    {r : Rendezvous} (hi : e.workers[i]? = some w) (waiting : w.phase = .waiting l generation)
    (found : e.links[l]? = some r) (woken : r.wake? generation = some joinTime)
    (agrees : joins.Agrees e₀.links journal) :
    joins l ((journal.callsAt l i).length - 1) = joinTime := by
  obtain ⟨a, n, r₀, found₀, round, seen, rfl, members⟩ := course.exists_round_at found
  have waits : a.inside i = some generation := by
    rw [seen.inside, inside_eq hi]
    simp [Worker.waitsAt, waiting]
  have gone := Assembly.Step.wake waits woken
  have hid : i ∈ a.link.members := by
    by_contra hno
    rw [(round.stranger i hno).1] at waits
    cases waits
  have came : (journal.callsAt l i).length = (journal.callsAt l i).length - 1 + 1 := by
    have hpair := round.paired i
    rw [waits, seen.calls] at hpair
    simp at hpair
    omega
  obtain ⟨n', round'⟩ := round.steps (.single gone)
  have hjoin := agrees.eq_joinTime round' found₀ members seen.calls hid
    (Function.update_self ..) came
  rw [hjoin, (Rendezvous.of_wake? woken).2]

/-! ## Steps of a run as steps of rehearsals -/

/-- What is left to do of each worker is what is left, after what was noted, of its rehearsal from
the start. -/
structure Rehearsed (joins : Timetable) (e₀ : Ensemble) (journal : Journal) (e : Ensemble) :
    Prop where
  same : ∀ (i : Nat) (w : Worker), e.workers[i]? = some w → ∃ w₀, e₀.workers[i]? = some w₀ ∧
    w.rehearse joins (isMemberAt e₀.links i) (journal i) w.channel =
      w₀.rehearse joins (isMemberAt e₀.links i) [] w₀.channel
  absent : ∀ i, e.workers[i]? = none → journal i = []

theorem rehearsed_start (joins : Timetable) (e₀ : Ensemble) :
    Rehearsed joins e₀ (fun _ => []) e₀ :=
  ⟨fun _ w hi => ⟨w, hi, rfl⟩, fun _ _ => rfl⟩

/-- It is enough to look at the worker that makes a move. -/
theorem Rehearsed.of_set {arrival : Option (Nat × Nat)} (h : Rehearsed joins e₀ journal e)
    (hi : e.workers[i]? = some w) (he : e'.workers = e.workers.set i w')
    (same : w'.rehearse joins (isMemberAt e₀.links i)
        ((arrival.elim journal (note journal i)) i) w'.channel =
      w.rehearse joins (isMemberAt e₀.links i) (journal i) w.channel) :
    Rehearsed joins e₀ (arrival.elim journal (note journal i)) e' := by
  refine ⟨fun j v hv => ?_, fun j hj => ?_⟩
  · rw [he] at hv
    rcases getElem?_set_cases hv with ⟨rfl, rfl⟩ | ⟨hij, hv⟩
    · obtain ⟨w₀, hi₀, hsame⟩ := h.same j w hi
      exact ⟨w₀, hi₀, same.trans hsame⟩
    · rw [Journal.elim_of_ne hij]
      exact h.same j v hv
  · rw [he, List.getElem?_eq_none_iff, List.length_set] at hj
    have hij : j ≠ i := by
      have := (List.getElem?_eq_some_iff.1 hi).1
      omega
    rw [Journal.elim_of_ne hij]
    exact h.absent j (List.getElem?_eq_none hj)

/-- Who is the last to come goes on at once, as it does in its rehearsal. -/
theorem Course.rehearse_of_release (course : Course e₀ journal e) {s : Located}
    {rest : List Located} {joinTime : Nat} {r r' : Rendezvous} (hi : e.workers[i]? = some w)
    (ready : w.phase = .ready) (todo : w.todo = s :: rest) (meet : s.statement = .meet l)
    (found : e.links[l]? = some r)
    (arrival : r.arrive w.output w.channel.clock = (.released joinTime, r'))
    (agrees : joins.Agrees e₀.links (note journal i (l, w.channel.clock))) :
    w.rehearse joins (isMemberAt e₀.links i) (journal i) w.channel =
      (ChannelM.leapTo joinTime >>= fun _ =>
        ({ w with todo := rest, phase := .ready } : Worker).rehearse joins
          (isMemberAt e₀.links i) (note journal i (l, w.channel.clock) i)) w.channel := by
  have hmember := (course.isMemberAt_iff hi found).2 (Rendezvous.of_arrive_released arrival).1
  rw [course.numbered i w hi] at arrival
  have hjoin := course.joins_of_released hi ready found arrival agrees
  have hgo : joins.goOn l (journal i ++ [(l, w.channel.clock)]) = ChannelM.leapTo joinTime := by
    unfold Timetable.goOn
    rw [← hjoin, Journal.length_callsAt, List.countP_append]
    simp
  rw [Worker.rehearse_of_meet 0 ready todo meet hmember,
    Worker.rehearse_goOn rfl (by exact todo), hgo, note_self]

/-- Who wakes goes on as it does in its rehearsal. -/
theorem Course.rehearse_of_wake (course : Course e₀ journal e) {s : Located}
    {rest : List Located} {generation joinTime : Nat} {r : Rendezvous}
    (hi : e.workers[i]? = some w) (waiting : w.phase = .waiting l generation)
    (todo : w.todo = s :: rest) (found : e.links[l]? = some r)
    (woken : r.wake? generation = some joinTime) (agrees : joins.Agrees e₀.links journal) :
    w.rehearse joins (isMemberAt e₀.links i) (journal i) =
      (ChannelM.leapTo joinTime >>= fun _ =>
        ({ w with todo := rest, phase := .ready } : Worker).rehearse joins
          (isMemberAt e₀.links i) (journal i)) := by
  have hjoin := course.joins_of_woken hi waiting found woken agrees
  have hgo : joins.goOn l (journal i) = ChannelM.leapTo joinTime := by
    unfold Timetable.goOn
    rw [← hjoin, Journal.length_callsAt]
  rw [Worker.rehearse_goOn waiting todo, hgo]

theorem Rehearsed.move {arrival : Option (Nat × Nat)} (h : Rehearsed joins e₀ journal e)
    (course : Course e₀ journal e) (unfailed : e'.Unfailed) (hi : e.workers[i]? = some w)
    (hm : Move e i w arrival e')
    (agrees : joins.Agrees e₀.links (arrival.elim journal (note journal i))) :
    Rehearsed joins e₀ (arrival.elim journal (note journal i)) e' := by
  cases hm with
  | beginPass ready done passes entered =>
    refine h.of_set hi rfl ?_
    rw [Worker.rehearse_of_passes ready done passes, ChannelM.bind_of_ok entered]
    rfl
  | finish ready done passes flushed submitted =>
    refine h.of_set hi rfl ?_
    rw [Worker.rehearse_of_done ready done passes, ChannelM.bind_of_ok flushed,
      Worker.rehearse_of_finished rfl]
    rfl
  | operate ready todo operation performed =>
    refine h.of_set hi rfl ?_
    rw [Worker.rehearse_of_operation ready todo operation, ChannelM.bind_of_ok performed]
    rfl
  | @pass s rest link r r' ready todo meet found arrival =>
    have stranger : isMemberAt e₀.links i link = false := by
      rw [← Bool.not_eq_true, course.isMemberAt_iff hi found]
      exact (Rendezvous.of_arrive_stranger arrival).1
    refine h.of_set hi rfl ?_
    rw [Worker.rehearse_of_pass ready todo meet stranger]
    rfl
  | @wait s rest link generation r r' ready todo meet found arrival =>
    have hmember := (course.isMemberAt_iff hi found).2 (Rendezvous.of_arrive_waiting arrival).1
    refine h.of_set hi rfl ?_
    rw [Worker.rehearse_of_meet generation ready todo meet hmember]
    show Worker.rehearse _ _ _ (note journal i _ i) _ = _
    rw [note_self]
  | release ready todo meet found arrival leapt =>
    refine h.of_set hi rfl ?_
    rw [course.rehearse_of_release hi ready todo meet found arrival agrees,
      ChannelM.bind_of_ok leapt]
    rfl
  | wake waiting todo found woken leapt =>
    refine h.of_set hi rfl ?_
    rw [course.rehearse_of_wake hi waiting todo found woken agrees, ChannelM.bind_of_ok leapt]
    rfl
  | fail _ failed => exact (unfailed.false_of_set hi rfl failed).elim

/-- In a run without failure every worker has played a part of its rehearsal. -/
theorem Course.rehearsed (course : Course e₀ journal e) (agrees : joins.Agrees e₀.links journal) :
    Rehearsed joins e₀ journal e := by
  revert agrees
  refine course.induction
    (P := fun journal e => joins.Agrees e₀.links journal → Rehearsed joins e₀ journal e)
    (fun _ => rehearsed_start joins e₀) ?_
  intro journal e e' i w arrival course h unfailed hi hm agrees
  have before := h (agrees.of_prefix (journal.prefix_elim arrival i))
  exact before.move course unfailed hi hm agrees

end Ensemble

end MidiScore

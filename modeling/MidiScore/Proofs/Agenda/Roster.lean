import Mathlib.Data.List.TakeWhile
import MidiScore.Proofs.Agenda

/-!
# Agendas and rosters

A roster is a plain list of items with their ticks. What is pushed onto it stands behind all that is
due no later, what is taken out is what shares the first tick, and bringing it forward lowers each
tick where it stands. An agenda does to its list what a roster does: `toList_push`,
`rosterPopDue?_toList` and `toList_rebase` say so of one request, and `keeps_roster` of any number
of them.
-/

namespace MidiScore

variable {α : Type}

/-- What an agenda is asked to do. -/
inductive Agenda.Request (α : Type) where
  | push (tick : Nat) (item : α)
  | popDue (limit : Nat)
  | rebase (elapsed : Nat)

/-- Items with their ticks, one after the other. -/
abbrev Roster (α : Type) := List (Nat × α)

namespace Roster

/-- Adds an item behind all that are due no later. -/
def push (l : Roster α) (t : Nat) (x : α) : Roster α :=
  l.takeWhile (·.1 ≤ t) ++ (t, x) :: l.dropWhile (·.1 ≤ t)

/-- Takes out all items ahead that share the first tick, unless there are none or that tick is past
`limit`. -/
def popDue? (l : Roster α) (limit : Nat) : Option (Nat × List α × Roster α) :=
  match l with
  | [] => none
  | (t, _) :: _ =>
    if limit < t then none
    else some (t, (l.takeWhile (·.1 = t)).map (·.2), l.dropWhile (·.1 = t))

/-- Lowers every tick by `elapsed`, but not below zero. -/
def rebase (l : Roster α) (elapsed : Nat) : Roster α :=
  l.map fun p => (p.1 - elapsed, p.2)

/-- Does what is asked. The answer is the tick and the items that were taken out. -/
def grant : Agenda.Request α → StateM (Roster α) (Option (Nat × List α))
  | .push t x => fun l => (none, l.push t x)
  | .popDue limit => fun l =>
    match l.popDue? limit with
    | some (t, xs, rest) => (some (t, xs), rest)
    | none => (none, l)
  | .rebase elapsed => fun l => (none, l.rebase elapsed)

end Roster

namespace Agenda

/-- Does what is asked. The answer is the tick and the items that were taken out. -/
def grant : Request α → StateM (Agenda α) (Option (Nat × List α))
  | .push t x => fun q => (none, q.push t x)
  | .popDue limit => fun q =>
    match q.popDue? limit with
    | some (t, xs, rest) => (some (t, xs), rest)
    | none => (none, q)
  | .rebase elapsed => fun q => (none, q.rebase elapsed)

/-! ## Pushing -/

/-- Nothing is taken of a list that fails the test throughout. -/
theorem takeWhile_dropWhile_of_not {β : Type} {p : β → Bool} {l : List β} (h : ∀ a ∈ l, ¬ p a) :
    l.takeWhile p = [] ∧ l.dropWhile p = l := by
  constructor
  · exact List.takeWhile_eq_nil_iff.2 fun _ => h _ (List.getElem_mem _)
  · exact List.dropWhile_eq_self_iff.2 fun _ => h _ (List.getElem_mem _)

theorem lt_of_mem_flatten {l : List (Nat × List α)} {t : Nat} (h : ∀ b ∈ l, t < b.1) :
    ∀ p ∈ flatten l, t < p.1 := by
  intro p hp
  obtain ⟨b, hb, hbp, -⟩ := mem_flatten.1 hp
  rw [← hbp]
  exact h b hb

/-- What is added stands behind all that is due no later. -/
theorem flatten_addTo {t : Nat} {xs : List α} {l : List (Nat × List α)}
    (h : l.Pairwise fun a b => a.1 < b.1) :
    flatten (addTo t xs l) = (flatten l).takeWhile (·.1 ≤ t) ++
      (xs.map (t, ·) ++ (flatten l).dropWhile (·.1 ≤ t)) := by
  induction l with
  | nil => simp [addTo]
  | cons b rest ih =>
    obtain ⟨u, ys⟩ := b
    obtain ⟨hu, hrest⟩ := List.pairwise_cons.1 h
    have hahead : u ≤ t → ∀ p ∈ ys.map (u, ·), decide (p.1 ≤ t) := by
      rintro hle ⟨v, y⟩ hp
      rw [(mem_map_tick.1 hp).1]
      exact decide_eq_true hle
    have hbehind : ∀ {l : List (Nat × List α)}, (∀ b ∈ l, t < b.1) →
        ∀ p ∈ flatten l, ¬ decide (p.1 ≤ t) := by
      intro l hl p hp
      have := lt_of_mem_flatten hl p hp
      simpa using this
    unfold addTo
    by_cases hlt : t < u
    · have hall : ∀ b ∈ (u, ys) :: rest, t < b.1 :=
        List.forall_mem_cons.2 ⟨hlt, fun b hb => Nat.lt_trans hlt (hu b hb)⟩
      obtain ⟨htake, hdrop⟩ := takeWhile_dropWhile_of_not (hbehind hall)
      rw [if_pos hlt, htake, hdrop]
      rfl
    · have hle : u ≤ t := Nat.le_of_not_lt hlt
      rw [if_neg hlt, flatten_cons, List.takeWhile_append_of_pos (hahead hle),
        List.dropWhile_append_of_pos (hahead hle)]
      by_cases heq : t = u
      · subst heq
        obtain ⟨htake, hdrop⟩ := takeWhile_dropWhile_of_not (hbehind hu)
        rw [if_pos rfl, htake, hdrop]
        simp
      · rw [if_neg heq, flatten_cons, ih hrest, List.append_assoc]

theorem toList_push (q : Agenda α) (t : Nat) (x : α) :
    (q.push t x).toList = Roster.push q.toList t x :=
  flatten_addTo q.sorted

/-! ## Taking out -/

/-- The first bucket holds all that shares the first tick. -/
theorem rosterPopDue?_toList (q : Agenda α) (limit : Nat) :
    Roster.popDue? q.toList limit =
      (q.popDue? limit).map fun (t, xs, rest) => (t, xs, rest.toList) := by
  obtain ⟨buckets, hs, hf⟩ := q
  cases buckets with
  | nil => rfl
  | cons b rest =>
    obtain ⟨t, xs⟩ := b
    obtain ⟨x, xs, rfl⟩ := List.exists_cons_of_ne_nil (hf _ List.mem_cons_self)
    have hsame : ∀ p ∈ (x :: xs).map (t, ·), decide (p.1 = t) := by
      rintro ⟨u, y⟩ hp
      exact decide_eq_true (mem_map_tick.1 hp).1
    have hother : ∀ p ∈ flatten rest, ¬ decide (p.1 = t) := by
      intro p hp
      have := lt_of_mem_flatten (List.pairwise_cons.1 hs).1 p hp
      simp only [decide_eq_true_eq]
      omega
    show (if limit < t then none else some (t,
        ((((x :: xs).map (t, ·)) ++ flatten rest).takeWhile (·.1 = t)).map (·.2),
        (((x :: xs).map (t, ·)) ++ flatten rest).dropWhile (·.1 = t))) =
      (if t ≤ limit then some (t, x :: xs, _) else none).map _
    by_cases hle : t ≤ limit
    · obtain ⟨htake, hdrop⟩ := takeWhile_dropWhile_of_not hother
      rw [if_neg (Nat.not_lt.2 hle), if_pos hle, List.takeWhile_append_of_pos hsame,
        List.dropWhile_append_of_pos hsame, htake, hdrop, List.append_nil, List.map_map]
      simp [toList_eq_flatten, Function.comp_def]
    · rw [if_pos (Nat.lt_of_not_le hle), if_neg hle]
      rfl

/-! ## Bringing forward -/

/-- Buckets that are merged keep their items in order. -/
theorem flatten_lower {e : Nat} {l : List (Nat × List α)} (h : l.Pairwise fun a b => a.1 < b.1) :
    flatten (lower e l) = Roster.rebase (flatten l) e := by
  suffices hm : ∀ m : List (Nat × List α), m.Pairwise (fun a b => a.1 < b.1) →
      (∀ a ∈ m, ∀ b ∈ l, a.1 ≤ b.1 - e) →
      flatten (l.foldl (fun m b => addTo (b.1 - e) b.2 m) m) =
        flatten m ++ Roster.rebase (flatten l) e from hm [] .nil nofun
  induction l with
  | nil => simp [Roster.rebase]
  | cons b rest ih =>
    intro m hs hm
    obtain ⟨hb, hrest⟩ := List.pairwise_cons.1 h
    have hahead : ∀ p ∈ flatten m, decide (p.1 ≤ b.1 - e) := by
      intro p hp
      obtain ⟨a, ha, hap, -⟩ := mem_flatten.1 hp
      rw [← hap]
      exact decide_eq_true (hm a ha b List.mem_cons_self)
    have hadded : flatten (addTo (b.1 - e) b.2 m) = flatten m ++ b.2.map (b.1 - e, ·) := by
      rw [flatten_addTo hs, List.takeWhile_eq_self_iff.2 hahead, List.dropWhile_eq_nil_iff.2 hahead,
        List.append_nil]
    rw [List.foldl_cons, ih hrest _ (sorted_addTo hs), hadded]
    · simp [Roster.rebase]
    · intro a ha c hc
      have hlt := hb c hc
      rcases tick_of_mem_addTo ha with hat | ⟨d, hd, hda⟩
      · omega
      · have := hm d hd c (List.mem_cons_of_mem b hc)
        omega

theorem toList_rebase (q : Agenda α) (e : Nat) : (q.rebase e).toList = Roster.rebase q.toList e :=
  flatten_lower q.sorted

theorem rebase_rebase (q : Agenda α) (e e' : Nat) : (q.rebase e).rebase e' = q.rebase (e + e') := by
  refine toList_injective ?_
  rw [toList_rebase, toList_rebase, toList_rebase]
  simp [Roster.rebase, Function.comp_def, Nat.sub_sub]

/-- There is nothing to do if no time has passed. -/
theorem rebase_zero (q : Agenda α) : q.rebase 0 = q := by
  refine toList_injective ?_
  rw [toList_rebase]
  simp [Roster.rebase]

/-! ## The ends of an agenda -/

/-- The first bucket, if there is one, has a first item. -/
theorem buckets_cases (q : Agenda α) :
    q.buckets = [] ∨ ∃ t x xs rest, q.buckets = (t, x :: xs) :: rest := by
  cases hq : q.buckets with
  | nil => exact .inl rfl
  | cons b rest =>
    obtain ⟨t, xs⟩ := b
    obtain ⟨x, xs, rfl⟩ := List.exists_cons_of_ne_nil (q.filled (t, xs) (by simp [hq]))
    exact .inr ⟨t, x, xs, rest, rfl⟩

theorem nextDue?_eq (q : Agenda α) : q.nextDue? = q.toList.head?.map (·.1) := by
  rcases q.buckets_cases with h | ⟨t, x, xs, rest, h⟩ <;> simp [nextDue?, toList, h]

theorem isEmpty_eq (q : Agenda α) : q.isEmpty = q.toList.isEmpty := by
  rcases q.buckets_cases with h | ⟨t, x, xs, rest, h⟩ <;> simp [isEmpty, toList, h]

theorem lastDue?_eq (q : Agenda α) : q.lastDue? = q.toList.getLast?.map (·.1) := by
  rcases List.eq_nil_or_concat q.buckets with h | ⟨before, ⟨t, xs⟩, h⟩
  · simp [lastDue?, toList, h]
  · have hne : xs ≠ [] := q.filled (t, xs) (by simp [h])
    obtain ⟨xs, x, rfl⟩ := (List.eq_nil_or_concat xs).resolve_left hne
    simp [lastDue?, toList, h]

/-- The items are counted bucket by bucket. -/
theorem size_eq_total (q : Agenda α) : q.size = total (q.buckets.map (·.2.length)) := by
  rw [size, toList_eq_flatten]
  induction q.buckets with
  | nil => rfl
  | cons b rest ih =>
    rw [flatten_cons, List.length_append, List.length_map, ih, List.map_cons, total_cons]

/-! ## Any number of requests -/

/-- An agenda answers as its list does, and its list stays the list of the agenda. -/
theorem grant_toList (r : Request α) (q : Agenda α) :
    (Roster.grant r).run q.toList = (((grant r).run q).1, ((grant r).run q).2.toList) := by
  cases r with
  | push t x =>
    show (none, Roster.push q.toList t x) = (none, (q.push t x).toList)
    rw [toList_push]
  | popDue limit =>
    have h := q.rosterPopDue?_toList limit
    cases hq : q.popDue? limit with
    | none => simp [grant, Roster.grant, StateT.run, h, hq]
    | some r => simp [grant, Roster.grant, StateT.run, h, hq]
  | rebase e =>
    show (none, Roster.rebase q.toList e) = (none, (q.rebase e).toList)
    rw [toList_rebase]

/-- The first request is granted, and then the others. -/
theorem run_mapM_cons {ρ σ β : Type} (f : ρ → StateM σ β) (r : ρ) (rest : List ρ) (s : σ) :
    ((r :: rest).mapM f).run s =
      (((f r).run s).1 :: ((rest.mapM f).run ((f r).run s).2).1,
        ((rest.mapM f).run ((f r).run s).2).2) := by
  rw [List.mapM_cons]
  rfl

theorem mapM_grant_toList (requests : List (Request α)) (q : Agenda α) :
    (requests.mapM Roster.grant).run q.toList =
      (((requests.mapM grant).run q).1, ((requests.mapM grant).run q).2.toList) := by
  induction requests generalizing q with
  | nil => rfl
  | cons r rest ih =>
    rw [run_mapM_cons, run_mapM_cons, grant_toList, ih]

/-- Whatever is pushed, taken out and brought forward on an empty agenda, the answers are those of a
roster, and the agenda lists what the roster holds. The roster is sorted, what is pushed comes last
of its tick, and bringing forward twice is bringing forward by the sum. The first and the last tick,
the number of items in all buckets and whether there are any are those of the roster, and no bucket
is empty. -/
theorem keeps_roster (requests : List (Request α)) :
    let q := ((requests.mapM grant).run empty).2
    let l := ((requests.mapM Roster.grant).run []).2
    ((requests.mapM grant).run empty).1 = ((requests.mapM Roster.grant).run []).1 ∧
      q.toList = l ∧
      l.Pairwise (fun a b => a.1 ≤ b.1) ∧
      (∀ t x tick, (q.push t x).toList.filter (·.1 = tick) =
        l.filter (·.1 = tick) ++ [(t, x)].filter (·.1 = tick)) ∧
      (∀ e e', (q.rebase e).rebase e' = q.rebase (e + e')) ∧
      q.nextDue? = l.head?.map (·.1) ∧ q.lastDue? = l.getLast?.map (·.1) ∧
      q.size = l.length ∧ total (q.buckets.map (·.2.length)) = l.length ∧
      q.isEmpty = l.isEmpty ∧ ∀ b ∈ q.buckets, b.2 ≠ [] := by
  intro q l
  have hrun := mapM_grant_toList requests empty
  have hlist : q.toList = l := (congrArg Prod.snd hrun).symm
  rw [← hlist]
  exact ⟨(congrArg Prod.fst hrun).symm, rfl, q.pairwise_toList, q.filter_toList_push,
    q.rebase_rebase, q.nextDue?_eq, q.lastDue?_eq, rfl, q.size_eq_total.symm, q.isEmpty_eq,
    q.filled⟩

/-- Two buckets come together at zero, and what is pushed there later stands behind both. -/
example :
    let requests : List (Request Char) := [.push 5 'a', .push 3 'b', .rebase 9, .push 0 'c']
    (((requests.mapM grant).run empty).2).toList = [(0, 'b'), (0, 'a'), (0, 'c')] := by
  decide

end Agenda

end MidiScore

import Mathlib.Tactic.Tauto
import MidiScore.Agenda

/-!
# The items of an agenda

What stands on an agenda after an item was pushed, a bucket was taken out or every item was brought
forward, said of `Agenda.toList`. `mem_toList_push`, `toList_of_popDue?` and
`mem_toList_rebase` are what an invariant about promised items needs.

An agenda lists its items by tick, and those of one tick in the order in which they were pushed:
`ByTick` says so of a list and the order of pushing, and `ByTick.push` that pushing keeps it. So an
agenda is the same as the items that were pushed, in any order that it lists by tick (`eq_ofList`).
-/

namespace MidiScore.Agenda

variable {α : Type}

/-- The items of a list of buckets with their ticks. -/
def flatten (l : List (Nat × List α)) : List (Nat × α) :=
  l.flatMap fun b => b.2.map (b.1, ·)

theorem toList_eq_flatten (q : Agenda α) : q.toList = flatten q.buckets := rfl

@[simp] theorem flatten_nil : flatten ([] : List (Nat × List α)) = [] := rfl

@[simp] theorem flatten_cons (b : Nat × List α) (l : List (Nat × List α)) :
    flatten (b :: l) = b.2.map (b.1, ·) ++ flatten l := rfl

@[simp] theorem mem_map_tick {t u : Nat} {x : α} {xs : List α} :
    (u, x) ∈ xs.map (t, ·) ↔ u = t ∧ x ∈ xs := by
  simp only [List.mem_map, Prod.mk.injEq]
  constructor
  · rintro ⟨y, hy, rfl, rfl⟩
    exact ⟨rfl, hy⟩
  · rintro ⟨rfl, hx⟩
    exact ⟨x, hx, rfl, rfl⟩

theorem mem_flatten_addTo {t u : Nat} {x : α} {xs : List α} {l : List (Nat × List α)} :
    (u, x) ∈ flatten (addTo t xs l) ↔ (u = t ∧ x ∈ xs) ∨ (u, x) ∈ flatten l := by
  induction l with
  | nil => rw [addTo, flatten_cons, List.mem_append, mem_map_tick]
  | cons b rest ih =>
    obtain ⟨v, ys⟩ := b
    unfold addTo
    by_cases htv : t < v
    · rw [if_pos htv, flatten_cons, List.mem_append, mem_map_tick]
    · rw [if_neg htv]
      by_cases he : t = v
      · rw [if_pos he]
        simp only [flatten_cons, List.mem_append, mem_map_tick, he]
        tauto
      · rw [if_neg he]
        simp only [flatten_cons, List.mem_append, mem_map_tick, ih]
        tauto

theorem mem_toList_push {q : Agenda α} {t u : Nat} {x y : α} :
    (u, y) ∈ (q.push t x).toList ↔ (u = t ∧ y = x) ∨ (u, y) ∈ q.toList := by
  rw [toList_eq_flatten, toList_eq_flatten, push, mem_flatten_addTo, List.mem_singleton]

theorem flatten_addTo_perm {t : Nat} {xs : List α} {l : List (Nat × List α)} :
    (flatten (addTo t xs l)).Perm (xs.map (t, ·) ++ flatten l) := by
  induction l with
  | nil => exact .refl _
  | cons b rest ih =>
    obtain ⟨u, ys⟩ := b
    unfold addTo
    by_cases htu : t < u
    · rw [if_pos htu]
      exact .refl _
    · rw [if_neg htu]
      by_cases he : t = u
      · rw [if_pos he, he, flatten_cons, flatten_cons, List.map_append, ← List.append_assoc]
        exact List.perm_append_comm.append_right _
      · rw [if_neg he, flatten_cons, flatten_cons]
        exact (ih.append_left _).trans (List.perm_append_comm_assoc ..)

theorem toList_push_perm (q : Agenda α) (t : Nat) (x : α) :
    (q.push t x).toList.Perm ((t, x) :: q.toList) :=
  flatten_addTo_perm

/-- A bucket that was taken out stood first. -/
theorem toList_of_popDue? {q rest : Agenda α} {limit t : Nat} {xs : List α}
    (h : q.popDue? limit = some (t, xs, rest)) : q.toList = xs.map (t, ·) ++ rest.toList := by
  unfold popDue? at h
  split at h
  · cases h
  · next hb =>
    split at h
    · cases h
      simp only [toList_eq_flatten, hb, flatten_cons]
    · cases h

theorem le_of_popDue? {q rest : Agenda α} {limit t : Nat} {xs : List α}
    (h : q.popDue? limit = some (t, xs, rest)) : t ≤ limit := by
  unfold popDue? at h
  split at h
  · cases h
  · split at h
    · cases h
      assumption
    · cases h

theorem toList_of_lastDue?_eq_none {q : Agenda α} (h : q.lastDue? = none) : q.toList = [] := by
  unfold lastDue? at h
  rw [Option.map_eq_none_iff, List.getLast?_eq_none_iff] at h
  rw [toList_eq_flatten, h, flatten_nil]

/-- Something is due on the last tick. -/
theorem exists_of_lastDue? {q : Agenda α} {last : Nat} (h : q.lastDue? = some last) :
    ∃ x, (last, x) ∈ q.toList := by
  obtain ⟨b, hb, rfl⟩ := Option.map_eq_some_iff.1 h
  have hmem := List.mem_of_getLast? hb
  obtain ⟨x, hx⟩ := List.exists_mem_of_ne_nil _ (q.filled b hmem)
  exact ⟨x, List.mem_flatMap.2 ⟨b, hmem, List.mem_map_of_mem hx⟩⟩

theorem mem_flatten_lower {e u : Nat} {x : α} {l : List (Nat × List α)} :
    (u, x) ∈ flatten (lower e l) ↔ ∃ t, (t, x) ∈ flatten l ∧ t - e = u := by
  suffices h : ∀ m : List (Nat × List α),
      (u, x) ∈ flatten (l.foldl (fun m b => addTo (b.1 - e) b.2 m) m) ↔
        (u, x) ∈ flatten m ∨ ∃ t, (t, x) ∈ flatten l ∧ t - e = u by
    simpa [lower] using h []
  induction l with
  | nil => simp
  | cons b rest ih =>
    intro m
    rw [List.foldl_cons, ih, mem_flatten_addTo]
    simp only [flatten_cons, List.mem_append, mem_map_tick]
    constructor
    · rintro ((⟨rfl, hx⟩ | hm) | ⟨t, ht, rfl⟩)
      · exact .inr ⟨b.1, .inl ⟨rfl, hx⟩, rfl⟩
      · exact .inl hm
      · exact .inr ⟨t, .inr ht, rfl⟩
    · rintro (hm | ⟨t, ⟨rfl, hx⟩ | ht, rfl⟩)
      · exact .inl (.inr hm)
      · exact .inl (.inl ⟨rfl, hx⟩)
      · exact .inr ⟨t, ht, rfl⟩

/-- Bringing an agenda forward moves every item and loses none. -/
theorem mem_toList_rebase {q : Agenda α} {e u : Nat} {x : α} :
    (u, x) ∈ (q.rebase e).toList ↔ ∃ t, (t, x) ∈ q.toList ∧ t - e = u :=
  mem_flatten_lower

/-! ## The order of the items -/

theorem mem_flatten {l : List (Nat × List α)} {p : Nat × α} :
    p ∈ flatten l ↔ ∃ b ∈ l, b.1 = p.1 ∧ p.2 ∈ b.2 := by
  obtain ⟨u, x⟩ := p
  unfold flatten
  simp only [List.mem_flatMap, mem_map_tick]
  exact exists_congr fun b => and_congr_right fun _ => and_congr_left fun _ => eq_comm

theorem pairwise_flatten {l : List (Nat × List α)} (h : l.Pairwise fun a b => a.1 < b.1) :
    (flatten l).Pairwise fun a b => a.1 ≤ b.1 := by
  induction l with
  | nil => exact .nil
  | cons b rest ih =>
    obtain ⟨hb, hrest⟩ := List.pairwise_cons.1 h
    rw [flatten_cons, List.pairwise_append]
    refine ⟨?_, ih hrest, ?_⟩
    · rw [List.pairwise_map]
      exact List.pairwise_of_forall fun _ _ => Nat.le_refl _
    · rintro ⟨t, x⟩ hp ⟨u, y⟩ hq
      obtain ⟨c, hc, rfl, -⟩ := mem_flatten.1 hq
      rw [(mem_map_tick.1 hp).1]
      exact Nat.le_of_lt (hb c hc)

/-- An agenda is listed in the order of the ticks. -/
theorem pairwise_toList (q : Agenda α) : q.toList.Pairwise fun a b => a.1 ≤ b.1 :=
  pairwise_flatten q.sorted

theorem filter_map_tick (t tick : Nat) (xs : List α) :
    (xs.map (t, ·)).filter (·.1 = tick) = if t = tick then xs.map (t, ·) else [] := by
  by_cases h : t = tick
  · rw [if_pos h]
    exact List.filter_eq_self.2 (by simp [h])
  · rw [if_neg h]
    exact List.filter_eq_nil_iff.2 (by simp [h])

theorem filter_flatten_of_lt {l : List (Nat × List α)} {tick : Nat} (h : ∀ b ∈ l, tick < b.1) :
    (flatten l).filter (·.1 = tick) = [] := by
  refine List.filter_eq_nil_iff.2 fun p hp => ?_
  obtain ⟨b, hb, hbp, -⟩ := mem_flatten.1 hp
  have := h b hb
  simp only [decide_eq_true_eq]
  omega

/-- Items are added behind those of their tick. -/
theorem filter_flatten_addTo {t : Nat} {xs : List α} {l : List (Nat × List α)}
    (h : l.Pairwise fun a b => a.1 < b.1) (tick : Nat) :
    (flatten (addTo t xs l)).filter (·.1 = tick) =
      (flatten l).filter (·.1 = tick) ++ (xs.map (t, ·)).filter (·.1 = tick) := by
  induction l with
  | nil => simp [addTo]
  | cons b rest ih =>
    obtain ⟨u, ys⟩ := b
    obtain ⟨hu, hrest⟩ := List.pairwise_cons.1 h
    unfold addTo
    by_cases hlt : t < u
    · have hfront : ∀ b ∈ (u, ys) :: rest, t < b.1 := by
        refine List.forall_mem_cons.2 ⟨hlt, fun b hb => Nat.lt_trans hlt (hu b hb)⟩
      rw [if_pos hlt, flatten_cons, List.filter_append]
      by_cases htick : t = tick
      · rw [← htick, filter_flatten_of_lt hfront, List.append_nil, List.nil_append]
      · rw [filter_map_tick, if_neg htick, List.nil_append, List.append_nil]
    · rw [if_neg hlt]
      by_cases heq : t = u
      · subst heq
        rw [if_pos rfl]
        simp only [flatten_cons, List.map_append, List.filter_append]
        by_cases htick : t = tick
        · subst htick
          rw [filter_flatten_of_lt hu, List.append_nil, List.append_nil]
        · rw [filter_map_tick t tick xs, if_neg htick, List.append_nil, List.append_nil]
      · rw [if_neg heq]
        simp only [flatten_cons, List.filter_append, ih hrest, List.append_assoc]

theorem filter_toList_push (q : Agenda α) (t : Nat) (x : α) (tick : Nat) :
    (q.push t x).toList.filter (·.1 = tick) =
      q.toList.filter (·.1 = tick) ++ [(t, x)].filter (·.1 = tick) :=
  filter_flatten_addTo q.sorted tick

theorem lt_of_popDue?_eq_none {q : Agenda α} {limit : Nat} (h : q.popDue? limit = none) :
    ∀ p ∈ q.toList, limit < p.1 := by
  intro p hp
  unfold popDue? at h
  split at h
  · next hb =>
    rw [toList_eq_flatten, hb] at hp
    cases hp
  · next t xs rest hb =>
    split at h
    · cases h
    · next hlt =>
      obtain ⟨b, hmem, hbp, -⟩ := mem_flatten.1 hp
      have hs := q.sorted
      rw [hb] at hmem hs
      rcases List.mem_cons.1 hmem with rfl | hmem
      · simp only at hbp
        omega
      · have := (List.pairwise_cons.1 hs).1 b hmem
        simp only at this
        omega

/-- Nothing is due before the bucket that was taken out. -/
theorem tick_le_of_popDue? {q rest : Agenda α} {limit t : Nat} {xs : List α}
    (h : q.popDue? limit = some (t, xs, rest)) : ∀ p ∈ q.toList, t ≤ p.1 := by
  obtain ⟨x, xs, rfl⟩ := List.exists_cons_of_ne_nil (ne_nil_of_popDue? h)
  have hsorted := q.pairwise_toList
  rw [toList_of_popDue? h, List.map_cons, List.cons_append] at hsorted ⊢
  exact List.forall_mem_cons.2 ⟨Nat.le_refl _, (List.pairwise_cons.1 hsorted).1⟩

theorem weigh_eq (w : α → Nat) (q : Agenda α) :
    q.weigh w = total (q.toList.map fun p => w p.2) := by
  unfold weigh
  rw [toList_eq_flatten]
  generalize q.buckets = l
  induction l with
  | nil => rfl
  | cons b rest ih =>
    rw [List.map_cons, total_cons, ih, flatten_cons, List.map_append, total_append, List.map_map]
    rfl

end MidiScore.Agenda

namespace MidiScore

variable {α : Type}

/-- `l` lists the items of `made` by tick, those of one tick in the order that they have in
`made`. -/
structure ByTick (made l : List (Nat × α)) : Prop where
  sorted : l.Pairwise fun a b => a.1 ≤ b.1
  ties : ∀ tick, l.filter (·.1 = tick) = made.filter (·.1 = tick)

namespace ByTick

variable {made l : List (Nat × α)} {t : Nat} {x : α}

theorem of_sorted (h : l.Pairwise fun a b => a.1 ≤ b.1) : ByTick l l :=
  ⟨h, fun _ => rfl⟩

theorem mem_iff (h : ByTick made l) {p : Nat × α} : p ∈ l ↔ p ∈ made := by
  have hfilter : ∀ m : List (Nat × α), p ∈ m ↔ p ∈ m.filter (·.1 = p.1) := by simp
  rw [hfilter, h.ties, ← hfilter]

/-- The first that is listed stands before all others of its tick, and no item is due before it. -/
theorem of_cons (h : ByTick made ((t, x) :: l)) :
    ∃ before after, made = before ++ (t, x) :: after ∧ (∀ p ∈ before, t < p.1) ∧
      (∀ p ∈ after, t ≤ p.1) ∧ ByTick (before ++ after) l := by
  obtain ⟨hle, hsorted⟩ := List.pairwise_cons.1 h.sorted
  have hge : ∀ p ∈ made, t ≤ p.1 := by
    intro p hp
    rcases List.mem_cons.1 (h.mem_iff.2 hp) with rfl | hp
    · exact Nat.le_refl _
    · exact hle p hp
  have hfirst := h.ties t
  rw [List.filter_cons_of_pos (by simp)] at hfirst
  obtain ⟨before, after, rfl, hbefore, -, hafter⟩ := List.filter_eq_cons_iff.1 hfirst.symm
  have hlt : ∀ p ∈ before, t < p.1 := by
    intro p hp
    have hne := hbefore p hp
    have := hge p (List.mem_append_left _ hp)
    simp only [decide_eq_true_eq] at hne
    omega
  refine ⟨before, after, rfl, hlt, fun p hp => hge p (by simp [hp]), hsorted, fun tick => ?_⟩
  by_cases htick : t = tick
  · subst htick
    have hnone : before.filter (·.1 = t) = [] := List.filter_eq_nil_iff.2 hbefore
    rw [List.filter_append, hnone, List.nil_append, hafter]
  · have hties := h.ties tick
    have hskip : ∀ m : List (Nat × α), ((t, x) :: m).filter (·.1 = tick) = m.filter (·.1 = tick) :=
      fun m => List.filter_cons_of_neg (by simpa using htick)
    rw [hskip, List.filter_append, hskip] at hties
    rw [List.filter_append, hties]

/-- What is listed first may stand behind what is due later. -/
theorem cons {before after : List (Nat × α)} (h : ByTick (before ++ after) l)
    (hbefore : ∀ p ∈ before, t < p.1) (hafter : ∀ p ∈ after, t ≤ p.1) :
    ByTick (before ++ (t, x) :: after) ((t, x) :: l) := by
  refine ⟨List.pairwise_cons.2 ⟨fun p hp => ?_, h.sorted⟩, fun tick => ?_⟩
  · rcases List.mem_append.1 (h.mem_iff.1 hp) with hp | hp
    · exact Nat.le_of_lt (hbefore p hp)
    · exact hafter p hp
  · have hties := h.ties tick
    rw [List.filter_append] at hties ⊢
    by_cases htick : t = tick
    · have hnone : before.filter (·.1 = tick) = [] := by
        refine List.filter_eq_nil_iff.2 fun p hp => ?_
        have := hbefore p hp
        simp only [decide_eq_true_eq]
        omega
      rw [hnone, List.nil_append] at hties ⊢
      rw [List.filter_cons_of_pos (by simpa using htick),
        List.filter_cons_of_pos (by simpa using htick), hties]
    · rw [List.filter_cons_of_neg (by simpa using htick),
        List.filter_cons_of_neg (by simpa using htick), hties]

/-- What is pushed is listed behind what is due no later. -/
theorem push {ahead : List (Nat × α)} {q : Agenda α} (h : ByTick made (ahead ++ q.toList))
    (hahead : ∀ p ∈ ahead, p.1 ≤ t) :
    ByTick (made ++ [(t, x)]) (ahead ++ (q.push t x).toList) := by
  obtain ⟨hs, -, hcross⟩ := List.pairwise_append.1 h.sorted
  refine ⟨List.pairwise_append.2 ⟨hs, q.push t x |>.pairwise_toList, ?_⟩, fun tick => ?_⟩
  · rintro p hp ⟨u, y⟩ hq
    rcases Agenda.mem_toList_push.1 hq with ⟨rfl, rfl⟩ | hq
    · exact hahead p hp
    · exact hcross p hp _ hq
  · rw [List.filter_append, Agenda.filter_toList_push, ← List.append_assoc, ← List.filter_append,
      h.ties, ← List.filter_append]

/-- What is in order already is listed as it is. -/
theorem eq_of_sorted (h : ByTick made l) (hs : made.Pairwise fun a b => a.1 ≤ b.1) : l = made := by
  induction l generalizing made with
  | nil =>
    refine (List.eq_nil_iff_forall_not_mem.2 fun p hp => ?_).symm
    exact List.not_mem_nil (h.mem_iff.2 hp)
  | cons p rest ih =>
    obtain ⟨before, after, rfl, hbefore, -, hrest⟩ := h.of_cons
    cases before with
    | nil => rw [ih hrest (List.pairwise_cons.1 hs).2, List.nil_append, List.nil_append]
    | cons b others =>
      have hlt := hbefore b List.mem_cons_self
      have hle := (List.pairwise_cons.1 hs).1 p (by simp)
      omega

theorem filter (h : ByTick made l) (p : Nat × α → Bool) :
    ByTick (made.filter p) (l.filter p) := by
  have hcomm : ∀ tick (m : List (Nat × α)),
      (m.filter p).filter (·.1 = tick) = (m.filter (·.1 = tick)).filter p := fun tick m => by
    simp only [List.filter_filter, Bool.and_comm]
  exact ⟨h.sorted.filter p, fun tick => by rw [hcomm, h.ties, hcomm]⟩

theorem eq {l' : List (Nat × α)} (h : ByTick made l) (h' : ByTick made l') : l = l' :=
  eq_of_sorted ⟨h.sorted, fun tick => (h.ties tick).trans (h'.ties tick).symm⟩ h'.sorted

end ByTick

namespace Agenda

/-! ## Agendas that are made by pushing -/

/-- Pushes items one after the other. -/
def pushAll (q : Agenda α) (l : List (Nat × α)) : Agenda α :=
  l.foldl (fun q p => q.push p.1 p.2) q

/-- The agenda of items that were pushed one after the other. -/
def ofList (l : List (Nat × α)) : Agenda α :=
  empty.pushAll l

theorem flatten_injective {l l' : List (Nat × List α)} (hs : l.Pairwise fun a b => a.1 < b.1)
    (hs' : l'.Pairwise fun a b => a.1 < b.1) (hf : ∀ b ∈ l, b.2 ≠ []) (hf' : ∀ b ∈ l', b.2 ≠ [])
    (h : flatten l = flatten l') : l = l' := by
  induction l generalizing l' with
  | nil =>
    cases l' with
    | nil => rfl
    | cons b rest =>
      rw [flatten_nil, flatten_cons, eq_comm, List.append_eq_nil_iff, List.map_eq_nil_iff] at h
      exact absurd h.1 (hf' b List.mem_cons_self)
  | cons b rest ih =>
    obtain ⟨t, xs⟩ := b
    obtain ⟨x, xs, rfl⟩ := List.exists_cons_of_ne_nil (hf _ List.mem_cons_self)
    cases l' with
    | nil => cases h
    | cons b' rest' =>
      obtain ⟨u, ys⟩ := b'
      obtain ⟨y, ys, rfl⟩ := List.exists_cons_of_ne_nil (hf' _ List.mem_cons_self)
      obtain ⟨ht, hrest⟩ := List.pairwise_cons.1 hs
      obtain ⟨hu, hrest'⟩ := List.pairwise_cons.1 hs'
      have htick : t = u := congrArg Prod.fst (List.cons.inj h).1
      subst htick
      have hbucket := congrArg (List.filter (·.1 = t)) h
      simp only [flatten_cons, List.filter_append, filter_flatten_of_lt ht, filter_flatten_of_lt hu,
        filter_map_tick, if_pos, List.append_nil] at hbucket
      rw [flatten_cons, flatten_cons, hbucket] at h
      have hitems : x :: xs = y :: ys :=
        (List.map_inj_right fun a b hab => (Prod.mk.inj hab).2).1 hbucket
      rw [hitems, ih hrest hrest' (fun b hb => hf b (List.mem_cons_of_mem _ hb))
        (fun b hb => hf' b (List.mem_cons_of_mem _ hb)) (List.append_cancel_left h)]

theorem toList_injective {q q' : Agenda α} (h : q.toList = q'.toList) : q = q' := by
  have hbuckets := flatten_injective q.sorted q'.sorted q.filled q'.filled h
  cases q
  cases q'
  cases hbuckets
  rfl

/-- What is pushed is listed behind what is due no later. -/
theorem byTick_pushAll {made ahead l : List (Nat × α)} {q : Agenda α}
    (h : ByTick made (ahead ++ q.toList)) (hl : ∀ p ∈ ahead, ∀ p' ∈ l, p.1 ≤ p'.1) :
    ByTick (made ++ l) (ahead ++ (q.pushAll l).toList) := by
  induction l generalizing made q with
  | nil => rwa [List.append_nil]
  | cons p rest ih =>
    rw [List.append_cons]
    exact ih (h.push fun a ha => hl a ha p List.mem_cons_self)
      fun a ha p' hp' => hl a ha p' (List.mem_cons_of_mem p hp')

theorem byTick_ofList (l : List (Nat × α)) : ByTick l (ofList l).toList := by
  have h : ByTick [] ([] ++ (empty : Agenda α).toList) := .of_sorted .nil
  exact byTick_pushAll h fun _ hp => absurd hp List.not_mem_nil

/-- An agenda is made by pushing any list that it lists by tick. -/
theorem eq_ofList {made : List (Nat × α)} {q : Agenda α} (h : ByTick made q.toList) :
    q = ofList made :=
  toList_injective (h.eq (byTick_ofList made))

theorem pushAll_append (q : Agenda α) (l l' : List (Nat × α)) :
    q.pushAll (l ++ l') = (q.pushAll l).pushAll l' :=
  List.foldl_append

/-- One item alone is in order. -/
theorem toList_ofList {l : List (Nat × α)} (h : l.length ≤ 1) : (ofList l).toList = l := by
  refine (byTick_ofList l).eq_of_sorted ?_
  match l, h with
  | [], _ => exact .nil
  | [p], _ => exact List.pairwise_singleton _ p

theorem ofList_toList (q : Agenda α) : ofList q.toList = q :=
  (eq_ofList (.of_sorted q.pairwise_toList)).symm

/-! ## Agendas that run behind -/

/-- The buckets with every tick raised by `e`. -/
def delay (e : Nat) (l : List (Nat × List α)) : List (Nat × List α) :=
  l.map fun b => (b.1 + e, b.2)

theorem addTo_delay (e t : Nat) (xs : List α) (l : List (Nat × List α)) :
    addTo (t + e) xs (delay e l) = delay e (addTo t xs l) := by
  induction l with
  | nil => rfl
  | cons b rest ih =>
    obtain ⟨u, ys⟩ := b
    show addTo (t + e) xs ((u + e, ys) :: delay e rest) = _
    unfold addTo
    by_cases hlt : t < u
    · rw [if_pos hlt, if_pos (Nat.add_lt_add_right hlt e)]
      rfl
    · rw [if_neg hlt, if_neg fun h => hlt (Nat.lt_of_add_lt_add_right h)]
      by_cases heq : t = u
      · rw [if_pos heq, if_pos (congrArg (· + e) heq)]
        rfl
      · rw [if_neg heq, if_neg fun h => heq (Nat.add_right_cancel h), ih]
        rfl

/-- What is due behind everything else stands in a bucket of its own. -/
theorem addTo_of_forall_lt {t : Nat} {xs : List α} {l : List (Nat × List α)}
    (h : ∀ b ∈ l, b.1 < t) : addTo t xs l = l ++ [(t, xs)] := by
  induction l with
  | nil => rfl
  | cons b rest ih =>
    obtain ⟨u, ys⟩ := b
    obtain ⟨hu, hrest⟩ := List.forall_mem_cons.1 h
    unfold addTo
    rw [if_neg (Nat.lt_asymm hu), if_neg (Nat.ne_of_gt hu), ih hrest]
    rfl

/-- Buckets that are brought forward by no more than their ticks are neither merged nor clipped. -/
theorem delay_lower {e : Nat} {l : List (Nat × List α)} (hs : l.Pairwise fun a b => a.1 < b.1)
    (h : ∀ b ∈ l, e ≤ b.1) : delay e (lower e l) = l := by
  suffices hm : ∀ m : List (Nat × List α), (∀ a ∈ m, ∀ b ∈ l, a.1 < b.1 - e) →
      delay e (l.foldl (fun m b => addTo (b.1 - e) b.2 m) m) = delay e m ++ l from hm [] nofun
  induction l with
  | nil => exact fun m _ => (List.append_nil _).symm
  | cons b rest ih =>
    intro m hm
    obtain ⟨hb, hrest⟩ := List.forall_mem_cons.1 h
    obtain ⟨hfirst, hsorted⟩ := List.pairwise_cons.1 hs
    have hback : delay e (m ++ [(b.1 - e, b.2)]) = delay e m ++ [b] := by
      unfold delay
      rw [List.map_append, List.map_singleton, Nat.sub_add_cancel hb]
    rw [List.foldl_cons, addTo_of_forall_lt fun a ha => hm a ha b List.mem_cons_self,
      ih hsorted hrest, hback, List.append_assoc]
    · rfl
    · intro a ha b' hb'
      rcases List.mem_append.1 ha with ha | ha
      · exact hm a ha b' (List.mem_cons_of_mem _ hb')
      · obtain rfl := List.mem_singleton.1 ha
        have hlt := hfirst b' hb'
        show b.1 - e < b'.1 - e
        omega

theorem popDue?_eq_some_iff {q rest : Agenda α} {limit t : Nat} {xs : List α} :
    q.popDue? limit = some (t, xs, rest) ↔ q.buckets = (t, xs) :: rest.buckets ∧ t ≤ limit := by
  obtain ⟨buckets, hs, hf⟩ := q
  cases buckets with
  | nil => exact ⟨nofun, nofun⟩
  | cons b l =>
    obtain ⟨u, ys⟩ := b
    show (if u ≤ limit then some (u, ys, _) else none) = _ ↔ (u, ys) :: l = _ ∧ _
    by_cases hle : u ≤ limit
    · rw [if_pos hle]
      constructor
      · intro h
        cases h
        exact ⟨rfl, hle⟩
      · rintro ⟨h, -⟩
        cases rest
        cases h
        rfl
    · rw [if_neg hle]
      refine ⟨nofun, ?_⟩
      rintro ⟨h, hlt⟩
      cases h
      exact absurd hlt hle

/-- What is left was due after the bucket that was taken out. -/
theorem lt_of_popDue? {q rest : Agenda α} {limit t : Nat} {xs : List α}
    (h : q.popDue? limit = some (t, xs, rest)) : ∀ p ∈ rest.toList, t < p.1 := by
  have hs := q.sorted
  rw [(popDue?_eq_some_iff.1 h).1] at hs
  intro p hp
  obtain ⟨b, hb, hbp, -⟩ := mem_flatten.1 hp
  rw [← hbp]
  exact (List.pairwise_cons.1 hs).1 b hb

theorem popDue?_eq_none_iff {q : Agenda α} {limit : Nat} :
    q.popDue? limit = none ↔ ∀ b, q.buckets.head? = some b → limit < b.1 := by
  obtain ⟨buckets, hs, hf⟩ := q
  cases buckets with
  | nil => exact ⟨fun _ => nofun, fun _ => rfl⟩
  | cons b l =>
    obtain ⟨u, ys⟩ := b
    show (if u ≤ limit then some (u, ys, _) else none) = _ ↔ ∀ b, some (u, ys) = some b → _
    by_cases hle : u ≤ limit
    · rw [if_pos hle]
      exact ⟨nofun, fun h => absurd (h _ rfl) (Nat.not_lt.2 hle)⟩
    · rw [if_neg hle]
      refine ⟨fun _ b hb => ?_, fun _ => rfl⟩
      cases hb
      exact Nat.lt_of_not_le hle

/-- The agenda `q` holds what `q'` holds, in the same buckets, `e` ticks later. -/
def Delays (e : Nat) (q q' : Agenda α) : Prop :=
  q.buckets = delay e q'.buckets

/-- A bucket is as late as its items, since it is not empty. -/
theorem le_of_mem_buckets {q : Agenda α} {e : Nat} (h : ∀ p ∈ q.toList, e ≤ p.1) :
    ∀ b ∈ q.buckets, e ≤ b.1 := by
  intro b hb
  obtain ⟨x, hx⟩ := List.exists_mem_of_ne_nil b.2 (q.filled b hb)
  exact h (b.1, x) (mem_flatten.2 ⟨b, hb, rfl, hx⟩)

/-- An agenda on which nothing is due before tick `e` runs `e` ticks behind what it is when it is
brought forward. -/
theorem delays_rebase {q : Agenda α} {e : Nat} (h : ∀ p ∈ q.toList, e ≤ p.1) :
    Delays e q (q.rebase e) :=
  (delay_lower q.sorted (le_of_mem_buckets h)).symm

/-- Such an agenda keeps its buckets when it is brought forward. -/
theorem buckets_rebase {q : Agenda α} {e : Nat} (h : ∀ p ∈ q.toList, e ≤ p.1) :
    (q.rebase e).buckets = q.buckets.map fun b => (b.1 - e, b.2) :=
  calc (q.rebase e).buckets
      = (delay e (q.rebase e).buckets).map fun b => (b.1 - e, b.2) := by
        simp [delay, Function.comp_def]
    _ = q.buckets.map fun b => (b.1 - e, b.2) := by rw [← delays_rebase h]

namespace Delays

variable {e : Nat} {q q' : Agenda α}

theorem push (h : Delays e q q') (t : Nat) (x : α) : Delays e (q.push (t + e) x) (q'.push t x) := by
  show addTo (t + e) [x] q.buckets = delay e (addTo t [x] q'.buckets)
  rw [h, addTo_delay]

theorem toList_eq (h : Delays e q q') : q.toList = q'.toList.map fun p => (p.1 + e, p.2) := by
  unfold toList
  rw [h, delay, List.flatMap_map, List.map_flatMap]
  simp only [List.map_map]
  rfl

/-- A bucket that is due on the one is due on the other. -/
theorem popDue?_eq_some (h : Delays e q q') {target t : Nat} {xs : List α} {rest : Agenda α}
    (hpop : q.popDue? (target + e) = some (t, xs, rest)) :
    ∃ t' rest', q'.popDue? target = some (t', xs, rest') ∧ t = t' + e ∧ Delays e rest rest' := by
  obtain ⟨hbuckets, hle⟩ := popDue?_eq_some_iff.1 hpop
  rw [h] at hbuckets
  obtain ⟨b, l, hq', hb, hrest⟩ := List.map_eq_cons_iff.1 hbuckets
  cases hb
  have hs := q'.sorted
  have hf := q'.filled
  rw [hq'] at hs hf
  refine ⟨b.1, ⟨l, (List.pairwise_cons.1 hs).2, (List.forall_mem_cons.1 hf).2⟩, ?_, rfl, hrest.symm⟩
  exact popDue?_eq_some_iff.2 ⟨hq', Nat.le_of_add_le_add_right hle⟩

theorem popDue?_eq_none (h : Delays e q q') {target : Nat}
    (hpop : q.popDue? (target + e) = none) : q'.popDue? target = none := by
  refine popDue?_eq_none_iff.2 fun b hb => ?_
  have hlt := popDue?_eq_none_iff.1 hpop (b.1 + e, b.2) (by rw [h, delay, List.head?_map, hb]; rfl)
  exact Nat.lt_of_add_lt_add_right hlt

end Delays

end Agenda

end MidiScore

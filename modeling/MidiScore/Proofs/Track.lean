import MidiScore.Track

/-!
# The log of a track

What writing and pulling out do to the events of a track (`Track.written`) and to the handles under
which they are found (`Track.get?`). A track whose ticks never went down lists its events in the
order of writing (`events_eq_written`).
-/

namespace MidiScore.Track

variable (t : Track) (e : Event)

@[simp] theorem written_push : (t.push e).written = t.written ++ [e] := by
  unfold written push
  simp

@[simp] theorem nextHandle_push : (t.push e).nextHandle = t.nextHandle + 1 := by
  unfold nextHandle push
  simp

@[simp] theorem nextHandle_erase (handle : Nat) : (t.erase handle).nextHandle = t.nextHandle := by
  unfold nextHandle erase
  simp

theorem get?_push (handle : Nat) :
    (t.push e).get? handle = if handle = t.nextHandle then some e else t.get? handle := by
  unfold get? push nextHandle
  rw [Array.getElem?_push]
  by_cases h : handle = t.log.size
  · rw [if_pos h, if_pos h]
    rfl
  · rw [if_neg h, if_neg h]

theorem get?_erase (erased handle : Nat) :
    (t.erase erased).get? handle = if handle = erased then none else t.get? handle := by
  unfold get? erase
  simp only [Array.getElem?_setIfInBounds]
  by_cases h : handle = erased
  · subst h
    rw [if_pos rfl, if_pos rfl]
    split <;> rfl
  · rw [if_neg (Ne.symm h), if_neg h]

variable {t e}

theorem getElem?_of_get? {handle : Nat} (h : t.get? handle = some e) :
    t.log[handle]? = some (some e) :=
  Option.join_eq_some_iff.mp h

theorem lt_of_get? {handle : Nat} (h : t.get? handle = some e) : handle < t.nextHandle :=
  (Array.getElem?_eq_some_iff.1 (getElem?_of_get? h)).1

theorem mem_events {e : Event} : e ∈ t.events ↔ e ∈ t.written :=
  List.mem_mergeSort

theorem filterMap_set_none {l : List (Option Event)} {i : Nat} (h : l[i]? = some (some e)) :
    ∃ xs ys, l.filterMap id = xs ++ e :: ys ∧ (l.set i none).filterMap id = xs ++ ys := by
  induction l generalizing i with
  | nil => simp at h
  | cons a rest ih =>
    cases i with
    | zero =>
      obtain rfl : a = some e := by simpa using h
      exact ⟨[], rest.filterMap id, rfl, rfl⟩
    | succ i =>
      obtain ⟨xs, ys, hl, hs⟩ := ih (i := i) (by simpa using h)
      cases a with
      | none => exact ⟨xs, ys, hl, hs⟩
      | some x =>
        refine ⟨x :: xs, ys, ?_, ?_⟩
        · rw [List.cons_append, ← hl]
          rfl
        · rw [List.cons_append, ← hs]
          rfl

/-- Pulling an event out takes one occurrence of it out of what was written. -/
theorem exists_written_erase {handle : Nat} (h : t.get? handle = some e) :
    ∃ xs ys, t.written = xs ++ e :: ys ∧ (t.erase handle).written = xs ++ ys := by
  have hl : t.log.toList[handle]? = some (some e) := by
    rw [Array.getElem?_toList]
    exact getElem?_of_get? h
  obtain ⟨xs, ys, hw, hs⟩ := filterMap_set_none hl
  refine ⟨xs, ys, hw, ?_⟩
  unfold written erase
  rw [Array.toList_setIfInBounds]
  exact hs

theorem filterMap_set_none_sublist (l : List (Option Event)) (i : Nat) :
    ((l.set i none).filterMap id).Sublist (l.filterMap id) := by
  induction l generalizing i with
  | nil => exact .slnil
  | cons a rest ih =>
    cases i with
    | zero =>
      cases a with
      | none => exact .refl _
      | some x => exact List.sublist_cons_self x _
    | succ i =>
      cases a with
      | none => exact ih i
      | some x => exact (ih i).cons_cons x

/-- Pulling out leaves the other events in the order of writing. -/
theorem written_erase_sublist (t : Track) (handle : Nat) :
    (t.erase handle).written.Sublist t.written := by
  unfold written erase
  rw [Array.toList_setIfInBounds]
  exact filterMap_set_none_sublist _ _

/-- Pulls out the events under some handles. -/
def eraseAll (t : Track) (handles : List Nat) : Track :=
  handles.foldl erase t

theorem eraseAll_concat (t : Track) (handles : List Nat) (handle : Nat) :
    t.eraseAll (handles ++ [handle]) = (t.eraseAll handles).erase handle := by
  unfold eraseAll
  rw [List.foldl_append]
  rfl

theorem get?_eraseAll (t : Track) (handles : List Nat) (handle : Nat) :
    (t.eraseAll handles).get? handle = if handle ∈ handles then none else t.get? handle := by
  induction handles generalizing t with
  | nil => rfl
  | cons erased rest ih =>
    show ((t.erase erased).eraseAll rest).get? handle = _
    rw [ih, get?_erase]
    by_cases hrest : handle ∈ rest
    · rw [if_pos hrest, if_pos (List.mem_cons_of_mem erased hrest)]
    · simp only [List.mem_cons, hrest, or_false, if_false]

theorem written_eraseAll_sublist (t : Track) (handles : List Nat) :
    (t.eraseAll handles).written.Sublist t.written := by
  induction handles generalizing t with
  | nil => exact .refl _
  | cons handle rest ih => exact (ih (t.erase handle)).trans (t.written_erase_sublist handle)

theorem tick_trans (a b c : Event) (hab : decide (a.tick ≤ b.tick))
    (hbc : decide (b.tick ≤ c.tick)) : decide (a.tick ≤ c.tick) := by
  simp only [decide_eq_true_eq] at *
  omega

theorem tick_total (a b : Event) : decide (a.tick ≤ b.tick) || decide (b.tick ≤ a.tick) := by
  simp only [Bool.or_eq_true, decide_eq_true_eq]
  omega

/-- The ticks of a track never went down. -/
def Ordered (t : Track) : Prop :=
  t.written.Pairwise fun a b => a.tick ≤ b.tick

theorem events_eq_written (h : t.Ordered) : t.events = t.written := by
  unfold events
  exact List.mergeSort_of_pairwise (h.imp fun hab => by simpa using hab)

/-- What is written at one tick, behind what was written before, is in order. -/
theorem Ordered.append {t' : Track} {tick : Nat} {messages : List Message} (h : t.Ordered)
    (hle : ∀ e ∈ t.written, e.tick ≤ tick)
    (hw : t'.written = t.written ++ messages.map (Event.mk tick)) : t'.Ordered := by
  have hsame : ∀ e ∈ messages.map (Event.mk tick), e.tick = tick := by
    intro e he
    obtain ⟨m, -, rfl⟩ := List.mem_map.1 he
    rfl
  unfold Ordered
  rw [hw]
  refine List.pairwise_append.2 ⟨h, ?_, fun a ha b hb => ?_⟩
  · refine List.pairwise_of_forall_mem_list fun a ha b hb => ?_
    exact Nat.le_of_eq ((hsame a ha).trans (hsame b hb).symm)
  · rw [hsame b hb]
    exact hle a ha

/-- An event is listed ahead of the others of its tick that were written later. -/
theorem mergeSort_cons_eq (e : Event) (l : List Event) :
    (e :: l).mergeSort (fun a b => a.tick ≤ b.tick) =
      (l.mergeSort fun a b => a.tick ≤ b.tick).filter (·.tick < e.tick) ++
        e :: (l.mergeSort fun a b => a.tick ≤ b.tick).filter (e.tick ≤ ·.tick) := by
  obtain ⟨before, after, hsort, hrest, hbefore⟩ := List.mergeSort_cons tick_trans tick_total e l
  have hafter : ∀ a ∈ after, e.tick ≤ a.tick := by
    have hsorted := List.pairwise_mergeSort tick_trans tick_total (e :: l)
    rw [hsort, List.pairwise_append] at hsorted
    intro a ha
    simpa using (List.pairwise_cons.1 hsorted.2.1).1 a ha
  have hbefore' : ∀ a ∈ before, a.tick < e.tick := fun a ha => by simpa using hbefore a ha
  rw [hsort, hrest, List.filter_append, List.filter_append,
    List.filter_eq_self.2 fun a ha => by simpa using hbefore' a ha,
    List.filter_eq_nil_iff.2 fun a ha => by simpa using hafter a ha,
    List.filter_eq_nil_iff.2 fun a ha => by simpa using hbefore' a ha,
    List.filter_eq_self.2 fun a ha => by simpa using hafter a ha, List.append_nil, List.nil_append]

/-- Fewer events are listed in the same order. -/
theorem events_sublist {t' : Track} (h : t'.written.Sublist t.written) :
    t'.events.Sublist t.events := by
  unfold events
  generalize t'.written = l at h
  generalize t.written = l' at h
  induction h with
  | slnil => exact .refl _
  | @cons _ l₂ e h ih =>
    obtain ⟨before, after, hsort, hrest, -⟩ := List.mergeSort_cons tick_trans tick_total e l₂
    rw [hrest] at ih
    rw [hsort]
    exact ih.trans ((List.sublist_cons_self e after).append_left before)
  | cons_cons e h ih =>
    rw [mergeSort_cons_eq, mergeSort_cons_eq e]
    exact (ih.filter _).append ((ih.filter _).cons_cons e)

/-- The events written under handles from `base` on, in the order of writing. -/
def writtenSince (t : Track) (base : Nat) : List Event :=
  (t.log.toList.drop base).filterMap id

theorem writtenSince_push {base : Nat} (h : base ≤ t.nextHandle) :
    (t.push e).writtenSince base = t.writtenSince base ++ [e] := by
  have hle : base ≤ t.log.toList.length := h
  unfold writtenSince push
  rw [Array.toList_push, List.drop_append_of_le_length hle, List.filterMap_append]
  rfl

theorem writtenSince_nextHandle (t : Track) : t.writtenSince t.nextHandle = [] := by
  have hnone : t.log.toList.drop t.nextHandle = [] :=
    List.drop_of_length_le (Nat.le_of_eq t.log.length_toList)
  unfold writtenSince
  rw [hnone]
  rfl

theorem writtenSince_erase_sublist (t : Track) (handle base : Nat) :
    ((t.erase handle).writtenSince base).Sublist (t.writtenSince base) := by
  unfold writtenSince erase
  rw [Array.toList_setIfInBounds, List.drop_set]
  split
  · exact .refl _
  · exact filterMap_set_none_sublist _ _

/-- Pulling out an event that a view does not show changes nothing in the view. -/
theorem filterMap_writtenSince_erase {γ : Type} {base handle : Nat} {f : Event → Option γ}
    (h : t.get? handle = some e) (he : f e = none) :
    ((t.erase handle).writtenSince base).filterMap f = (t.writtenSince base).filterMap f := by
  unfold writtenSince erase
  rw [Array.toList_setIfInBounds, List.drop_set]
  split
  · rfl
  · next hge =>
    have hget : (t.log.toList.drop base)[handle - base]? = some (some e) := by
      rw [List.getElem?_drop, Nat.add_sub_cancel' (Nat.le_of_not_lt hge), Array.getElem?_toList]
      exact getElem?_of_get? h
    obtain ⟨xs, ys, hl, hs⟩ := filterMap_set_none hget
    rw [hl, hs, List.filterMap_append, List.filterMap_append, List.filterMap_cons_none he]

theorem pairwise_writtenSince {base : Nat} {R : Event → Event → Prop}
    (h : ∀ i j e e', base ≤ i → i < j → t.get? i = some e → t.get? j = some e' → R e e') :
    (t.writtenSince base).Pairwise R := by
  have hget : ∀ i e, t.log.toList[i]? = some (some e) → t.get? i = some e := by
    intro i e hi
    unfold get?
    rw [← Array.getElem?_toList, hi]
    rfl
  refine List.pairwise_filterMap.2 (List.pairwise_iff_getElem.2 fun i j hi hj hij e he e' he' => ?_)
  refine h (base + i) (base + j) e e' (Nat.le_add_right ..) (by omega) (hget _ e ?_) (hget _ e' ?_)
  · rw [← List.getElem?_drop, List.getElem?_eq_getElem hi]
    exact congrArg some he
  · rw [← List.getElem?_drop, List.getElem?_eq_getElem hj]
    exact congrArg some he'

/-- Events whose ticks never went down are listed in the order of writing. -/
theorem writtenSince_sublist {base : Nat}
    (h : (t.writtenSince base).Pairwise fun a b => a.tick ≤ b.tick) :
    (t.writtenSince base).Sublist t.events := by
  have hsub : (t.writtenSince base).Sublist t.written := (List.drop_sublist base _).filterMap id
  exact List.sublist_mergeSort tick_trans tick_total (h.imp fun hab => by simpa using hab) hsub

/-- The event under the last handle of its kind is the last of its kind that was written. -/
theorem getLast?_filter_written {handle : Nat} {p : Event → Bool} (h : t.get? handle = some e)
    (he : p e) (hlast : ∀ handle' e', t.get? handle' = some e' → p e' → handle' ≤ handle) :
    (t.written.filter p).getLast? = some e := by
  obtain ⟨hlt, hget⟩ := List.getElem?_eq_some_iff.1
    ((Array.getElem?_toList ..).trans (getElem?_of_get? h))
  have hrest : ((t.log.toList.drop (handle + 1)).filterMap id).filter p = [] := by
    refine List.filter_eq_nil_iff.2 fun e' he' hp => ?_
    obtain ⟨o, ho, rfl⟩ := List.mem_filterMap.1 he'
    obtain ⟨i, hi⟩ := List.mem_iff_getElem?.1 ho
    rw [List.getElem?_drop, Array.getElem?_toList] at hi
    have hle := hlast (handle + 1 + i) e' (by rw [get?, hi]; rfl) hp
    omega
  unfold written
  rw [← List.take_append_drop handle t.log.toList, List.drop_eq_getElem_cons hlt, hget,
    List.filterMap_append, List.filter_append,
    List.filterMap_cons_some (show id (some e) = some e from rfl), List.filter_cons_of_pos he,
    hrest, List.getLast?_append]
  rfl

/-- The events of a track are in the order of their ticks. -/
theorem pairwise_events (t : Track) : t.events.Pairwise fun a b => a.tick ≤ b.tick := by
  exact (List.pairwise_mergeSort tick_trans tick_total t.written).imp fun h => by simpa using h

end MidiScore.Track

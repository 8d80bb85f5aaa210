import Mathlib.Data.List.Nodup
import MidiScore.Proofs.Track

/-!
# What is left of a track

Events are written to a track and pulled out of it in any order. `entries_edits` says what is left
after any number of edits, `get?_edits` that a handle finds its event until that event is pulled
out, and nothing afterwards, and `lists_entries` that a track lists what is left by tick, and what
is due on one tick in the order of writing.
-/

namespace MidiScore

/-- An event with its number in the order of writing. -/
@[ext]
structure Entry where
  number : Nat
  event : Event
deriving DecidableEq

/-- The order by tick, and of one tick by number. -/
def Entry.Precedes (a b : Entry) : Prop :=
  a.event.tick < b.event.tick ∨ a.event.tick = b.event.tick ∧ a.number < b.number

namespace Track

/-- Something that is done to the events of a track. -/
inductive Edit where
  | push (e : Event)
  | erase (handle : Nat)
deriving DecidableEq

/-- Writes an event or pulls one out. -/
def edit (t : Track) : Edit → Track
  | .push e => t.push e
  | .erase handle => t.erase handle

/-- What is pushed, under handles from `next` on, and not erased afterwards. -/
def survivors (next : Nat) : List Edit → List Entry
  | [] => []
  | .push e :: rest =>
    if .erase next ∈ rest then survivors (next + 1) rest
    else ⟨next, e⟩ :: survivors (next + 1) rest
  | .erase _ :: rest => survivors next rest

/-- The events that were not pulled out with their handles, in the order of writing. -/
def entries (t : Track) : List Entry :=
  (List.range t.nextHandle).filterMap fun handle => (t.get? handle).map (Entry.mk handle)

variable {t : Track}

theorem mem_entries {x : Entry} : x ∈ t.entries ↔ t.get? x.number = some x.event := by
  unfold entries
  simp only [List.mem_filterMap, List.mem_range, Option.map_eq_some_iff]
  constructor
  · rintro ⟨handle, -, e, he, rfl⟩
    exact he
  · intro h
    exact ⟨x.number, lt_of_get? h, x.event, h, rfl⟩

theorem entry_ext {x y : Entry} (hx : x ∈ t.entries) (hy : y ∈ t.entries)
    (h : x.number = y.number) : x = y := by
  rw [mem_entries] at hx hy
  rw [h, hy, Option.some.injEq] at hx
  exact Entry.ext h hx.symm

theorem pairwise_entries (t : Track) : t.entries.Pairwise fun a b => a.number < b.number := by
  unfold entries
  refine List.pairwise_filterMap.2 (List.pairwise_lt_range.imp ?_)
  intro i j hij a ha b hb
  obtain ⟨-, -, rfl⟩ := Option.map_eq_some_iff.1 ha
  obtain ⟨-, -, rfl⟩ := Option.map_eq_some_iff.1 hb
  exact hij

theorem nodup_entries (t : Track) : t.entries.Nodup := by
  refine t.pairwise_entries.imp ?_
  rintro a b hlt rfl
  exact Nat.lt_irrefl _ hlt

theorem map_event_entries (t : Track) : t.entries.map (·.event) = t.written := by
  have hlog : (List.range t.nextHandle).map t.get? = t.log.toList := by
    refine List.ext_getElem (by simp [nextHandle]) fun i hi hi' => ?_
    have hlt : i < t.log.size := by simpa using hi'
    simp [get?, hlt]
  unfold entries written
  rw [← hlog, List.map_filterMap, List.filterMap_map]
  refine List.filterMap_congr fun i _ => ?_
  cases h : t.get? i <;> simp [h]

@[simp] theorem entries_push (t : Track) (e : Event) :
    (t.push e).entries = t.entries ++ [⟨t.nextHandle, e⟩] := by
  unfold entries
  rw [nextHandle_push, List.range_succ, List.filterMap_append]
  congr 1
  · refine List.filterMap_congr fun i hi => ?_
    rw [get?_push, if_neg (Nat.ne_of_lt (List.mem_range.1 hi))]
  · simp [get?_push]

@[simp] theorem entries_erase (t : Track) (handle : Nat) :
    (t.erase handle).entries = t.entries.filter (·.number ≠ handle) := by
  unfold entries
  rw [nextHandle_erase, List.filter_filterMap]
  refine List.filterMap_congr fun i _ => ?_
  rw [get?_erase]
  by_cases h : i = handle
  · cases t.get? i <;> simp [h, Option.filter]
  · cases t.get? i <;> simp [h, Option.filter]

theorem erase_of_le {handle : Nat} (h : t.nextHandle ≤ handle) : t.erase handle = t := by
  unfold erase
  rw [Array.setIfInBounds_eq_of_size_le h]

/-! ## Any number of edits -/

/-- Of the events that stand in a track and those that are pushed later, what is not erased is
left. -/
theorem entries_edits (t : Track) (edits : List Edit) :
    (edits.foldl edit t).entries =
      t.entries.filter (fun x => .erase x.number ∉ edits) ++ survivors t.nextHandle edits := by
  induction edits generalizing t with
  | nil => simp [survivors]
  | cons change rest ih =>
    rw [List.foldl_cons, ih]
    cases change with
    | push e =>
      by_cases h : Edit.erase t.nextHandle ∈ rest
      · simp [edit, survivors, h]
      · simp [edit, survivors, h]
    | erase handle =>
      simp [edit, survivors, List.filter_filter, Bool.and_comm, not_or]

/-- A handle finds its event until it is erased. -/
theorem get?_edits {handle : Nat} (h : handle < t.nextHandle) (edits : List Edit) :
    (edits.foldl edit t).get? handle = if .erase handle ∈ edits then none else t.get? handle := by
  induction edits generalizing t with
  | nil => rfl
  | cons change rest ih =>
    rw [List.foldl_cons]
    cases change with
    | push e =>
      have hpush : handle < (t.push e).nextHandle := by
        rw [nextHandle_push]
        omega
      have hne : handle ≠ t.nextHandle := Nat.ne_of_lt h
      rw [edit, ih hpush, get?_push, if_neg hne]
      simp
    | erase erased =>
      rw [edit, ih (by rwa [nextHandle_erase]), get?_erase]
      by_cases heq : handle = erased
      · simp [heq]
      · simp [heq]

/-- What is written next is found under the next handle. -/
theorem get?_edits_push (t : Track) (e : Event) (edits : List Edit) :
    (edits.foldl edit (t.push e)).get? t.nextHandle =
      if .erase t.nextHandle ∈ edits then none else some e := by
  have hlt : t.nextHandle < (t.push e).nextHandle := by
    rw [nextHandle_push]
    exact Nat.lt_succ_self _
  rw [get?_edits hlt, get?_push, if_pos rfl]

/-! ## The order of the events -/

theorem filter_tick_sublist_mergeSort (l : List Entry) (tick : Nat) :
    (l.filter (·.event.tick = tick)).Sublist
      (l.mergeSort fun a b => a.event.tick ≤ b.event.tick) := by
  refine List.sublist_mergeSort (fun a b c => tick_trans a.event b.event c.event)
    (fun a b => tick_total a.event b.event) ?_ List.filter_sublist
  refine List.pairwise_of_forall_mem_list fun a ha b hb => ?_
  simp only [List.mem_filter, decide_eq_true_eq] at ha hb
  simp [ha.2, hb.2]

/-- Sorting by tick leaves those of one tick in their order. -/
theorem filter_tick_mergeSort (l : List Entry) (tick : Nat) :
    (l.mergeSort fun a b => a.event.tick ≤ b.event.tick).filter (·.event.tick = tick) =
      l.filter (·.event.tick = tick) := by
  refine (List.Sublist.eq_of_length ?_ ?_).symm
  · simpa only [List.filter_filter, Bool.and_self] using
      (filter_tick_sublist_mergeSort l tick).filter (·.event.tick = tick)
  · exact (((List.mergeSort_perm _ _).filter _).length_eq).symm

/-- Entries that are numbered in order stay so where their ticks are the same. -/
theorem pairwise_precedes_mergeSort {l : List Entry}
    (h : l.Pairwise fun a b => a.number < b.number) :
    (l.mergeSort fun a b => a.event.tick ≤ b.event.tick).Pairwise Entry.Precedes := by
  rw [List.pairwise_iff_forall_sublist]
  intro a b hab
  have hsorted : (l.mergeSort fun a b => a.event.tick ≤ b.event.tick).Pairwise
      fun a b => decide (a.event.tick ≤ b.event.tick) :=
    List.pairwise_mergeSort (fun a b c => tick_trans a.event b.event c.event)
      (fun a b => tick_total a.event b.event) l
  have hle : a.event.tick ≤ b.event.tick := by
    simpa using List.pairwise_iff_forall_sublist.1 hsorted hab
  rcases Nat.lt_or_eq_of_le hle with hlt | heq
  · exact .inl hlt
  · have hties := hab.filter (·.event.tick = b.event.tick)
    rw [filter_tick_mergeSort, List.filter_cons_of_pos (by simpa using heq),
      List.filter_cons_of_pos (by simp), List.filter_nil] at hties
    exact .inr ⟨heq, List.pairwise_iff_forall_sublist.1 h (hties.trans List.filter_sublist)⟩

/-- The events of a track are its entries by tick, and of one tick by number. -/
theorem exists_events_eq (t : Track) :
    ∃ l : List Entry, l.Perm t.entries ∧ l.Pairwise Entry.Precedes ∧
      t.events = l.map (·.event) := by
  refine ⟨t.entries.mergeSort fun a b => a.event.tick ≤ b.event.tick, List.mergeSort_perm _ _,
    pairwise_precedes_mergeSort t.pairwise_entries, ?_⟩
  unfold events
  rw [← map_event_entries]
  exact (List.map_mergeSort (f := Entry.event) fun _ _ _ _ => rfl).symm

/-- The entries are what a track lists and counts. -/
structure Lists (left : List Entry) (t : Track) : Prop where
  events : ∃ l : List Entry, l.Perm left ∧ l.Pairwise Entry.Precedes ∧ t.events = l.map (·.event)
  size : t.size = left.length
  endTick : t.endTick = (left.map (·.event.tick)).max?.getD 0

theorem lists_entries (t : Track) : t.Lists t.entries where
  events := t.exists_events_eq
  size := by rw [size, ← map_event_entries, List.length_map]
  endTick := by
    rw [endTick, ← map_event_entries, List.map_map, List.foldl_max, Nat.zero_max]
    rfl

end Track

end MidiScore

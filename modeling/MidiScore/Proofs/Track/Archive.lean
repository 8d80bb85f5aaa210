import MidiScore.Proofs.Track.Arena
import MidiScore.Proofs.Track.Retraction

/-!
# Tracks in an arena

An archive is a track of which the events are kept in an arena, and the keys of the arena serve as
handles. The arena may use the room of what was pulled out again and need not list its events in the
order of writing, so they are numbered. `Keeps` relates an archive to a track: `Keeps.edit` says
that one edit keeps it, `Keeps.edits` that any number of edits do, and `Keeps.resembles` that nobody
can tell the two apart. So both are a log of which the entries can be pulled out
(`retractable_log`).
-/

namespace MidiScore

namespace Entry

/-- The test by which entries are sorted. -/
def notAfter (a b : Entry) : Bool :=
  a.event.tick < b.event.tick || (a.event.tick = b.event.tick && a.number ≤ b.number)

theorem notAfter_iff {a b : Entry} : a.notAfter b ↔
    a.event.tick < b.event.tick ∨ a.event.tick = b.event.tick ∧ a.number ≤ b.number := by
  simp [notAfter]

theorem notAfter_trans (a b c : Entry) (hab : a.notAfter b) (hbc : b.notAfter c) :
    a.notAfter c := by
  rw [notAfter_iff] at *
  omega

theorem notAfter_total (a b : Entry) : a.notAfter b || b.notAfter a := by
  rw [Bool.or_eq_true, notAfter_iff, notAfter_iff]
  omega

end Entry

/-- A track of which the events are kept in an arena. -/
structure Archive {Key : Type} (A : Arena Key Entry) where
  store : A.State := A.empty
  /-- The number of the next event. -/
  next : Nat := 0

namespace Archive

variable {Key : Type} {A : Arena Key Entry}

/-- Writes an event. The answer is the key under which it is kept. -/
def push (s : Archive A) (e : Event) : Key × Archive A :=
  let (key, store) := A.insert s.store ⟨s.next, e⟩
  (key, ⟨store, s.next + 1⟩)

/-- The event under a key. -/
def get? (s : Archive A) (key : Key) : Option Event :=
  (A.get? s.store key).map (·.event)

/-- Pulls out the event under a key. The answer is that event. -/
def remove (s : Archive A) (key : Key) : Option Event × Archive A :=
  (s.get? key, { s with store := A.remove s.store key })

/-- The events by tick, and of one tick by number. -/
def events (s : Archive A) : List Event :=
  ((A.values s.store).mergeSort Entry.notAfter).map (·.event)

/-- The number of events. -/
def size (s : Archive A) : Nat :=
  (A.values s.store).length

/-- The last tick with an event, or zero. -/
def endTick (s : Archive A) : Nat :=
  ((A.values s.store).map (·.event.tick)).max?.getD 0

/-- Writes an event or pulls one out. A handle stands for the key that was handed out at that
place. -/
def edit : Archive A × List Key → Track.Edit → Archive A × List Key
  | (s, keys), .push e => ((s.push e).2, keys ++ [(s.push e).1])
  | (s, keys), .erase handle =>
    match keys[handle]? with
    | some key => ((s.remove key).2, keys)
    | none => (s, keys)

theorem exists_later_keys (s : Archive A) (keys : List Key) (changes : List Track.Edit) :
    ∃ later, (changes.foldl edit (s, keys)).2 = keys ++ later := by
  induction changes generalizing s keys with
  | nil => exact ⟨[], (List.append_nil keys).symm⟩
  | cons change rest ih =>
    rw [List.foldl_cons]
    cases change with
    | push e =>
      obtain ⟨later, h⟩ := ih (s.push e).2 (keys ++ [(s.push e).1])
      exact ⟨(s.push e).1 :: later, by rw [edit, h, List.append_assoc]; rfl⟩
    | erase handle =>
      rw [edit]
      split
      · exact ih _ keys
      · exact ih _ keys

/-- An archive that handed out `keys` shows the same as a track of which the handles are the places
of the keys. -/
structure Resembles (s : Archive A) (keys : List Key) (t : Track) : Prop where
  events : s.events = t.events
  size : s.size = t.size
  endTick : s.endTick = t.endTick
  length : keys.length = t.nextHandle
  get? : ∀ (i : Nat) (h : i < keys.length), s.get? keys[i] = t.get? i
  remove : ∀ (i : Nat) (h : i < keys.length), (s.remove keys[i]).1 = t.get? i

/-- An archive that handed out `keys` keeps the same as a track. -/
structure Keeps (s : Archive A) (keys : List Key) (t : Track) : Prop where
  next : s.next = t.nextHandle
  length : keys.length = t.nextHandle
  nodup : keys.Nodup
  issued : ∀ key ∈ keys, A.Issued s.store key
  found : ∀ (i : Nat) (h : i < keys.length),
    A.get? s.store keys[i] = (t.get? i).map (Entry.mk i)
  values : (A.values s.store).Perm t.entries

namespace Keeps

variable {s : Archive A} {keys : List Key} {t : Track}

theorem empty (channel : Nat) : Keeps ({} : Archive A) [] { channel } where
  next := rfl
  length := rfl
  nodup := .nil
  issued _ h := nomatch h
  found _ h := nomatch h
  values := by rw [A.values_empty]; rfl

theorem push (h : Keeps s keys t) (e : Event) :
    Keeps (s.push e).2 (keys ++ [(s.push e).1]) (t.push e) := by
  -- The arena is asked for no more than this: its key is none of those it handed out before,
  -- also when it uses the room of something that was pulled out.
  have hnew : ∀ key ∈ keys, key ≠ (s.push e).1 := by
    rintro key hkey rfl
    exact A.fresh _ _ (h.issued _ hkey)
  exact {
    next := by
      rw [Track.nextHandle_push, ← h.next]
      rfl
    length := by
      rw [Track.nextHandle_push, List.length_append, h.length]
      rfl
    nodup := by
      refine List.nodup_append.2 ⟨h.nodup, List.nodup_singleton _, fun key hkey key' hkey' => ?_⟩
      rw [List.mem_singleton.1 hkey']
      exact hnew key hkey
    issued := by
      intro key hkey
      rw [List.mem_append, List.mem_singleton] at hkey
      exact (A.issued_insert _ _ _).2 (hkey.symm.imp_right (h.issued key))
    found := by
      intro i hi
      rw [Track.get?_push, ← h.length]
      rcases Nat.lt_or_ge i keys.length with hlt | hge
      · rw [List.getElem_append_left hlt, if_neg (Nat.ne_of_lt hlt), ← h.found i hlt]
        exact A.get?_insert_of_ne (hnew _ (List.getElem_mem hlt))
      · obtain rfl : i = keys.length := by
          rw [List.length_append, List.length_singleton] at hi
          omega
        rw [List.getElem_concat_length rfl, if_pos rfl, Option.map_some, h.length, ← h.next]
        exact A.get?_insert_self _ _
    values := by
      rw [Track.entries_push, ← h.next]
      refine (A.values_insert _ _).trans ?_
      exact (h.values.cons _).trans (List.perm_append_singleton _ _).symm }

/-- Without the entry of a handle the others are left. -/
theorem values_remove {handle : Nat} (h : Keeps s keys t) (hlt : handle < keys.length) :
    (A.values (A.remove s.store keys[handle])).Perm (t.erase handle).entries := by
  have hfound := h.found handle hlt
  rw [Track.entries_erase]
  cases hget : t.get? handle with
  -- A key that is pulled out once more finds nothing, and nothing changes.
  | none =>
    rw [hget, Option.map_none] at hfound
    rw [A.remove_of_none hfound, List.filter_eq_self.2]
    · exact h.values
    · intro x hx
      rw [Track.mem_entries] at hx
      simp only [decide_eq_true_eq]
      rintro rfl
      rw [hget] at hx
      cases hx
  | some e =>
    rw [hget, Option.map_some] at hfound
    have hmem : (⟨handle, e⟩ : Entry) ∈ t.entries := Track.mem_entries.2 hget
    have hrest : t.entries.filter (·.number ≠ handle) = t.entries.erase ⟨handle, e⟩ := by
      rw [t.nodup_entries.erase_eq_filter]
      refine List.filter_congr fun x hx => ?_
      by_cases heq : x.number = handle
      · simp [Track.entry_ext hx hmem heq]
      · have hne : x ≠ ⟨handle, e⟩ := fun hx => heq (congrArg Entry.number hx)
        simp [heq, hne]
    rw [hrest]
    exact ((A.values_remove hfound).trans (h.values.trans (List.perm_cons_erase hmem))).cons_inv

theorem erase (h : Keeps s keys t) {handle : Nat} (hlt : handle < keys.length) :
    Keeps (s.remove keys[handle]).2 keys (t.erase handle) where
  next := by
    rw [Track.nextHandle_erase, ← h.next]
    rfl
  length := by rw [Track.nextHandle_erase, h.length]
  nodup := h.nodup
  issued key hkey := (A.issued_remove _ _ _).2 (h.issued key hkey)
  found i hi := by
    rw [Track.get?_erase]
    by_cases heq : i = handle
    · subst heq
      rw [if_pos rfl]
      exact A.get?_remove_self _ _
    · rw [if_neg heq, ← h.found i hi]
      exact A.get?_remove_of_ne fun hkey => heq (h.nodup.getElem_inj_iff.1 hkey)
  values := h.values_remove hlt

/-- One edit leaves an archive and a track alike. -/
theorem edit (h : Keeps s keys t) (change : Track.Edit) :
    Keeps (Archive.edit (s, keys) change).1 (Archive.edit (s, keys) change).2 (t.edit change) := by
  cases change with
  | push e => exact h.push e
  | erase handle =>
    simp only [Archive.edit, Track.edit]
    rcases Nat.lt_or_ge handle keys.length with hlt | hge
    · rw [List.getElem?_eq_getElem hlt]
      exact h.erase hlt
    · rw [List.getElem?_eq_none hge, Track.erase_of_le (h.length ▸ hge)]
      exact h

/-- Any number of edits leave an archive and a track alike. -/
theorem edits (h : Keeps s keys t) (changes : List Track.Edit) :
    Keeps (changes.foldl Archive.edit (s, keys)).1 (changes.foldl Archive.edit (s, keys)).2
      (changes.foldl Track.edit t) := by
  induction changes generalizing s keys t with
  | nil => exact h
  | cons change rest ih => exact ih (h.edit change)

/-- The key of an event stands at the place that its handle names. -/
theorem getElem?_edits_push (h : Keeps s keys t) (e : Event) (changes : List Track.Edit) :
    (changes.foldl Archive.edit (Archive.edit (s, keys) (.push e))).2[t.nextHandle]? =
      some (s.push e).1 := by
  obtain ⟨later, hlater⟩ := exists_later_keys (s.push e).2 (keys ++ [(s.push e).1]) changes
  rw [Archive.edit, hlater, ← h.length, List.append_assoc,
    List.getElem?_append_right (Nat.le_refl _), Nat.sub_self]
  rfl

theorem size_eq (h : Keeps s keys t) : s.size = t.size :=
  h.values.length_eq.trans t.lists_entries.size.symm

theorem endTick_eq (h : Keeps s keys t) : s.endTick = t.endTick := by
  have hmax : ∀ l : List Nat, l.max?.getD 0 = l.foldl max 0 := fun l => by
    rw [List.foldl_max, Nat.zero_max]
  rw [t.lists_entries.endTick, endTick, hmax, hmax]
  exact (h.values.map _).foldl_eq' (fun _ _ _ _ _ => by omega) 0

/-- The order in the arena does not show: no two entries have the same number, so there is one way
only to sort them. -/
theorem events_eq (h : Keeps s keys t) : s.events = t.events := by
  obtain ⟨l, hperm, hl, heq⟩ := t.exists_events_eq
  have hsorted := List.pairwise_mergeSort Entry.notAfter_trans Entry.notAfter_total
    (A.values s.store)
  have hle : l.Pairwise fun a b => a.notAfter b :=
    hl.imp fun hab => Entry.notAfter_iff.2 (hab.imp_right fun hn => ⟨hn.1, Nat.le_of_lt hn.2⟩)
  rw [heq, events]
  congr 1
  have hkept : ((A.values s.store).mergeSort Entry.notAfter).Perm t.entries :=
    (List.mergeSort_perm _ _).trans h.values
  refine List.Perm.eq_of_pairwise ?_ hsorted hle (hkept.trans hperm.symm)
  intro a b ha hb hab hba
  rw [Entry.notAfter_iff] at hab hba
  exact Track.entry_ext (hkept.mem_iff.1 ha) (hperm.mem_iff.1 hb) (by omega)

theorem get?_eq (h : Keeps s keys t) (i : Nat) (hi : i < keys.length) :
    s.get? keys[i] = t.get? i := by
  rw [get?, h.found i hi, Option.map_map]
  cases t.get? i <;> rfl

theorem resembles (h : Keeps s keys t) : Resembles s keys t :=
  ⟨h.events_eq, h.size_eq, h.endTick_eq, h.length, h.get?_eq, h.get?_eq⟩

end Keeps

end Archive

/-- A track is a log of which the entries can be pulled out. It lists what was pushed and not erased
by tick, and what is due on one tick in the order of pushing. A handle finds the event that was
pushed under it until it is erased, and nothing ever after. An archive shows the same in every
arena. -/
theorem Track.retractable_log {Key : Type} (A : Arena Key Entry) (channel : Nat)
    (edits : List Edit) :
    let start : Track := { channel }
    let t := edits.foldl edit start
    let (archive, keys) := edits.foldl Archive.edit (({} : Archive A), [])
    t.Lists (survivors 0 edits) ∧ archive.Resembles keys t ∧
      ∀ before e after, edits = before ++ .push e :: after →
        let handle := (before.foldl edit start).nextHandle
        let (archive, _) := before.foldl Archive.edit (({} : Archive A), [])
        keys[handle]? = some (archive.push e).1 ∧
          t.get? handle = if .erase handle ∈ after then none else some e := by
  intro start t
  have hkeeps := Archive.Keeps.empty (A := A) channel
  refine ⟨?_, (hkeeps.edits edits).resembles, ?_⟩
  · have hleft : t.entries = survivors 0 edits := by
      rw [entries_edits]
      rfl
    rw [← hleft]
    exact t.lists_entries
  · rintro before e after rfl handle
    simp only [t, List.foldl_append, List.foldl_cons]
    exact ⟨(hkeeps.edits before).getElem?_edits_push e after, get?_edits_push _ e after⟩

/-- The event that was pushed last is kept in the cell of the first, which was erased. -/
theorem Track.retractable_log_reused_cell :
    let on (tick key : Nat) : Event := ⟨tick, .noteOn 0 key 64⟩
    let after := [Edit.push (on 3 62), .erase 0, .push (on 3 64)]
    let t := (.push (on 5 60) :: after).foldl edit { channel := 0 }
    let (archive, keys) := (.push (on 5 60) :: after).foldl Archive.edit
      (({} : Archive (Arena.cells Entry)), [])
    keys = [(0, 0), (1, 0), (0, 1)] ∧
      archive.store.map (·.value?) = [some ⟨2, on 3 64⟩, some ⟨1, on 3 62⟩] ∧
      t.get? 0 = none ∧ archive.get? (0, 0) = none ∧ (archive.remove (0, 0)).1 = none ∧
      archive.get? (0, 1) = some (on 3 64) ∧ archive.events = [on 3 62, on 3 64] ∧
      archive.size = 2 := by
  intro on after t
  obtain ⟨hlists, hresembles, hfate⟩ := retractable_log (Arena.cells Entry) 0
    (.push (on 5 60) :: after)
  obtain ⟨-, hgone⟩ := hfate [] (on 5 60) after rfl
  have hevents : t.events = [on 3 62, on 3 64] := by
    have hordered : t.Ordered := by
      unfold Ordered
      decide
    rw [events_eq_written hordered]
    decide
  refine ⟨by decide, by decide, hgone, ?_, ?_, ?_, hresembles.events.trans hevents,
    hresembles.size.trans (hlists.size.trans (by decide))⟩
  · exact (hresembles.get? 0 (by decide)).trans hgone
  · exact (hresembles.remove 0 (by decide)).trans hgone
  · exact (hresembles.get? 2 (by decide)).trans (by decide)

end MidiScore

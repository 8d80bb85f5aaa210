import MidiScore.Proofs.Composition.Plan

/-!
# Compositions built by adding blocks, statements and meetings

In such a composition a block meets at exactly the links of which it is a member, once in each pass,
and in the order in which the links were added (`Composition.Ordered`).
-/

namespace MidiScore

namespace Composition

/-- Compositions that come of adding blocks without meetings, of adding statements that are no
meetings to a block, whatever else of it changes, and of `sync`. -/
inductive Built : Composition → Prop where
  | empty : Built {}
  | addBlock {c : Composition} {b : Block} (built : Built c)
      (plain : meetingsOf b.statements = []) : Built (c.addBlock b).2
  | edit {c : Composition} {output : Nat} {b b' : Block} {added : List Located} (built : Built c)
      (found : c.block? output = some b) (plain : meetingsOf added = [])
      (statements : b'.statements = b.statements ++ added) : Built (c.setBlock output b')
  | sync {c c' : Composition} {outputs : List Nat} {location : Location} (built : Built c)
      (synced : c.sync outputs location = .ok c') : Built c'

/-- The links of which an output is a member, in the order in which they were added. -/
def linksOf (links : List Rendezvous) (output : Nat) : List Nat :=
  (List.range links.length).filter (Ensemble.isMemberAt links output)

/-- The blocks meet at their links in the order of these. -/
structure Ordered (c : Composition) : Prop where
  meetings : ∀ (i : Nat) (b : Block), c.blocks[i]? = some b →
    meetingsOf b.statements = linksOf c.links i
  members : ∀ r ∈ c.links, ∀ m ∈ r.members, m < c.blocks.length
  idle : ∀ r ∈ c.links, r.IsIdle

theorem mem_linksOf {links : List Rendezvous} {l output : Nat} :
    l ∈ linksOf links output ↔ ∃ r, links[l]? = some r ∧ output ∈ r.members := by
  unfold linksOf
  rw [List.mem_filter, List.mem_range, Ensemble.isMemberAt_iff]
  constructor
  · exact And.right
  · rintro ⟨r, found, hmem⟩
    exact ⟨(List.getElem?_eq_some_iff.1 found).1, r, found, hmem⟩

/-- A new link comes last, for its members. -/
theorem linksOf_concat (links : List Rendezvous) (r : Rendezvous) (output : Nat) :
    linksOf (links ++ [r]) output =
      linksOf links output ++ if r.isMember output then [links.length] else [] := by
  unfold linksOf Ensemble.isMemberAt
  rw [List.length_append, List.length_singleton, List.range_succ, List.filter_append]
  congr 1
  · apply List.filter_congr
    intro l hl
    rw [List.getElem?_append_left (List.mem_range.1 hl)]
  · simp [List.filter_cons]

theorem linksOf_eq_nil {links : List Rendezvous} {output : Nat}
    (h : ∀ r ∈ links, output ∉ r.members) : linksOf links output = [] := by
  apply List.eq_nil_iff_forall_not_mem.2
  intro l hl
  obtain ⟨r, found, hmem⟩ := mem_linksOf.1 hl
  exact h r (List.mem_of_getElem? found) hmem

variable {c c' : Composition}

theorem ordered_empty : Ordered {} := by
  refine ⟨?_, ?_, ?_⟩ <;> intros <;> simp_all

theorem Ordered.addBlock (h : c.Ordered) {b : Block} (plain : meetingsOf b.statements = []) :
    (c.addBlock b).2.Ordered := by
  refine ⟨?_, ?_, h.idle⟩
  · intro i b' hb'
    replace hb' : (c.blocks ++ [b])[i]? = some b' := hb'
    rw [List.getElem?_append] at hb'
    split at hb'
    · exact h.meetings i b' hb'
    · next hi =>
      have hnew := List.getElem?_eq_some_iff.1 hb'
      simp at hnew
      rw [← hnew.2, plain]
      refine (linksOf_eq_nil fun r hr hmem => ?_).symm
      exact absurd (h.members r hr i hmem) hi
  · intro r hr m hm
    have hlt := h.members r hr m hm
    show m < (c.blocks ++ [b]).length
    rw [List.length_append]
    omega

theorem Ordered.edit (h : c.Ordered) {output : Nat} {b b' : Block} {added : List Located}
    (found : c.block? output = some b) (plain : meetingsOf added = [])
    (statements : b'.statements = b.statements ++ added) : (c.setBlock output b').Ordered := by
  refine ⟨?_, ?_, h.idle⟩
  · intro i v hv
    replace hv : (c.blocks.set output b')[i]? = some v := hv
    by_cases hi : output = i
    · subst hi
      rw [List.getElem?_set_self (List.getElem?_eq_some_iff.1 found).1] at hv
      cases hv
      rw [statements, meetingsOf_append, plain, List.append_nil]
      exact h.meetings output b found
    · rw [List.getElem?_set_ne hi] at hv
      exact h.meetings i v hv
  · intro r hr m hm
    show m < (c.blocks.set output b').length
    rw [List.length_set]
    exact h.members r hr m hm

/-- The blocks of the outputs, each of which is listed once, get the statement. -/
theorem blocks_pushEach {outputs : List Nat} (nodup : outputs.Nodup) (location : Location)
    (s : Statement) (c : Composition) (i : Nat) :
    (c.pushEach outputs location s).blocks[i]? =
      (c.blocks[i]?).map fun b => if i ∈ outputs then b.pushAt location s else b := by
  induction outputs generalizing c with
  | nil => simp [pushEach]
  | cons output rest ih =>
    obtain ⟨hnot, hrest⟩ := List.nodup_cons.1 nodup
    refine (ih hrest _).trans ?_
    show Option.map _ (c.blocks.modify output _)[i]? = _
    rw [List.getElem?_modify]
    cases c.blocks[i]? with
    | none => rfl
    | some b =>
      by_cases hi : output = i
      · subst hi
        simp [hnot]
      · simp [hi, Ne.symm hi]

theorem links_pushEach (outputs : List Nat) (location : Location) (s : Statement)
    (c : Composition) : (c.pushEach outputs location s).links = c.links := by
  induction outputs generalizing c with
  | nil => rfl
  | cons output rest ih => exact ih _

theorem length_blocks_pushEach (outputs : List Nat) (location : Location) (s : Statement)
    (c : Composition) :
    (c.pushEach outputs location s).blocks.length = c.blocks.length := by
  induction outputs generalizing c with
  | nil => rfl
  | cons output rest ih => exact (ih _).trans (List.length_modify ..)

/-- A new link, at which its members meet after all they did before. -/
theorem Ordered.addLink (h : c.Ordered) {r : Rendezvous} {location : Location} (idle : r.IsIdle)
    (nodup : r.members.Nodup) (known : ∀ m ∈ r.members, m < c.blocks.length)
    (hc : c' = (c.addLink r).2.pushEach r.members location (.meet c.links.length)) :
    c'.Ordered := by
  have hlinks : c'.links = c.links ++ [r] := by
    rw [hc]
    exact links_pushEach ..
  refine ⟨?_, ?_, ?_⟩
  · intro i v hv
    rw [hc, blocks_pushEach nodup] at hv
    obtain ⟨b, hb, rfl⟩ := Option.map_eq_some_iff.1 hv
    have hold := h.meetings i b hb
    rw [hlinks, linksOf_concat, ← hold]
    by_cases hi : i ∈ r.members
    · rw [if_pos hi, if_pos (by simpa [Rendezvous.isMember] using hi)]
      exact meetingsOf_append ..
    · rw [if_neg hi, if_neg (by simpa [Rendezvous.isMember] using hi), List.append_nil]
  · intro r' hr' m hm
    rw [hc, length_blocks_pushEach]
    rw [hlinks] at hr'
    rcases List.mem_append.1 hr' with hr' | hr'
    · exact h.members r' hr' m hm
    · rw [List.mem_singleton.1 hr'] at hm
      exact known m hm
  · intro r' hr'
    rw [hlinks] at hr'
    rcases List.mem_append.1 hr' with hr' | hr'
    · exact h.idle r' hr'
    · rw [List.mem_singleton.1 hr']
      exact idle

theorem Ordered.sync (h : c.Ordered) {outputs : List Nat} {location : Location}
    (synced : c.sync outputs location = .ok c') : c'.Ordered := by
  unfold Composition.sync at synced
  split at synced
  · cases synced
  · next known =>
    split at synced
    · cases synced
    · next r hr =>
      obtain ⟨idle, nodup, hmem⟩ := Rendezvous.of_ofMembers hr
      cases synced
      refine h.addLink idle nodup (fun m hm => ?_) rfl
      have hout := List.find?_eq_none.1 known m ((hmem m).1 hm)
      simpa using hout

theorem Built.ordered (built : c.Built) : c.Ordered := by
  induction built with
  | empty => exact ordered_empty
  | addBlock _ plain ih => exact ih.addBlock plain
  | edit _ found plain statements ih => exact ih.edit found plain statements
  | sync _ synced ih => exact ih.sync synced

end Composition

end MidiScore

import CanTables.Proofs.Assembly.Merge
import CanTables.Proofs.Order.Ranks

/-!
# CanTables.Proofs.Assembly.Gather — which statements a draft is made of

Statements join drafts one after the other, and a draft keeps no record of them.  `Drafts.gather`
keeps one: every statement goes to the group of the draft that it joins, so there is one group for
each draft, and the draft is what the statements of its group make one after the other.  Nothing is
assumed about the statements; where they can be told apart by bus and identifier alone, see
`Groupable`.
-/

namespace CanTables

open Declaration Positions Sorting

/-! ## The draft of a group -/

namespace MessageDraft

/-- What the statements of a group make of the message that they are about. -/
def ofGroup (group : List Statement) : MessageDraft :=
  ofStatements ((group.head?.map Statement.id).getD 0) group

theorem ofGroup_concat {group : List Statement} (h : group ≠ []) (said : Statement) :
    ofGroup (group ++ [said]) = (ofGroup group).join said := by
  rw [ofGroup, List.head?_append_of_ne_nil _ h, ofStatements_concat]
  rfl

end MessageDraft

namespace Drafts

/-- The draft that a statement joins has its identifier, and is on its bus or on none unless the
statement has none itself. -/
theorem target?_eq_some {drafts : Drafts} {bus : Option String} {id : UInt32} {i : Nat}
    (h : drafts.target? bus id = some i) :
    ∃ before d after, drafts = before ++ d :: after ∧ before.length = i ∧ d.id = id ∧
      (bus = none ∨ d.bus = none ∨ d.bus = bus) := by
  unfold target? at h
  cases bus with
  | some name =>
    rcases Option.or_eq_some_iff.mp h with h | ⟨-, h⟩
    · obtain ⟨before, d, after, split, length, same, on, -⟩ := of_findIdx?_bus_eq_some h
      exact ⟨before, d, after, split, length, same, .inr (.inr on)⟩
    · obtain ⟨before, d, after, split, length, same, bare, -⟩ := of_findIdx?_bus_eq_some h
      exact ⟨before, d, after, split, length, same, .inr (.inl bare)⟩
  | none =>
    dsimp only at h
    split at h
    · next hcount =>
      obtain ⟨before, d, after, split, hfind, same, -⟩ := of_countP_eq_one hcount
      rw [hfind] at h
      exact ⟨before, d, after, split, Option.some.inj h, same, .inl rfl⟩
    · cases h

/-! ## Groups -/

section Gathering

variable {α : Type} (say : α → Statement)

/-- The draft of a group of things that state something. -/
def draftOf (group : List α) : MessageDraft := .ofGroup (group.map say)

/-- The groups after one more: it goes to the group of the draft that its statement joins. -/
def gatherOne (groups : List (List α)) (a : α) : List (List α) :=
  match target? (groups.map (draftOf say)) (say a).bus (say a).id with
  | some i => groups.modify i (· ++ [a])
  | none => groups ++ [[a]]

/-- Things that state something, in one group for each draft that their statements make. -/
def gather (l : List α) : List (List α) := l.foldl (gatherOne say) []

variable {say}

/-- One more goes to the end of a group with its identifier that is not on another bus, or begins a
group. -/
theorem gatherOne_cases (say : α → Statement) (groups : List (List α)) (a : α) :
    (∃ before group after, groups = before ++ group :: after ∧
      target? (groups.map (draftOf say)) (say a).bus (say a).id = some before.length ∧
      gatherOne say groups a = before ++ (group ++ [a]) :: after ∧
      (draftOf say group).id = (say a).id ∧
      ((say a).bus = none ∨ (draftOf say group).bus = none ∨
        (draftOf say group).bus = (say a).bus)) ∨
    (target? (groups.map (draftOf say)) (say a).bus (say a).id = none ∧
      gatherOne say groups a = groups ++ [[a]]) := by
  unfold gatherOne
  cases htarget : target? (groups.map (draftOf say)) (say a).bus (say a).id with
  | none => exact .inr ⟨rfl, rfl⟩
  | some i =>
    obtain ⟨before', d, after', split, rfl, same, on⟩ := target?_eq_some htarget
    obtain ⟨before, rest, rfl, rfl, hrest⟩ := List.map_eq_append_iff.mp split
    obtain ⟨group, after, rfl, rfl, rfl⟩ := List.map_eq_cons_iff.mp hrest
    rw [List.length_map]
    exact .inl ⟨before, group, after, rfl, rfl, modify_append_cons .., same, on⟩

/-- A statement has the identifier of the draft of a group, and its bus or none. -/
def About (say : α → Statement) (group : List α) (a : α) : Prop :=
  (say a).id = (draftOf say group).id ∧
    ((say a).bus = none ∨ (say a).bus = (draftOf say group).bus)

theorem draftOf_concat {group : List α} (h : group ≠ []) (a : α) :
    draftOf say (group ++ [a]) = (draftOf say group).join (say a) := by
  rw [draftOf, List.map_append, List.map_singleton,
    MessageDraft.ofGroup_concat (List.map_eq_nil_iff.not.mpr h)]
  rfl

theorem about_singleton (a : α) : About say [a] a := by
  refine ⟨rfl, .inr ?_⟩
  show (say a).bus = (say a).bus.or none
  rw [Option.or_none]

/-- What is said about a draft stays so when one more statement joins it. -/
theorem about_concat {group : List α} (nonempty : group ≠ []) (about : ∀ b ∈ group, About say group b)
    {a : α} (same : (draftOf say group).id = (say a).id)
    (on : (say a).bus = none ∨ (draftOf say group).bus = none ∨
      (draftOf say group).bus = (say a).bus) :
    ∀ b ∈ group ++ [a], About say (group ++ [a]) b := by
  intro b hb
  rw [About, draftOf_concat nonempty, MessageDraft.join_id, MessageDraft.join_bus]
  show _ ∧ (_ ∨ _ = (say a).bus.or (draftOf say group).bus)
  rcases List.mem_append.mp hb with hb | hb
  · obtain ⟨hid, hbus⟩ := about b hb
    refine ⟨hid, ?_⟩
    rcases hbus with hbus | hbus
    · exact .inl hbus
    · rcases on with on | on | on
      · exact .inr (by rw [on, Option.none_or, hbus])
      · exact .inl (hbus.trans on)
      · exact .inr (by rw [← on, Option.or_self, hbus])
  · obtain rfl := List.mem_singleton.mp hb
    refine ⟨same.symm, ?_⟩
    cases (say b).bus with
    | none => exact .inl rfl
    | some name => exact .inr rfl

/-- Groups of statements, one for each draft that the statements make. -/
structure Gathered (say : α → Statement) (l : List α) (groups : List (List α)) : Prop where
  nonempty : ∀ group ∈ groups, group ≠ []
  /-- Everything is in one group, in the order in which it came. -/
  perm : groups.flatten.Perm l
  sublist : ∀ group ∈ groups, group.Sublist l
  about : ∀ group ∈ groups, ∀ a ∈ group, About say group a
  drafts : groups.map (draftOf say) = (l.map say).foldl join []

namespace Gathered

variable {l : List α} {groups : List (List α)} {a : α}

theorem foldl_join_concat (h : Gathered say l groups) :
    ((l ++ [a]).map say).foldl join [] = Drafts.join (groups.map (draftOf say)) (say a) := by
  rw [List.map_append, List.map_singleton, List.foldl_concat, h.drafts]

/-- A statement that joins a draft goes to the end of its group. -/
theorem join_at {before after : List (List α)} {group : List α}
    (h : Gathered say l (before ++ group :: after))
    (target : target? ((before ++ group :: after).map (draftOf say)) (say a).bus (say a).id =
      some before.length)
    (same : (draftOf say group).id = (say a).id)
    (on : (say a).bus = none ∨ (draftOf say group).bus = none ∨
      (draftOf say group).bus = (say a).bus) :
    Gathered say (l ++ [a]) (before ++ (group ++ [a]) :: after) := by
  have hgroup : group ∈ before ++ group :: after := List.mem_append_right _ List.mem_cons_self
  have hnonempty := h.nonempty group hgroup
  have hothers : ∀ other ∈ before ++ (group ++ [a]) :: after,
      other = group ++ [a] ∨ other ∈ before ++ group :: after := by
    intro other hother
    simp only [List.mem_append, List.mem_cons] at hother ⊢
    tauto
  refine ⟨fun other hother => ?_, ?_, fun other hother => ?_, fun other hother => ?_, ?_⟩
  · rcases hothers other hother with rfl | hother
    · exact List.append_ne_nil_of_right_ne_nil _ (List.cons_ne_nil _ _)
    · exact h.nonempty other hother
  · have hperm := h.perm.append_right [a]
    simp only [List.flatten_append, List.flatten_cons, List.append_assoc] at hperm ⊢
    exact ((List.perm_append_comm.append_left group).append_left before.flatten).trans hperm
  · rcases hothers other hother with rfl | hother
    · exact (h.sublist group hgroup).append (List.Sublist.refl _)
    · exact (h.sublist other hother).trans (List.sublist_append_left l [a])
  · rcases hothers other hother with rfl | hother
    · exact about_concat hnonempty (h.about group hgroup) same on
    · exact h.about other hother
  · have hmodify := modify_append_cons (·.join (say a)) (before.map (draftOf say))
      (draftOf say group) (after.map (draftOf say))
    have htarget : target? ((before ++ group :: after).map (draftOf say))
        ((say a).attributes .bus) (say a).id = some before.length := target
    rw [h.foldl_join_concat, join, htarget, List.map_append, List.map_cons, List.map_append,
      List.map_cons, draftOf_concat hnonempty, ← hmodify, List.length_map]

/-- A statement that joins no draft begins a group. -/
theorem begin_at (h : Gathered say l groups)
    (target : target? (groups.map (draftOf say)) (say a).bus (say a).id = none) :
    Gathered say (l ++ [a]) (groups ++ [[a]]) := by
  have hothers : ∀ other ∈ groups ++ [[a]], other = [a] ∨ other ∈ groups := fun other hother =>
    (List.mem_append.mp hother).symm.imp_left List.mem_singleton.mp
  refine ⟨fun other hother => ?_, ?_, fun other hother => ?_, fun other hother => ?_, ?_⟩
  · rcases hothers other hother with rfl | hother
    · exact List.cons_ne_nil _ _
    · exact h.nonempty other hother
  · rw [List.flatten_append, List.flatten_singleton]
    exact h.perm.append_right [a]
  · rcases hothers other hother with rfl | hother
    · exact List.sublist_append_right l [a]
    · exact (h.sublist other hother).trans (List.sublist_append_left l [a])
  · rcases hothers other hother with rfl | hother
    · exact List.forall_mem_singleton.mpr (about_singleton a)
    · exact h.about other hother
  · have htarget : target? (groups.map (draftOf say)) ((say a).attributes .bus) (say a).id =
        none := target
    rw [h.foldl_join_concat, join, htarget, List.map_append]
    rfl

/-- One more statement keeps one group for each draft. -/
theorem concat (h : Gathered say l groups) (a : α) :
    Gathered say (l ++ [a]) (gatherOne say groups a) := by
  rcases gatherOne_cases say groups a with
    ⟨before, group, after, rfl, target, heq, same, on⟩ | ⟨target, heq⟩
  · rw [heq]
    exact h.join_at target same on
  · rw [heq]
    exact h.begin_at target

end Gathered

/-- Whatever the statements are, they are gathered in one group for each draft. -/
theorem gathered (say : α → Statement) (l : List α) : Gathered say l (gather say l) := by
  induction l using List.reverseRecOn with
  | nil => exact ⟨nofun, List.Perm.refl _, nofun, nofun, rfl⟩
  | append_singleton l a ih =>
    rw [gather, List.foldl_concat]
    exact ih.concat a

end Gathering

end Drafts

end CanTables

import CanTables.Proofs.Assembly.Statement
import CanTables.Proofs.Assembly.Groups
import Mathlib.Data.List.Infix
import Mathlib.Data.List.Nodup

/-!
# CanTables.Proofs.Assembly.Unique — when the drafts of an identifier are one for each bus

What statements do to the drafts of an identifier can be told from the buses that they name
(`Drafts.busesOf_join_self`): `place` says how the buses of these drafts change.  From there:

* two drafts of an identifier are never on one bus, but two may be without any.  That happens
  exactly when, after statements on two buses, two statements without a bus follow and no new bus is
  named between them (`TwiceBare`, `forall_nodup_placed_iff`);
* a statement like an earlier one joins a draft, unless it names no bus and the earlier statements
  name two (`Drafts.mergesInto_of_mem`, `Drafts.mergesInto_bare_iff`).
-/

namespace CanTables

open Declaration Document Positions Schema

/-! ## Buses that statements name -/

/-- The buses of the drafts of an identifier after a statement that names one of them, another or
none. -/
def place (buses : List (Option String)) : Option String → List (Option String)
  | none => if buses.length = 1 then buses else buses ++ [none]
  | some name =>
    if some name ∈ buses then buses
    else if none ∈ buses then buses.replace none (some name)
    else buses ++ [some name]

/-- The buses of the drafts of an identifier after statements that name these. -/
def placed (said : List (Option String)) : List (Option String) := said.foldl place []

/-- Two of the statements name different buses. -/
def TwoBuses (said : List (Option String)) : Prop :=
  ∃ one ∈ said, ∃ other ∈ said, one ≠ none ∧ other ≠ none ∧ one ≠ other

/-- After statements on two buses there is one without, and no later one names a new bus. -/
def OpenBare (said : List (Option String)) : Prop :=
  ∃ i < said.length, said[i]? = some none ∧ TwoBuses (said.take i) ∧
    ∀ bus ∈ said, bus ≠ none → bus ∈ said.take i

/-- After statements on two buses there are two without, and none between them names a new bus. -/
def TwiceBare (said : List (Option String)) : Prop :=
  ∃ j < said.length, said[j]? = some none ∧ OpenBare (said.take j)

instance (said : List (Option String)) : Decidable (TwoBuses said) :=
  inferInstanceAs (Decidable (∃ one ∈ said, _))

instance (said : List (Option String)) : Decidable (OpenBare said) :=
  inferInstanceAs (Decidable (∃ i < said.length, _))

instance (said : List (Option String)) : Decidable (TwiceBare said) :=
  inferInstanceAs (Decidable (∃ j < said.length, _))

section Placing

variable {buses said : List (Option String)} {bus : Option String} {name : String}

theorem TwoBuses.mono {more : List (Option String)} (h : TwoBuses said) (hsub : said ⊆ more) :
    TwoBuses more := by
  obtain ⟨one, hone, other, hother, hne⟩ := h
  exact ⟨one, hsub hone, other, hsub hother, hne⟩

theorem OpenBare.twoBuses (h : OpenBare said) : TwoBuses said := by
  obtain ⟨i, -, -, htwo, -⟩ := h
  exact htwo.mono (List.take_subset i said)

theorem TwiceBare.twoBuses (h : TwiceBare said) : TwoBuses said := by
  obtain ⟨j, -, -, hopen⟩ := h
  exact hopen.twoBuses.mono (List.take_subset j said)

theorem twoBuses_concat_none : TwoBuses (said ++ [none]) ↔ TwoBuses said := by
  constructor
  · rintro ⟨one, hone, other, hother, hne⟩
    refine ⟨one, ?_, other, ?_, hne⟩
    · simpa [hne.1] using hone
    · simpa [hne.2.1] using hother
  · exact fun h => h.mono (List.subset_append_left said [none])

theorem take_concat {i : Nat} (h : i < said.length) :
    (said ++ [bus])[i]? = said[i]? ∧ (said ++ [bus]).take i = said.take i :=
  ⟨List.getElem?_append_left h, List.take_append_of_le_length (Nat.le_of_lt h)⟩

/-- What is open stays open as long as the buses that are named are not new. -/
theorem OpenBare.concat (h : OpenBare said) (hbus : bus ≠ none → bus ∈ said) :
    OpenBare (said ++ [bus]) := by
  obtain ⟨i, hi, hbare, htwo, hall⟩ := h
  refine ⟨i, by simp; omega, ?_, ?_, fun other hother hne => ?_⟩
  · rwa [(take_concat hi).1]
  · rwa [(take_concat hi).2]
  · rw [(take_concat hi).2]
    rcases List.mem_append.mp hother with hother | hother
    · exact hall other hother hne
    · obtain rfl := List.mem_singleton.mp hother
      exact hall other (hbus hne) hne

/-- A bus that is named now closes what was open, unless it was named before. -/
theorem openBare_concat_some :
    OpenBare (said ++ [some name]) ↔ OpenBare said ∧ some name ∈ said := by
  constructor
  · rintro ⟨i, hi, hbare, htwo, hall⟩
    have hlt : i < said.length := by
      rw [List.length_append, List.length_singleton] at hi
      by_contra hge
      obtain rfl : i = said.length := by omega
      simp at hbare
    rw [(take_concat hlt).1] at hbare
    rw [(take_concat hlt).2] at htwo hall
    refine ⟨⟨i, hlt, hbare, htwo, fun bus hbus => hall bus (List.mem_append_left _ hbus)⟩, ?_⟩
    exact List.mem_of_mem_take (hall (some name) (by simp) (by simp))
  · rintro ⟨hopen, hname⟩
    exact hopen.concat fun _ => hname

/-- A statement without a bus leaves open what is open, and opens where two buses are named. -/
theorem openBare_concat_none :
    OpenBare (said ++ [none]) ↔ OpenBare said ∨ TwoBuses said := by
  constructor
  · intro h
    exact .inr (twoBuses_concat_none.mp h.twoBuses)
  · rintro (hopen | htwo)
    · exact hopen.concat fun hne => absurd rfl hne
    · refine ⟨said.length, by simp, by simp, by simpa using htwo, fun bus hbus hne => ?_⟩
      simpa [hne] using hbus

theorem twiceBare_concat :
    TwiceBare (said ++ [bus]) ↔ TwiceBare said ∨ (bus = none ∧ OpenBare said) := by
  constructor
  · rintro ⟨j, hj, hbare, hopen⟩
    by_cases hlt : j < said.length
    · rw [(take_concat hlt).1] at hbare
      rw [(take_concat hlt).2] at hopen
      exact .inl ⟨j, hlt, hbare, hopen⟩
    · rw [List.length_append, List.length_singleton] at hj
      obtain rfl : j = said.length := by omega
      exact .inr ⟨by simpa using hbare, by simpa using hopen⟩
  · rintro (⟨j, hlt, hbare, hopen⟩ | ⟨rfl, hopen⟩)
    · refine ⟨j, by simp; omega, ?_, ?_⟩
      · rwa [(take_concat hlt).1]
      · rwa [(take_concat hlt).2]
    · exact ⟨said.length, by simp, by simp, by simpa using hopen⟩

/-! ## Drafts on the buses named -/

theorem replace_perm (h : none ∈ buses) (b : Option String) :
    (buses.replace none b).Perm (b :: buses.erase none) := by
  induction buses with
  | nil => simp at h
  | cons head rest ih =>
    cases head with
    | none => simp
    | some name =>
      have hrest : none ∈ rest := by simpa using h
      have hreplace : (some name :: rest).replace none b = some name :: rest.replace none b := rfl
      rw [hreplace, List.erase_cons_tail (by simp)]
      exact ((ih hrest).cons (some name)).trans (List.Perm.swap b (some name) _)

theorem mem_place_some : some name ∈ place buses bus ↔ some name ∈ buses ∨ bus = some name := by
  cases bus with
  | none =>
    simp only [place]
    split <;> simp
  | some other =>
    simp only [place]
    split
    · next hmem => exact ⟨.inl, fun h => h.elim id fun h => h ▸ hmem⟩
    · split
      · next hbare =>
        have hne : some name ≠ (none : Option String) := by simp
        rw [(replace_perm hbare _).mem_iff, List.mem_cons, List.mem_erase_of_ne hne, or_comm,
          eq_comm (a := some name)]
      · simp [eq_comm]

/-- With one draft for each bus, there is one for each bus afterwards, unless a draft without a bus
is begun beside another. -/
theorem nodup_place (h : buses.Nodup) :
    (place buses bus).Nodup ↔ ¬ (bus = none ∧ none ∈ buses ∧ 2 ≤ buses.length) := by
  cases bus with
  | none =>
    simp only [place, true_and]
    split
    · next hone => exact iff_of_true h (by omega)
    · next hone =>
      have hlength : none ∈ buses → 2 ≤ buses.length := by
        intro hmem
        have := List.length_pos_of_mem hmem
        omega
      rw [List.nodup_append]
      simp only [h, List.nodup_singleton, List.mem_singleton, true_and]
      constructor
      · exact fun hne hmem => hne none hmem.1 none rfl rfl
      · rintro hnot _ hmem _ rfl rfl
        exact hnot ⟨hmem, hlength hmem⟩
  | some name =>
    simp only [place, reduceCtorEq, false_and, not_false_iff, iff_true]
    split
    · exact h
    · next hnew =>
      split
      · next hbare =>
        rw [(replace_perm hbare _).nodup_iff, List.nodup_cons]
        exact ⟨fun hmem => hnew (List.mem_of_mem_erase hmem), h.erase none⟩
      · rw [List.nodup_append]
        refine ⟨h, List.nodup_singleton _, ?_⟩
        rintro _ hmem _ hname rfl
        exact hnew (List.mem_singleton.mp hname ▸ hmem)

/-- A draft without a bus stays as it is if the bus named now has a draft, and is adopted
otherwise. -/
theorem none_mem_place_some (h : buses.Nodup) :
    none ∈ place buses (some name) ↔ none ∈ buses ∧ some name ∈ buses := by
  simp only [place]
  split
  · next hmem => exact (and_iff_left hmem).symm
  · next hnew =>
    split
    · next hbare =>
      rw [(replace_perm hbare _).mem_iff, List.mem_cons, h.mem_erase_iff]
      simp [hnew]
    · next hbare => simp [hbare]

@[simp]
theorem placed_nil : placed [] = [] := rfl

theorem placed_concat : placed (said ++ [bus]) = place (placed said) bus := List.foldl_concat ..

theorem some_mem_placed : some name ∈ placed said ↔ some name ∈ said := by
  induction said using List.reverseRecOn with
  | nil => rfl
  | append_singleton said bus ih =>
    rw [placed_concat, mem_place_some, ih, List.mem_append, List.mem_singleton, eq_comm (a := bus)]

theorem place_ne_nil : place buses bus ≠ [] := by
  cases bus with
  | none =>
    simp only [place]
    split
    · next hone => exact List.ne_nil_of_length_pos (by omega)
    · simp
  | some name => exact List.ne_nil_of_mem (mem_place_some.mpr (.inr rfl))

/-- Two buses named are the buses of two drafts. -/
theorem TwoBuses.two_le_length (h : TwoBuses said) : 2 ≤ (placed said).length := by
  obtain ⟨one, hone, other, hother, hone', hother', hne⟩ := h
  obtain ⟨one, rfl⟩ := Option.ne_none_iff_exists'.mp hone'
  obtain ⟨other, rfl⟩ := Option.ne_none_iff_exists'.mp hother'
  have hsub : [some one, some other] ⊆ placed said := by
    simp [some_mem_placed, hone, hother]
  have hnodup : [some one, some other].Nodup := by simpa using hne
  exact hnodup.length_le_of_subset hsub

/-- Of two drafts that are not on one bus, one is on none or two buses are named. -/
theorem none_mem_or_twoBuses (h : (placed said).Nodup) (hlength : 2 ≤ (placed said).length) :
    none ∈ placed said ∨ TwoBuses said := by
  by_cases hbare : none ∈ placed said
  · exact .inl hbare
  · refine .inr ?_
    obtain ⟨one, other, rest, hplaced⟩ : ∃ one other rest, placed said = one :: other :: rest := by
      match hl : placed said, hlength with
      | one :: other :: rest, _ => exact ⟨one, other, rest, rfl⟩
    have hne : one ≠ other := by
      rw [hplaced] at h
      exact fun heq => (List.nodup_cons.mp h).1 (by simp [heq])
    have hnamed : ∀ bus ∈ placed said, bus ≠ none ∧ bus ∈ said := by
      intro bus hbus
      cases bus with
      | none => exact absurd hbus hbare
      | some name => exact ⟨by simp, some_mem_placed.mp hbus⟩
    have hone := hnamed one (by simp [hplaced])
    have hother := hnamed other (by simp [hplaced])
    exact ⟨one, hone.2, other, hother.2, hone.1, hother.1, hne⟩

/-- As long as there was one draft for each bus, a draft without a bus stands beside another
exactly when a statement without a bus is open. -/
theorem openBare_iff (h : ∀ earlier, earlier <+: said → (placed earlier).Nodup) :
    OpenBare said ↔ none ∈ placed said ∧ 2 ≤ (placed said).length := by
  induction said using List.reverseRecOn with
  | nil => simp [OpenBare]
  | append_singleton said bus ih =>
    have ih := ih fun earlier hearlier => h earlier (List.prefix_concat_iff.mpr (.inr hearlier))
    have hnodup : (placed said).Nodup := h said (List.prefix_append said [bus])
    rw [placed_concat]
    cases bus with
    | none =>
      have htwo : OpenBare said ∨ TwoBuses said ↔ 2 ≤ (placed said).length := by
        constructor
        · rintro (hopen | htwo)
          · exact (ih.mp hopen).2
          · exact htwo.two_le_length
        · intro hlength
          exact (none_mem_or_twoBuses hnodup hlength).imp_left fun hbare => ih.mpr ⟨hbare, hlength⟩
      rw [openBare_concat_none, htwo]
      simp only [place]
      split
      · omega
      · next hone =>
        simp
        omega
    | some name =>
      rw [openBare_concat_some, ih, none_mem_place_some hnodup, some_mem_placed]
      constructor
      · rintro ⟨⟨hbare, hlength⟩, hname⟩
        refine ⟨⟨hbare, hname⟩, ?_⟩
        rwa [place, if_pos (some_mem_placed.mpr hname)]
      · rintro ⟨⟨hbare, hname⟩, hlength⟩
        rw [place, if_pos (some_mem_placed.mpr hname)] at hlength
        exact ⟨⟨hbare, hlength⟩, hname⟩

/-- There is one draft for each bus all the time, unless two statements without a bus follow
statements on two buses with no new bus between them. -/
theorem forall_nodup_placed_iff :
    (∀ earlier, earlier <+: said → (placed earlier).Nodup) ↔ ¬ TwiceBare said := by
  induction said using List.reverseRecOn with
  | nil => simp [TwiceBare]
  | append_singleton said bus ih =>
    have hsplit : (∀ earlier, earlier <+: said ++ [bus] → (placed earlier).Nodup) ↔
        (∀ earlier, earlier <+: said → (placed earlier).Nodup) ∧
          (placed (said ++ [bus])).Nodup := by
      simp only [List.prefix_concat_iff, forall_eq_or_imp]
      exact and_comm
    rw [hsplit, twiceBare_concat, not_or, ← ih]
    refine and_congr_right fun h => ?_
    have hnodup : (placed said).Nodup := h said (List.prefix_refl said)
    rw [placed_concat, nodup_place hnodup, openBare_iff h]

/-- There are two drafts exactly when two buses are named. -/
theorem two_le_length_placed_iff : 2 ≤ (placed said).length ↔ TwoBuses said := by
  refine ⟨fun hlength => ?_, TwoBuses.two_le_length⟩
  by_cases htwice : TwiceBare said
  · exact htwice.twoBuses
  · have h := forall_nodup_placed_iff.mpr htwice
    rcases none_mem_or_twoBuses (h said (List.prefix_refl said)) hlength with hbare | htwo
    · exact ((openBare_iff h).mpr ⟨hbare, hlength⟩).twoBuses
    · exact htwo

end Placing

/-! ## Drafts of an identifier -/

namespace Drafts

/-- The buses of the drafts of an identifier, in order. -/
def busesOf (drafts : Drafts) (id : UInt32) : List (Option String) :=
  (drafts.filter (·.id == id)).map (·.bus)

/-- No two drafts of one identifier are on one bus, nor without a bus. -/
def Unique (drafts : Drafts) : Prop := drafts.Pairwise fun d e => d.id = e.id → d.bus ≠ e.bus

instance (drafts : Drafts) : Decidable drafts.Unique :=
  inferInstanceAs (Decidable (drafts.Pairwise _))

/-- A statement is merged into a draft of its identifier, which is on the bus that the statement
names, if it names one; nothing else changes. -/
def MergesInto (drafts : Drafts) (said : Statement) (drafts' : Drafts) : Prop :=
  ∃ before d after, drafts = before ++ d :: after ∧ d.id = said.id ∧
    (said.bus ≠ none → d.bus = said.bus) ∧ drafts' = before ++ d.join said :: after

variable {drafts drafts' : Drafts} {said : Statement} {id : UInt32}

theorem unique_iff : drafts.Unique ↔ ∀ id, (drafts.busesOf id).Nodup := by
  have hnodup : ∀ id, (drafts.busesOf id).Nodup ↔
      drafts.Pairwise fun d e => d.id = id → e.id = id → d.bus ≠ e.bus := by
    simp only [busesOf, List.Nodup, List.pairwise_map, List.pairwise_filter, beq_iff_eq,
      forall_const]
  simp only [hnodup, Unique, List.pairwise_iff_forall_sublist]
  constructor
  · intro h id d e hsub hd he
    exact h hsub (hd.trans he.symm)
  · intro h d e hsub hid
    exact h e.id hsub hid rfl

theorem length_busesOf : (drafts.busesOf id).length = drafts.countP (·.id == id) := by
  rw [busesOf, List.length_map, List.countP_eq_length_filter]

theorem mem_busesOf {bus : Option String} :
    bus ∈ drafts.busesOf id ↔ ∃ d ∈ drafts, d.id = id ∧ d.bus = bus := by
  simp only [busesOf, List.mem_map, List.mem_filter, beq_iff_eq, and_assoc]

theorem not_mem_busesOf {bus : Option String} :
    bus ∉ drafts.busesOf id ↔ ∀ d ∈ drafts, d.id = id → d.bus ≠ bus := by
  simp only [mem_busesOf, not_exists, not_and]

theorem busesOf_append (before after : Drafts) :
    busesOf (before ++ after) id = before.busesOf id ++ after.busesOf id := by
  simp only [busesOf, List.filter_append, List.map_append]

theorem busesOf_cons_of_eq {d : MessageDraft} (h : d.id = id) :
    busesOf (d :: drafts) id = d.bus :: drafts.busesOf id := by
  simp only [busesOf, List.filter_cons, h, beq_self_eq_true, if_true, List.map_cons]

theorem busesOf_cons_of_ne {d : MessageDraft} (h : d.id ≠ id) :
    busesOf (d :: drafts) id = drafts.busesOf id := by
  simp [busesOf, h]

/-- A statement changes no buses but those of its own identifier. -/
theorem busesOf_join_of_ne (h : said.id ≠ id) : (drafts.join said).busesOf id = drafts.busesOf id := by
  have hmiddle : ∀ {before after : Drafts} {d : MessageDraft}, drafts = before ++ d :: after →
      d.id = said.id → busesOf (before ++ d.join said :: after) id = drafts.busesOf id := by
    intro before after d split same
    have hne : d.id ≠ id := fun hid => h (same.symm.trans hid)
    rw [split, busesOf_append, busesOf_append, busesOf_cons_of_ne hne,
      busesOf_cons_of_ne (d := d.join said) hne]
  have hstep := step_join drafts said
  generalize drafts.join said = drafts' at hstep ⊢
  cases hstep with
  | joined split _ same => exact hmiddle split same
  | adopted split _ same => exact hmiddle split same
  | only split _ same => exact hmiddle split same
  | begun =>
    rw [busesOf_append, busesOf_cons_of_ne h]
    exact List.append_nil _

/-- How a statement changes the buses of its own identifier depends on the bus that it names. -/
theorem busesOf_join_self :
    (drafts.join said).busesOf said.id = place (drafts.busesOf said.id) said.bus := by
  have hmiddle : ∀ {before after : Drafts} {d : MessageDraft}, d.id = said.id →
      busesOf (before ++ d :: after) said.id =
        before.busesOf said.id ++ d.bus :: after.busesOf said.id := by
    intro before after d same
    rw [busesOf_append, busesOf_cons_of_eq same]
  have hstep := step_join drafts said
  generalize drafts.join said = drafts' at hstep ⊢
  cases hstep with
  | @joined before after d name split bus same on first =>
    have hmem : some name ∈ drafts.busesOf said.id :=
      mem_busesOf.mpr ⟨d, by simp [split], same, on⟩
    have hbus : (d.join said).bus = d.bus := by
      rw [MessageDraft.join_bus, bus, on]
      rfl
    rw [show said.bus = some name from bus, place, if_pos hmem, split, hmiddle same,
      hmiddle (d := d.join said) same, hbus]
  | @adopted before after d name split bus same bare new first =>
    have hbus : (d.join said).bus = some name := by
      rw [MessageDraft.join_bus, bus]
      rfl
    have hbuses : drafts.busesOf said.id =
        before.busesOf said.id ++ none :: after.busesOf said.id := by
      rw [split, hmiddle same, bare]
    rw [show said.bus = some name from bus, place, if_neg (not_mem_busesOf.mpr new),
      if_pos (by simp [hbuses]), hbuses, List.replace_append, if_neg (not_mem_busesOf.mpr first),
      hmiddle (d := d.join said) same, hbus]
    rfl
  | @only before after d split bus same others =>
    have hnone : ∀ part : Drafts, part ⊆ before ++ after → part.busesOf said.id = [] := by
      intro part hpart
      rw [List.eq_nil_iff_forall_not_mem]
      exact fun b => not_mem_busesOf.mpr fun e he hid => absurd hid (others e (hpart he))
    have hbus : (d.join said).bus = d.bus := by
      rw [MessageDraft.join_bus, bus]
      rfl
    rw [show said.bus = none from bus, split, hmiddle same, hmiddle (d := d.join said) same, hbus,
      hnone before (by simp), hnone after (by simp)]
    rfl
  | begun named bare =>
    have hbus : ((MessageDraft.blank said.id).join said).bus = said.bus := by
      rw [MessageDraft.join_bus, MessageDraft.blank_bus, Option.or_none]
      rfl
    have hid : ((MessageDraft.blank said.id).join said).id = said.id := rfl
    rw [busesOf_append, busesOf_cons_of_eq hid, hbus]
    cases hsaid : said.bus with
    | none =>
      have hcount := bare hsaid
      rw [← length_busesOf] at hcount
      rw [place, if_neg hcount]
      rfl
    | some name =>
      have hnew := named name hsaid
      rw [place, if_neg (not_mem_busesOf.mpr fun e he hid => (hnew e he hid).1),
        if_neg (not_mem_busesOf.mpr fun e he hid => (hnew e he hid).2)]
      rfl

/-- A statement about a bus that has a draft is merged into that draft. -/
theorem mergesInto_of_mem {name : String} (hbus : said.bus = some name)
    (hmem : some name ∈ drafts.busesOf said.id) : drafts.MergesInto said (drafts.join said) := by
  obtain ⟨e, he, hid, hon⟩ := mem_busesOf.mp hmem
  have hstep := step_join drafts said
  generalize drafts.join said = drafts' at hstep ⊢
  cases hstep with
  | joined split bus same on =>
    exact ⟨_, _, _, split, same, fun _ => on.trans bus.symm, rfl⟩
  | adopted split bus same bare new =>
    exact absurd (hon.trans (hbus.symm.trans bus)) (new e he hid)
  | only split bus => exact nomatch hbus.symm.trans bus
  | begun named bare => exact absurd hon (named name hbus e he hid).1

/-- A statement without a bus is merged into a draft exactly when its identifier has only one. -/
theorem mergesInto_bare_iff (hbus : said.bus = none) :
    drafts.MergesInto said (drafts.join said) ↔ (drafts.busesOf said.id).length = 1 := by
  constructor
  · rintro ⟨before, d, after, split, -, -, hjoin⟩
    have hlength : (place (drafts.busesOf said.id) none).length =
        (drafts.busesOf said.id).length := by
      rw [← hbus, ← busesOf_join_self, hjoin, split, length_busesOf, length_busesOf]
      simp only [List.countP_append, List.countP_cons, MessageDraft.join_id]
      rfl
    by_contra hcount
    rw [place, if_neg hcount, List.length_append] at hlength
    simp at hlength
  · intro hcount
    rw [length_busesOf] at hcount
    have hstep := step_join drafts said
    generalize drafts.join said = drafts' at hstep ⊢
    cases hstep with
    | joined split bus => exact nomatch hbus.symm.trans bus
    | adopted split bus => exact nomatch hbus.symm.trans bus
    | only split bus same => exact ⟨_, _, _, split, same, fun hne => absurd hbus hne, rfl⟩
    | begun named bare => exact absurd hcount (bare hbus)

/-! ## Runs of message objects -/

/-- What a message object says, if it is accepted and says anything. -/
def said? (c : Call) : Option Statement := (Statement.read c.1 c.2).toOption.join

/-- The buses that message objects name for an identifier, one for each object that says something
about it. -/
def busesSaid (calls : List Call) (id : UInt32) : List (Option String) :=
  calls.filterMap fun c => (said? c).bind fun said => if said.id = id then some said.bus else none

theorem busesOf_foldlM_add {calls : List Call} (h : calls.foldlM add drafts = .ok drafts') :
    drafts'.busesOf id = (busesSaid calls id).foldl place (drafts.busesOf id) := by
  induction calls generalizing drafts with
  | nil =>
    obtain rfl := Except.ok.inj h
    rfl
  | cons c rest ih =>
    rw [List.foldlM_cons, Except.bind_eq_ok_iff] at h
    obtain ⟨next, hadd, hrest⟩ := h
    obtain ⟨read, hread, hnext⟩ := Except.bind_eq_ok_iff.mp hadd
    have hsaid : said? c = read := by rw [said?, hread]; rfl
    rw [ih hrest]
    conv_rhs => rw [busesSaid, List.filterMap_cons, hsaid]
    cases read with
    | none =>
      obtain rfl := Except.ok.inj hnext
      rfl
    | some said =>
      obtain rfl := Except.ok.inj hnext
      by_cases hid : said.id = id
      · subst hid
        simp only [Option.bind_some, if_true, List.foldl_cons, busesOf_join_self, busesSaid]
      · simp only [Option.bind_some, if_neg hid, busesOf_join_of_ne hid, busesSaid]

theorem busesOf_of_calls {calls : List Call} (h : calls.foldlM add [] = .ok drafts) :
    drafts.busesOf id = placed (busesSaid calls id) := busesOf_foldlM_add h

/-- A run that succeeds also does so up to any point. -/
theorem exists_of_prefix {calls earlier : List Call} (h : calls.foldlM add [] = .ok drafts)
    (hearlier : earlier <+: calls) : ∃ before, earlier.foldlM add [] = .ok before := by
  obtain ⟨later, rfl⟩ := hearlier
  rw [List.foldlM_append, Except.bind_eq_ok_iff] at h
  obtain ⟨before, hbefore, -⟩ := h
  exact ⟨before, hbefore⟩

/-- Message objects that are merged one after the other never make two drafts for one identifier on
one bus.  All the time they make no two drafts for one identifier without a bus either, exactly if
there are no two objects without a bus that follow objects about two buses and have no object about
a new bus between them.  An object that names the bus of an earlier one, or none like an earlier
one, is merged into a draft that is there, exactly if it names a bus or the earlier objects do not
name two. -/
theorem unique_iff_not_twiceBare {calls : List Call} (h : calls.foldlM add [] = .ok drafts) :
    drafts.Distinct ∧
      ((∀ earlier, earlier <+: calls → ∀ before, earlier.foldlM add [] = .ok before →
          before.Unique) ↔ ∀ id, ¬ TwiceBare (busesSaid calls id)) ∧
      ∀ (c : Call) (said : Statement), Statement.read c.1 c.2 = .ok (some said) →
        said.bus ∈ busesSaid calls said.id →
        ((∃ drafts', drafts.add c = .ok drafts' ∧ drafts.MergesInto said drafts') ↔
          (said.bus ≠ none ∨ ¬ TwoBuses (busesSaid calls said.id))) := by
  refine ⟨Distinct.foldlM_add List.Pairwise.nil h, ?_, fun c said hread hsaid => ?_⟩
  · simp only [← forall_nodup_placed_iff]
    constructor
    · intro hunique id buses hbuses
      obtain ⟨earlier, hearlier, rfl⟩ := List.prefix_filterMap_iff.mp hbuses
      obtain ⟨before, hbefore⟩ := exists_of_prefix h hearlier
      have hnodup := unique_iff.mp (hunique earlier hearlier before hbefore) id
      rwa [busesOf_of_calls hbefore] at hnodup
    · intro hnodup earlier hearlier before hbefore
      rw [unique_iff]
      intro id
      rw [busesOf_of_calls hbefore]
      exact hnodup id _ (hearlier.filterMap _)
  · have hadd : ∀ drafts', drafts.add c = .ok drafts' ↔ drafts' = drafts.join said := by
      intro drafts'
      rw [add, hread]
      exact eq_comm.trans ⟨fun heq => by cases heq; rfl, fun heq => by rw [heq]; rfl⟩
    simp only [hadd, exists_eq_left]
    cases hbus : said.bus with
    | some name =>
      have hmem : some name ∈ drafts.busesOf said.id := by
        rw [busesOf_of_calls h, some_mem_placed, ← hbus]
        exact hsaid
      exact iff_of_true (mergesInto_of_mem hbus hmem) (.inl (by simp))
    | none =>
      have hne : busesSaid calls said.id ≠ [] := List.ne_nil_of_mem hsaid
      have hpos : 0 < (placed (busesSaid calls said.id)).length := by
        rw [← List.dropLast_append_getLast hne, placed_concat]
        exact List.length_pos_of_ne_nil place_ne_nil
      rw [mergesInto_bare_iff hbus, busesOf_of_calls h, ← two_le_length_placed_iff]
      simp only [ne_eq, not_true, false_or]
      omega

/-- An object about the identifier 256 on a bus. -/
def onBus (name : String) : Call := ("0x100", .object [("bus", .text name)])

/-- An object about the identifier 256 that names no bus. -/
def onNone (name : String) : Call := ("256", .object [("name", .text name)])

/-- Between the two objects without a bus a third bus comes up, which adopts the first of them. -/
def adopting : List Call := [onBus "hs", onBus "ms", onNone "a", onBus "ls", onNone "b"]

theorem not_twiceBare_adopting (id : UInt32) : ¬ TwiceBare (busesSaid adopting id) := by
  by_cases hid : (256 : UInt32) = id
  · subst hid
    decide +kernel
  · have hother : busesSaid adopting id = [] := by
      refine List.filterMap_eq_nil_iff.mpr fun c hc => ?_
      have hids : ∀ c ∈ adopting, ∀ said ∈ said? c, said.id = 256 := by decide +kernel
      cases hsaid : said? c with
      | none => rfl
      | some said => exact if_neg (hids c hc said hsaid ▸ hid)
    rw [hother]
    decide

theorem unique_iff_not_twiceBare_adopting : ∃ drafts, adopting.foldlM add [] = .ok drafts ∧
    drafts.map (·.bus) = [some "hs", some "ms", some "ls", none] ∧ drafts.Distinct ∧
    drafts.Unique ∧ ∃ drafts', drafts.add (onBus "ms") = .ok drafts' ∧
      drafts.MergesInto (Call.said (onBus "ms")) drafts' := by
  have hany : (adopting.foldlM add []).toOption.any (fun drafts =>
      drafts.map (·.bus) = [some "hs", some "ms", some "ls", none]) = true := by
    decide +kernel
  obtain ⟨drafts, hdrafts, hbuses⟩ := Except.exists_of_any_toOption hany
  obtain ⟨hdistinct, hunique, hmerges⟩ := unique_iff_not_twiceBare hdrafts
  refine ⟨drafts, hdrafts, of_decide_eq_true hbuses, hdistinct, ?_, ?_⟩
  · exact hunique.mpr not_twiceBare_adopting _ (List.prefix_refl _) drafts hdrafts
  · have hany : (Statement.read (onBus "ms").1 (onBus "ms").2).toOption.any (fun _ => true) = true := by
      decide +kernel
    obtain ⟨said, hread, -⟩ := Except.exists_of_any_toOption hany
    obtain rfl := Statement.read_object_eq_ok rfl hread
    exact (hmerges _ _ hread (by decide +kernel)).mpr (.inl (by decide +kernel))

/-- After objects about two buses, two objects without a bus make two messages without one. -/
theorem not_forall_unique :
    ¬ ∀ (calls : List Call) (drafts : Drafts), calls.foldlM add [] = .ok drafts → drafts.Unique := by
  intro h
  have hany : ([onBus "hs", onBus "ms", onNone "a", onNone "b"].foldlM add []).toOption.any
      (fun drafts => ¬ drafts.Unique) = true := by
    decide +kernel
  obtain ⟨drafts, hdrafts, hnot⟩ := Except.exists_of_any_toOption hany
  exact of_decide_eq_true hnot (h _ drafts hdrafts)

end Drafts

end CanTables

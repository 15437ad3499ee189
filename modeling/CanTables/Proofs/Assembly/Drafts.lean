import CanTables.Assembly.Assemble
import CanTables.Proofs.Journal
import CanTables.Proofs.Order.Keyed
import CanTables.Proofs.Order.Positions

/-!
# CanTables.Proofs.Assembly.Drafts — what one statement does to the drafts

`Drafts.step_join` takes the search for the draft that a statement joins apart into four cases: it
joins the draft of its identifier on its bus, adopts one without a bus, joins the only draft of its
identifier, or begins a new one.  What a run of statements keeps is proved case by case from there.

No two drafts on one bus ever have the same identifier (`Drafts.Distinct`).
-/

namespace CanTables

open Declaration Document Positions Schema

/-! ## Drafts after one statement -/

namespace MessageDraft

@[simp]
theorem join_id (d : MessageDraft) (said : Statement) : (d.join said).id = d.id := rfl

/-- An attribute is the one said last. -/
theorem join_attributes (d : MessageDraft) (said : Statement) {a : MessageAttribute}
    (ha : a ≠ .signals) : (d.join said).attributes a = (said.attributes a).or (d.attributes a) := by
  cases a <;> first | rfl | exact absurd rfl ha

theorem join_bus (d : MessageDraft) (said : Statement) :
    (d.join said).bus = (said.attributes .bus).or d.bus := rfl

@[simp]
theorem blank_id (id : UInt32) : (blank id).id = id := rfl

@[simp]
theorem blank_bus (id : UInt32) : (blank id).bus = none := rfl

/-- What is known of signals with more about one of them on top. -/
abbrev addOrdered (signals : OrderedKeyed String SignalLayer) (entry : String × SignalLayer) :
    OrderedKeyed String SignalLayer := ⟨addSignal signals entry, signals.ordered.upsert _ _⟩

theorem foldl_addSignal_ordered (signals : OrderedKeyed String SignalLayer)
    (said : List (String × SignalLayer)) : (said.foldl addSignal signals).Ordered := by
  induction said generalizing signals with
  | nil => exact signals.ordered
  | cons entry rest ih => exact ih (addOrdered signals entry)

end MessageDraft

/-! ## The draft that a statement joins -/

namespace Drafts

/-- What a statement does to the drafts. -/
inductive Step (drafts : Drafts) (said : Statement) : Drafts → Prop
  /-- It joins the first draft of its identifier on its bus. -/
  | joined {before after : Drafts} {d : MessageDraft} {name : String}
      (split : drafts = before ++ d :: after) (bus : said.attributes .bus = some name)
      (same : d.id = said.id) (on : d.bus = some name)
      (first : ∀ e ∈ before, e.id = said.id → e.bus ≠ some name) :
      Step drafts said (before ++ d.join said :: after)
  /-- It takes the first draft of its identifier without a bus to its bus, where none is yet. -/
  | adopted {before after : Drafts} {d : MessageDraft} {name : String}
      (split : drafts = before ++ d :: after) (bus : said.attributes .bus = some name)
      (same : d.id = said.id) (bare : d.bus = none)
      (new : ∀ e ∈ drafts, e.id = said.id → e.bus ≠ some name)
      (first : ∀ e ∈ before, e.id = said.id → e.bus ≠ none) :
      Step drafts said (before ++ d.join said :: after)
  /-- It has no bus and joins the only draft of its identifier. -/
  | only {before after : Drafts} {d : MessageDraft} (split : drafts = before ++ d :: after)
      (bus : said.attributes .bus = none) (same : d.id = said.id)
      (others : ∀ e ∈ before ++ after, e.id ≠ said.id) :
      Step drafts said (before ++ d.join said :: after)
  /-- It begins a draft. -/
  | begun
      (named : ∀ name, said.attributes .bus = some name →
        ∀ e ∈ drafts, e.id = said.id → e.bus ≠ some name ∧ e.bus ≠ none)
      (bare : said.attributes .bus = none → drafts.countP (·.id == said.id) ≠ 1) :
      Step drafts said (drafts ++ [(MessageDraft.blank said.id).join said])

theorem of_findIdx?_bus_eq_none {drafts : Drafts} {id : UInt32} {bus : Option String}
    (h : drafts.findIdx? (fun d => d.id == id && d.bus == bus) = none) :
    ∀ e ∈ drafts, e.id = id → e.bus ≠ bus := by
  intro e he hid hbus
  have := List.findIdx?_eq_none_iff.mp h e he
  simp [hid, hbus] at this

theorem of_findIdx?_bus_eq_some {drafts : Drafts} {id : UInt32} {bus : Option String} {i : Nat}
    (h : drafts.findIdx? (fun d => d.id == id && d.bus == bus) = some i) :
    ∃ before d after, drafts = before ++ d :: after ∧ before.length = i ∧ d.id = id ∧
      d.bus = bus ∧ ∀ e ∈ before, e.id = id → e.bus ≠ bus := by
  obtain ⟨before, d, after, hsplit, hlen, hd, hbefore⟩ := exists_append_of_findIdx? h
  rw [Bool.and_eq_true, beq_iff_eq, beq_iff_eq] at hd
  refine ⟨before, d, after, hsplit, hlen, hd.1, hd.2, fun e he hid hbus => ?_⟩
  have := hbefore e he
  simp [hid, hbus] at this

/-- Where one draft has an identifier, the first one that has it is the only one. -/
theorem of_countP_eq_one {drafts : Drafts} {id : UInt32}
    (h : drafts.countP (·.id == id) = 1) :
    ∃ before d after, drafts = before ++ d :: after ∧
      drafts.findIdx? (·.id == id) = some before.length ∧ d.id = id ∧
      ∀ e ∈ before ++ after, e.id ≠ id := by
  cases hfind : drafts.findIdx? (·.id == id) with
  | none =>
    have hzero : drafts.countP (·.id == id) = 0 := by
      rw [List.countP_eq_zero]
      intro e he
      rw [List.findIdx?_eq_none_iff.mp hfind e he]
      exact Bool.false_ne_true
    omega
  | some i =>
    obtain ⟨before, d, after, hsplit, hlen, hd, hbefore⟩ := exists_append_of_findIdx? hfind
    have hafter : after.countP (·.id == id) = 0 := by
      rw [hsplit, List.countP_append, List.countP_cons, if_pos hd] at h
      omega
    refine ⟨before, d, after, hsplit, by rw [hlen], beq_iff_eq.mp hd, fun e he hid => ?_⟩
    rcases List.mem_append.mp he with he | he
    · have := hbefore e he
      simp [hid] at this
    · exact List.countP_eq_zero.mp hafter e he (beq_iff_eq.mpr hid)

/-- A statement joins, adopts or begins a draft. -/
theorem step_join (drafts : Drafts) (said : Statement) : Step drafts said (drafts.join said) := by
  unfold join
  -- The carrier of the attribute is named as a text, which the searches below compare.
  obtain ⟨bus, hbus⟩ : ∃ bus : Option String, said.attributes .bus = bus := ⟨_, rfl⟩
  rw [hbus]
  unfold target?
  cases bus with
  | some name =>
    simp only
    cases hnamed : drafts.findIdx? fun d => d.id == said.id && d.bus == some name with
    | some i =>
      obtain ⟨before, d, after, hsplit, rfl, hid, hon, hfirst⟩ := of_findIdx?_bus_eq_some hnamed
      simp only [Option.some_or]
      rw [hsplit, modify_append_cons]
      exact .joined rfl hbus hid hon hfirst
    | none =>
      have hnew := of_findIdx?_bus_eq_none hnamed
      simp only [Option.none_or]
      cases hbare : drafts.findIdx? fun d => d.id == said.id && d.bus == none with
      | some i =>
        obtain ⟨before, d, after, hsplit, rfl, hid, hon, hfirst⟩ := of_findIdx?_bus_eq_some hbare
        simp only
        rw [hsplit, modify_append_cons]
        exact .adopted rfl hbus hid hon (hsplit ▸ hnew) hfirst
      | none =>
        have hnone := of_findIdx?_bus_eq_none hbare
        refine .begun (fun name' hname' e he hid => ?_) (fun hnone' => nomatch hbus.symm.trans hnone')
        cases hbus.symm.trans hname'
        exact ⟨hnew e he hid, hnone e he hid⟩
  | none =>
    simp only
    by_cases hcount : drafts.countP (·.id == said.id) = 1
    · obtain ⟨before, d, after, hsplit, hfind, hid, hothers⟩ := of_countP_eq_one hcount
      rw [if_pos hcount, hfind]
      simp only
      rw [hsplit, modify_append_cons]
      exact .only rfl hbus hid hothers
    · rw [if_neg hcount]
      exact .begun (fun name hname => nomatch hbus.symm.trans hname) (fun _ => hcount)

/-! ## One draft for an identifier on a bus -/

/-- Two drafts of one identifier are not on one bus. -/
def Apart (a b : MessageDraft) : Prop := a.id = b.id → a.bus = b.bus → a.bus = none

theorem Apart.symm {a b : MessageDraft} (h : Apart a b) : Apart b a := by
  intro hid hbus
  rw [hbus]
  exact hbus ▸ h hid.symm hbus.symm

/-- No two drafts of one identifier are on one bus. -/
def Distinct (drafts : Drafts) : Prop := drafts.Pairwise Apart

theorem Distinct.others {before after : Drafts} {d : MessageDraft}
    (h : Distinct (before ++ d :: after)) : ∀ e ∈ before ++ after, Apart d e := by
  have := (List.pairwise_middle Apart.symm).mp h
  exact (List.pairwise_cons.mp this).1

/-- A draft may change as long as it stays apart from the others. -/
theorem Distinct.replace {before after : Drafts} {d d' : MessageDraft}
    (h : Distinct (before ++ d :: after)) (hd' : ∀ e ∈ before ++ after, Apart d' e) :
    Distinct (before ++ d' :: after) := by
  have := (List.pairwise_middle Apart.symm).mp h
  exact (List.pairwise_middle Apart.symm).mpr
    (List.pairwise_cons.mpr ⟨hd', (List.pairwise_cons.mp this).2⟩)

/-- One statement keeps the drafts apart. -/
theorem Distinct.join {drafts : Drafts} (h : drafts.Distinct) (said : Statement) :
    (drafts.join said).Distinct := by
  have hstep := step_join drafts said
  generalize drafts.join said = drafts' at hstep ⊢
  cases hstep with
  | @joined before after d name split bus same on first =>
    subst split
    have hbus : (d.join said).bus = d.bus := by
      rw [MessageDraft.join_bus, bus, on]
      rfl
    refine h.replace fun e he hid hbus' => ?_
    rw [hbus] at hbus' ⊢
    exact h.others e he hid hbus'
  | @adopted before after d name split bus same bare new first =>
    subst split
    refine h.replace fun e he hid hbus' => ?_
    rw [MessageDraft.join_bus, bus] at hbus'
    have he' : e ∈ before ++ d :: after := by
      rcases List.mem_append.mp he with he | he
      · exact List.mem_append_left _ he
      · exact List.mem_append_right _ (List.mem_cons_of_mem _ he)
    exact absurd hbus'.symm (new e he' (hid.symm.trans same))
  | @only before after d split bus same others =>
    subst split
    refine h.replace fun e he hid => ?_
    exact absurd (hid.symm.trans same) (others e he)
  | begun named bare =>
    refine List.pairwise_append.mpr ⟨h, List.pairwise_singleton _ _, fun e he d hd hid hbus => ?_⟩
    rw [List.mem_singleton.mp hd] at hid hbus
    obtain ⟨bus, hsaid⟩ : ∃ bus : Option String, said.attributes .bus = bus := ⟨_, rfl⟩
    rw [MessageDraft.join_bus, hsaid, MessageDraft.blank_bus, Option.or_none] at hbus
    cases bus with
    | none => exact hbus
    | some name => exact absurd hbus (named name hsaid e he hid).1

theorem add_eq_ok {drafts drafts' : Drafts} {entry : String × Value}
    (h : drafts.add entry = .ok drafts') :
    drafts' = drafts ∨
      ∃ said, Statement.read entry.1 entry.2 = .ok (some said) ∧ drafts' = drafts.join said := by
  obtain ⟨said?, hread, h⟩ := Except.bind_eq_ok_iff.mp h
  cases said? with
  | none => exact .inl (Except.ok.inj h).symm
  | some said => exact .inr ⟨said, hread, (Except.ok.inj h).symm⟩

/-- A run of statements keeps the drafts apart. -/
theorem Distinct.foldlM_add {drafts drafts' : Drafts} (h : drafts.Distinct)
    {entries : List (String × Value)} (hrun : entries.foldlM add drafts = .ok drafts') :
    drafts'.Distinct := by
  refine Except.foldlM_induction ?_ h hrun
  intro drafts entry drafts' h hadd
  rcases add_eq_ok hadd with rfl | ⟨said, -, rfl⟩
  · exact h
  · exact h.join said

end Drafts

/-- The drafts of a message set are apart. -/
theorem mergeMessages_distinct {contributed own : List (String × Value)} {drafts : Drafts}
    (h : mergeMessages contributed own = .ok drafts) : drafts.Distinct := by
  obtain ⟨first, hfirst, h⟩ := Except.bind_eq_ok_iff.mp h
  obtain ⟨canonical, -, h⟩ := Except.bind_eq_ok_iff.mp h
  exact (Drafts.Distinct.foldlM_add List.Pairwise.nil hfirst).foldlM_add h

end CanTables

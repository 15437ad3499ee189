import CanTables.Proofs.Assembly.Drafts
import Mathlib.Data.List.Induction
import Mathlib.Data.List.Perm.Basic

/-!
# CanTables.Proofs.Assembly.Groups — statements grouped by the message they are about

Where all statements about an identifier name a bus, or all that do name the same one, it does not
depend on the order of the statements which message each of them is about (`groupKey`).  The drafts
are then one for each group, each what its own statements make of it one after the other: a
statement about a bus never joins the draft of another one, and one that comes before any bus is
known is not lost.
-/

namespace CanTables

open Declaration Positions

/-! ## Groups -/

/-- The bus that a statement names. -/
def Statement.bus (said : Statement) : Option String := said.attributes .bus

/-- The bus that the statements about an identifier name first. -/
def commonBus (layers : List Statement) (id : UInt32) : Option String :=
  layers.findSome? fun said => if said.id = id then said.bus else none

/-- What tells messages apart: a bus, if there is one, and an identifier. -/
abbrev MessageKey := Option String × UInt32

/-- The message that a statement is about.  A statement without a bus is about the message on the
bus that other statements about its identifier name. -/
def groupKey (layers : List Statement) (said : Statement) : MessageKey :=
  (said.bus.or (commonBus layers said.id), said.id)

/-- Which message a statement is about does not depend on the order: for each identifier, all
statements name a bus, or all that do name the same one. -/
def Groupable (layers : List Statement) : Prop :=
  ∀ id, (∀ said ∈ layers, said.id = id → said.bus ≠ none) ∨
    ∀ said ∈ layers, ∀ other ∈ layers, said.id = id → other.id = id →
      said.bus ≠ none → other.bus ≠ none → said.bus = other.bus

/-- Only the identifiers that occur have to be looked at. -/
instance (layers : List Statement) : Decidable (Groupable layers) :=
  decidable_of_iff (∀ one ∈ layers, (∀ said ∈ layers, said.id = one.id → said.bus ≠ none) ∨
      ∀ said ∈ layers, ∀ other ∈ layers, said.id = one.id → other.id = one.id →
        said.bus ≠ none → other.bus ≠ none → said.bus = other.bus) <| by
    constructor
    · intro h id
      by_cases hid : ∃ one ∈ layers, one.id = id
      · obtain ⟨one, hone, rfl⟩ := hid
        exact h one hone
      · exact .inl fun said hsaid hid' => absurd ⟨said, hsaid, hid'⟩ hid
    · intro h one _
      exact h one.id

theorem exists_of_commonBus {layers : List Statement} {id : UInt32} {name : String}
    (h : commonBus layers id = some name) :
    ∃ said ∈ layers, said.id = id ∧ said.bus = some name := by
  obtain ⟨said, hsaid, hbus⟩ := List.exists_of_findSome?_eq_some h
  rw [Option.ite_none_right_eq_some] at hbus
  exact ⟨said, hsaid, hbus⟩

theorem exists_commonBus {layers : List Statement} {said : Statement} (h : said ∈ layers)
    {name : String} (hbus : said.bus = some name) : ∃ name', commonBus layers said.id = some name' := by
  rw [← Option.isSome_iff_exists, commonBus, List.findSome?_isSome_iff]
  exact ⟨said, h, by rw [if_pos rfl, hbus]; rfl⟩

theorem groupKey_of_bus {layers : List Statement} {said : Statement} {name : String}
    (h : said.bus = some name) : groupKey layers said = (some name, said.id) := by
  rw [groupKey, h, Option.some_or]

theorem groupKey_of_bare {layers : List Statement} {said : Statement} (h : said.bus = none) :
    groupKey layers said = (commonBus layers said.id, said.id) := by
  rw [groupKey, h, Option.none_or]

namespace Groupable

variable {layers : List Statement}

/-- Where a statement names no bus, all that do name the same one. -/
theorem bus_eq (h : Groupable layers) {bare said other : Statement} (hbare : bare ∈ layers)
    (hsaid : said ∈ layers) (hother : other ∈ layers) (hid : said.id = bare.id)
    (hid' : other.id = bare.id) (hnone : bare.bus = none) {name name' : String}
    (hname : said.bus = some name) (hname' : other.bus = some name') : name = name' := by
  rcases h bare.id with hall | hsame
  · exact absurd hnone (hall bare hbare rfl)
  · have hbus := hsame said hsaid other hother hid hid' (by rw [hname]; nofun)
      (by rw [hname']; nofun)
    rw [hname, hname'] at hbus
    exact Option.some.inj hbus

/-- Where a statement names no bus, all statements about its identifier are about one message. -/
theorem groupKey_eq (h : Groupable layers) {bare said : Statement} (hbare : bare ∈ layers)
    (hsaid : said ∈ layers) (hid : said.id = bare.id) (hnone : bare.bus = none) :
    groupKey layers said = groupKey layers bare := by
  cases hbus : said.bus with
  | none => rw [groupKey_of_bare hbus, groupKey_of_bare hnone, hid]
  | some name =>
    obtain ⟨name', hcommon⟩ := exists_commonBus hsaid hbus
    obtain ⟨other, hother, hid', hname'⟩ := exists_of_commonBus hcommon
    rw [groupKey_of_bus hbus, groupKey_of_bare hnone, ← hid, hcommon,
      h.bus_eq hbare hsaid hother hid (hid'.trans hid) hnone hbus hname']

end Groupable

/-! ## The draft of a group -/

namespace MessageDraft

/-- What statements make of a message, one after the other. -/
def ofStatements (id : UInt32) (group : List Statement) : MessageDraft :=
  group.foldl join (blank id)

theorem ofStatements_concat (id : UInt32) (group : List Statement) (said : Statement) :
    ofStatements id (group ++ [said]) = (ofStatements id group).join said := by
  rw [ofStatements, List.foldl_concat]
  rfl

theorem ofStatements_id (id : UInt32) (group : List Statement) : (ofStatements id group).id = id := by
  induction group using List.reverseRecOn with
  | nil => rfl
  | append_singleton group said ih => rw [ofStatements_concat, join_id, ih]

/-- Every attribute is the one that was said last. -/
theorem ofStatements_attributes (id : UInt32) (group : List Statement) {a : MessageAttribute}
    (ha : a ≠ .signals) :
    (ofStatements id group).attributes a = (group.filterMap (·.attributes a)).getLast? := by
  induction group using List.reverseRecOn with
  | nil => rfl
  | append_singleton group said ih =>
    rw [ofStatements_concat, join_attributes _ _ ha, ih, List.filterMap_append,
      List.getLast?_append]
    cases hsaid : said.attributes a with
    | none => rw [List.filterMap_cons_none hsaid]; rfl
    | some x => rw [List.filterMap_cons_some hsaid]; rfl

theorem ofStatements_bus (id : UInt32) (group : List Statement) :
    (ofStatements id group).bus = (group.filterMap Statement.bus).getLast? :=
  ofStatements_attributes id group (nofun)

/-- The signals are what all statements together say about signals, in order. -/
theorem ofStatements_signals (id : UInt32) (group : List Statement) :
    (ofStatements id group).signals = (group.flatMap (·.signals)).foldl addSignal [] := by
  induction group using List.reverseRecOn with
  | nil => rfl
  | append_singleton group said ih =>
    rw [ofStatements_concat, List.flatMap_append, List.foldl_append, ← ih, List.flatMap_singleton]
    rfl

end MessageDraft

/-! ## One draft for each group -/

/-- The draft of a message from the statements seen so far. -/
def draftFor (layers seen : List Statement) (key : MessageKey) : MessageDraft :=
  .ofStatements key.2 (seen.filter fun said => groupKey layers said = key)

/-- The drafts are one for each message that a statement seen so far is about. -/
structure GroupedAs (layers seen : List Statement) (keys : List MessageKey) (drafts : Drafts) :
    Prop where
  nodup : keys.Nodup
  mem_iff : ∀ key, key ∈ keys ↔ ∃ said ∈ seen, groupKey layers said = key
  drafts_eq : drafts = keys.map (draftFor layers seen)

section Draft

variable {layers seen : List Statement} {said : Statement} {key : MessageKey}

theorem draftFor_concat_self :
    draftFor layers (seen ++ [said]) (groupKey layers said) =
      (draftFor layers seen (groupKey layers said)).join said := by
  simp only [draftFor, List.filter_append, List.filter_cons, decide_true, if_true, List.filter_nil,
    MessageDraft.ofStatements_concat]

theorem draftFor_concat_of_ne (h : groupKey layers said ≠ key) :
    draftFor layers (seen ++ [said]) key = draftFor layers seen key := by
  rw [draftFor, draftFor, List.filter_append,
    List.filter_cons_of_neg (by rw [decide_eq_true_eq]; exact h), List.filter_nil, List.append_nil]

theorem draftFor_id : (draftFor layers seen key).id = key.2 := MessageDraft.ofStatements_id _ _

/-- The bus of a draft was named by a statement about its message. -/
theorem exists_of_draftFor_bus {name : String} (h : (draftFor layers seen key).bus = some name) :
    ∃ said ∈ seen, groupKey layers said = key ∧ said.bus = some name := by
  rw [draftFor, MessageDraft.ofStatements_bus] at h
  obtain ⟨said, hsaid, hbus⟩ := List.mem_filterMap.mp (List.mem_of_getLast? h)
  obtain ⟨hseen, hkey⟩ := List.mem_filter.mp hsaid
  exact ⟨said, hseen, of_decide_eq_true hkey, hbus⟩

theorem bus_eq_none_of_draftFor_bus (h : (draftFor layers seen key).bus = none)
    (hsaid : said ∈ seen) (hkey : groupKey layers said = key) : said.bus = none := by
  rw [draftFor, MessageDraft.ofStatements_bus, List.getLast?_eq_none_iff,
    List.filterMap_eq_nil_iff] at h
  exact h said (List.mem_filter.mpr ⟨hsaid, decide_eq_true hkey⟩)

end Draft

namespace GroupedAs

variable {layers seen : List Statement} {keys : List MessageKey} {drafts : Drafts}
  {said : Statement}

/-- A statement that joins the draft of its own message keeps one draft for each message. -/
theorem join_at (h : GroupedAs layers seen keys drafts) {before after : Drafts} {d : MessageDraft}
    (split : drafts = before ++ d :: after)
    (same : ∀ key ∈ keys, d = draftFor layers seen key → key = groupKey layers said) :
    GroupedAs layers (seen ++ [said]) keys (before ++ d.join said :: after) := by
  obtain ⟨keysBefore, rest, rfl, hbefore, hrest⟩ := List.map_eq_append_iff.mp
    (h.drafts_eq.symm.trans split)
  obtain ⟨key, keysAfter, rfl, rfl, hafter⟩ := List.map_eq_cons_iff.mp hrest
  have hkey : key = groupKey layers said :=
    same key (List.mem_append_right _ List.mem_cons_self) rfl
  subst hkey
  have hnodup := List.nodup_middle.mp h.nodup
  have hothers : ∀ key ∈ keysBefore ++ keysAfter, groupKey layers said ≠ key := by
    intro key hkey heq
    exact (List.nodup_cons.mp hnodup).1 (heq ▸ hkey)
  refine ⟨h.nodup, fun key => ?_, ?_⟩
  · rw [h.mem_iff]
    constructor
    · rintro ⟨other, hother, hkey⟩
      exact ⟨other, List.mem_append_left _ hother, hkey⟩
    · rintro ⟨other, hother, rfl⟩
      rcases List.mem_append.mp hother with hother | hother
      · exact ⟨other, hother, rfl⟩
      · rw [List.mem_singleton.mp hother]
        exact (h.mem_iff _).mp (List.mem_append_right _ List.mem_cons_self)
  · rw [List.map_append, List.map_cons, draftFor_concat_self, ← hbefore, ← hafter]
    have hbefore' : ∀ key ∈ keysBefore, draftFor layers seen key =
        draftFor layers (seen ++ [said]) key := fun key hkey =>
      (draftFor_concat_of_ne (hothers key (List.mem_append_left _ hkey))).symm
    have hafter' : ∀ key ∈ keysAfter, draftFor layers seen key =
        draftFor layers (seen ++ [said]) key := fun key hkey =>
      (draftFor_concat_of_ne (hothers key (List.mem_append_right _ hkey))).symm
    rw [List.map_congr_left hbefore', List.map_congr_left hafter']

/-- A statement about a message that has no draft yet begins one. -/
theorem begin_at (h : GroupedAs layers seen keys drafts) (new : groupKey layers said ∉ keys) :
    GroupedAs layers (seen ++ [said]) (keys ++ [groupKey layers said])
      (drafts ++ [(MessageDraft.blank said.id).join said]) := by
  refine ⟨?_, fun key => ?_, ?_⟩
  · exact List.nodup_append.mpr ⟨h.nodup, List.nodup_singleton _, fun key hkey key' hkey' heq =>
      new (List.mem_singleton.mp hkey' ▸ heq ▸ hkey)⟩
  · rw [List.mem_append, h.mem_iff, List.mem_singleton]
    constructor
    · rintro (⟨other, hother, hkey⟩ | rfl)
      · exact ⟨other, List.mem_append_left _ hother, hkey⟩
      · exact ⟨said, List.mem_append_right _ List.mem_cons_self, rfl⟩
    · rintro ⟨other, hother, rfl⟩
      rcases List.mem_append.mp hother with hother | hother
      · exact .inl ⟨other, hother, rfl⟩
      · exact .inr (by rw [List.mem_singleton.mp hother])
  · have hempty : draftFor layers seen (groupKey layers said) = MessageDraft.blank said.id := by
      have hnone : seen.filter (fun other => groupKey layers other = groupKey layers said) = [] := by
        refine List.filter_eq_nil_iff.mpr fun other hother hkey => ?_
        exact new ((h.mem_iff _).mpr ⟨other, hother, of_decide_eq_true hkey⟩)
      rw [draftFor, hnone]
      rfl
    have hseen : ∀ key ∈ keys, draftFor layers seen key = draftFor layers (seen ++ [said]) key :=
      fun key hkey => (draftFor_concat_of_ne fun heq => new (heq ▸ hkey)).symm
    rw [List.map_append, List.map_singleton, draftFor_concat_self, hempty, h.drafts_eq,
      List.map_congr_left hseen]

/-- A statement that begins a draft is about a message that has none yet. -/
theorem groupKey_not_mem (h : GroupedAs layers seen keys drafts) (groupable : Groupable layers)
    (hseen : ∀ other ∈ seen, other ∈ layers) (hsaid : said ∈ layers)
    (named : ∀ name, said.bus = some name →
      ∀ e ∈ drafts, e.id = said.id → e.bus ≠ some name ∧ e.bus ≠ none)
    (bare : said.bus = none → drafts.countP (·.id == said.id) ≠ 1) :
    groupKey layers said ∉ keys := by
  intro hmem
  cases hbus : said.bus with
  | some name =>
    have hdraft : draftFor layers seen (groupKey layers said) ∈ drafts := by
      rw [h.drafts_eq]
      exact List.mem_map_of_mem hmem
    obtain ⟨hname, hnone⟩ := named name hbus _ hdraft draftFor_id
    obtain ⟨name', hname'⟩ := Option.ne_none_iff_exists'.mp hnone
    obtain ⟨other, -, hkey, hbus'⟩ := exists_of_draftFor_bus hname'
    rw [groupKey_of_bus hbus, groupKey_of_bus hbus'] at hkey
    exact hname (hname'.trans (congrArg Prod.fst hkey))
  | none =>
    -- Only the message of the statement itself has its identifier.
    have honly : ∀ key ∈ keys, ((draftFor layers seen key).id == said.id) =
        (key == groupKey layers said) := by
      intro key hkey
      obtain ⟨other, hother, rfl⟩ := (h.mem_iff key).mp hkey
      rw [draftFor_id, Bool.eq_iff_iff, beq_iff_eq, beq_iff_eq]
      constructor
      · intro hid
        exact groupable.groupKey_eq hsaid (hseen other hother) hid hbus
      · intro heq
        exact congrArg Prod.snd heq
    have hcount : drafts.countP (·.id == said.id) = keys.count (groupKey layers said) := by
      rw [h.drafts_eq, List.countP_map]
      exact List.countP_congr fun key hkey => by rw [← honly key hkey]; rfl
    exact bare hbus (hcount.trans (List.count_eq_one_of_mem h.nodup hmem))

/-- One statement keeps one draft for each message. -/
theorem join (h : GroupedAs layers seen keys drafts) (groupable : Groupable layers)
    (hseen : ∀ other ∈ seen, other ∈ layers) (hsaid : said ∈ layers) :
    ∃ keys', GroupedAs layers (seen ++ [said]) keys' (drafts.join said) := by
  have hstep := Drafts.step_join drafts said
  generalize drafts.join said = drafts' at hstep ⊢
  cases hstep with
  | @joined before after d name split bus same on first =>
    refine ⟨keys, h.join_at split ?_⟩
    rintro key - rfl
    obtain ⟨other, -, hkey, hbus⟩ := exists_of_draftFor_bus on
    rw [draftFor_id, ← hkey] at same
    rw [← hkey, groupKey_of_bus hbus, groupKey_of_bus (show said.bus = some name from bus)]
    exact congrArg _ same
  | @adopted before after d name split bus same bare new first =>
    refine ⟨keys, h.join_at split ?_⟩
    rintro key hmem rfl
    obtain ⟨other, hother, hkey⟩ := (h.mem_iff key).mp hmem
    rw [draftFor_id, ← hkey] at same
    have hbare := bus_eq_none_of_draftFor_bus bare hother hkey
    rw [← hkey]
    exact (groupable.groupKey_eq (hseen other hother) hsaid same.symm hbare).symm
  | @only before after d split bus same others =>
    refine ⟨keys, h.join_at split ?_⟩
    rintro key hmem rfl
    obtain ⟨other, hother, hkey⟩ := (h.mem_iff key).mp hmem
    rw [draftFor_id, ← hkey] at same
    rw [← hkey]
    exact groupable.groupKey_eq hsaid (hseen other hother) same bus
  | begun named bare =>
    exact ⟨_, h.begin_at (h.groupKey_not_mem groupable hseen hsaid named bare)⟩

/-- A run of statements keeps one draft for each message. -/
theorem foldl_join (h : GroupedAs layers seen keys drafts) (groupable : Groupable layers)
    {rest : List Statement} (split : seen ++ rest = layers) :
    ∃ keys', GroupedAs layers layers keys' (rest.foldl Drafts.join drafts) := by
  induction rest generalizing seen keys drafts with
  | nil =>
    rw [List.append_nil] at split
    exact ⟨keys, split ▸ h⟩
  | cons said rest ih =>
    have hseen : ∀ other ∈ seen, other ∈ layers := fun other hother =>
      split ▸ List.mem_append_left _ hother
    have hsaid : said ∈ layers := split ▸ List.mem_append_right _ List.mem_cons_self
    obtain ⟨keys', h'⟩ := h.join groupable hseen hsaid
    exact ih h' (by rw [List.append_assoc]; exact split)

end GroupedAs

/-- The drafts after all statements are one for each message that a statement is about. -/
theorem Groupable.foldl_join {layers : List Statement} (h : Groupable layers) :
    ∃ keys, GroupedAs layers layers keys (layers.foldl Drafts.join []) := by
  have hnil : GroupedAs layers [] [] [] := ⟨List.nodup_nil, fun key => by simp, rfl⟩
  exact hnil.foldl_join h (List.nil_append layers)

/-- A draft ends up on the bus of its message. -/
theorem Groupable.draftFor_bus {layers : List Statement} (h : Groupable layers) {said : Statement}
    (hsaid : said ∈ layers) :
    (draftFor layers layers (groupKey layers said)).bus = (groupKey layers said).1 := by
  cases hbus : (draftFor layers layers (groupKey layers said)).bus with
  | some name =>
    obtain ⟨other, -, hkey, hname⟩ := exists_of_draftFor_bus hbus
    rw [← hkey, groupKey_of_bus hname]
  | none =>
    have hnone := bus_eq_none_of_draftFor_bus hbus hsaid rfl
    rw [groupKey_of_bare hnone]
    cases hcommon : commonBus layers said.id with
    | none => rfl
    | some name =>
      -- The statement that names the bus is about this message too.
      obtain ⟨other, hother, hid, hname⟩ := exists_of_commonBus hcommon
      have hkey := h.groupKey_eq hsaid hother hid hnone
      rw [bus_eq_none_of_draftFor_bus hbus hother hkey] at hname
      cases hname

/-! ## The order of statements -/

namespace Groupable

variable {layers layers' : List Statement}

theorem of_perm (h : Groupable layers) (perm : layers.Perm layers') : Groupable layers' := by
  intro id
  rcases h id with hall | hsame
  · exact .inl fun said hsaid => hall said (perm.mem_iff.mpr hsaid)
  · exact .inr fun said hsaid other hother =>
      hsame said (perm.mem_iff.mpr hsaid) other (perm.mem_iff.mpr hother)

theorem groupKey_eq_of_perm (h : Groupable layers) (perm : layers.Perm layers') {said : Statement}
    (hsaid : said ∈ layers) : groupKey layers' said = groupKey layers said := by
  cases hbus : said.bus with
  | some name => rw [groupKey_of_bus hbus, groupKey_of_bus hbus]
  | none =>
    rw [groupKey_of_bare hbus, groupKey_of_bare hbus]
    refine congrArg (·, said.id) (Option.ext fun name => ?_)
    have hsame : ∀ {l l' : List Statement}, Groupable l → l.Perm l' → said ∈ l →
        commonBus l said.id = some name → commonBus l' said.id = some name := by
      intro l l' hl hperm hmem hname
      obtain ⟨other, hother, hid, hother_bus⟩ := exists_of_commonBus hname
      obtain ⟨name', hname'⟩ := exists_commonBus (hperm.mem_iff.mp hother) hother_bus
      obtain ⟨other', hother', hid', hother'_bus⟩ := exists_of_commonBus hname'
      rw [← hid, hname', hl.bus_eq hmem hother (hperm.mem_iff.mpr hother') hid (hid'.trans hid)
        hbus hother_bus hother'_bus]
    exact ⟨hsame (h.of_perm perm) perm.symm (perm.mem_iff.mp hsaid), hsame h perm hsaid⟩

/-- Statements in another order make the same drafts, as long as those about one message keep their
order. -/
theorem foldl_join_perm (h : Groupable layers) (perm : layers.Perm layers')
    (kept : ∀ key, (layers'.filter fun said => groupKey layers said = key) =
      layers.filter fun said => groupKey layers said = key) :
    (layers.foldl Drafts.join []).Perm (layers'.foldl Drafts.join []) := by
  obtain ⟨keys, hkeys⟩ := h.foldl_join
  obtain ⟨keys', hkeys'⟩ := (h.of_perm perm).foldl_join
  have hkey : ∀ said ∈ layers', groupKey layers' said = groupKey layers said := fun said hsaid =>
    h.groupKey_eq_of_perm perm (perm.mem_iff.mpr hsaid)
  have hdraft : ∀ key, draftFor layers' layers' key = draftFor layers layers key := by
    intro key
    rw [draftFor, draftFor, ← kept key]
    exact congrArg _ (List.filter_congr fun said hsaid => by rw [hkey said hsaid])
  have hperm : keys.Perm keys' := by
    refine (List.perm_ext_iff_of_nodup hkeys.nodup hkeys'.nodup).mpr fun key => ?_
    rw [hkeys.mem_iff, hkeys'.mem_iff]
    constructor
    · rintro ⟨said, hsaid, rfl⟩
      exact ⟨said, perm.mem_iff.mp hsaid, hkey said (perm.mem_iff.mp hsaid)⟩
    · rintro ⟨said, hsaid, rfl⟩
      exact ⟨said, perm.mem_iff.mpr hsaid, (hkey said hsaid).symm⟩
  rw [hkeys.drafts_eq, hkeys'.drafts_eq, List.map_congr_left fun key _ => hdraft key]
  exact hperm.map _

end Groupable

end CanTables

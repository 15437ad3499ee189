import CanTables.Proofs.Assembly.Differ
import CanTables.Proofs.Assembly.Sound

/-!
# CanTables.Proofs.Assembly.Versions — two versions of a file are read alike

Files that differ in their messages only are read as records that differ in their messages only: the
`messages` object itself is not looked at before its keys are brought to one spelling.
-/

namespace CanTables

open Declaration Document Schema Value

namespace Differ

variable {Q : Fields → Fields → Prop} {v v' : OrderedValue}

/-- Files with the same messages, or with none, are one value; other files have two objects. -/
theorem objects_messages_or_eq (h : Differ Q v v') :
    (∃ (file file' : OrderedObject) (m m' : Fields), v = file.toValue ∧ v' = file'.toValue ∧
      file.fields.get? messagesKey = some (.object m) ∧
      file'.fields.get? messagesKey = some (.object m') ∧
      file.fields.erase messagesKey = file'.fields.erase messagesKey ∧ Q m m') ∨
    v = v' := by
  obtain ⟨v, hv⟩ := v
  obtain ⟨v', hv'⟩ := v'
  dsimp only at h
  rcases h.objects_or_eq with ⟨fields, fields', rfl, rfl⟩ | ⟨rfl, -⟩
  · have hrest : Keyed.erase fields messagesKey = Keyed.erase fields' messagesKey :=
      Value.object.inj h.rest
    have hmessages : DifferIn Q (Keyed.get? fields messagesKey) (Keyed.get? fields' messagesKey) :=
      h.messages
    generalize hget : Keyed.get? fields messagesKey = o at hmessages
    generalize hget' : Keyed.get? fields' messagesKey = o' at hmessages
    cases hmessages with
    | @objects m m' related =>
      exact .inl ⟨⟨fields, hv⟩, ⟨fields', hv'⟩, m, m', rfl, rfl, hget, hget', hrest, related⟩
    | same _ =>
      -- What is no object is the same in both, and so is all the rest.
      refine .inr (OrderedValue.ext (congrArg Value.object ?_))
      refine Keyed.eq_of_get?_eq (ordered_object_iff.mp hv).1 (ordered_object_iff.mp hv').1
        fun key => ?_
      by_cases hkey : key = messagesKey
      · rw [hkey, hget, hget']
      · have herase := congrArg (Keyed.get? · key) hrest
        simp only [Keyed.get?_erase, if_neg hkey] at herase
        exact herase
  · exact .inr rfl

end Differ

/-! ## Records -/

theorem Declaration.SetAttribute.ofFields_messages {fields m : Fields}
    (hm : fields.get? messagesKey = some (.object m)) :
    Layer.ofFields fields SetAttribute.messages = some m := by
  rw [Layer.ofFields, show Record.key SetAttribute.messages = messagesKey from rfl, hm]
  rfl

theorem Declaration.MappingAttribute.ofFields_messages {fields m : Fields}
    (hm : fields.get? messagesKey = some (.object m)) :
    Layer.ofFields fields MappingAttribute.messages = some m := by
  rw [Layer.ofFields, show Record.key MappingAttribute.messages = messagesKey from rfl, hm]
  rfl

/-- Two versions of a message set file are read as records that differ in their messages only. -/
theorem Declaration.SetFile.read_differ {Q : Fields → Fields → Prop} {v v' : OrderedValue}
    (h : Differ Q v v') {file : SetFile} (hfile : SetFile.read v = .ok file) :
    ∃ messages, SetFile.read v' = .ok { file with messages } ∧
      (messages = file.messages ∨ Q file.messages messages) := by
  rcases h.objects_messages_or_eq with ⟨_, _, m, m', rfl, rfl, hm, hm', hrest, related⟩ | rfl
  · obtain ⟨layer, hlayer, rfl⟩ := SetFile.read_eq_ok hfile
    obtain ⟨hlayer', hothers⟩ :=
      Layer.read_object_of_erase_eq hrest hm hm' (fun _ => rfl) hlayer
    have hmessages := SetAttribute.ofFields_messages hm
    have hmessages' := SetAttribute.ofFields_messages hm'
    rw [← Layer.read_object hlayer] at hmessages
    refine ⟨m', ?_, .inr ?_⟩
    · refine Except.bind_eq_ok_iff.mpr ⟨_, hlayer', ?_⟩
      simp only [hothers .name (by decide), hothers .bitNumberingInverted (by decide),
        hothers .buses (by decide), hothers .mappings (by decide), hothers .commands (by decide),
        hothers .requests (by decide), hothers .initializers (by decide),
        hothers .loopers (by decide), hothers .extraSources (by decide), hmessages']
      rfl
    · show Q ((layer .messages).getD []) m'
      rw [hmessages]
      exact related
  · exact ⟨file.messages, hfile, .inl rfl⟩

/-- Two versions of a mapping file are read as records that differ in their messages only. -/
theorem Declaration.MappingFile.read_differ {Q : Fields → Fields → Prop} {v v' : OrderedValue}
    (h : Differ Q v v') {file : MappingFile} (hfile : MappingFile.read v = .ok file) :
    ∃ messages, MappingFile.read v' = .ok { file with messages } ∧
      (messages = file.messages ∨ Q file.messages messages) := by
  rcases h.objects_messages_or_eq with ⟨_, _, m, m', rfl, rfl, hm, hm', hrest, related⟩ | rfl
  · obtain ⟨layer, hlayer, hfile⟩ := Except.bind_eq_ok_iff.mp hfile
    obtain rfl := Except.ok.inj hfile
    obtain ⟨hlayer', hothers⟩ :=
      Layer.read_object_of_erase_eq hrest hm hm' (fun _ => rfl) hlayer
    have hmessages := MappingAttribute.ofFields_messages hm
    have hmessages' := MappingAttribute.ofFields_messages hm'
    rw [← Layer.read_object hlayer] at hmessages
    refine ⟨m', ?_, .inr ?_⟩
    · refine Except.bind_eq_ok_iff.mpr ⟨_, hlayer', ?_⟩
      simp only [hothers .name (by decide), hothers .commands (by decide),
        hothers .requests (by decide), hothers .initializers (by decide),
        hothers .loopers (by decide), hothers .extraSources (by decide), hmessages']
      rfl
    · show Q ((layer .messages).getD []) m'
      rw [hmessages]
      exact related
  · exact ⟨file.messages, hfile, .inl rfl⟩

end CanTables

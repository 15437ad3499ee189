import CanTables.Proofs.Assembly.Layers
import CanTables.Proofs.Assembly.Stamp

/-!
# CanTables.Proofs.Assembly.Enabled — which layer switches a message on or off

A message is enabled as the last of its layers that speaks of it has it.  A layer speaks of it by
a truth value under `enabled`; and a mapping's object that has no such key is stamped with the flag
of its reference, so it speaks of it too.  An object of the message set file without the key leaves
everything as it is.

So what a layer says stands unless a later layer has the key or comes from a mapping
(`Catalog.enabled_of_assemble`).  It is not enough that no later layer has the key: a mapping that
is enabled and silent switches a message on again (`Catalog.not_forall_stays_disabled`).
-/

namespace CanTables

open Declaration Document Schema Value

namespace MessageObject

/-- The object has a key `enabled`. -/
def mentions (o : MessageObject) : Bool := (o.value.field? "enabled").isSome

/-- The truth value under the object's key `enabled`. -/
def flag (o : MessageObject) : Option Bool :=
  (o.value.field? "enabled").bind fun v => (Reader.flag v).toOption

/-- What the object says about being enabled once it is stamped. -/
def saysEnabled (o : MessageObject) : Option Bool :=
  if o.mentions then o.flag else o.reference.map (·.enabled)

theorem saysEnabled_of_flag {o : MessageObject} {b : Bool} (h : o.flag = some b) :
    o.saysEnabled = some b := by
  have hmentions : o.mentions = true := by
    obtain ⟨v, hv, -⟩ := Option.bind_eq_some_iff.mp h
    rw [mentions, hv]
    rfl
  rw [saysEnabled, if_pos hmentions, h]

theorem saysEnabled_of_not_mentions {o : MessageObject} (h : o.mentions = false) :
    o.saysEnabled = o.reference.map (·.enabled) := by
  rw [saysEnabled, h, if_neg Bool.false_ne_true]

theorem join_readAttribute_enabled (v : Value) :
    (Layer.readAttribute MessageAttribute.enabled v).toOption.join = (Reader.flag v).toOption := by
  cases v with
  | bool b => rfl
  | _ => rfl

/-- The stamp is what an object says that does not mention it. -/
theorem said_enabled {o : MessageObject} {m : OrderedObject} (h : o.value = m.toValue) :
    o.said.attributes .enabled = o.saysEnabled := by
  obtain ⟨reference, key, value⟩ := o
  obtain rfl : value = m.toValue := h
  cases reference with
  | none =>
    show Call.attributes (key, object m.fields) .enabled = _
    rw [Call.attributes_object (a := .enabled) nofun]
    show (m.fields.get? "enabled").bind _ =
      if (m.fields.get? "enabled").isSome then (m.fields.get? "enabled").bind _ else none
    cases m.fields.get? "enabled" with
    | none => rfl
    | some v => exact join_readAttribute_enabled v
  | some r =>
    show Call.attributes (key, r.stamp (object m.fields)) .enabled = _
    rw [r.attributes_stamp (a := .enabled) m.entries key nofun]
    show ((m.fields.get? "enabled").map _).getD _ =
      if (m.fields.get? "enabled").isSome then (m.fields.get? "enabled").bind _ else some r.enabled
    cases m.fields.get? "enabled" with
    | none => rfl
    | some v => exact join_readAttribute_enabled v

end MessageObject

/-- Layers decide whether a message is enabled. -/
structure Message.EnabledBy (m : Message) (layers : List MessageObject) : Prop where
  /-- The last word counts; a message of which no layer speaks is enabled. -/
  last : m.enabled = (layers.filterMap MessageObject.saysEnabled).getLast?.getD true
  /-- What a layer says stands unless a later one comes from a mapping or has the key. -/
  stands : ∀ before o after b, layers = before ++ o :: after → o.flag = some b →
    (∀ p ∈ after, p.reference = none ∧ p.mentions = false) → m.enabled = b
  /-- A mapping's object that does not have the key says what its reference says. -/
  stamped : ∀ before o after r, layers = before ++ o :: after → o.reference = some r →
    o.mentions = false → (∀ p ∈ after, p.reference = none ∧ p.mentions = false) →
    m.enabled = r.enabled

/-- Behind the last layer that speaks, all are silent. -/
theorem getLast?_saysEnabled {before after : List MessageObject} {o : MessageObject} {b : Bool}
    (spoken : o.saysEnabled = some b)
    (silent : ∀ p ∈ after, p.reference = none ∧ p.mentions = false) :
    ((before ++ o :: after).filterMap MessageObject.saysEnabled).getLast? = some b := by
  have hafter : after.filterMap MessageObject.saysEnabled = [] := by
    refine List.filterMap_eq_nil_iff.mpr fun p hp => ?_
    obtain ⟨hreference, hmentions⟩ := silent p hp
    rw [MessageObject.saysEnabled_of_not_mentions hmentions, hreference]
    rfl
  rw [List.filterMap_append, List.filterMap_cons_some spoken, hafter, List.getLast?_concat]

theorem Message.MadeOf.enabledBy {m : Message} {layers : List MessageObject} (h : m.MadeOf layers) :
    m.EnabledBy layers := by
  have hlast : m.enabled = (layers.filterMap MessageObject.saysEnabled).getLast?.getD true := by
    rw [h.merges.enabled, saidLast, List.filterMap_map]
    have hspoken : ∀ o ∈ layers, o.said.attributes .enabled = o.saysEnabled := by
      intro o ho
      obtain ⟨m, hm⟩ := h.exists_object ho
      exact MessageObject.said_enabled hm
    rw [← List.filterMap_congr hspoken]
    rfl
  refine ⟨hlast, fun before o after b split spoken silent => ?_,
    fun before o after r split comes silent' silent => ?_⟩
  · rw [hlast, split, getLast?_saysEnabled (MessageObject.saysEnabled_of_flag spoken) silent]
    rfl
  · have spoken : o.saysEnabled = some r.enabled := by
      rw [MessageObject.saysEnabled_of_not_mentions silent', comes]
      rfl
    rw [hlast, split, getLast?_saysEnabled spoken silent]
    rfl

namespace Catalog

variable {c : Catalog} {settings : Settings} {name : String}

/-- Every message of an assembled set is enabled as the last of its layers that speaks of it has it:
an explicit value stands as long as no later layer has the key or comes from a mapping, and a
mapping's object without the key has the state of its mapping.  The layers of all messages together
are the objects of the set, each once and in their order. -/
theorem enabled_of_assemble {s : MessageSet} (h : (c.assemble settings name).outcome = .ok s) :
    ∃ objects layers, c.messageObjects settings name = .ok objects ∧
      c.messageLayers settings name = .ok layers ∧
      layers.flatten.Perm (objects.filter MessageObject.speaks) ∧
      (∀ layer ∈ layers, layer.Sublist objects) ∧
      List.Forall₂ (fun m layer => m.MadeOf layer ∧ m.EnabledBy layer) s.messages layers := by
  obtain ⟨objects, layers, hobjects, hlayers, hperm, hsublist, hmade⟩ := messages_of_assemble h
  exact ⟨objects, layers, hobjects, hlayers, hperm, hsublist,
    hmade.imp fun m layer hm => ⟨hm, hm.enabledBy⟩⟩

/-- A set over the mappings given: `off.json` has a message disabled, `named.json` gives it a name.
The set file has the message objects given. -/
def switching (mappings : List String) (own : String) : Catalog := ofFiles [
  ("off.json", objectText [("messages", objectText [("0x100", objectText [("enabled", "false")])])]),
  ("named.json", objectText [
    ("messages", objectText [("0x100", objectText [("name", "\"named\"")])])]),
  ("set.json", objectText [
    ("buses", objectText [("hs", objectText [("controller", "1"), ("speed", "500000")])]),
    ("mappings", "[" ++ ", ".intercalate (mappings.map fun file =>
      objectText [("mapping", file), ("bus", "\"hs\"")]) ++ "]"),
    ("messages", own)])]

/-- A mapping switches the message on the bus off, and the set file gives it a name. -/
def namedOnTop : Catalog :=
  switching ["\"named.json\"", "\"off.json\""] (objectText [("256", objectText [("name", "\"own\"")])])

theorem enabled_of_assemble_namedOnTop : ∃ s layers,
    (namedOnTop.assemble .usual "set.json").outcome = .ok s ∧
      namedOnTop.messageLayers .usual "set.json" = .ok layers ∧
      layers.map List.length = [3] ∧ s.messages.map (·.enabled) = [false] ∧
      List.Forall₂ (fun m layer => m.MadeOf layer ∧ m.EnabledBy layer) s.messages layers := by
  have hset : (namedOnTop.assemble .usual "set.json").outcome.toOption.any
      (fun s => s.messages.map (·.enabled) = [false]) = true := by
    decide +kernel
  have hlengths : (namedOnTop.messageLayers .usual "set.json").toOption.any
      (fun layers => layers.map List.length = [3]) = true := by
    decide +kernel
  obtain ⟨s, hs, henabled⟩ := Except.exists_of_any_toOption hset
  obtain ⟨layers', hlayers', hthree⟩ := Except.exists_of_any_toOption hlengths
  obtain ⟨-, layers, -, hlayers, -, -, hmade⟩ := enabled_of_assemble hs
  obtain rfl : layers = layers' := Except.ok.inj (hlayers.symm.trans hlayers')
  exact ⟨s, layers, hs, hlayers, of_decide_eq_true hthree, of_decide_eq_true henabled, hmade⟩

/-- Two mappings, both enabled: the first has the message disabled, the second is silent. -/
def silentMapping : Catalog := switching ["\"off.json\"", "\"named.json\""] "{}"

/-- A later object need not have the key to switch a message on again. -/
theorem not_forall_stays_disabled : ¬ ∀ (c : Catalog) (settings : Settings) (name : String)
    (s : MessageSet) (layers : List (List MessageObject)),
    (c.assemble settings name).outcome = .ok s →
    c.messageLayers settings name = .ok layers →
    (∀ layer ∈ layers, ∀ o ∈ layer, ∀ r, o.reference = some r → r.enabled = true) →
    List.Forall₂ (fun (m : Message) layer => ∀ before o after, layer = before ++ o :: after →
      o.reference.isSome = true → o.flag = some false →
      (∀ p ∈ after, p.mentions = false) → m.enabled = false) s.messages layers := by
  intro h
  have hset : (silentMapping.assemble .usual "set.json").outcome.toOption.any
      (fun s => s.messages.map (·.enabled) = [true]) = true := by
    decide +kernel
  have hlayers : (silentMapping.messageLayers .usual "set.json").toOption.any
      (fun layers => layers.map (List.map fun o =>
          (o.reference.map (·.enabled), o.flag, o.mentions)) =
        [[(some true, some false, true), (some true, none, false)]]) = true := by
    decide +kernel
  obtain ⟨s, hs, henabled⟩ := Except.exists_of_any_toOption hset
  obtain ⟨layers, hlayers, hview⟩ := Except.exists_of_any_toOption hlayers
  obtain ⟨m, hm, hon⟩ := List.map_eq_singleton_iff.mp (of_decide_eq_true henabled)
  obtain ⟨layer, rfl, hlayer⟩ := List.map_eq_singleton_iff.mp (of_decide_eq_true hview)
  obtain ⟨o, rest, rfl, hoff, hrest⟩ := List.map_eq_cons_iff.mp hlayer
  obtain ⟨p, rfl, hsilent⟩ := List.map_eq_singleton_iff.mp hrest
  simp only [Prod.mk.injEq] at hoff hsilent
  obtain ⟨hcomes, hfalse, -⟩ := hoff
  obtain ⟨hcomes', -, hmentions⟩ := hsilent
  have henabled : ∀ q : MessageObject, q.reference.map (·.enabled) = some true →
      q.reference.isSome = true ∧ ∀ r, q.reference = some r → r.enabled = true := by
    intro q hq
    obtain ⟨r, hr, hrenabled⟩ := Option.map_eq_some_iff.mp hq
    rw [hr]
    exact ⟨rfl, fun r' hr' => Option.some.inj hr' ▸ hrenabled⟩
  have hreferences : ∀ layer ∈ [[o, p]], ∀ q ∈ layer, ∀ r, q.reference = some r →
      r.enabled = true := by
    refine List.forall_mem_singleton.mpr (List.forall_mem_cons.mpr ⟨?_, ?_⟩)
    · exact (henabled o hcomes).2
    · exact List.forall_mem_singleton.mpr (henabled p hcomes').2
  have hlaw := h silentMapping .usual "set.json" s [[o, p]] hs hlayers hreferences
  rw [hm] at hlaw
  have hdisabled := (List.forall₂_cons.mp hlaw).1 [] o [p] rfl (henabled o hcomes).1 hfalse
    (List.forall_mem_singleton.mpr hmentions)
  rw [hon] at hdisabled
  cases hdisabled

end Catalog

end CanTables

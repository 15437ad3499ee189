import CanTables.Proofs.Assembly.Lineage
import CanTables.Proofs.Document.Overlay

/-!
# CanTables.Proofs.Assembly.Differ — lineages whose files differ in their messages only

Two files may hold the same but for their `messages` objects, between which some relation holds.
If the relation survives merging two objects key by key, it holds between what two lineages of such
files make up (`Lineage.differ_merged`): so one step, putting a layer on another, is looked at once
and for all.
-/

namespace CanTables

open Document Value Positions

/-- The key of a file's messages. -/
def messagesKey : String := "messages"

/-! ## Two values -/

/-- What two files have under the key of their messages: two objects in a relation, or the same,
which is no object. -/
inductive DifferIn (Q : Fields → Fields → Prop) : Option Value → Option Value → Prop where
  | objects {m m' : Fields} (related : Q m m') : DifferIn Q (some (.object m)) (some (.object m'))
  | same {o : Option Value} (none_object : ∀ m, o ≠ some (.object m)) : DifferIn Q o o

/-- Two files that hold the same but for their messages, which are in a relation. -/
structure Differ (Q : Fields → Fields → Prop) (v v' : Value) : Prop where
  rest : v.eraseField messagesKey = v'.eraseField messagesKey
  messages : DifferIn Q (v.field? messagesKey) (v'.field? messagesKey)

namespace DifferIn

variable {Q Q₁ Q₂ : Fields → Fields → Prop}

theorem imp {o o' : Option Value} (h : DifferIn Q o o') (imp : ∀ m m', Q m m' → Q₁ m m') :
    DifferIn Q₁ o o' := by
  cases h with
  | objects related => exact .objects (imp _ _ related)
  | same h => exact .same h

/-- What is no object stays no object, or makes what it is put on none. -/
theorem merge_same {x x' y : Option Value} (hx : DifferIn Q₁ x x')
    (hy : ∀ m, y ≠ some (.object m)) (below : ∀ m m', Q₁ m m' → Q m m') :
    DifferIn Q (Option.merge overlayEntry x y) (Option.merge overlayEntry x' y) := by
  cases y with
  | none =>
    rw [Option.merge_none_right, Option.merge_none_right]
    exact hx.imp below
  | some above =>
    have habove : ∀ upper, above ≠ .object upper := fun upper heq => hy upper (by rw [heq])
    have hne : ∀ v (m : Fields), some (overlayEntry v above) ≠ some (.object m) := by
      intro v m heq
      exact overlayEntry_ne_object v habove m (Option.some.inj heq)
    cases hx with
    | @objects m m' related =>
      rw [Option.merge_some_some, Option.merge_some_some, overlayEntry_not_object m habove,
        overlayEntry_not_object m' habove]
      exact .same hy
    | same hx =>
      refine .same fun m => ?_
      cases x with
      | none => exact hy m
      | some v => exact hne v m

/-- The relation survives merging what stands under the key. -/
theorem merge {x x' y y' : Option Value} (hx : DifferIn Q₁ x x') (hy : DifferIn Q₂ y y')
    (below : ∀ m m', Q₁ m m' → Q m m') (above : ∀ n n', Q₂ n n' → Q n n')
    (both : ∀ m m' n n', x = some (.object m) → x' = some (.object m') → y = some (.object n) →
      y' = some (.object n') → Q₁ m m' → Q₂ n n' → Q (overlayFields m n) (overlayFields m' n')) :
    DifferIn Q (Option.merge overlayEntry x y) (Option.merge overlayEntry x' y') := by
  cases hy with
  | same hy => exact merge_same hx hy below
  | @objects n n' hn =>
    cases hx with
    | @objects m m' hm =>
      rw [Option.merge_some_some, Option.merge_some_some, overlayEntry_object, overlayEntry_object]
      exact .objects (both m m' n n' rfl rfl rfl rfl hm hn)
    | same hx =>
      cases x with
      | none => exact .objects (above n n' hn)
      | some v =>
        have hv : ∀ lower, v ≠ .object lower := fun lower heq => hx lower (by rw [heq])
        rw [Option.merge_some_some, Option.merge_some_some, overlayEntry_of_not_object hv,
          overlayEntry_of_not_object hv]
        exact .objects (above n n' hn)

end DifferIn

namespace Differ

variable {Q Q₁ Q₂ : Fields → Fields → Prop}

theorem imp {v v' : Value} (h : Differ Q v v') (imp : ∀ m m', Q m m' → Q₁ m m') :
    Differ Q₁ v v' := ⟨h.rest, h.messages.imp imp⟩

/-- Several relations hold at once. -/
theorem forall_of {ι : Type} [Nonempty ι] {P : ι → Fields → Fields → Prop} {v v' : Value}
    (h : ∀ i, Differ (P i) v v') : Differ (fun m m' => ∀ i, P i m m') v v' := by
  obtain ⟨start⟩ := ‹Nonempty ι›
  refine ⟨(h start).rest, ?_⟩
  have hmessages := fun i => (h i).messages
  generalize v.field? messagesKey = o at hmessages
  generalize v'.field? messagesKey = o' at hmessages
  cases hmessages start with
  | objects _ =>
    refine .objects fun i => ?_
    cases hmessages i with
    | objects related => exact related
    | same hnot => exact absurd rfl (hnot _)
  | same hnot => exact .same hnot

/-- Two relations hold at once. -/
theorem and {v v' : Value} (h : Differ Q v v') (h' : Differ Q₁ v v') :
    Differ (fun m m' => Q m m' ∧ Q₁ m m') v v' := by
  refine (forall_of (P := fun b : Bool => if b then Q else Q₁) fun b => ?_).imp fun m m' hall => ?_
  · cases b
    · exact h'
    · exact h
  · exact ⟨hall true, hall false⟩

/-- Either both files are objects or they are one value. -/
theorem objects_or_eq {v v' : Value} (h : Differ Q v v') :
    (∃ fields fields', v = .object fields ∧ v' = .object fields') ∨
      v = v' ∧ ∀ fields, v ≠ .object fields := by
  have hrest := h.rest
  cases v with
  | object fields =>
    cases v' with
    | object fields' => exact .inl ⟨fields, fields', rfl, rfl⟩
    | _ => cases hrest
  | _ =>
    cases v' with
    | object fields' => cases hrest
    | _ => exact .inr ⟨hrest, fun fields heq => nomatch heq⟩

/-- In ordered files the messages are ordered as well. -/
theorem imp_of_ordered {v v' : OrderedValue} (h : Differ Q v v')
    (imp : ∀ m m' : OrderedObject, Q m m' → Q₁ m m') : Differ Q₁ v v' := by
  refine ⟨h.rest, ?_⟩
  have hmessages := h.messages
  generalize hfield : v.value.field? messagesKey = o at hmessages
  generalize hfield' : v'.value.field? messagesKey = o' at hmessages
  cases hmessages with
  | @objects m m' related =>
    exact .objects (imp ⟨m, ordered_field? v.ordered hfield⟩ ⟨m', ordered_field? v'.ordered hfield'⟩
      related)
  | same hnot => exact .same hnot

/-- The relation survives putting one file on another if it survives merging messages. -/
theorem overlay {a a' b b' : OrderedValue} (ha : Differ Q₁ a a') (hb : Differ Q₂ b b')
    (below : ∀ m m', Q₁ m m' → Q m m') (above : ∀ n n', Q₂ n n' → Q n n')
    (both : ∀ m m' n n' : OrderedObject, Q₁ m m' → Q₂ n n' →
      Q (overlayFields m n) (overlayFields m' n')) :
    Differ Q (Value.overlay a b) (Value.overlay a' b') := by
  have hrest : (Value.overlay a b).eraseField messagesKey =
      (Value.overlay a' b').eraseField messagesKey := by
    rw [eraseField_overlay a b, eraseField_overlay a' b', ha.rest, hb.rest]
  obtain ⟨a, hao⟩ := a
  obtain ⟨a', hao'⟩ := a'
  obtain ⟨b, hbo⟩ := b
  obtain ⟨b', hbo'⟩ := b'
  dsimp only at ha hb hrest ⊢
  rcases hb.objects_or_eq with ⟨upper, upper', rfl, rfl⟩ | ⟨rfl, hnot⟩
  · rcases ha.objects_or_eq with ⟨lower, lower', rfl, rfl⟩ | ⟨rfl, hnot⟩
    · refine ⟨hrest, ?_⟩
      rw [field?_overlay_object ⟨lower, hao⟩ ⟨upper, hbo⟩,
        field?_overlay_object ⟨lower', hao'⟩ ⟨upper', hbo'⟩]
      refine ha.messages.merge hb.messages below above fun m m' n n' hm hm' hn hn' => ?_
      exact both ⟨m, ordered_field? hao hm⟩ ⟨m', ordered_field? hao' hm'⟩
        ⟨n, ordered_field? hbo hn⟩ ⟨n', ordered_field? hbo' hn'⟩
    · rw [overlay_of_not_object hnot, overlay_of_not_object hnot]
      exact hb.imp above
  · rw [overlay_not_object _ hnot, overlay_not_object _ hnot]
    exact hb.imp above

end Differ

/-! ## Two lineages -/

namespace Lineage

/-- Lineages of one shape, with a relation between files at one place. -/
inductive Alike (R : Value → Value → Prop) : Lineage → Lineage → Prop where
  | node (path : String) {own own' : Value} {parents parents' : List Lineage} (file : R own own')
      (below : List.Forall₂ (Alike R) parents parents') :
      Alike R (node path own parents) (node path own' parents')

/-- What pairs of files at one place give, a child before its parents. -/
def along {ρ : Type} (f : Value → Value → List ρ) (lineage lineage' : Lineage) : List ρ :=
  (lineage.files.zip lineage'.files).flatMap fun pair => f pair.1 pair.2

/-- What pairs of files at one place give for several lineages. -/
def alongAll {ρ : Type} (f : Value → Value → List ρ) (all all' : List Lineage) : List ρ :=
  ((filesOfAll all).zip (filesOfAll all')).flatMap fun pair => f pair.1 pair.2

variable {R : Value → Value → Prop}

/-- The files of lineages of one shape are related place by place. -/
theorem Alike.forall₂_files {lineage lineage' : Lineage} (h : Alike R lineage lineage') :
    List.Forall₂ R lineage.files lineage'.files := by
  induction lineage generalizing lineage' with
  | node path own parents ih =>
    cases h with
    | @node _ _ own' _ parents' file below =>
      rw [files_node, files_node]
      refine .cons file ?_
      clear file
      induction below with
      | nil => exact .nil
      | @cons parent parent' rest rest' hparent _ ihrest =>
        obtain ⟨ihparent, ihrest'⟩ := List.forall_mem_cons.mp ih
        rw [filesOfAll, filesOfAll]
        exact List.rel_append (ihparent hparent) (ihrest ihrest')

theorem Alike.files_length {lineage lineage' : Lineage} (h : Alike R lineage lineage') :
    lineage.files.length = lineage'.files.length := h.forall₂_files.length_eq

theorem along_node {ρ : Type} (f : Value → Value → List ρ) (path path' : String)
    (own own' : Value) (parents parents' : List Lineage) :
    along f (node path own parents) (node path' own' parents') =
      f own own' ++ alongAll f parents parents' := by
  rw [along, files, files, List.zip_cons_cons, List.flatMap_cons, alongAll]

theorem alongAll_cons {ρ : Type} (f : Value → Value → List ρ) {parent parent' : Lineage}
    (h : Alike R parent parent') (rest rest' : List Lineage) :
    alongAll f (parent :: rest) (parent' :: rest') =
      along f parent parent' ++ alongAll f rest rest' := by
  rw [alongAll, filesOfAll, filesOfAll, List.zip_append h.files_length, List.flatMap_append, along,
    alongAll]

/-- Two lineages of one shape can be filled with other files. -/
theorem Alike.exists_of_files {S T T' : Value → Value → Prop} {lineage lineage' : Lineage}
    (h : Alike R lineage lineage') {pairs : List (Value × Value)}
    (hpairs : List.Forall₂ (fun old new => T old.1 new.1 ∧ T' old.2 new.2 ∧ S new.1 new.2)
      (lineage.files.zip lineage'.files) pairs) :
    ∃ other other', Alike T lineage other ∧ Alike T' lineage' other' ∧ Alike S other other' ∧
      other.files.zip other'.files = pairs := by
  induction lineage generalizing lineage' pairs with
  | node path own parents ih =>
    cases h with
    | @node _ _ own' _ parents' file below =>
      rw [files_node, files_node, List.zip_cons_cons] at hpairs
      obtain ⟨⟨v, v'⟩, above, ⟨hv, hv', hvv'⟩, habove, rfl⟩ := List.forall₂_cons_left_iff.mp hpairs
      suffices hall : ∃ all all', List.Forall₂ (Alike T) parents all ∧
          List.Forall₂ (Alike T') parents' all' ∧ List.Forall₂ (Alike S) all all' ∧
          (filesOfAll all).zip (filesOfAll all') = above by
        obtain ⟨all, all', hall, hall', halike, hzip⟩ := hall
        refine ⟨.node path v all, .node path v' all', .node path hv hall, .node path hv' hall',
          .node path hvv' halike, ?_⟩
        rw [files_node, files_node, List.zip_cons_cons, hzip]
      clear file hpairs
      induction below generalizing above with
      | nil => exact ⟨[], [], .nil, .nil, .nil, (List.forall₂_nil_left_iff.mp habove).symm⟩
      | @cons parent parent' rest rest' hparent _ ihrest =>
        obtain ⟨ihparent, ihrest'⟩ := List.forall_mem_cons.mp ih
        rw [filesOfAll, filesOfAll, List.zip_append hparent.files_length] at habove
        obtain ⟨mine, others, rfl, hmine, hothers⟩ := exists_append_of_forall₂ habove
        obtain ⟨l, l', hl, hl', halike, hzip⟩ := ihparent hparent hmine
        obtain ⟨all, all', hall, hall', halikes, hzips⟩ := ihrest ihrest' _ hothers
        refine ⟨l :: all, l' :: all', .cons hl hall, .cons hl' hall', .cons halike halikes, ?_⟩
        rw [filesOfAll, filesOfAll, List.zip_append halike.files_length, hzip, hzips]

/-- A relation between messages that survives merging.  It may speak of what files give, lowest
first, and holds of more if it holds of less: a file may hide what is below it. -/
structure Survives {ρ : Type} (Q : List ρ → Fields → Fields → Prop) : Prop where
  fewer : ∀ {xs ys : List ρ} {m m' : Fields}, xs.Sublist ys → Q xs m m' → Q ys m m'
  both : ∀ {xs ys : List ρ} {m m' n n' : OrderedObject}, Q xs m m' → Q ys n n' →
    Q (xs ++ ys) (overlayFields m n) (overlayFields m' n')

section Merged

variable {ρ : Type} {f : Value → Value → List ρ} {Q : List ρ → Fields → Fields → Prop}

/-- One file and its parents: what lies over the parents still to come grows by one parent each
time. -/
theorem differ_mergedOver (survives : Survives Q) {parents parents' : List OrderedLineage}
    (alike : List.Forall₂ (fun parent parent' : OrderedLineage =>
      Alike R parent.lineage parent'.lineage) parents parents')
    (below : List.Forall₂ (fun parent parent' : OrderedLineage =>
      Differ (Q (along f parent parent').reverse) parent.merged parent'.merged) parents parents')
    {own own' : OrderedValue} {acc : List ρ} (file : Differ (Q acc) own own') :
    Differ (Q ((alongAll f (parents.map OrderedLineage.lineage)
        (parents'.map OrderedLineage.lineage)).reverse ++ acc))
      (OrderedLineage.mergedOver own parents) (OrderedLineage.mergedOver own' parents') := by
  induction alike generalizing own own' acc with
  | nil =>
    rw [OrderedLineage.mergedOver_nil, OrderedLineage.mergedOver_nil]
    exact file
  | @cons parent parent' rest rest' hparent hrest ih =>
    obtain ⟨hbelow, hbelows⟩ := List.forall₂_cons.mp below
    -- Each parent comes to lie under all that was put together before it.
    rw [List.map_cons, List.map_cons, alongAll_cons f hparent, List.reverse_append,
      List.append_assoc, OrderedLineage.mergedOver_cons, OrderedLineage.mergedOver_cons]
    apply ih hbelows
    exact hbelow.overlay file
      (fun _ _ => survives.fewer (List.sublist_append_left _ _))
      (fun _ _ => survives.fewer (List.sublist_append_right _ _))
      fun _ _ _ _ => survives.both

/-- A relation between messages that survives merging holds between what lineages make up, if it
holds between their files. -/
theorem Alike.differ_merged (survives : Survives Q)
    (file : ∀ {v v' : OrderedValue}, R v v' → Differ (Q (f v v').reverse) v v')
    {l l' : OrderedLineage} (h : Alike R l.lineage l'.lineage) :
    Differ (Q (along f l l').reverse) l.merged l'.merged := by
  induction l generalizing l' with
  | node path own parents ih =>
    obtain ⟨path', own', parents', rfl⟩ := l'.exists_node
    cases h with
    | node _ hfile alike =>
      rw [List.forall₂_map_left_iff, List.forall₂_map_right_iff] at alike
      rw [along_node, List.reverse_append, OrderedLineage.merged_node, OrderedLineage.merged_node]
      refine differ_mergedOver survives alike ?_ (file hfile)
      exact forall₂_of_mem alike fun parent parent' hmem hmem' hparent => ih parent hmem hparent

end Merged

end Lineage

end CanTables

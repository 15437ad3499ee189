import Mathlib.Data.List.Forall2
import Mathlib.Data.List.Nodup
import Mathlib.Data.List.ReduceOption

/-!
# CanTables.Proofs.Order.Positions — lists taken apart at a position

An element at a position splits its list into what is before it and what is after it.  Proofs about
what stands at a position of a message set, and about changing one draft among many, go through
these splits.  Lists that are related position by position have related elements.
-/

namespace CanTables.Positions

variable {α β : Type}

theorem exists_append_of_getElem? {l : List α} {i : Nat} {a : α} (h : l[i]? = some a) :
    ∃ before after, l = before ++ a :: after ∧ before.length = i := by
  obtain ⟨hi, rfl⟩ := List.getElem?_eq_some_iff.mp h
  refine ⟨l.take i, l.drop (i + 1), ?_, ?_⟩
  · rw [List.getElem_cons_drop, List.take_append_drop]
  · rw [List.length_take]
    omega

/-- A position found by a test splits the list: nothing before the position passes the test. -/
theorem exists_append_of_findIdx? {p : α → Bool} {l : List α} {i : Nat}
    (h : l.findIdx? p = some i) :
    ∃ before a after, l = before ++ a :: after ∧ before.length = i ∧ p a = true ∧
      ∀ b ∈ before, p b = false := by
  obtain ⟨hi, ha, hbefore⟩ := List.findIdx?_eq_some_iff_getElem.mp h
  obtain ⟨a, hai⟩ : ∃ a, l[i] = a := ⟨_, rfl⟩
  obtain ⟨before, after, rfl, rfl⟩ :=
    exists_append_of_getElem? (List.getElem?_eq_some_iff.mpr ⟨hi, hai⟩)
  refine ⟨before, a, after, rfl, rfl, hai ▸ ha, fun b hb => ?_⟩
  obtain ⟨j, hj, rfl⟩ := List.mem_iff_getElem.mp hb
  have hfail := hbefore j hj
  rw [List.getElem_append_left hj] at hfail
  exact Bool.of_not_eq_true hfail

theorem modify_append_cons (f : α → α) (before : List α) (a : α) (after : List α) :
    (before ++ a :: after).modify before.length f = before ++ f a :: after := by
  induction before with
  | nil => rfl
  | cons b rest ih =>
    rw [List.cons_append, List.length_cons, List.modify_succ_cons, ih, List.cons_append]

/-- The parts of a flattened list follow one another: a part starts after all parts before it. -/
theorem getElem?_flatMap_append_cons (f : α → List β) (before : List α) (a : α) (after : List α)
    {j : Nat} (hj : j < (f a).length) :
    ((before ++ a :: after).flatMap f)[(before.flatMap f).length + j]? = (f a)[j]? := by
  rw [List.flatMap_append, List.flatMap_cons, List.getElem?_append_right (by omega),
    Nat.add_sub_cancel_left, List.getElem?_append_left hj]

/-- In a list without repetitions what comes later has the higher position. -/
theorem positions_increasing {l : List α} (h : l.Nodup) :
    l.Pairwise fun a b => ∀ i j : Nat, l[i]? = some a → l[j]? = some b → i < j := by
  rw [List.pairwise_iff_getElem]
  intro i j hi hj hij i' j' hi' hj'
  have heq : i = i' := (List.getElem?_inj hi h).mp ((List.getElem?_eq_getElem hi).trans hi'.symm)
  have heq' : j = j' := (List.getElem?_inj hj h).mp ((List.getElem?_eq_getElem hj).trans hj'.symm)
  omega

/-! ## Lists related position by position -/

variable {R : α → β → Prop}

theorem exists_left_of_forall₂ {l : List α} {l' : List β} (h : List.Forall₂ R l l') {b : β}
    (hb : b ∈ l') : ∃ a ∈ l, R a b := by
  induction h with
  | nil => cases hb
  | cons hab _ ih =>
    rcases List.mem_cons.mp hb with rfl | hb
    · exact ⟨_, List.mem_cons_self, hab⟩
    · obtain ⟨a, ha, hab⟩ := ih hb
      exact ⟨a, List.mem_cons_of_mem _ ha, hab⟩

theorem exists_right_of_forall₂ {l : List α} {l' : List β} (h : List.Forall₂ R l l') {a : α}
    (ha : a ∈ l) : ∃ b ∈ l', R a b := exists_left_of_forall₂ h.flip ha

/-- Where every element has a partner, a list has a list of partners. -/
theorem exists_forall₂_of_forall {l : List α} (h : ∀ a ∈ l, ∃ b, R a b) :
    ∃ l', List.Forall₂ R l l' := by
  induction l with
  | nil => exact ⟨[], .nil⟩
  | cons a rest ih =>
    obtain ⟨⟨b, hab⟩, hrest⟩ := List.forall_mem_cons.mp h
    obtain ⟨l', hl'⟩ := ih hrest
    exact ⟨b :: l', .cons hab hl'⟩

/-- A relation follows from another at every place of two lists. -/
theorem forall₂_of_mem {S : α → β → Prop} {l : List α} {l' : List β} (h : List.Forall₂ R l l')
    (imp : ∀ a b, a ∈ l → b ∈ l' → R a b → S a b) : List.Forall₂ S l l' := by
  refine List.forall₂_iff_zip.mpr ⟨h.length_eq, fun {a b} hmem => ?_⟩
  obtain ⟨ha, hb⟩ := List.of_mem_zip hmem
  exact imp a b ha hb (List.forall₂_zip h hmem)

/-- Where every element on the left has one partner, which is made from an element on the right, a
list has one list of partners. -/
theorem forall₂_iff_eq_map {γ : Type} {S : α → γ → Prop} {f : β → γ} {l : List α} {l' : List β}
    (h : List.Forall₂ (fun a b => ∀ c, S a c ↔ c = f b) l l') {l'' : List γ} :
    List.Forall₂ S l l'' ↔ l'' = l'.map f := by
  induction h generalizing l'' with
  | nil => rw [List.forall₂_nil_left_iff, List.map_nil]
  | @cons a b l l' hab _ ih =>
    rw [List.forall₂_cons_left_iff, List.map_cons]
    constructor
    · rintro ⟨c, rest, hac, hrest, rfl⟩
      rw [(hab c).mp hac, ih.mp hrest]
    · rintro rfl
      exact ⟨f b, l'.map f, (hab _).mpr rfl, ih.mpr rfl, rfl⟩

/-- Partners of partners, place by place. -/
theorem exists_forall₂_of_forall₂ {γ : Type} {S : β → γ → Prop} {T : α → γ → Prop} {l : List α}
    {l' : List β} (h : List.Forall₂ R l l')
    (step : ∀ a b, b ∈ l' → R a b → ∃ c, T a c ∧ S b c) :
    ∃ l'', List.Forall₂ T l l'' ∧ List.Forall₂ S l' l'' := by
  induction h with
  | nil => exact ⟨[], .nil, .nil⟩
  | @cons a b l l' hab _ ih =>
    obtain ⟨c, hac, hbc⟩ := step a b List.mem_cons_self hab
    obtain ⟨l'', hl, hl'⟩ := ih fun a b hb => step a b (List.mem_cons_of_mem _ hb)
    exact ⟨c :: l'', .cons hac hl, .cons hbc hl'⟩

/-- What is related to two lists one after the other is two lists one after the other. -/
theorem exists_append_of_forall₂ {l₁ l₂ : List α} {l' : List β}
    (h : List.Forall₂ R (l₁ ++ l₂) l') :
    ∃ l₁' l₂', l' = l₁' ++ l₂' ∧ List.Forall₂ R l₁ l₁' ∧ List.Forall₂ R l₂ l₂' := by
  induction l₁ generalizing l' with
  | nil => exact ⟨[], l', rfl, .nil, h⟩
  | cons a l₁ ih =>
    obtain ⟨b, rest, hab, hrest, rfl⟩ := List.forall₂_cons_left_iff.mp h
    obtain ⟨l₁', l₂', rfl, h₁, h₂⟩ := ih hrest
    exact ⟨b :: l₁', l₂', rfl, .cons hab h₁, h₂⟩

/-- What holds between any two elements on the right holds between their partners on the left. -/
theorem pairwise_of_forall₂ {S : β → β → Prop} {l : List α} {l' : List β}
    (h : List.Forall₂ R l l') (h' : l'.Pairwise S) :
    l.Pairwise fun a a' => ∃ b b', R a b ∧ R a' b' ∧ S b b' := by
  induction h with
  | nil => exact List.Pairwise.nil
  | @cons a b l l' hab hrest ih =>
    obtain ⟨hb, htail⟩ := List.pairwise_cons.mp h'
    refine List.pairwise_cons.mpr ⟨fun a' ha' => ?_, ih htail⟩
    obtain ⟨b', hb', hab'⟩ := exists_right_of_forall₂ hrest ha'
    exact ⟨b, b', hab, hab', hb b' hb'⟩

/-- Where every element either passes a test and has a partner or does neither, the elements that
pass are related to the partners. -/
theorem forall₂_filter_filterMap {p : α → Bool} {l : List α} {l' : List (Option β)}
    (h : List.Forall₂ (fun a b? => p a = false ∧ b? = none ∨
      p a = true ∧ ∃ b, b? = some b ∧ R a b) l l') :
    List.Forall₂ R (l.filter p) (l'.filterMap id) := by
  induction h with
  | nil => exact .nil
  | cons hab _ ih =>
    rcases hab with ⟨hfail, rfl⟩ | ⟨hpass, b, rfl, hab⟩
    · rw [List.filter_cons_of_neg (Bool.eq_false_iff.mp hfail), List.filterMap_cons_none rfl]
      exact ih
    · have hid : id (some b) = some b := rfl
      rw [List.filter_cons_of_pos hpass, List.filterMap_cons_some hid]
      exact .cons hab ih

/-- Lists made of parts have the same elements where their parts do, part by part. -/
theorem perm_flatMap_of_forall₂ {γ : Type} {f : α → List γ} {g : β → List γ} {l : List α}
    {l' : List β} (h : List.Forall₂ (fun a b => (f a).Perm (g b)) l l') :
    (l.flatMap f).Perm (l'.flatMap g) := by
  induction h with
  | nil => exact .refl _
  | cons hab _ ih => exact hab.append ih

/-! ## Elements under their positions -/

/-- Entries for the elements that pass a test, each once and under its position, are these elements
in another order. -/
theorem perm_filter_of_mem_iff {ρ : Type} (position : ρ → Nat) (bijective : position.Bijective)
    {entries : List (ρ × α)} {l : List α} {p : α → Bool} (nodup : (entries.map Prod.fst).Nodup)
    (mem_iff : ∀ r a, (r, a) ∈ entries ↔ l[position r]? = some a ∧ p a = true) :
    (entries.map Prod.snd).Perm (l.filter p) := by
  -- Elements may repeat, so both sides are compared together with the positions.
  have hentries : (entries.map fun e => (e.2, position e.1)).Nodup := by
    refine List.Nodup.of_map Prod.snd ?_
    have hpositions := nodup.map bijective.1
    rwa [List.map_map] at hpositions ⊢
  have hpassing : (l.zipIdx.filter fun e => p e.1).Nodup := by
    refine List.Nodup.sublist List.filter_sublist (List.Nodup.of_map Prod.snd ?_)
    rw [List.zipIdx_map_snd]
    exact List.nodup_range'
  have hsame : ∀ e, e ∈ entries.map (fun e => (e.2, position e.1)) ↔
      e ∈ l.zipIdx.filter fun e => p e.1 := by
    rintro ⟨a, i⟩
    rw [List.mem_map, List.mem_filter, List.mk_mem_zipIdx_iff_getElem?]
    constructor
    · rintro ⟨⟨r, b⟩, hmem, heq⟩
      cases heq
      exact (mem_iff r _).mp hmem
    · intro h
      obtain ⟨r, rfl⟩ := bijective.2 i
      exact ⟨(r, a), (mem_iff r a).mpr h, rfl⟩
  have hperm := ((List.perm_ext_iff_of_nodup hentries hpassing).mpr hsame).map Prod.fst
  have hfilter : (l.zipIdx.filter fun e => p e.1).map Prod.fst = l.filter p := by
    conv_rhs => rw [← List.zipIdx_map_fst 0 l, List.filter_map]
    rfl
  rwa [List.map_map, hfilter] at hperm

/-! ## Two places of a list -/

/-- A list that has two given elements at two places of another list, and one element at all
others. -/
def between (fill : β) (before mid after : List α) (first second : β) : List β :=
  before.map (fun _ => fill) ++
    first :: (mid.map (fun _ => fill) ++ second :: after.map fun _ => fill)

theorem map_between {γ : Type} (f : β → γ) (fill : β) (before mid after : List α)
    (first second : β) : (between fill before mid after first second).map f =
      between (f fill) before mid after (f first) (f second) := by
  simp only [between, List.map_append, List.map_cons, List.map_map, Function.comp_def]

theorem flatMap_between {γ : Type} {f : β → List γ} {fill : β} (h : f fill = [])
    (before mid after : List α) (first second : β) :
    (between fill before mid after first second).flatMap f = f first ++ f second := by
  have hfill : ∀ l : List α, (l.map fun _ => fill).flatMap f = [] := by
    intro l
    rw [List.flatMap_eq_nil_iff]
    rintro _ hmem
    obtain ⟨_, -, rfl⟩ := List.mem_map.mp hmem
    exact h
  rw [between, List.flatMap_append, List.flatMap_cons, List.flatMap_append, List.flatMap_cons,
    hfill, hfill, hfill, List.nil_append, List.nil_append, List.append_nil]

theorem reduceOption_between (before mid after : List α) (first second : β) :
    (between none before mid after (some first) (some second)).reduceOption = [first, second] := by
  have hnone : ∀ l : List α, (l.map fun _ => (none : Option β)).reduceOption = [] := by
    intro l
    rw [List.reduceOption_eq_nil_iff]
    exact ⟨l.length, List.map_const'⟩
  rw [between, List.reduceOption_append, List.reduceOption_cons_of_some, List.reduceOption_append,
    List.reduceOption_cons_of_some, hnone, hnone, hnone]
  rfl

theorem forall₂_between {fill first second : β}
    {before mid after : List α} {a b : α} (h : ∀ x, R x fill) (ha : R a first) (hb : R b second) :
    List.Forall₂ R (before ++ a :: (mid ++ b :: after))
      (between fill before mid after first second) := by
  have hfill : ∀ l : List α, List.Forall₂ R l (l.map fun _ => fill) := by
    intro l
    rw [List.forall₂_map_right_iff, List.forall₂_same]
    exact fun x _ => h x
  exact List.rel_append (hfill before) (.cons ha (List.rel_append (hfill mid) (.cons hb
    (hfill after))))

end CanTables.Positions

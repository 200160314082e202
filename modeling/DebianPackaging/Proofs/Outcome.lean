import Mathlib
import DebianPackaging.Outcome

namespace DebianPackaging.Outcome

variable {ε δ α β : Type}

theorem mapError_eq_ok_iff {x : Except ε α} {f : ε → δ} {a : α} :
    x.mapError f = .ok a ↔ x = .ok a := by
  cases x with
  | error e => simp [Except.mapError]
  | ok a => simp [Except.mapError]

theorem mapM_eq_ok_iff {f : α → Except ε β} {as : List α} {bs : List β} :
    as.mapM f = .ok bs ↔ List.Forall₂ (fun a b => f a = .ok b) as bs := by
  induction as generalizing bs with
  | nil =>
      rw [List.mapM_nil, List.forall₂_nil_left_iff]
      exact ⟨fun h => (Except.ok.inj h).symm, fun h => h ▸ rfl⟩
  | cons a as ih =>
      rw [List.mapM_cons, List.forall₂_cons_left_iff]
      constructor
      · intro h
        obtain ⟨b, hb, h⟩ := bind_eq_ok_iff.mp h
        obtain ⟨bs, hbs, h⟩ := bind_eq_ok_iff.mp h
        exact ⟨b, bs, hb, ih.mp hbs, (Except.ok.inj h).symm⟩
      · rintro ⟨b, bs, hb, hbs, rfl⟩
        exact bind_eq_ok_iff.mpr ⟨b, hb, bind_eq_ok_iff.mpr ⟨bs, ih.mpr hbs, rfl⟩⟩

/-- Where only a condition decides between success and failure, it must hold of every element. -/
theorem mapM_eq_ok_iff_forall {f : α → Except ε β} {p : α → Prop} {g : α → β}
    {as : List α} {bs : List β} (h : ∀ a ∈ as, ∀ b, f a = .ok b ↔ p a ∧ g a = b) :
    as.mapM f = .ok bs ↔ (∀ a ∈ as, p a) ∧ as.map g = bs := by
  rw [mapM_eq_ok_iff]
  induction as generalizing bs with
  | nil => simp [eq_comm]
  | cons a as ih =>
      obtain ⟨ha, has⟩ := List.forall_mem_cons.mp h
      rw [List.forall₂_cons_left_iff, List.forall_mem_cons, List.map_cons]
      constructor
      · rintro ⟨b, bs, hb, hbs, rfl⟩
        obtain ⟨hpa, rfl⟩ := (ha b).mp hb
        obtain ⟨hpas, rfl⟩ := (ih has).mp hbs
        exact ⟨⟨hpa, hpas⟩, rfl⟩
      · rintro ⟨⟨hpa, hpas⟩, rfl⟩
        exact ⟨g a, as.map g, (ha _).mpr ⟨hpa, rfl⟩, (ih has).mpr ⟨hpas, rfl⟩, rfl⟩

theorem forall₂_append_left_iff {R : α → β → Prop} {as as' : List α} {bs : List β} :
    List.Forall₂ R (as ++ as') bs ↔
      ∃ cs ds, List.Forall₂ R as cs ∧ List.Forall₂ R as' ds ∧ bs = cs ++ ds := by
  constructor
  · intro h
    exact ⟨bs.take as.length, bs.drop as.length, by simpa using List.forall₂_take as.length h,
      by simpa using List.forall₂_drop as.length h, (List.take_append_drop as.length bs).symm⟩
  · rintro ⟨cs, ds, hcs, hds, rfl⟩
    exact List.rel_append hcs hds

theorem exists_of_forall₂ {R : α → β → Prop} {as : List α} {bs : List β}
    (h : List.Forall₂ R as bs) : ∀ b ∈ bs, ∃ a ∈ as, R a b := by
  induction h with
  | nil => simp
  | cons hab _ ih =>
      intro b hb
      rcases List.mem_cons.mp hb with rfl | hb
      · exact ⟨_, List.mem_cons_self, hab⟩
      · obtain ⟨a, ha, hfa⟩ := ih b hb
        exact ⟨a, List.mem_cons_of_mem _ ha, hfa⟩

theorem forall₂_imp_of_mem {R S : α → β → Prop} {as : List α} {bs : List β}
    (h : ∀ a ∈ as, ∀ b, R a b → S a b) (hf : List.Forall₂ R as bs) : List.Forall₂ S as bs := by
  have hm := (List.forall₂_and_left (p := (· ∈ as)) as bs).mpr ⟨fun _ ha => ha, hf⟩
  exact hm.imp fun a b hab => h a hab.1 b hab.2

theorem forall₂_congr_of_mem {R S : α → β → Prop} {as : List α} {bs : List β}
    (h : ∀ a ∈ as, ∀ b, R a b ↔ S a b) : List.Forall₂ R as bs ↔ List.Forall₂ S as bs :=
  ⟨forall₂_imp_of_mem fun a ha b => (h a ha b).mp, forall₂_imp_of_mem fun a ha b => (h a ha b).mpr⟩

theorem forall₂_and_right {R : α → β → Prop} {P : β → Prop} {as : List α} {bs : List β} :
    List.Forall₂ (fun a b => R a b ∧ P b) as bs ↔ List.Forall₂ R as bs ∧ ∀ b ∈ bs, P b := by
  constructor
  · intro h
    refine ⟨h.imp fun _ _ hab => hab.1, fun b hb => ?_⟩
    obtain ⟨a, -, hab⟩ := exists_of_forall₂ h b hb
    exact hab.2
  · rintro ⟨h, hb⟩
    have hflip := (List.forall₂_and_left _ _).mpr ⟨hb, h.flip⟩
    exact hflip.flip.imp fun _ _ hab => ⟨hab.2, hab.1⟩

theorem exists_forall₂_iff {γ : Type} {R : α → γ → Prop} {E : γ → β → Prop} {P : β → Prop}
    {as : List α} {bs : List β}
    (h : List.Forall₂ (fun a b => ∃ c, R a c ∧ (E c b ↔ P b)) as bs) :
    ∃ cs, List.Forall₂ R as cs ∧ (List.Forall₂ E cs bs ↔ ∀ b ∈ bs, P b) := by
  induction h with
  | nil => exact ⟨[], .nil, by simp⟩
  | cons hab _ ih =>
      obtain ⟨c, hc, hb⟩ := hab
      obtain ⟨cs, hcs, hbs⟩ := ih
      refine ⟨c :: cs, .cons hc hcs, ?_⟩
      rw [List.forall₂_cons, hb, hbs, List.forall_mem_cons]

theorem exists_of_mem_mapM {f : α → Except ε β} {as : List α} {bs : List β}
    (h : as.mapM f = .ok bs) : ∀ b ∈ bs, ∃ a ∈ as, f a = .ok b :=
  exists_of_forall₂ (mapM_eq_ok_iff.mp h)

theorem exists_image_of_mapM {f : α → Except ε β} {as : List α} {bs : List β}
    (h : as.mapM f = .ok bs) : ∀ a ∈ as, ∃ b ∈ bs, f a = .ok b :=
  exists_of_forall₂ (mapM_eq_ok_iff.mp h).flip

theorem exists_mapM_eq_ok {f : α → Except ε β} {as : List α} (h : ∀ a ∈ as, ∃ b, f a = .ok b) :
    ∃ bs, as.mapM f = .ok bs := by
  induction as with
  | nil => exact ⟨[], mapM_eq_ok_iff.mpr .nil⟩
  | cons a as ih =>
      obtain ⟨b, hb⟩ := h a List.mem_cons_self
      obtain ⟨bs, hbs⟩ := ih fun a' ha => h a' (List.mem_cons_of_mem _ ha)
      exact ⟨b :: bs, mapM_eq_ok_iff.mpr (.cons hb (mapM_eq_ok_iff.mp hbs))⟩

theorem mapM_congr_of_map_eq {γ : Type} {f : α → Except ε β} {g : α → γ} {as as' : List α}
    (hf : ∀ a a', g a = g a' → f a = f a') (h : as.map g = as'.map g) : as.mapM f = as'.mapM f := by
  induction as generalizing as' with
  | nil =>
      cases as' with
      | nil => rfl
      | cons a' as' => cases h
  | cons a as ih =>
      cases as' with
      | nil => cases h
      | cons a' as' =>
          rw [List.map_cons, List.map_cons, List.cons_eq_cons] at h
          rw [List.mapM_cons, List.mapM_cons, hf a a' h.1, ih h.2]

theorem mapM_ne_nil {f : α → Except ε β} {as : List α} {bs : List β}
    (h : as.mapM f = .ok bs) (hne : as ≠ []) : bs ≠ [] := by
  rintro rfl
  cases mapM_eq_ok_iff.mp h
  exact hne rfl

section Agree

variable {γ : Type} {E : ε → δ → Prop} {R : α → β → Prop}

/-- Two computations that both succeed, with results in one relation, or both fail, with errors in
another one. -/
inductive Agree (E : ε → δ → Prop) (R : α → β → Prop) : Except ε α → Except δ β → Prop
  | error {e : ε} {d : δ} (h : E e d) : Agree E R (.error e) (.error d)
  | ok {a : α} {b : β} (h : R a b) : Agree E R (.ok a) (.ok b)

theorem Agree.of_eq {E : ε → ε → Prop} {R : α → α → Prop} {x y : Except ε α} (hE : ∀ e, E e e)
    (hR : ∀ a, R a a) (h : x = y) : Agree E R x y := by
  subst h
  cases x with
  | error e => exact .error (hE e)
  | ok a => exact .ok (hR a)

theorem Agree.bind {γ' : Type} {S : γ → γ' → Prop} {x : Except ε α} {y : Except δ β}
    {f : α → Except ε γ} {g : β → Except δ γ'} (h : Agree E R x y)
    (hf : ∀ a b, R a b → Agree E S (f a) (g b)) : Agree E S (x >>= f) (y >>= g) := by
  cases h with
  | error he => exact .error he
  | ok hr => exact hf _ _ hr

theorem Agree.mapM {γ' : Type} {Q : γ → γ' → Prop} {f : γ → Except ε α} {g : γ' → Except δ β}
    {cs : List γ} {cs' : List γ'} (h : List.Forall₂ Q cs cs')
    (hf : ∀ c c', Q c c' → Agree E R (f c) (g c')) :
    Agree E (List.Forall₂ R) (cs.mapM f) (cs'.mapM g) := by
  induction h with
  | nil => exact .ok .nil
  | cons hc _ ih =>
      rw [List.mapM_cons, List.mapM_cons]
      refine (hf _ _ hc).bind fun a b hab => ih.bind fun as bs has => ?_
      exact .ok (.cons hab has)

theorem Agree.mapError_eq {f : ε → γ} {g : δ → γ} {x : Except ε α} {y : Except δ α}
    (h : Agree (fun e d => f e = g d) Eq x y) : x.mapError f = y.mapError g := by
  cases h with
  | error he => exact congrArg Except.error he
  | ok hr => exact congrArg Except.ok hr

end Agree

end DebianPackaging.Outcome

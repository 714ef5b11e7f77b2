import Mathlib.Data.List.Forall2

/-!
A loop over a list that stops at the first element that fails.
-/

namespace BpClient.Lib

variable {α β ε : Type*} {f : α → Except ε β} {l : List α}

/-- The loop succeeds with what it makes of each element. -/
theorem mapM_eq_ok_iff {bs : List β} :
    l.mapM f = .ok bs ↔ List.Forall₂ (fun a b => f a = .ok b) l bs := by
  induction l generalizing bs with
  | nil =>
      rw [List.mapM_nil, List.forall₂_nil_left_iff]
      constructor
      · rintro ⟨⟩
        rfl
      · rintro rfl
        rfl
  | cons a l ih =>
      rw [List.mapM_cons, List.forall₂_cons_left_iff]
      cases ha : f a with
      | error e =>
          constructor
          · intro h
            cases h
          · rintro ⟨b, bs', hb, -⟩
            cases hb
      | ok b =>
          cases hl : l.mapM f with
          | error e =>
              constructor
              · intro h
                cases h
              · rintro ⟨b', bs', -, hbs', -⟩
                rw [ih.mpr hbs'] at hl
                cases hl
          | ok bs' =>
              constructor
              · rintro ⟨⟩
                exact ⟨b, bs', rfl, ih.mp hl, rfl⟩
              · rintro ⟨b', bs'', hb, hbs'', rfl⟩
                rw [ih.mpr hbs''] at hl
                cases hb
                cases hl
                rfl

/-- The loop fails as the first element that does. -/
theorem mapM_eq_error_iff {e : ε} : l.mapM f = .error e ↔ ∃ front a back, l = front ++ a :: back ∧
    (∀ b ∈ front, ∃ c, f b = .ok c) ∧ f a = .error e := by
  induction l with
  | nil =>
      constructor
      · intro h
        cases h
      · rintro ⟨front, a, back, hl, -⟩
        exact absurd hl (by simp)
  | cons a l ih =>
      rw [List.mapM_cons]
      cases ha : f a with
      | error e' =>
          constructor
          · rintro ⟨⟩
            exact ⟨[], a, l, rfl, fun b hb => absurd hb List.not_mem_nil, ha⟩
          · rintro ⟨front, a', back, hl, hfront, ha'⟩
            cases front with
            | nil =>
                cases hl
                exact congrArg Except.error (Except.error.inj (ha.symm.trans ha'))
            | cons b front =>
                cases hl
                obtain ⟨c, hc⟩ := hfront a List.mem_cons_self
                rw [hc] at ha
                cases ha
      | ok b =>
          have hbind : (do let bs ← l.mapM f; pure (b :: bs)) = .error e ↔ l.mapM f = .error e := by
            cases hl : l.mapM f with
            | error e' => exact Iff.rfl
            | ok bs =>
                constructor
                · intro h
                  cases h
                · intro h
                  cases h
          refine Iff.trans hbind (ih.trans ?_)
          constructor
          · rintro ⟨front, a', back, rfl, hfront, ha'⟩
            refine ⟨a :: front, a', back, rfl, ?_, ha'⟩
            rw [List.forall_mem_cons]
            exact ⟨⟨b, ha⟩, hfront⟩
          · rintro ⟨front, a', back, hl, hfront, ha'⟩
            cases front with
            | nil =>
                cases hl
                rw [ha'] at ha
                cases ha
            | cons b' front =>
                cases hl
                exact ⟨front, a', back, rfl, fun c hc => hfront c (List.mem_cons_of_mem _ hc), ha'⟩

/-- The loop ends without a failure when no element fails. -/
theorem exists_mapM_eq_ok (h : ∀ a ∈ l, ∃ b, f a = .ok b) : ∃ bs, l.mapM f = .ok bs := by
  cases hl : l.mapM f with
  | ok bs => exact ⟨bs, rfl⟩
  | error e =>
      obtain ⟨front, a, back, rfl, -, ha⟩ := mapM_eq_error_iff.mp hl
      obtain ⟨b, hb⟩ := h a (by simp)
      rw [ha] at hb
      cases hb

/-- No element fails in a loop that ends without a failure. -/
theorem eq_ok_of_mapM_eq_ok {bs : List β} (h : l.mapM f = .ok bs) :
    ∀ a ∈ l, ∃ b, f a = .ok b := by
  have hall := mapM_eq_ok_iff.mp h
  clear h
  induction hall with
  | nil => exact fun a ha => absurd ha List.not_mem_nil
  | cons hhead _ ih =>
      rw [List.forall_mem_cons]
      exact ⟨⟨_, hhead⟩, ih⟩

/-- What the loop makes comes from the elements. -/
theorem exists_of_mem_mapM {bs : List β} (h : l.mapM f = .ok bs) :
    ∀ b ∈ bs, ∃ a ∈ l, f a = .ok b := by
  have hall := mapM_eq_ok_iff.mp h
  clear h
  induction hall with
  | nil => exact fun b hb => absurd hb List.not_mem_nil
  | cons hhead _ ih =>
      rw [List.forall_mem_cons]
      refine ⟨⟨_, List.mem_cons_self, hhead⟩, fun b hb => ?_⟩
      obtain ⟨a, ha, hab⟩ := ih b hb
      exact ⟨a, List.mem_cons_of_mem _ ha, hab⟩

/-- The loop fails when some element does; the error is the one that all failing
elements have. -/
theorem mapM_eq_error {e : ε} {a : α} (ha : a ∈ l) (hfail : f a = .error e)
    (hall : ∀ b ∈ l, ∀ e', f b = .error e' → e' = e) : l.mapM f = .error e := by
  cases hl : l.mapM f with
  | ok bs =>
      obtain ⟨b, hb⟩ := eq_ok_of_mapM_eq_ok hl a ha
      rw [hfail] at hb
      cases hb
  | error e' =>
      obtain ⟨front, b, back, rfl, -, hb⟩ := mapM_eq_error_iff.mp hl
      rw [hall b (by simp) e' hb]

end BpClient.Lib

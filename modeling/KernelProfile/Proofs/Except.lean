import Mathlib.Data.List.Forall2

/-! Computations that may fail. A sequence of steps that succeeded keeps what every step keeps. -/
namespace KernelProfile

universe u v w

variable {ε : Type u} {α : Type v} {β : Type w}

/-- A sequence of two computations succeeds as the second does on what the first gives. -/
theorem bind_eq_ok {γ : Type v} {x : Except ε α} {f : α → Except ε γ} {c : γ} :
    x >>= f = .ok c ↔ ∃ a, x = .ok a ∧ f a = .ok c := by
  cases x with
  | error e => simp [bind, Except.bind]
  | ok a => simp [bind, Except.bind]

/-- A sequence of two computations fails as the first does, or as the second does on what the first
gives. -/
theorem bind_eq_error {γ : Type v} {x : Except ε α} {f : α → Except ε γ} {e : ε} :
    x >>= f = .error e ↔ x = .error e ∨ ∃ a, x = .ok a ∧ f a = .error e := by
  cases x with
  | error e' => simp [bind, Except.bind]
  | ok a => simp [bind, Except.bind]

theorem map_eq_ok {γ : Type v} {x : Except ε α} {f : α → γ} {c : γ} :
    x.map f = .ok c ↔ ∃ a, x = .ok a ∧ c = f a := by
  cases x with
  | error e => exact iff_of_false nofun nofun
  | ok a => simp [Except.map, eq_comm]

/-- Renaming faults leaves the successes as they are. -/
theorem mapError_eq_ok {ε' : Type u} {x : Except ε α} {f : ε → ε'} {a : α} :
    x.mapError f = .ok a ↔ x = .ok a := by
  constructor
  · intro h
    cases x with
    | error e => cases h
    | ok b =>
      cases h
      rfl
  · intro h
    rw [h]
    rfl

theorem ok_of_toOption {x : Except ε α} {a : α} (h : x.toOption = some a) : x = .ok a := by
  cases x with
  | error e => cases h
  | ok b =>
    cases h
    rfl

/-- Reading a list is reading every item of it. -/
theorem mapM_eq_ok {f : α → Except ε β} {l : List α} {l' : List β} :
    l.mapM f = .ok l' ↔ List.Forall₂ (fun a b => f a = .ok b) l l' := by
  induction l generalizing l' with
  | nil =>
    rw [List.forall₂_nil_left_iff]
    exact ⟨fun h => (Except.ok.inj h).symm, fun h => h ▸ rfl⟩
  | cons a l ih =>
    rw [List.mapM_cons, bind_eq_ok, List.forall₂_cons_left_iff]
    constructor
    · rintro ⟨b, hb, hrest⟩
      obtain ⟨bs, hbs, heq⟩ := bind_eq_ok.mp hrest
      cases heq
      exact ⟨b, bs, hb, ih.mp hbs, rfl⟩
    · rintro ⟨b, bs, hb, hbs, rfl⟩
      exact ⟨b, hb, bind_eq_ok.mpr ⟨bs, ih.mpr hbs, rfl⟩⟩

/-- Every item of a list is read exactly if each can be, and then each gives what it gives. -/
theorem mapM_eq_ok_map {f : α → Except ε β} {P : α → Prop} {g : α → β}
    (hf : ∀ a {b}, f a = .ok b ↔ P a ∧ b = g a) {l : List α} {l' : List β} :
    l.mapM f = .ok l' ↔ (∀ a ∈ l, P a) ∧ l' = l.map g := by
  induction l generalizing l' with
  | nil => simp [pure, Except.pure, eq_comm]
  | cons a l ih =>
    rw [List.mapM_cons, bind_eq_ok, List.forall_mem_cons, List.map_cons]
    constructor
    · rintro ⟨b, hb, hrest⟩
      obtain ⟨bs, hbs, heq⟩ := bind_eq_ok.mp hrest
      obtain ⟨ha, rfl⟩ := (hf a).mp hb
      obtain ⟨hl, rfl⟩ := ih.mp hbs
      cases heq
      exact ⟨⟨ha, hl⟩, rfl⟩
    · rintro ⟨⟨ha, hl⟩, rfl⟩
      exact ⟨g a, (hf a).mpr ⟨ha, rfl⟩, bind_eq_ok.mpr ⟨_, ih.mpr ⟨hl, rfl⟩, rfl⟩⟩

/-- A list that is read has every item read. -/
theorem exists_ok_of_mapM {f : α → Except ε β} {l : List α} {l' : List β} (h : l.mapM f = .ok l')
    {a : α} (ha : a ∈ l) : ∃ b, f a = .ok b := by
  have hread := mapM_eq_ok.mp h
  clear h
  induction hread with
  | nil => cases ha
  | cons hfirst _ ih =>
    rcases List.mem_cons.mp ha with rfl | ha
    · exact ⟨_, hfirst⟩
    · exact ih ha

/-- Reading a list fails as the first item does that is not read. -/
theorem mapM_eq_error {f : α → Except ε β} {l : List α} {e : ε} :
    l.mapM f = .error e ↔ ∃ before a after, l = before ++ a :: after ∧
      (∀ x ∈ before, ∃ b, f x = .ok b) ∧ f a = .error e := by
  induction l with
  | nil => simp [pure, Except.pure]
  | cons x rest ih =>
    rw [List.mapM_cons, bind_eq_error]
    constructor
    · rintro (hx | ⟨b, hx, hrest⟩)
      · exact ⟨[], x, rest, rfl, nofun, hx⟩
      · obtain hrest | ⟨bs, -, hpure⟩ := bind_eq_error.mp hrest
        · obtain ⟨before, a, after, rfl, hbefore, ha⟩ := ih.mp hrest
          exact ⟨x :: before, a, after, rfl, List.forall_mem_cons.mpr ⟨⟨b, hx⟩, hbefore⟩, ha⟩
        · cases hpure
    · rintro ⟨before, a, after, heq, hbefore, ha⟩
      cases before with
      | nil =>
        cases heq
        exact .inl ha
      | cons x' before =>
        cases heq
        obtain ⟨⟨b, hx⟩, hbefore⟩ := List.forall_mem_cons.mp hbefore
        exact .inr ⟨b, hx, bind_eq_error.mpr (.inl (ih.mpr ⟨before, a, after, rfl, hbefore, ha⟩))⟩

/-- The run lemma of a fold: what the start has and every step over an element of the list keeps,
the result has. -/
theorem foldlM_keeps {step : α → β → Except ε α} {P : α → Prop} {l : List β}
    (hstep : ∀ b ∈ l, ∀ a a', P a → step a b = .ok a' → P a') {a a' : α} (ha : P a)
    (h : l.foldlM step a = .ok a') : P a' := by
  induction l generalizing a with
  | nil =>
    cases h
    exact ha
  | cons b rest ih =>
    rw [List.foldlM_cons] at h
    obtain ⟨mid, hmid, hrest⟩ := bind_eq_ok.mp h
    exact ih (fun c hc => hstep c (List.mem_cons_of_mem _ hc))
      (hstep b List.mem_cons_self a mid ha hmid) hrest

/-- A fold over elements whose step never fails does not fail. -/
theorem exists_foldlM_ok {step : α → β → Except ε α} {l : List β}
    (hstep : ∀ b ∈ l, ∀ a, ∃ a', step a b = .ok a') (a : α) :
    ∃ a', l.foldlM step a = .ok a' := by
  induction l generalizing a with
  | nil => exact ⟨a, rfl⟩
  | cons b rest ih =>
    obtain ⟨mid, hmid⟩ := hstep b List.mem_cons_self a
    obtain ⟨a', ha'⟩ := ih (fun c hc => hstep c (List.mem_cons_of_mem _ hc)) mid
    refine ⟨a', ?_⟩
    rw [List.foldlM_cons, hmid]
    exact ha'

/-- A fold that succeeds has had a successful step over every element. -/
theorem exists_step_of_foldlM {step : α → β → Except ε α} {l : List β} {a a' : α}
    (h : l.foldlM step a = .ok a') {b : β} (hb : b ∈ l) : ∃ x y, step x b = .ok y := by
  induction l generalizing a with
  | nil => cases hb
  | cons b' rest ih =>
    rw [List.foldlM_cons] at h
    obtain ⟨mid, hmid, hrest⟩ := bind_eq_ok.mp h
    rcases List.mem_cons.mp hb with rfl | hb
    · exact ⟨a, mid, hmid⟩
    · exact ih hrest hb

/-- A fold succeeds exactly if every step can, where that depends on the element alone. -/
theorem exists_foldlM_ok_iff {step : α → β → Except ε α} {P : β → Prop}
    (hstep : ∀ a b, (∃ a', step a b = .ok a') ↔ P b) {l : List β} {a : α} :
    (∃ a', l.foldlM step a = .ok a') ↔ ∀ b ∈ l, P b := by
  constructor
  · rintro ⟨a', h⟩ b hb
    obtain ⟨x, y, hxy⟩ := exists_step_of_foldlM h hb
    exact (hstep x b).mp ⟨y, hxy⟩
  · intro h
    exact exists_foldlM_ok (fun b hb x => (hstep x b).mpr (h b hb)) a

/-! ## Which errors there can be -/

/-- Whatever error a computation ends with has a property. -/
def FailsOnly (P : ε → Prop) (x : Except ε α) : Prop := ∀ e, x = .error e → P e

namespace FailsOnly

variable {P : ε → Prop}

theorem ok (a : α) : FailsOnly P (.ok a : Except ε α) := by
  intro e h
  cases h

theorem error {e : ε} (h : P e) : FailsOnly P (.error e : Except ε α) := by
  intro e' h'
  cases h'
  exact h

theorem bind {γ : Type w} {x : Except ε β} {f : β → Except ε γ} (hx : FailsOnly P x)
    (hf : ∀ b, x = .ok b → FailsOnly P (f b)) : FailsOnly P (x >>= f) := by
  intro e h
  cases hxe : x with
  | error e' =>
    rw [hxe] at h
    cases h
    exact hx e hxe
  | ok b =>
    rw [hxe] at h
    exact hf b hxe e h

theorem map {γ : Type v} {x : Except ε α} (hx : FailsOnly P x) (f : α → γ) :
    FailsOnly P (x.map f) := by
  intro e he
  cases x with
  | error e' =>
    cases he
    exact hx _ rfl
  | ok a => cases he

/-- Errors of reading a list are errors of reading its items. -/
theorem mapM {f : α → Except ε β} {l : List α} (h : ∀ a ∈ l, FailsOnly P (f a)) :
    FailsOnly P (l.mapM f) := by
  intro e he
  obtain ⟨before, a, after, rfl, -, ha⟩ := mapM_eq_error.mp he
  exact h a (by simp) e ha

/-- Errors of a fold are errors of its steps. -/
theorem foldlM {step : α → β → Except ε α} {l : List β}
    (hstep : ∀ b ∈ l, ∀ a, FailsOnly P (step a b)) (a : α) : FailsOnly P (l.foldlM step a) := by
  induction l generalizing a with
  | nil => exact .ok a
  | cons b rest ih =>
    rw [List.foldlM_cons]
    refine (hstep b List.mem_cons_self a).bind fun mid _ => ?_
    exact ih (fun c hc => hstep c (List.mem_cons_of_mem _ hc)) mid

/-- Errors with another name. -/
theorem mapError {ε' : Type u} {Q : ε' → Prop} {x : Except ε α} {f : ε → ε'}
    (h : ∀ e, x = .error e → Q (f e)) : FailsOnly Q (x.mapError f) := by
  intro e he
  cases hx : x with
  | error e' =>
    rw [hx] at he
    cases he
    exact h e' hx
  | ok a =>
    rw [hx] at he
    cases he

end FailsOnly

end KernelProfile

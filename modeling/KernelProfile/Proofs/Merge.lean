import KernelProfile.Definition
import KernelProfile.Proofs.Registration

/-! What is left after many definitions were registered. Under every name stands the first of the
largest definitions that were offered under it, and the names stand in the order in which they
first came; so the order of the calls matters only among definitions of one name and one size. -/
namespace KernelProfile

universe u

/-- Items are listed by their first occurrence: one that is known already adds nothing, and one that
is new comes behind the known ones. -/
theorem append_eraseDups_removeAll_cons {κ : Type u} [DecidableEq κ] (known : List κ) (k : κ)
    (rest : List κ) :
    known ++ ((k :: rest).removeAll known).eraseDups =
      (if k ∈ known then known else known ++ [k]) ++
        (rest.removeAll (if k ∈ known then known else known ++ [k])).eraseDups := by
  by_cases hk : k ∈ known
  · simp [List.removeAll, hk]
  · have hfirst : (k :: rest).removeAll known = k :: rest.removeAll known := by
      simp [List.removeAll, hk]
    have hlater : rest.removeAll (known ++ [k]) =
        (rest.removeAll known).filter fun x => !x == k := by
      simp only [List.removeAll, List.filter_filter]
      apply List.filter_congr
      intro x _
      by_cases hx : x = k <;> simp [hx]
    rw [if_neg hk, hfirst, hlater, List.eraseDups_cons, List.append_assoc, List.singleton_append]

namespace Table

variable {α : Type u} (fieldCount : α → Nat)

theorem get?_register (t : Table α) (name : String) (d : α) (k : String) :
    (t.register fieldCount name d).1.get? k =
      if k = name then
        match t.get? name with
        | none => some d
        | some old => if fieldCount old < fieldCount d then some d else some old
      else t.get? k := by
  unfold register
  cases hold : t.get? name with
  | none => simp only [get?_insert]
  | some old =>
    by_cases hlt : fieldCount old < fieldCount d
    · simp only [hlt, if_true, get?_insert]
    · simp only [hlt, if_false]
      split
      · rename_i hk
        rw [hk, hold]
      · rfl

/-- The name holds a definition with no fewer fields than the one that was offered. -/
theorem exists_get?_register (t : Table α) (name : String) (d : α) :
    ∃ e, (t.register fieldCount name d).1.get? name = some e ∧ fieldCount d ≤ fieldCount e := by
  rw [get?_register, if_pos rfl]
  cases t.get? name with
  | none => exact ⟨d, rfl, Nat.le_refl _⟩
  | some old =>
    by_cases hlt : fieldCount old < fieldCount d
    · exact ⟨d, by simp only [hlt, if_true], Nat.le_refl _⟩
    · exact ⟨old, by simp only [hlt, if_false], by omega⟩

/-- No name ever loses fields. -/
theorem le_get?_register (t : Table α) (name : String) (d : α) {k : String} {old : α}
    (h : t.get? k = some old) :
    ∃ e, (t.register fieldCount name d).1.get? k = some e ∧ fieldCount old ≤ fieldCount e := by
  rw [get?_register]
  by_cases hk : k = name
  · rw [if_pos hk, ← hk, h]
    by_cases hlt : fieldCount old < fieldCount d
    · exact ⟨d, by simp only [hlt, if_true], by omega⟩
    · exact ⟨old, by simp only [hlt, if_false], Nat.le_refl _⟩
  · rw [if_neg hk]
    exact ⟨old, h, Nat.le_refl _⟩

/-- A definition with no more fields than the one there changes nothing. -/
theorem register_of_le {t : Table α} {name : String} {d old : α} (h : t.get? name = some old)
    (hle : fieldCount d ≤ fieldCount old) : t.register fieldCount name d = (t, false) := by
  unfold register
  rw [h]
  exact if_neg (by omega)

/-- What stands in a table was there before or has just been registered. -/
theorem get?_register_cases {t : Table α} {name : String} {d : α} {k : String} {e : α}
    (h : (t.register fieldCount name d).1.get? k = some e) :
    (k = name ∧ e = d) ∨ t.get? k = some e := by
  rw [get?_eq_some_iff] at h
  rcases mem_entries_register fieldCount h with he | he
  · cases he
    exact .inl ⟨rfl, rfl⟩
  · exact .inr (get?_eq_some_iff.mpr he)

/-- Definitions registered under their names, one after the other. -/
def registerAll (t : Table α) (calls : List (String × α)) : Table α :=
  calls.foldl (fun t c => (t.register fieldCount c.1 c.2).1) t

/-- The definitions that calls offer under a name. -/
def offered (name : String) (calls : List (String × α)) : List α :=
  (calls.filter fun c => c.1 = name).map Prod.snd

theorem offered_cons (name : String) (c : String × α) (calls : List (String × α)) :
    offered name (c :: calls) =
      if c.1 = name then c.2 :: offered name calls else offered name calls := by
  by_cases h : c.1 = name <;> simp [offered, h]

theorem offered_filter (name : String) (calls : List (String × α)) :
    offered name (calls.filter fun c => c.1 = name) = offered name calls := by
  simp [offered]

/-- None of the definitions has more fields than this one of them. -/
def Largest (l : List α) (d : α) : Prop := d ∈ l ∧ ∀ e ∈ l, fieldCount e ≤ fieldCount d

/-- The first of the largest definitions. -/
def FirstLargest (l : List α) (d : α) : Prop :=
  ∃ before after, l = before ++ d :: after ∧ (∀ e ∈ before, fieldCount e < fieldCount d) ∧
    ∀ e ∈ after, fieldCount e ≤ fieldCount d

variable {fieldCount}

theorem FirstLargest.largest {l : List α} {d : α} (h : FirstLargest fieldCount l d) :
    Largest fieldCount l d := by
  obtain ⟨before, after, rfl, hbefore, hafter⟩ := h
  refine ⟨by simp, fun e he => ?_⟩
  rcases List.mem_append.mp he with he | he
  · exact Nat.le_of_lt (hbefore e he)
  · rcases List.mem_cons.mp he with rfl | he
    · exact Nat.le_refl _
    · exact hafter e he

theorem firstLargest_singleton {a d : α} : FirstLargest fieldCount [a] d ↔ d = a := by
  constructor
  · intro h
    simpa using h.largest.1
  · rintro rfl
    exact ⟨[], [], rfl, by simp, by simp⟩

theorem firstLargest_cons {a d : α} {l : List α} :
    FirstLargest fieldCount (a :: l) d ↔
      (d = a ∧ ∀ e ∈ l, fieldCount e ≤ fieldCount a) ∨
        (FirstLargest fieldCount l d ∧ fieldCount a < fieldCount d) := by
  constructor
  · rintro ⟨before, after, h, hbefore, hafter⟩
    cases before with
    | nil =>
      simp only [List.nil_append, List.cons.injEq] at h
      obtain ⟨rfl, rfl⟩ := h
      exact .inl ⟨rfl, hafter⟩
    | cons b before =>
      simp only [List.cons_append, List.cons.injEq] at h
      obtain ⟨rfl, rfl⟩ := h
      refine .inr ⟨⟨before, after, rfl, fun e he => ?_, hafter⟩, hbefore a List.mem_cons_self⟩
      exact hbefore e (List.mem_cons_of_mem _ he)
  · rintro (⟨rfl, hl⟩ | ⟨⟨before, after, rfl, hbefore, hafter⟩, ha⟩)
    · exact ⟨[], l, rfl, by simp, hl⟩
    · refine ⟨a :: before, after, rfl, fun e he => ?_, hafter⟩
      rcases List.mem_cons.mp he with rfl | he
      · exact ha
      · exact hbefore e he

/-- Of the first two definitions only the one that a merge keeps matters. -/
theorem firstLargest_cons_cons {a b d : α} {l : List α} :
    FirstLargest fieldCount (a :: b :: l) d ↔
      FirstLargest fieldCount ((if fieldCount a < fieldCount b then b else a) :: l) d := by
  simp only [firstLargest_cons, List.mem_cons, forall_eq_or_imp]
  by_cases hab : fieldCount a < fieldCount b
  · rw [if_pos hab]
    constructor
    · rintro (⟨rfl, hb, -⟩ | ⟨⟨rfl, hl⟩ | ⟨hd, hbd⟩, -⟩)
      · omega
      · exact .inl ⟨rfl, hl⟩
      · exact .inr ⟨hd, hbd⟩
    · rintro (⟨rfl, hl⟩ | ⟨hd, hbd⟩)
      · exact .inr ⟨.inl ⟨rfl, hl⟩, hab⟩
      · exact .inr ⟨.inr ⟨hd, hbd⟩, by omega⟩
  · rw [if_neg hab]
    constructor
    · rintro (⟨rfl, -, hl⟩ | ⟨⟨rfl, hl⟩ | ⟨hd, hbd⟩, had⟩)
      · exact .inl ⟨rfl, hl⟩
      · omega
      · exact .inr ⟨hd, had⟩
    · rintro (⟨rfl, hl⟩ | ⟨hd, had⟩)
      · exact .inl ⟨rfl, by omega, hl⟩
      · exact .inr ⟨.inr ⟨hd, by omega⟩, had⟩

/-- The first of the largest images is that of the first item whose image is largest. -/
theorem firstLargest_map {β : Type u} {g : β → α} {l : List β} {d : α} :
    FirstLargest fieldCount (l.map g) d ↔
      ∃ b, FirstLargest (fun b => fieldCount (g b)) l b ∧ g b = d := by
  constructor
  · rintro ⟨before, after, hl, hbefore, hafter⟩
    obtain ⟨l₁, l₂, rfl, rfl, hl₂⟩ := List.map_eq_append_iff.mp hl
    obtain ⟨b, l₃, rfl, rfl, rfl⟩ := List.map_eq_cons_iff.mp hl₂
    refine ⟨b, ⟨l₁, l₃, rfl, fun e he => ?_, fun e he => ?_⟩, rfl⟩
    · exact hbefore _ (List.mem_map_of_mem he)
    · exact hafter _ (List.mem_map_of_mem he)
  · rintro ⟨b, ⟨l₁, l₂, rfl, hbefore, hafter⟩, rfl⟩
    refine ⟨l₁.map g, l₂.map g, by simp, ?_, ?_⟩
    · simpa using hbefore
    · simpa using hafter

theorem exists_firstLargest {l : List α} (h : l ≠ []) : ∃ d, FirstLargest fieldCount l d := by
  induction l with
  | nil => exact absurd rfl h
  | cons a l ih =>
    by_cases ha : ∀ e ∈ l, fieldCount e ≤ fieldCount a
    · exact ⟨a, firstLargest_cons.mpr (.inl ⟨rfl, ha⟩)⟩
    · simp only [Classical.not_forall, Nat.not_le] at ha
      obtain ⟨e, he, hlt⟩ := ha
      obtain ⟨d, hd⟩ := ih (List.ne_nil_of_mem he)
      have hle := hd.largest.2 e he
      exact ⟨d, firstLargest_cons.mpr (.inr ⟨hd, by omega⟩)⟩

theorem Largest.perm {l l' : List α} {d : α} (h : Largest fieldCount l d) (hp : l.Perm l') :
    Largest fieldCount l' d :=
  ⟨hp.mem_iff.mp h.1, fun e he => h.2 e (hp.mem_iff.mpr he)⟩

/-- Where all largest definitions are the same one, it does not matter which comes first. -/
theorem FirstLargest.perm {l l' : List α} {d : α} (h : FirstLargest fieldCount l d)
    (hp : l.Perm l')
    (hsame : ∀ d e, Largest fieldCount l d → Largest fieldCount l e → d = e) :
    FirstLargest fieldCount l' d := by
  have hne : l' ≠ [] := List.ne_nil_of_mem (h.largest.perm hp).1
  obtain ⟨e, he⟩ : ∃ e, FirstLargest fieldCount l' e := exists_firstLargest hne
  rw [hsame d e h.largest (he.largest.perm hp.symm)]
  exact he

/-! ## The outcome of a run of calls -/

/-- The run lemma for definitions. What a name holds at the start counts as the first one
offered. -/
theorem get?_registerAll (t : Table α) (calls : List (String × α)) (name : String) (d : α) :
    (registerAll fieldCount t calls).get? name = some d ↔
      FirstLargest fieldCount ((t.get? name).toList ++ offered name calls) d := by
  induction calls generalizing t with
  | nil =>
    cases h : t.get? name with
    | none => simp [registerAll, offered, h, FirstLargest]
    | some old =>
      simp only [registerAll, List.foldl_nil, h, Option.toList_some, offered, List.filter_nil,
        List.map_nil, List.append_nil, firstLargest_singleton, Option.some.injEq]
      exact eq_comm
  | cons c calls ih =>
    rw [registerAll, List.foldl_cons, ← registerAll, ih, get?_register, offered_cons]
    by_cases hc : c.1 = name
    · -- the call is on this name, and the merge decides between its definition and the stored one
      rw [if_pos hc.symm, if_pos hc, hc]
      cases h : t.get? name with
      | none => rfl
      | some old =>
        simp only [Option.toList_some, List.cons_append, List.nil_append]
        rw [firstLargest_cons_cons]
        split <;> rfl
    · rw [if_neg (Ne.symm hc), if_neg hc]

/-- The definitions of items that are registered on an empty table, each under its own name. -/
theorem get?_registerAll_map {β : Type u} (call : β → String × α) (l : List β) (name : String)
    (d : α) :
    (registerAll fieldCount empty (l.map call)).get? name = some d ↔
      ∃ b, FirstLargest (fun b => fieldCount (call b).2) (l.filter fun b => (call b).1 = name) b ∧
        (call b).2 = d := by
  have hoffered : offered name (l.map call) =
      (l.filter fun b => (call b).1 = name).map fun b => (call b).2 := by
    rw [offered, List.filter_map, List.map_map]
    rfl
  rw [get?_registerAll, hoffered]
  exact firstLargest_map

theorem keys_register (t : Table α) (name : String) (d : α) :
    (t.register fieldCount name d).1.keys =
      if name ∈ t.keys then t.keys else t.keys ++ [name] := by
  rcases register_eq fieldCount t name d with h | ⟨hm, h⟩
  · rw [h, keys_insert]
  · rw [h, if_pos hm]

/-- The run lemma for keys: new names come behind the known ones, in order of their first call. -/
theorem keys_registerAll (t : Table α) (calls : List (String × α)) :
    (registerAll fieldCount t calls).keys =
      t.keys ++ ((calls.map Prod.fst).removeAll t.keys).eraseDups := by
  induction calls generalizing t with
  | nil => simp [registerAll]
  | cons c calls ih =>
    rw [registerAll, List.foldl_cons, ← registerAll, ih, keys_register, List.map_cons,
      append_eraseDups_removeAll_cons]

/-- A call puts its definition exactly if that has more fields than what the name holds. -/
theorem register_snd (t : Table α) (name : String) (d : α) :
    (t.register fieldCount name d).2 = true ↔
      ∀ old, t.get? name = some old → fieldCount old < fieldCount d := by
  unfold register
  cases h : t.get? name with
  | none => simp
  | some old => by_cases hlt : fieldCount old < fieldCount d <;> simp [hlt]

/-- **More fields win.** After any calls on an empty table a name holds the first of the largest
definitions that were offered under it, whatever was offered under other names; the names stand in
the order of their first calls; and a call tells whether its definition is larger than all that
were offered under its name before. The same calls in another order leave a name with the same
definition if all the largest ones of that name are the same. -/
theorem registerAll_holds_firstLargest (calls : List (String × α)) :
    (∀ name d, (registerAll fieldCount empty calls).get? name = some d ↔
      FirstLargest fieldCount (offered name calls) d) ∧
    (registerAll fieldCount empty calls).keys = (calls.map Prod.fst).eraseDups ∧
    (∀ earlier name d later, calls = earlier ++ (name, d) :: later →
      (((registerAll fieldCount empty earlier).register fieldCount name d).2 = true ↔
        ∀ e ∈ offered name earlier, fieldCount e < fieldCount d)) ∧
    (∀ name, (registerAll fieldCount empty (calls.filter fun c => c.1 = name)).get? name =
      (registerAll fieldCount empty calls).get? name) ∧
    ∀ calls', calls.Perm calls' → ∀ name,
      (∀ d e, Largest fieldCount (offered name calls) d →
        Largest fieldCount (offered name calls) e → d = e) →
      (registerAll fieldCount empty calls').get? name =
        (registerAll fieldCount empty calls).get? name := by
  have hget : ∀ (calls : List (String × α)) name d,
      (registerAll fieldCount empty calls).get? name = some d ↔
        FirstLargest fieldCount (offered name calls) d :=
    fun calls name d => get?_registerAll empty calls name d
  refine ⟨hget calls, ?_, ?_, ?_, ?_⟩
  · rw [keys_registerAll]
    simp only [keys_empty, List.nil_append, List.removeAll_nil]
  · intro earlier name d later _
    rw [register_snd]
    constructor
    · intro h e he
      obtain ⟨old, hold⟩ : ∃ old, FirstLargest fieldCount (offered name earlier) old :=
        exists_firstLargest (List.ne_nil_of_mem he)
      have hlt := h old ((hget earlier name old).mpr hold)
      have hle := hold.largest.2 e he
      omega
    · intro h old hold
      exact h old ((hget earlier name old).mp hold).largest.1
  · intro name
    refine Option.ext fun d => ?_
    rw [hget, hget, offered_filter]
  · intro calls' hp name hsame
    have hoffered : (offered name calls).Perm (offered name calls') :=
      (hp.filter _).map Prod.snd
    refine Option.ext fun d => ?_
    rw [hget, hget]
    constructor
    · intro h
      refine h.perm hoffered.symm fun d e hd he => ?_
      exact hsame d e (hd.perm hoffered.symm) (he.perm hoffered.symm)
    · intro h
      exact h.perm hoffered hsame

/-- A structure with one member, and a later definition of the same name with a second one. -/
def oneMember : StructDef := ⟨.structType, 4, .ofList [("open", ⟨0, .void⟩)]⟩

def twoMembers : StructDef :=
  ⟨.structType, 8, .ofList [("open", ⟨0, .void⟩), ("close", ⟨4, .void⟩)]⟩

/-- Whether the larger definition of a name comes last or first, it is the one that stays. -/
theorem registerAll_reordered :
    [("ops", oneMember), ("page", oneMember), ("ops", twoMembers)].Perm
        [("ops", twoMembers), ("page", oneMember), ("ops", oneMember)] ∧
      Largest (·.fields.size) [oneMember, twoMembers] twoMembers ∧
      ¬ Largest (·.fields.size) [oneMember, twoMembers] oneMember ∧
      (registerAll (·.fields.size) empty
          [("ops", twoMembers), ("page", oneMember), ("ops", oneMember)]).get? "ops" =
        (registerAll (·.fields.size) empty
          [("ops", oneMember), ("page", oneMember), ("ops", twoMembers)]).get? "ops" := by
  have hperm : [("ops", oneMember), ("page", oneMember), ("ops", twoMembers)].Perm
      [("ops", twoMembers), ("page", oneMember), ("ops", oneMember)] := by decide
  have hlarge : Largest (·.fields.size) [oneMember, twoMembers] twoMembers :=
    ⟨by simp, by decide⟩
  have hsmall : ¬ Largest (·.fields.size) [oneMember, twoMembers] oneMember :=
    fun h => absurd (h.2 twoMembers (by simp)) (by decide)
  refine ⟨hperm, hlarge, hsmall, ?_⟩
  refine (registerAll_holds_firstLargest _).2.2.2.2 _ hperm "ops" fun d e hd he => ?_
  have honly : ∀ d, Largest (·.fields.size) [oneMember, twoMembers] d → d = twoMembers := by
    intro d hd
    rcases List.mem_cons.mp hd.1 with rfl | hm
    · exact absurd hd hsmall
    · exact List.mem_singleton.mp hm
  exact (honly d hd).trans (honly e he).symm

end Table
end KernelProfile

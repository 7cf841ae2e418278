import KernelProfile.Pdb.AddressMap
import KernelProfile.Proofs.Bytes
import KernelProfile.Proofs.Except

/-! Reading public symbols and finding their addresses takes nothing that is not there: the framing
checks cover every read of a record, and the places that are looked up lie inside their lists. -/
namespace KernelProfile.Pdb

/-- Symbol records are never read past the end of their stream. -/
theorem PublicSymbol.listFrom_ne_endOfData (bound : Nat) :
    ∀ (offset : Nat) (data : Bytes), (listFrom bound offset data).2 ≠ some .endOfData := by
  induction bound with
  | zero =>
    intro offset data
    simp [listFrom]
  | succ bound ih =>
    intro offset data
    rw [listFrom]
    by_cases hshort : data.length < 4
    · simp [hshort]
    · simp only [hshort, if_false, Bytes.split?_of_le (Nat.not_lt.mp hshort)]
      split
      · simp
      · rename_i hlength
        simp only [Bool.or_eq_true, decide_eq_true_eq, not_or, Nat.not_lt] at hlength
        split
        · split
          · simp
          · -- the record is long enough for its fixed bytes, and the stream for the record
            rename_i hfixed
            have hroom : fixedSize ≤ (data.drop 4).length := by omega
            simp only [Bytes.split?_of_le hroom]
            exact ih _ _
        · exact ih _ _

namespace AddressMap

theorem elementAt_of_lt {α : Type} {l : List α} {place : Nat} (h : place < l.length) :
    elementAt l place = .ok l[place] := by
  simp only [elementAt, List.getElem?_eq_getElem h]

/-- Halving stays inside the range that it starts from. -/
theorem bisect_le (sources : Array Int) (address : Int) (low high : Nat) (h : low ≤ high) :
    bisect sources address low high ≤ high := by
  fun_induction bisect sources address low high with
  | case1 low high hlt middle hbelow ih =>
    have hmiddle : middle ≤ high := by omega
    exact Nat.le_trans (ih (by omega)) hmiddle
  | case2 low high hlt middle hbelow ih => exact ih (by omega)
  | case3 low high hlt => exact h

/-- Every place has an address or none; no list is asked for an element it does not have. -/
theorem exists_rva (m : AddressMap) (segment offset : Int) :
    ∃ address, m.rva segment offset = .ok address := by
  unfold rva
  split
  · exact ⟨none, rfl⟩
  · rename_i hsegment
    simp only [Bool.or_eq_true, decide_eq_true_eq, not_or, Int.not_lt] at hsegment
    have hplace : (segment - 1).toNat < m.sections.length := by omega
    rw [elementAt_of_lt hplace]
    simp only [bind, Except.bind]
    split
    · exact ⟨_, rfl⟩
    · have hle := bisect_le (m.omap.map OmapEntry.source).toArray
        (m.sections[(segment - 1).toNat] + offset) 0 m.omap.length (Nat.zero_le _)
      split
      · exact ⟨_, rfl⟩
      · rename_i place heq
        rw [heq] at hle
        rw [elementAt_of_lt hle]
        simp only
        split
        · exact ⟨_, rfl⟩
        · exact ⟨_, rfl⟩

theorem exists_symbolTable (m : AddressMap) (symbols : List PublicSymbol) :
    ∃ table, m.symbolTable symbols = .ok table := by
  apply exists_foldlM_ok
  intro s _ table
  unfold addSymbol
  cases s.name with
  | none => exact ⟨table, rfl⟩
  | some name =>
    obtain ⟨address, haddress⟩ := m.exists_rva s.segment s.offset
    simp only [haddress, bind, Except.bind]
    cases address with
    | none => exact ⟨table, rfl⟩
    | some a => exact ⟨table.insert name a, rfl⟩

end AddressMap
end KernelProfile.Pdb

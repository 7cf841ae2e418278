import KernelProfile.Proofs.Bytes

/-! Byte strings put at offsets of a background. Where no place is in two of them, each is found
where it was put, and everywhere else the background is as it was. -/
namespace KernelProfile.Bytes

/-- A byte string at an offset. -/
structure Placed where
  offset : Nat
  bytes : Bytes

/-- A place is in what was put. -/
def Placed.Covers (w : Placed) (place : Nat) : Prop :=
  w.offset ≤ place ∧ place < w.offset + w.bytes.length

/-- The byte that was put at a place. -/
def putAt (ws : List Placed) (place : Nat) : Option UInt8 :=
  ws.findSome? fun w => if w.offset ≤ place then w.bytes[place - w.offset]? else none

/-- A background with byte strings put at their offsets. -/
def overlay (background : Bytes) (ws : List Placed) : Bytes :=
  background.mapIdx fun place b => (putAt ws place).getD b

theorem length_overlay (background : Bytes) (ws : List Placed) :
    (overlay background ws).length = background.length := by simp [overlay]

/-- A place that only one byte string covers has that one's byte. -/
theorem putAt_eq {ws : List Placed} {w : Placed} {place : Nat} (hw : w ∈ ws) (hin : w.Covers place)
    (honly : ∀ v ∈ ws, v.Covers place → v = w) : putAt ws place = w.bytes[place - w.offset]? := by
  obtain ⟨hlow, hhigh⟩ := hin
  have hbyte : place - w.offset < w.bytes.length := by omega
  have hsome : (putAt ws place).isSome := by
    refine List.findSome?_isSome_iff.mpr ⟨w, hw, ?_⟩
    rw [if_pos hlow, List.getElem?_eq_getElem hbyte]
    rfl
  obtain ⟨b, hb⟩ := Option.isSome_iff_exists.mp hsome
  obtain ⟨v, hv, hvb⟩ := List.exists_of_findSome?_eq_some hb
  split at hvb
  · rename_i hle
    have hlt := (List.getElem?_eq_some_iff.mp hvb).1
    have hvw : v = w := honly v hv ⟨hle, by omega⟩
    rw [hb, ← hvw, hvb]
  · cases hvb

/-- What was put is found where it was put, if nothing else was put there. -/
theorem slice_overlay {background : Bytes} {ws : List Placed} {w : Placed} (hw : w ∈ ws)
    (hin : w.offset + w.bytes.length ≤ background.length)
    (honly : ∀ v ∈ ws, ∀ place, v.Covers place → w.Covers place → v = w) :
    (overlay background ws).slice w.offset w.bytes.length = w.bytes := by
  apply List.ext_getElem?
  intro k
  rw [getElem?_slice]
  split
  · rename_i hk
    have hcovers : w.Covers (w.offset + k) := ⟨by omega, by omega⟩
    have hput := putAt_eq hw hcovers fun v hv hc => honly v hv _ hc hcovers
    have hplace : w.offset + k < background.length := by omega
    rw [overlay, List.getElem?_mapIdx, List.getElem?_eq_getElem hplace, Option.map_some, hput,
      Nat.add_sub_cancel_left, List.getElem?_eq_getElem hk]
    rfl
  · rw [List.getElem?_eq_none (by omega)]

end KernelProfile.Bytes

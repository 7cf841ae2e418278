import KernelProfile.CodeView.Decode

/-! The stream of type records. A header gives the first index and the region of the records, each
of which is framed by its length; what is left of the stream is of no concern here. -/
namespace KernelProfile.CodeView

/-- Records by type index, in index order, some of which may be unreadable. -/
structure RecordTable where
  rows : List (Int × Except RecordError TypeRecord)

namespace RecordTable

/-- Put a record under its index, among records in the order of their indices. -/
def place (index : Int) (record : TypeRecord) :
    List (Int × Except RecordError TypeRecord) → List (Int × Except RecordError TypeRecord)
  | [] => [(index, .ok record)]
  | (i, r) :: rest =>
    if index < i then (index, .ok record) :: (i, r) :: rest
    else if index = i then (index, .ok record) :: rest
    else (i, r) :: place index record rest

/-- The table of readable records, of which a later one replaces an earlier one of its index. -/
def ofRecords (records : List (Int × TypeRecord)) : RecordTable where
  rows := records.foldl (fun rows (index, record) => place index record rows) []

/-- The record of a type index. Indices below 0x1000 are built-in types. -/
def get (t : RecordTable) (index : Int) : Except RecordError TypeRecord :=
  if index < firstRecordIndex then .ok (.primitive index)
  else
    match t.rows.lookup index with
    | some record => record
    | none => .error (.outOfRange index)

/-- Whether an index names a built-in type or a record, readable or not. -/
def contains (t : RecordTable) (index : Int) : Bool :=
  index < firstRecordIndex || (t.rows.lookup index).isSome

/-- The records in order, up to the first that cannot be read, and why it cannot. -/
def listing (t : RecordTable) : List (Int × TypeRecord) × Option RecordError :=
  go t.rows
where
  go : List (Int × Except RecordError TypeRecord) →
      List (Int × TypeRecord) × Option RecordError
    | [] => ([], none)
    | (index, _) :: rest =>
      match t.get index with
      | .error e => ([], some e)
      | .ok record => ((index, record) :: (go rest).1, (go rest).2)

end RecordTable

/-- Why a stream of type records is refused. -/
inductive StreamError where
  | shortHeader
  | endOfData
  | overrun (needed available : Nat)
  | badLength (length offset : Nat)
  deriving DecidableEq, Repr

def StreamError.message : StreamError → String
  | shortHeader => "truncated TPI header"
  | endOfData => ""
  | overrun needed available =>
    "TPI records extend past the stream (" ++ Text.decimal needed ++ " > " ++
      Text.decimal available ++ ")"
  | badLength length offset =>
    "bad type record length " ++ Text.decimal length ++ " at offset 0x" ++ Text.hex offset

/-- The header fields that the records depend on, and the framed records: leaf and payload. -/
structure TypeStream where
  firstIndex : Nat
  endIndex : Nat
  framed : List (Nat × Bytes)

namespace TypeStream

/-- The size of the header. -/
def headerSize : Nat := 56

/-- Cut a region into framed records. The length of a frame counts the leaf but not itself; fewer
than four bytes at the end are left over. -/
def frames : Nat → Nat → Bytes → Except StreamError (List (Nat × Bytes))
  | 0, _, _ => .ok []
  | bound + 1, offset, region =>
    if region.length < 4 then .ok []
    else
      match region.split? 4 with
      | none => .error .endOfData
      | some (header, body) =>
        let length := header.littleAt 0 2
        if length < 2 || body.length + 2 < length then .error (.badLength length offset)
        else do
          let rest ← frames bound (offset + 2 + length) (body.drop (length - 2))
          return (header.littleAt 2 2, body.take (length - 2)) :: rest

/-- The type stream of its bytes. -/
def ofBytes (data : Bytes) : Except StreamError TypeStream :=
  match data.split? headerSize with
  | none => .error .shortHeader
  | some (header, _) =>
    let start := header.littleAt 4 4
    let stop := start + header.littleAt 16 4
    if data.length < stop then .error (.overrun stop data.length)
    else do
      let framed ← frames data.length start (data.slice start (stop - start))
      return ⟨header.littleAt 8 4, header.littleAt 12 4, framed⟩

/-- The records by type index, counted from the first index of the header. -/
def table (s : TypeStream) : RecordTable where
  rows := s.framed.mapIdx fun i (leaf, payload) =>
    ((s.firstIndex + i : Nat), decodeRecord leaf payload)

end TypeStream
end KernelProfile.CodeView

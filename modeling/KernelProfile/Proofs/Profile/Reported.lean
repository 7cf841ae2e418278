import KernelProfile.Proofs.Profile.Draft

/-! How the reading of a profile can fail. A fault is reported if it is announced as one of the
text, of the document's form or of its architecture. The other three have their exact causes here:
bytes that no encoding accounts for, a number with too many digits, and an infinite address. Nothing
is said of half a surrogate pair on its own, in a text or in bytes: no text here can hold it. -/
namespace KernelProfile

/-- The faults that are reported as what they are: the text is no JSON, it is no object, its form is
wrong, or its architecture is not supported. -/
def LoadError.Reported : LoadError → Prop
  | notJson | notAnObject | malformed _ | unsupported _ => True
  | undecodable | tooManyDigits _ | infiniteAddress | loneSurrogate | illTyped => False

/-- A document in which an infinite number stands as the first address that is none, behind
definitions that can be read. -/
structure MeetsInfinity (doc : Json) : Prop where
  types : ∃ types, TypesDraft.ofJson doc = .ok types
  address : ∃ before name negative after,
    doc.member "symbols" = .ok (.obj (before ++ (name, .float (.infinite negative)) :: after)) ∧
      ∀ e ∈ before, ∃ a, addressOf e.2 = .ok a

theorem MeetsInfinity.exists_members {doc : Json} (h : MeetsInfinity doc) :
    ∃ members, doc = .obj members := by
  obtain ⟨-, _, _, _, _, hmember, -⟩ := h
  exact Json.exists_members hmember

/-! ## Only an address can be infinite -/

/-- A fault of the form of a document, which an infinite address is not. -/
def DocumentError.Formal : DocumentError → Prop
  | infiniteAddress => False
  | _ => True

open DocumentError (Formal)

variable {δ : Type}

theorem formal_member (key : String) (v : Json) : FailsOnly Formal (v.member key) := by
  cases v with
  | obj members =>
    rw [Json.member]
    cases members.lookup key with
    | some value => exact .ok _
    | none => exact .error trivial
  | _ => exact .error trivial

theorem formal_items (v : Json) : FailsOnly Formal v.items := by
  cases v with
  | arr items => exact .ok _
  | str s => exact .ok _
  | obj members => exact .ok _
  | _ => exact .error trivial

theorem formal_table {read : Json → Except DocumentError δ} (h : ∀ v, FailsOnly Formal (read v))
    (v : Json) : FailsOnly Formal (v.table read) := by
  unfold Json.table
  refine .bind ?_ fun members _ => .bind (.mapM fun e _ => ?_) fun entries _ => .ok _
  · cases v with
    | obj members => exact .ok _
    | _ => exact .error trivial
  · exact (h e.2).bind fun d _ => .ok _

theorem formal_named {κ : Type} {ofName? : String → Option κ} (fault : Json → DocumentError)
    (h : ∀ v, Formal (fault v)) (v : Json) : FailsOnly Formal (v.named ofName? fault) := by
  cases v with
  | str s =>
    rw [Json.named]
    cases ofName? s with
    | some k => exact .ok _
    | none => exact .error (h _)
  | _ => exact .error (h _)

theorem BaseKind.formal_ofJson (v : Json) : FailsOnly Formal (BaseKind.ofJson v) :=
  formal_named .notBaseKind (fun _ => trivial) v

theorem StructKind.formal_ofJson (v : Json) : FailsOnly Formal (StructKind.ofJson v) :=
  formal_named .notStructKind (fun _ => trivial) v

theorem VariantKind.formal_ofJson (v : Json) : FailsOnly Formal (VariantKind.ofJson v) :=
  formal_named .notVariantKind (fun _ => trivial) v

namespace TyDraft

mutual

theorem formal_ofJson : ∀ v : Json, FailsOnly Formal (ofJson v)
  | .obj members => by
    have hmember (key : String) := formal_member key (.obj members)
    have hsubtype := formal_ofSubtype members
    rw [ofJson]
    refine (hmember _).bind fun kind _ => ?_
    split_ifs
    · refine (hmember _).bind fun subkind _ => ?_
      exact (BaseKind.formal_ofJson subkind).bind fun _ _ => .ok _
    · exact (hmember _).bind fun _ _ => .ok _
    · exact (hmember _).bind fun _ _ => .ok _
    · refine hsubtype.bind fun element _ => (hmember _).bind fun dims _ => ?_
      exact (formal_items dims).bind fun _ _ => (hmember _).bind fun _ _ => .ok _
    · exact hsubtype.bind fun _ _ => .ok _
    · exact hsubtype.bind fun _ _ => (hmember _).bind fun _ _ => (hmember _).bind fun _ _ => .ok _
    · exact .ok _
    · exact .error trivial
  | .null => .error trivial
  | .bool _ => .error trivial
  | .int _ => .error trivial
  | .float _ => .error trivial
  | .str _ => .error trivial
  | .arr _ => .error trivial

theorem formal_ofSubtype : ∀ members : List (String × Json), FailsOnly Formal (ofSubtype members)
  | [] => .error trivial
  | (key, value) :: rest => by
    rw [ofSubtype]
    split_ifs
    · exact formal_ofJson value
    · exact formal_ofSubtype rest

end

end TyDraft

theorem VariantDraft.formal_ofJson (v : Json) : FailsOnly Formal (ofJson v) := by
  cases v with
  | int n => exact (FailsOnly.mapError fun _ _ => trivial).bind fun _ _ => .ok _
  | obj members =>
    refine (formal_member _ _).bind fun kind _ => ?_
    refine (VariantKind.formal_ofJson kind).bind fun k _ => ?_
    refine (formal_member _ _).bind fun value _ => ?_
    cases value with
    | int n => exact (FailsOnly.mapError fun _ _ => trivial).bind fun _ _ => .ok _
    | bool b => exact .ok _
    | float x =>
      dsimp only
      split_ifs
      · exact .ok _
      · exact .error trivial
    | _ => exact .error trivial
  | _ => exact .error trivial

theorem EnumDraft.formal_ofJson (v : Json) : FailsOnly Formal (ofJson v) := by
  refine (formal_member _ v).bind fun subtype _ => ?_
  refine (TyDraft.formal_ofJson subtype).bind fun _ _ => ?_
  refine (formal_member _ v).bind fun fields _ => ?_
  exact (formal_table VariantDraft.formal_ofJson fields).bind fun _ _ => .ok _

theorem MemberDraft.formal_ofJson (v : Json) : FailsOnly Formal (ofJson v) := by
  refine (formal_member _ v).bind fun offset _ => (formal_member _ v).bind fun type _ => ?_
  exact (TyDraft.formal_ofJson type).bind fun _ _ => .ok _

theorem StructDraft.formal_ofJson (v : Json) : FailsOnly Formal (ofJson v) := by
  refine (formal_member _ v).bind fun kind _ => (StructKind.formal_ofJson kind).bind fun _ _ => ?_
  refine (formal_member _ v).bind fun size _ => (formal_member _ v).bind fun fields _ => ?_
  exact (formal_table MemberDraft.formal_ofJson fields).bind fun _ _ => .ok _

theorem TypesDraft.formal_ofJson (v : Json) : FailsOnly Formal (ofJson v) := by
  refine (formal_member _ v).bind fun types _ => (formal_member _ types).bind fun enums _ => ?_
  refine (formal_table EnumDraft.formal_ofJson enums).bind fun _ _ => ?_
  refine (formal_member _ v).bind fun types _ => (formal_member _ types).bind fun structs _ => ?_
  exact (formal_table StructDraft.formal_ofJson structs).bind fun _ _ => .ok _

/-! ## The first fault of a document -/

theorem addressOf_eq_infinite {v : Json} :
    addressOf v = .error .infiniteAddress ↔ ∃ negative, v = .float (.infinite negative) := by
  cases v with
  | float x => cases x <;> simp [addressOf]
  | str s =>
    cases h : Text.readInteger s.toList <;> simp [addressOf, h, Except.mapError]
  | _ => simp [addressOf]

namespace Draft

theorem parts_eq_infinite {doc : Json} :
    parts doc = .error .infiniteAddress ↔ MeetsInfinity doc := by
  constructor
  · intro h
    obtain h | ⟨types, htypes, h⟩ := bind_eq_error.mp h
    · exact (TypesDraft.formal_ofJson doc _ h).elim
    obtain h | ⟨addresses, haddresses, h⟩ := bind_eq_error.mp h
    · exact (formal_member _ doc _ h).elim
    obtain h | ⟨symbols, -, h⟩ := bind_eq_error.mp h
    · cases addresses with
      | obj members =>
        obtain ⟨before, name, value, after, rfl, hbefore, hvalue⟩ := Json.table_eq_error.mp h
        obtain ⟨negative, rfl⟩ := addressOf_eq_infinite.mp hvalue
        exact ⟨⟨types, htypes⟩, before, name, negative, after, haddresses, hbefore⟩
      | _ => cases h
    obtain h | ⟨tag, -, h⟩ := bind_eq_error.mp h
    · exact (formal_member _ doc _ h).elim
    · cases h
  · rintro ⟨⟨types, htypes⟩, before, name, negative, after, haddresses, hbefore⟩
    refine bind_eq_error.mpr (.inr ⟨types, htypes, bind_eq_error.mpr (.inr ⟨_, haddresses, ?_⟩)⟩)
    refine bind_eq_error.mpr (.inl (Json.table_eq_error.mpr ?_))
    exact ⟨before, name, _, after, rfl, hbefore, rfl⟩

theorem ofJson_eq_infinite {doc : Json} :
    ofJson doc = .error .infiniteAddress ↔ MeetsInfinity doc := by
  rw [← parts_eq_infinite, ofJson]
  split
  · rename_i hparts
    exact iff_of_true rfl hparts
  · rename_i hne hparts
    simpa [hparts] using hne
  · rename_i hparts
    rw [hparts]
    split <;> simp

/-- A fault in the definitions is a fault of the document. -/
theorem ofJson_of_types {doc : Json} {e : DocumentError} (h : TypesDraft.ofJson doc = .error e) :
    ofJson doc = .error (.malformed e) := by
  have hparts : parts doc = .error e := bind_eq_error.mpr (.inl h)
  have hformal := TypesDraft.formal_ofJson doc e h
  unfold ofJson
  split
  · rename_i hinfinite
    rw [Except.error.inj (hparts.symm.trans hinfinite)] at hformal
    exact hformal.elim
  · rename_i hparts'
    rw [Except.error.inj (hparts'.symm.trans hparts)]
  · rename_i hok
    cases hparts.symm.trans hok

/-- A document has no other faults than those of its form, of its architecture and of an infinite
address. -/
theorem ofJson_failsOnly (doc : Json) :
    FailsOnly (fun e => e.Reported ∨ e = .infiniteAddress) (ofJson doc) := by
  unfold ofJson
  split
  · exact .error (.inr rfl)
  · exact .error (.inl trivial)
  · split
    · exact .error (.inl trivial)
    · exact .ok _

theorem document_eq_ok {text : String} {doc : Json} :
    document text = .ok doc ↔ Json.read text = .ok doc ∧ ∃ members, doc = .obj members := by
  unfold document
  split
  · simp [*]
  · simp [*]
  · simp [*]
  · rename_i members hread
    rw [hread, Except.ok.injEq, Except.ok.injEq]
    exact ⟨fun h => ⟨h, members, h.symm⟩, fun h => h.1⟩
  · rename_i v hne hread
    rw [hread]
    refine iff_of_false (by simp) ?_
    rintro ⟨h, members, rfl⟩
    exact hne members (Except.ok.inj h)

theorem document_failsOnly (text : String) : FailsOnly (fun e => e.Reported ∨
    (∃ digits, e = .tooManyDigits digits ∧ Json.read text = .error (.tooLong digits)) ∨
    (e = .loneSurrogate ∧ Json.read text = .error .loneSurrogate)) (document text) := by
  unfold document
  split
  · exact .error (.inl trivial)
  · rename_i digits hread
    exact .error (.inr (.inl ⟨digits, rfl, hread⟩))
  · rename_i hread
    exact .error (.inr (.inr ⟨rfl, hread⟩))
  · exact .ok _
  · exact .error (.inl trivial)

/-- Faults of the text itself are neither an infinite address nor that it cannot be decoded. -/
theorem document_ne {text : String} {e : LoadError}
    (h : e = .infiniteAddress ∨ e = .undecodable) : document text ≠ .error e := by
  intro hdocument
  obtain hreported | ⟨_, rfl, -⟩ | ⟨rfl, -⟩ := document_failsOnly text _ hdocument
  · rcases h with rfl | rfl <;> exact hreported
  all_goals simp at h

theorem load_eq_infinite {text : String} :
    load text = .error .infiniteAddress ↔ ∃ doc, Json.read text = .ok doc ∧ MeetsInfinity doc := by
  rw [load, bind_eq_error]
  constructor
  · rintro (h | ⟨doc, hdoc, h⟩)
    · exact absurd h (document_ne (.inl rfl))
    · exact ⟨doc, (document_eq_ok.mp hdoc).1, ofJson_eq_infinite.mp h⟩
  · rintro ⟨doc, hread, h⟩
    exact .inr ⟨doc, document_eq_ok.mpr ⟨hread, h.exists_members⟩, ofJson_eq_infinite.mpr h⟩

theorem load_of_loneSurrogate {text : String} (h : Json.read text = .error .loneSurrogate) :
    load text = .error .loneSurrogate := by
  rw [load, document, h]
  rfl

theorem load_failsOnly_reported_iff {text : String}
    (htext : Json.read text ≠ .error .loneSurrogate) :
    FailsOnly LoadError.Reported (load text) ↔
      (∀ doc, Json.read text = .ok doc → ¬ MeetsInfinity doc) ∧
        ∀ digits, Json.read text ≠ .error (.tooLong digits) := by
  constructor
  · intro h
    constructor
    · intro doc hread hdoc
      exact h _ (load_eq_infinite.mpr ⟨doc, hread, hdoc⟩)
    · intro digits hread
      have hdocument : document text = .error (.tooManyDigits digits) := by
        simp only [document, hread]
      exact h _ (bind_eq_error.mpr (.inl hdocument))
  · rintro ⟨hfinite, hshort⟩ e he
    obtain he | ⟨doc, hdoc, he⟩ := bind_eq_error.mp he
    · obtain h | ⟨digits, -, h⟩ | ⟨-, h⟩ := document_failsOnly text e he
      · exact h
      · exact absurd h (hshort digits)
      · exact absurd h htext
    · obtain h | rfl := ofJson_failsOnly doc e he
      · exact h
      · exact absurd (ofJson_eq_infinite.mp he) (hfinite doc (document_eq_ok.mp hdoc).1)

/-- A text needs no decoding. -/
theorem load_ne_undecodable (text : String) : load text ≠ .error .undecodable := by
  intro h
  obtain h | ⟨doc, -, h⟩ := bind_eq_error.mp h
  · exact document_ne (.inr rfl) h
  · obtain h | h := ofJson_failsOnly doc _ h
    · exact h.elim
    · cases h

theorem loadBytes_of_invalid {bytes : List UInt8}
    (h : Text.decodeDetected bytes = .error .invalid) :
    loadBytes bytes = .error .undecodable := by
  rw [loadBytes, h]

theorem loadBytes_of_ok {bytes : List UInt8} {text : String}
    (h : Text.decodeDetected bytes = .ok text) : loadBytes bytes = load text := by
  rw [loadBytes, h]

/-- Bytes without half of a surrogate pair are a text or are none. -/
theorem decodeDetected_cases {bytes : List UInt8}
    (hbytes : Text.decodeDetected bytes ≠ .error .loneSurrogate) :
    Text.decodeDetected bytes = .error .invalid ∨ ∃ text, Text.decodeDetected bytes = .ok text := by
  cases h : Text.decodeDetected bytes with
  | ok text => exact .inr ⟨text, rfl⟩
  | error fault =>
    cases fault with
    | invalid => exact .inl rfl
    | loneSurrogate => exact absurd h hbytes

theorem loadBytes_eq_undecodable {bytes : List UInt8}
    (hbytes : Text.decodeDetected bytes ≠ .error .loneSurrogate) :
    loadBytes bytes = .error .undecodable ↔ ∀ text, Text.decodeDetected bytes ≠ .ok text := by
  obtain h | ⟨text, h⟩ := decodeDetected_cases hbytes
  · refine iff_of_true (loadBytes_of_invalid h) fun text htext => ?_
    rw [h] at htext
    cases htext
  · rw [loadBytes_of_ok h]
    exact iff_of_false (load_ne_undecodable text) fun hnone => hnone text h

theorem loadBytes_failsOnly_reported_iff {bytes : List UInt8}
    (hbytes : Text.decodeDetected bytes ≠ .error .loneSurrogate) :
    FailsOnly LoadError.Reported (loadBytes bytes) ↔
      ∃ text, Text.decodeDetected bytes = .ok text ∧
        FailsOnly LoadError.Reported (load text) := by
  obtain h | ⟨text, h⟩ := decodeDetected_cases hbytes
  · refine iff_of_false (fun hreported => hreported _ (loadBytes_of_invalid h)) ?_
    rintro ⟨text, htext, -⟩
    rw [h] at htext
    cases htext
  · simp [loadBytes_of_ok h, h]

/-- **Loading fails only as reported, except where it meets an infinite address or a number with too
many digits**, and for bytes also where the encoding that they show does not account for them. Half
of a surrogate pair on its own, in the text or among the bytes, is left out of account. -/
theorem load_reports_iff (text : String) (bytes : List UInt8)
    (htext : Json.read text ≠ .error .loneSurrogate)
    (hbytes : Text.decodeDetected bytes ≠ .error .loneSurrogate) :
    (FailsOnly LoadError.Reported (load text) ↔
      (∀ doc, Json.read text = .ok doc → ¬ MeetsInfinity doc) ∧
        ∀ digits, Json.read text ≠ .error (.tooLong digits)) ∧
    (load text = .error .infiniteAddress ↔
      ∃ doc, Json.read text = .ok doc ∧ MeetsInfinity doc) ∧
    (FailsOnly LoadError.Reported (loadBytes bytes) ↔
      ∃ text, Text.decodeDetected bytes = .ok text ∧ FailsOnly LoadError.Reported (load text)) ∧
    (loadBytes bytes = .error .undecodable ↔ ∀ text, Text.decodeDetected bytes ≠ .ok text) :=
  ⟨load_failsOnly_reported_iff htext, load_eq_infinite, loadBytes_failsOnly_reported_iff hbytes,
    loadBytes_eq_undecodable hbytes⟩

/-- Whether a load ends at an infinite address. -/
def endsInfinite : Except LoadError Draft → Bool
  | .error .infiniteAddress => true
  | _ => false

theorem eq_of_endsInfinite {x : Except LoadError Draft} (h : endsInfinite x = true) :
    x = .error .infiniteAddress := by
  unfold endsInfinite at h
  split at h
  · rfl
  · cases h

/-- A document without definitions whose one symbol has a certain address. -/
def addressed (address : String) : String :=
  "\x7b\"architecture\": \"Amd64\", \"symbols\": \x7b\"_text\": " ++ address ++
    "\x7d, \"types\": \x7b\"enums\": \x7b\x7d, \"structs\": \x7b\x7d\x7d\x7d"

/-- The document meets the infinity, and the byte is no text of its encoding. -/
theorem infinite_address_met :
    Json.read (addressed "Infinity") ≠ .error .loneSurrogate ∧
      Text.decodeDetected [0xFF] ≠ .error .loneSurrogate ∧
      (∃ doc, Json.read (addressed "Infinity") = .ok doc ∧ MeetsInfinity doc) ∧
      loadBytes [0xFF] = .error .undecodable := by
  have hload : load (addressed "Infinity") = .error .infiniteAddress :=
    eq_of_endsInfinite (by decide +kernel)
  have htext : Json.read (addressed "Infinity") ≠ .error .loneSurrogate := by
    intro h
    cases (load_of_loneSurrogate h).symm.trans hload
  have hdecoded : Text.decodeDetected [0xFF] = .error .invalid := by decide +kernel
  have hbytes : Text.decodeDetected [0xFF] ≠ .error .loneSurrogate := by rw [hdecoded]; decide
  obtain ⟨-, hinfinite, -, hundecodable⟩ := load_reports_iff _ _ htext hbytes
  refine ⟨htext, hbytes, hinfinite.mp hload, hundecodable.mpr fun text h => ?_⟩
  rw [hdecoded] at h
  cases h

/-- An infinite address is not reported, whether it is written as such or is too large for a
fraction, and neither is a byte that no text starts with. -/
theorem infinite_address_unreported :
    load (addressed "Infinity") = .error .infiniteAddress ∧
      load (addressed "1e999") = .error .infiniteAddress ∧
      loadBytes [0xFF] = .error .undecodable ∧
      ¬ FailsOnly LoadError.Reported (load (addressed "Infinity")) ∧
      ¬ FailsOnly LoadError.Reported (loadBytes [0xFF]) := by
  have hword : load (addressed "Infinity") = .error .infiniteAddress :=
    eq_of_endsInfinite (by decide +kernel)
  have hlarge : load (addressed "1e999") = .error .infiniteAddress :=
    eq_of_endsInfinite (by decide +kernel)
  have hbytes : loadBytes [0xFF] = .error .undecodable := loadBytes_of_invalid (by decide +kernel)
  exact ⟨hword, hlarge, hbytes, fun h => h _ hword, fun h => h _ hbytes⟩

end Draft
end KernelProfile

import VoiceCampaign.Model.Lists

/-!
# Cursors that were handed out

What a list endpoint encodes into `next_cursor`, its own decoder reads back, and no decoder of another list takes
it.
-/

namespace VoiceCampaign

open Concurrency Formats

/-- Every character of a cursor is ASCII. -/
theorem toNat_lt_of_mem_renderCursor {fields : List (String × Scalar)} {c : Char}
    (h : c ∈ (renderCursor fields).toList) : c.toNat < 128 := by
  rw [renderCursor, String.toList_ofList] at h
  exact Base64.toNat_lt_of_mem_encode h

/-- What was rendered is read back. -/
theorem openCursor_render {fields : List (String × Scalar)} (hkeys : (fields.map Prod.fst).Nodup) :
    openCursor (renderCursor fields) = some (.obj (fields.map fun field => (field.1, field.2.json))) := by
  have hascii : (renderCursor fields).toList.all (fun c => c.toNat < 128) = true :=
    List.all_eq_true.mpr fun _ hc => decide_eq_true (toNat_lt_of_mem_renderCursor hc)
  have hbytes : (⟨(String.ofList (dumps fields)).toByteArray.data.toList.toArray⟩ : ByteArray) =
      (dumps fields).utf8Encode := by
    rw [Array.toArray_toList, String.toByteArray_ofList]
  rw [openCursor, if_pos hascii, renderCursor, String.toList_ofList, Base64.decode_encode]
  simp only [Option.bind_eq_bind, Option.bind_some]
  rw [hbytes, List.utf8Decode?_utf8Encode]
  exact loads_dumps hkeys

section

variable {ι : Type} {field other : String} {stamp : DateTime} {id : Scalar} {readId : Json → Option ι} {value : ι}

theorem decodeKey_encodeKey (hfield : field ≠ "id") (hstamp : stamp.InRange) (hid : readId id.json = some value) :
    decodeKey field readId (encodeKey field stamp id) = some (stamp, value) := by
  have hkeys : ([(field, Scalar.str (String.ofList stamp.isoformat)), ("id", id)].map Prod.fst).Nodup :=
    List.nodup_cons.mpr ⟨fun hmem => hfield (List.mem_singleton.mp hmem), List.nodup_singleton _⟩
  rw [decodeKey, encodeKey, openCursor_render hkeys]
  have hread : Json.datetime? (.str (String.ofList stamp.isoformat)) = some stamp := by
    rw [Json.datetime?, String.toList_ofList, DateTime.fromisoformat_isoformat hstamp]
  simp [Json.item?, Payload.get?, hread, hid, hfield]

/-- A field that is not there. -/
theorem decodeKey_other (hother : other ≠ "id") (hne : other ≠ field) (hfield : field ≠ "id") :
    decodeKey other readId (encodeKey field stamp id) = none := by
  have hkeys : ([(field, Scalar.str (String.ofList stamp.isoformat)), ("id", id)].map Prod.fst).Nodup :=
    List.nodup_cons.mpr ⟨fun hmem => hfield (List.mem_singleton.mp hmem), List.nodup_singleton _⟩
  rw [decodeKey, encodeKey, openCursor_render hkeys]
  simp [Json.item?, Payload.get?, Ne.symm hne, Ne.symm hother]

theorem uuid?_uuidScalar {n : Nat} (hn : n < 16 ^ 32) : Json.uuid? (uuidScalar n).json = some n := by
  rw [uuidScalar, Scalar.json_str, Json.uuid?, String.toList_ofList, readUuid_uuidText hn]

theorem int?_int (n : Nat) : Json.int? (Scalar.int n).json = some (n : Int) := by
  simp [Json.int?]

end

section

variable {stamp : DateTime}

theorem decodeCampaignCursor_encode (h : stamp.InRange) {id : CampaignId} (hid : id < 16 ^ 32) :
    decodeCampaignCursor (encodeCampaignCursor stamp id) = some (stamp, id) :=
  decodeKey_encodeKey (by decide) h (uuid?_uuidScalar hid)

theorem decodeCallCursor_encode (h : stamp.InRange) {id : CallId} (hid : id < 16 ^ 32) :
    decodeCallCursor (encodeCallCursor stamp id) = some (stamp, id) :=
  decodeKey_encodeKey (by decide) h (uuid?_uuidScalar hid)

theorem decodeCursor_encode (h : stamp.InRange) (id : Nat) :
    decodeCursor (encodeCursor stamp id) = some (stamp, (id : Int)) :=
  decodeKey_encodeKey (by decide) h (int?_int id)

end

/-- A cursor is good for the list it comes from, and for no other. -/
structure ReadBack (stamp : DateTime) : Prop where
  campaign : ∀ id < 16 ^ 32, decodeCampaignCursor (encodeCampaignCursor stamp id) = some (stamp, id)
  call : ∀ id < 16 ^ 32, decodeCallCursor (encodeCallCursor stamp id) = some (stamp, id)
  audit : ∀ id : Nat, decodeCursor (encodeCursor stamp id) = some (stamp, (id : Int))
  campaignOnly : ∀ id, decodeCallCursor (encodeCampaignCursor stamp id) = none ∧
    decodeCursor (encodeCampaignCursor stamp id) = none
  callOnly : ∀ id, decodeCampaignCursor (encodeCallCursor stamp id) = none ∧
    decodeCursor (encodeCallCursor stamp id) = none
  auditOnly : ∀ id, decodeCampaignCursor (encodeCursor stamp id) = none ∧
    decodeCallCursor (encodeCursor stamp id) = none

/-- The last microsecond of a leap day, in a zone that has an offset with seconds. -/
def leapDay : DateTime where
  date := ⟨2024, 2, 29⟩
  time := ⟨⟨23, 59, 59, 999999⟩, some (-19677000000)⟩

example : encodeCursor leapDay 7 =
    "eyJ0cyI6ICIyMDI0LTAyLTI5VDIzOjU5OjU5Ljk5OTk5OS0wNToyNzo1NyIsICJpZCI6IDd9" := by
  decide +kernel

end VoiceCampaign

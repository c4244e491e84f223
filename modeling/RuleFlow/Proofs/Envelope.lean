import RuleFlow.Envelope
import RuleFlow.Proofs.Json.Record
import RuleFlow.Proofs.Json.Written

/-!
# Envelopes over the wire

An envelope is written as an object with all its fields in order. Its strings, its bytes and its time are
values that are read as they were written (`writes_members`), so whoever decodes the bytes of an envelope with
a channel gets that envelope (`decode_encode`). The time must fit into 64 bits; that of an envelope which was
decoded does, whatever its text looked like (`timed_of_parse`). Decoding is therefore the same as decoding,
encoding and decoding again (`faithful`).
-/

namespace RuleFlow.Envelope

/-- The time of an envelope is a signed number of 64 bits. -/
def Timed (e : Envelope) : Prop := -9223372036854775808 ≤ e.created ∧ e.created < 9223372036854775808

instance (e : Envelope) : Decidable e.Timed := inferInstanceAs (Decidable (_ ∧ _))

/-- What `decoder` reads into an envelope. -/
def fields : List (Json.Decoder.Field Envelope) :=
  [.mandatory "channel" .string fun v e => { e with channel := v },
   .optional "sub_topic" .string fun v e => { e with subTopic := v },
   .optional "publisher" .string fun v e => { e with publisher := v },
   .optional "protocol" .string fun v e => { e with protocol := v },
   .optional "payload" (.list .byte) fun v e => { e with payload := v },
   .optional "created" .int64 fun v e => { e with created := v }]

theorem decoder_eq_record : decoder = .record "Envelope" {} fields := rfl

/-- What `toJson` writes of an envelope. -/
def members (e : Envelope) : Json.Members :=
  [("channel", .string e.channel), ("sub_topic", .string e.subTopic), ("publisher", .string e.publisher),
   ("protocol", .string e.protocol), ("payload", Chain.bytesToJson e.payload), ("created", .ofInt e.created)]

theorem toJson_eq_object (e : Envelope) : e.toJson = .object e.members := rfl

theorem reads_byte {fuel depth : Nat} (b : UInt8) :
    Json.Decoder.byte.Reads fuel depth (.ofNat b.toNat) b := by
  have hb : b.toNat < 256 := b.toNat_lt
  have hmax : (b.toNat : Int) ≤ Json.maxWord :=
    Int.ofNat_le.2 (Nat.le_trans (Nat.le_of_lt hb) (by decide))
  have hread : (Json.Decoder.integer "u8" 0 255).Reads fuel depth (.ofInt b.toNat) b.toNat :=
    Json.Decoder.reads_integer (by omega) (by omega) (by omega) hmax
  have hback := hread.map fun i => UInt8.ofNat i.toNat
  rwa [Int.toNat_natCast, UInt8.ofNat_toNat] at hback

theorem reads_payload {fuel depth : Nat} {bytes : List UInt8} (hbound : bytes.length < fuel) :
    (Json.Decoder.list .byte).Reads fuel (depth + 1) (Chain.bytesToJson bytes) bytes := by
  refine Json.Decoder.reads_list ?_ (by rwa [List.length_map])
  rw [List.forall₂_map_left_iff, List.forall₂_same]
  exact fun b _ => reads_byte b

/-- A time that was written is read back if it fits into 64 bits. -/
theorem reads_created {fuel depth : Nat} {e : Envelope} (he : e.Timed) :
    Json.Decoder.int64.Reads fuel depth (.ofInt e.created) e.created := by
  obtain ⟨hlow, hhigh⟩ := he
  have hmax : e.created ≤ Json.maxWord :=
    Int.le_trans (Int.le_of_lt hhigh) (Int.ofNat_le.2 (by decide : 9223372036854775808 ≤ Json.maxWord))
  exact Json.Decoder.reads_integer hlow (Int.le_sub_one_of_lt hhigh) hlow hmax

/-- The members of an envelope put it together again. -/
theorem writes_members {fuel depth : Nat} {e : Envelope} (he : e.Timed) (hbound : e.payload.length < fuel) :
    ∃ put, Json.Decoder.Writes fuel (depth + 1) fields e.members put ∧ put {} = e :=
  ⟨_, .field (Json.Decoder.reads_string e.channel) <| .field (Json.Decoder.reads_string e.subTopic) <|
    .field (Json.Decoder.reads_string e.publisher) <| .field (Json.Decoder.reads_string e.protocol) <|
    .field (reads_payload hbound) <| .field (reads_created he) .nil, rfl⟩

theorem parse_encode {e : Envelope} (he : e.Timed) : decoder.parse e.encode = .ok e := by
  have hpayload : e.payload.length ≤ e.encode.length := by
    have hmem : ("payload", Chain.bytesToJson e.payload) ∈ e.members := by simp [members]
    refine Nat.le_trans ?_ (Json.length_encode_le_of_mem hmem)
    have hitems := Json.le_length_encode_array (e.payload.map fun b => .ofNat b.toNat)
    rwa [List.length_map] at hitems
  obtain ⟨put, hwrites, hput⟩ : ∃ put, Json.Decoder.Writes (e.encode.length + 1) 126 fields e.members put ∧
    put {} = e := writes_members he (Nat.lt_succ_of_le hpayload)
  rw [encode, toJson_eq_object] at hwrites ⊢
  rw [decoder_eq_record, Json.Decoder.parse_record hwrites rfl (by decide), hput]

/-- An envelope with a channel is read as it was written. -/
theorem decode_encode {e : Envelope} (he : e.Timed) (hchannel : e.channel ≠ "") :
    decode e.encode = .ok e := by
  rw [decode, parse_encode he]
  exact if_neg hchannel

/-- An envelope without a channel is refused. -/
theorem decode_encode_of_eq {e : Envelope} (he : e.Timed) (hchannel : e.channel = "") :
    decode e.encode = .error .noChannel := by
  rw [decode, parse_encode he]
  exact if_pos hchannel

/-- Whatever field is read, the time stays in its range. -/
theorem keeps_timed : ∀ f ∈ fields, f.Keeps Timed := by
  intro f hf
  simp only [fields, List.mem_cons, List.not_mem_nil, or_false] at hf
  -- Only the last field touches the time, and what it reads is in the range.
  rcases hf with rfl | rfl | rfl | rfl | rfl | rfl
  iterate 5 exact Json.Decoder.Field.keeps_mk fun _ _ hdraft => hdraft
  refine Json.Decoder.Field.keeps_mk fun hread draft _ => ?_
  obtain ⟨hlow, hhigh⟩ := Json.Decoder.integer_range hread
  exact ⟨hlow, Int.lt_of_le_sub_one hhigh⟩

/-- A parsed envelope has a time that fits into 64 bits. -/
theorem timed_of_parse {raw : List UInt8} {e : Envelope} (h : decoder.parse raw = .ok e) : e.Timed := by
  rw [Json.Decoder.parse, Json.parseWith, mapError_eq_ok_iff] at h
  obtain ⟨⟨e', rest⟩, hread, h⟩ := bind_eq_ok_iff.1 h
  dsimp only at h
  split at h
  · obtain rfl := Except.ok.inj h
    exact Json.Decoder.record_induct keeps_timed (by decide) hread
  · cases h

theorem parse_of_decode {raw : List UInt8} {e : Envelope} (h : decode raw = .ok e) :
    decoder.parse raw = .ok e ∧ e.channel ≠ "" := by
  unfold decode at h
  split at h
  · cases h
  · split at h
    · cases h
    · obtain rfl := Except.ok.inj h
      exact ⟨‹_›, ‹_›⟩

/-- Every envelope with a channel is decoded from its bytes. An envelope that was decoded from any bytes is
decoded again from its own ones. -/
theorem faithful :
    (∀ e : Envelope, e.channel ≠ "" → e.Timed → decode e.encode = .ok e) ∧
      ∀ (raw : List UInt8) (e : Envelope), decode raw = .ok e → decode e.encode = .ok e := by
  refine ⟨fun e hchannel he => decode_encode he hchannel, fun raw e h => ?_⟩
  obtain ⟨hparse, hchannel⟩ := parse_of_decode h
  exact decode_encode (timed_of_parse hparse) hchannel

/-- An envelope with signs that must be escaped, letters of several bytes and the earliest time. -/
def awkward : Envelope where
  channel := "a\"b\\c\n\x01é😀"
  subTopic := "\x7f/\t"
  publisher := "☃"
  payload := [0, 34, 92, 255]
  created := -9223372036854775808

/-- A text with its members in another order, without some of them and with blanks. -/
def terse : String :=
  "\x7b \"created\" : 12 , \"more\" : [null, 1.5], \"channel\" : \"c\\u00e9\" \x7d "

theorem faithful_awkward :
    decode awkward.encode = .ok awkward ∧
      ∃ e, decode (Json.bytesOf terse) = .ok e ∧ e.channel = "cé" ∧ e.created = 12 ∧
        decode e.encode = .ok e := by
  obtain ⟨hwritten, hread⟩ := faithful
  have hterse : decode (Json.bytesOf terse) = .ok { channel := "cé", created := 12 } := by decide +kernel
  exact ⟨hwritten awkward (by decide) (by decide), _, hterse, rfl, rfl, hread _ _ hterse⟩

end RuleFlow.Envelope

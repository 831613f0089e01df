import OldPart.Lib.Packed
import OldPart.Opc.OPCBasicProto
import OldPart.Serializer.EncryptRoundTrip
import OldPart.Serializer.Registry

/-!
# The protos of the basic service as objects of the serializer

Each class lists its fields in `PROTO_FIELDS`, and `OProtoSerializeHelper` picks how a field is
written from its type.  An object is a value of the schema that these choices make.  The class
`CatFileResponse` is not one of these: it has an `IOStream`, and in a new object no stream to read
into.
-/

namespace OldPart

/-- A type that can be the type of a field: how its values are written, and an object read back. -/
class ProtoFields (α : Type) where
  schema : Schema
  toVal : α → schema.Val
  ofVal : schema.Val → α
  ofVal_toVal : ∀ a, ofVal (toVal a) = a

namespace ProtoFields

/-- A POD type, in the order of its bytes in memory. -/
@[reducible] def pod {α : Type} (p : Packed α) (h : 0 < p.width ∧ p.width < 2 ^ 31) :
    ProtoFields α where
  schema := .pod ⟨p.width, h⟩
  toVal a := ⟨p.pack a, p.length_pack a⟩
  ofVal v := p.unpack v.toList
  ofVal_toVal a := p.unpack_pack a

/-- A class whose list of fields is that of `β`. -/
@[reducible] def fields {α β : Type} [ProtoFields β] (f : α → β) (g : β → α)
    (h : Function.LeftInverse g f) : ProtoFields α where
  schema := .proto (schema β)
  toVal a := toVal (f a)
  ofVal v := g (ofVal (α := β) v)
  ofVal_toVal a := by rw [ofVal_toVal, h a]

instance : ProtoFields Int32 := pod Packed.int32.reversed (by decide)

instance : ProtoFields Int64 := pod Packed.int64.reversed (by decide)

instance : ProtoFields UInt64 := pod Packed.uint64.reversed (by decide)

/-- `std::string`. -/
instance : ProtoFields Str where
  schema := .string
  toVal v := v
  ofVal v := v
  ofVal_toVal _ := rfl

/-- `std::vector`. -/
instance {α : Type} [ProtoFields α] : ProtoFields (List α) where
  schema := .vector (schema α)
  toVal v := v.map toVal
  ofVal v := List.map ofVal v
  ofVal_toVal v := by
    rw [List.map_map]
    exact List.map_id'' (fun a => ofVal_toVal a) v

/-- One field before the others. -/
instance {α β : Type} [ProtoFields α] [ProtoFields β] : ProtoFields (α × β) where
  schema := .field (schema α) (schema β)
  toVal x := (toVal x.1, toVal x.2)
  ofVal v := (ofVal v.1, ofVal v.2)
  ofVal_toVal x := Prod.ext (ofVal_toVal x.1) (ofVal_toVal x.2)

/-! ## The classes -/

instance : ProtoFields FileInfo :=
  fields (fun x => (x.ftype, x.name, x.link2, x.size, x.lastModifyTime))
    (fun (ftype, name, link2, size, lastModifyTime) => ⟨ftype, name, link2, size, lastModifyTime⟩)
    fun _ => rfl

instance : ProtoFields ListFilesRequest :=
  fields (fun x => x.path) (fun path => ⟨path⟩) fun _ => rfl

instance : ProtoFields ListFilesResponse :=
  fields (fun x => (x.errCode, x.errMsg, x.files))
    (fun (errCode, errMsg, files) => ⟨⟨errCode, errMsg⟩, files⟩) fun _ => rfl

instance : ProtoFields FindFilesRequest :=
  fields (fun x => (x.path, x.pattern)) (fun (path, pattern) => ⟨path, pattern⟩) fun _ => rfl

instance : ProtoFields FindFilesResponse :=
  fields (fun x => (x.errCode, x.errMsg, x.files))
    (fun (errCode, errMsg, files) => ⟨⟨errCode, errMsg⟩, files⟩) fun _ => rfl

instance : ProtoFields CatFileRequest :=
  fields (fun x => (x.path, x.begin, x.end)) (fun (path, a, b) => ⟨path, a, b⟩) fun _ => rfl

instance : ProtoFields GrepFileRequest :=
  fields (fun x => (x.path, x.pattern, x.before, x.after))
    (fun (path, pattern, before, after) => ⟨path, pattern, before, after⟩) fun _ => rfl

instance : ProtoFields GrepMatchRange :=
  fields (fun x => (x.from, x.to)) (fun (a, b) => ⟨a, b⟩) fun _ => rfl

instance : ProtoFields GrepLineResult :=
  fields (fun x => (x.lineNo, x.subMatches)) (fun (lineNo, subMatches) => ⟨lineNo, subMatches⟩)
    fun _ => rfl

instance : ProtoFields SelectedGrepLine :=
  fields (fun x => (x.lineNo, x.matchIndex, x.line))
    (fun (lineNo, matchIndex, line) => ⟨lineNo, matchIndex, line⟩) fun _ => rfl

instance : ProtoFields GrepFileResponse :=
  fields (fun x => (x.errCode, x.errMsg, x.matches, x.selectedLines))
    (fun (errCode, errMsg, «matches», selectedLines) =>
      ⟨⟨errCode, errMsg⟩, «matches», selectedLines⟩) fun _ => rfl

instance : ProtoFields GrepFilesRequest :=
  fields (fun x => (x.path, x.findPattern, x.pattern, x.before, x.after))
    (fun (path, findPattern, pattern, before, after) =>
      ⟨path, findPattern, pattern, before, after⟩) fun _ => rfl

instance : ProtoFields GrepFilesResult :=
  fields (fun x => (x.path, x.singleMatches)) (fun (path, singleMatches) => ⟨path, singleMatches⟩)
    fun _ => rfl

instance : ProtoFields GrepFilesResponse :=
  fields (fun x => (x.errCode, x.errMsg, x.allMatches))
    (fun (errCode, errMsg, allMatches) => ⟨⟨errCode, errMsg⟩, allMatches⟩) fun _ => rfl

/-- What the classes have in a POD takes eight bytes at most. -/
example : (schema FileInfo).largestPod = 8 ∧ (schema GrepFilesResponse).largestPod = 4 := by decide

end ProtoFields

/-! ## There and back -/

/-- `MAX_MESSAGE_BODY_LENGTH`, as it is set. -/
def maxMessageBodyLength : ℕ := 1 <<< 21

section RoundTrip

variable {α : Type} [ProtoFields α] {u : Setup} {a : α}

/-- No sum leaves `int32_t` behind buffers of that length. -/
lemma writable_fields (hbody : u.env.maxBody = maxMessageBodyLength)
    (hpod : (ProtoFields.schema α).largestPod ≤ maxMessageBodyLength)
    (hfits : Schema.Fits (ProtoFields.schema α) (ProtoFields.toVal a)) :
    Writable u.env (ProtoFields.schema α) (ProtoFields.toVal a) ∧
      SumsFit u.env (ProtoFields.schema α) (ProtoFields.toVal a) := by
  have hlength : maxMessageBodyLength = 2 ^ 21 := rfl
  have hwritable : Writable u.env (ProtoFields.schema α) (ProtoFields.toVal a) :=
    ⟨hfits, by rw [hbody]; decide, by rw [hbody]; exact hpod⟩
  refine ⟨hwritable, hwritable.sumsFit (Or.inr ?_)⟩
  have hint : int32Size.val = 4 := rfl
  rw [hbody]
  omega

/-- With the `MAX_MESSAGE_BODY_LENGTH` that is set, an object of a class arrives as it was sent when
the lengths of its strings and vectors fit in `int32_t`: the messages of `Serialize`, plain and
encrypted, make `Deserialize` return `true` with an object that has the same fields. -/
theorem fields_arrive (u : Setup) (hbody : u.env.maxBody = maxMessageBodyLength)
    (fetch : ℕ → Int32) (messageId : Int32) (key : AesKey) (turns : ℕ) (a : α)
    (hpod : (ProtoFields.schema α).largestPod ≤ maxMessageBodyLength)
    (hfits : Schema.Fits (ProtoFields.schema α) (ProtoFields.toVal a)) :
    ∃ v ms ms', ProtoFields.ofVal v = a ∧
      serialize u fetch messageId (ProtoFields.toVal a) = .ok ms ∧
      deserialize u key (ProtoFields.schema α) (Schema.zero _) turns ms = .returned true v ∧
      serializeEncrypt u fetch messageId (ProtoFields.toVal a) key = .ok ms' ∧
      deserialize u key (ProtoFields.schema α) (Schema.zero _) turns ms' = .returned true v := by
  have hblock : aesBlockSize ∣ u.env.maxBody := by
    rw [hbody]
    decide
  obtain ⟨hwritable, hsums⟩ := writable_fields hbody hpod hfits
  obtain ⟨raw, hwrite, hraw⟩ := serializeObject_spec hwritable hsums
  have hfresh := Schema.fresh_zero (ProtoFields.schema α)
  have hplain := hraw.opens_plain key fetch messageId
  obtain ⟨es, hencrypt, hes⟩ := encryptBodies_spec u.crypto key hblock hraw.raw 0
  have hencrypted : List.Forall₂ (fun m t => OpensTo u key m t.bytes)
      (makeMessageFromBuf ⟨messageId, SerializeMethod.encrypt, 0⟩ fetch es) raw := by
    refine forall₂_makeMessages (fun e t he sequenceId messageSequenceId => ?_) hes fetch 0 1
    obtain ⟨ht, hencrypted⟩ := he
    exact ⟨SerializeMethod.hasFlag_encrypt.1, (hencrypted.opensFrame hblock ht.bufLen_le
      ht.length_buf ⟨messageId, SerializeMethod.encrypt, 0⟩ SerializeMethod.hasFlag_encrypt.2
      sequenceId messageSequenceId).opens⟩
  refine ⟨ProtoFields.toVal a, makeMessageFromBuf ⟨messageId, SerializeMethod.none, 0⟩ fetch raw,
    makeMessageFromBuf ⟨messageId, SerializeMethod.encrypt, 0⟩ fetch es,
    ProtoFields.ofVal_toVal a, ?_, hraw.deserialize_eq hfits hfresh (hplain.imp fun _ _ hm => hm.2),
    ?_, hraw.deserialize_eq hfits hfresh hencrypted⟩
  · rw [serialize, hwrite]
    rfl
  · rw [serializeEncrypt, hwrite, ok_bind, encryptBuf, hencrypt, ok_bind]
    rfl

/-- The answer to a search: a line with two matches in one file, and nothing in another. -/
def twoFiles : GrepFilesResponse where
  errCode := 0
  errMsg := []
  allMatches :=
    [⟨[97], { «matches» := [⟨7, [⟨0, 2⟩, ⟨5, 7⟩]⟩], selectedLines := [⟨7, 0, [98, 98]⟩] }⟩,
      ⟨[99], { errCode := -1, errMsg := [100] }⟩]

/-- It arrives. -/
theorem twoFiles_arrives : ∃ v ms ms', ProtoFields.ofVal v = twoFiles ∧
    serialize (.plain maxMessageBodyLength (by decide)) (fun i => .ofNat i) (-1029)
      (ProtoFields.toVal twoFiles) = .ok ms ∧
    deserialize (.plain maxMessageBodyLength (by decide)) zeroKey
      (ProtoFields.schema GrepFilesResponse) (Schema.zero _) 0 ms = .returned true v ∧
    serializeEncrypt (.plain maxMessageBodyLength (by decide)) (fun i => .ofNat i)
      (-1029) (ProtoFields.toVal twoFiles) zeroKey = .ok ms' ∧
    deserialize (.plain maxMessageBodyLength (by decide)) zeroKey
      (ProtoFields.schema GrepFilesResponse) (Schema.zero _) 0 ms' = .returned true v :=
  fields_arrive _ rfl _ _ _ _ _ (by decide) (by decide)

end RoundTrip

end OldPart

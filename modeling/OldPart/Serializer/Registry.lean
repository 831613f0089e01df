import OldPart.Serializer.OMessage

/-!
# The creators of protos

`OSerializer::RegisteProtoCreator` and `DoCreateProto`: which object a message is read into
is looked up under its id.
-/

namespace OldPart

/-- The object behind an `OProtoBase*`. -/
structure Proto where
  schema : Schema
  obj : schema.Val

/-- `OSerializer::ProtoCreator`.  A `std::function` may be empty, and one that is not, such
as `DUMP_CREATOR`, may return a null pointer. -/
structure ProtoCreator where
  requestCreator : Option (Option Proto)
  responseCreator : Option (Option Proto)

/-- `mProtoCreators`. -/
abbrev ProtoCreators := Int32 → Option ProtoCreator

namespace ProtoCreators

/-- No creator is registered. -/
def empty : ProtoCreators := fun _ => none

/-- `OSerializer::RegisteProtoCreator`: `insert` keeps what is already there. -/
def registe (creators : ProtoCreators) (messageId : Int32)
    (requestCreator responseCreator : Option (Option Proto)) : Bool × ProtoCreators :=
  match creators messageId with
  | some _ => (false, creators)
  | none => (true, fun id =>
      if id = messageId then some ⟨requestCreator, responseCreator⟩ else creators id)

/-- `OSerializer::DoCreateProto`. -/
def doCreate (creators : ProtoCreators) (messageId : Int32) : Option Proto :=
  match creators messageId with
  | none => none
  | some creator =>
      if messageId > 0 then creator.requestCreator.join else creator.responseCreator.join

end ProtoCreators

end OldPart

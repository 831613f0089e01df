import OldPart.Lib.Table
import OldPart.Socket.TSocket

/-!
# Requests and responses

A message is registered once, under its id, with a creator for its requests and one for its
responses.  An `OProtoResponseGuard` answers a request under the negated id, and the other end
asks `DoCreateProto` for the object under that id.
-/

namespace OldPart

/-! ## The guard -/

/-- `OProtoResponseGuard`, once `CreateResponse` has made a response. -/
structure OProtoResponseGuard where
  mRequest : OMessage
  mResponse : Proto

namespace OProtoResponseGuard

/-- The id `~OProtoResponseGuard` gives the response to a request. -/
def responseId (mRequest : OMessage) : Int32 := -mRequest.messageId

/-- `~OProtoResponseGuard`: the messages of the response. -/
def destroy (g : OProtoResponseGuard) (u : Setup) (mCompressLevel : Int8) (mEncryptKey : AesKey)
    (fetch : ℕ → Int32) : Except Fault (List OMessage) :=
  TSocket.sendProto u mCompressLevel mEncryptKey fetch (responseId g.mRequest)
    g.mRequest.requestId g.mResponse

end OProtoResponseGuard

/-! ## The registry -/

/-- A call of `RegisteProtoCreator` for a message. -/
structure Registration where
  messageId : Int32
  positive : 0 < messageId
  requestCreator : Option (Option Proto)
  responseCreator : Option (Option Proto)

namespace ProtoCreators

/-- The creators after some calls. -/
def registeAll (creators : ProtoCreators) : List Registration → ProtoCreators
  | [] => creators
  | c :: cs =>
      (creators.registe c.messageId c.requestCreator c.responseCreator).2.registeAll cs

/-- The creator that `DoCreateProto` runs, when it runs one. -/
def creatorFor (creators : ProtoCreators) (messageId : Int32) : Option (Option Proto) :=
  match creators messageId with
  | none => none
  | some creator => if messageId > 0 then creator.requestCreator else creator.responseCreator

/-- `DoCreateProto` returns what that creator does, and null when there is none. -/
lemma doCreate_eq (creators : ProtoCreators) (messageId : Int32) :
    creators.doCreate messageId = (creators.creatorFor messageId).join := by
  unfold doCreate creatorFor
  cases creators messageId with
  | none => rfl
  | some creator => exact (apply_ite Option.join _ _ _).symm

lemma registe_eq_insert (creators : ProtoCreators) (messageId : Int32)
    (requestCreator responseCreator : Option (Option Proto)) :
    creators.registe messageId requestCreator responseCreator =
      Table.insert creators messageId ⟨requestCreator, responseCreator⟩ := by
  unfold registe Table.insert
  cases creators messageId <;> rfl

lemma registeAll_eq_insertAll (creators : ProtoCreators) (cs : List Registration) :
    creators.registeAll cs = Table.insertAll creators
      (cs.map fun c => (c.messageId, ⟨c.requestCreator, c.responseCreator⟩)) := by
  induction cs generalizing creators with
  | nil => rfl
  | cons c cs ih => rw [registeAll, ih, registe_eq_insert, List.map_cons, Table.insertAll]

/-- Under an id there are the creators of its first registration. -/
lemma registeAll_empty_apply (cs : List Registration) (messageId : Int32) :
    empty.registeAll cs messageId = (cs.find? fun c => c.messageId = messageId).map
      fun c => ⟨c.requestCreator, c.responseCreator⟩ := by
  rw [registeAll_eq_insertAll]
  exact (Table.insertAll_empty_apply messageId).trans (lookup_map _ _ _ _)

end ProtoCreators

/-- The call is the first for its id. -/
def FirstFor (cs : List Registration) (c : Registration) : Prop :=
  cs.find? (fun c' => c'.messageId = c.messageId) = some c

/-- `DoCreateProto` runs, for a request, the request creator of the first registration of its
id, for a response to it the response creator, and nothing where neither id is registered. -/
structure RunsRegistered (cs : List Registration) : Prop where
  request : ∀ c, FirstFor cs c →
    (ProtoCreators.empty.registeAll cs).creatorFor c.messageId = c.requestCreator
  response : ∀ c, FirstFor cs c → ∀ mRequest : OMessage, mRequest.messageId = c.messageId →
    (ProtoCreators.empty.registeAll cs).creatorFor (OProtoResponseGuard.responseId mRequest)
      = c.responseCreator
  unregistered : ∀ messageId, (∀ c ∈ cs, c.messageId ≠ messageId ∧ c.messageId ≠ -messageId) →
    (ProtoCreators.empty.registeAll cs).doCreate messageId = none

section Registry

variable {cs : List Registration}

lemma creatorFor_of_firstFor {c : Registration} (h : FirstFor cs c) :
    (ProtoCreators.empty.registeAll cs).creatorFor c.messageId = c.requestCreator := by
  rw [ProtoCreators.creatorFor, ProtoCreators.registeAll_empty_apply, h]
  exact if_pos c.positive

lemma creatorFor_of_forall_ne {messageId : Int32} (h : ∀ c ∈ cs, c.messageId ≠ messageId) :
    (ProtoCreators.empty.registeAll cs).creatorFor messageId = none := by
  have hnone : cs.find? (fun c => c.messageId = messageId) = none :=
    List.find?_eq_none.mpr fun c hc => by simpa using h c hc
  rw [ProtoCreators.creatorFor, ProtoCreators.registeAll_empty_apply, hnone]
  rfl

/-- Nothing is registered under the id of a response. -/
lemma ne_neg_of_positive {id messageId : Int32} (hid : 0 < id) (h : 0 < messageId) :
    id ≠ -messageId := by
  rintro rfl
  have hneg := Int32.lt_iff_toInt_lt.mp hid
  have hpos := Int32.lt_iff_toInt_lt.mp h
  have hlt := messageId.toInt_lt
  rw [Int32.toInt_neg] at hneg
  rw [Int32.toInt_zero] at hneg hpos
  rw [Int.bmod_eq_of_le (by omega) (by omega)] at hneg
  omega

end Registry

/-- Registered creators are run for requests and responses alike exactly when no registration
that counts has a creator for responses: for a response, no creator is ever run. -/
theorem runsRegistered_iff_no_responseCreator (cs : List Registration) :
    RunsRegistered cs ↔ ∀ c, FirstFor cs c → c.responseCreator = none := by
  have hresponse : ∀ (c : Registration) (mRequest : OMessage), mRequest.messageId = c.messageId →
      (ProtoCreators.empty.registeAll cs).creatorFor (OProtoResponseGuard.responseId mRequest)
        = none := by
    intro c mRequest hrequest
    refine creatorFor_of_forall_ne fun c' _ => ?_
    rw [OProtoResponseGuard.responseId, hrequest]
    exact ne_neg_of_positive c'.positive c.positive
  constructor
  · intro h c hfirst
    let mRequest := makeMessage ⟨c.messageId, SerializeMethod.none, 0⟩ 1 1 ⟨⟨[], 0⟩, 0, 0, true⟩
    rw [← h.response c hfirst mRequest rfl]
    exact hresponse c mRequest rfl
  · intro h
    refine ⟨fun c => creatorFor_of_firstFor, fun c hfirst mRequest hrequest => ?_,
      fun messageId hnone => ?_⟩
    · rw [hresponse c mRequest hrequest, h c hfirst]
    · rw [ProtoCreators.doCreate_eq, creatorFor_of_forall_ne fun c hc => (hnone c hc).1]
      rfl

/-- A message whose requests and responses are both a string. -/
def stringRegistration : Registration where
  messageId := 1
  positive := by decide
  requestCreator := some (some ⟨.string, Schema.string.zero⟩)
  responseCreator := some (some ⟨.string, Schema.string.zero⟩)

/-- A response to that message has the id `-1`, under which there is no creator. -/
theorem not_runsRegistered_string :
    (ProtoCreators.empty.registeAll [stringRegistration]).doCreate (-1) = none ∧
      ¬RunsRegistered [stringRegistration] := by
  refine ⟨rfl, fun h => ?_⟩
  have hrun := h.response stringRegistration rfl
    (makeMessage ⟨1, SerializeMethod.none, 0⟩ 1 1 ⟨⟨[], 0⟩, 0, 0, true⟩) rfl
  cases hrun

end OldPart

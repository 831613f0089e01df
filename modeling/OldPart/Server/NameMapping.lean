import OldPart.Lib.Table
import Mathlib.Data.List.Induction

/-!
# The names of peers

`IConnectionManager` keeps a name for an address and a port, in one table whose key is made of
both.  `GetCompositeIP` puts the address into the upper half of a word of 64 bits and returns
the lower half.
-/

namespace OldPart

/-! ## The table -/

def getCompositeIP (ip port : Int32) : Int32 :=
  let cip := ip.toInt64
  let cip := cip <<< 32
  let cip := cip + port.toInt64
  -- the function returns an `int32_t`
  cip.toInt32

/-- `mNameMapping`. -/
abbrev NameMapping := Table UInt64 String

namespace NameMapping

def addMapping (mNameMapping : NameMapping) (ip : Int64) (port : Int32) (name : String) :
    Bool × NameMapping :=
  mNameMapping.insert (getCompositeIP ip.toInt32 port).toInt64.toUInt64 name

def findInMapping (mNameMapping : NameMapping) (ip port : Int32) : String :=
  let cip := (getCompositeIP ip port).toInt64
  match mNameMapping cip.toUInt64 with
  | none => ""
  | some name => name

end NameMapping

/-! ## The key -/

/-- Nothing of what is shifted into the upper half of a word is left in the lower half. -/
lemma lower_shiftLeft (x : BitVec 64) : (x <<< 32).signExtend 32 = 0#32 := by
  rw [BitVec.signExtend_eq_setWidth_of_le _ (by decide)]
  ext i hi
  simp

/-- What `GetCompositeIP` makes of an address and a port is the port. -/
lemma getCompositeIP_eq (ip port : Int32) : getCompositeIP ip port = port := by
  have hshift : (ip.toInt64 <<< 32).toInt32 = 0 := by
    apply Int32.toBitVec_inj.mp
    have hamount : (32 : Int64).toBitVec.smod 64 = 32#64 := by decide
    have htwo : (32#64).toNat = 32 := rfl
    rw [Int64.toBitVec_toInt32, Int64.toBitVec_shiftLeft, hamount, BitVec.shiftLeft_eq', htwo,
      lower_shiftLeft]
    rfl
  simp only [getCompositeIP, Int64.toInt32_add, hshift, Int32.zero_add, Int32.toInt32_toInt64]

/-- A port as the key of the table. -/
def portKey (port : UInt16) : UInt64 := port.toUInt32.toInt32.toInt64.toUInt64

lemma portKey_inj {port port' : UInt16} : portKey port = portKey port' ↔ port = port' := by
  refine ⟨fun h => ?_, congrArg portKey⟩
  have hback := congrArg (fun key => key.toInt64.toInt32.toUInt32) h
  simp only [portKey, Int64.toInt64_toUInt64, Int32.toInt32_toInt64, UInt32.toUInt32_toInt32]
    at hback
  exact UInt16.toUInt32_inj.mp hback

/-! ## Mappings that are added -/

/-- A call of `AddMapping`, with an address as `to_uint` gives it. -/
structure Mapping where
  ip : UInt32
  port : UInt16
  name : String

namespace NameMapping

/-- The call. -/
def add (mNameMapping : NameMapping) (c : Mapping) : Bool × NameMapping :=
  mNameMapping.addMapping c.ip.toUInt64.toInt64 c.port.toUInt32.toInt32 c.name

/-- The table after some calls. -/
def addAll (mNameMapping : NameMapping) : List Mapping → NameMapping
  | [] => mNameMapping
  | c :: cs => (mNameMapping.add c).2.addAll cs

/-- `FindInMapping` of an address as `to_uint` gives it. -/
def find (mNameMapping : NameMapping) (ip : UInt32) (port : UInt16) : String :=
  mNameMapping.findInMapping ip.toInt32 port.toUInt32.toInt32

lemma add_eq (mNameMapping : NameMapping) (c : Mapping) :
    mNameMapping.add c = mNameMapping.insert (portKey c.port) c.name := by
  rw [add, addMapping, getCompositeIP_eq, portKey]

lemma addAll_empty_apply (cs : List Mapping) (port : UInt16) :
    addAll Table.empty cs (portKey port) = (cs.find? fun c => c.port = port).map Mapping.name := by
  have hinsert : ∀ (mNameMapping : NameMapping), mNameMapping.addAll cs =
      mNameMapping.insertAll (cs.map fun c => (portKey c.port, c.name)) := by
    induction cs with
    | nil => exact fun _ => rfl
    | cons c cs ih =>
      intro mNameMapping
      rw [addAll, ih, add_eq, List.map_cons, Table.insertAll]
  rw [hinsert, Table.insertAll_empty_apply, lookup_map]
  simp only [portKey_inj]

/-- `FindInMapping` gives the name that was added first for the port. -/
lemma find_addAll (cs : List Mapping) (ip : UInt32) (port : UInt16) :
    (addAll Table.empty cs).find ip port =
      ((cs.find? fun c => c.port = port).map Mapping.name).getD "" := by
  have hkey := addAll_empty_apply cs port
  rw [portKey] at hkey
  simp only [find, findInMapping, getCompositeIP_eq, hkey]
  cases cs.find? fun c => c.port = port <;> rfl

/-- `AddMapping` returns `true` for the first mapping of a port. -/
lemma add_addAll (cs : List Mapping) (c : Mapping) :
    ((addAll Table.empty cs).add c).1 = true ↔ ∀ c' ∈ cs, c'.port ≠ c.port := by
  rw [add_eq, Table.insert_fst, addAll_empty_apply, Option.isNone_map, Option.isNone_iff_eq_none,
    List.find?_eq_none]
  simp

end NameMapping

/-! ## Addresses and ports -/

/-- The mapping of an address and a port. -/
def Mapping.IsFor (c : Mapping) (ip : UInt32) (port : UInt16) : Prop := c.ip = ip ∧ c.port = port

instance (c : Mapping) (ip : UInt32) (port : UInt16) : Decidable (c.IsFor ip port) :=
  inferInstanceAs (Decidable (_ ∧ _))

/-- After some calls of `AddMapping`, each has returned `true` exactly when there was no mapping
for its address and port yet, and `FindInMapping` gives the name that was added first for an
address and a port. -/
structure MapsPairs (cs : List Mapping) (ip : UInt32) (port : UInt16) : Prop where
  added : ∀ pre c post, cs = pre ++ c :: post →
    (((NameMapping.addAll Table.empty pre).add c).1 = true ↔ ∀ c' ∈ pre, ¬c'.IsFor c.ip c.port)
  found : (NameMapping.addAll Table.empty cs).find ip port =
    ((cs.find? fun c => c.IsFor ip port).map Mapping.name).getD ""

/-- No two of the mappings have the same port and different addresses. -/
def OneAddressEach (cs : List Mapping) : Prop :=
  ∀ c ∈ cs, ∀ c' ∈ cs, c.port = c'.port → c.ip = c'.ip

/-- If all calls return what they should, each port is added with one address. -/
lemma oneAddressEach_of_added {cs : List Mapping}
    (h : ∀ pre c post, cs = pre ++ c :: post →
      (((NameMapping.addAll Table.empty pre).add c).1 = true ↔
        ∀ c' ∈ pre, ¬c'.IsFor c.ip c.port)) : OneAddressEach cs := by
  induction cs using List.reverseRecOn with
  | nil => simp [OneAddressEach]
  | append_singleton cs c ih =>
    have hcs := ih fun pre c' post heq => h pre c' (post ++ [c]) (by rw [heq]; simp)
    -- an earlier mapping of the port of `c` makes the last call return `false`
    have hlast : ∀ c' ∈ cs, c'.port = c.port → c'.ip = c.ip := by
      intro c' hc' hport
      have hadded := h cs c [] rfl
      rw [NameMapping.add_addAll] at hadded
      by_contra hip
      have hall : ∀ c'' ∈ cs, ¬c''.IsFor c.ip c.port := by
        rintro c'' hc'' ⟨hip', hport'⟩
        exact hip ((hcs c' hc' c'' hc'' (hport.trans hport'.symm)).trans hip')
      exact hadded.mpr hall c' hc' hport
    intro a ha b hb hport
    rcases List.mem_append.mp ha with ha' | ha' <;> rcases List.mem_append.mp hb with hb' | hb'
    · exact hcs a ha' b hb' hport
    · obtain rfl := List.mem_singleton.mp hb'
      exact hlast a ha' hport
    · obtain rfl := List.mem_singleton.mp ha'
      exact (hlast b hb' hport.symm).symm
    · rw [List.mem_singleton.mp ha', List.mem_singleton.mp hb']

/-- An address whose port was added first with another one has no mapping. -/
lemma find?_isFor_of_ne {cs : List Mapping} (hone : OneAddressEach cs) {ip : UInt32} {port : UInt16}
    {c : Mapping} (hc : cs.find? (fun c => c.port = port) = some c) (hip : c.ip ≠ ip) :
    cs.find? (fun c => c.IsFor ip port) = none := by
  have hport : c.port = port := by simpa using List.find?_some hc
  refine List.find?_eq_none.mpr fun c' hc' hfor => hip ?_
  obtain ⟨hip', hport'⟩ := of_decide_eq_true hfor
  exact (hone c (List.mem_of_find?_eq_some hc) c' hc' (hport.trans hport'.symm)).trans hip'

/-- `AddMapping` and `FindInMapping` keep pairs of an address and a port apart exactly when no
port is added with two addresses, and an address that is asked for is the one its port was added
with, or the name there is empty. -/
theorem mapsPairs_iff_oneAddressEach (cs : List Mapping) (ip : UInt32) (port : UInt16) :
    MapsPairs cs ip port ↔ OneAddressEach cs ∧
      ∀ c, cs.find? (fun c => c.port = port) = some c → c.ip = ip ∨ c.name = "" := by
  constructor
  · rintro ⟨hadded, hfound⟩
    have hone := oneAddressEach_of_added hadded
    refine ⟨hone, fun c hc => or_iff_not_imp_left.mpr fun hip => ?_⟩
    rw [NameMapping.find_addAll, hc, find?_isFor_of_ne hone hc hip] at hfound
    exact hfound
  · rintro ⟨hone, hname⟩
    constructor
    · rintro pre c post rfl
      rw [NameMapping.add_addAll]
      refine forall₂_congr fun c' hc' => not_congr ⟨fun hport => ?_, fun h => h.2⟩
      exact ⟨hone c' (by simp [hc']) c (by simp) hport, hport⟩
    · rw [NameMapping.find_addAll]
      cases hc : cs.find? fun c => c.port = port with
      | none =>
        have hnone : cs.find? (fun c => c.IsFor ip port) = none := by
          refine List.find?_eq_none.mpr fun c hc' hfor => ?_
          exact List.find?_eq_none.mp hc c hc' (by simpa using (of_decide_eq_true hfor).2)
        rw [hnone]
      | some c =>
        have hport : c.port = port := by simpa using List.find?_some hc
        by_cases hip : c.ip = ip
        · rw [find?_eq_some_of_imp hc (by simpa using ⟨hip, hport⟩) fun c' hfor => by
            simpa using (of_decide_eq_true hfor).2]
        · rw [find?_isFor_of_ne hone hc hip, Option.map_some, (hname c hc).resolve_left hip]
          rfl

/-- Two peers on different hosts that use the same port: the second cannot be added, and its
commands go to the first. -/
theorem not_mapsPairs_two_hosts :
    (NameMapping.addAll Table.empty [⟨0x0a000001, 4000, "a"⟩, ⟨0x0a000002, 4000, "b"⟩]).find
        0x0a000002 4000 = "a" ∧
      ¬MapsPairs [⟨0x0a000001, 4000, "a"⟩, ⟨0x0a000002, 4000, "b"⟩] 0x0a000002 4000 := by
  have hfind : (NameMapping.addAll Table.empty
      [⟨0x0a000001, 4000, "a"⟩, ⟨0x0a000002, 4000, "b"⟩]).find 0x0a000002 4000 = "a" := by
    rw [NameMapping.find_addAll]
    rfl
  refine ⟨hfind, fun h => ?_⟩
  have hfound := h.found
  rw [hfind] at hfound
  revert hfound
  decide

end OldPart

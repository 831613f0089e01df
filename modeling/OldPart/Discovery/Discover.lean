import OldPart.Lib.Packed
import Mathlib.Data.List.TakeWhile

/-!
# What a daemon answers

The daemons of a multicast group are found by datagrams that hold a `Discover`.  `FindOrganization`
answers one with another, under a name that `strncpy` has copied twice.
-/

namespace OldPart

/-! ## Strings of C -/

/-- A string ends before the first zero. -/
def cString (bs : List UInt8) : List UInt8 := bs.takeWhile (· ≠ 0)

/-- What is in the memory `dst` after `strncpy(dst, src, n)`. -/
def strncpy (dst src : List UInt8) (n : ℕ) : List UInt8 :=
  (cString src).take n ++ List.replicate (n - (cString src).length) 0 ++ dst.drop n

section Strings

variable {dst src : List UInt8} {n : ℕ}

lemma length_strncpy (h : n ≤ dst.length) : (strncpy dst src n).length = dst.length := by
  rw [strncpy, List.length_append, List.length_append, List.length_take, List.length_replicate,
    List.length_drop]
  omega

lemma cString_append_of_forall {bs : List UInt8} (h : ∀ b ∈ bs, b ≠ 0) (bs' : List UInt8) :
    cString (bs ++ bs') = bs ++ cString bs' :=
  List.takeWhile_append_of_pos fun b hb => by simpa using h b hb

lemma ne_zero_of_mem_cString {b : UInt8} (h : b ∈ cString src) : b ≠ 0 := by
  simpa using List.mem_takeWhile_imp h

/-- A string that leaves room for the zero is copied. -/
lemma cString_strncpy_of_lt (h : (cString src).length < n) :
    cString (strncpy dst src n) = cString src := by
  obtain ⟨m, hm⟩ : ∃ m, n - (cString src).length = m + 1 := ⟨n - (cString src).length - 1, by omega⟩
  rw [strncpy, List.take_of_length_le (Nat.le_of_lt h), hm, List.append_assoc,
    cString_append_of_forall fun b => ne_zero_of_mem_cString, List.replicate_succ]
  exact List.append_nil _

/-- Of one that does not, the beginning is, and the rest of the memory is read behind it. -/
lemma cString_strncpy_of_le (h : n ≤ (cString src).length) :
    cString (strncpy dst src n) = (cString src).take n ++ cString (dst.drop n) := by
  rw [strncpy, Nat.sub_eq_zero_of_le h, List.replicate_zero, List.append_nil,
    cString_append_of_forall fun b hb => ne_zero_of_mem_cString (List.mem_of_mem_take hb)]

end Strings

/-! ## The datagram -/

structure Discover where
  magic : Int32
  ip : Int32
  port : Int32
  name : List.Vector UInt8 32

namespace Discover

/-- `Discover` in memory. -/
def layout : Packed Discover :=
  (Packed.int32.reversed.prod (Packed.int32.reversed.prod
    (Packed.int32.reversed.prod (Packed.bytes 32)))).via
      (fun x => (x.magic, x.ip, x.port, x.name))
      (fun (magic, ip, port, name) => ⟨magic, ip, port, name⟩) fun _ => rfl

/-- `sizeof(Discover)`. -/
example : layout.width = 44 := rfl

end Discover

/-! ## The handler -/

structure OrganizationIP where
  ip : Int32
  port : Int32

/-- `FindOrganization`.  The keys of `mOrganizations` are pids. -/
structure FindOrganization where
  mOrganizations : List (Int32 × OrganizationIP)
  mIP : Int32
  mName : List.Vector UInt8 32

namespace FindOrganization

/-- The constructor; `memory` is what it finds in `mName`. -/
def new (memory : List.Vector UInt8 32) (ip : Int32) (name : List UInt8) : FindOrganization where
  mOrganizations := []
  mIP := ip
  mName := ⟨strncpy memory.toList name (32 - 1 - 6), by
    rw [length_strncpy (by rw [memory.toList_length]; decide), memory.toList_length]⟩

/-- What `OnMessage` answers, in memory that holds `memory` before. -/
def response (s : FindOrganization) (memory : Discover) : Discover where
  magic := -1
  ip := s.mIP
  port := 0
  name := ⟨strncpy memory.name.toList s.mName.toList (32 - 1), by
    rw [length_strncpy (by rw [memory.name.toList_length]; decide), memory.name.toList_length]⟩

/-- `FindOrganization::OnMessage`: the answer that is sent. -/
def onMessage (s : FindOrganization) (memory discover : Discover) : Option Discover :=
  if s.mOrganizations.any fun o => o.2.ip = discover.ip && o.2.port = discover.port then none
  else some (s.response memory)

def filtOut (_ : FindOrganization) (discover : Discover) : Bool := discover.magic < 0

/-- `FindOrganization::WaitOrganizationExit`, by what `waitpid` returns. -/
def waitOrganizationExit (s : FindOrganization) (pid : Int32) : FindOrganization :=
  if pid > 0 then { s with mOrganizations := s.mOrganizations.filter fun o => o.1 ≠ pid } else s

/-- The name in an answer begins with that of the daemon, as far as there is room for it, and is
that when a zero has room behind it. -/
lemma cString_name_response (memory : List.Vector UInt8 32) (ip : Int32) {name : List UInt8}
    (hname : ∀ b ∈ name, b ≠ 0) (memory' : Discover) :
    name.take 25 <+: cString ((new memory ip name).response memory').name.toList ∧
      (name.length < 25 → cString ((new memory ip name).response memory').name.toList = name) := by
  have hstring : cString name = name := by
    have happend := cString_append_of_forall hname []
    rwa [List.append_nil, show cString [] = [] from rfl, List.append_nil] at happend
  have hcopy : ((new memory ip name).response memory').name.toList =
    strncpy memory'.name.toList (strncpy memory.toList name 25) 31 := rfl
  rw [hcopy]
  rcases Nat.lt_or_ge name.length 25 with hlt | hge
  · have hfirst : cString (strncpy memory.toList name 25) = name := by
      rw [cString_strncpy_of_lt (by rwa [hstring]), hstring]
    rw [cString_strncpy_of_lt (by rw [hfirst]; omega), hfirst]
    exact ⟨List.take_prefix 25 name, fun _ => rfl⟩
  · refine ⟨?_, fun hlt => absurd hlt (by omega)⟩
    have hfirst : cString (strncpy memory.toList name 25) =
        name.take 25 ++ cString (memory.toList.drop 25) := by
      rw [cString_strncpy_of_le (by rwa [hstring]), hstring]
    rcases Nat.lt_or_ge (cString (strncpy memory.toList name 25)).length 31 with hlt | hge'
    · rw [cString_strncpy_of_lt hlt, hfirst]
      exact List.prefix_append _ _
    · have hlen : (name.take 25).length = 25 := by rw [List.length_take]; omega
      have htake : (name.take 25).take 31 = name.take 25 := List.take_of_length_le (by omega)
      rw [cString_strncpy_of_le hge', hfirst, List.take_append, htake, List.append_assoc]
      exact List.prefix_append _ _

end FindOrganization

end OldPart

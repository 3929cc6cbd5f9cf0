import Mathlib.Tactic.Ring
import Mathlib.Data.List.Basic

/-!
# Membership configurations
-/

namespace OpenNeon
namespace Safekeeper

abbrev NodeId := Nat
abbrev SafekeeperGeneration := Nat

def INVALID_GENERATION : SafekeeperGeneration := 0

abbrev MemberSet := List NodeId

/-- The members; new members make the configuration a joint one. -/
structure Configuration where
  generation : SafekeeperGeneration
  members : MemberSet
  newMembers : Option MemberSet
  deriving DecidableEq

namespace Configuration

def empty : Configuration :=
  { generation := INVALID_GENERATION, members := [], newMembers := none }

def contains (c : Configuration) (skId : NodeId) : Bool :=
  c.members.contains skId ||
    match c.newMembers with
    | some m => m.contains skId
    | none => false

end Configuration

end Safekeeper
end OpenNeon

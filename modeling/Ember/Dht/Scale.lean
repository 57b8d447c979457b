import Mathlib

/-! The tiers of a network seen from one node. Every limit that spreads its trust tightens from one
to the next. -/
namespace Ember.Dht

inductive NetworkScale where
  | bootstrap
  | small
  | established
  deriving DecidableEq

namespace NetworkScale

def rank : NetworkScale → Nat
  | bootstrap => 0
  | small => 1
  | established => 2

theorem rank_injective : Function.Injective rank := by
  intro a b same
  cases a <;> cases b <;> first | rfl | cases same

instance : LinearOrder NetworkScale := LinearOrder.lift' rank rank_injective

def bootstrapContacts : Nat := 10
def establishedContacts : Nat := 80

def fromContacts (verified : Nat) : NetworkScale :=
  if verified < bootstrapContacts then bootstrap else if verified < establishedContacts then small else established

def maxContactsPerIp : NetworkScale → Nat
  | bootstrap => 8
  | small => 4
  | established => 2

def maxContactsPerSubnetGlobal : NetworkScale → Nat
  | bootstrap => 20
  | small => 16
  | established => 10

def maxContactsPerSubnetPerBucket : NetworkScale → Nat
  | bootstrap => 5
  | small => 4
  | established => 3

def maxSourcesPerIp : NetworkScale → Nat
  | bootstrap => 8
  | small => 5
  | established => 3

end NetworkScale

end Ember.Dht

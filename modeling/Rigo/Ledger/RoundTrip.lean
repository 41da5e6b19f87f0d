import Rigo.Ctrlers.Gov.Proposal
import Rigo.Ctrlers.Stake.Reward
import Rigo.Ctrlers.Types.Account
import Rigo.Ledger.Simulation

/-!
# Items that are read from the tree again

The finality cache of a ledger keeps the items that were read or written so far, as the objects
the program works with.  A node that starts again has an empty cache, and decodes the bytes that
`Encode` made of an item when it was committed.  `RoundTrip` says that nobody can tell: decoding
what was encoded gives every field of the item and its key, and a ledger whose cache forgets what
was only read (`FinalityLedger.uncached`) answers every sequence of calls as before.

Accounts, rewards and parameters are protobuf messages with the amounts as byte strings; stakes,
delegatees and proposals are JSON documents with hexadecimal texts, nested structs and the
options' own `MarshalJSON`.  A nil slice and an empty one are one value here.
-/

namespace Rigo

namespace FinalityLedger

variable {T : Type} [LedgerItem T]

/-- The ledger with a finality cache that holds the written items only, so that every other item
is read from the tree when it is asked for next. -/
def uncached (l : FinalityLedger T) : FinalityLedger T :=
  { l with
    finalityItems := { l.finalityItems with gotItems := l.finalityItems.updatedItems }
    finalityCoherent :=
      { updated := fun present => present
        cached := fun present missing => by
          rw [missing] at present
          cases present } }

@[simp] theorem store_uncached (l : FinalityLedger T) : l.uncached.store = l.store := rfl

/-- A tree that was just saved is loaded as it is. -/
theorem store_new_commit (l : FinalityLedger T) :
    (new l.commit.tree).store = l.commit.store := by
  have saved : l.commit.tree.lastSaved = l.commit.tree.contents := by
    simp [Tree.lastSaved, commit, committedTree]
  have loaded : l.commit.tree.load = l.commit.tree := by
    rw [Tree.load, saved]
  rw [store_new, Store.new, loaded]
  rfl

end FinalityLedger

open Simulation (Call answers)

/-- Items of a type can be encoded, decoded and used in the place of the old ones. -/
structure RoundTrip (T : Type) [LedgerItem T] : Prop where
  /-- `Decode` succeeds on what `Encode` wrote, and every field is as before. -/
  decoded : ∀ x : T, LedgerItem.decode (LedgerItem.encode x) = .ok x
  /-- The decoded item is filed under the same key. -/
  filed : ∀ x y : T, LedgerItem.decode (LedgerItem.encode x) = .ok y →
    LedgerItem.key y = LedgerItem.key x
  /-- A ledger that decodes its unwritten items again answers as one that cached them. -/
  interchangeable : ∀ (l : FinalityLedger T) (calls : List (Call T)),
    answers calls l.uncached = answers calls l
  /-- A node that starts again from the saved tree answers as one that goes on. -/
  reopened : ∀ (l : FinalityLedger T) (calls : List (Call T)),
    answers calls (FinalityLedger.new l.commit.tree) = answers calls l.commit

section Items

variable {T : Type} [LedgerItem T]

/-- Ledgers with the same store answer every sequence of calls alike. -/
theorem answers_eq_of_store {l l' : FinalityLedger T} (same : l.store = l'.store)
    (calls : List (Call T)) : answers calls l = answers calls l' :=
  (Simulation.answers_withoutSimulation calls same).trans
    (Simulation.answers_withoutSimulation calls rfl).symm

/-- A lossless codec is all that is needed. -/
theorem RoundTrip.of_item : RoundTrip T where
  decoded := LedgerItem.decode_encode
  filed x y read := by
    rw [LedgerItem.decode_encode] at read
    rw [Except.ok.inj read]
  interchangeable l calls := answers_eq_of_store l.store_uncached calls
  reopened l calls := answers_eq_of_store l.store_new_commit calls

end Items

/-- **Round trips.**  The items of all ledgers survive being stored: accounts, delegatees with
their stakes and miss marks, stakes, rewards, proposals with their voters and options, and the
governance parameters. -/
theorem stored_items_round_trip :
    RoundTrip Account ∧ RoundTrip Delegatee ∧ RoundTrip Stake ∧ RoundTrip Reward ∧
      RoundTrip GovProposal ∧ RoundTrip GovParams :=
  ⟨.of_item, .of_item, .of_item, .of_item, .of_item, .of_item⟩

end Rigo

import Rigo.Foundation.KeyedList
import Rigo.Foundation.Ranking
import Rigo.Ctrlers.Gov.Ctrler

/-!
# Counting votes

A proposal keeps three kinds of sums next to its voters: their total power, the power that is a
majority, and the votes of each option.  Votes and punishments change them in place.  `Accounted`
says that they are what the voters add up to; every sequence of votes and punishments keeps it
(`Accounted.castAll`), as long as the powers of the electorate are not negative and their sum does
not overflow when it is doubled.

The majority is rounded down, so that an option can win with less than two thirds of the votes, with
none at all, or together with another one.  `majority_sound_iff` says for which tallies this happens.
Freezing sorts the options, to which the voters refer by their index; `attributable_iff` says for
which tallies the votes can still be attributed.
-/

namespace Rigo

open Foundation
open Delegatee GovCtrler GovProposal

variable {choice power ratio : Int} {validators : Validators} {opt : VoteOption}

namespace GovProposal

/-! ## What votes and punishments do -/

section

variable {Op : Type → Type}

/-- The proposal with votes added to an option; a negative choice is none. -/
def moved (prop : GovProposal) (choice power : Int) : GovProposal :=
  if 0 ≤ choice then
    { prop with
      options := prop.options.modify choice.toNat fun opt =>
        { opt with votes := i64 (opt.votes + power) } }
  else prop

@[simp] theorem moved_voters (prop : GovProposal) (choice power : Int) :
    (prop.moved choice power).voters = prop.voters := by
  unfold moved
  split <;> rfl

@[simp] theorem moved_totalVotingPower (prop : GovProposal) (choice power : Int) :
    (prop.moved choice power).totalVotingPower = prop.totalVotingPower := by
  unfold moved
  split <;> rfl

@[simp] theorem moved_majorityPower (prop : GovProposal) (choice power : Int) :
    (prop.moved choice power).majorityPower = prop.majorityPower := by
  unfold moved
  split <;> rfl

@[simp] theorem moved_majorOption (prop : GovProposal) (choice power : Int) :
    (prop.moved choice power).majorOption = prop.majorOption := by
  unfold moved
  split <;> rfl

@[simp] theorem length_moved (prop : GovProposal) (choice power : Int) :
    (prop.moved choice power).options.length = prop.options.length := by
  unfold moved
  split
  · exact List.length_modify _ _ _
  · rfl

variable {prop : GovProposal} {voter : Voter} {choice : Int}

theorem addVotes_eq (low : 0 ≤ choice) (high : choice < prop.options.length) (power : Int) :
    (prop.addVotes choice power : Prog Op Fault GovProposal) = .pure (prop.moved choice power) := by
  unfold addVotes moved
  rw [if_pos ⟨low, high⟩, if_pos low]

theorem cancelVote_eq (high : voter.choice < prop.options.length) :
    (prop.cancelVote voter : Prog Op Fault (GovProposal × Voter)) =
      .pure (prop.moved voter.choice (-voter.power),
        if 0 ≤ voter.choice then { voter with choice := -1 } else voter) := by
  unfold cancelVote
  by_cases low : 0 ≤ voter.choice
  · rw [if_pos low, if_pos low, addVotes_eq low high]
    rfl
  · rw [if_neg low, if_neg low, moved, if_neg low]
    rfl

theorem doVote_eq (high : choice < prop.options.length) :
    (prop.doVote voter choice : Prog Op Fault (GovProposal × Voter)) =
      .pure (prop.moved choice voter.power,
        if 0 ≤ choice then { voter with choice := choice } else voter) := by
  unfold doVote
  by_cases low : 0 ≤ choice
  · rw [if_pos low, if_pos low, addVotes_eq low high]
    rfl
  · rw [if_neg low, if_neg low, moved, if_neg low]
    rfl

/-- The proposal after a vote. -/
def voted (prop : GovProposal) (voter : Voter) (choice : Int) : GovProposal :=
  ((prop.moved voter.choice (-voter.power)).moved choice voter.power).putVoter
    { voter with choice := choice }

@[simp] theorem voted_voters (prop : GovProposal) (voter : Voter) (choice : Int) :
    (prop.voted voter choice).voters =
      replaceBy Voter.addr { voter with choice := choice } prop.voters := by
  simp only [voted, putVoter, moved_voters, replaceBy]

theorem vote_eq {addr : Address} (found : prop.findVoter addr = some voter)
    (before : voter.choice < prop.options.length) (low : 0 ≤ choice)
    (high : choice < prop.options.length) :
    (prop.vote addr choice : Prog Op Fault GovProposal) = .pure (prop.voted voter choice) := by
  have high' : choice < (prop.moved voter.choice (-voter.power)).options.length := by
    rw [length_moved]
    exact high
  unfold vote voted
  simp only [found, Prog.bind_eq, Prog.pure_eq]
  rw [cancelVote_eq before, Prog.pure_bind]
  by_cases chosen : 0 ≤ voter.choice
  · simp only [if_pos chosen]
    rw [doVote_eq high', Prog.pure_bind, if_pos low]
  · simp only [if_neg chosen]
    rw [doVote_eq high', Prog.pure_bind, if_pos low]

/-- The power that is left to a voter after a punishment. -/
def remaining (voter : Voter) (ratio : Int) : Int :=
  i64 (voter.power - slashingPower voter.power ratio)

/-- The voters and the votes after a punishment. -/
def revoted (prop : GovProposal) (voter : Voter) (rest : Int) : GovProposal :=
  if rest ≤ 0 then
    { prop.moved voter.choice (-voter.power) with
      voters := removeBy Voter.addr voter.addr prop.voters }
  else
    ((prop.moved voter.choice (-voter.power)).moved voter.choice rest).putVoter
      { voter with power := rest }

/-- The proposal after a punishment. -/
def punished (prop : GovProposal) (voter : Voter) (ratio : Int) : GovProposal :=
  let total := i64 (prop.totalVotingPower - slashingPower voter.power ratio)
  { prop.revoted voter (remaining voter ratio) with
    totalVotingPower := total
    majorityPower := majorityOf total }

theorem punished_voters (prop : GovProposal) (voter : Voter) (ratio : Int) :
    (prop.punished voter ratio).voters =
      if remaining voter ratio ≤ 0 then removeBy Voter.addr voter.addr prop.voters
      else replaceBy Voter.addr { voter with power := remaining voter ratio } prop.voters := by
  unfold punished revoted
  split
  · rfl
  · simp only [putVoter, moved_voters, replaceBy]

theorem voteAgain_eq (high : choice < prop.options.length) :
    (prop.voteAgain voter choice : Prog Op Fault GovProposal) =
      .pure (if voter.power ≤ 0 then
          { prop with voters := removeBy Voter.addr voter.addr prop.voters }
        else (prop.moved choice voter.power).putVoter
          (if 0 ≤ choice then { voter with choice := choice } else voter)) := by
  unfold voteAgain
  by_cases gone : voter.power ≤ 0
  · rw [if_pos gone, if_pos gone]
    rfl
  · rw [if_neg gone, if_neg gone, doVote_eq high]
    rfl

theorem doPunish_eq {addr : Address} (found : prop.findVoter addr = some voter)
    (chosen : voter.choice < prop.options.length) (ratio : Int) :
    (prop.doPunish addr ratio : Prog Op Fault (Int × GovProposal)) =
      .pure (slashingPower voter.power ratio, prop.punished voter ratio) := by
  have high : voter.choice < (prop.moved voter.choice (-voter.power)).options.length := by
    rw [length_moved]
    exact chosen
  unfold doPunish
  simp only [found, Prog.bind_eq, Prog.pure_eq]
  rw [cancelVote_eq chosen, Prog.pure_bind]
  by_cases low : 0 ≤ voter.choice
  · by_cases gone : i64 (voter.power - slashingPower voter.power ratio) ≤ 0
    · simp only [if_pos low, voteAgain_eq high, if_pos gone, Prog.pure_bind, punished, revoted,
        remaining, moved_voters, moved_totalVotingPower]
    · simp only [if_pos low, voteAgain_eq high, if_neg gone, Prog.pure_bind, punished, revoted,
        remaining, putVoter, moved_totalVotingPower]
  · by_cases gone : i64 (voter.power - slashingPower voter.power ratio) ≤ 0
    · simp only [if_neg low, voteAgain_eq high, if_pos gone, Prog.pure_bind, punished, revoted,
        remaining, moved_voters, moved_totalVotingPower]
    · simp only [if_neg low, voteAgain_eq high, if_neg gone, Prog.pure_bind, punished, revoted,
        remaining, putVoter, moved_totalVotingPower]

end

/-! ## Accounts -/

/-- The power of all voters. -/
def powerOfAll (voters : List Voter) : Int := (voters.map Voter.power).sum

/-- The power of the voters with a choice. -/
def votesFor (voters : List Voter) (choice : Int) : Int :=
  ((voters.filter fun voter => voter.choice = choice).map Voter.power).sum

/-- What a voter contributes to a choice. -/
def contribution (choice : Int) (voter : Voter) : Int :=
  if voter.choice = choice then voter.power else 0

theorem votesFor_eq (voters : List Voter) (choice : Int) :
    votesFor voters choice = (voters.map (contribution choice)).sum := by
  unfold votesFor
  induction voters with
  | nil => rfl
  | cons voter rest ih =>
    by_cases chosen : voter.choice = choice
    · rw [List.filter_cons_of_pos (by simpa using chosen), List.map_cons, List.sum_cons, ih,
        List.map_cons, List.sum_cons, contribution, if_pos chosen]
    · rw [List.filter_cons_of_neg (by simpa using chosen), ih, List.map_cons, List.sum_cons,
        contribution, if_neg chosen, zero_add]

/-- The sums of a proposal are what its voters add up to. -/
structure Accounted (prop : GovProposal) : Prop where
  distinct : (prop.voters.map Voter.addr).Nodup
  nonneg : ∀ voter ∈ prop.voters, 0 ≤ voter.power
  chosen : ∀ voter ∈ prop.voters, voter.choice < prop.options.length
  total : prop.totalVotingPower = powerOfAll prop.voters
  small : prop.totalVotingPower < 2 ^ 62
  majority : prop.majorityPower = 2 * prop.totalVotingPower / 3
  votes : ∀ (i : Nat) (opt : VoteOption), prop.options[i]? = some opt →
    opt.votes = votesFor prop.voters i
  undecided : prop.majorOption = none

section

variable {voters : List Voter} (nonneg : ∀ voter ∈ voters, 0 ≤ voter.power)

include nonneg

theorem contribution_nonneg (choice : Int) : ∀ voter ∈ voters, 0 ≤ contribution choice voter := by
  intro voter member
  unfold contribution
  split
  · exact nonneg voter member
  · exact le_rfl

theorem votesFor_nonneg (choice : Int) : 0 ≤ votesFor voters choice := by
  rw [votesFor_eq]
  refine List.sum_nonneg fun x member => ?_
  obtain ⟨voter, member', rfl⟩ := List.mem_map.mp member
  exact contribution_nonneg nonneg choice voter member'

theorem votesFor_le (choice : Int) : votesFor voters choice ≤ powerOfAll voters := by
  rw [votesFor_eq]
  refine List.sum_le_sum fun voter member => ?_
  unfold contribution
  split
  · exact le_rfl
  · exact nonneg voter member

theorem power_le_votesFor {voter : Voter} (member : voter ∈ voters) :
    voter.power ≤ votesFor voters voter.choice := by
  rw [votesFor_eq]
  refine le_trans ?_ (List.single_le_sum ?_ (contribution voter.choice voter)
    (List.mem_map_of_mem member))
  · rw [contribution, if_pos rfl]
  · intro x present
    obtain ⟨voter', member', rfl⟩ := List.mem_map.mp present
    exact contribution_nonneg nonneg _ voter' member'

theorem power_le_powerOfAll {voter : Voter} (member : voter ∈ voters) :
    voter.power ≤ powerOfAll voters :=
  (power_le_votesFor nonneg member).trans (votesFor_le nonneg _)

omit nonneg in
/-- A voter contributes to at most one option. -/
theorem sum_contribution (voter : Voter) (n : Nat) :
    ((List.range n).map fun i : Nat => contribution i voter).sum =
      if 0 ≤ voter.choice ∧ voter.choice < n then voter.power else 0 := by
  induction n with
  | zero =>
    rw [if_neg (by omega)]
    rfl
  | succ n ih =>
    rw [List.range_succ, List.map_append, List.sum_append, ih, List.map_singleton,
      List.sum_singleton, contribution]
    split_ifs <;> omega

/-- The votes of different options are those of different voters. -/
theorem sum_votesFor_le (n : Nat) :
    ((List.range n).map fun i : Nat => votesFor voters i).sum ≤ powerOfAll voters := by
  simp only [votesFor_eq, powerOfAll]
  induction voters with
  | nil => simp
  | cons voter rest ih =>
    have one : ((List.range n).map fun i : Nat => contribution i voter).sum ≤ voter.power := by
      have positive := nonneg voter List.mem_cons_self
      rw [sum_contribution]
      split
      · exact le_rfl
      · exact positive
    simp only [List.map_cons, List.sum_cons, List.sum_map_add]
    exact add_le_add one (ih fun voter' member => nonneg voter' (List.mem_cons_of_mem _ member))

end

section

variable {prop : GovProposal} {voter : Voter}

/-- The votes of all options are at most the power of the voters. -/
theorem Accounted.sum_votes_le (accounted : prop.Accounted) :
    (prop.options.map VoteOption.votes).sum ≤ prop.totalVotingPower := by
  have same : prop.options.map VoteOption.votes =
      (List.range prop.options.length).map fun i : Nat => votesFor prop.voters i := by
    refine List.ext_getElem (by simp) fun i inside _ => ?_
    rw [List.length_map] at inside
    rw [List.getElem_map, List.getElem_map, List.getElem_range]
    exact accounted.votes i _ (List.getElem?_eq_getElem inside)
  rw [same, accounted.total]
  exact sum_votesFor_le accounted.nonneg _

/-- The votes of the options are given by a function of their index. -/
def Counts (prop : GovProposal) (tally : Nat → Int) : Prop :=
  ∀ (i : Nat) (opt : VoteOption), prop.options[i]? = some opt → opt.votes = tally i

theorem Counts.moved {tally : Nat → Int} (counts : prop.Counts tally) (choice power : Int) :
    (prop.moved choice power).Counts
      fun i => if (i : Int) = choice then i64 (tally i + power) else tally i := by
  intro i opt found
  unfold GovProposal.moved at found
  split at found
  · next low =>
    rw [List.getElem?_modify] at found
    obtain ⟨old, found', rfl⟩ := Option.map_eq_some_iff.mp found
    have before := counts i old found'
    by_cases here : (i : Int) = choice
    · simp only [if_pos (by omega : choice.toNat = i), if_pos here, before]
    · simp only [if_neg (by omega : ¬ choice.toNat = i), if_neg here, before]
  · next negative =>
    rw [counts i opt found]
    exact (if_neg (by omega)).symm

theorem Counts.congr {tally tally' : Nat → Int} (counts : prop.Counts tally)
    (same : ∀ i, tally i = tally' i) : prop.Counts tally' :=
  fun i opt found => (counts i opt found).trans (same i)

/-- What a changed voter does to the votes. -/
theorem votesFor_replaceBy {voters : List Voter} (distinct : (voters.map Voter.addr).Nodup)
    (member : voter ∈ voters) {new : Voter} (same : new.addr = voter.addr) (choice : Int) :
    votesFor (replaceBy Voter.addr new voters) choice =
      votesFor voters choice - contribution choice voter + contribution choice new := by
  rw [votesFor_eq, votesFor_eq]
  exact sum_replaceBy _ distinct member same

theorem votesFor_removeBy {voters : List Voter} (distinct : (voters.map Voter.addr).Nodup)
    (member : voter ∈ voters) (choice : Int) :
    votesFor (removeBy Voter.addr voter.addr voters) choice =
      votesFor voters choice - contribution choice voter := by
  rw [votesFor_eq, votesFor_eq]
  exact sum_removeBy _ distinct member

/-- Taking back the votes of a voter. -/
theorem Accounted.cancelled (accounted : prop.Accounted) (member : voter ∈ prop.voters) :
    (prop.moved voter.choice (-voter.power)).Counts
      fun i => votesFor prop.voters i - contribution i voter := by
  refine Counts.congr (Counts.moved accounted.votes voter.choice (-voter.power)) fun i => ?_
  have small := accounted.small
  rw [accounted.total] at small
  have least := power_le_votesFor accounted.nonneg member
  have most := votesFor_le accounted.nonneg i
  have positive := accounted.nonneg voter member
  unfold contribution
  by_cases here : (i : Int) = voter.choice
  · rw [← here] at least
    rw [if_pos here, if_pos here.symm, i64_of_range (by omega) (by omega)]
    omega
  · rw [if_neg here, if_neg (Ne.symm here), sub_zero]

/-- Giving them to an option, with a power that is not larger. -/
theorem Accounted.counted (accounted : prop.Accounted) (member : voter ∈ prop.voters)
    (low : 0 ≤ power) (high : power ≤ voter.power) :
    ((prop.moved voter.choice (-voter.power)).moved choice power).Counts fun i =>
      votesFor (replaceBy Voter.addr ⟨voter.addr, power, choice⟩ prop.voters) i := by
  refine Counts.congr (Counts.moved (accounted.cancelled member) choice power) fun i => ?_
  have small := accounted.small
  rw [accounted.total] at small
  have least := votesFor_nonneg accounted.nonneg i
  have most := votesFor_le accounted.nonneg i
  have whole := power_le_powerOfAll accounted.nonneg member
  rw [votesFor_replaceBy accounted.distinct member
    (rfl : (⟨voter.addr, power, choice⟩ : Voter).addr = voter.addr)]
  by_cases here : (i : Int) = choice
  · have own := power_le_votesFor accounted.nonneg member
    rw [if_pos here]
    simp only [contribution, if_pos here.symm]
    by_cases chosen : voter.choice = i
    · rw [chosen] at own
      rw [if_pos chosen, i64_of_range (by omega) (by omega)]
    · rw [if_neg chosen, i64_of_range (by omega) (by omega)]
  · rw [if_neg here]
    simp only [contribution, if_neg (Ne.symm here), add_zero]

/-- A voter changes, and its votes with it. -/
theorem Accounted.replaced {prop' : GovProposal} (accounted : prop.Accounted)
    (member : voter ∈ prop.voters) (low : 0 ≤ power)
    (high : power ≤ voter.power) (inside : choice < prop.options.length)
    (voters : prop'.voters = replaceBy Voter.addr ⟨voter.addr, power, choice⟩ prop.voters)
    (options : prop'.options =
      ((prop.moved voter.choice (-voter.power)).moved choice power).options)
    (total : prop'.totalVotingPower = prop.totalVotingPower - voter.power + power)
    (majority : prop'.majorityPower = 2 * prop'.totalVotingPower / 3)
    (major : prop'.majorOption = prop.majorOption) : prop'.Accounted := by
  have same : (⟨voter.addr, power, choice⟩ : Voter).addr = voter.addr := rfl
  have small := accounted.small
  refine ⟨?_, ?_, ?_, ?_, ?_, majority, ?_, major.trans accounted.undecided⟩
  · rw [voters, map_key_replaceBy]
    exact accounted.distinct
  · intro voter' member'
    rcases mem_replaceBy (voters ▸ member') with rfl | old
    · exact low
    · exact accounted.nonneg voter' old
  · intro voter' member'
    rw [options, length_moved, length_moved]
    rcases mem_replaceBy (voters ▸ member') with rfl | old
    · exact inside
    · exact accounted.chosen voter' old
  · rw [total, voters, accounted.total, powerOfAll, powerOfAll,
      sum_replaceBy _ accounted.distinct member same]
  · omega
  · rw [voters, options]
    exact accounted.counted member low high

/-- A vote for one of the options. -/
theorem Accounted.voted (accounted : prop.Accounted) (member : voter ∈ prop.voters)
    (high : choice < prop.options.length) : (prop.voted voter choice).Accounted := by
  refine accounted.replaced member (accounted.nonneg voter member) le_rfl high
    (voted_voters prop voter choice) rfl ?_ ?_ ?_
  · simp only [GovProposal.voted, putVoter, moved_totalVotingPower, sub_add_cancel]
  · simp only [GovProposal.voted, putVoter, moved_totalVotingPower, moved_majorityPower]
    exact accounted.majority
  · simp only [GovProposal.voted, putVoter, moved_majorOption]

/-- The power that a punishment takes is the ratio of the power, rounded down. -/
theorem slashingPower_eq (low : 0 ≤ power) (high : power < 2 ^ 63)
    (least : 0 ≤ ratio) (most : ratio ≤ 100) : slashingPower power ratio = power * ratio / 100 := by
  obtain ⟨p, rfl⟩ := Int.eq_ofNat_of_zero_le low
  obtain ⟨r, rfl⟩ := Int.eq_ofNat_of_zero_le least
  have bound : p * r ≤ p * 100 := Nat.mul_le_mul_left p (by omega)
  have hundred : (100 : Uint256).toNat = 100 := rfl
  unfold slashingPower Uint256.int64 Uint256.uint64
  rw [uint64OfInt_of_nonneg low (by omega), uint64OfInt_of_nonneg least (by omega),
    BitVec.toNat_udiv, BitVec.toNat_mul]
  simp only [Uint256.newInt, BitVec.toNat_ofNat, Int.toNat_natCast]
  rw [Nat.mod_eq_of_lt (by omega : p < 2 ^ 256), Nat.mod_eq_of_lt (by omega : r < 2 ^ 256),
    Nat.mod_eq_of_lt (by omega : p * r < 2 ^ 256), hundred,
    Nat.mod_eq_of_lt (by omega : p * r / 100 < 2 ^ 64), i64_of_range (by omega) (by omega)]
  push_cast
  rfl

/-- What is left of a voter's power after a punishment. -/
theorem remaining_eq (low : 0 ≤ voter.power) (high : voter.power < 2 ^ 63)
    (least : 0 ≤ ratio) (most : ratio ≤ 100) :
    remaining voter ratio = voter.power - slashingPower voter.power ratio ∧
      0 ≤ remaining voter ratio ∧ remaining voter ratio ≤ voter.power := by
  have product : voter.power * ratio ≤ voter.power * 100 := by gcongr
  have product' : 0 ≤ voter.power * ratio := mul_nonneg low least
  unfold remaining
  rw [slashingPower_eq low high least most, i64_of_range (by omega) (by omega)]
  omega

theorem majorityOf_eq {total : Int} (low : 0 ≤ total) (high : total < 2 ^ 62) :
    majorityOf total = 2 * total / 3 := by
  unfold majorityOf
  rw [i64_of_range (by omega) (by omega), mul_comm, Int.tdiv_eq_ediv_of_nonneg (by omega)]

/-- A punishment, by at most the whole power. -/
theorem Accounted.punished (accounted : prop.Accounted) (member : voter ∈ prop.voters)
    (least : 0 ≤ ratio) (most : ratio ≤ 100) : (prop.punished voter ratio).Accounted := by
  have positive := accounted.nonneg voter member
  have whole := power_le_powerOfAll accounted.nonneg member
  have small := accounted.small
  obtain ⟨left, left_nonneg, left_le⟩ := remaining_eq positive
    (by rw [accounted.total] at small; omega) least most
  have total : (prop.punished voter ratio).totalVotingPower =
      prop.totalVotingPower - voter.power + remaining voter ratio := by
    rw [accounted.total] at small ⊢
    simp only [GovProposal.punished, accounted.total]
    rw [i64_of_range (by omega) (by omega)]
    omega
  have majority : (prop.punished voter ratio).majorityPower =
      2 * (prop.punished voter ratio).totalVotingPower / 3 := by
    refine majorityOf_eq ?_ ?_
    · change 0 ≤ (prop.punished voter ratio).totalVotingPower
      rw [total, accounted.total]
      omega
    · change (prop.punished voter ratio).totalVotingPower < 2 ^ 62
      omega
  by_cases gone : remaining voter ratio ≤ 0
  · -- the voter is removed
    have voters : (prop.punished voter ratio).voters =
        removeBy Voter.addr voter.addr prop.voters := by
      rw [punished_voters, if_pos gone]
    have options : (prop.punished voter ratio).options =
        (prop.moved voter.choice (-voter.power)).options := by
      simp only [GovProposal.punished, revoted, if_pos gone]
    have kept : ∀ voter' ∈ (prop.punished voter ratio).voters, voter' ∈ prop.voters := by
      intro voter' member'
      rw [voters] at member'
      exact (List.mem_filter.mp member').1
    refine ⟨?_, ?_, ?_, ?_, ?_, majority, ?_, ?_⟩
    · rw [voters]
      exact accounted.distinct.sublist (List.filter_sublist.map _)
    · exact fun voter' member' => accounted.nonneg voter' (kept voter' member')
    · intro voter' member'
      rw [options, length_moved]
      exact accounted.chosen voter' (kept voter' member')
    · rw [total, voters, accounted.total, powerOfAll, powerOfAll,
        sum_removeBy _ accounted.distinct member]
      omega
    · omega
    · rw [voters, options]
      exact (accounted.cancelled member).congr fun i =>
        (votesFor_removeBy accounted.distinct member i).symm
    · simp only [GovProposal.punished, revoted, if_pos gone, moved_majorOption]
      exact accounted.undecided
  · -- the voter goes on with the power that is left
    refine accounted.replaced member left_nonneg left_le (accounted.chosen voter member) ?_ ?_
      total majority ?_
    · rw [punished_voters, if_neg gone]
    · simp only [GovProposal.punished, revoted, if_neg gone, putVoter]
    · simp only [GovProposal.punished, revoted, if_neg gone, putVoter, moved_majorOption]

end

/-! ## Sequences of votes and punishments -/

/-- A call on a proposal. -/
inductive Ballot where
  | vote (addr : Address) (choice : Int)
  | punish (addr : Address) (ratio : Int)
  deriving DecidableEq

/-- The choice is one of `n` options, and a ratio is one. -/
def Ballot.Fits (n : Nat) : Ballot → Prop
  | vote _ choice => 0 ≤ choice ∧ choice < n
  | punish _ ratio => 0 ≤ ratio ∧ ratio ≤ 100

instance (n : Nat) (ballot : Ballot) : Decidable (ballot.Fits n) :=
  match ballot with
  | .vote _ _ => inferInstanceAs (Decidable (_ ∧ _))
  | .punish _ _ => inferInstanceAs (Decidable (_ ∧ _))

/-- The proposal after a call; a call that returns an error leaves it as it is. -/
def after (prop : GovProposal) : Prog LedgerOp Fault GovProposal → Except Panic GovProposal
  | .pure prop' => .ok prop'
  | .fail (.xerr _) => .ok prop
  | .fail (.panic p) => .error p
  | .call _ _ => .ok prop

/-- `DoVote` and `DoPunish`. -/
def cast (prop : GovProposal) : Ballot → Except Panic GovProposal
  | .vote addr choice => prop.after (prop.vote addr choice)
  | .punish addr ratio => prop.after ((prop.doPunish addr ratio).bind fun punished =>
    .pure punished.2)

/-- One call after the other. -/
def castAll (prop : GovProposal) : List Ballot → Except Panic GovProposal
  | [] => .ok prop
  | ballot :: rest => do (← prop.cast ballot).castAll rest

/-- The proposal that `execProposing` stores. -/
def proposed (txHash : HexBytes) (payload : TrxPayloadProposal) (validators : Validators) :
    GovProposal :=
  newGovProposal txHash payload.optType payload.startVotingHeight payload.votingPeriodBlocks
    (GovCtrler.votersOf validators).2 payload.applyingHeight (GovCtrler.votersOf validators).1
    payload.options

theorem execProposing_eq {ctx : TrxContext} {payload : TrxPayloadProposal}
    (proposes : ctx.tx.payload = .proposal payload) :
    execProposing ctx =
      LedgerProg.set .proposals (proposed ctx.txHash payload ctx.validators) := by
  unfold execProposing
  rw [proposes]
  rfl

/-- Validators with different addresses, whose powers are not negative and add up to less than
`2 ^ 62`. -/
structure Electorate (validators : Validators) : Prop where
  distinct : (validators.map Delegatee.addr).Nodup
  nonneg : ∀ d ∈ validators, 0 ≤ d.totalPower
  small : (validators.map Delegatee.totalPower).sum < 2 ^ 62

theorem votersOf_total (electorate : Electorate validators) :
    (votersOf validators).2 = (validators.map totalPower).sum := by
  have loop (rest : Validators) (sum : Int) (low : 0 ≤ sum) (nonneg : ∀ d ∈ rest, 0 ≤ d.totalPower)
      (small : sum + (rest.map totalPower).sum < 2 ^ 62) :
      rest.foldl (fun total v => i64 (total + v.totalPower)) sum =
        sum + (rest.map totalPower).sum := by
    induction rest generalizing sum with
    | nil => simp
    | cons d rest ih =>
      have first := nonneg d List.mem_cons_self
      have others : 0 ≤ (rest.map totalPower).sum := by
        refine List.sum_nonneg fun x member => ?_
        obtain ⟨d', member', rfl⟩ := List.mem_map.mp member
        exact nonneg d' (List.mem_cons_of_mem _ member')
      rw [List.map_cons, List.sum_cons] at small ⊢
      rw [List.foldl_cons, i64_of_range (by omega) (by omega),
        ih _ (by omega) (fun d' member => nonneg d' (List.mem_cons_of_mem _ member)) (by omega)]
      ring
  refine (loop validators 0 le_rfl electorate.nonneg ?_).trans (zero_add _)
  rw [zero_add]
  exact electorate.small

/-- A new proposal has no votes. -/
theorem accounted_proposed (electorate : Electorate validators)
    (txHash : HexBytes) (payload : TrxPayloadProposal) :
    (proposed txHash payload validators).Accounted := by
  have powers : powerOfAll (proposed txHash payload validators).voters =
      (validators.map totalPower).sum := by
    simp only [proposed, newGovProposal, votersOf, powerOfAll, List.map_map]
    rfl
  have total : (proposed txHash payload validators).totalVotingPower =
      (validators.map totalPower).sum := votersOf_total electorate
  refine ⟨?_, ?_, ?_, total.trans powers.symm, ?_, ?_, ?_, rfl⟩
  · simp only [proposed, newGovProposal, votersOf, List.map_map]
    exact electorate.distinct
  · intro voter member
    obtain ⟨d, member', rfl⟩ := List.mem_map.mp member
    exact electorate.nonneg d member'
  · intro voter member
    obtain ⟨d, member', rfl⟩ := List.mem_map.mp member
    exact lt_of_lt_of_le (by decide : notChoice < 0) (Int.natCast_nonneg _)
  · rw [total]
    exact electorate.small
  · refine majorityOf_eq ?_ ?_
    · rw [votersOf_total electorate]
      refine List.sum_nonneg fun x member => ?_
      obtain ⟨d, member', rfl⟩ := List.mem_map.mp member
      exact electorate.nonneg d member'
    · rw [votersOf_total electorate]
      exact electorate.small
  · intro i opt found
    simp only [proposed, newGovProposal, List.getElem?_map] at found
    obtain ⟨option, -, rfl⟩ := Option.map_eq_some_iff.mp found
    have none_chosen : (proposed txHash payload validators).voters.filter
        (fun voter => voter.choice = (i : Int)) = [] := by
      refine List.filter_eq_nil_iff.mpr fun voter member => ?_
      obtain ⟨d, member', rfl⟩ := List.mem_map.mp member
      have unchosen : notChoice ≠ (i : Int) := by
        unfold notChoice
        omega
      exact fun chosen => unchosen (of_decide_eq_true chosen)
    unfold votesFor
    rw [none_chosen]
    rfl

section

variable {prop : GovProposal}

/-- A call changes nothing, or the voter it names, or removes it. -/
theorem Accounted.cast (accounted : prop.Accounted) {ballot : Ballot}
    (fits : ballot.Fits prop.options.length) :
    ∃ prop', prop.cast ballot = .ok prop' ∧ prop'.Accounted ∧
      prop'.options.length = prop.options.length ∧
      ((∀ voter ∈ prop.voters, 0 < voter.power) → ∀ voter ∈ prop'.voters, 0 < voter.power) := by
  cases ballot with
  | vote addr choice =>
    cases found : prop.findVoter addr with
    | none =>
      refine ⟨prop, ?_, accounted, rfl, id⟩
      simp only [GovProposal.cast, vote, found]
      rfl
    | some voter =>
      have member := List.mem_of_find?_eq_some found
      have voted : (prop.vote addr choice : Prog LedgerOp Fault GovProposal) =
          .pure (prop.voted voter choice) :=
        vote_eq found (accounted.chosen voter member) fits.1 fits.2
      refine ⟨prop.voted voter choice, ?_, accounted.voted member fits.2, ?_, ?_⟩
      · rw [GovProposal.cast, voted]
        rfl
      · simp only [GovProposal.voted, putVoter, length_moved]
      · intro positive voter' member'
        rw [voted_voters] at member'
        rcases mem_replaceBy member' with rfl | old
        · exact positive voter member
        · exact positive voter' old
  | punish addr ratio =>
    cases found : prop.findVoter addr with
    | none =>
      refine ⟨prop, ?_, accounted, rfl, id⟩
      simp only [GovProposal.cast, doPunish, found]
      rfl
    | some voter =>
      have member := List.mem_of_find?_eq_some found
      have punished : (prop.doPunish addr ratio : Prog LedgerOp Fault (Int × GovProposal)) =
          .pure (_, prop.punished voter ratio) :=
        doPunish_eq found (accounted.chosen voter member) ratio
      refine ⟨prop.punished voter ratio, ?_, accounted.punished member fits.1 fits.2, ?_, ?_⟩
      · rw [GovProposal.cast, punished]
        rfl
      · simp only [GovProposal.punished, revoted]
        split <;> simp only [putVoter, length_moved]
      · intro positive voter' member'
        rw [punished_voters] at member'
        split at member'
        · exact positive voter' (List.mem_filter.mp member').1
        · next left =>
          rcases mem_replaceBy member' with rfl | old
          · exact not_le.mp left
          · exact positive voter' old

/-- Every sequence of votes and punishments keeps the accounts. -/
theorem Accounted.castAll (accounted : prop.Accounted) (ballots : List Ballot)
    (fits : ∀ ballot ∈ ballots, ballot.Fits prop.options.length) :
    ∃ prop', prop.castAll ballots = .ok prop' ∧ prop'.Accounted ∧
      prop'.options.length = prop.options.length ∧
      ((∀ voter ∈ prop.voters, 0 < voter.power) → ∀ voter ∈ prop'.voters, 0 < voter.power) := by
  induction ballots generalizing prop with
  | nil => exact ⟨prop, rfl, accounted, rfl, id⟩
  | cons ballot rest ih =>
    obtain ⟨prop₁, first, accounted₁, length₁, positive₁⟩ :=
      accounted.cast (fits ballot List.mem_cons_self)
    obtain ⟨prop₂, others, accounted₂, length₂, positive₂⟩ := ih accounted₁ fun ballot' member =>
      length₁ ▸ fits ballot' (List.mem_cons_of_mem _ member)
    refine ⟨prop₂, ?_, accounted₂, length₂.trans length₁, positive₂ ∘ positive₁⟩
    rw [castAll, first]
    exact others

/-- Validators with the given powers. -/
def validatorsOf (powers : List Int) : Validators :=
  powers.zipIdx.map fun (power, i) =>
    { Delegatee.newDelegatee [UInt8.ofNat i] [] with totalPower := power }

/-- A proposal of some options. -/
def proposing (options : List HexBytes) : TrxPayloadProposal where
  message := []
  startVotingHeight := 10
  votingPeriodBlocks := 10
  applyingHeight := 30
  optType := 0
  options := options

instance (validators : Validators) : Decidable (Electorate validators) :=
  decidable_of_iff ((validators.map Delegatee.addr).Nodup ∧ (∀ d ∈ validators, 0 ≤ d.totalPower) ∧
      (validators.map Delegatee.totalPower).sum < 2 ^ 62)
    ⟨fun ⟨distinct, nonneg, small⟩ => ⟨distinct, nonneg, small⟩,
      fun ⟨distinct, nonneg, small⟩ => ⟨distinct, nonneg, small⟩⟩

/-- Votes and punishments of a proposal made by an electorate are accounted for: they do not panic,
and the sums of the proposal are what its voters add up to. -/
theorem vote_accounting {validators : Validators} (electorate : Electorate validators)
    (txHash : HexBytes) (payload : TrxPayloadProposal) {ballots : List Ballot}
    (fits : ∀ ballot ∈ ballots, ballot.Fits payload.options.length) :
    ∃ prop, (proposed txHash payload validators).castAll ballots = .ok prop ∧
      prop.totalVotingPower = (prop.voters.map Voter.power).sum ∧
      prop.majorityPower = 2 * prop.totalVotingPower / 3 ∧
      ((∀ d ∈ validators, 0 < d.totalPower) → ∀ voter ∈ prop.voters, 0 < voter.power) ∧
      (∀ (i : Nat) (opt : VoteOption), prop.options[i]? = some opt → opt.votes =
        ((prop.voters.filter fun voter => voter.choice = (i : Int)).map Voter.power).sum) ∧
      (prop.options.map VoteOption.votes).sum ≤ prop.totalVotingPower := by
  have length : (proposed txHash payload validators).options.length = payload.options.length := by
    simp only [proposed, newGovProposal, List.length_map]
  obtain ⟨prop, cast, accounted, -, positive⟩ :=
    (accounted_proposed electorate txHash payload).castAll ballots fun ballot member =>
      length ▸ fits ballot member
  refine ⟨prop, cast, accounted.total, accounted.majority, fun initially => positive ?_,
    accounted.votes, accounted.sum_votes_le⟩
  intro voter member
  obtain ⟨d, member', rfl⟩ := List.mem_map.mp member
  exact initially d member'

/-- A voter changes its vote, another is punished, and a third loses all of its power. -/
theorem vote_accounting_punished :
    ∃ prop, (proposed [] (proposing [[1], [2]]) (validatorsOf [10, 20, 30])).castAll
        [.vote [0] 0, .vote [0] 1, .vote [1] 0, .punish [1] 50, .punish [2] 100] = .ok prop ∧
      prop.totalVotingPower = 20 ∧ prop.majorityPower = 13 ∧
      prop.options.map VoteOption.votes = [10, 10] ∧
      prop.totalVotingPower = (prop.voters.map Voter.power).sum ∧
      prop.majorityPower = 2 * prop.totalVotingPower / 3 ∧
      (∀ voter ∈ prop.voters, 0 < voter.power) := by
  have electorate : Electorate (validatorsOf [10, 20, 30]) := by decide +kernel
  have fits : ∀ ballot ∈ [Ballot.vote [0] 0, .vote [0] 1, .vote [1] 0, .punish [1] 50,
      .punish [2] 100], ballot.Fits (proposing [[1], [2]]).options.length := by decide
  obtain ⟨prop, cast, total, majority, positive, -, -⟩ :=
    vote_accounting electorate [] (proposing [[1], [2]]) fits
  have value : ((proposed [] (proposing [[1], [2]]) (validatorsOf [10, 20, 30])).castAll
      [.vote [0] 0, .vote [0] 1, .vote [1] 0, .punish [1] 50, .punish [2] 100]).map
        (fun prop => (prop.totalVotingPower, prop.majorityPower,
          prop.options.map VoteOption.votes)) = .ok (20, 13, [10, 10]) := by decide +kernel
  rw [cast] at value
  have parts := Except.ok.inj value
  exact ⟨prop, cast, congrArg Prod.fst parts, congrArg (fun x => x.2.1) parts,
    congrArg (fun x => x.2.2) parts, total, majority, positive (by decide)⟩

/-- Where the power of the voters is `2 ^ 62`, twice as much is not an int64, and the majority that
is asked for is negative. -/
theorem proposed_majority_wraps :
    ((validatorsOf [2 ^ 62]).map Delegatee.addr).Nodup ∧
      (∀ d ∈ validatorsOf [2 ^ 62], 0 < d.totalPower) ∧
      (proposed [] (proposing [[1]]) (validatorsOf [2 ^ 62])).castAll [] =
        .ok (proposed [] (proposing [[1]]) (validatorsOf [2 ^ 62])) ∧
      (proposed [] (proposing [[1]]) (validatorsOf [2 ^ 62])).totalVotingPower = 2 ^ 62 ∧
      (proposed [] (proposing [[1]]) (validatorsOf [2 ^ 62])).majorityPower < 0 := by
  refine ⟨?_, ?_, rfl, ?_, ?_⟩ <;> decide +kernel

/-! ## The majority -/

/-- The option that `UpdateMajorOption` returns has two thirds of the power, and it is the only one
with a majority; so it does not depend on the order in which the sort leaves equal options. -/
def MajoritySound (sort : OptionSort) (prop : GovProposal) : Prop :=
  ∀ prop' opt, (prop.updateMajorOption sort : Prog LedgerOp Fault GovProposal) = .pure prop' →
    prop'.majorOption = some opt →
      2 * prop.totalVotingPower ≤ 3 * opt.votes ∧ 0 < opt.votes ∧
        prop.options.filter (fun opt' => prop.majorityPower ≤ opt'.votes) = [opt]

/-- The power of the voters is a multiple of 3, or no option has exactly the votes of a majority
that was rounded down. -/
def Decisive (prop : GovProposal) : Prop :=
  3 ∣ prop.totalVotingPower ∧ 0 < prop.totalVotingPower ∨
    ∀ opt ∈ prop.options, opt.votes ≠ 2 * prop.totalVotingPower / 3

instance (prop : GovProposal) : Decidable prop.Decisive :=
  inferInstanceAs (Decidable (_ ∧ _ ∨ ∀ opt ∈ prop.options, _))

theorem Accounted.votes_nonneg (accounted : prop.Accounted) :
    ∀ opt ∈ prop.options, 0 ≤ opt.votes := by
  intro opt member
  obtain ⟨i, found⟩ := List.mem_iff_getElem?.mp member
  rw [accounted.votes i opt found]
  exact votesFor_nonneg accounted.nonneg _

theorem Accounted.total_nonneg (accounted : prop.Accounted) : 0 ≤ prop.totalVotingPower := by
  rw [accounted.total]
  refine List.sum_nonneg fun x member => ?_
  obtain ⟨voter, member', rfl⟩ := List.mem_map.mp member
  exact accounted.nonneg voter member'

/-- Two options have no more votes together than there is power. -/
theorem Accounted.two_votes_le (accounted : prop.Accounted) {first : VoteOption}
    {rest : List VoteOption} (perm : (first :: rest).Perm prop.options)
    (member : opt ∈ rest) : first.votes + opt.votes ≤ prop.totalVotingPower := by
  have all := accounted.sum_votes_le
  rw [← (perm.map VoteOption.votes).sum_eq, List.map_cons, List.sum_cons] at all
  have one : opt.votes ≤ (rest.map VoteOption.votes).sum := by
    refine List.single_le_sum (fun x present => ?_) opt.votes (List.mem_map_of_mem member)
    obtain ⟨opt', member', rfl⟩ := List.mem_map.mp present
    exact accounted.votes_nonneg opt' (perm.mem_iff.mp (List.mem_cons_of_mem _ member'))
  omega

theorem updateMajorOption_eq {sort : OptionSort} {first : VoteOption} {rest : List VoteOption}
    (sorted : sort.sort prop.options = first :: rest) :
    (prop.updateMajorOption sort : Prog LedgerOp Fault GovProposal) =
      .pure { prop with
        options := first :: rest
        majorOption := if first.votes ≥ prop.majorityPower then some first
          else prop.majorOption } := by
  unfold updateMajorOption
  rw [sorted]

/-- For which tallies the majority is one. -/
theorem Accounted.majoritySound_iff (accounted : prop.Accounted) (sort : OptionSort) :
    MajoritySound sort prop ↔ prop.Decisive := by
  have perm := sort.perm prop.options
  have descending := sort.sorted prop.options
  have total := accounted.total_nonneg
  cases sorted : sort.sort prop.options with
  | nil =>
    rw [sorted] at perm
    have empty : prop.options = [] := perm.nil_eq.symm
    refine iff_of_true ?_ (.inr fun opt member => absurd (empty ▸ member) List.not_mem_nil)
    intro prop' opt returned
    unfold updateMajorOption at returned
    rw [sorted] at returned
    cases returned
  | cons first rest =>
    rw [sorted] at perm descending
    have most : ∀ opt ∈ prop.options, opt.votes ≤ first.votes := by
      intro opt member
      rcases List.mem_cons.mp (perm.mem_iff.mpr member) with rfl | later
      · exact le_rfl
      · exact (List.pairwise_cons.mp descending).1 opt later
    have own : first ∈ prop.options := perm.mem_iff.mp List.mem_cons_self
    have wins : MajoritySound sort prop ↔ (prop.majorityPower ≤ first.votes →
        2 * prop.totalVotingPower ≤ 3 * first.votes ∧ 0 < first.votes ∧
          prop.options.filter (fun opt' => prop.majorityPower ≤ opt'.votes) = [first]) := by
      unfold MajoritySound
      rw [updateMajorOption_eq sorted]
      constructor
      · intro sound enough
        exact sound _ first rfl (if_pos enough)
      · rintro sound _ opt ⟨⟩ major
        by_cases enough : prop.majorityPower ≤ first.votes
        · rw [if_pos enough] at major
          cases major
          exact sound enough
        · rw [if_neg enough, accounted.undecided] at major
          cases major
    rw [wins, accounted.majority]
    constructor
    · intro sound
      by_contra indecisive
      obtain ⟨notThird, opt, member, exactly⟩ : ¬ (3 ∣ prop.totalVotingPower ∧
          0 < prop.totalVotingPower) ∧ ∃ opt ∈ prop.options,
            opt.votes = 2 * prop.totalVotingPower / 3 := by
        simpa [Decisive, not_or] using indecisive
      obtain ⟨thirds, positive, only⟩ := sound (exactly ▸ most opt member)
      have same : opt ∈ [first] := only ▸ List.mem_filter.mpr ⟨member, by simp [exactly]⟩
      rw [List.mem_singleton.mp same] at exactly
      exact notThird ⟨by omega, by omega⟩
    · intro decisive enough
      have others : ∀ opt ∈ rest, ¬ 2 * prop.totalVotingPower / 3 ≤ opt.votes := by
        intro opt later above
        have together := accounted.two_votes_le perm later
        rcases decisive with ⟨third, positive⟩ | never
        · omega
        · have here := never first own
          have there := never opt (perm.mem_iff.mp (List.mem_cons_of_mem _ later))
          omega
      refine ⟨?_, ?_, ?_⟩
      · rcases decisive with ⟨third, positive⟩ | never
        · omega
        · have here := never first own
          omega
      · rcases decisive with ⟨third, positive⟩ | never
        · omega
        · have here := never first own
          omega
      · have filtered : ((first :: rest).filter fun opt' =>
            2 * prop.totalVotingPower / 3 ≤ opt'.votes) = [first] := by
          rw [List.filter_cons_of_pos (by simpa using enough)]
          refine congrArg (first :: ·) (List.filter_eq_nil_iff.mpr fun opt later => ?_)
          simpa using others opt later
        exact List.perm_singleton.mp (filtered ▸ (perm.filter _).symm)

/-- The accounts of a proposal that an electorate has voted on. -/
theorem accounted_of_castAll (electorate : Electorate validators)
    {txHash : HexBytes} {payload : TrxPayloadProposal} {ballots : List Ballot}
    (fits : ∀ ballot ∈ ballots, ballot.Fits payload.options.length)
    (cast : (proposed txHash payload validators).castAll ballots = .ok prop) : prop.Accounted := by
  have length : (proposed txHash payload validators).options.length = payload.options.length := by
    simp only [proposed, newGovProposal, List.length_map]
  obtain ⟨prop', cast', accounted, -⟩ :=
    (accounted_proposed electorate txHash payload).castAll ballots fun ballot member =>
      length ▸ fits ballot member
  cases cast.symm.trans cast'
  exact accounted

/-- Whatever an electorate voted, and whoever was punished: the option that `UpdateMajorOption`
returns has two thirds of the power and is the only one with a majority, exactly if the power of
the voters is a multiple of 3 or no option has just the votes of the rounded majority. -/
theorem majority_sound_iff {validators : Validators} (electorate : Electorate validators)
    {txHash : HexBytes} {payload : TrxPayloadProposal} {ballots : List Ballot}
    (fits : ∀ ballot ∈ ballots, ballot.Fits payload.options.length)
    (cast : (proposed txHash payload validators).castAll ballots = .ok prop) (sort : OptionSort) :
    MajoritySound sort prop ↔ prop.Decisive :=
  (accounted_of_castAll electorate fits cast).majoritySound_iff sort

/-- Two of three voters with the same power have voted for the first option. -/
def twoOfThree : GovProposal :=
  { proposed [] (proposing [[1], [2]]) (validatorsOf [1, 1, 1]) with
    voters := [⟨[0], 1, 0⟩, ⟨[1], 1, 0⟩, ⟨[2], 1, notChoice⟩]
    options := [⟨[1], 2⟩, ⟨[2], 0⟩] }

theorem twoOfThree_electorate : Electorate (validatorsOf [1, 1, 1]) := by decide +kernel

theorem twoOfThree_cast : (proposed [] (proposing [[1], [2]]) (validatorsOf [1, 1, 1])).castAll
    [.vote [0] 0, .vote [1] 0] = .ok twoOfThree := by decide +kernel

theorem twoOfThree_updated :
    (twoOfThree.updateMajorOption OptionSort.stable : Prog LedgerOp Fault GovProposal) =
      .pure { twoOfThree with majorOption := some ⟨[1], 2⟩ } := by
  have sorted : OptionSort.stable.sort twoOfThree.options = ⟨[1], 2⟩ :: [⟨[2], 0⟩] := by decide +kernel
  exact updateMajorOption_eq sorted

theorem majority_sound_twoOfThree :
    MajoritySound OptionSort.stable twoOfThree ∧
      (twoOfThree.updateMajorOption OptionSort.stable : Prog LedgerOp Fault GovProposal) =
        .pure { twoOfThree with majorOption := some ⟨[1], 2⟩ } :=
  ⟨(majority_sound_iff twoOfThree_electorate (by decide) twoOfThree_cast OptionSort.stable).mpr
    (by decide +kernel), twoOfThree_updated⟩

/-- One of two voters with the same power has voted for the first option, the other for the
second. -/
def halves : GovProposal :=
  { proposed [] (proposing [[1], [2]]) (validatorsOf [1, 1]) with
    voters := [⟨[0], 1, 0⟩, ⟨[1], 1, 1⟩]
    options := [⟨[1], 1⟩, ⟨[2], 1⟩] }

/-- Two thirds of two, rounded down, are one, and half of the votes are a majority; both options
have it.  Two thirds of one are none, and an option is chosen that nobody has voted for. -/
theorem majority_unsound_halves :
    Electorate (validatorsOf [1, 1]) ∧
      (proposed [] (proposing [[1], [2]]) (validatorsOf [1, 1])).castAll
        [.vote [0] 0, .vote [1] 1] = .ok halves ∧
      (halves.updateMajorOption .stable : Prog LedgerOp Fault GovProposal) =
        .pure { halves with majorOption := some ⟨[1], 1⟩ } ∧
      3 * 1 < 2 * halves.totalVotingPower ∧
      halves.options.filter (fun opt => halves.majorityPower ≤ opt.votes) = [⟨[1], 1⟩, ⟨[2], 1⟩] ∧
      ¬ MajoritySound .stable halves ∧
      ((proposed [] (proposing [[1]]) (validatorsOf [1])).updateMajorOption .stable :
          Prog LedgerOp Fault GovProposal) =
        .pure { proposed [] (proposing [[1]]) (validatorsOf [1]) with
          majorOption := some ⟨[1], 0⟩ } := by
  have sorted : OptionSort.stable.sort halves.options = ⟨[1], 1⟩ :: [⟨[2], 1⟩] := by decide +kernel
  have returned : (halves.updateMajorOption .stable : Prog LedgerOp Fault GovProposal) =
      .pure { halves with majorOption := some ⟨[1], 1⟩ } := updateMajorOption_eq sorted
  refine ⟨by decide +kernel, by decide +kernel, returned, by decide +kernel, by decide +kernel,
    fun sound => ?_, ?_⟩
  · exact absurd (sound _ _ returned rfl).1 (by decide +kernel)
  · have single : OptionSort.stable.sort
        (proposed [] (proposing [[1]]) (validatorsOf [1])).options = ⟨[1], 0⟩ :: [] := by
      decide +kernel
    exact updateMajorOption_eq single

/-! ## The options after sorting -/

/-- The options are those there were, the voters still refer to the options they voted for, and the
votes of these are the power of their voters. -/
structure Attributable (prop prop' : GovProposal) : Prop where
  options : prop'.options.Perm prop.options
  voters : prop'.voters = prop.voters
  chosen : ∀ voter ∈ prop'.voters, ∀ i : Nat, voter.choice = i →
    prop'.options[i]?.map VoteOption.option = prop.options[i]?.map VoteOption.option
  votes : ∀ voter ∈ prop'.voters, ∀ i : Nat, voter.choice = i →
    ∀ opt, prop'.options[i]? = some opt → opt.votes = votesFor prop'.voters i

/-- As many options have more votes than a chosen option, or as many votes, as there may be before
it, and those with as many votes are equal to it. -/
def InPlace (prop : GovProposal) : Prop :=
  ∀ voter ∈ prop.voters, ∀ i < prop.options.length, voter.choice = i →
    ∀ opt ∈ prop.options[i]?,
      prop.options.countP (fun opt' => opt.votes < opt'.votes) ≤ i ∧
        i < prop.options.countP (fun opt' => opt.votes ≤ opt'.votes) ∧
        ∀ opt' ∈ prop.options, opt'.votes = opt.votes → opt'.option = opt.option

instance (prop : GovProposal) : Decidable prop.InPlace :=
  inferInstanceAs (Decidable (∀ voter ∈ prop.voters, ∀ i < prop.options.length,
    voter.choice = i → ∀ opt ∈ prop.options[i]?, _ ∧ _ ∧ ∀ opt' ∈ prop.options, _))

/-- The votes at a position of a sorted list of options. -/
theorem votes_at_iff {options sorted : List VoteOption} (perm : sorted.Perm options)
    (descending : sorted.Pairwise fun opt opt' => opt'.votes ≤ opt.votes) {i : Nat}
    (found : sorted[i]? = some opt) (votes : Int) :
    opt.votes = votes ↔
      options.countP (fun opt' => votes < opt'.votes) ≤ i ∧
        i < options.countP (fun opt' => votes ≤ opt'.votes) := by
  obtain ⟨inside, here⟩ := List.getElem?_eq_some_iff.mp found
  have above := getElem_iff_lt_countP
    (p := fun opt' : VoteOption => votes < opt'.votes) (descending.imp fun {x y} less has => by
      simp only [decide_eq_true_eq] at has ⊢
      omega) inside
  have atLeast := getElem_iff_lt_countP
    (p := fun opt' : VoteOption => votes ≤ opt'.votes) (descending.imp fun {x y} less has => by
      simp only [decide_eq_true_eq] at has ⊢
      omega) inside
  rw [perm.countP_eq, here, decide_eq_true_eq] at above atLeast
  omega

/-- A sort that does something else to some options. -/
def sortingAs (options : List VoteOption) {sorted : List VoteOption} (perm : sorted.Perm options)
    (descending : sorted.Pairwise fun opt opt' => opt'.votes ≤ opt.votes) : OptionSort where
  sort opts := if opts = options then sorted else OptionSort.stable.sort opts
  perm opts := by
    split
    · next same => exact same ▸ perm
    · exact OptionSort.stable.perm opts
  sorted opts := by
    split
    · exact descending
    · exact OptionSort.stable.sorted opts

/-- A sort may have any option in a place where one with as many votes belongs. -/
theorem exists_sort_with {options : List VoteOption} (member : opt ∈ options)
    {i : Nat} (low : options.countP (fun opt' => opt.votes < opt'.votes) ≤ i)
    (high : i < options.countP (fun opt' => opt.votes ≤ opt'.votes)) :
    ∃ sort : OptionSort, (sort.sort options)[i]? = some opt := by
  have perm := OptionSort.stable.perm options
  have descending := OptionSort.stable.sorted options
  generalize OptionSort.stable.sort options = sorted at perm descending
  have inside : i < sorted.length := by
    rw [perm.length_eq]
    exact high.trans_le List.countP_le_length
  obtain ⟨j, inside', here⟩ := List.mem_iff_getElem.mp (perm.mem_iff.mpr member)
  have same : sorted[i].votes = sorted[j].votes := by
    rw [here]
    exact (votes_at_iff perm descending (List.getElem?_eq_getElem inside) _).mpr ⟨low, high⟩
  -- exchange the two, which leaves the votes in their order
  have votes : ((sorted.set i sorted[j]).set j sorted[i]).map VoteOption.votes =
      sorted.map VoteOption.votes := by
    have inside : i < (sorted.map VoteOption.votes).length := by simpa using inside
    have inside' : j < (sorted.map VoteOption.votes).length := by simpa using inside'
    have at_i : sorted[j].votes = (sorted.map VoteOption.votes)[i] := by
      rw [List.getElem_map, same]
    have at_j : sorted[i].votes = (sorted.map VoteOption.votes)[j] := by
      rw [List.getElem_map, same]
    rw [List.map_set, List.map_set, at_i, List.set_getElem_self, at_j, List.set_getElem_self]
  refine ⟨sortingAs options ((List.set_set_perm inside inside').trans perm) ?_, ?_⟩
  · rw [← List.pairwise_map (f := VoteOption.votes) (R := fun x y => y ≤ x)] at descending ⊢
    rw [votes]
    exact descending
  · change (if options = options then _ else _)[i]? = _
    rw [if_pos rfl, List.getElem?_set]
    split
    · next there =>
      subst there
      simp [inside, here]
    · rw [List.getElem?_set, if_pos rfl, if_pos inside, here]

/-- The votes of a proposal that are accounted for can be attributed however the options are
sorted, exactly if every chosen option is in its place. -/
theorem updateMajorOption_attributable_iff
    (inside : ∀ voter ∈ prop.voters, voter.choice < prop.options.length)
    (votes : ∀ (i : Nat) (opt : VoteOption), prop.options[i]? = some opt →
      opt.votes = votesFor prop.voters i) :
    (∀ sort prop', (prop.updateMajorOption sort : Prog LedgerOp Fault GovProposal) = .pure prop' →
      Attributable prop prop') ↔ prop.InPlace := by
  have returns (sort : OptionSort) {i : Nat} (inside : i < prop.options.length) :
      ∃ prop', (prop.updateMajorOption sort : Prog LedgerOp Fault GovProposal) = .pure prop' ∧
        prop'.options = sort.sort prop.options ∧ prop'.voters = prop.voters := by
    cases sorted : sort.sort prop.options with
    | nil =>
      have length := (sort.perm prop.options).length_eq
      rw [sorted, List.length_nil] at length
      omega
    | cons first rest => exact ⟨_, updateMajorOption_eq sorted, rfl, rfl⟩
  constructor
  · intro attributable voter member i inside choice opt found
    have counts : prop.options.countP (fun opt' => opt.votes < opt'.votes) ≤ i ∧
        i < prop.options.countP (fun opt' => opt.votes ≤ opt'.votes) := by
      obtain ⟨prop', returned, options, voters⟩ := returns OptionSort.stable inside
      have sound := attributable _ prop' returned
      have inside' : i < (OptionSort.stable.sort prop.options).length := by
        rw [(OptionSort.stable.perm prop.options).length_eq]
        exact inside
      obtain ⟨opt', here⟩ : ∃ opt', (OptionSort.stable.sort prop.options)[i]? = some opt' :=
        ⟨_, List.getElem?_eq_getElem inside'⟩
      refine (votes_at_iff (OptionSort.stable.perm _) (OptionSort.stable.sorted _) here opt.votes).mp ?_
      rw [← options] at here
      rw [votes i opt found, ← voters]
      exact sound.votes voter (voters ▸ member) i choice _ here
    refine ⟨counts.1, counts.2, fun opt' member' same => ?_⟩
    rw [← same] at counts
    obtain ⟨sort, there⟩ := exists_sort_with member' counts.1 counts.2
    obtain ⟨prop', returned, options, voters⟩ := returns sort inside
    have sound := (attributable sort prop' returned).chosen voter (voters ▸ member) i choice
    rw [options, there, found] at sound
    exact Option.some.inj sound
  · intro inPlace sort prop' returned
    have chosen : ∀ voter ∈ prop.voters, ∀ i : Nat, voter.choice = i → ∃ opt opt',
        prop.options[i]? = some opt ∧ (sort.sort prop.options)[i]? = some opt' ∧
          opt'.votes = opt.votes ∧ opt'.option = opt.option := by
      intro voter member i choice
      have inside : i < prop.options.length := by
        have := inside voter member
        omega
      have inside' : i < (sort.sort prop.options).length := by
        rw [(sort.perm prop.options).length_eq]
        exact inside
      have found := List.getElem?_eq_getElem inside
      have here := List.getElem?_eq_getElem inside'
      obtain ⟨low, high, equal⟩ := inPlace voter member i inside choice _ found
      have same := (votes_at_iff (sort.perm _) (sort.sorted _) here _).mpr ⟨low, high⟩
      exact ⟨_, _, found, here, same,
        equal _ ((sort.perm _).mem_iff.mp (List.getElem_mem inside')) same⟩
    have shape : prop'.options = sort.sort prop.options ∧ prop'.voters = prop.voters := by
      unfold updateMajorOption at returned
      split at returned
      · cases returned
      · next first rest sorted =>
        cases returned
        exact ⟨sorted.symm, rfl⟩
    refine ⟨shape.1 ▸ sort.perm _, shape.2, ?_, ?_⟩
    · intro voter member i choice
      obtain ⟨opt, opt', found, here, -, option⟩ := chosen voter (shape.2 ▸ member) i choice
      rw [shape.1, found, here]
      exact congrArg some option
    · intro voter member i choice opt' there
      obtain ⟨opt, opt', found, here, same, -⟩ := chosen voter (shape.2 ▸ member) i choice
      rw [shape.1, here] at there
      cases there
      rw [shape.2, same, votes i opt found]

theorem updateMajorOption_attributable_twoOfThree :
    Attributable twoOfThree { twoOfThree with majorOption := some ⟨[1], 2⟩ } := by
  have accounted : twoOfThree.Accounted :=
    accounted_of_castAll twoOfThree_electorate (by decide) twoOfThree_cast
  exact (updateMajorOption_attributable_iff accounted.chosen accounted.votes).mpr
    (by decide +kernel) OptionSort.stable _ twoOfThree_updated

/-- The only voter has voted for the second option. -/
def secondChosen : GovProposal :=
  { proposed [] (proposing [[1], [2]]) (validatorsOf [1]) with
    voters := [⟨[0], 1, 1⟩]
    options := [⟨[1], 0⟩, ⟨[2], 1⟩] }

/-- Sorting moves the second option to the front, and the voter refers to the other one then. -/
theorem updateMajorOption_misattributes :
    (proposed [] (proposing [[1], [2]]) (validatorsOf [1])).castAll [.vote [0] 1] =
        .ok secondChosen ∧
      (secondChosen.updateMajorOption OptionSort.stable : Prog LedgerOp Fault GovProposal) =
        .pure { secondChosen with
          options := [⟨[2], 1⟩, ⟨[1], 0⟩]
          majorOption := some ⟨[2], 1⟩ } ∧
      ¬ Attributable secondChosen { secondChosen with
          options := [⟨[2], 1⟩, ⟨[1], 0⟩]
          majorOption := some ⟨[2], 1⟩ } := by
  have sorted : OptionSort.stable.sort secondChosen.options = ⟨[2], 1⟩ :: [⟨[1], 0⟩] := by decide +kernel
  refine ⟨by decide +kernel, updateMajorOption_eq sorted, ?_⟩
  intro attributable
  exact absurd (attributable.chosen ⟨[0], 1, 1⟩ List.mem_cons_self 1 rfl) (by decide +kernel)

end

end GovProposal

end Rigo

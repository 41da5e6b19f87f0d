import Rigo.Ctrlers.Types.Ledgers

/-!
# The figures of a reward

A reward has three figures, what was issued, withdrawn and slashed, and one height that they are
for.  `Issue`, `Withdraw` and `Slash` take the amount for a new figure where the height advances,
and add it to the figure where it does not.  The other two figures stay as they are in both cases.

So a call that advances the height leaves the other two figures of the height before in place.
They are right exactly if there was nothing to count (`figures_iff`).
-/

namespace Rigo

open Foundation

namespace Reward

/-- The figures of a reward. -/
inductive Kind where
  | issued
  | withdrawn
  | slashed
  deriving DecidableEq

instance : Fintype Kind := ⟨{.issued, .withdrawn, .slashed}, fun kind => by cases kind <;> decide⟩

/-- A call of `Issue`, `Withdraw` or `Slash`. -/
structure Movement where
  kind : Kind
  amount : Uint256
  height : Int
  deriving DecidableEq

def figure (rwd : Reward) : Kind → Uint256
  | .issued => rwd.issued
  | .withdrawn => rwd.withdrawn
  | .slashed => rwd.slashed

section

variable {Op : Type → Type}

def move (rwd : Reward) (m : Movement) : Prog Op Fault Reward :=
  match m.kind with
  | .issued => rwd.issue m.amount m.height
  | .withdrawn => rwd.withdraw m.amount m.height
  | .slashed => rwd.slash m.amount m.height

/-- One call after the other. -/
def moveAll (rwd : Reward) : List Movement → Prog Op Fault Reward
  | [] => .pure rwd
  | m :: rest => (rwd.move m).bind fun rwd' => rwd'.moveAll rest

/-- What a call does that does not go back in height. -/
theorem move_eq {rwd : Reward} {m : Movement} (ahead : rwd.height ≤ m.height) :
    ∃ rwd', (rwd.move m : Prog Op Fault Reward) = .pure rwd' ∧ rwd'.height = m.height ∧
      rwd'.figure m.kind =
        (if rwd.height < m.height then 0 else rwd.figure m.kind) + m.amount ∧
      ∀ kind, kind ≠ m.kind → rwd'.figure kind = rwd.figure kind := by
  obtain ⟨kind, amount, height⟩ := m
  rcases lt_or_eq_of_le ahead with advances | stays
  · cases kind <;>
      simp only [move, issue, withdraw, slash, if_pos advances] <;>
      refine ⟨_, rfl, rfl, by simp [figure], fun kind other => ?_⟩ <;>
      cases kind <;> first | rfl | exact absurd rfl other
  · simp only at stays
    cases kind <;>
      simp only [move, issue, withdraw, slash, stays, lt_irrefl, if_false, if_true] <;>
      refine ⟨_, rfl, rfl, rfl, fun kind other => ?_⟩ <;>
      cases kind <;> first | rfl | exact absurd rfl other

theorem moveAll_concat (rwd : Reward) (ms : List Movement) (m : Movement) :
    (rwd.moveAll (ms ++ [m]) : Prog Op Fault Reward) =
      (rwd.moveAll ms).bind fun rwd' => rwd'.move m := by
  induction ms generalizing rwd with
  | nil => exact Prog.bind_pure _
  | cons first rest ih =>
    simp only [List.cons_append, moveAll, Prog.bind_assoc]
    exact congrArg _ (funext fun rwd' => ih rwd')

end

/-! ## What the figures should be -/

/-- The total of the amounts of a kind at a height. -/
def totalAt (ms : List Movement) (kind : Kind) (height : Int) : Uint256 :=
  ((ms.filter fun m => m.kind = kind ∧ m.height = height).map Movement.amount).sum

theorem totalAt_concat (ms : List Movement) (m : Movement) (kind : Kind) (height : Int) :
    totalAt (ms ++ [m]) kind height =
      totalAt ms kind height + if m.kind = kind ∧ m.height = height then m.amount else 0 := by
  unfold totalAt
  rw [List.filter_append, List.map_append, List.sum_append]
  congr 1
  by_cases counts : m.kind = kind ∧ m.height = height
  · rw [List.filter_cons_of_pos (by simpa using counts), if_pos counts]
    simp
  · rw [List.filter_cons_of_neg (by simpa using counts), if_neg counts]
    rfl

/-- The height of the last call, or of a new reward. -/
def lastHeight (ms : List Movement) : Int := (ms.getLast?.map Movement.height).getD 0

/-- The heights do not go back, from that of a new reward on. -/
def NonDecreasing (ms : List Movement) : Prop :=
  ((0 : Int) :: ms.map Movement.height).Pairwise (· ≤ ·)

/-- A call that advances the height finds nothing counted of the other kinds. -/
def NothingStale (ms : List Movement) : Prop :=
  ∀ i < ms.length, ∀ m ∈ ms[i]?, lastHeight (ms.take i) < m.height →
    ∀ kind, kind ≠ m.kind → totalAt (ms.take i) kind (lastHeight (ms.take i)) = 0

instance (ms : List Movement) : Decidable (NonDecreasing ms) :=
  inferInstanceAs (Decidable (List.Pairwise _ _))

instance (ms : List Movement) : Decidable (NothingStale ms) :=
  inferInstanceAs (Decidable (∀ i < ms.length, ∀ m ∈ ms[i]?, _ < _ → ∀ kind : Kind, kind ≠ _ → _ = _))

theorem lastHeight_concat (ms : List Movement) (m : Movement) :
    lastHeight (ms ++ [m]) = m.height := by
  simp [lastHeight]

theorem NonDecreasing.of_prefix {ms ms' : List Movement} (ordered : NonDecreasing ms)
    (pre : ms' <+: ms) : NonDecreasing ms' :=
  ordered.sublist ((pre.map Movement.height).sublist.cons_cons 0)

section

variable {ms : List Movement} {m : Movement}

theorem NonDecreasing.lastHeight_le (ordered : NonDecreasing (ms ++ [m])) :
    lastHeight ms ≤ m.height := by
  unfold NonDecreasing at ordered
  rw [List.map_append, ← List.cons_append, List.pairwise_append] at ordered
  have before := ordered.2.2
  unfold lastHeight
  cases last : ms.getLast? with
  | none => exact before 0 List.mem_cons_self _ List.mem_cons_self
  | some latest =>
    exact before latest.height (List.mem_cons_of_mem _ (List.mem_map_of_mem
      (List.mem_of_getLast? last))) _ List.mem_cons_self

theorem NonDecreasing.height_le (ordered : NonDecreasing ms) :
    ∀ m ∈ ms, m.height ≤ lastHeight ms := by
  intro m member
  rcases List.eq_nil_or_concat' ms with rfl | ⟨earlier, last, rfl⟩
  · cases member
  · rw [lastHeight_concat]
    rcases List.mem_append.mp member with before | final
    · have pairs := (List.pairwise_cons.mp ordered).2
      rw [List.map_append, List.pairwise_append] at pairs
      exact pairs.2.2 _ (List.mem_map_of_mem before) _ List.mem_cons_self
    · rw [List.mem_singleton.mp final]

/-- Nothing is counted of a height that is still to come. -/
theorem totalAt_of_lt (ordered : NonDecreasing ms) {height : Int} (later : lastHeight ms < height)
    (kind : Kind) : totalAt ms kind height = 0 := by
  have none : ms.filter (fun m => m.kind = kind ∧ m.height = height) = [] := by
    refine List.filter_eq_nil_iff.mpr fun m member counts => ?_
    have reached := ordered.height_le m member
    have here := (of_decide_eq_true counts).2
    omega
  unfold totalAt
  rw [none]
  rfl

variable {Op : Type → Type}

/-- Calls whose heights do not go back do not panic, and the height is that of the last one. -/
theorem moveAll_height (addr : Address) (ordered : NonDecreasing ms) :
    ∃ rwd, ((newReward addr).moveAll ms : Prog Op Fault Reward) = .pure rwd ∧
      rwd.height = lastHeight ms := by
  induction ms using List.reverseRecOn with
  | nil => exact ⟨newReward addr, rfl, rfl⟩
  | append_singleton ms m ih =>
    obtain ⟨rwd, moved, height⟩ := ih (ordered.of_prefix (List.prefix_append ms [m]))
    obtain ⟨rwd', last, height', -⟩ : ∃ rwd', (rwd.move m : Prog Op Fault Reward) = .pure rwd' ∧
        rwd'.height = m.height ∧ _ := move_eq (height.trans_le ordered.lastHeight_le)
    refine ⟨rwd', ?_, height'.trans (lastHeight_concat ms m).symm⟩
    rw [moveAll_concat, moved]
    exact last

/-- The figures after some calls are the totals at the height of the reward. -/
def Right (Op : Type → Type) (addr : Address) (ms : List Movement) : Prop :=
  ∃ rwd, ((newReward addr).moveAll ms : Prog Op Fault Reward) = .pure rwd ∧
    ∀ kind, rwd.figure kind = totalAt ms kind rwd.height

/-- One more call leaves the figures right exactly if it does not advance the height, or nothing
was counted of the other kinds. -/
theorem right_concat_iff {addr : Address} (ordered : NonDecreasing (ms ++ [m]))
    (right : Right Op addr ms) :
    Right Op addr (ms ++ [m]) ↔ (lastHeight ms < m.height →
      ∀ kind, kind ≠ m.kind → totalAt ms kind (lastHeight ms) = 0) := by
  have before := ordered.of_prefix (List.prefix_append ms [m])
  obtain ⟨rwd, moved, figures⟩ := right
  have height : rwd.height = lastHeight ms := by
    obtain ⟨rwd', moved', height⟩ : ∃ rwd',
        ((newReward addr).moveAll ms : Prog Op Fault Reward) = .pure rwd' ∧ _ :=
      moveAll_height addr before
    cases moved.symm.trans moved'
    exact height
  have forward := ordered.lastHeight_le
  obtain ⟨rwd', last, height', own, others⟩ :
      ∃ rwd', (rwd.move m : Prog Op Fault Reward) = .pure rwd' ∧ rwd'.height = m.height ∧ _ :=
    move_eq (height.trans_le forward)
  have after : ((newReward addr).moveAll (ms ++ [m]) : Prog Op Fault Reward) = .pure rwd' := by
    rw [moveAll_concat, moved]
    exact last
  rw [height] at figures own
  -- what the call counts itself is right in any case
  have own : rwd'.figure m.kind = totalAt (ms ++ [m]) m.kind m.height := by
    rw [own, totalAt_concat]
    rcases forward.lt_or_eq with advances | stays
    · rw [if_pos advances, if_pos ⟨rfl, rfl⟩, totalAt_of_lt before advances]
    · rw [if_neg stays.not_lt, if_pos ⟨rfl, rfl⟩, figures, stays]
  have other {kind : Kind} (different : kind ≠ m.kind) :
      rwd'.figure kind = totalAt ms kind (lastHeight ms) ∧
        totalAt (ms ++ [m]) kind m.height = totalAt ms kind m.height := by
    refine ⟨(others kind different).trans (figures kind), ?_⟩
    rw [totalAt_concat, if_neg fun counts => different counts.1.symm, add_zero]
  constructor
  · rintro ⟨rwd'', after', figures'⟩ advances kind different
    cases after.symm.trans after'
    have counted := figures' kind
    rw [height', (other different).1, (other different).2] at counted
    rw [counted, totalAt_of_lt before advances]
  · intro nothing
    refine ⟨rwd', after, fun kind => ?_⟩
    rw [height']
    by_cases same : kind = m.kind
    · rw [same, own]
    · rw [(other same).1, (other same).2]
      rcases forward.lt_or_eq with advances | stays
      · rw [nothing advances kind same, totalAt_of_lt before advances]
      · rw [stays]

end

/-- For every sequence of calls whose heights do not go back: no call panics, and after each of
them the figures are the totals of what was issued, withdrawn and slashed at the height of the
reward, exactly if every call that advances the height finds nothing counted of the other kinds. -/
theorem figures_iff {Op : Type → Type} (addr : Address) {ms : List Movement}
    (ordered : NonDecreasing ms) : (∀ i, Right Op addr (ms.take i)) ↔ NothingStale ms := by
  have take_succ {i : Nat} {m : Movement} (found : ms[i]? = some m) :
      ms.take (i + 1) = ms.take i ++ [m] := by
    rw [List.take_add_one, found]
    rfl
  have last {i : Nat} {m : Movement} (found : ms[i]? = some m) (right : Right Op addr (ms.take i)) :=
    right_concat_iff (take_succ found ▸ ordered.of_prefix (List.take_prefix (i + 1) ms)) right
  constructor
  · intro right i _ m found
    refine (last found (right i)).mp ?_
    rw [← take_succ found]
    exact right (i + 1)
  · intro nothing i
    induction i with
    | zero =>
      refine ⟨newReward addr, rfl, fun kind => ?_⟩
      cases kind <;> rfl
    | succ i ih =>
      by_cases more : i < ms.length
      · have found := List.getElem?_eq_getElem more
        rw [take_succ found]
        exact (last found ih).mpr (nothing i more _ found)
      · rwa [List.take_of_length_le (by omega), ← List.take_of_length_le (not_lt.mp more)]

/-- Rewards are issued in two blocks; in the second some is withdrawn and some is slashed. -/
theorem figures_all_kinds :
    NonDecreasing [⟨.issued, 5, 1⟩, ⟨.issued, 7, 2⟩, ⟨.withdrawn, 4, 2⟩, ⟨.slashed, 1, 2⟩] ∧
      ∀ i, Right LedgerOp []
        ([⟨.issued, 5, 1⟩, ⟨.issued, 7, 2⟩, ⟨.withdrawn, 4, 2⟩, ⟨.slashed, 1, 2⟩].take i) := by
  have ordered : NonDecreasing
      [⟨.issued, 5, 1⟩, ⟨.issued, 7, 2⟩, ⟨.withdrawn, 4, 2⟩, ⟨.slashed, 1, 2⟩] := by decide
  exact ⟨ordered, (figures_iff [] ordered).mpr (by decide)⟩

/-- A withdrawal of the first block is still counted when a reward was issued in the second. -/
theorem figures_withdrawn_stale :
    NonDecreasing [⟨.issued, 5, 1⟩, ⟨.withdrawn, 2, 1⟩, ⟨.issued, 5, 2⟩] ∧
      ((newReward []).moveAll [⟨.issued, 5, 1⟩, ⟨.withdrawn, 2, 1⟩, ⟨.issued, 5, 2⟩] :
          Prog LedgerOp Fault Reward) =
        .pure { newReward [] with issued := 5, withdrawn := 2, cumulated := 8, height := 2 } ∧
      totalAt [⟨.issued, 5, 1⟩, ⟨.withdrawn, 2, 1⟩, ⟨.issued, 5, 2⟩] .withdrawn 2 = 0 := by
  exact ⟨by decide, rfl, by decide⟩

end Reward

end Rigo

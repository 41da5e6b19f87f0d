import Rigo.Ctrlers.Stake.Signing

/-!
# Marked heights

A `BlockMarker` is used in any order: heights are marked, and windows are counted, with or without
dropping what is before them.  `BlockMarker.counts_reference` compares every count with the whole
history of the marks: a mark that some rewinding call has dropped is before every window that is
counted later, so that nothing is missing, and nothing is counted twice.

What a rewinding call leaves is another matter.  It drops the heights before the window if there are
at least two of them; a single one stays (`rewinding_prunes_iff`).
-/

namespace Rigo

open BlockMarker StakeCtrler

/-! ## Calls on a marker -/

namespace BlockMarker

theorem countInWindowRewin_true (bm : BlockMarker) (h0 h1 : Int) :
    bm.countInWindowRewin h0 h1 true = bm.countInWindow h0 h1 := rfl

theorem countInWindowRewin_fst (bm : BlockMarker) (h0 h1 : Int) (rewin : Bool) :
    (bm.countInWindowRewin h0 h1 rewin).1 = (bm.countInWindow h0 h1).1 := by
  unfold countInWindow countInWindowRewin
  split <;> rfl

theorem countInWindowRewin_false (bm : BlockMarker) (h0 h1 : Int) :
    (bm.countInWindowRewin h0 h1 false).2 = bm := by
  unfold countInWindowRewin
  split
  · rfl
  · simp

end BlockMarker

/-- A call on a `BlockMarker`. -/
inductive MarkerCall where
  | mark (height : Int)
  | countInWindow (h0 h1 : Int) (rewin : Bool)
  deriving DecidableEq

/-- A marker with its history: the heights whose `Mark` succeeded, and where the windows began that
were counted with rewinding. -/
structure MarkerHistory where
  marker : BlockMarker
  marked : List Int
  rewound : List Int

namespace MarkerHistory

/-- A new marker. -/
def start : MarkerHistory := ⟨⟨[]⟩, [], []⟩

/-- The history after one more call. -/
def perform (history : MarkerHistory) : MarkerCall → MarkerHistory
  | .mark height =>
    match history.marker.mark height with
    | .ok marker => { history with marker := marker, marked := history.marked ++ [height] }
    | .error _ => history
  | .countInWindow h0 h1 rewin =>
    { history with
      marker := (history.marker.countInWindowRewin h0 h1 rewin).2
      rewound := if rewin then history.rewound ++ [h0] else history.rewound }

/-- The history of some calls. -/
def after (calls : List MarkerCall) : MarkerHistory := calls.foldl perform start

/-- The marker against its history: it holds marked heights in rising order, and all those that no
rewinding call was past. -/
structure Faithful (history : MarkerHistory) : Prop where
  rising : history.marker.blockHeights.Pairwise (· < ·)
  sound : ∀ h ∈ history.marker.blockHeights, h ∈ history.marked
  complete : ∀ h ∈ history.marked, (∀ h0 ∈ history.rewound, h0 ≤ h) →
    h ∈ history.marker.blockHeights

end MarkerHistory

namespace BlockMarker

/-- `Mark` fails if the height is not above the largest one. -/
theorem mark_cases {bm : BlockMarker} (rising : bm.blockHeights.Pairwise (· < ·)) (height : Int) :
    (bm.mark height = .ok ⟨bm.blockHeights ++ [height]⟩ ∧ ∀ h ∈ bm.blockHeights, h < height) ∨
      ((bm.mark height).isOk = false ∧
        ∃ largest, IsGreatest {h | h ∈ bm.blockHeights} largest ∧ height ≤ largest) := by
  unfold mark
  cases found : bm.blockHeights.getLast? with
  | none =>
    rw [List.getLast?_eq_none_iff] at found
    refine .inl ⟨rfl, fun h stored => ?_⟩
    rw [found] at stored
    cases stored
  | some last =>
    obtain ⟨earlier, heights⟩ := List.getLast?_eq_some_iff.mp found
    -- in rising heights the last one is the largest
    have largest : ∀ h ∈ bm.blockHeights, h ≤ last := by
      intro h stored
      rw [heights] at rising stored
      rcases List.mem_append.mp stored with before | here
      · exact ((List.pairwise_append.mp rising).2.2 h before last List.mem_cons_self).le
      · exact (List.mem_singleton.mp here).le
    by_cases low : last ≥ height
    · refine .inr ⟨?_, last, ⟨List.mem_of_getLast? found, largest⟩, low⟩
      simp only [if_pos low]
      rfl
    · refine .inl ⟨if_neg low, fun h stored => ?_⟩
      have := largest h stored
      omega

end BlockMarker

namespace MarkerHistory

theorem faithful_start : Faithful start := ⟨.nil, by simp [start], by simp [start]⟩

theorem Faithful.mark {history : MarkerHistory} (faithful : Faithful history) (height : Int) :
    Faithful (history.perform (.mark height)) := by
  rcases mark_cases faithful.rising height with ⟨marks, above⟩ | ⟨fails, -⟩
  · simp only [perform, marks]
    refine ⟨?_, ?_, ?_⟩
    · refine List.pairwise_append.mpr ⟨faithful.rising, List.pairwise_singleton .., ?_⟩
      intro h stored h' new
      rw [List.mem_singleton.mp new]
      exact above h stored
    · intro h stored
      rcases List.mem_append.mp stored with old | new
      · exact List.mem_append_left _ (faithful.sound h old)
      · exact List.mem_append_right _ new
    · intro h marked later
      rcases List.mem_append.mp marked with old | new
      · exact List.mem_append_left _ (faithful.complete h old later)
      · exact List.mem_append_right _ new
  · cases outcome : history.marker.mark height with
    | ok marker =>
      rw [outcome] at fails
      cases fails
    | error e =>
      simp only [perform, outcome]
      exact faithful

theorem Faithful.countInWindow {history : MarkerHistory} (faithful : Faithful history) (h0 h1 : Int)
    (rewin : Bool) : Faithful (history.perform (.countInWindow h0 h1 rewin)) := by
  cases rewin with
  | false =>
    simp only [perform, countInWindowRewin_false]
    exact faithful
  | true =>
    simp only [perform, countInWindowRewin_true]
    have kept := countInWindow_sublist history.marker h0 h1
    refine ⟨faithful.rising.sublist kept, fun h stored => faithful.sound h (kept.subset stored), ?_⟩
    intro h marked later
    have before : ∀ h0' ∈ history.rewound, h0' ≤ h := fun h0' member =>
      later h0' (List.mem_append_left _ member)
    have window : h0 ≤ h := later h0 (List.mem_append_right _ List.mem_cons_self)
    exact mem_countInWindow faithful.rising h0 h1 (faithful.complete h marked before)
      (.inl window)

theorem faithful_after (calls : List MarkerCall) : Faithful (after calls) := by
  unfold after
  induction calls using List.reverseRecOn with
  | nil => exact faithful_start
  | append_singleton calls call ih =>
    rw [List.foldl_append]
    cases call with
    | mark height => exact ih.mark height
    | countInWindow h0 h1 rewin => exact ih.countInWindow h0 h1 rewin

/-- A window that no rewinding call was past is counted as in the history. -/
theorem Faithful.count {history : MarkerHistory} (faithful : Faithful history) {h0 : Int} (h1 : Int)
    (later : ∀ h0' ∈ history.rewound, h0' ≤ h0) :
    (history.marker.countInWindow h0 h1).1 =
      (history.marked.toFinset.filter fun h => h0 ≤ h ∧ h ≤ h1).card := by
  have same : history.marked.toFinset.filter (fun h => h0 ≤ h ∧ h ≤ h1) =
      history.marker.blockHeights.toFinset.filter fun h => h0 ≤ h ∧ h ≤ h1 := by
    ext h
    simp only [Finset.mem_filter, List.mem_toFinset]
    constructor
    · rintro ⟨marked, low, high⟩
      exact ⟨faithful.complete h marked fun h0' member => (later h0' member).trans low, low, high⟩
    · rintro ⟨stored, inside⟩
      exact ⟨faithful.sound h stored, inside⟩
  have nodup : history.marker.blockHeights.Nodup := faithful.rising.imp fun less => less.ne
  rw [same]
  by_cases nonempty : h0 ≤ h1
  · rw [countInWindow_count faithful.rising h0 h1 nonempty,
      List.countP_eq_length_filter, ← List.toFinset_card_of_nodup (nodup.filter _)]
    congr 1
    ext h
    simp
  · rw [countInWindow_eq, if_pos (not_le.mp nonempty), eq_comm, Finset.card_eq_zero,
      Finset.filter_eq_empty_iff]
    rintro h - ⟨low, high⟩
    omega

end MarkerHistory

/-- After any calls on a `BlockMarker`: the stored heights are strictly increasing, `Mark` fails
exactly if the height is not larger than the largest stored one, and a window that begins where or
after all rewound ones began is counted with the number of distinct heights in it whose `Mark` has
succeeded.  The windows of the rewinding calls may have begun in any order. -/
theorem BlockMarker.counts_reference (calls : List MarkerCall) :
    (MarkerHistory.after calls).marker.blockHeights.Pairwise (· < ·) ∧
      (∀ height, ((MarkerHistory.after calls).marker.mark height).isOk = false ↔
        ∃ largest, IsGreatest {h | h ∈ (MarkerHistory.after calls).marker.blockHeights} largest ∧
          height ≤ largest) ∧
      ∀ h0 h1 rewin, (∀ h0' ∈ (MarkerHistory.after calls).rewound, h0' ≤ h0) →
        ((MarkerHistory.after calls).marker.countInWindowRewin h0 h1 rewin).1 =
          ((MarkerHistory.after calls).marked.toFinset.filter fun h => h0 ≤ h ∧ h ≤ h1).card := by
  have faithful := MarkerHistory.faithful_after calls
  refine ⟨faithful.rising, fun height => ?_, fun h0 h1 rewin later => ?_⟩
  · constructor
    · intro fails
      rcases mark_cases faithful.rising height with ⟨marks, -⟩ | ⟨-, low⟩
      · rw [marks] at fails
        cases fails
      · exact low
    · rintro ⟨largest, ⟨stored, -⟩, low⟩
      rcases mark_cases faithful.rising height with ⟨-, above⟩ | ⟨fails, -⟩
      · exact absurd (above largest stored) (not_lt.mpr low)
      · exact fails
  · rw [countInWindowRewin_fst]
    exact faithful.count h1 later

/-- Three marks, a window that leaves two of them behind, and another mark: the two in the window
from 6 to 9 are counted. -/
theorem BlockMarker.counts_reference_rewound :
    (countInWindowRewin
      (MarkerHistory.after [.mark 3, .mark 5, .mark 6, .countInWindow 6 9 true, .mark 7]).marker
      6 9 true).1 = 2 := by
  rw [(counts_reference
    [.mark 3, .mark 5, .mark 6, .countInWindow 6 9 true, .mark 7]).2.2 6 9 true (by decide)]
  decide

/-! ## What a rewinding call leaves -/

namespace BlockMarker

/-- The number of heights before a window. -/
def stale (bm : BlockMarker) (h0 : Int) : Nat := bm.blockHeights.countP fun h => h < h0

/-- The index of the last height before the window, in rising heights. -/
theorem countFrom_preIdx_eq {h0 h1 : Int} (window : h0 ≤ h1) (i : Nat) (heights : List Int)
    (rising : heights.Pairwise (· < ·)) (count : Nat) (preIdx : Int) :
    (countFrom h0 h1 i heights (count, preIdx)).2 =
      if heights.countP (fun h => h < h0) = 0 then preIdx
      else i + heights.countP (fun h => h < h0) - 1 := by
  induction heights generalizing i count preIdx with
  | nil => rfl
  | cons h rest ih =>
    obtain ⟨above, rising'⟩ := List.pairwise_cons.mp rising
    rw [countFrom, List.countP_cons]
    simp only [ge_iff_le, decide_eq_true_eq]
    by_cases before : h < h0
    · -- the loop goes on, since the end of the window is not reached
      rw [if_neg (by omega), ih (i + 1) rising', if_pos before]
      split
      · omega
      · push_cast
        omega
    · have none_later : rest.countP (fun h => h < h0) = 0 := by
        refine List.countP_eq_zero.mpr fun h' later => ?_
        have := above h' later
        simp only [decide_eq_true_eq]
        omega
      rw [if_neg before, none_later]
      split
      · rfl
      · rw [ih (i + 1) rising', none_later]
        rfl

/-- In rising heights those before the window come first. -/
theorem drop_stale {h0 : Int} {heights : List Int} (rising : heights.Pairwise (· < ·)) :
    heights.drop (heights.countP fun h => h < h0) = heights.filter fun h => h0 ≤ h := by
  induction heights with
  | nil => rfl
  | cons h rest ih =>
    obtain ⟨above, rising'⟩ := List.pairwise_cons.mp rising
    by_cases before : h < h0
    · rw [List.countP_cons_of_pos (by simpa using before), List.drop_succ_cons, ih rising',
        List.filter_cons_of_neg (by simpa using before)]
    · have all : ∀ h' ∈ h :: rest, h0 ≤ h' := by
        intro h' member
        rcases List.mem_cons.mp member with rfl | later
        · omega
        · have := above h' later
          omega
      rw [List.countP_eq_zero.mpr fun h' member => by simpa using all h' member, List.drop_zero,
        List.filter_eq_self.mpr fun h' member => by simpa using all h' member]

section

variable {bm : BlockMarker} (rising : bm.blockHeights.Pairwise (· < ·)) {h0 h1 : Int}
  (window : h0 ≤ h1)

include rising window

/-- The heights before the window are dropped if there are at least two of them. -/
theorem blockHeights_countInWindow :
    (bm.countInWindow h0 h1).2.blockHeights =
      if 2 ≤ bm.stale h0 then bm.blockHeights.filter fun h => h0 ≤ h else bm.blockHeights := by
  have index := countFrom_preIdx_eq window 0 bm.blockHeights rising 0 (-1)
  rw [countInWindow_eq, if_neg (not_lt.mpr window)]
  simp only
  rw [index, stale, ← drop_stale rising]
  generalize bm.blockHeights.countP (fun h => h < h0) = n
  rcases n with _ | _ | n
  · rfl
  · rfl
  · have last : ((0 : Nat) : Int) + ((n + 1 + 1 : Nat) : Int) - 1 = ((n + 1 : Nat) : Int) := by
      push_cast
      omega
    rw [if_neg (Nat.succ_ne_zero _), last, if_pos (by omega), if_pos (by omega)]
    rfl

/-- So what is left is the part in the window, unless exactly one height was before it. -/
theorem blockHeights_countInWindow_iff :
    (bm.countInWindow h0 h1).2.blockHeights = (bm.blockHeights.filter fun h => h0 ≤ h) ↔
      bm.stale h0 ≠ 1 := by
  rw [blockHeights_countInWindow rising window]
  have whole : (bm.blockHeights.filter fun h => h0 ≤ h) = bm.blockHeights ↔ bm.stale h0 = 0 := by
    rw [List.filter_eq_self, stale, List.countP_eq_zero]
    simp
  split
  · simp only [true_iff]
    omega
  · rw [eq_comm, whole]
    omega

end

end BlockMarker

namespace StakeCtrler

/-- A missed block marks its height, which is in the window; whether heights before the window are
left is decided by the marks that were there. -/
theorem blockHeights_missed {params : GovParams} {height : Int} {d : Delegatee}
    {misses : List Miss} (covers : d.notSignedHeights.Covers misses)
    (later : ∀ miss ∈ misses, miss.height < height)
    (window : windowStart params height ≤ height) :
    (∀ h ∈ (missed params height d).2.notSignedHeights.blockHeights,
        windowStart params height ≤ h) ↔
      d.notSignedHeights.stale (windowStart params height) ≠ 1 := by
  obtain ⟨marked, covers'⟩ := covers.mark ⟨height, params.signedBlocksWindow⟩ later
  have same : stale ⟨d.notSignedHeights.blockHeights ++ [height]⟩
      (windowStart params height) = d.notSignedHeights.stale (windowStart params height) := by
    have inside : [height].countP (fun h => h < windowStart params height) = 0 := by
      simpa using window
    rw [stale, List.countP_append, inside]
    rfl
  have left : (missed params height d).2.notSignedHeights.blockHeights =
      (countInWindow ⟨d.notSignedHeights.blockHeights ++ [height]⟩
        (windowStart params height) height).2.blockHeights := by
    unfold missed Delegatee.processNotSignedBlock Delegatee.getNotSignedBlockCount
    rw [marked]
  rw [left, ← same, ← blockHeights_countInWindow_iff covers'.rising window]
  constructor
  · intro inside
    -- what is left is either that part already or the whole list, which then lies in the window
    have pruned := blockHeights_countInWindow covers'.rising window
    split at pruned
    · exact pruned
    · rw [pruned] at inside ⊢
      exact (List.filter_eq_self.mpr fun h member => by simpa using inside h member).symm
  · intro pruned h member
    rw [pruned, List.mem_filter] at member
    simpa using member.2

end StakeCtrler

/-- A rewinding call leaves exactly the heights from the window on, unless exactly one height is
before it.  So the record of a validator that misses one more block, and is not stopped for it, holds
no height before the window, unless it held exactly one. -/
theorem BlockMarker.rewinding_prunes_iff (bm : BlockMarker) (h0 h1 : Int) :
    (bm.blockHeights.Pairwise (· < ·) → h0 ≤ h1 →
      ((bm.countInWindowRewin h0 h1 true).2.blockHeights =
          (bm.blockHeights.filter fun h => h0 ≤ h) ↔ bm.stale h0 ≠ 1)) ∧
    ∀ (addr : Address) (misses : List Miss) (ls : Stores) (d d' : Delegatee) (params : GovParams)
      (height : Int), StakeCtrler.History addr misses ls →
      (ls .delegatees).lookup (toLedgerKey addr) = some d →
      1 ≤ height → height < 2 ^ 63 → (∀ miss ∈ misses, miss.height < height - 1) →
      windowStart params (height - 1) ≤ height - 1 →
      ((exec (missedBlock params height addr) ls).2 .delegatees).lookup
        (toLedgerKey addr) = some d' →
      ((∀ h ∈ d'.notSignedHeights.blockHeights, windowStart params (height - 1) ≤ h) ↔
        d.notSignedHeights.stale (windowStart params (height - 1)) ≠ 1) := by
  constructor
  · intro rising window
    rw [countInWindowRewin_true]
    exact blockHeights_countInWindow_iff rising window
  · intro addr misses ls d d' params height history found low high later window found'
    obtain ⟨⟨_, found'', covers⟩, -⟩ := history.covers
    obtain rfl := Option.some.inj (found.symm.trans found'')
    rw [exec_missedBlock_snd found
      (i64_of_range (by omega) (by omega) : _ = height - 1)] at found'
    split at found'
    · rw [Stores.remove_self, Store.lookup_erase, if_pos rfl] at found'
      cases found'
    · rw [lookup_noted found] at found'
      rw [← Option.some.inj found']
      exact blockHeights_missed covers later window

/-- Of three heights the two before the window are dropped; a validator that missed blocks 1 and 2
has both in its record. -/
theorem BlockMarker.rewinding_prunes_two :
    (countInWindowRewin ⟨[3, 4, 7]⟩ 6 10 true).2.blockHeights =
        ([3, 4, 7].filter fun h => (6 : Int) ≤ h) ∧
      ∀ h ∈ [1, 2], windowStart (signing 3 1) 2 ≤ h := by
  obtain ⟨pruned, recorded⟩ := rewinding_prunes_iff ⟨[3, 4, 7]⟩ 6 10
  constructor
  · exact (pruned (by decide) (by decide)).mpr (by decide)
  · exact (recorded [1] [⟨1, 2⟩] missedOnce _
      { Delegatee.holding 100 with notSignedHeights := ⟨[1, 2]⟩ } (signing 3 1) 3
      history_missedOnce lookup_missedOnce (by decide) (by decide)
      (by decide) (by decide) (by decide +kernel)).mpr (by decide)

/-- A single height before the window stays.  So a validator that missed blocks 1 and 9 has both in
its record, with a window that begins at height 7. -/
theorem BlockMarker.single_stale_stays :
    (countInWindowRewin ⟨[5]⟩ 6 10 true).2.blockHeights = [5] ∧
      ([5].filter fun h => (6 : Int) ≤ h) = [] ∧
      StakeCtrler.History [1] [⟨1, 2⟩] missedOnce ∧
      ((exec (missedBlock (signing 2 1) 10 [1]) missedOnce).2
        .delegatees).lookup (toLedgerKey [1]) =
          some { Delegatee.holding 100 with notSignedHeights := ⟨[1, 9]⟩ } ∧
      windowStart (signing 2 1) 9 = 7 :=
  ⟨by decide, by decide, history_missedOnce, by decide +kernel, by decide⟩

end Rigo

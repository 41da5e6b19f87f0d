import Rigo.Ctrlers.Stake.Accounting
import Rigo.Ctrlers.Stake.Ctrler

/-!
# Blocks a validator did not sign

A delegatee marks the blocks it did not sign, and drops marks that have left the window.
`Covers` relates the marks to the history of the misses: a miss that no window has left behind
is still marked.  So dropping marks does not change what is counted, as long as the window does
not grow; if it does, `lostMisses` are not counted.  And the window that is counted has one height
more than the window that the number of signed blocks is computed from.
-/

namespace Rigo

open LedgerProg
open Store Stores
open Delegatee

/-! ## Counting marks -/

namespace BlockMarker

/-- The heights of a window. -/
abbrev InWindow (h0 h1 h : Int) : Prop := h0 ≤ h ∧ h ≤ h1

/-- The loop stops at the end of the window; in rising heights no mark of it follows. -/
theorem countFrom_count (h0 h1 : Int) (i : Nat) (heights : List Int) (count : Nat) (preIdx : Int)
    (rising : heights.Pairwise (· < ·)) :
    (countFrom h0 h1 i heights (count, preIdx)).1 =
      count + heights.countP fun h => InWindow h0 h1 h := by
  induction heights generalizing i count preIdx with
  | nil => rfl
  | cons h rest ih =>
    obtain ⟨above, rising'⟩ := List.pairwise_cons.mp rising
    rw [countFrom, List.countP_cons]
    simp only [ge_iff_le, decide_eq_true_eq]
    by_cases last : h1 ≤ h
    · have none_later : rest.countP (fun h => InWindow h0 h1 h) = 0 := by
        refine List.countP_eq_zero.mpr fun h' later => ?_
        have := above h' later
        simp only [decide_eq_true_eq]
        omega
      rw [if_pos last, none_later]
      split <;> simp
    · rw [if_neg last, ih _ _ _ rising']
      split <;> omega

/-- The index is the one given, or that of a mark before the window. -/
theorem countFrom_preIdx (h0 h1 : Int) (i : Nat) (heights : List Int) (count : Nat) (preIdx : Int) :
    (countFrom h0 h1 i heights (count, preIdx)).2 = preIdx ∨
      ∃ (k : Nat) (h : Int), heights[k]? = some h ∧ h < h0 ∧
        (countFrom h0 h1 i heights (count, preIdx)).2 = i + k := by
  induction heights generalizing i count preIdx with
  | nil => exact .inl rfl
  | cons h rest ih =>
    rw [countFrom]
    -- what the head makes of the index
    have here : (if h < h0 then (i : Int) else preIdx) = preIdx ∨
        h < h0 ∧ (if h < h0 then (i : Int) else preIdx) = i := by
      split
      · exact .inr ⟨‹_›, rfl⟩
      · exact .inl rfl
    split
    · rcases here with same | ⟨before, same⟩
      · exact .inl same
      · exact .inr ⟨0, h, rfl, before, by simpa using same⟩
    · rcases ih (i + 1) (if h ≥ h0 ∧ h ≤ h1 then count + 1 else count)
        (if h < h0 then (i : Int) else preIdx) with same | ⟨k, h', found, before, same⟩
      · rw [same]
        rcases here with same | ⟨before, same⟩
        · exact .inl same
        · exact .inr ⟨0, h, rfl, before, by simpa using same⟩
      · refine .inr ⟨k + 1, h', found, before, ?_⟩
        rw [same]
        push_cast
        ring

section

variable {bm : BlockMarker} (rising : bm.blockHeights.Pairwise (· < ·)) (h0 h1 : Int)

include rising in
theorem countInWindow_count (nonempty : h0 ≤ h1) :
    (bm.countInWindow h0 h1).1 = bm.blockHeights.countP fun h => InWindow h0 h1 h := by
  rw [countInWindow_eq, if_neg (by omega)]
  simp [countFrom_count h0 h1 0 bm.blockHeights 0 (-1) rising]

variable (bm) in
theorem countInWindow_sublist :
    (bm.countInWindow h0 h1).2.blockHeights.Sublist bm.blockHeights := by
  rw [countInWindow_eq]
  split
  · exact List.Sublist.refl _
  · simp only
    split
    · exact List.drop_sublist _ _
    · exact List.Sublist.refl _

include rising in
/-- Only marks before the window are dropped. -/
theorem mem_countInWindow {h : Int} (marked : h ∈ bm.blockHeights) (within : h0 ≤ h ∨ h1 < h0) :
    h ∈ (bm.countInWindow h0 h1).2.blockHeights := by
  rw [countInWindow_eq]
  split
  · exact marked
  · next nonempty =>
    simp only
    split
    · next dropped =>
      rcases countFrom_preIdx h0 h1 0 bm.blockHeights 0 (-1) with same | ⟨k, h', found, before, same⟩
      · omega
      · obtain ⟨j, bound, rfl⟩ := List.mem_iff_getElem.mp marked
        obtain ⟨bound', rfl⟩ := List.getElem?_eq_some_iff.mp found
        refine List.mem_drop_iff_getElem.mpr ?_
        have later : k < j := by
          by_contra earlier
          have below : bm.blockHeights[j] ≤ bm.blockHeights[k] := by
            rcases Nat.eq_or_lt_of_le (not_lt.mp earlier) with rfl | less
            · exact le_refl _
            · exact (List.pairwise_iff_getElem.mp rising j k bound bound' less).le
          omega
        exact ⟨j - (k + 1), by omega, by congr 1; omega⟩
    · exact marked

end

end BlockMarker

/-! ## The marks of a history -/

/-- A block that a validator did not sign, with the window in force when this was reported. -/
structure Miss where
  height : Int
  window : Int
  deriving DecidableEq

namespace BlockMarker

/-- The marks for a history: a miss is marked unless some window has left it behind. -/
structure Covers (bm : BlockMarker) (misses : List Miss) : Prop where
  rising : bm.blockHeights.Pairwise (· < ·)
  sound : ∀ h ∈ bm.blockHeights, h ∈ misses.map Miss.height
  complete : ∀ miss ∈ misses, (∀ other ∈ misses, other.height - other.window ≤ miss.height) →
    miss.height ∈ bm.blockHeights

variable {bm : BlockMarker} {misses : List Miss}

theorem covers_nil : Covers ⟨[]⟩ [] := ⟨.nil, by simp, by simp⟩

/-- A later height is marked. -/
theorem Covers.mark (covers : Covers bm misses) (miss : Miss)
    (later : ∀ other ∈ misses, other.height < miss.height) :
    bm.mark miss.height = .ok ⟨bm.blockHeights ++ [miss.height]⟩ ∧
      Covers ⟨bm.blockHeights ++ [miss.height]⟩ (misses ++ [miss]) := by
  have below : ∀ h ∈ bm.blockHeights, h < miss.height := by
    intro h marked
    obtain ⟨other, member, rfl⟩ := List.mem_map.mp (covers.sound h marked)
    exact later other member
  refine ⟨?_, ?_, ?_, ?_⟩
  · unfold BlockMarker.mark
    split
    · next last found => rw [if_neg (not_le.mpr (below last (List.mem_of_getLast? found)))]
    · rfl
  · refine List.pairwise_append.mpr ⟨covers.rising, List.pairwise_singleton .., ?_⟩
    intro h marked h' new
    rw [List.mem_singleton.mp new]
    exact below h marked
  · intro h marked
    rw [List.map_append, List.mem_append]
    rcases List.mem_append.mp marked with old | new
    · exact .inl (covers.sound h old)
    · exact .inr (by simpa using new)
  · intro miss' member inside
    refine List.mem_append.mpr ?_
    rcases List.mem_append.mp member with old | new
    · exact .inl (covers.complete miss' old fun other member =>
        inside other (List.mem_append_left _ member))
    · exact .inr (by rw [List.mem_singleton.mp new]; exact List.mem_singleton_self _)

/-- Dropping marks before the window of the last miss keeps the marks for the history. -/
theorem Covers.countInWindow {miss : Miss} (covers : Covers bm misses) (member : miss ∈ misses)
    (nonneg : ∀ other ∈ misses, 0 ≤ other.height) {h0 h1 : Int}
    (start : h0 ≤ max 0 (miss.height - miss.window)) :
    Covers (bm.countInWindow h0 h1).2 misses := by
  have sublist := countInWindow_sublist bm h0 h1
  refine ⟨covers.rising.sublist sublist, fun h marked => covers.sound h (sublist.subset marked), ?_⟩
  intro miss' member' inside
  refine mem_countInWindow covers.rising h0 h1 (covers.complete miss' member' inside) (.inl ?_)
  have := inside miss member
  have := nonneg miss' member'
  omega

end BlockMarker

/-! ## The decision -/

namespace StakeCtrler

/-- A delegatee after a missed block, with the number of misses that are counted. -/
def missed (params : GovParams) (signedHeight : Int) (d : Delegatee) : Nat × Delegatee :=
  (d.processNotSignedBlock signedHeight).getNotSignedBlockCount
    (windowStart params signedHeight) signedHeight

/-- The last `window` heights before a height. -/
def heightsBefore (height window : Int) : List Int :=
  (List.range window.toNat).map fun i : Nat => height - 1 - i

/-- The number of blocks among the last `window` ones that were not missed. -/
def signedBlocks (height window : Int) (missedHeights : List Int) : Nat :=
  (heightsBefore height window).countP (· ∉ missedHeights)

/-- The number of misses among the last `window` blocks that are not marked. -/
def lostMisses (height window : Int) (missedHeights marks : List Int) : Nat :=
  (heightsBefore height window).countP fun h => h ∈ missedHeights ∧ h ∉ marks

section

variable (height : Int) {window : Int} (nonneg : 0 ≤ window)

include nonneg in
theorem mem_heightsBefore (h : Int) :
    h ∈ heightsBefore height window ↔ BlockMarker.InWindow (height - window) (height - 1) h := by
  unfold heightsBefore
  rw [List.mem_map]
  constructor
  · rintro ⟨i, member, rfl⟩
    rw [List.mem_range] at member
    omega
  · rintro ⟨low, high⟩
    exact ⟨(height - 1 - h).toNat, List.mem_range.mpr (by omega), by omega⟩

variable (window) in
theorem nodup_heightsBefore : (heightsBefore height window).Nodup := by
  refine List.nodup_range.map fun i j same => ?_
  omega

include nonneg in
/-- Every height of the window was signed or missed. -/
theorem signedBlocks_add (missedHeights : List Int) :
    (signedBlocks height window missedHeights : Int) +
      (heightsBefore height window).countP (· ∈ missedHeights) = window := by
  have both := List.length_eq_countP_add_countP (· ∈ missedHeights)
    (l := heightsBefore height window)
  have length : (heightsBefore height window).length = window.toNat := by
    rw [heightsBefore, List.length_map, List.length_range]
  unfold signedBlocks
  simp only [decide_not, Bool.decide_eq_true] at both ⊢
  omega

include nonneg in
/-- The marks of a window, counted along the window or along the marks. -/
theorem countP_heightsBefore {marks : List Int} (nodup : marks.Nodup) :
    (heightsBefore height window).countP (· ∈ marks) =
      marks.countP fun h => BlockMarker.InWindow (height - window) (height - 1) h := by
  rw [List.countP_eq_length_filter, List.countP_eq_length_filter]
  refine List.Perm.length_eq ?_
  rw [List.perm_ext_iff_of_nodup ((nodup_heightsBefore height window).filter _) (nodup.filter _)]
  intro h
  rw [List.mem_filter, List.mem_filter, mem_heightsBefore height nonneg]
  simp only [decide_eq_true_eq]
  exact and_comm

variable (window) in
/-- Every miss of the window is marked or lost, if only misses are marked. -/
theorem countP_marks_add {missedHeights marks : List Int} (sound : ∀ h ∈ marks, h ∈ missedHeights) :
    (heightsBefore height window).countP (· ∈ marks) +
        lostMisses height window missedHeights marks =
      (heightsBefore height window).countP (· ∈ missedHeights) := by
  rw [List.countP_eq_countP_filter_add _ (· ∈ missedHeights) (· ∈ marks), List.countP_filter,
    List.countP_filter, lostMisses]
  congr 1
  · refine List.countP_congr fun h _ => ?_
    simp only [Bool.and_eq_true, decide_eq_true_eq]
    exact ⟨fun mark => ⟨sound h mark, mark⟩, And.right⟩
  · refine List.countP_congr fun h _ => ?_
    simp only [Bool.and_eq_true, decide_eq_true_eq, Bool.not_eq_true', decide_eq_false_iff_not]

end

/-- A window that starts one height earlier may have one mark more. -/
theorem countP_inWindow_pred {marks : List Int} (nodup : marks.Nodup) (h0 h1 : Int)
    (nonempty : h0 ≤ h1 + 1) :
    marks.countP (fun h => BlockMarker.InWindow (h0 - 1) h1 h) =
      marks.countP (fun h => BlockMarker.InWindow h0 h1 h) + if h0 - 1 ∈ marks then 1 else 0 := by
  induction marks with
  | nil => rfl
  | cons h rest ih =>
    obtain ⟨new, nodup'⟩ := List.nodup_cons.mp nodup
    rw [List.countP_cons, List.countP_cons, ih nodup']
    simp only [decide_eq_true_eq, List.mem_cons]
    by_cases edge : h0 - 1 = h
    · subst edge
      rw [if_neg new, if_pos (by omega), if_neg (by omega), if_pos (.inl rfl)]
    · have same : BlockMarker.InWindow (h0 - 1) h1 h ↔ BlockMarker.InWindow h0 h1 h := by omega
      simp only [same, edge, false_or]
      omega

theorem windowStart_le {params : GovParams} {h : Int} (low : 0 ≤ h) (high : h < 2 ^ 63)
    (low' : -2 ^ 63 ≤ params.signedBlocksWindow) (high' : params.signedBlocksWindow < 2 ^ 63) :
    windowStart params h ≤ max 0 (h - params.signedBlocksWindow) := by
  unfold windowStart
  rcases lt_or_ge (h - params.signedBlocksWindow) (2 ^ 63) with fits | large
  · rw [i64_of_range (by omega) fits]
  · have wrapped := i64_le_sub large
    omega

section

variable {params : GovParams} {height : Int} {d : Delegatee} {misses : List Miss}

/-- The misses up to the block before a height, which was missed as well. -/
abbrev missesUpTo (params : GovParams) (height : Int) (misses : List Miss) : List Miss :=
  misses ++ [⟨height - 1, params.signedBlocksWindow⟩]

/-- A history of misses before a height: block heights that can be reported, and a window. -/
structure Regular (params : GovParams) (height : Int) (misses : List Miss) : Prop where
  positive : 1 ≤ height
  small : height < 2 ^ 63
  earlier : ∀ miss ∈ misses, 0 ≤ miss.height ∧ miss.height < height - 1
  window : 0 ≤ params.signedBlocksWindow ∧ params.signedBlocksWindow < 2 ^ 63

theorem missed_snd (covers : d.notSignedHeights.Covers misses) (low : 0 ≤ height)
    (high : height < 2 ^ 63)
    (window : -2 ^ 63 ≤ params.signedBlocksWindow ∧ params.signedBlocksWindow < 2 ^ 63)
    (earlier : ∀ miss ∈ misses, 0 ≤ miss.height ∧ miss.height < height) :
    (missed params height d).2.notSignedHeights.Covers
      (misses ++ [⟨height, params.signedBlocksWindow⟩]) := by
  obtain ⟨marked, covers'⟩ := covers.mark ⟨height, params.signedBlocksWindow⟩
    fun miss member => (earlier miss member).2
  unfold missed processNotSignedBlock getNotSignedBlockCount
  rw [marked]
  refine covers'.countInWindow (List.mem_append_right _ (List.mem_singleton_self _)) ?_
    (windowStart_le low high window.1 window.2)
  intro other member
  rcases List.mem_append.mp member with old | new
  · exact (earlier other old).1
  · rw [List.mem_singleton.mp new]
    exact low

section

variable (covers : d.notSignedHeights.Covers misses) (regular : Regular params height misses)

/-- The marks that are counted. -/
abbrev marks (height : Int) (d : Delegatee) : List Int :=
  d.notSignedHeights.blockHeights ++ [height - 1]

include covers regular

theorem marked :
    d.notSignedHeights.mark (height - 1) = .ok ⟨marks height d⟩ ∧
      BlockMarker.Covers ⟨marks height d⟩ (missesUpTo params height misses) :=
  covers.mark ⟨height - 1, params.signedBlocksWindow⟩ fun miss member =>
    (regular.earlier miss member).2

theorem sound_marks (h : Int) (mark : h ∈ marks height d) :
    h ∈ (missesUpTo params height misses).map Miss.height :=
  (marked covers regular).2.sound h mark

/-- From the height before the window on, the marks are the misses, if the window has not grown
over heights it had left. -/
theorem mem_marks
    (start : ∀ miss ∈ misses, miss.height - miss.window ≤ height - 1 - params.signedBlocksWindow)
    (h : Int) (inside : height - 1 - params.signedBlocksWindow ≤ h) :
    h ∈ marks height d ↔ h ∈ (missesUpTo params height misses).map Miss.height := by
  refine ⟨sound_marks covers regular h, fun missed => ?_⟩
  obtain ⟨miss, member, rfl⟩ := List.mem_map.mp missed
  refine (marked covers regular).2.complete miss member fun other member' => ?_
  rcases List.mem_append.mp member' with old | new
  · exact (start other old).trans inside
  · rw [List.mem_singleton.mp new]
    exact inside

/-- The count is that of a window with one height more; at the start of the chain, clipping it
makes no difference. -/
theorem missed_fst :
    (missed params (height - 1) d).1 = (marks height d).countP fun h =>
      BlockMarker.InWindow (height - params.signedBlocksWindow - 1) (height - 1) h := by
  obtain ⟨marked, covers'⟩ := marked covers regular
  obtain ⟨positive, small, earlier, low, high⟩ := regular
  have start : windowStart params (height - 1) = max 0 (height - 1 - params.signedBlocksWindow) := by
    rw [windowStart, i64_of_range (by omega) (by omega)]
  have counted : (missed params (height - 1) d).1 = (marks height d).countP fun h =>
      BlockMarker.InWindow (windowStart params (height - 1)) (height - 1) h := by
    unfold missed processNotSignedBlock getNotSignedBlockCount
    rw [marked]
    exact BlockMarker.countInWindow_count covers'.rising _ _ (by omega)
  rw [counted, start]
  refine List.countP_congr fun h mark => ?_
  obtain ⟨miss, member, rfl⟩ := List.mem_map.mp (covers'.sound h mark)
  have nonneg : 0 ≤ miss.height := by
    rcases List.mem_append.mp member with old | new
    · exact (earlier miss old).1
    · rw [List.mem_singleton.mp new]
      exact sub_nonneg.mpr positive
  simp only [decide_eq_true_eq]
  omega

/-- What is counted: the misses of the window that are not lost, and the height before it. -/
theorem missed_count :
    ((missed params (height - 1) d).1 : Int) =
      params.signedBlocksWindow -
        signedBlocks height params.signedBlocksWindow
          ((missesUpTo params height misses).map Miss.height) -
        lostMisses height params.signedBlocksWindow
          ((missesUpTo params height misses).map Miss.height) (marks height d) +
      if height - 1 - params.signedBlocksWindow ∈ marks height d then 1 else 0 := by
  have nodup : (marks height d).Nodup :=
    (marked covers regular).2.rising.imp fun less => ne_of_lt less
  have nonneg := regular.window.1
  have inside := countP_heightsBefore height nonneg nodup
  have lost := countP_marks_add height params.signedBlocksWindow (sound_marks covers regular)
  have whole := signedBlocks_add height nonneg ((missesUpTo params height misses).map Miss.height)
  have before : height - params.signedBlocksWindow - 1 =
    height - 1 - params.signedBlocksWindow := by ring
  have edge := countP_inWindow_pred nodup (height - params.signedBlocksWindow) (height - 1)
    (by omega)
  rw [before] at edge
  rw [missed_fst covers regular, before, edge]
  push_cast
  omega

/-- No miss is lost if the window has not grown over heights it had left. -/
theorem lostMisses_eq_zero
    (start : ∀ miss ∈ misses, miss.height - miss.window ≤ height - 1 - params.signedBlocksWindow) :
    lostMisses height params.signedBlocksWindow
      ((missesUpTo params height misses).map Miss.height) (marks height d) = 0 := by
  refine List.countP_eq_zero.mpr fun h inside => ?_
  have low := ((mem_heightsBefore height regular.window.1 h).mp inside).1
  rw [decide_eq_true_eq, mem_marks covers regular start h (by omega)]
  exact fun lost => lost.2 lost.1

end

end

/-! ## The stop -/

/-- The stores after stakes were frozen. -/
def frozen (refundHeight : Int) (stakes : List Stake) (ls : Stores) : Stores :=
  stakes.foldl (fun ls s => ls.put .frozenStakes { s with refundHeight := refundHeight }) ls

theorem exec_freezeStakes (refundHeight : Int) (stakes : List Stake) (ls : Stores) :
    exec (stakes.forM (freezeStake refundHeight)) ls = (.ok (), frozen refundHeight stakes ls) := by
  induction stakes generalizing ls with
  | nil => rfl
  | cons s rest ih =>
    rw [List.forM, exec_bind]
    exact ih (ls.put .frozenStakes { s with refundHeight := refundHeight })

theorem frozen_of_ne (refundHeight : Int) (stakes : List Stake) (ls : Stores) {l : LedgerId}
    (other : l ≠ .frozenStakes) : frozen refundHeight stakes ls l = ls l := by
  induction stakes generalizing ls with
  | nil => rfl
  | cons s rest ih =>
    rw [frozen, List.foldl_cons]
    exact (ih _).trans (put_of_ne ls _ other)

theorem frozen_congr (refundHeight : Int) (stakes : List Stake) {ls ls' : Stores}
    (same : ls .frozenStakes = ls' .frozenStakes) :
    frozen refundHeight stakes ls .frozenStakes = frozen refundHeight stakes ls' .frozenStakes := by
  induction stakes generalizing ls ls' with
  | nil => exact same
  | cons s0 rest ih =>
    refine ih ?_
    simp only [put_self, same]

/-- Every stake is frozen, if no other one has its key and none is deleted. -/
theorem lookup_frozen {refundHeight : Int} {stakes : List Stake} {ls : Stores}
    (distinct : (stakes.map LedgerItem.key).Nodup) (fresh : (ls .frozenStakes).removed = []) :
    (∀ s ∈ stakes, (frozen refundHeight stakes ls .frozenStakes).lookup (LedgerItem.key s) =
        some { s with refundHeight := refundHeight }) ∧
      ∀ k ∉ stakes.map LedgerItem.key,
        (frozen refundHeight stakes ls .frozenStakes).lookup k = (ls .frozenStakes).lookup k := by
  induction stakes generalizing ls with
  | nil => exact ⟨fun s absent => absurd absent List.not_mem_nil, fun _ _ => rfl⟩
  | cons head rest ih =>
    rw [List.map_cons, List.nodup_cons] at distinct
    have fresh' : ((ls.put .frozenStakes { head with refundHeight := refundHeight })
        .frozenStakes).removed = [] := by
      rw [put_self]
      exact fresh
    obtain ⟨inside, outside⟩ := ih distinct.2 fresh'
    constructor
    · intro s member
      rcases List.mem_cons.mp member with rfl | later
      · refine (outside _ distinct.1).trans ?_
        rw [put_self, lookup_set, if_pos ⟨rfl, by simp [fresh]⟩]
      · exact inside s later
    · intro k absent
      rw [List.map_cons, List.mem_cons, not_or] at absent
      refine (outside k absent.2).trans ?_
      rw [put_self, lookup_set]
      exact if_neg fun same => absent.1 same.1.symm

section

variable {params : GovParams} {height : Int} {addr : Address} {d : Delegatee} {ls : Stores}
  (found : (ls .delegatees).lookup (toLedgerKey addr) = some d)

/-- The stores after the miss was marked. -/
def noted (params : GovParams) (signedHeight : Int) (d : Delegatee) (ls : Stores) : Stores :=
  (ls.put .delegatees (d.processNotSignedBlock signedHeight)).put .delegatees
    (missed params signedHeight d).2

theorem missed_stakes (params : GovParams) (signedHeight : Int) (d : Delegatee) :
    (missed params signedHeight d).2.stakes = d.stakes := by
  unfold missed processNotSignedBlock
  split <;> rfl

theorem missed_key (params : GovParams) (signedHeight : Int) (d : Delegatee) :
    LedgerItem.key (missed params signedHeight d).2 = LedgerItem.key d := by
  unfold missed processNotSignedBlock
  split <;> rfl

include found

theorem lookup_noted (signedHeight : Int) :
    (noted params signedHeight d ls .delegatees).lookup (toLedgerKey addr) =
      some (missed params signedHeight d).2 := by
  have key := key_of_lookup found
  have present := not_mem_removed found
  have present' : toLedgerKey addr ∉ ((ls.put .delegatees (d.processNotSignedBlock signedHeight))
      .delegatees).removed := by
    rw [put_self]
    exact present
  rw [noted, put_self, lookup_set, missed_key, if_pos ⟨key, present'⟩]

theorem exec_missedBlock_snd {signedHeight : Int} (last : i64 (height - 1) = signedHeight) :
    (exec (missedBlock params height addr) ls).2 =
      if i64 (params.signedBlocksWindow - (missed params signedHeight d).1) < params.minSignedBlocks
      then (frozen (i64 (height + params.lazyRewardBlocks)) d.stakes
        (noted params signedHeight d ls)).remove .delegatees (toLedgerKey addr)
      else noted params signedHeight d ls := by
  have key := key_of_lookup found
  have got : (ls .delegatees).get (toLedgerKey addr) = .ok d := by rw [Store.get, found]; rfl
  simp only [missedBlock, exec_bind, exec_get, got, Foundation.andThen_ok, exec_set, last]
  change (exec (if i64 (params.signedBlocksWindow - (missed params signedHeight d).1) <
      params.minSignedBlocks then stopValidator (i64 (height + params.lazyRewardBlocks))
        (missed params signedHeight d).2 else pure ()) (noted params signedHeight d ls)).2 = _
  split
  · rw [stopValidator, exec_bind, exec_freezeStakes, missed_stakes, missed_key, key]
    rfl
  · rfl

/-- A delegatee that is stopped has all its stakes frozen. -/
theorem missedBlock_freezes
    (gone : ((exec (missedBlock params height addr) ls).2 .delegatees).lookup (toLedgerKey addr) =
      none) :
    (exec (missedBlock params height addr) ls).2 .frozenStakes =
      frozen (i64 (height + params.lazyRewardBlocks)) d.stakes ls .frozenStakes := by
  rw [exec_missedBlock_snd found rfl] at gone ⊢
  split at gone
  · next few =>
    rw [if_pos few, remove_of_ne _ _ (by decide)]
    refine frozen_congr _ _ ?_
    rw [noted, put_of_ne _ _ (by decide), put_of_ne _ _ (by decide)]
  · rw [lookup_noted found] at gone
    cases gone

/-- A delegatee was stopped: it is deleted, and its stakes are frozen. -/
structure Stopped (d : Delegatee) (refundHeight : Int) (ls : Stores) : Prop where
  deleted : (ls .delegatees).lookup (LedgerItem.key d) = none
  frozen : ∀ s ∈ d.stakes, (ls .frozenStakes).lookup (LedgerItem.key s) =
    some { s with refundHeight := refundHeight }

/-- Whether a validator is stopped is decided by the count. -/
theorem stopped_iff (low : 1 ≤ height) (high : height < 2 ^ 63)
    (distinct : (d.stakes.map LedgerItem.key).Nodup) (fresh : (ls .frozenStakes).removed = []) :
    Stopped d (i64 (height + params.lazyRewardBlocks))
        (exec (missedBlock params height addr) ls).2 ↔
      i64 (params.signedBlocksWindow - (missed params (height - 1) d).1) <
        params.minSignedBlocks := by
  have key := key_of_lookup found
  rw [exec_missedBlock_snd found (i64_of_range (by omega) (by omega) : _ = height - 1)]
  split
  · next few =>
    refine iff_of_true ⟨?_, ?_⟩ few
    · rw [remove_self, lookup_erase, if_pos key.symm]
    · rw [remove_of_ne _ _ (by decide)]
      refine (lookup_frozen distinct ?_).1
      rw [noted, put_of_ne _ _ (by decide), put_of_ne _ _ (by decide)]
      exact fresh
  · next enough =>
    refine iff_of_false ?_ enough
    rintro ⟨deleted, _⟩
    rw [key, lookup_noted found] at deleted
    cases deleted

end

/-! ## Histories -/

/-- The stores in the course of a history: a delegatee starts with no marks, misses blocks at
rising heights without being stopped, and is changed in other ways that leave its marks alone. -/
inductive History (addr : Address) : List Miss → Stores → Prop
  | start {ls : Stores} {d : Delegatee}
      (found : (ls .delegatees).lookup (toLedgerKey addr) = some d)
      (unmarked : d.notSignedHeights = ⟨[]⟩) : History addr [] ls
  | other {misses : List Miss} {ls ls' : Stores} {d d' : Delegatee}
      (history : History addr misses ls)
      (found : (ls .delegatees).lookup (toLedgerKey addr) = some d)
      (found' : (ls' .delegatees).lookup (toLedgerKey addr) = some d')
      (same : d'.notSignedHeights = d.notSignedHeights) : History addr misses ls'
  | miss {misses : List Miss} {ls : Stores} {d' : Delegatee} (params : GovParams) (height : Int)
      (history : History addr misses ls) (low : 1 ≤ height) (high : height < 2 ^ 63)
      (window : -2 ^ 63 ≤ params.signedBlocksWindow ∧ params.signedBlocksWindow < 2 ^ 63)
      (rising : ∀ miss ∈ misses, miss.height < height - 1)
      (found' : ((exec (missedBlock params height addr) ls).2 .delegatees).lookup
        (toLedgerKey addr) = some d') :
      History addr (misses ++ [⟨height - 1, params.signedBlocksWindow⟩])
        (exec (missedBlock params height addr) ls).2

theorem History.covers {addr : Address} {misses : List Miss} {ls : Stores}
    (history : History addr misses ls) :
    (∃ d, (ls .delegatees).lookup (toLedgerKey addr) = some d ∧
      d.notSignedHeights.Covers misses) ∧ ∀ miss ∈ misses, 0 ≤ miss.height := by
  induction history with
  | start found unmarked =>
    refine ⟨⟨_, found, ?_⟩, fun _ absent => absurd absent List.not_mem_nil⟩
    rw [unmarked]
    exact BlockMarker.covers_nil
  | other history found found' same ih =>
    obtain ⟨⟨d, found'', covers⟩, nonneg⟩ := ih
    obtain rfl := Option.some.inj (found.symm.trans found'')
    exact ⟨⟨_, found', same ▸ covers⟩, nonneg⟩
  | miss params height history low high window rising found' ih =>
    obtain ⟨⟨d, found, covers⟩, nonneg⟩ := ih
    have covers' := missed_snd covers (sub_nonneg.mpr low) (by omega) window
      fun miss member => ⟨nonneg miss member, rising miss member⟩
    refine ⟨⟨_, found', ?_⟩, ?_⟩
    · -- the delegatee that is still there is the marked one
      rw [exec_missedBlock_snd found (i64_of_range (by omega) (by omega) : _ = height - 1)] at found'
      split at found'
      · rw [remove_self, lookup_erase, if_pos rfl] at found'
        cases found'
      · rw [lookup_noted found] at found'
        exact Option.some.inj found' ▸ covers'
    · intro miss member
      rcases List.mem_append.mp member with old | new
      · exact nonneg miss old
      · rw [List.mem_singleton.mp new]
        exact sub_nonneg.mpr low

/-- Parameters with a window of the signed blocks. -/
def signing (window minSigned : Int) : GovParams :=
  { GovParams.defaultGovParams with signedBlocksWindow := window, minSignedBlocks := minSigned }

/-- Stores with one delegatee. -/
def stakedOnce : Stores := Stores.put (fun _ => Store.new Tree.empty) .delegatees (Delegatee.holding 100)

/-- The stores after the delegatee missed block 1. -/
def missedOnce : Stores := (exec (missedBlock (signing 2 1) 2 [1]) stakedOnce).2

theorem lookup_missedOnce : (missedOnce .delegatees).lookup (toLedgerKey [1]) =
    some { holding 100 with notSignedHeights := ⟨[1]⟩ } := by decide +kernel

theorem history_missedOnce : History [1] [⟨1, 2⟩] missedOnce := by
  have found : (stakedOnce .delegatees).lookup (toLedgerKey [1]) = some (holding 100) := by
    decide +kernel
  exact .miss (signing 2 1) 2 (.start found rfl) (by decide) (by decide) (by decide) (by decide)
    lookup_missedOnce

/-- The delegatee missed blocks 1 and 2 under a window of five blocks, and block 6 under one of one
block, which left the first two marks behind. -/
def prunedMarks : Stores :=
  (exec (missedBlock (signing 1 0) 7 [1]) (exec (missedBlock (signing 5 1) 3 [1])
    (exec (missedBlock (signing 5 1) 2 [1]) stakedOnce).2).2).2

theorem lookup_prunedMarks : (prunedMarks .delegatees).lookup (toLedgerKey [1]) =
    some { holding 100 with notSignedHeights := ⟨[6]⟩ } := by decide +kernel

theorem history_prunedMarks : History [1] [⟨1, 5⟩, ⟨2, 5⟩, ⟨6, 1⟩] prunedMarks := by
  have found : (stakedOnce .delegatees).lookup (toLedgerKey [1]) = some (holding 100) := by
    decide +kernel
  have found₁ : ((exec (missedBlock (signing 5 1) 2 [1]) stakedOnce).2 .delegatees).lookup
      (toLedgerKey [1]) = some { holding 100 with notSignedHeights := ⟨[1]⟩ } := by decide +kernel
  have found₂ : ((exec (missedBlock (signing 5 1) 3 [1])
      (exec (missedBlock (signing 5 1) 2 [1]) stakedOnce).2).2 .delegatees).lookup
      (toLedgerKey [1]) = some { holding 100 with notSignedHeights := ⟨[1, 2]⟩ } := by decide +kernel
  have history := History.miss (signing 5 1) 2 (.start found rfl) (by decide) (by decide)
    (by decide) (by decide) found₁
  exact .miss (signing 1 0) 7 (.miss (signing 5 1) 3 history (by decide) (by decide) (by decide)
    (by decide) found₂) (by decide) (by decide) (by decide) (by decide) lookup_prunedMarks

end StakeCtrler

end Rigo

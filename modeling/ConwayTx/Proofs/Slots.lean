import ConwayTx.Slots
import Mathlib.Order.Monotone.Basic

namespace UInt64

variable {a b : UInt64} {m n : Nat}

theorem toNat_add_eq (ha : a.toNat = m) (hb : b.toNat = n) (word : m + n < size) :
    (a + b).toNat = m + n := by
  rw [UInt64.toNat_add, ha, hb]
  exact Nat.mod_eq_of_lt word

theorem toNat_mul_eq (ha : a.toNat = m) (hb : b.toNat = n) (word : m * n < size) :
    (a * b).toNat = m * n := by
  rw [UInt64.toNat_mul, ha, hb]
  exact Nat.mod_eq_of_lt word

end UInt64

namespace ConwayTx.Genesis

variable {g : Genesis} {slot slot' time time' : UInt64}

def boundary (g : Genesis) : Nat := g.shelleyEpoch.toNat * 21600

/-- The exact time at which a slot starts: twenty seconds for each slot of the first era before it,
and one for each other. -/
def startOf (g : Genesis) (slot : Nat) : Nat :=
  g.byronTimestamp.toNat + 20 * min slot g.boundary + (slot - g.boundary)

theorem startOf_strictMono (g : Genesis) : StrictMono g.startOf := by
  intro a b less
  unfold startOf
  omega

theorem startOf_of_le {n : Nat} (h : n ≤ g.boundary) :
    g.startOf n = g.byronTimestamp.toNat + n * 20 := by
  unfold startOf
  omega

theorem startOf_of_ge {n : Nat} (h : g.boundary ≤ n) :
    g.startOf n = g.startOf g.boundary + (n - g.boundary) := by
  unfold startOf
  omega

theorem byron_le_startOf (g : Genesis) (n : Nat) : g.byronTimestamp.toNat ≤ g.startOf n := by
  unfold startOf
  omega

theorem le_startOf (g : Genesis) (n : Nat) : n ≤ g.startOf n := by
  unfold startOf
  omega

theorem startOf_boundary (g : Genesis) :
    g.startOf g.boundary = g.byronTimestamp.toNat + g.boundary * 20 :=
  startOf_of_le (Nat.le_refl _)

def Fits (g : Genesis) : Prop :=
  g.byronTimestamp.toNat + g.shelleyEpoch.toNat * 21600 * 20 < UInt64.size

namespace Fits

variable (fits : g.Fits)
include fits

theorem toNat_shelleyStart : g.shelleyStart.toNat = g.boundary := by
  have bound : g.shelleyEpoch.toNat * 21600 < UInt64.size := by
    unfold Fits at fits
    omega
  exact UInt64.toNat_mul_eq rfl rfl bound

theorem toNat_shelleyTimestamp : g.shelleyTimestamp.toNat = g.startOf g.boundary := by
  have bound : g.byronTimestamp.toNat + g.boundary * 20 < UInt64.size := fits
  have era : (g.shelleyStart * byronSlotLength).toNat = g.boundary * 20 :=
    UInt64.toNat_mul_eq fits.toNat_shelleyStart rfl (by omega)
  rw [startOf_boundary]
  exact UInt64.toNat_add_eq rfl era bound

theorem toNat_slotToTimestamp (word : g.startOf slot.toNat < UInt64.size) :
    (g.slotToTimestamp slot).toNat = g.startOf slot.toNat := by
  have start := fits.toNat_shelleyStart
  rw [slotToTimestamp]
  split
  · rename_i before
    rw [UInt64.lt_iff_toNat_lt, start] at before
    rw [startOf_of_le before.le] at word ⊢
    have seconds : (slot * byronSlotLength).toNat = slot.toNat * 20 :=
      UInt64.toNat_mul_eq rfl rfl (by omega)
    exact UInt64.toNat_add_eq rfl seconds word
  · rename_i behind
    have behind := UInt64.not_lt.mp behind
    have later : (slot - g.shelleyStart).toNat = slot.toNat - g.boundary := by
      rw [UInt64.toNat_sub_of_le _ _ behind, start]
    rw [UInt64.le_iff_toNat_le, start] at behind
    rw [startOf_of_ge behind] at word ⊢
    exact UInt64.toNat_add_eq fits.toNat_shelleyTimestamp later word

theorem startOf_timestampToSlot (started : g.byronTimestamp ≤ time) :
    g.startOf (g.timestampToSlot time).toNat ≤ time.toNat ∧
      time.toNat < g.startOf ((g.timestampToSlot time).toNat + 1) := by
  have start := fits.toNat_shelleyStart
  have length : byronSlotLength.toNat = 20 := rfl
  have bound := time.toNat_lt_size
  rw [UInt64.le_iff_toNat_le] at started
  rw [timestampToSlot]
  split
  · rename_i shelley
    have since : (time - g.shelleyTimestamp).toNat = time.toNat - g.startOf g.boundary := by
      rw [UInt64.toNat_sub_of_le _ _ shelley, fits.toNat_shelleyTimestamp]
    rw [UInt64.le_iff_toNat_le, fits.toNat_shelleyTimestamp] at shelley
    have slot : (g.shelleyStart + (time - g.shelleyTimestamp)).toNat =
        g.boundary + (time.toNat - g.startOf g.boundary) := by
      have low := le_startOf g g.boundary
      exact UInt64.toNat_add_eq start since (by omega)
    have starts : ∀ k, g.startOf (g.boundary + k) = g.startOf g.boundary + k := by
      intro k
      rw [startOf_of_ge (Nat.le_add_right _ _), Nat.add_sub_cancel_left]
    rw [slot, Nat.add_assoc, starts, starts]
    omega
  · rename_i byron
    rw [UInt64.le_iff_toNat_le, fits.toNat_shelleyTimestamp, startOf_boundary] at byron
    have slot : (time.saturatingSub g.byronTimestamp / byronSlotLength).toNat =
        (time.toNat - g.byronTimestamp.toNat) / 20 := by
      rw [UInt64.toNat_div, UInt64.toNat_saturatingSub, length]
    rw [slot, startOf_of_le (by omega), startOf_of_le (by omega)]
    omega

theorem timestampToSlot_of_lt (early : time < g.byronTimestamp) : g.timestampToSlot time = 0 := by
  rw [UInt64.lt_iff_toNat_lt] at early
  have byron : ¬ g.shelleyTimestamp ≤ time := by
    rw [UInt64.le_iff_toNat_le, fits.toNat_shelleyTimestamp, startOf_boundary]
    omega
  rw [timestampToSlot, if_neg byron, ← UInt64.toNat_inj, UInt64.toNat_div,
    UInt64.toNat_saturatingSub, Nat.sub_eq_zero_of_le early.le]
  exact Nat.zero_div _

theorem timestampToSlot_eq (started : g.byronTimestamp ≤ time)
    (from_ : g.startOf slot.toNat ≤ time.toNat) (until_ : time.toNat < g.startOf (slot.toNat + 1)) :
    g.timestampToSlot time = slot := by
  obtain ⟨low, high⟩ := fits.startOf_timestampToSlot started
  have notLater := g.startOf_strictMono.lt_iff_lt.mp (Nat.lt_of_le_of_lt low until_)
  have notEarlier := g.startOf_strictMono.lt_iff_lt.mp (Nat.lt_of_le_of_lt from_ high)
  rw [← UInt64.toNat_inj]
  omega

theorem timestampToSlot_slotToTimestamp (word : g.startOf slot.toNat < UInt64.size) :
    g.timestampToSlot (g.slotToTimestamp slot) = slot := by
  have time := fits.toNat_slotToTimestamp word
  refine fits.timestampToSlot_eq ?_ time.ge ?_
  · rw [UInt64.le_iff_toNat_le, time]
    exact byron_le_startOf g _
  · rw [time]
    exact g.startOf_strictMono (Nat.lt_succ_self _)

theorem slotToTimestamp_mono (le : slot ≤ slot') (word : g.startOf slot'.toNat < UInt64.size) :
    g.slotToTimestamp slot ≤ g.slotToTimestamp slot' := by
  have starts := g.startOf_strictMono.monotone (UInt64.le_iff_toNat_le.mp le)
  rw [UInt64.le_iff_toNat_le, fits.toNat_slotToTimestamp word,
    fits.toNat_slotToTimestamp (Nat.lt_of_le_of_lt starts word)]
  exact starts

theorem timestampToSlot_mono (le : time ≤ time') :
    g.timestampToSlot time ≤ g.timestampToSlot time' := by
  rcases UInt64.lt_or_le time g.byronTimestamp with early | started
  · rw [fits.timestampToSlot_of_lt early]
    exact UInt64.zero_le
  · have low := (fits.startOf_timestampToSlot started).1
    have high := (fits.startOf_timestampToSlot (UInt64.le_trans started le)).2
    have starts : g.startOf (g.timestampToSlot time).toNat <
        g.startOf ((g.timestampToSlot time').toNat + 1) := by
      calc
        _ ≤ time.toNat := low
        _ ≤ time'.toNat := UInt64.le_iff_toNat_le.mp le
        _ < _ := high
    have slots := g.startOf_strictMono.lt_iff_lt.mp starts
    exact UInt64.le_iff_toNat_le.mpr (Nat.le_of_lt_succ slots)

end Fits

/-- The slot of a time starts no later than that and ends after it; times before the first slot
count as its. A slot is that of the time it starts at, and neither way later means earlier. What is
asked of the genesis, and of a slot whose start is taken, is that words can hold the times. -/
theorem timestampToSlot_contains (fits : g.Fits) :
    (∀ slot, g.startOf slot.toNat < UInt64.size →
      (g.slotToTimestamp slot).toNat = g.startOf slot.toNat ∧
      g.timestampToSlot (g.slotToTimestamp slot) = slot ∧
      ∀ earlier ≤ slot, g.slotToTimestamp earlier ≤ g.slotToTimestamp slot) ∧
    (∀ time, g.byronTimestamp ≤ time →
      g.slotToTimestamp (g.timestampToSlot time) ≤ time ∧
      (g.startOf ((g.timestampToSlot time).toNat + 1) < UInt64.size →
        time < g.slotToTimestamp (g.timestampToSlot time + 1))) ∧
    (∀ time, time < g.byronTimestamp → g.timestampToSlot time = 0) ∧
    ∀ time time', time ≤ time' → g.timestampToSlot time ≤ g.timestampToSlot time' := by
  refine ⟨fun slot word => ⟨fits.toNat_slotToTimestamp word,
    fits.timestampToSlot_slotToTimestamp word, fun earlier le => fits.slotToTimestamp_mono le word⟩,
    fun time started => ?_, fun time => fits.timestampToSlot_of_lt,
    fun time time' => fits.timestampToSlot_mono⟩
  obtain ⟨low, high⟩ := fits.startOf_timestampToSlot started
  constructor
  · rw [UInt64.le_iff_toNat_le, fits.toNat_slotToTimestamp]
    · exact low
    · exact Nat.lt_of_le_of_lt low time.toNat_lt_size
  · intro word
    have next : (g.timestampToSlot time + 1).toNat = (g.timestampToSlot time).toNat + 1 :=
      UInt64.toNat_add_eq rfl rfl (Nat.lt_of_le_of_lt (le_startOf g _) word)
    rw [UInt64.lt_iff_toNat_lt, fits.toNat_slotToTimestamp] <;> rw [next]
    · exact high
    · exact word

theorem timestampToSlot_contains_boundary : mainnet.Fits ∧
    mainnet.timestampToSlot (mainnet.slotToTimestamp 4492800) = 4492800 ∧
    mainnet.slotToTimestamp 4492799 ≤ mainnet.slotToTimestamp 4492800 ∧
    mainnet.timestampToSlot 1596059090 = 4492799 ∧
    mainnet.slotToTimestamp (mainnet.timestampToSlot 1596059090) ≤ 1596059090 ∧
    1596059090 < mainnet.slotToTimestamp (mainnet.timestampToSlot 1596059090 + 1) ∧
    mainnet.timestampToSlot 1506203090 = 0 := by
  have fits : mainnet.Fits := by
    unfold Fits
    decide
  obtain ⟨slots, times, early, _⟩ := timestampToSlot_contains fits
  obtain ⟨_, back, mono⟩ := slots 4492800 (by decide)
  obtain ⟨starts, ends⟩ := times 1596059090 (by decide)
  exact ⟨fits, back, mono 4492799 (by decide), by decide, starts, ends (by decide),
    early 1506203090 (by decide)⟩

end ConwayTx.Genesis

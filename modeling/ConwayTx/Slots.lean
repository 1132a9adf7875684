import ConwayTx.Word

namespace ConwayTx

structure Genesis where
  byronTimestamp : UInt64
  shelleyEpoch : UInt64
  shelleyEpochLength : UInt64
  deriving DecidableEq, Repr

namespace Genesis

def mainnet : Genesis := ⟨1506203091, 208, 432000⟩

def preprod : Genesis := ⟨1654041600, 4, 432000⟩

def preview : Genesis := ⟨1666656000, 0, 86400⟩

def mainnetMagic : UInt32 := 764824073

def ofMagic? (magic : UInt32) : Option Genesis :=
  if magic = mainnetMagic then some mainnet
  else if magic = 1 then some preprod
  else if magic = 2 then some preview
  else none

def byronEpochLength : UInt64 := 21600

def byronSlotLength : UInt64 := 20

def shelleyStart (g : Genesis) : UInt64 := g.shelleyEpoch * byronEpochLength

def shelleyTimestamp (g : Genesis) : UInt64 :=
  g.byronTimestamp + g.shelleyStart * byronSlotLength

def slotToEpoch? (g : Genesis) (slot : UInt64) : Option UInt64 :=
  if slot < g.shelleyStart then some (slot / byronEpochLength)
  else if g.shelleyEpochLength = 0 then none
  else some (g.shelleyEpoch + (slot - g.shelleyStart) / g.shelleyEpochLength)

def slotToTimestamp (g : Genesis) (slot : UInt64) : UInt64 :=
  if slot < g.shelleyStart then g.byronTimestamp + slot * byronSlotLength
  else g.shelleyTimestamp + (slot - g.shelleyStart)

/-- The slot that a time falls into; slot zero before the chain started. -/
def timestampToSlot (g : Genesis) (timestamp : UInt64) : UInt64 :=
  if g.shelleyTimestamp ≤ timestamp then g.shelleyStart + (timestamp - g.shelleyTimestamp)
  else timestamp.saturatingSub g.byronTimestamp / byronSlotLength

end Genesis

end ConwayTx

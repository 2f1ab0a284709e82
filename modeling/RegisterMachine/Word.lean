/-
This file lays words out as bytes, the least significant byte first.
-/

namespace RegisterMachine.Word

def toBytes (word : UInt32) : List UInt8 :=
  [UInt8.ofNat word.toNat, UInt8.ofNat (word.toNat >>> 8),
    UInt8.ofNat (word.toNat >>> 16), UInt8.ofNat (word.toNat >>> 24)]

def ofBytes (first second third fourth : UInt8) : UInt32 :=
  UInt32.ofNat
    (first.toNat + second.toNat <<< 8 + third.toNat <<< 16 + fourth.toNat <<< 24)

@[simp] theorem toBytesLength (word : UInt32) : (toBytes word).length = 4 := rfl

theorem ofBytesToNat (first second third fourth : UInt8) :
    (ofBytes first second third fourth).toNat =
      first.toNat + second.toNat <<< 8 + third.toNat <<< 16 + fourth.toNat <<< 24 := by
  have firstBound := first.toNat_lt
  have secondBound := second.toNat_lt
  have thirdBound := third.toNat_lt
  have fourthBound := fourth.toNat_lt
  simp only [ofBytes, UInt32.toNat_ofNat']
  omega

theorem toBytesOfBytes (first second third fourth : UInt8) :
    toBytes (ofBytes first second third fourth) = [first, second, third, fourth] := by
  have firstBound := first.toNat_lt
  have secondBound := second.toNat_lt
  have thirdBound := third.toNat_lt
  have fourthBound := fourth.toNat_lt
  simp only [toBytes, ofBytesToNat, List.cons.injEq, and_true, ← UInt8.toNat_inj,
    UInt8.toNat_ofNat']
  omega

/-- A word is read back from the bytes it was laid out as. -/
theorem ofBytesToBytes (word : UInt32) :
    ofBytes (UInt8.ofNat word.toNat) (UInt8.ofNat (word.toNat >>> 8))
      (UInt8.ofNat (word.toNat >>> 16)) (UInt8.ofNat (word.toNat >>> 24)) = word := by
  have wordBound := word.toNat_lt
  simp only [← UInt32.toNat_inj, ofBytesToNat, UInt8.toNat_ofNat']
  omega

end RegisterMachine.Word
